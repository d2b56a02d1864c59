import Rtos.Proofs.Pool

/-!
# Creation when something runs out

A creation for which there is no room is refused, and that is all that can happen to it as long as
its sizes can be rounded up. The sizes that cannot are the few next to the largest word: they are
added to and rounded up before anything is checked.
-/

namespace Rtos

namespace Call

theorem roundUp_lt_iff {size : Nat} :
    roundUp size < Limits.wordBound ↔ size + Limits.slotAlignment ≤ Limits.wordBound := by
  simp only [roundUp, Limits.slotAlignment, Limits.wordBound, UInt64.size]
  omega

/-- The rounded size is the least multiple of the alignment that is not below the size. -/
theorem roundUp_spec (size : Nat) : Limits.slotAlignment ∣ roundUp size ∧ size ≤ roundUp size ∧
    ∀ n, Limits.slotAlignment ∣ n → size ≤ n → roundUp size ≤ n := by
  simp only [roundUp, Limits.slotAlignment]
  refine ⟨Nat.dvd_mul_left _ _, by omega, fun n multiple above => ?_⟩
  obtain ⟨m, rfl⟩ := multiple
  omega

end Call

namespace KernelCall

/-- The calls that create something. -/
inductive Creates : {ι : Type} → KernelCall (Except Error ι) → Prop
  | task (entry : Entry) (arg : UInt64) (name : String) (priority : UInt8) (stack : Stack) :
      Creates (.createTask entry arg name priority stack)
  | semaphore (name : String) (count : UInt32) : Creates (.createSemaphore name count)
  | mutex (name : String) : Creates (.createMutex name)
  | queue (name : String) (kind : QueueKind) : Creates (.createQueue name kind)
  | pool (name : String) (kind : QueueKind) (count size : Nat) :
      Creates (.createPool name kind count size)
  | taggedPool (name : String) (kind : QueueKind) (count size : Nat) :
      Creates (.createTaggedPool name kind count size)

/-- Whether the size that the call is given, with its header if it gets one, is so close to the
largest word that it cannot be rounded up. -/
def Overflows {α : Type} : KernelCall α → Prop
  | createPool _ _ _ size => Limits.wordBound < size + Limits.slotAlignment
  | createTaggedPool _ _ _ size => Limits.wordBound < size + tagBytes + Limits.slotAlignment
  | _ => False

end KernelCall

namespace Program.Yields

variable {heap : Heap} {c : Core} {name : String}

theorem reserveStack {stack : Stack} {P : Except Fault Bool → Core → Prop}
    (h : ∀ granted, P (.ok granted) c) : (Call.reserveStack stack).Yields heap P c := by
  cases stack with
  | heap bytes => exact reserve fun granted _ => h granted
  | fixed _ => exact .done (h true)

theorem createTask {entry : Entry} {arg : UInt64} {priority : UInt8} {stack : Stack}
    {P : Except Fault (Except Error TaskId) → Core → Prop}
    (refuses : ∀ c', P (.ok (.error .noMemory)) c') (adds : ∀ t c', P (.ok (.ok t)) c') :
    (Call.createTask entry arg name priority stack).Yields heap P c := by
  refine bind (reading ?_)
  change Yields heap P (if c.kernel.taskTableIsFull then _ else _) c
  split
  · exact bind (note (.done (refuses c)))
  refine bind (reserveStack fun granted => ?_)
  cases granted with
  | false => exact bind (note (.done (refuses c)))
  | true =>
    refine bind (quiet rfl (fun _ _ same => same) fun sp => .done ?_)
    refine bind (adding rfl (fun _ => ?_) fun t k _ => ?_)
    · exact bind (note (.done (refuses c)))
    · exact bind (note (.done (adds t _)))

theorem createMutex {P : Except Fault (Except Error MutexId) → Core → Prop}
    (refuses : ∀ c', P (.ok (.error .noMemory)) c') (adds : ∀ m c', P (.ok (.ok m)) c') :
    (Call.createMutex name).Yields heap P c := by
  refine bind (adding rfl (fun _ => ?_) fun m k _ => ?_)
  · exact bind (note (.done (refuses c)))
  · exact bind (note (.done (adds m _)))

end Program.Yields

theorem Program.Yields.createsPool {heap : Heap} {c : Core} {name : String} {kind : QueueKind}
    {count size : Nat} {P : Except Fault (Except Error QueueId) → Core → Prop}
    (fits : size + Limits.slotAlignment ≤ Limits.wordBound →
      ∀ r c', (∃ q, r = .ok q) ∨ r = .error .noMemory → P (.ok r) c')
    (overflows : Limits.wordBound < size + Limits.slotAlignment → P (.error .addOverflow) c) :
    (Call.createPool name kind count size).Yields heap P c := by
  by_cases rounds : Call.roundUp size < Limits.wordBound
  · have fits := fits (Call.roundUp_lt_iff.1 rounds)
    exact createPoolWith rounds (fun _ _ => fits _ _ (.inr rfl)) (fun _ => fits _ _ (.inr rfl))
      fun _ c' _ => fits _ c' (.inl ⟨_, rfl⟩)
  · rw [Call.createPool, Call.createPoolWith, if_pos (Nat.le_of_not_lt rounds)]
    exact fault (overflows (Nat.lt_of_not_le fun h => rounds (Call.roundUp_lt_iff.2 h)))

/-- A creation succeeds or is refused for want of memory, whatever state the kernel is in and
whatever its heap refuses, unless it overflows. -/
theorem KernelCall.Creates.exhausts {ι : Type} {call : KernelCall (Except Error ι)}
    (creates : call.Creates) (heap : Heap) (c : Core) :
    call.program.Yields heap (fun r c' => match r with
      | .ok r => ¬ call.Overflows ∧ ((∃ made, r = .ok made) ∨ r = .error .noMemory)
      | .error f => call.Overflows ∧ f = .addOverflow ∧ c' = c) c := by
  cases creates with
  | task => exact .createTask (fun _ => ⟨id, .inr rfl⟩) fun t _ => ⟨id, .inl ⟨t, rfl⟩⟩
  | semaphore =>
    exact .createSemaphore (fun _ => ⟨id, .inr rfl⟩) fun _ => ⟨id, .inl ⟨_, rfl⟩⟩
  | mutex => exact .createMutex (fun _ => ⟨id, .inr rfl⟩) fun m _ => ⟨id, .inl ⟨m, rfl⟩⟩
  | queue => exact .createQueue (fun _ => ⟨id, .inr rfl⟩) fun _ => ⟨id, .inl ⟨_, rfl⟩⟩
  | pool =>
    exact .createsPool (fun fits r _ made => ⟨Nat.not_lt_of_le fits, made⟩)
      fun overflows => ⟨overflows, rfl, rfl⟩
  | taggedPool name kind count size =>
    by_cases header : Limits.wordBound ≤ size + tagBytes
    · rw [KernelCall.program, Call.createTaggedPool, if_pos header]
      have overflows : Limits.wordBound < size + tagBytes + Limits.slotAlignment :=
        Nat.lt_of_le_of_lt header (Nat.lt_add_of_pos_right (by decide))
      exact .fault ⟨overflows, rfl, rfl⟩
    · rw [KernelCall.program, Call.createTaggedPool, if_neg header]
      exact .createsPool (fun fits r _ made => ⟨Nat.not_lt_of_le fits, made⟩)
        fun overflows => ⟨overflows, rfl, rfl⟩

/-- One message of the largest size that a word can state. -/
theorem exhausts_largest :
    (KernelCall.createPool "p" .driver 1 (Limits.wordBound - 1)).Creates ∧
    (KernelCall.createPool "p" .driver 1 (Limits.wordBound - 1)).program.Yields .any
      (fun r _ => r = .error .addOverflow) {} := by
  refine ⟨.pool .., (KernelCall.Creates.exhausts (.pool ..) .any {}).imp fun r c' ends => ?_⟩
  cases r with
  | ok r => exact absurd (show Limits.wordBound < _ from by decide) ends.1
  | error f => rw [ends.2.1]

end Rtos
