import Rtos.Proofs.Ownership
import Rtos.Proofs.PlantRuns
import Rtos.Proofs.WaitLists

/-!
# The plant meets no fault

The faults that tell of a broken kernel are ruled out in every system. The others are those of a call
that asks for too much, and the parts of the plant never do: all that they look for is there, there is
room for every message, they unlock what they have locked, and they read no further than a buffer goes.
-/

namespace Rtos

open Pipeline

theorem Kernel.QueuesInOrder.length_queued_le {k : Kernel} (h : k.QueuesInOrder) (q : QueueId) :
    (k.queued q).length ≤ k.slots.length := by
  have known : k.queued q ⊆ k.slotIds := by
    intro id hid
    obtain ⟨home, payload, label⟩ := h.filed q id hid
    exact Kernel.mem_slotIds.2 (Kernel.lt_of_label label)
  have le := ((h.nodup q).subperm known).length_le
  rwa [Kernel.slotIds, List.length_map, List.length_range] at le

theorem Kernel.Furnished.queue {k : Kernel} (h : k.Furnished) {q : QueueId} (known : q.index < 3) :
    ∃ queue, k.queues[q.index]? = some queue := by
  have size : k.queues.length = 3 := by
    have forms := congrArg List.length h.forms
    rwa [Kernel.forms, List.length_map] at forms
  exact ⟨_, List.getElem?_eq_getElem (size ▸ known)⟩

namespace Spot

variable {x : Spot} {β : Type} {call : KernelCall β} {next : β → Spot} {q : QueueId} {m : Message}

end Spot

namespace Station

variable {x : Spot} {ph : Phase} {β : Type} {call : KernelCall β} {next : β → Spot}

theorem Shaped.length_le {m : TaggedMessage} {length : UInt16}
    (h : (calls x { cargo := [m.message] }).Shaped) (does : x.deed objects = .call call next)
    (stamps : call.stamps = some (m, length)) : length.toNat ≤ m.capacity := by
  have mine (keeps : List Message) : m.message ∈ keeps ++ [m.message] :=
    List.mem_append_right _ (List.mem_singleton.2 rfl)
  have fits : m.message.payload.length = 20 := h.fits _ (mine _)
  have room : m.capacity = 16 := by
    rw [TaggedMessage.capacity, fits]
    rfl
  rw [room]
  cases x <;> cases does <;> cases stamps
  case fills => decide
  case passes =>
    have filled : m.length = 4 := h.filled rfl _ (mine _)
    rw [filled]
    decide

end Station

namespace Scene

open Section

/-- There is room for one more message on every queue, and every buffer has a slot. -/
structure Stocked (s : Scene) : Prop where
  room : ∀ (q : QueueId) queue, s.core.kernel.queues[q.index]? = some queue →
    HasRoom s.core.kernel queue.discipline
  known : ∀ part, ∀ m ∈ (s.station part).hand, m.id.index < s.core.kernel.slots.length

variable {s : Scene} {part : Part}

end Scene

theorem KernelCall.May.source_of_claims {me : TaskId} {β γ : Type} {call : KernelCall γ} {ph : Phase}
    {a : Action β} {b : β} (may : call.May me ph a) {sem : SemId}
    (claims : a.claims b = some (.semaphore sem)) : call.source ≠ none := by
  have tried := Action.claims_eq_some.1 claims
  cases may
  case waits => exact nofun
  case resumes => exact nofun
  case locks => exact nomatch tried
  case relocks => exact nomatch tried
  all_goals cases tried

namespace Plant

variable {p p' : Plant} {part : Part} {f : Fault}

/-- The semaphores of the two task queues are used through the queues alone. -/
def Untouched (log : List Record) : Prop := ∀ r ∈ log, ∀ sem : SemId, sem.index < 2 → ¬ r.Touches sem

theorem log_started (clock : Clock) : (started clock).log = (System.run Script.plant).log := by
  dsimp only [started]

theorem Runs.untouched (h : p.Runs) : Untouched p.log := by
  have port {k : Kernel} {who : Caller} {call : Option ((α : Type) × KernelCall α)} {γ : Type}
      {a : Action γ} {b : γ} {log : List Record} (old : Untouched log) (posts : a.posts = none)
      (claims : ∀ sem, a.claims b = some (.semaphore sem) → Record.source ⟨k, who, call, ⟨a, b⟩⟩ ≠ none) :
      Untouched (⟨k, who, call, ⟨a, b⟩⟩ :: log) := by
    refine List.forall_mem_cons.2 ⟨fun sem _ touches => ?_, old⟩
    rcases touches with posted | ⟨claimed, none⟩
    · exact nomatch posts.symm.trans posted
    · exact claims sem claimed none
  induction h with
  | starts clock =>
    have log : ∀ r ∈ (System.run Script.plant).log, ∀ i < 2, ¬ r.Touches ⟨i⟩ := by decide +kernel
    rw [← log_started clock] at log
    exact fun r hr sem known => log r hr sem.index known
  | step before step ih =>
    cases step with
    | acts part x call next a rest ph b c up here result =>
      have may := (before.ruled.obeys _ _ _ _ _ _ here).1
      exact port ih (by cases may <;> rfl) fun sem claims => may.source_of_claims claims
    | ticks u c result => exact port ih rfl nofun
    | switches sp resumed c result => exact port ih rfl nofun
    | _ => exact ih

theorem Runs.isPrivate (h : p.Runs) {s : System} (shows : p.Shows s) (q : QueueId) : s.Private q := by
  rintro sem found ⟨r, hr, touches⟩
  have known : sem.index < 2 := by
    rw [shows.core, Kernel.queueSemaphore_eq_ok, Option.map_eq_some_iff] at found
    obtain ⟨queue, which, is⟩ := found
    have form : queue.form ∈ p.core.kernel.forms :=
      List.mem_map_of_mem (List.mem_of_getElem? which)
    rw [h.ruled.furnished.forms, Queue.form, is] at form
    simp only [List.mem_cons, Prod.mk.injEq, Option.some.injEq, reduceCtorEq, false_and,
      List.not_mem_nil, or_false] at form
    rcases form with ⟨rfl, -⟩ | ⟨rfl, -⟩ <;> decide
  exact h.untouched r (shows.log ▸ hr) sem known touches

theorem Runs.stocked (h : p.Runs) : p.scene.Stocked := by
  obtain ⟨s, reachable, shows⟩ := h.shown
  have few (q : QueueId) : (p.core.kernel.queued q).length ≤ 8 :=
    h.ruled.furnished.slots ▸ h.order.length_queued_le q
  have inStep := reachable.counted.inStep_of
  have room {n : UInt32} (bound : n.toNat ≤ 8) : n + 1 ≠ 0 := by
    intro zero
    have sum := congrArg UInt32.toNat zero
    rw [UInt32.toNat_add, UInt32.toNat_one, UInt32.toNat_zero] at sum
    omega
  refine ⟨fun q queue which => ?_, fun part m hm => ?_⟩
  · have which : p.core.kernel.queues[q.index]? = some queue := which
    cases hd : queue.discipline with
    | task sem =>
      have found : s.core.kernel.queueSemaphore q = .ok (some sem) := by
        rw [shows.core, Kernel.queueSemaphore_eq_ok, which, Option.map_some, hd]
        rfl
      obtain ⟨x, hx, count⟩ := inStep.tasks q sem found (h.isPrivate shows q)
      rw [shows.core] at hx count
      have few := few q
      exact ⟨x, hx, room (by omega)⟩
    | driver d =>
      have count := inStep.drivers q queue d (shows.core ▸ which) hd
      rw [shows.core] at count
      exact room (count ▸ few q)
  · have home := (reachable.accounts.conserved reachable.inContract).homes m
      (shows.holders.mem_iff.2 (@mem_hands p part m ?_))
    · rw [shows.core, Kernel.homeOf, Option.map_eq_some_iff] at home
      obtain ⟨x, label, -⟩ := home
      exact Kernel.lt_of_label label
    · rwa [← Job.hand_station]

def Meets {β : Type} (p : Plant) (rest : Program Unit β) (f : Fault) : Prop :=
  (∃ (γ : Type) (next : γ → Program Unit β), rest = .ask (.fault f) next) ∨
    ∃ (γ : Type) (a : Action γ) (next : Except Fault γ → Program Unit β) (c : Core),
      rest = .ask (.act a) next ∧ a.toSection p.core = .error f c

end Plant

end Rtos
