import Mathlib.Data.List.Chain
import Rtos.Proofs.Trail

/-!
# Creation under interference

A creation looks for room in one section and adds to the tables in later ones, so others may take the
room in between. One that fails leaves nothing behind, whoever came in between, with two exceptions:
a task queue for which there is no place any more leaves its semaphore, and a pool for which there are
no slots any more leaves its queue.
-/

namespace Rtos

/-- What comes of the operations of others when nobody else does anything. -/
def Core.alone (c : Core) (ops : List (Core → Core)) : Core := ops.foldl (fun c op => op c) c

/-- A call that began in `c` has carried out the sections of the trail, latest first, while others
carried out `ops`; the program is left. None of its other requests touches the core. -/
inductive KernelCall.Amid {γ : Type} (call : KernelCall γ) (c : Core) :
    List (Core → Core) → List Passage → Program Unit γ → Core → Prop
  | begins : call.Amid c [] [] call.program c
  | others {ops : List (Core → Core)} {trail : List Passage} {p : Program Unit γ} {c₁ : Core}
      (op : Core → Core) (before : call.Amid c ops trail p c₁) : call.Amid c (ops ++ [op]) trail p (op c₁)
  | acts {β : Type} {ops : List (Core → Core)} {trail : List Passage} {a : Action β}
      {next : Except Fault β → Program Unit γ} {b : β} {c₁ c₂ : Core}
      (before : call.Amid c ops trail (.ask (.act a) next) c₁) (result : a.toSection c₁ = .ok b c₂) :
      call.Amid c ops (⟨c₁.kernel, ⟨a, b⟩, c₂.kernel⟩ :: trail) (next (.ok b)) c₂
  | goesOn {β : Type} {ops : List (Core → Core)} {trail : List Passage} {r : Request Unit β}
      {next : β → Program Unit γ} {b : β} {c₁ : Core}
      (before : call.Amid c ops trail (.ask r next) c₁) (answer : Reply r c₁ b c₁) :
      call.Amid c ops trail (next b) c₁
  | unrolls {β τ : Type} {ops : List (Core → Core)} {trail : List Passage}
      {body : τ → Program Unit (τ ⊕ β)} {t : τ} {next : β → Program Unit γ} {c₁ : Core}
      (before : call.Amid c ops trail (.loop body t next) c₁) :
      call.Amid c ops trail (Program.unroll body t next) c₁

def Action.enters {β : Type} : Action β → Bool
  | read _ | addTask .. | addSemaphore .. | addMutex .. | addQueue .. | addPool .. => true
  | _ => false

/-- The section only looked, or there was no room for what it had to add. -/
structure Passage.Idle (p : Passage) : Prop where
  enters : p.outcome.action.enters
  same : p.after = p.before

namespace KernelCall

/-- Whether the call creates something and returns that there is no room for it. -/
def fails : {α : Type} → KernelCall α → α → Prop
  | _, createTask .., r => r = .error .noMemory
  | _, createSemaphore .., r => r = .error .noMemory
  | _, createMutex _, r => r = .error .noMemory
  | _, createQueue .., r => r = .error .noMemory
  | _, createPool .., r => r = .error .noMemory
  | _, createTaggedPool .., r => r = .error .noMemory
  | _, _, _ => False

end KernelCall

/-- The sections that created a queue, latest first: there was room, a task queue got its semaphore,
and the queue was added. -/
inductive QueueMade (name : String) (q : QueueId) : QueueKind → List Passage → Prop
  | driver (looked added : Passage) (room : looked.before.queueTableIsFull = false)
      (looks : looked.Idle)
      (adds : added.before.addQueue name (.driver {}) = some (q, added.after)) :
      QueueMade name q .driver [added, looked]
  | task (s : SemId) (looked ready added : Passage)
      (room : looked.before.queueTableIsFull = false) (looks : looked.Idle)
      (readies : ready.before.addSemaphore name 0 = some (s, ready.after))
      (adds : added.before.addQueue name (.task s) = some (q, added.after)) :
      QueueMade name q .task [added, ready, looked]

/-- The sections, latest first, of a creation that failed and left something behind. -/
inductive Remnant : {α : Type} → KernelCall α → List Passage → Prop
  /-- There was room for the queue, which got its semaphore, and then there was none. -/
  | semaphore (name : String) (s : SemId) (looked ready refused : Passage)
      (room : looked.before.queueTableIsFull = false) (looks : looked.Idle)
      (readies : ready.before.addSemaphore name 0 = some (s, ready.after))
      (full : refused.before.queueTableIsFull) (refuses : refused.Idle) :
      Remnant (.createQueue name .task) [refused, ready, looked]
  /-- That happened to the queue of a pool. -/
  | noQueue {name : String} {kind : QueueKind} {trail : List Passage} (count size : Nat)
      (looked : Passage) (room : looked.before.slotsFit count) (looks : looked.Idle)
      (remnant : Remnant (.createQueue name kind) trail) :
      Remnant (.createPool name kind count size) (trail ++ [looked])
  /-- There was room for the slots of the pool, which got its queue, and then there was none. -/
  | queue {name : String} {kind : QueueKind} {q : QueueId} {trail : List Passage} (count size : Nat)
      (looked refused : Passage) (room : looked.before.slotsFit count) (looks : looked.Idle)
      (made : QueueMade name q kind trail) (full : refused.before.slotsFit count = false)
      (refuses : refused.Idle) :
      Remnant (.createPool name kind count size) (refused :: (trail ++ [looked]))
  | tagged {name : String} {kind : QueueKind} {count size : Nat} {trail : List Passage}
      (remnant : Remnant (.createPool name kind count (size + tagBytes)) trail) :
      Remnant (.createTaggedPool name kind count size) trail

namespace KernelCall.Amid

variable {γ : Type} {call : KernelCall γ} {c c' : Core} {ops : List (Core → Core)}
  {trail : List Passage} {p : Program Unit γ}

theorem performs (h : call.Amid c ops trail p c') : Performs .handler call trail p := by
  induction h with
  | begins => exact .begins
  | others _ _ ih => exact ih
  | acts _ result ih => exact ih.acts trivial result
  | goesOn _ answer ih => exact ih.goesOn answer
  | unrolls _ ih => exact ih.unrolls

end KernelCall.Amid

theorem Action.eq_of_enters {β : Type} {a : Action β} {b : β} {c c' : Core} (enters : a.enters)
    (result : a.toSection c = .ok b c') (same : c'.kernel = c.kernel) : c' = c := by
  have adding {α : Type} {f : Kernel → Option (α × Kernel)} {b : Option α}
      (result : Section.adding f c = .ok b c') : c' = c := by
    rcases Section.adding_eq_ok result with ⟨-, -, rfl⟩ | ⟨_, k, -, -, rfl⟩
    · rfl
    · obtain rfl : k = c.kernel := same
      rfl
  cases a with
  | read f => exact (Section.reading_eq_ok.1 result).2.symm
  | addTask | addSemaphore | addMutex | addQueue | addPool => exact adding result
  | _ => cases enters

theorem KernelCall.Amid.eq_alone {γ : Type} {call : KernelCall γ} {c c' : Core}
    {ops : List (Core → Core)} {trail : List Passage} {p : Program Unit γ}
    (h : call.Amid c ops trail p c') (idle : ∀ p ∈ trail, p.Idle) : c' = c.alone ops := by
  induction h with
  | begins => rfl
  | others op _ ih => rw [ih idle, Core.alone, Core.alone, List.foldl_append, List.foldl_cons, List.foldl_nil]
  | acts _ result ih =>
    obtain ⟨⟨enters, same⟩, before⟩ := List.forall_mem_cons.1 idle
    exact (Action.eq_of_enters enters result same).trans (ih before)
  | goesOn _ _ ih => exact ih idle
  | unrolls _ ih => exact ih idle

def AnySection (_ : List Passage) {β : Type} (_ : Action β) : Prop := True

def AnyFault (_ : List Passage) (_ : Fault) : Prop := True

namespace Follows

variable {who : Caller} {γ : Type} {call : KernelCall γ} {trail : List Passage} {name : String}

theorem free {α : Type} {p : Program Unit α} :
    Follows who call AnySection AnyFault p (fun _ _ => True) trail := by
  induction p generalizing trail with
  | done a => trivial
  | ask r next ih =>
    cases r
    case act a => exact ⟨trivial, fun c b c' _ _ => ih _⟩
    case fault f => trivial
    all_goals exact fun b => ih b
  | loop body t next ihb ihn =>
    refine ⟨fun _ _ => True, trivial, fun t trail _ => (ihb t).imp fun r trail _ => ?_⟩
    cases r with
    | inl t => trivial
    | inr b => exact ihn b

theorem done {α : Type} {a : α} {Q : α → List Passage → Prop} (h : Q a trail) :
    Follows who call AnySection AnyFault (Program.done a) Q trail := h

theorem reading {α : Type} {f : Kernel → Except Fault α} {Q : α → List Passage → Prop}
    (looks : ∀ p a, p.Idle → f p.before = .ok a → Q a (p :: trail)) :
    Follows who call AnySection AnyFault (Program.reading f) Q trail := by
  refine critical trivial fun c a c' result => ?_
  obtain ⟨seen, rfl⟩ := Section.reading_eq_ok.1 result
  exact looks _ a ⟨rfl, rfl⟩ seen

theorem adding {α : Type} {a : Action (Option α)} {f : Kernel → Option (α × Kernel)}
    {Q : Option α → List Passage → Prop} (enters : a.enters) (does : a.toSection = Section.adding f)
    (refuses : ∀ p, p.Idle → f p.before = none → Q none (p :: trail))
    (adds : ∀ p x, f p.before = some (x, p.after) → Q (some x) (p :: trail)) :
    Follows who call AnySection AnyFault (Program.critical a) Q trail := by
  refine critical trivial fun c b c' result => ?_
  rw [does] at result
  rcases Section.adding_eq_ok result with ⟨rfl, none, rfl⟩ | ⟨x, k, rfl, added, rfl⟩
  · exact refuses _ ⟨enters, rfl⟩ none
  · exact adds _ x added

theorem createSemaphore {n : UInt32} {Q : Except Error SemId → List Passage → Prop}
    (refuses : ∀ p, p.Idle → Q (.error .noMemory) (p :: trail))
    (adds : ∀ p s, p.before.addSemaphore name n = some (s, p.after) → Q (.ok s) (p :: trail)) :
    Follows who call AnySection AnyFault (Call.createSemaphore name n) Q trail :=
  .bind (.adding rfl rfl (fun p idle _ _ => refuses p idle) fun p s added _ => adds p s added)

theorem createMutex {Q : Except Error MutexId → List Passage → Prop}
    (refuses : ∀ p, p.Idle → Q (.error .noMemory) (p :: trail))
    (adds : ∀ p m, Q (.ok m) (p :: trail)) :
    Follows who call AnySection AnyFault (Call.createMutex name) Q trail :=
  .bind (.adding rfl rfl (fun p idle _ _ => refuses p idle) fun p m _ _ => adds p m)

theorem reserveStack {stack : Stack} {Q : Bool → List Passage → Prop} (h : ∀ granted, Q granted trail) :
    Follows who call AnySection AnyFault (Call.reserveStack stack) Q trail := by
  cases stack with
  | heap bytes => exact h
  | fixed _ => exact h true

theorem createTask {entry : Entry} {arg : UInt64} {priority : UInt8} {stack : Stack}
    {Q : Except Error TaskId → List Passage → Prop}
    (refuses : ∀ own, (∀ p ∈ own, p.Idle) → Q (.error .noMemory) (own ++ trail))
    (adds : ∀ own t, Q (.ok t) (own ++ trail)) :
    Follows who call AnySection AnyFault (Call.createTask entry arg name priority stack) Q trail := by
  refine .bind (.reading fun looked full looks _ => ?_)
  cases full with
  | true => exact fun _ => refuses [looked] (List.forall_mem_singleton.2 looks)
  | false =>
    split
    · contradiction
    refine .bind (reserveStack fun granted => ?_)
    split
    · intro sp
      refine .bind (p := Program.critical _) (.adding rfl rfl (fun p idle _ _ => ?_)
        fun p t _ _ => adds [p, looked] t)
      exact refuses [p, looked] (List.forall_mem_cons.2 ⟨idle, List.forall_mem_singleton.2 looks⟩)
    · exact fun _ => refuses [looked] (List.forall_mem_singleton.2 looks)

theorem createQueue {kind : QueueKind} {Q : Except Error QueueId → List Passage → Prop}
    (refuses : ∀ own, (∀ p ∈ own, p.Idle) → Q (.error .noMemory) (own ++ trail))
    (leaves : ∀ own, Remnant (.createQueue name kind) own → Q (.error .noMemory) (own ++ trail))
    (adds : ∀ own q, QueueMade name q kind own → Q (.ok q) (own ++ trail)) :
    Follows who call AnySection AnyFault (Call.createQueue name kind) Q trail := by
  refine .bind (.reading fun looked full looks seen => ?_)
  have seen : looked.before.queueTableIsFull = full := Except.ok.inj seen
  cases full with
  | true => exact fun _ => refuses [looked] (List.forall_mem_singleton.2 looks)
  | false =>
    cases kind with
    | driver =>
      refine .bind (.done ?_)
      refine .bind (p := Program.critical _) (.adding rfl rfl (fun p idle none _ => ?_)
        fun p q added _ => ?_)
      · exact refuses [p, looked] (List.forall_mem_cons.2 ⟨idle, List.forall_mem_singleton.2 looks⟩)
      · exact adds [p, looked] q (.driver looked p seen looks added)
    | task =>
      refine .bind (.bind (.createSemaphore (fun p idle => ?_) fun ready s readies => ?_))
      · exact refuses [p, looked] (List.forall_mem_cons.2 ⟨idle, List.forall_mem_singleton.2 looks⟩)
      refine .bind (.adding rfl rfl (fun p idle none _ => ?_) fun p q added _ => ?_)
      · have full : p.before.queueTableIsFull := Kernel.addQueue_eq_none none
        exact leaves [p, ready, looked] (.semaphore name s looked ready p seen looks readies full idle)
      · exact adds [p, ready, looked] q (.task s looked ready p seen looks readies added)

theorem reserveStorage {shape : PoolShape} {Q : Bool → List Passage → Prop}
    (h : ∀ granted, Q granted trail) :
    Follows who call AnySection AnyFault (Call.reserveStorage name shape) Q trail := by
  unfold Call.reserveStorage
  dsimp only
  split
  · exact h false
  intro granted
  cases granted with
  | true => exact h true
  | false => exact fun _ => h false

theorem createPool {kind : QueueKind} {count size : Nat} {Q : Except Error QueueId → List Passage → Prop}
    (refuses : ∀ own, (∀ p ∈ own, p.Idle) → Q (.error .noMemory) (own ++ trail))
    (leaves : ∀ own, Remnant (.createPool name kind count size) own →
      Q (.error .noMemory) (own ++ trail))
    (adds : ∀ trail q, Q (.ok q) trail) :
    Follows who call AnySection AnyFault (Call.createPool name kind count size) Q trail := by
  unfold Call.createPool Call.createPoolWith
  dsimp only
  split
  · trivial
  refine .bind (.reading fun looked fits looks seen => ?_)
  have seen : looked.before.slotsFit count = fits := Except.ok.inj seen
  cases fits with
  | false => exact fun _ => refuses [looked] (List.forall_mem_singleton.2 looks)
  | true =>
    refine .bind (.reserveStorage fun granted => ?_)
    cases granted with
    | false => exact refuses [looked] (List.forall_mem_singleton.2 looks)
    | true =>
      refine .bind (.createQueue (fun own idle => ?_) (fun own remnant => ?_) fun own q made => ?_)
      · rw [List.append_cons]
        refine refuses (own ++ [looked]) fun p hp => ?_
        rcases List.mem_append.1 hp with hp | hp
        · exact idle p hp
        · exact List.mem_singleton.1 hp ▸ looks
      · rw [List.append_cons]
        exact leaves (own ++ [looked]) (.noQueue count size looked seen looks remnant)
      refine .bind (.adding rfl rfl (fun p idle none => ?_) fun p first _ => ?_)
      · have full : p.before.slotsFit count = false := Kernel.addPool_eq_none none
        have left := leaves _ (.queue count size looked p seen looks made full idle)
        rw [List.cons_append, List.append_assoc] at left
        exact fun _ => left
      · exact .bind (free.imp fun _ trail _ _ => adds trail q)

theorem createTaggedPool {kind : QueueKind} {count size : Nat}
    {Q : Except Error QueueId → List Passage → Prop}
    (pool : Follows who call AnySection AnyFault (Call.createPool name kind count (size + tagBytes)) Q trail) :
    Follows who call AnySection AnyFault (Call.createTaggedPool name kind count size) Q trail := by
  unfold Call.createTaggedPool
  split
  · trivial
  · exact pool

end Follows

/-- What a creation that fails has done. -/
theorem KernelCall.follows_fails {γ : Type} (call : KernelCall γ) (who : Caller) :
    Follows who call AnySection AnyFault call.program
      (fun r trail => call.fails r → (∀ p ∈ trail, p.Idle) ∨ Remnant call trail) [] := by
  have idle {own : List Passage} (h : ∀ p ∈ own, p.Idle) : ∀ p ∈ own ++ [], p.Idle := by
    rwa [List.append_nil]
  have one {p : Passage} (h : p.Idle) : ∀ q ∈ [p], q.Idle := List.forall_mem_singleton.2 h
  cases call with
  | createTask => exact .createTask (fun _ h _ => .inl (idle h)) fun _ _ failed => nomatch failed
  | createSemaphore =>
    exact .createSemaphore (fun _ h _ => .inl (one h)) fun _ _ _ failed => nomatch failed
  | createMutex => exact .createMutex (fun _ h _ => .inl (one h)) fun _ _ failed => nomatch failed
  | createQueue =>
    exact .createQueue (fun _ h _ => .inl (idle h))
      (fun own h _ => .inr ((List.append_nil own).symm ▸ h)) fun _ _ _ failed => nomatch failed
  | createPool =>
    exact .createPool (fun _ h _ => .inl (idle h))
      (fun own h _ => .inr ((List.append_nil own).symm ▸ h)) fun _ _ failed => nomatch failed
  | createTaggedPool =>
    exact .createTaggedPool (.createPool (fun _ h _ => .inl (idle h))
      (fun own h _ => .inr ((List.append_nil own).symm ▸ .tagged h)) fun _ _ failed => nomatch failed)
  | _ => exact Follows.free.imp fun _ _ _ failed => failed.elim

/-- The later section began with the kernel that the earlier one left. -/
def Passage.Continues (later earlier : Passage) : Prop := later.before = earlier.after

theorem KernelCall.Amid.chained {γ : Type} {call : KernelCall γ} {c c' : Core}
    {ops : List (Core → Core)} {trail : List Passage} {p : Program Unit γ}
    (h : call.Amid c ops trail p c') (undisturbed : ops = []) :
    trail.IsChain Passage.Continues ∧ ∀ p ∈ trail.head?, c'.kernel = p.after := by
  induction h with
  | begins => exact ⟨.nil, fun p hp => by cases hp⟩
  | others => exact absurd undisturbed (List.append_ne_nil_of_right_ne_nil _ (List.cons_ne_nil _ _))
  | acts _ _ ih =>
    obtain ⟨chain, last⟩ := ih undisturbed
    exact ⟨List.isChain_cons.2 ⟨fun p hp => last p hp, chain⟩, fun p hp => Option.some.inj hp ▸ rfl⟩
  | goesOn _ _ ih => exact ih undisturbed
  | unrolls _ ih => exact ih undisturbed

theorem QueueMade.slots {name : String} {q : QueueId} {kind : QueueKind} {trail : List Passage}
    {first : Passage} (h : QueueMade name q kind trail)
    (chain : (trail ++ [first]).IsChain Passage.Continues) :
    ∃ added ∈ trail.head?, added.after.slots = first.after.slots := by
  cases h with
  | driver looked added room looks adds =>
    simp only [List.cons_append, List.nil_append, List.isChain_cons_cons, Passage.Continues] at chain
    obtain ⟨second, first, -⟩ := chain
    refine ⟨added, rfl, ?_⟩
    rw [(Kernel.addQueue_eq_some adds).2.2, second, looks.same, first]
  | task s looked ready added room looks readies adds =>
    simp only [List.cons_append, List.nil_append, List.isChain_cons_cons, Passage.Continues] at chain
    obtain ⟨third, second, first, -⟩ := chain
    refine ⟨added, rfl, ?_⟩
    rw [(Kernel.addQueue_eq_some adds).2.2, third, (Kernel.addSemaphore_eq_some readies).2.2, second,
      looks.same, first]

theorem Remnant.not_chained {γ : Type} {call : KernelCall γ} {trail : List Passage}
    (h : Remnant call trail) : ¬ trail.IsChain Passage.Continues := by
  induction h with
  | semaphore name s looked ready refused room looks readies full refuses =>
    -- Making a semaphore takes no place among the queues, so there still is one.
    intro chain
    simp only [List.isChain_cons_cons, Passage.Continues] at chain
    obtain ⟨second, first, -⟩ := chain
    rw [Kernel.queueTableIsFull, second, (Kernel.addSemaphore_eq_some readies).2.2, first,
      looks.same] at full
    cases room.symm.trans full
  | noQueue count size looked room looks remnant ih =>
    exact fun chain => ih (List.isChain_append.1 chain).1
  | queue count size looked refused room looks made full refuses =>
    intro chain
    -- Adding the queue takes no slots, so they still fit.
    obtain ⟨follows, chain⟩ := List.isChain_cons.1 chain
    obtain ⟨added, latest, slots⟩ := made.slots chain
    have before : refused.before = added.after :=
      follows added (by rw [List.head?_append, latest]; rfl)
    rw [Kernel.slotsFit, before, slots, looks.same, ← Kernel.slotsFit, room] at full
    cases full
  | tagged remnant ih => exact ih

/-- A creation that fails, whatever others do in between, leaves the kernel as they alone would have
left it, unless the last place for a queue or for the slots of a pool went to them while it was under
way: then the semaphore of the queue stays behind, or the queue of the pool. -/
theorem KernelCall.Amid.fails_clean {γ : Type} {call : KernelCall γ} {c c' : Core}
    {ops : List (Core → Core)} {trail : List Passage} {r : γ}
    (ran : call.Amid c ops trail (.done r) c') (failed : call.fails r) :
    c' = c.alone ops ∨ ops ≠ [] ∧ Remnant call trail := by
  rcases ran.performs.follows (call.follows_fails .handler) failed with idle | remnant
  · exact .inl (ran.eq_alone idle)
  · exact .inr ⟨fun undisturbed => remnant.not_chained (ran.chained undisturbed).1, remnant⟩

theorem Remnant.two_le_length {γ : Type} {call : KernelCall γ} {trail : List Passage}
    (h : Remnant call trail) : 2 ≤ trail.length := by
  induction h with
  | semaphore => exact Nat.le_add_left 2 1
  | noQueue _ _ _ _ _ _ ih =>
    rw [List.length_append]
    exact Nat.le_add_right_of_le ih
  | queue =>
    rw [List.length_cons, List.length_append]
    exact Nat.succ_le_succ (Nat.le_add_left 1 _)
  | tagged _ ih => exact ih

def Script.oneQueueLeft : Core :=
  { kernel := { queues := List.replicate 31 { name := "q", discipline := .driver {} } } }

def Script.takesQueue (c : Core) : Core :=
  match (Action.addQueue "late" (.driver {})).toSection c with
  | .ok _ c' | .error _ c' => c'

/-- A handler takes the last place for a queue while a task queue is created, whose semaphore stays
behind. It creates the same queue while a task is created, and the heap refuses the stack of 64 bytes:
then only the handler's queue is new. -/
theorem fails_clean_takesQueue :
    (∃ trail c', (KernelCall.createQueue "t" .task).Amid Script.oneQueueLeft [Script.takesQueue] trail
        (.done (.error .noMemory)) c' ∧
      c' ≠ Script.oneQueueLeft.alone [Script.takesQueue] ∧
      Remnant (.createQueue "t" .task) trail) ∧
    ∃ trail c', (KernelCall.createTask .worker 0 "a" 1 (.heap 64)).Amid {} [Script.takesQueue] trail
        (.done (.error .noMemory)) c' ∧ c' = ({} : Core).alone [Script.takesQueue] := by
  constructor
  · have begun : (KernelCall.createQueue "t" .task).Amid Script.oneQueueLeft [] []
        (Call.createQueue "t" .task) Script.oneQueueLeft := .begins
    have looked := ((begun.goesOn (.mask _ false)).acts (b := false) rfl).goesOn (.unmask _ _)
    have ready := ((looked.goesOn (.mask _ false)).acts (b := some ⟨0⟩) rfl).goesOn (.unmask _ _)
    have taken := (ready.others Script.takesQueue).goesOn (.note _ _)
    have refused := ((taken.goesOn (.mask _ false)).acts (b := none) rfl).goesOn (.unmask _ _)
    obtain ⟨trail, c', ran, differs⟩ : ∃ trail c',
        (KernelCall.createQueue "t" .task).Amid Script.oneQueueLeft [Script.takesQueue] trail
          (.done (.error .noMemory)) c' ∧ c' ≠ Script.oneQueueLeft.alone [Script.takesQueue] :=
      ⟨_, _, refused.goesOn (.note _ _), fun same =>
        absurd (congrArg (fun c : Core => c.kernel.semaphores.length) same) (by decide)⟩
    exact ⟨trail, c', ran, differs, ((ran.fails_clean rfl).resolve_left differs).2⟩
  · have begun : (KernelCall.createTask .worker 0 "a" 1 (.heap 64)).Amid {} [] []
        (Call.createTask .worker 0 "a" 1 (.heap 64)) {} := .begins
    have looked := ((begun.goesOn (.mask _ false)).acts (b := false) rfl).goesOn (.unmask _ _)
    have refused := (looked.others Script.takesQueue).goesOn (.reserve _ .any 64 false nofun)
    have ran := refused.goesOn (.note _ _)
    exact ⟨_, _, ran, (ran.fails_clean rfl).resolve_right fun left =>
      absurd left.2.two_le_length (Nat.lt_irrefl 1)⟩

end Rtos
