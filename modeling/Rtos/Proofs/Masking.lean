import Rtos.Proofs.Processor
import Rtos.Proofs.TaskStep

/-!
# Programs and the mask

`Guards` follows the mask through a program that begins while interrupts are masked or not: the program
masks interrupts before it looks at the kernel, goes back to the mask that it found right after, and
calls routines and returns outside of its masked sections only. In a window the mask is the caller's
again, and it still is when the program masks interrupts anew.
-/

namespace Rtos

namespace Service

variable {α β : Type}

def isSwitch : Service α → Bool
  | call _ => false
  | switch _ => true

/-- Which sections a service consists of: a switch is taken by itself, and the scheduler is started by
the call that is there for it. -/
def Carries (s : Service α) (a : Action β) : Prop :=
  a.switches = s.isSwitch ∧ (a.starts → s.isStart)

end Service

def Ends {α : Type} (_ : α) (sector : Sector) : Prop := sector = .outside

/-- The program of a service that found the mask `entry` keeps to the mask from where it is, and ends in
`Q`. -/
def Guards {γ : Type} (s : Service γ) (entry : Bool) :
    {α : Type} → Program Unit α → (α → Sector → Prop) → Sector → Prop
  | _, .done a, Q, sector => Q a sector
  | _, .ask r next, Q, sector =>
    match r, next with
    | .mask, next => sector = .outside ∧ Guards s entry (next entry) Q .fresh
    | .unmask saved, next => sector = .spent ∧ saved = entry ∧ Guards s entry (next ()) Q .outside
    | .act a, next => sector = .fresh ∧ s.Carries a ∧ ∀ b, Guards s entry (next b) Q .spent
    | .pend, next => sector = .fresh ∧ s.isStart ∧ Guards s entry (next ()) Q .fresh
    -- Nothing comes after it.
    | .startFirst _, _ => sector = .fresh
    | .put _ _, next => sector = .outside ∧ ∀ b, Guards s entry (next b) Q .outside
    | .control _ _ _ _, next => sector = .outside ∧ ∀ b, Guards s entry (next b) Q .outside
    | .fault _, _ => sector = .outside
    | _, next => ∀ b, Guards s entry (next b) Q sector
  | _, .loop (τ := τ) body t next, Q, sector => ∃ I : τ → Sector → Prop, I t sector ∧
      ∀ t sector, I t sector → Guards s entry (body t) (fun r sector => match r with
        | .inl t => I t sector
        | .inr b => Guards s entry (next b) Q sector) sector

namespace Guards

variable {α β γ : Type} {s : Service γ} {entry : Bool} {sector : Sector}

theorem imp {p : Program Unit α} {Q Q' : α → Sector → Prop} (h : Guards s entry p Q sector)
    (hQ : ∀ a sector, Q a sector → Q' a sector) : Guards s entry p Q' sector := by
  induction p generalizing sector with
  | done a => exact hQ a sector h
  | ask r next ih =>
    cases r
    case mask => exact ⟨h.1, ih _ h.2 hQ⟩
    case unmask saved => exact ⟨h.1, h.2.1, ih _ h.2.2 hQ⟩
    case act a => exact ⟨h.1, h.2.1, fun b => ih b (h.2.2 b) hQ⟩
    case pend => exact ⟨h.1, h.2.1, ih _ h.2.2 hQ⟩
    case startFirst sp => exact h
    case put r data => exact ⟨h.1, fun b => ih b (h.2 b) hQ⟩
    case control r data c arg => exact ⟨h.1, fun b => ih b (h.2 b) hQ⟩
    case fault f => exact h
    all_goals exact fun b => ih b (h b) hQ
  | loop body t next ihb ihn =>
    obtain ⟨I, hI, hbody⟩ := h
    refine ⟨I, hI, fun t sector ht => ihb t (hbody t sector ht) fun r sector hr => ?_⟩
    cases r with
    | inl t => exact hr
    | inr b => exact ihn b hr hQ

theorem bind {p : Program Unit α} {f : α → Program Unit β} {Q : β → Sector → Prop}
    (h : Guards s entry p (fun a sector => Guards s entry (f a) Q sector) sector) :
    Guards s entry (p.bind f) Q sector := by
  induction p generalizing sector with
  | done a => exact h
  | ask r next ih =>
    cases r
    case mask => exact ⟨h.1, ih _ h.2⟩
    case unmask saved => exact ⟨h.1, h.2.1, ih _ h.2.2⟩
    case act a => exact ⟨h.1, h.2.1, fun b => ih b (h.2.2 b)⟩
    case pend => exact ⟨h.1, h.2.1, ih _ h.2.2⟩
    case startFirst sp => exact h
    case put r data => exact ⟨h.1, fun b => ih b (h.2 b)⟩
    case control r data c arg => exact ⟨h.1, fun b => ih b (h.2 b)⟩
    case fault f => exact h
    all_goals exact fun b => ih b (h b)
  | loop body t next ihb ihn =>
    obtain ⟨I, hI, hbody⟩ := h
    refine ⟨I, hI, fun t sector ht => (hbody t sector ht).imp fun r sector hr => ?_⟩
    cases r with
    | inl t => exact hr
    | inr b => exact ihn b hr

theorem unroll {τ : Type} {body : τ → Program Unit (τ ⊕ β)} {t : τ} {next : β → Program Unit α}
    {Q : α → Sector → Prop} (h : Guards s entry (.loop body t next) Q sector) :
    Guards s entry (Program.unroll body t next) Q sector := by
  obtain ⟨I, hI, hbody⟩ := h
  refine bind ((hbody t sector hI).imp fun r sector hr => ?_)
  cases r with
  | inl t => exact ⟨I, hr, hbody⟩
  | inr b => exact hr

theorem seq {p : Program Unit α} {f : α → Program Unit β} {Q : β → Sector → Prop}
    (h : Guards s entry p Ends .outside) (hf : ∀ a, Guards s entry (f a) Q .outside) :
    Guards s entry (p.bind f) Q .outside := by
  refine bind (h.imp fun a sector ends => ?_)
  cases ends
  exact hf a

theorem outside_of_isAtRoutine {p : Program Unit α} {Q : α → Sector → Prop}
    (h : Guards s entry p Q sector) (routine : p.isAtRoutine) : sector = .outside := by
  cases p with
  | ask r next =>
    cases r
    case put | control => exact h.1
    all_goals cases routine
  | _ => cases routine

theorem reply {r : Request Unit β} {next : β → Program Unit α} {Q : α → Sector → Prop} {b : β}
    {c c' : Core} {masked' : Bool} {sector' : Sector} (h : Guards s entry (.ask r next) Q sector)
    (answer : Reply r c b c')
    (masking : Masking r (sector.isMasked || entry) sector b masked' sector') :
    masked' = (sector'.isMasked || entry) ∧ Guards s entry (next b) Q sector' := by
  cases masking with
  | mask =>
    obtain ⟨rfl, h⟩ := h
    exact ⟨rfl, h⟩
  | unmask =>
    obtain ⟨rfl, rfl, h⟩ := h
    exact ⟨rfl, h⟩
  | same r masked sector b plain =>
    refine ⟨rfl, ?_⟩
    cases answer with
    | mask | unmask | startFirst => cases plain
    | pend =>
      obtain ⟨rfl, -, h⟩ := h
      exact h
    | put =>
      obtain ⟨rfl, h⟩ := h
      exact h _
    | control =>
      obtain ⟨rfl, h⟩ := h
      exact h _
    | barrier | idle | reserve | frame | note => exact h _

end Guards

namespace Guards

variable {α β γ : Type} {s : Service γ} {entry : Bool}

theorem leave {saved : Bool} {result : Except Fault β} {Q : β → Sector → Prop} (same : saved = entry)
    (hQ : ∀ b, Q b .outside) : Guards s entry (Program.leave saved result) Q .spent := by
  refine ⟨rfl, same, ?_⟩
  cases result with
  | ok b => exact hQ b
  | error f => exact rfl

theorem critical {a : Action β} {Q : β → Sector → Prop} (carries : s.Carries a)
    (hQ : ∀ b, Q b .outside) : Guards s entry (Program.critical a) Q .outside :=
  ⟨rfl, rfl, carries, fun _ => leave rfl hQ⟩

theorem switch {sp : StackPointer} :
    Guards (.switch sp) entry (Call.switch sp) Ends .outside :=
  critical ⟨rfl, nofun⟩ fun _ => rfl

variable {call : KernelCall γ}

theorem plain {a : Action β} (h : (a.switches || a.starts) = false) :
    (Service.call call).Carries a := by
  rw [Bool.or_eq_false_iff] at h
  exact ⟨h.1, fun starts => nomatch h.2.symm.trans starts⟩

theorem single {a : Action β} (h : (a.switches || a.starts) = false) :
    Guards (.call call) entry (Program.critical a) Ends .outside :=
  critical (plain h) fun _ => rfl

theorem note {n : Note} {f : Unit → Program Unit β} {Q : β → Sector → Prop} {sector : Sector}
    (h : Guards s entry (f ()) Q sector) : Guards s entry (.ask (.note n) f) Q sector := fun _ => h

theorem reserveStack {stack : Stack} :
    Guards (.call call) entry (Call.reserveStack stack) Ends .outside := by
  cases stack with
  | heap bytes => exact fun _ => rfl
  | fixed _ => exact rfl

theorem createTask {e : Entry} {arg : UInt64} {name : String} {priority : UInt8} {stack : Stack} :
    Guards (.call call) entry (Call.createTask e arg name priority stack) Ends .outside := by
  refine seq (single rfl) fun full => ?_
  split
  · exact note rfl
  refine seq reserveStack fun granted => ?_
  split
  · refine bind fun sp => seq (single rfl) fun id => ?_
    cases id <;> exact note rfl
  · exact note rfl

theorem start : Guards (.call .start) entry Call.start Ends .outside := by
  refine seq createTask fun idle => ?_
  cases idle with
  | error e => exact rfl
  | ok idle => exact seq (critical ⟨rfl, fun _ => rfl⟩ fun _ => rfl) fun sp => ⟨rfl, rfl, rfl, rfl⟩

theorem settle {v : Except Fault Verdict} {resume : TaskId → Action Verdict}
    (h : ∀ t, ((resume t).switches || (resume t).starts) = false) :
    Guards (.call call) entry (Call.settle entry v resume) Ends .spent := by
  refine bind ⟨fun x sector => x.1 = entry ∧ sector = .spent, ⟨rfl, rfl⟩, ?_⟩
  rintro ⟨saved, v⟩ _ ⟨same, rfl⟩
  cases v with
  | error f => exact leave same fun _ => rfl
  | ok v =>
    cases v with
    | asleep t => exact ⟨rfl, same, fun _ => ⟨rfl, rfl, plain (h t), fun _ => ⟨rfl, rfl⟩⟩⟩
    | _ => exact leave same fun _ => rfl

theorem wait {x : SemId} {ticks : Int32} :
    Guards (.call call) entry (Call.wait x ticks) Ends .outside :=
  ⟨rfl, rfl, plain rfl, fun _ => settle fun _ => rfl⟩

theorem lock {m : MutexId} {ticks : Int32} :
    Guards (.call call) entry (Call.lock m ticks) Ends .outside := by
  refine ⟨rfl, rfl, plain rfl, fun result => ?_⟩
  cases result with
  | error f => exact leave rfl fun _ => rfl
  | ok x => exact settle fun _ => rfl

theorem claimed {status : Status} {f : Fault} : Guards s entry (match status with
    | .ok => .done ()
    | .timeout => Program.fault f) Ends .outside := by
  cases status <;> exact rfl

theorem createSemaphore {name : String} {n : UInt32} :
    Guards (.call call) entry (Call.createSemaphore name n) Ends .outside := by
  refine seq (single rfl) fun x => ?_
  cases x <;> exact note rfl

theorem createMutex {name : String} :
    Guards (.call call) entry (Call.createMutex name) Ends .outside := by
  refine seq (single rfl) fun m => ?_
  cases m <;> exact note rfl

theorem createQueue {name : String} {kind : QueueKind} :
    Guards (.call call) entry (Call.createQueue name kind) Ends .outside := by
  refine seq (single rfl) fun full => ?_
  split
  · exact note rfl
  refine seq ?_ fun d => ?_
  · cases kind with
    | driver => exact rfl
    | task =>
      refine seq createSemaphore fun x => ?_
      cases x <;> exact rfl
  · cases d with
    | error e => exact rfl
    | ok d =>
      refine seq (single rfl) fun q => ?_
      cases q <;> exact note rfl

theorem put {q : QueueId} {m : Message} :
    Guards (.call call) entry (Call.put q m) Ends .outside := by
  refine seq (single rfl) fun r => ?_
  cases r with
  | none => exact rfl
  | some r => exact ⟨rfl, fun _ => rfl⟩

theorem putTagged {q : QueueId} {m : TaggedMessage} {code length : UInt16} :
    Guards (.call call) entry (Call.putTagged q m code length) Ends .outside := by
  unfold Call.putTagged
  split
  · exact put
  · exact rfl

theorem receive {q : QueueId} {ticks : Int32} :
    Guards (.call call) entry (Call.receive q ticks) Ends .outside := by
  refine seq (single rfl) fun x => ?_
  cases x with
  | none => exact single rfl
  | some x =>
    refine seq wait fun status => ?_
    cases status with
    | timeout => exact rfl
    | ok =>
      refine seq (single rfl) fun m => ?_
      cases m <;> exact rfl

theorem receiveTagged {q : QueueId} {ticks : Int32} :
    Guards (.call call) entry (Call.receiveTagged q ticks) Ends .outside := by
  refine seq receive fun m => ?_
  cases m with
  | none => exact rfl
  | some m =>
    refine seq ?_ fun _ => rfl
    cases TaggedMessage.ofMessage m <;> exact rfl

theorem reserveStorage {name : String} {shape : PoolShape} :
    Guards (.call call) entry (Call.reserveStorage name shape) Ends .outside := by
  unfold Call.reserveStorage
  dsimp only
  split
  · exact rfl
  intro granted
  cases granted with
  | true => exact rfl
  | false => exact note rfl

theorem createPool {name : String} {kind : QueueKind} {count size : Nat} :
    Guards (.call call) entry (Call.createPool name kind count size) Ends .outside := by
  unfold Call.createPool Call.createPoolWith
  dsimp only
  split
  · exact rfl
  refine seq (single rfl) fun fits => ?_
  split
  · refine seq reserveStorage fun granted => ?_
    split
    · refine seq createQueue fun q => ?_
      cases q with
      | error e => exact rfl
      | ok q =>
        refine seq (single rfl) fun first => ?_
        cases first with
        | none => exact note rfl
        | some first =>
          have puts (l : List Message) :
              Guards (.call call) entry (l.forM (Call.put q)) Ends .outside := by
            induction l with
            | nil => exact rfl
            | cons m l ih => exact seq put fun _ => ih
          exact seq (puts _) fun _ => note rfl
    · exact rfl
  · exact note rfl

theorem createTaggedPool {name : String} {kind : QueueKind} {count size : Nat} :
    Guards (.call call) entry (Call.createTaggedPool name kind count size) Ends .outside := by
  unfold Call.createTaggedPool
  split
  · exact rfl
  · exact createPool

theorem control {q : QueueId} {n : UInt32} {arg : UInt64} :
    Guards (.call call) entry (Call.control q n arg) Ends .outside := by
  refine seq (single rfl) fun r => ?_
  cases r with
  | error e => exact rfl
  | ok r => exact ⟨rfl, fun _ => rfl⟩

/-- The context of a task that has ended itself comes to no end. -/
theorem exit : Guards (.call call) entry (Call.exit (α := γ)) Ends .outside := by
  refine seq (single (a := .exit) rfl) fun _ => ?_
  exact ⟨fun _ sector => sector = .outside, rfl, fun _ _ outside _ => outside⟩

end Guards

/-- Every service keeps to the mask. -/
theorem Service.guards {α : Type} (s : Service α) (entry : Bool) :
    Guards s entry s.program Ends .outside := by
  cases s with
  | switch sp => exact Guards.switch
  | call c =>
    cases c with
    | createTask => exact Guards.createTask
    | start => exact Guards.start
    | exit => exact Guards.exit
    | createSemaphore => exact Guards.createSemaphore
    | wait => exact Guards.wait
    | waitUntilClaimed => exact .seq Guards.wait fun _ => Guards.claimed
    | createMutex => exact Guards.createMutex
    | lock => exact Guards.lock
    | lockUntilClaimed => exact .seq Guards.lock fun _ => Guards.claimed
    | createQueue => exact Guards.createQueue
    | createPool => exact Guards.createPool
    | createTaggedPool => exact Guards.createTaggedPool
    | put | giveBack | giveBackTagged => exact Guards.put
    | receive => exact Guards.receive
    | putTagged => exact Guards.putTagged
    | receiveTagged => exact Guards.receiveTagged
    | control => exact Guards.control
    | _ => exact Guards.single rfl

end Rtos
