import Rtos.Proofs.Coherence
import Rtos.Proofs.Spared

/-!
# What calls do with frames

Two calls have to do with the frames of tasks. A creation has the port build a frame and gives it to
the task that it adds; a start gets the frame of the task that it starts with and has the port go
over to it. In between, the frame is the `Errand` of the call. `Dutiful` says that a program comes by
its errands in this way and does nothing else before it has carried them out, and all calls are
dutiful.
-/

namespace Rtos

/-- What a program is about to do with a frame. -/
inductive Errand
  | adds (sp : StackPointer)
  | enters (sp : StackPointer)

/-- The frame that no task has yet. -/
def Errand.spare : Errand → Option StackPointer
  | adds sp => some sp
  | enters _ => none

def Request.isFraming {β : Type} : Request Unit β → Bool
  | .frame .. | .startFirst _ => true
  | .act a => a.recruits || a.switches
  | _ => false

def Request.switches {β : Type} : Request Unit β → Bool
  | .act a => a.switches
  | _ => false

/-- The errand of a program after the answer to a request that it made with errand `e`. -/
def Request.leaves {β : Type} (r : Request Unit β) (e : Option Errand) (b : β) : Option Errand :=
  match r, b with
  | .mask, _ | .unmask _, _ | .pend, _ => e
  | .frame .., sp => some (.adds sp)
  | .act (.startWith _), .ok sp => some (.enters sp)
  | _, _ => none

namespace Program

variable {α β τ : Type}

def errand : {α : Type} → Program Unit α → Option Errand
  | _, .ask r next =>
    match r, next with
    | .mask, next => (next false).errand
    | .unmask _, next => (next ()).errand
    | .pend, next => (next ()).errand
    | .act a, _ => a.frame.map .adds
    | .startFirst sp, _ => some (.enters sp)
    | _, _ => none
  | _, _ => none

/-- The program has nothing to do with frames. -/
def Idle : {α : Type} → Program Unit α → Prop
  | _, .done _ => True
  | _, .ask r next => r.isFraming = false ∧ ∀ b, (next b).Idle
  | _, .loop body _ next => (∀ t, (body t).Idle) ∧ ∀ b, (next b).Idle

/-- The program comes by its errands as it should, and carries out each of them. -/
def Dutiful : {α : Type} → Program Unit α → Prop
  | _, .done _ => True
  | _, .ask r next =>
    match r, next with
    | .fault _, _ => True
    | r, next => r.switches = false ∧
        ∀ b, (next b).errand = r.leaves (ask r next).errand b ∧ (next b).Dutiful
  | _, .loop body _ next => (∀ t, (body t).Idle) ∧ ∀ b, (next b).errand = none ∧ (next b).Dutiful

def Free (p : Program Unit α) : Prop := p.errand = none ∧ p.Dutiful

namespace Idle

theorem bind {p : Program Unit α} {f : α → Program Unit β} (h : p.Idle) (hf : ∀ a, (f a).Idle) :
    (p.bind f).Idle := by
  induction p with
  | done a => exact hf a
  | ask r next ih => exact ⟨h.1, fun b => ih b (h.2 b) hf⟩
  | loop body t next _ ih => exact ⟨h.1, fun b => ih b (h.2 b) hf⟩

theorem bind_free {p : Program Unit α} {f : α → Program Unit β} (h : p.Idle)
    (hf : ∀ a, (f a).Free) : (p.bind f).Free := by
  induction p with
  | done a => exact hf a
  | ask r next ih =>
    have free b := ih b (h.2 b) hf
    cases r
    case mask =>
      have same b : ((next b).bind f).errand = ((next false).bind f).errand :=
        (free b).1.trans (free false).1.symm
      exact ⟨(free false).1, rfl, fun b => ⟨same b, (free b).2⟩⟩
    case unmask saved => exact ⟨(free ()).1, rfl, fun b => ⟨rfl, (free b).2⟩⟩
    case pend => exact ⟨(free ()).1, rfl, fun b => ⟨rfl, (free b).2⟩⟩
    case act a =>
      have other : (a.recruits || a.switches) = false := h.1
      cases a with
      | addTask | startWith | switch => cases other
      | _ => exact ⟨rfl, rfl, fun b => ⟨(free b).1, (free b).2⟩⟩
    case frame => cases h.1
    case startFirst => cases h.1
    case fault f => exact ⟨rfl, trivial⟩
    all_goals exact ⟨rfl, rfl, free⟩
  | loop body t next _ ih => exact ⟨rfl, h.1, fun b => ih b (h.2 b) hf⟩

theorem free {p : Program Unit α} (h : p.Idle) : p.Free := by
  rw [← Program.bind_done p]
  exact h.bind_free fun _ => ⟨rfl, trivial⟩

theorem critical {a : Action α} (h : (Request.act a).isFraming = false) :
    (Program.critical a).Idle := by
  refine ⟨rfl, fun _ => ⟨h, fun result => ⟨rfl, fun _ => ?_⟩⟩⟩
  cases result with
  | ok b => trivial
  | error f => exact ⟨rfl, fun _ => trivial⟩

theorem reading {f : Kernel → Except Fault α} : (Program.reading f).Idle := critical rfl

end Idle

theorem Dutiful.unroll {body : τ → Program Unit (τ ⊕ β)} {t : τ} {next : β → Program Unit α}
    (h : (loop body t next).Dutiful) : (Program.unroll body t next).Free := by
  refine (h.1 t).bind_free fun r => ?_
  cases r with
  | inl t => exact ⟨rfl, h⟩
  | inr b => exact h.2 b

theorem Dutiful.reply {r : Request Unit β} {next : β → Program Unit α} {c c' : Core} {b : β}
    (h : (ask r next).Dutiful) (answer : Reply r c b c') :
    (next b).errand = r.leaves (ask r next).errand b ∧ (next b).Dutiful := by
  cases answer <;> exact h.2 _

end Program

namespace Program

variable {α β : Type}

theorem idle_settle {saved : Bool} {v : Except Fault Verdict} {resume : TaskId → Action Verdict}
    (h : ∀ t, (Request.act (resume t)).isFraming = false) : (Call.settle saved v resume).Idle := by
  refine .bind ⟨fun (saved, v) => ?_, fun _ => trivial⟩ fun (saved, status) => ⟨rfl, fun _ => ?_⟩
  · cases v with
    | error f => trivial
    | ok v =>
      cases v with
      | asleep t => exact ⟨rfl, fun _ => ⟨rfl, fun _ => ⟨rfl, fun _ => ⟨h t, fun _ => trivial⟩⟩⟩⟩
      | _ => trivial
  · cases status with
    | ok status => trivial
    | error f => exact ⟨rfl, fun _ => trivial⟩

theorem idle_wait {s : SemId} {ticks : Int32} : (Call.wait s ticks).Idle :=
  ⟨rfl, fun _ => ⟨rfl, fun _ => idle_settle fun _ => rfl⟩⟩

theorem idle_lock {m : MutexId} {ticks : Int32} : (Call.lock m ticks).Idle := by
  refine ⟨rfl, fun _ => ⟨rfl, fun result => ?_⟩⟩
  cases result with
  | error f => exact ⟨rfl, fun _ => ⟨rfl, fun _ => trivial⟩⟩
  | ok x => exact idle_settle fun _ => rfl

theorem idle_claimed {status : Status} {f : Fault} : Idle (match status with
    | .ok => done ()
    | .timeout => fault f) := by
  cases status with
  | ok => trivial
  | timeout => exact ⟨rfl, fun _ => trivial⟩

theorem idle_createSemaphore {name : String} {n : UInt32} : (Call.createSemaphore name n).Idle := by
  refine .bind (.critical rfl) fun s => ?_
  cases s <;> exact ⟨rfl, fun _ => trivial⟩

theorem idle_createQueue {name : String} {kind : QueueKind} : (Call.createQueue name kind).Idle := by
  refine .bind .reading fun full => ?_
  split
  · exact ⟨rfl, fun _ => trivial⟩
  refine .bind ?_ fun d => ?_
  · cases kind with
    | driver => trivial
    | task =>
      refine .bind idle_createSemaphore fun s => ?_
      cases s <;> trivial
  · cases d with
    | error e => trivial
    | ok d =>
      refine .bind (.critical rfl) fun q => ?_
      cases q <;> exact ⟨rfl, fun _ => trivial⟩

theorem idle_put {q : QueueId} {m : Message} : (Call.put q m).Idle := by
  refine .bind (.critical rfl) fun r => ?_
  cases r with
  | none => trivial
  | some r => exact ⟨rfl, fun _ => trivial⟩

theorem idle_putTagged {q : QueueId} {m : TaggedMessage} {code length : UInt16} :
    (Call.putTagged q m code length).Idle := by
  unfold Call.putTagged
  split
  · exact idle_put
  · exact ⟨rfl, fun _ => trivial⟩

theorem idle_receive {q : QueueId} {ticks : Int32} : (Call.receive q ticks).Idle := by
  refine .bind .reading fun s => ?_
  cases s with
  | none => exact .critical rfl
  | some s =>
    refine .bind idle_wait fun status => ?_
    cases status with
    | timeout => trivial
    | ok =>
      refine .bind (.critical rfl) fun m => ?_
      cases m with
      | none => exact ⟨rfl, fun _ => trivial⟩
      | some m => trivial

theorem idle_fillPool {name : String} {q : QueueId} {shape : PoolShape} {storage : Payload} :
    (Call.fillPool name q shape storage).Idle := by
  refine .bind (.critical rfl) fun first => ?_
  cases first with
  | none => exact ⟨rfl, fun _ => trivial⟩
  | some first =>
    have puts (l : List Message) : Idle (l.forM (Call.put q)) := by
      induction l with
      | nil => trivial
      | cons m l ih => exact .bind idle_put fun _ => ih
    exact .bind (puts _) fun _ => ⟨rfl, fun _ => trivial⟩

theorem idle_reserveStorage {name : String} {shape : PoolShape} :
    (Call.reserveStorage name shape).Idle := by
  unfold Call.reserveStorage
  dsimp only
  split
  · trivial
  refine ⟨rfl, fun granted => ?_⟩
  cases granted with
  | true => trivial
  | false => exact ⟨rfl, fun _ => trivial⟩

theorem idle_createPool {name : String} {kind : QueueKind} {count size : Nat} :
    (Call.createPool name kind count size).Idle := by
  unfold Call.createPool Call.createPoolWith
  dsimp only
  split
  · exact ⟨rfl, fun _ => trivial⟩
  refine .bind .reading fun fits => ?_
  split
  · refine .bind idle_reserveStorage fun granted => ?_
    split
    · refine .bind idle_createQueue fun q => ?_
      cases q with
      | error e => trivial
      | ok q => exact idle_fillPool
    · trivial
  · exact ⟨rfl, fun _ => trivial⟩

theorem idle_reserveStack {stack : Stack} : (Call.reserveStack stack).Idle := by
  cases stack with
  | heap bytes => exact ⟨rfl, fun _ => trivial⟩
  | fixed _ => trivial

theorem idle_createTaggedPool {name : String} {kind : QueueKind} {count size : Nat} :
    (Call.createTaggedPool name kind count size).Idle := by
  unfold Call.createTaggedPool
  split
  · exact ⟨rfl, fun _ => trivial⟩
  · exact idle_createPool

theorem free_createTask {entry : Entry} {arg : UInt64} {name : String} {priority : UInt8}
    {stack : Stack} {f : Except Error TaskId → Program Unit α} (hf : ∀ r, (f r).Free) :
    ((Call.createTask entry arg name priority stack).bind f).Free := by
  have refused (n : Note) : (ask (.note n) fun _ => f (.error .noMemory)).Free :=
    ⟨rfl, rfl, fun _ => hf _⟩
  unfold Call.createTask
  change (((Program.reading _).bind _).bind f).Free
  rw [Program.bind_assoc]
  refine Idle.reading.bind_free fun full => ?_
  split
  · exact refused _
  change (((Call.reserveStack stack).bind _).bind f).Free
  rw [Program.bind_assoc]
  refine idle_reserveStack.bind_free fun granted => ?_
  split
  · refine ⟨rfl, rfl, fun sp => ⟨rfl, rfl, fun _ => ⟨rfl, rfl, fun result => ?_⟩⟩⟩
    cases result with
    | error f => exact ⟨rfl, rfl, fun _ => ⟨rfl, trivial⟩⟩
    | ok id =>
      cases id with
      | none => exact ⟨rfl, rfl, fun _ => ⟨rfl, (refused _).2⟩⟩
      | some id => exact ⟨rfl, rfl, fun _ => ⟨rfl, rfl, fun _ => hf _⟩⟩
  · exact refused _

theorem free_start : (Call.start (σ := Unit)).Free := by
  refine free_createTask fun r => ?_
  cases r with
  | error e => exact ⟨rfl, trivial⟩
  | ok idle =>
    refine ⟨rfl, rfl, fun _ => ⟨rfl, rfl, fun result => ?_⟩⟩
    cases result with
    | error f => exact ⟨rfl, rfl, fun _ => ⟨rfl, trivial⟩⟩
    | ok sp =>
      refine ⟨rfl, rfl, fun _ => ⟨rfl, rfl, fun _ => ⟨rfl, rfl, fun _ => ?_⟩⟩⟩
      exact ⟨rfl, rfl, fun _ => ⟨rfl, trivial⟩⟩

end Program

/-- All calls are dutiful, and have no errand at first. -/
theorem KernelCall.free {α : Type} (call : KernelCall α) : call.program.Free := by
  cases call with
  | createTask entry arg name priority stack =>
    have whole : ((Call.createTask entry arg name priority stack).bind Program.done).Free :=
      Program.free_createTask fun _ => ⟨rfl, trivial⟩
    rwa [Program.bind_done] at whole
  | start => exact Program.free_start
  | exit =>
    have ends : Program.Idle (Program.forever (α := Empty) (.request (.idle (σ := Unit)))) :=
      ⟨fun _ => ⟨rfl, fun _ => trivial⟩, fun e => nomatch e⟩
    exact (Program.Idle.bind (.critical rfl) fun _ => ends).free
  | kernel | task | localWord | semaphore | mutex | lookUp | queue | queueMessages | poolMessages
  | count => exact Program.Idle.reading.free
  | createSemaphore => exact Program.idle_createSemaphore.free
  | wait => exact Program.idle_wait.free
  | waitUntilClaimed => exact (Program.Idle.bind Program.idle_wait fun _ => Program.idle_claimed).free
  | createMutex =>
    refine (Program.Idle.bind (.critical rfl) fun m => ?_).free
    cases m <;> exact ⟨rfl, fun _ => trivial⟩
  | lock => exact Program.idle_lock.free
  | lockUntilClaimed => exact (Program.Idle.bind Program.idle_lock fun _ => Program.idle_claimed).free
  | createQueue => exact Program.idle_createQueue.free
  | createPool => exact Program.idle_createPool.free
  | createTaggedPool => exact Program.idle_createTaggedPool.free
  | put | giveBack | giveBackTagged => exact Program.idle_put.free
  | putTagged => exact Program.idle_putTagged.free
  | receive => exact Program.idle_receive.free
  | receiveTagged =>
    refine (Program.Idle.bind Program.idle_receive fun m => ?_).free
    cases m with
    | none => trivial
    | some m =>
      refine Program.Idle.bind ?_ fun _ => trivial
      cases TaggedMessage.ofMessage m with
      | ok m => trivial
      | error f => exact ⟨rfl, fun _ => trivial⟩
  | control =>
    refine (Program.Idle.bind .reading fun r => ?_).free
    cases r with
    | error e => trivial
    | ok r => exact ⟨rfl, fun _ => trivial⟩
  | _ => exact (Program.Idle.critical rfl).free

theorem Program.errand_of_isAtRoutine {α : Type} {p : Program Unit α} (h : p.isAtRoutine) :
    p.errand = none := by
  cases p with
  | done a => rfl
  | loop body t next => rfl
  | ask r next => cases r <;> first | rfl | cases h

/-- The errand of the call, with its caller. -/
def OpenCall.errand (o : OpenCall) : Option (Caller × Errand) := o.rest.errand.map (o.caller, ·)

def System.errands (s : System) : List (Caller × Errand) := s.calls.filterMap OpenCall.errand

theorem errands_middle {later earlier : List OpenCall} {o : OpenCall} :
    ((later ++ o :: earlier).filterMap OpenCall.errand).Perm
      (o.errand.toList ++ (later ++ earlier).filterMap OpenCall.errand) := by
  refine (List.perm_middle.filterMap _).trans ?_
  rw [List.filterMap_cons]
  cases o.errand <;> exact .rfl

theorem Reachable.dutiful {s : System} (h : Reachable s) : ∀ o ∈ s.calls, o.rest.Dutiful := by
  induction h with
  | boot clock => exact fun _ h => nomatch h
  | step _ hs ih =>
    cases hs with
    | begin _ who call held may _ => exact List.forall_mem_cons.2 ⟨call.free.2, ih⟩
    | reply c c' later earlier held lost log who call r next ph b may answer =>
      exact forall_middle ih fun dutiful => (dutiful.reply answer).2
    | act c c' later earlier held lost log who call a next ph b may result =>
      exact forall_middle ih fun dutiful => (dutiful.2 (.ok b)).2
    | unroll c later earlier held lost log who call body t next ph =>
      exact forall_middle ih fun dutiful => dutiful.unroll.2
    | finish c later earlier held lost log who call a ph =>
      exact fun x hx => ih x (mem_middle.2 (.inl hx))
    | switch => exact ih
    | write => exact ih
    | drop => exact ih
    | elapse => exact ih

theorem System.InContract.no_errand {c : Core} {later earlier : List OpenCall}
    {held : List Message} {lost : List MessageId} {log : List Record} {o : OpenCall}
    (h : System.InContract ⟨c, later ++ o :: earlier, held, lost, log⟩)
    (may : o.MayGoOn later c.kernel) (thread : o.caller ≠ .handler) {e : Errand} :
    (o.caller, e) ∉ (later ++ earlier).filterMap OpenCall.errand := by
  intro he
  obtain ⟨x, hx, hxe⟩ := List.mem_filterMap.1 he
  obtain ⟨e', errand, pair⟩ := Option.map_eq_some_iff.1 hxe
  have same : x.caller = o.caller := congrArg Prod.fst pair
  rcases List.mem_append.1 hx with hx | hx
  · exact may.2 thread x hx same
  · have nested := (List.pairwise_cons.1 (List.pairwise_append.1 h.nested).2.1).1 x hx
    have atRoutine := nested thread same.symm
    rw [Program.errand_of_isAtRoutine atRoutine] at errand
    cases errand

end Rtos
