import Rtos.Proofs.Books
import Rtos.Proofs.Firmware

/-!
# The firmware is the plant

What is left of the program of a task is what its part has left to do: the code of its spot, or what is
left of its call and then the code of the spot that follows. So every run of the firmware is one of the
plant, in which calls begin and return between the steps of the firmware.
-/

namespace Rtos

open Pipeline

namespace Program

variable {σ α β τ γ : Type}

def isDone : Program σ α → Bool
  | done _ => true
  | _ => false

/-- What the program asks for first, if that is more than an answer of the port. -/
inductive Head (σ α : Type) : Type 1
  | acts {β : Type} (a : Action β) (next : Except Fault β → Program σ α)
  | owns {β : Type} (f : StateM σ β) (next : β → Program σ α)
  | notes (n : Note) (next : Unit → Program σ α)
  | puts (r : PutRoutine) (data : UInt64) (next : Unit → Program σ α)
  | controls (r : ControlRoutine) (data : UInt64) (control : UInt32) (arg : UInt64)
      (next : Int32 → Program σ α)
  | fails (f : Fault)
  | other

def head : Program σ α → Head σ α
  | ask r next =>
    match r, next with
    | .act a, next => .acts a next
    | .own f, next => .owns f next
    | .note n, next => .notes n next
    | .put r data, next => .puts r data next
    | .control r data control arg, next => .controls r data control arg next
    | .fault f, _ => .fails f
    | _, _ => .other
  | _ => .other

theorem unroll_bind {body : τ → Program σ (τ ⊕ β)} {t : τ} {next : β → Program σ α}
    {f : α → Program σ γ} :
    (unroll body t next).bind f = unroll body t fun b => (next b).bind f := by
  rw [unroll, unroll, bind_assoc]
  congr 1
  funext r
  cases r <;> rfl

theorem lift_unroll {body : τ → Program Unit (τ ⊕ β)} {t : τ} {next : β → Program Unit α} :
    (unroll body t next).lift = unroll (σ := σ) (fun t => (body t).lift) t fun b => (next b).lift := by
  rw [unroll, lift_bind, unroll]
  congr 1
  funext r
  cases r <;> rfl

end Program

theorem Request.Answers.reply {σ β : Type} {r : Request Unit β} {b : β} {c c' : Core}
    (h : (r.lift (σ := σ)).Answers c b c') : Reply r c b c' := by
  cases r with
  | mask => cases h; exact .mask ..
  | unmask => cases h; exact .unmask ..
  | barrier => cases h; exact .barrier ..
  | idle => cases h; exact .idle ..
  | pend => cases h; exact .pend ..
  | reserve => obtain ⟨answer, rfl⟩ := h; exact .reserve _ _ _ _ answer
  | frame => cases h; exact .frame ..
  | startFirst => cases h; exact .startFirst ..
  | _ => exact h.elim

theorem Spot.program_not_done {x : Spot} {β : Type} {call : KernelCall β} {next : β → Spot}
    (does : x.deed objects = .call call next) : call.program.isDone = false := by
  cases x <;> cases does
  case fills reading m =>
    change (Call.putTagged ..).isDone = false
    unfold Call.putTagged
    split <;> rfl
  case passes m =>
    change (Call.putTagged ..).isDone = false
    unfold Call.putTagged
    split <;> rfl
  all_goals rfl

theorem Spot.next_ne_off {x : Spot} {β : Type} {call : KernelCall β} {next : β → Spot}
    (does : x.deed objects = .call call next) (b : β) : next b ≠ .off := by
  intro off
  have part := part_of_call does b
  rw [off] at part
  cases x <;> cases does
  case polls => cases b <;> cases off
  case returns => cases off
  all_goals cases part

theorem Spot.filter_of_kicks {x : Spot} {β : Type} {call : KernelCall β} {next : β → Spot} {ph : Phase}
    {r : PutRoutine} (does : x.deed objects = .call call next) (kicks : call.Kicks ph r) :
    x.part = .filter ∧ r = .transmit objects := by
  refine ⟨?_, by cases kicks; rfl⟩
  obtain ⟨-, m, takes, m', hands⟩ := kicks.hands
  cases x <;> cases does
  case passes => rfl
  case fills => cases hands.1
  case returns => cases kicks
  all_goals cases takes

/-- The program is what the job has left to do. -/
inductive Job.IsLeft : Program Bench Unit → Job → Prop
  | stands (x : Spot) : IsLeft (x.code objects) (.stands x)
  | opened (x : Spot) : IsLeft (x.code objects).opened (.stands x)
  | calls (x : Spot) {β : Type} (call : KernelCall β) (next : β → Spot) (rest : Program Unit β)
      (ph : Phase) :
      IsLeft (rest.lift.bind fun b => (next b).code objects) (.calls x call next rest ph)

namespace Plant

/-- The part is the one that goes on when task `t` has the processor, and `after` is what the thread of
the task does when the part has nothing left to do. -/
inductive Tops (p : Plant) : Part → TaskId → (Unit → Program Bench Unit) → Prop
  | sampler : Tops p .sampler samplerTask .done
  | monitor : Tops p .monitor monitorTask .done
  | filter (off : p.jobs .transmission = .stands .off) : Tops p .filter filterTask .done
  | transmission (x : Spot) {β : Type} (call : KernelCall β) (next : β → Spot) (data : UInt64)
      (rest : Unit → Program Unit β) (ph : Phase)
      (here : p.jobs .filter = .calls x call next (.ask (.put (.transmit objects) data) rest) ph)
      (running : p.jobs .transmission ≠ .stands .off) :
      Tops p .transmission filterTask fun _ => (rest ()).lift.bind fun b => (next b).code objects

/-- The program is what the thread of task `t` has left to do. -/
def IsLeft (p : Plant) (t : TaskId) (program : Program Bench Unit) : Prop :=
  ∃ part after q, p.Tops part t after ∧ (p.jobs part).IsLeft q ∧ program = q.bind after

end Plant

/-- The firmware is where the plant is. -/
structure Firmware.Shows (w : Firmware) (p : Plant) : Prop where
  core : w.core = p.core
  bench : w.bench = { totals := p.totals }
  journal : w.journal = p.journal
  threads : ∀ t, t = samplerTask ∨ t = filterTask ∨ t = monitorTask → p.IsLeft t (w.thread t)
  /-- All other tasks wait for interrupts. -/
  idle : ∀ t, ¬ (t = samplerTask ∨ t = filterTask ∨ t = monitorTask) →
    (Job.stands .waits).IsLeft (w.thread t)

/-- What a job has left to do, where the firmware is about to take a step with it. -/
inductive Job.IsNext : Program Bench Unit → Job → Prop
  | loops (x : Spot) {β τ : Type} (body : τ → Program Bench (τ ⊕ β)) (s : τ)
      (next : β → Program Bench Unit) (same : x.code objects = .loop body s next) :
      IsNext (.loop body s next) (.stands x)
  | owns (x : Spot) {β : Type} (f : StateM Totals β) (next : β → Spot)
      (does : x.deed objects = .own f next) :
      IsNext (.ask (.own (onTotals f)) fun b => (next b).code objects) (.stands x)
  | notes (x : Spot) (n : Note) (next : Spot) (does : x.deed objects = .note n next) :
      IsNext (.ask (.note n) fun _ => next.code objects) (.stands x)
  | fails (x : Spot) (f : Fault) {β : Type} (next : β → Program Bench Unit)
      (does : x.deed objects = .fault f) : IsNext (.ask (.fault f) next) (.stands x)
  | asks (x : Spot) {β γ : Type} (call : KernelCall β) (next : β → Spot) (r : Request Unit γ)
      (rest : γ → Program Unit β) (ph : Phase) :
      IsNext (.ask r.lift fun c => (rest c).lift.bind fun b => (next b).code objects)
        (.calls x call next (.ask r rest) ph)
  | unrolls (x : Spot) {β γ τ : Type} (call : KernelCall β) (next : β → Spot)
      (body : τ → Program Unit (τ ⊕ γ)) (s : τ) (rest : γ → Program Unit β) (ph : Phase) :
      IsNext (.loop (fun s => (body s).lift) s fun c =>
        (rest c).lift.bind fun b => (next b).code objects) (.calls x call next (.loop body s rest) ph)

theorem Job.isNext_of_calls {x : Spot} {β : Type} {call : KernelCall β} {next : β → Spot}
    {rest : Program Unit β} {ph : Phase} (going : rest.isDone = false) :
    IsNext (rest.lift.bind fun b => (next b).code objects) (.calls x call next rest ph) := by
  cases rest with
  | done b => cases going
  | ask r rest => exact .asks ..
  | loop body s rest => exact .unrolls ..

namespace Plant

variable {p p' : Plant} {part : Part} {t : TaskId} {after : Unit → Program Bench Unit}
  {q : Program Bench Unit} {job : Job}

theorem Tops.task (h : p.Tops part t after) : t = part.task := by cases h <;> rfl

theorem Tops.ne_idle (h : p.Tops part t after) : part ≠ .idle := by cases h <;> decide

theorem Tops.known (h : p.Tops part t after) :
    t = samplerTask ∨ t = filterTask ∨ t = monitorTask := by
  cases h <;> simp

theorem Tops.congr (h : p.Tops part t after)
    (same : ∀ part : Part, part.task = t → p'.jobs part = p.jobs part) : p'.Tops part t after := by
  cases h with
  | sampler => exact .sampler
  | monitor => exact .monitor
  | filter off => exact .filter ((same .transmission rfl).trans off)
  | transmission x call next data rest ph here running =>
    refine .transmission x call next data rest ph ((same .filter rfl).trans here) ?_
    rw [same .transmission rfl]
    exact running

theorem Tops.setJob (h : p.Tops part t after) (stays : part = .transmission → job ≠ .stands .off) :
    (p.setJob part job).Tops part t after := by
  cases h with
  | sampler => exact .sampler
  | monitor => exact .monitor
  | filter off => exact .filter ((jobs_setJob_of_ne (by decide)).trans off)
  | transmission x call next data rest ph here running =>
    refine .transmission x call next data rest ph ((jobs_setJob_of_ne (by decide)).trans here) ?_
    rw [jobs_setJob]
    exact stays rfl

end Plant

namespace Firmware.Shows

open Plant

variable {w w' : Firmware} {p p' : Plant} {part : Part} {t : TaskId}
  {after : Unit → Program Bench Unit} {q : Program Bench Unit} {job : Job} {x : Spot}

theorem goesOn (h : w.Shows p) (known : t = samplerTask ∨ t = filterTask ∨ t = monitorTask)
    (mine : p'.IsLeft t (w'.thread t)) (others : ∀ u ≠ t, w'.thread u = w.thread u)
    (jobs : ∀ part : Part, part.task ≠ t → p'.jobs part = p.jobs part) (core : w'.core = p'.core)
    (bench : w'.bench = { totals := p'.totals }) (journal : w'.journal = p'.journal) :
    w'.Shows p' where
  core := core
  bench := bench
  journal := journal
  threads u known := by
    by_cases same : u = t
    · exact same ▸ mine
    · obtain ⟨part, after, q, tops, left, thread⟩ := h.threads u known
      have apart {part : Part} (on : part.task = u) : part.task ≠ t := fun is => same (on.symm.trans is)
      refine ⟨part, after, q, tops.congr fun part on => jobs part (apart on), ?_, ?_⟩
      · rw [jobs part (apart tops.task.symm)]
        exact left
      · rw [others u same]
        exact thread
  idle u other := by
    rw [others u fun same => other (same ▸ known)]
    exact h.idle u other

theorem stays (h : w.Shows p) (threads : w'.thread = w.thread) (jobs : p'.jobs = p.jobs)
    (core : w'.core = p'.core) (bench : w'.bench = { totals := p'.totals })
    (journal : w'.journal = p'.journal) : w'.Shows p' where
  core := core
  bench := bench
  journal := journal
  threads u known := by
    obtain ⟨part, after, q, tops, left, thread⟩ := h.threads u known
    rw [threads]
    exact ⟨part, after, q, tops.congr fun _ _ => congrFun jobs _, jobs ▸ left, thread⟩
  idle u other := by
    rw [threads]
    exact h.idle u other

theorem silent (h : w.Shows p) (tops : p.Tops part t after) (left : job.IsLeft q)
    (stays : part = .transmission → job ≠ .stands .off) (mine : w.thread t = q.bind after) :
    w.Shows (p.setJob part job) := by
  refine h.goesOn tops.known ⟨part, after, q, tops.setJob stays, jobs_setJob.symm ▸ left, mine⟩
    (fun _ _ => rfl) (fun other ne => jobs_setJob_of_ne ?_) h.core h.bench h.journal
  rintro rfl
  exact ne tops.task.symm

theorem isUp (h : w.Shows p) (tops : p.Tops part t after) (up : w.IsUp t) : p.IsUp part := by
  have up : w.core.kernel.current = some t := up
  rwa [h.core, tops.task] at up

/-- The firmware is where a run of the plant is that is about to take the step of the firmware. -/
def Settled (w : Firmware) (t : TaskId) : Prop :=
  ∃ (p : Plant) (part : Part) (after : Unit → Program Bench Unit) (q : Program Bench Unit),
    p.Runs ∧ w.Shows p ∧ p.Tops part t after ∧ (p.jobs part).IsNext q ∧ w.thread t = q.bind after

theorem settles_stands (h : w.Shows p) (runs : p.Runs) (up : w.IsUp t) (tops : p.Tops part t after)
    (here : p.jobs part = .stands x) (left : (Job.stands x).IsLeft q)
    (thread : w.thread t = q.bind after) (goes : x ≠ .off ∧ x ≠ .ended) : Settled w t := by
  have place : x.part = part := runs.inOrder.part_of_stands here
  have opened (left : q = (x.code objects).opened) : Settled w t := by
    have isOf := x.opened_code objects
    rw [← left] at isOf
    generalize does : x.deed objects = deed at isOf
    cases deed with
    | call call next =>
      have begins := runs.step (.begins part x call next (h.isUp tops up) here does)
      obtain rfl : q = call.program.lift.bind fun b => (next b).code objects := isOf
      refine ⟨_, part, after, _, begins, ?_, tops.setJob ?_, ?_, thread⟩
      · exact h.silent tops (.calls ..) (fun _ => by rintro ⟨⟩) thread
      · exact fun _ => by rintro ⟨⟩
      · rw [jobs_setJob]
        exact Job.isNext_of_calls (Spot.program_not_done does)
    | own f next =>
      obtain rfl : q = _ := isOf
      refine ⟨p, part, after, _, runs, h, tops, ?_, thread⟩
      rw [here]
      exact .owns x f next does
    | note n next =>
      obtain rfl : q = _ := isOf
      refine ⟨p, part, after, _, runs, h, tops, ?_, thread⟩
      rw [here]
      exact .notes x n next does
    | idle =>
      refine (tops.ne_idle ?_).elim
      rw [← place]
      cases x <;> cases does
      rfl
    | fault f =>
      obtain ⟨γ, next, rfl⟩ := isOf
      refine ⟨p, part, after, _, runs, h, tops, ?_, thread⟩
      rw [here]
      exact .fails x f next does
    | ends =>
      cases x <;> cases does
      · exact (goes.1 rfl).elim
      · exact (goes.2 rfl).elim
  cases left with
  | opened => exact opened rfl
  | stands =>
    cases code : x.code objects with
    | loop body s next =>
      rw [code] at thread
      refine ⟨p, part, after, _, runs, h, tops, ?_, thread⟩
      rw [here]
      exact .loops x body s next code
    | done a => exact opened (by rw [code]; rfl)
    | ask r next => exact opened (by rw [code]; rfl)

theorem finishes (h : w.Shows p) (runs : p.Runs) (up : w.IsUp t) (tops : p.Tops part t after) {β : Type}
    {call : KernelCall β} {next : β → Spot} {b : β} {ph : Phase}
    (here : p.jobs part = .calls x call next (.done b) ph)
    (thread : w.thread t = ((next b).code objects).bind after) :
    (p.setJob part (.stands (next b))).Runs ∧ w.Shows (p.setJob part (.stands (next b))) ∧
      (p.setJob part (.stands (next b))).Tops part t after := by
  have stays (_ : part = .transmission) : Job.stands (next b) ≠ .stands .off :=
    fun off => Spot.next_ne_off (runs.inOrder.does here) b (Job.stands.inj off)
  exact ⟨runs.step (.finishes part x call next b ph (h.isUp tops up) here),
    h.silent tops (.stands (next b)) stays thread, tops.setJob stays⟩

theorem settles_calls (h : w.Shows p) (runs : p.Runs) (up : w.IsUp t) (tops : p.Tops part t after)
    {β : Type} {call : KernelCall β} {next : β → Spot} {rest : Program Unit β} {ph : Phase}
    (here : p.jobs part = .calls x call next rest ph)
    (thread : w.thread t = (rest.lift.bind fun b => (next b).code objects).bind after)
    (returns : ∀ (b : β) {p' : Plant}, w.Shows p' → p'.Runs → p'.Tops part t after →
      p'.jobs part = .stands (next b) → w.thread t = ((next b).code objects).bind after →
      Settled w t) : Settled w t := by
  cases going : rest.isDone with
  | false =>
    refine ⟨p, part, after, _, runs, h, tops, ?_, thread⟩
    rw [here]
    exact Job.isNext_of_calls going
  | true =>
    cases rest with
    | done b =>
      obtain ⟨runs', shows', tops'⟩ := h.finishes runs up tops here thread
      exact returns b shows' runs' tops' jobs_setJob thread
    | ask r rest => cases going
    | loop body s rest => cases going

theorem settles_task (h : w.Shows p) (runs : p.Runs) (up : w.IsUp t) (tops : p.Tops part t after)
    (left : (p.jobs part).IsLeft q) (thread : w.thread t = q.bind after)
    (task : part ≠ .transmission) : Settled w t := by
  -- Only the routine comes to an end.
  have goes {p : Plant} (runs : p.Runs) {x : Spot} (here : p.jobs part = .stands x) :
      x ≠ .off ∧ x ≠ .ended := by
    have place := runs.inOrder.part_of_stands here
    constructor
    · rintro rfl
      exact task place.symm
    · rintro rfl
      exact task place.symm
  cases here : p.jobs part with
  | stands x =>
    rw [here] at left
    exact h.settles_stands runs up tops here left thread (goes runs here)
  | calls x call next rest ph =>
    rw [here] at left
    cases left
    exact h.settles_calls runs up tops here thread fun b p' shows' runs' tops' here' thread' =>
      shows'.settles_stands runs' up tops' here' (.stands (next b)) thread' (goes runs' here')

theorem settles_ended (h : w.Shows p) (runs : p.Runs) (up : w.IsUp t)
    (tops : p.Tops .transmission t after) (here : p.jobs .transmission = .stands .ended)
    (thread : w.thread t = after ()) : Settled w t := by
  have ready := h.isUp tops up
  cases tops with
  | transmission x call next data rest ph waits running =>
    have hangsUp := runs.step (.hangsUp x call next data rest ph ready waits here)
    have off : ((p.setJob .transmission (.stands .off)).setJob .filter
        (.calls x call next (rest ()) ph)).jobs .transmission = .stands .off :=
      (jobs_setJob_of_ne (by decide)).trans jobs_setJob
    have left : (Job.calls x call next (rest ()) ph).IsLeft _ := .calls ..
    have thread := thread.trans (Program.bind_done _).symm
    have shows' : w.Shows ((p.setJob .transmission (.stands .off)).setJob .filter
        (.calls x call next (rest ()) ph)) := by
      refine h.goesOn (.inr (.inl rfl)) ⟨.filter, .done, _, .filter off, jobs_setJob.symm ▸ left, thread⟩
        (fun _ _ => rfl) (fun part ne => ?_) h.core h.bench h.journal
      rw [jobs_setJob_of_ne (by rintro rfl; exact ne rfl), jobs_setJob_of_ne (by rintro rfl; exact ne rfl)]
    exact shows'.settles_task hangsUp up (.filter off) (jobs_setJob.symm ▸ left) thread (by decide)

theorem settles_routine (h : w.Shows p) (runs : p.Runs) (up : w.IsUp t)
    (tops : p.Tops .transmission t after) (left : (p.jobs .transmission).IsLeft q)
    (thread : w.thread t = q.bind after) : Settled w t := by
  have stands {p : Plant} {x : Spot} {q : Program Bench Unit} (h : w.Shows p) (runs : p.Runs)
      (tops : p.Tops .transmission t after) (here : p.jobs .transmission = .stands x)
      (left : (Job.stands x).IsLeft q) (thread : w.thread t = q.bind after) : Settled w t := by
    by_cases ended : x = .ended
    · subst ended
      refine h.settles_ended runs up tops here (thread.trans ?_)
      cases left <;> rfl
    · refine h.settles_stands runs up tops here left thread ⟨?_, ended⟩
      rintro rfl
      cases tops with
      | transmission _ _ _ _ _ _ _ running => exact running here
  cases here : p.jobs .transmission with
  | stands x =>
    rw [here] at left
    exact stands h runs tops here left thread
  | calls x call next rest ph =>
    rw [here] at left
    cases left
    exact h.settles_calls runs up tops here thread fun b p' shows' runs' tops' here' thread' =>
      stands shows' runs' tops' here' (.stands (next b)) thread'

/-- A task that has the processor is about to take a step with the part on top of its thread. -/
theorem settles (h : w.Shows p) (runs : p.Runs) (up : w.IsUp t)
    (known : t = samplerTask ∨ t = filterTask ∨ t = monitorTask) : Settled w t := by
  obtain ⟨part, after, q, tops, left, thread⟩ := h.threads t known
  by_cases routine : part = .transmission
  · subst routine
    exact h.settles_routine runs up tops left thread
  · exact h.settles_task runs up tops left thread routine

theorem settles_head (h : w.Shows p) (runs : p.Runs) (up : w.IsUp t) (here : w.thread t = q)
    (busy : q.head ≠ .other) :
    ∃ (p : Plant) (part : Part) (after : Unit → Program Bench Unit) (q' : Program Bench Unit),
      p.Runs ∧ w.Shows p ∧ p.Tops part t after ∧ p.IsUp part ∧ (p.jobs part).IsNext q' ∧
        (q'.bind after).head = q.head := by
  have known : t = samplerTask ∨ t = filterTask ∨ t = monitorTask := by
    by_contra other
    have idle := h.idle t other
    rw [here] at idle
    cases idle <;> exact busy rfl
  obtain ⟨p, part, after, q', runs, h, tops, isNext, thread⟩ := h.settles runs up known
  exact ⟨p, part, after, q', runs, h, tops, h.isUp tops up, isNext, by rw [← thread, here]⟩

theorem idles (h : w.Shows p) {u : TaskId} {left : Program Bench Unit}
    (other : ¬ (u = samplerTask ∨ u = filterTask ∨ u = monitorTask))
    (waits : (Job.stands .waits).IsLeft left) : (w.setThread u left).Shows p where
  core := h.core
  bench := h.bench
  journal := h.journal
  threads t known := by
    have ne : t ≠ u := fun same => other (same ▸ known)
    rw [thread_setThread_of_ne ne]
    exact h.threads t known
  idle t others := by
    by_cases same : t = u
    · rw [same, thread_setThread]
      exact waits
    · rw [thread_setThread_of_ne same]
      exact h.idle t others

theorem request_of_idle (h : w.Shows p)
    (other : ¬ (t = samplerTask ∨ t = filterTask ∨ t = monitorTask)) {β : Type} {r : Request Bench β}
    {next : β → Program Bench Unit} (here : w.thread t = .ask r next) :
    Program.ask r next = .ask .idle fun _ => Spot.waits.code objects := by
  have idle := h.idle t other
  rw [here] at idle
  generalize left : Program.ask r next = q at idle
  cases idle with
  | stands => cases left
  | opened => rfl

theorem advances (h : w.Shows p) (tops : p.Tops part t after) (runs : p'.Runs) (left : job.IsLeft q)
    (stays : part = .transmission → job ≠ .stands .off)
    (threads : w'.thread = (w.setThread t (q.bind after)).thread)
    (jobs : p'.jobs = (p.setJob part job).jobs) (core : w'.core = p'.core)
    (bench : w'.bench = { totals := p'.totals }) (journal : w'.journal = p'.journal) :
    ∃ p', p'.Runs ∧ w'.Shows p' := by
  refine ⟨p', runs, h.goesOn tops.known ⟨part, after, q, ?_, ?_, ?_⟩ (fun u ne => ?_)
    (fun other ne => ?_) core bench journal⟩
  · exact (tops.setJob stays).congr fun _ _ => congrFun jobs _
  · rw [jobs, jobs_setJob]
    exact left
  · rw [threads, thread_setThread]
  · rw [threads, thread_setThread_of_ne ne]
  · rw [jobs, jobs_setJob_of_ne]
    rintro rfl
    exact ne tops.task.symm

theorem replies (h : w.Shows p) (runs : p.Runs) {β : Type} {r : Request Bench β}
    {next : β → Program Bench Unit} {b : β} {c : Core} (up : w.IsUp t) (here : w.thread t = .ask r next)
    (answer : r.Answers w.core b c) :
    ∃ p', p'.Runs ∧ Shows { w.setThread t (next b) with core := c } p' := by
  by_cases known : t = samplerTask ∨ t = filterTask ∨ t = monitorTask
  · obtain ⟨p, part, after, q, runs, h, tops, isNext, thread⟩ := h.settles runs up known
    have head := thread.symm.trans here
    have ready := h.isUp tops up
    generalize here' : p.jobs part = job at isNext
    cases isNext with
    | asks x call nx r' rest ph =>
      cases head
      have reply := Request.Answers.reply answer
      rw [h.core] at reply
      refine h.advances tops (runs.step (.replies part x call nx r' rest ph b c ready here' ?_ reply))
        (.calls x call nx (rest b) ph) (fun _ => by rintro ⟨⟩) rfl rfl rfl h.bench h.journal
      cases r' <;> first | rfl | exact answer.elim
    | loops => cases head
    | unrolls => cases head
    | owns =>
      cases head
      exact answer.elim
    | notes =>
      cases head
      exact answer.elim
    | fails =>
      cases head
      exact answer.elim
  · cases h.request_of_idle known here
    cases answer
    exact ⟨p, runs, h.idles known (.stands .waits)⟩

theorem acts (h : w.Shows p) (runs : p.Runs) {β : Type} {a : Action β}
    {next : Except Fault β → Program Bench Unit} {b : β} {c : Core} (up : w.IsUp t)
    (here : w.thread t = .ask (.act a) next) (result : a.toSection w.core = .ok b c) :
    ∃ p', p'.Runs ∧ Shows { w.setThread t (next (.ok b)) with
      core := c
      journal := w.journal.acts t ⟨a, b⟩ } p' := by
  obtain ⟨p, part, after, q, runs, h, tops, ready, isNext, head⟩ :=
    h.settles_head runs up here nofun
  generalize here' : p.jobs part = job at isNext
  cases isNext with
  | asks x call nx r' rest ph =>
    cases r'
    case act a' =>
      cases head
      rw [h.core] at result
      refine h.advances tops (runs.step (.acts part x call nx a rest ph b c ready here' result))
        (.calls x call nx (rest (.ok b)) (ph.after ⟨a, b⟩)) (fun _ => by rintro ⟨⟩) rfl rfl rfl h.bench ?_
      rw [h.journal, tops.task]
    all_goals cases head
  | _ => cases head

theorem owns (h : w.Shows p) (runs : p.Runs) {β : Type} {f : StateM Bench β}
    {next : β → Program Bench Unit} (up : w.IsUp t) (here : w.thread t = .ask (.own f) next) :
    ∃ p', p'.Runs ∧ Shows { w.setThread t (next (f.run w.bench).1) with
      bench := (f.run w.bench).2
      journal := w.journal.owns t w.bench.totals (f.run w.bench).2.totals } p' := by
  obtain ⟨p, part, after, q, runs, h, tops, ready, isNext, head⟩ :=
    h.settles_head runs up here nofun
  generalize here' : p.jobs part = job at isNext
  cases isNext with
  | owns x f' nx does =>
    cases head
    have run : (onTotals f').run w.bench =
        ((f'.run p.totals).1, { totals := (f'.run p.totals).2 }) := by
      rw [h.bench]
      rfl
    rw [run, h.journal, h.bench, tops.task]
    refine h.advances tops (runs.step (.owns part x f' nx ready here' does))
      (.stands (nx (f'.run p.totals).1)) (fun _ => ?_) (tops.task ▸ rfl) rfl h.core rfl rfl
    intro off
    cases x <;> cases does <;> cases off
  | asks x call nx r' rest ph =>
    cases r'
    case own f' => exact (runs.ruled.obeys _ _ _ _ _ _ here').elim
    all_goals cases head
  | _ => cases head

theorem notes (h : w.Shows p) (runs : p.Runs) {n : Note} {next : Unit → Program Bench Unit}
    (up : w.IsUp t) (here : w.thread t = .ask (.note n) next) :
    ∃ p', p'.Runs ∧ Shows { w.setThread t (next ()) with journal := w.journal.notes n } p' := by
  obtain ⟨p, part, after, q, runs, h, tops, ready, isNext, head⟩ :=
    h.settles_head runs up here nofun
  generalize here' : p.jobs part = job at isNext
  cases isNext with
  | notes x n' nx does =>
    cases head
    refine h.advances tops (runs.step (.notes part x n nx ready here' does)) (.stands nx) (fun _ => ?_)
      rfl rfl h.core h.bench ?_
    · intro off
      cases x <;> cases does
      cases off
    · rw [h.journal]
  | asks x call nx r' rest ph =>
    cases r'
    case note n' => exact (runs.ruled.obeys _ _ _ _ _ _ here').elim
    all_goals cases head
  | _ => cases head

theorem puts (h : w.Shows p) (runs : p.Runs) {r : PutRoutine} {data : UInt64}
    {next : Unit → Program Bench Unit} (up : w.IsUp t) (here : w.thread t = .ask (.put r data) next) :
    ∃ p', p'.Runs ∧ Shows (w.setThread t ((r.program data).bind next)) p' := by
  obtain ⟨p, part, after, q, runs, h, tops, ready, isNext, head⟩ :=
    h.settles_head runs up here nofun
  generalize here' : p.jobs part = job at isNext
  cases isNext with
  | asks x call nx r' rest ph =>
    cases r'
    case put r' data' =>
      cases head
      have kicks : call.Kicks ph r := (runs.ruled.obeys _ _ _ _ _ _ here').1
      obtain ⟨filter, rfl⟩ := Spot.filter_of_kicks (runs.inOrder.does here') kicks
      have on := runs.tidy.places part
      rw [station_of_job here'] at on
      obtain rfl : Part.filter = part := filter.symm.trans on
      cases tops with
      | filter off =>
        have polls : (p.setJob .transmission (.stands .polls)).Tops .transmission filterTask
            fun _ => (rest ()).lift.bind fun b => (nx b).code objects := by
          refine .transmission x call nx data rest ph ((jobs_setJob_of_ne (by decide)).trans here') ?_
          rw [jobs_setJob]
          rintro ⟨⟩
        have left : (Job.stands .polls).IsLeft (Spot.polls.code objects) := .stands .polls
        refine ⟨_, runs.step (.kicks x call nx data rest ph ready here' off), ?_⟩
        refine h.goesOn (.inr (.inl rfl)) ⟨_, _, Spot.polls.code objects, polls, ?_, ?_⟩
          (fun u ne => thread_setThread_of_ne ne) (fun part ne => ?_) h.core h.bench h.journal
        · rw [jobs_setJob]
          exact left
        · rw [thread_setThread]
          refine congrArg (Program.bind _) (funext fun _ => Program.bind_done _)
        · exact jobs_setJob_of_ne (by rintro rfl; exact ne rfl)
    all_goals cases head
  | _ => cases head

theorem not_controls (h : w.Shows p) (runs : p.Runs) {r : ControlRoutine} {data : UInt64}
    {control : UInt32} {arg : UInt64} {next : Int32 → Program Bench Unit} (up : w.IsUp t) :
    w.thread t ≠ .ask (.control r data control arg) next := by
  intro here
  obtain ⟨p, part, after, q, runs, h, tops, ready, isNext, head⟩ :=
    h.settles_head runs up here nofun
  generalize here' : p.jobs part = job at isNext
  cases isNext with
  | asks x call nx r' rest ph =>
    cases r'
    case control => exact (runs.ruled.obeys _ _ _ _ _ _ here').elim
    all_goals cases head
  | _ => cases head

theorem unrolls (h : w.Shows p) (runs : p.Runs) {β τ : Type} {body : τ → Program Bench (τ ⊕ β)} {s : τ}
    {next : β → Program Bench Unit} (up : w.IsUp t) (here : w.thread t = .loop body s next) :
    ∃ p', p'.Runs ∧ Shows (w.setThread t (Program.unroll body s next)) p' := by
  by_cases known : t = samplerTask ∨ t = filterTask ∨ t = monitorTask
  · obtain ⟨p, part, after, q, runs, h, tops, isNext, thread⟩ := h.settles runs up known
    have head := thread.symm.trans here
    have ready := h.isUp tops up
    generalize here' : p.jobs part = job at isNext
    cases isNext with
    | loops x body' s' nx code =>
      cases head
      have left : (Job.stands x).IsLeft (Program.unroll body s nx) := by
        have opened : (x.code objects).opened = Program.unroll body s nx := by
          rw [code]
          rfl
        exact opened ▸ .opened x
      have same : p.setJob part (.stands x) = p := by
        rw [setJob, ← here', Function.update_eq_self]
      refine h.advances tops (same.symm ▸ runs) left (fun is off => ?_) ?_ rfl h.core h.bench h.journal
      · cases off
        cases code
      · rw [Program.unroll_bind]
    | unrolls x call nx body' s' rest ph =>
      cases head
      refine h.advances tops (runs.step (.unrolls part x call nx body' s rest ph ready here'))
        (.calls x call nx (Program.unroll body' s rest) ph) (fun _ => by rintro ⟨⟩) ?_ rfl h.core h.bench
        h.journal
      rw [Program.lift_unroll, Program.unroll_bind, Program.unroll_bind]
    | _ => cases head
  · have idle := h.idle t known
    rw [here] at idle
    generalize left : Program.loop body s next = q at idle
    cases idle with
    | stands =>
      cases left
      exact ⟨p, runs, h.idles known (.opened .waits)⟩
    | opened => cases left

/-- A step of the firmware is one of the plant, or leaves it where it is. -/
theorem step (h : w.Shows p) (runs : p.Runs) (step : Step w w') : ∃ p', p'.Runs ∧ w'.Shows p' := by
  cases step with
  | replies t r next b c up here answer => exact h.replies runs up here answer
  | acts t a next b c up here result => exact h.acts runs up here result
  | owns t f next up here => exact h.owns runs up here
  | notes t n next up here => exact h.notes runs up here
  | puts t r data next up here => exact h.puts runs up here
  | controls t r data control arg next up here => exact (h.not_controls runs up here).elim
  | unrolls t body s next up here => exact h.unrolls runs up here
  | ticks u c result =>
    rw [h.core] at result
    exact ⟨_, runs.step (.ticks u c result), h.stays rfl rfl rfl h.bench h.journal⟩
  | switches sp resumed c result =>
    rw [h.core] at result
    exact ⟨_, runs.step (.switches sp resumed c result), h.stays rfl rfl rfl h.bench h.journal⟩
  | elapses clock =>
    exact ⟨_, runs.step (.elapses clock), h.stays rfl rfl (by rw [h.core]) h.bench h.journal⟩

/-- A fault of the firmware is one of the plant. -/
theorem faults (h : w.Shows p) (runs : p.Runs) {f : Fault} (faults : w.Faults f) :
    ∃ p : Plant, p.Runs ∧ p.Faults f := by
  cases faults with
  | raises t next up here =>
    obtain ⟨p, part, after, q, runs, h, tops, ready, isNext, head⟩ :=
      h.settles_head runs up here nofun
    generalize here' : p.jobs part = job at isNext
    cases isNext with
    | fails x f' nx does =>
      cases head
      exact ⟨p, runs, .fails part x ready here' does⟩
    | asks x call nx r' rest ph =>
      cases r'
      case fault f' =>
        cases head
        exact ⟨p, runs, .raises part x call nx rest ph ready here'⟩
      all_goals cases head
    | _ => cases head
  | meets t a next c up here result =>
    obtain ⟨p, part, after, q, runs, h, tops, ready, isNext, head⟩ :=
      h.settles_head runs up here nofun
    generalize here' : p.jobs part = job at isNext
    cases isNext with
    | asks x call nx r' rest ph =>
      cases r'
      case act a' =>
        cases head
        exact ⟨p, runs, .meets part x call nx a rest ph c ready here' (h.core ▸ result)⟩
      all_goals cases head
    | _ => cases head
  | ticks c result => exact ⟨p, runs, .ticks c (h.core ▸ result)⟩
  | switches sp c result => exact ⟨p, runs, .switches sp c (h.core ▸ result)⟩

end Firmware.Shows

end Rtos
