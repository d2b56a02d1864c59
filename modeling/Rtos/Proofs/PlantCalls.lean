import Rtos.Proofs.PlantKernel
import Rtos.Proofs.Trail

/-!
# The calls of the plant

What each call of the plant may do, section by section: `KernelCall.May` lists the sections, and
`Obeys` asks of a program that it comes to no others, meets no fault but those of `MayFail`, runs the
routine of the transmit queue just after it has put a message there, and ends as `Ends` says.
-/

namespace Rtos

open Pipeline

namespace Outcome

def kicks : Outcome → Bool
  | ⟨.enqueue _ _, some _⟩ => true
  | _ => false

end Outcome

def Phase.hasPolled (ph : Phase) : Bool := ph.last.any (·.action.polls.isSome)

namespace KernelCall

/-- The sections that a call of task `me` may come to. -/
inductive May (me : TaskId) :
    {γ : Type} → KernelCall γ → Phase → {β : Type} → Action β → Prop
  | looks (q : QueueId) (n : Int32) : May me (receiveTagged q n) {} (.read (·.queueSemaphore q))
  | waits (q : QueueId) (n : Int32) (s : SemId) (ph : Phase) (empty : ph.cargo = [])
      (known : s.index < 2) : May me (receiveTagged q n) ph (.beginWait s n)
  | resumes (q : QueueId) (n : Int32) (s : SemId) (ph : Phase) (empty : ph.cargo = [])
      (known : s.index < 2) : May me (receiveTagged q n) ph (.resumeWait s n me)
  | takes (q : QueueId) (n : Int32) (ph : Phase) (empty : ph.cargo = [])
      (task : q ≠ objects.transmit) : May me (receiveTagged q n) ph (.dequeue q)
  | polls (n : Int32) (ph : Phase) (empty : ph.cargo = []) (first : ph.hasPolled = false) :
      May me (receiveTagged objects.transmit n) ph (.pollDriver objects.transmit)
  | puts (q : QueueId) (m : TaggedMessage) (code length : UInt16) :
      May me (putTagged q m code length) { cargo := [m.message] }
        (.enqueue q (m.withHeader code length).message)
  | givesBack (m : TaggedMessage) :
      May me (giveBackTagged m) { cargo := [m.message] } (.enqueue m.message.home m.message)
  | naps (n : Int32) : May me (delay n) {} (.delay n)
  | locks (m : MutexId) : May me (lockUntilClaimed m) {} (.beginLock m waitForever)
  | relocks (m : MutexId) (ph : Phase) (blocked : ph.blocked = some (.mutex m, me)) :
      May me (lockUntilClaimed m) ph (.resumeLock m me waitForever me)
  | unlocks (m : MutexId) : May me (unlock m) {} (.unlock m)
  | views : May me kernel {} (.read .ok)
  | resets : May me resetTimes {} .resetTimes

/-- The faults that a call may ask for. -/
inductive MayFail : {γ : Type} → KernelCall γ → Phase → Fault → Prop
  | noMessage (q : QueueId) (n : Int32) (ph : Phase) :
      MayFail (receiveTagged q n) ph .taskQueueCount
  | tooSmall (q : QueueId) (n : Int32) (ph : Phase) (m : Message) (cargo : ph.cargo = [m])
      (small : m.payload.length < tagBytes) : MayFail (receiveTagged q n) ph .tooSmallForHeader
  | tooLong (q : QueueId) (m : TaggedMessage) (code length : UInt16)
      (long : m.capacity < length.toNat) :
      MayFail (putTagged q m code length) { cargo := [m.message] } (.tooLongForSlot length.toNat)
  | runsOut (m : MutexId) (ph : Phase)
      (tried : ph.last.bind Outcome.tried = some (.mutex m, .timedOut)) :
      MayFail (lockUntilClaimed m) ph .lockForeverTimedOut

inductive Kicks : {γ : Type} → KernelCall γ → Phase → PutRoutine → Prop
  | intro (m : TaggedMessage) (code length : UInt16) (ph : Phase) (put : ph.last.isSome)
      (empty : ph.cargo = []) :
      Kicks (putTagged objects.transmit m code length) ph (.transmit objects)

def Ends : {γ : Type} → KernelCall γ → γ → Phase → Prop
  | _, receiveTagged q _, m, ph =>
    ph.cargo = (m.map TaggedMessage.message).toList ∧ (q = objects.transmit → ph.hasPolled)
  | _, lockUntilClaimed m, _, ph => ph.last.bind Outcome.tried = some (.mutex m, .claimed)
  | _, unlock _, _, ph => ph.last.isSome
  | _, putTagged .., _, ph | _, giveBackTagged _, _, ph => ph.cargo = []
  | _, _, _, _ => True

end KernelCall

namespace KernelCall.May

variable {me : TaskId} {β γ : Type} {call : KernelCall γ} {ph : Phase} {a : Action β}

theorem puts_of_takes (h : call.May me ph a) {m : Message} (takes : call.takes = [m]) :
    ph.cargo = [m] ∧ ∃ q m', a.puts = some (q, m') ∧ call.Hands q m' := by
  cases h with
  | puts => cases takes; exact ⟨rfl, _, _, rfl, rfl, rfl⟩
  | givesBack => cases takes; exact ⟨rfl, _, _, rfl, rfl, rfl⟩
  | _ => cases takes

theorem polls_eq (h : call.May me ph a) {q : QueueId} (polls : a.polls = some q) :
    q = objects.transmit := by
  cases h <;> cases polls
  rfl

end KernelCall.May

theorem KernelCall.Kicks.hands {γ : Type} {call : KernelCall γ} {ph : Phase} {r : PutRoutine}
    (h : call.Kicks ph r) :
    ph.cargo = [] ∧ ∃ m, call.takes = [m] ∧ ∃ m', call.Hands objects.transmit m' := by
  cases h with
  | intro m code length _ put empty => exact ⟨empty, m.message, rfl, _, rfl, rfl⟩

/-- Whether the program will run a routine, whatever happens before. -/
def Program.Owes : {α : Type} → Program Unit α → Prop
  | _, .done _ => False
  | _, .ask r next =>
    match r, next with
    | .put _ _, _ => True
    | _, next => ∀ b, (next b).Owes
  | _, .loop .. => False

theorem Program.Owes.bind {α β : Type} {p : Program Unit α} (h : p.Owes) (f : α → Program Unit β) :
    (p.bind f).Owes := by
  induction p with
  | done a => exact h.elim
  | ask r next ih =>
    cases r with
    | put r data => trivial
    | _ => exact fun b => ih b (h b) f
  | loop => exact h.elim

def Kernel.Serves (k : Kernel) (me : TaskId) : Prop := k.Furnished ∧ k.current = some me

/-- From phase `ph` on, the program does what the rules of the call allow, and ends in `Q`. -/
def Obeys (me : TaskId) {γ : Type} (call : KernelCall γ) :
    {α : Type} → Program Unit α → (α → Phase → Prop) → Phase → Prop
  | _, .done a, Q, ph => Q a ph
  | _, .ask r next, Q, ph =>
    match r, next with
    | .act a, next => call.May me ph a ∧ ∀ (c : Core) b c', c.kernel.Serves me →
        a.toSection c = .ok b c' → (Outcome.kicks ⟨a, b⟩ → (next (.ok b)).Owes) ∧
          Obeys me call (next (.ok b)) Q (ph.after ⟨a, b⟩)
    | .fault f, _ => call.MayFail ph f
    | .put r _, next => call.Kicks ph r ∧ Obeys me call (next ()) Q ph
    | .control _ _ _ _, _ | .note _, _ | .own _, _ => False
    | _, next => ∀ b, Obeys me call (next b) Q ph
  | _, .loop (τ := τ) body t next, Q, ph => ∃ I : τ → Phase → Prop, I t ph ∧
      ∀ t ph, I t ph → Obeys me call (body t) (fun r ph => match r with
        | .inl t => I t ph
        | .inr b => Obeys me call (next b) Q ph) ph

namespace Obeys

variable {me : TaskId} {γ : Type} {call : KernelCall γ} {α β : Type} {ph : Phase}

theorem imp {p : Program Unit α} {Q Q' : α → Phase → Prop} (h : Obeys me call p Q ph)
    (hQ : ∀ a ph, Q a ph → Q' a ph) : Obeys me call p Q' ph := by
  induction p generalizing ph with
  | done a => exact hQ a ph h
  | ask r next ih =>
    cases r
    case act a =>
      exact ⟨h.1, fun c b c' hc hb => ⟨(h.2 c b c' hc hb).1, ih _ (h.2 c b c' hc hb).2 hQ⟩⟩
    case fault f => exact h
    case put r data => exact ⟨h.1, ih () h.2 hQ⟩
    case control | note | own => exact h
    all_goals exact fun b => ih b (h b) hQ
  | loop body t next ihb ihn =>
    obtain ⟨I, hI, hbody⟩ := h
    refine ⟨I, hI, fun t ph ht => ihb t (hbody t ph ht) fun r ph' hr => ?_⟩
    cases r with
    | inl t => exact hr
    | inr b => exact ihn b hr hQ

theorem bind {p : Program Unit α} {f : α → Program Unit β} {Q : β → Phase → Prop}
    (h : Obeys me call p (fun a ph => Obeys me call (f a) Q ph) ph) :
    Obeys me call (p.bind f) Q ph := by
  induction p generalizing ph with
  | done a => exact h
  | ask r next ih =>
    cases r
    case act a =>
      refine ⟨h.1, fun c b c' hc hb => ⟨fun kicks => ?_, ih _ (h.2 c b c' hc hb).2⟩⟩
      exact ((h.2 c b c' hc hb).1 kicks).bind f
    case fault f => exact h
    case put r data => exact ⟨h.1, ih () h.2⟩
    case control | note | own => exact h
    all_goals exact fun b => ih b (h b)
  | loop body t next ihb ihn =>
    obtain ⟨I, hI, hbody⟩ := h
    refine ⟨I, hI, fun t ph ht => (hbody t ph ht).imp fun r ph' hr => ?_⟩
    cases r with
    | inl t => exact hr
    | inr b => exact ihn b hr

theorem unroll {τ : Type} {body : τ → Program Unit (τ ⊕ β)} {t : τ} {next : β → Program Unit α}
    {Q : α → Phase → Prop} (h : Obeys me call (.loop body t next) Q ph) :
    Obeys me call (Program.unroll body t next) Q ph := by
  obtain ⟨I, hI, hbody⟩ := h
  refine bind ((hbody t ph hI).imp fun r ph' hr => ?_)
  cases r with
  | inl t => exact ⟨I, hr, hbody⟩
  | inr b => exact hr

theorem reply {r : Request Unit β} {next : β → Program Unit α} {Q : α → Phase → Prop} {c c' : Core}
    {b : β} (h : Obeys me call (.ask r next) Q ph) (answer : Reply r c b c') :
    Obeys me call (next b) Q ph := by
  cases answer with
  | put => exact h.2
  | control | note => exact h.elim
  | _ => exact h _

theorem critical {a : Action β} {Q : β → Phase → Prop} (may : call.May me ph a)
    (quiet : ∀ b, Outcome.kicks ⟨a, b⟩ = false)
    (hQ : ∀ (c : Core) b c', c.kernel.Serves me → a.toSection c = .ok b c' →
      Q b (ph.after ⟨a, b⟩)) : Obeys me call (Program.critical a) Q ph := by
  refine fun _ => ⟨may, fun c b c' hc hb => ⟨fun kicks => ?_, fun _ => hQ c b c' hc hb⟩⟩
  exact nomatch (quiet b).symm.trans kicks

end Obeys

theorem Tries.sleeper {r : Resource} {n : Int32} {resumed : Option TaskId} {k k' : Kernel}
    {me t : TaskId} (h : Tries r n resumed k (.asleep t) k') (current : k.current = some me)
    (back : ∀ u, resumed = some u → u = me) : t = me := by
  cases h with
  | sleepsOn _ resumed => exact back t resumed
  | asleep _ _ _ _ _ current' => exact Option.some.inj (current'.symm.trans current)

theorem Section.enqueue_routine {c c' : Core} {q : QueueId} {m : Message}
    {b : Option (PutRoutine × UInt64)} (h : enqueue q m c = .ok b c') :
    (c.kernel.forms[q.index]?).map Prod.snd = some (b.map Prod.fst) := by
  simp only [enqueue, bind_eq_ok, slot_eq_ok] at h
  obtain ⟨slot, c₁, ⟨-, rfl⟩, h⟩ := h
  split at h
  · exact (throw_eq_ok.1 h).elim
  split at h
  · exact (throw_eq_ok.1 h).elim
  simp only [bind_eq_ok, setSlot, setQueue, modifyKernel_eq_ok, queue_eq_ok, kernel_eq_ok] at h
  obtain ⟨_, c₁, rfl, queue, c₂, ⟨which, rfl⟩, k, c₃, ⟨rfl, rfl⟩, _, c₄, rfl, _, c₅, rfl, h⟩ := h
  have which : c.kernel.queues[q.index]? = some queue := which
  rw [Kernel.forms, List.getElem?_map, which, Option.map_some, Option.map_some, Queue.form]
  rw [push_discipline] at h
  cases hd : queue.discipline with
  | task s =>
    simp only [hd, bind_eq_ok, pure_eq_ok] at h
    obtain ⟨_, c₁, -, rfl, rfl⟩ := h
    rfl
  | driver d =>
    simp only [hd, bind_eq_ok, increment_eq_ok, modifyKernel_eq_ok, note_eq_ok, pure_eq_ok] at h
    obtain ⟨n, c₁, -, _, c₂, -, _, c₃, -, rfl, -⟩ := h
    cases hp : d.put <;> simp [Discipline.routine, hp]

namespace Obeys

variable {me : TaskId} {γ : Type} {call : KernelCall γ} {ph : Phase}

/-- The loop of a wait: the invariant is the verdict of the last try, after which nobody but the
caller sleeps. -/
theorem settle {saved : Bool} {v : Verdict} {resume : TaskId → Action Verdict} {w : Waitable}
    {Q : Status → Phase → Prop} (tried : ph.HasTried w v []) (mine : ∀ t, v = .asleep t → t = me)
    (resumes : ∀ t, (resume t).resumes = some (w, t))
    (may : ∀ ph, ph.HasTried w (.asleep me) [] → call.May me ph (resume me))
    (quiet : ∀ v, Outcome.kicks ⟨resume me, v⟩ = false)
    (sleeper : ∀ (c : Core) t c', c.kernel.Serves me →
      (resume me).toSection c = .ok (.asleep t) c' → t = me)
    (hQ : ∀ status ph, ph.HasTried w status.verdict [] → Q status ph) :
    Obeys me call (Call.settle saved (.ok v) resume) Q ph := by
  refine ⟨fun x ph => ∃ v, x.2 = .ok v ∧ ph.HasTried w v [] ∧ ∀ t, v = .asleep t → t = me,
    ⟨v, rfl, tried, mine⟩, ?_⟩
  rintro ⟨saved, _⟩ ph ⟨v, rfl, tried, mine⟩
  cases v with
  | claimed => exact fun _ => hQ .ok ph tried
  | timedOut => exact fun _ => hQ .timeout ph tried
  | asleep t =>
    obtain rfl := mine t rfl
    intro _ _ _
    refine ⟨may ph tried, fun c v c' hc result => ⟨fun kicks => ?_, v, rfl, ⟨?_, ?_⟩, ?_⟩⟩
    · exact nomatch (quiet v).symm.trans kicks
    · exact Action.tried_of_resumes (resumes t) rfl v
    · exact (Action.cargo_of_resumes (resumes t) v).trans tried.cargo
    · rintro u rfl
      exact sleeper c u c' hc result

theorem wait {s : SemId} {n : Int32} {Q : Status → Phase → Prop} (empty : ph.cargo = [])
    (begins : call.May me ph (.beginWait s n))
    (resumes : ∀ ph : Phase, ph.cargo = [] → call.May me ph (.resumeWait s n me))
    (hQ : ∀ status ph, ph.HasTried (.semaphore s) status.verdict [] → Q status ph) :
    Obeys me call (Call.wait s n) Q ph := by
  refine fun _ => ⟨begins, fun c v c' hc result => ⟨fun h => (nomatch h), ?_⟩⟩
  refine settle ⟨rfl, empty⟩ ?_ (fun _ => rfl) (fun ph tried => resumes ph tried.cargo) (fun _ => rfl)
    (fun c t c' hc result => ?_) hQ
  · rintro t rfl
    exact (Section.beginWait_ok result).sleeper hc.2 fun _ h => nomatch h
  · refine (Section.resumeWait_ok result).sleeper hc.2 ?_
    rintro _ ⟨⟩
    rfl

theorem lockUntilClaimed (m : MutexId) : Obeys me (.lockUntilClaimed m) (Call.lockUntilClaimed m)
    (KernelCall.Ends (.lockUntilClaimed m)) {} := by
  refine bind fun _ => ⟨.locks m, fun c (t, v) c' hc result => ⟨fun h => (nomatch h), ?_⟩⟩
  obtain ⟨current, came⟩ := Section.beginLock_ok result
  obtain rfl : t = me := Option.some.inj (current.symm.trans hc.2)
  refine settle (w := .mutex m) ⟨rfl, rfl⟩ ?_ (fun _ => rfl) (fun ph tried => .relocks m ph tried.blocked)
    (fun _ => rfl) (fun c u c' hc result => ?_) fun status ph tried => ?_
  · rintro u rfl
    exact came.sleeper hc.2 fun _ h => nomatch h
  · refine (Section.resumeLock_ok result).sleeper hc.2 ?_
    rintro _ ⟨⟩
    rfl
  · cases status with
    | ok => exact tried.tried
    | timeout => exact .runsOut m ph tried.tried

theorem tagged {q : QueueId} {n : Int32} {m : Option Message} (cargo : ph.cargo = m.toList)
    (polled : q = objects.transmit → ph.hasPolled) :
    Obeys me (.receiveTagged q n) (match m with
        | none => .done none
        | some m => (Program.ofExcept (TaggedMessage.ofMessage m)).bind fun m => .done (some m))
      (KernelCall.Ends (.receiveTagged q n)) ph := by
  cases m with
  | none => exact ⟨cargo, polled⟩
  | some m =>
    by_cases small : m.payload.length < tagBytes
    · have fails : TaggedMessage.ofMessage m = .error .tooSmallForHeader := if_pos small
      dsimp only
      rw [fails]
      exact .tooSmall q n ph m cargo small
    · have reads : TaggedMessage.ofMessage m = .ok ⟨m⟩ := if_neg small
      dsimp only
      rw [reads]
      exact ⟨cargo, polled⟩

theorem receiveTagged_task {q : QueueId} {n : Int32} {s : SemId} (known : s.index < 2)
    (task : q ≠ objects.transmit)
    (sem : ∀ k : Kernel, k.Furnished → k.queueSemaphore q = .ok (some s)) :
    Obeys me (.receiveTagged q n) (Call.receiveTagged q n) (KernelCall.Ends (.receiveTagged q n))
      {} := by
  refine bind (bind (critical (.looks q n) (fun _ => rfl) fun c o c' hc looks => ?_))
  obtain rfl : o = some s := by
    have found := (Section.reading_eq_ok.1 looks).1.symm.trans (sem c.kernel hc.1)
    cases found
    rfl
  refine bind (wait rfl (.waits q n s _ rfl known) (fun ph empty => .resumes q n s ph empty known)
    fun status ph tried => ?_)
  cases status with
  | timeout => exact ⟨tried.cargo, fun driver => (task driver).elim⟩
  | ok =>
    refine bind (critical (.takes q n ph tried.cargo task) (fun _ => rfl) fun _ m _ _ _ => ?_)
    cases m with
    | none => exact .noMessage q n _
    | some m => exact tagged (m := some m) (congrArg (m :: ·) tried.cargo) fun driver => (task driver).elim

theorem receiveTagged_driver {n : Int32} :
    Obeys me (.receiveTagged objects.transmit n) (Call.receiveTagged objects.transmit n)
      (KernelCall.Ends (.receiveTagged objects.transmit n)) {} := by
  refine bind (bind (critical (.looks _ n) (fun _ => rfl) fun c o c' hc looks => ?_))
  obtain rfl : o = none := by
    have found := (Section.reading_eq_ok.1 looks).1.symm.trans hc.1.transmit
    cases found
    rfl
  refine critical (.polls n _ rfl rfl) (fun _ => rfl) fun _ m _ _ _ => ?_
  exact tagged (by cases m <;> rfl) fun _ => by cases m <;> rfl

theorem cargo_of_put {q : QueueId} {m m' : Message} (same : m.id = m'.id)
    (b : Option (PutRoutine × UInt64)) :
    (Phase.after ⟨.enqueue q m', b⟩ { cargo := [m] }).cargo = [] := by
  change [m].eraseP (fun x => decide (x.id = m'.id)) = []
  simp only [same, decide_true, List.eraseP_cons_of_pos]

theorem put_task {q : QueueId} {m m' : Message} {Q : Unit → Phase → Prop}
    (may : call.May me { cargo := [m] } (.enqueue q m')) (same : m.id = m'.id)
    (task : ∀ k : Kernel, k.Furnished → (k.forms[q.index]?).map Prod.snd = some none)
    (hQ : ∀ ph : Phase, ph.cargo = [] → Q () ph) :
    Obeys me call (Call.put q m') Q { cargo := [m] } := by
  refine fun _ => ⟨may, fun c b c' hc result => ?_⟩
  have routine := (Section.enqueue_routine result).symm.trans (task c.kernel hc.1)
  obtain rfl : b = none := Option.map_eq_none_iff.1 (Option.some.inj routine)
  exact ⟨fun h => (nomatch h), fun _ => hQ _ (cargo_of_put same none)⟩

theorem put_driver {m : TaggedMessage} {m' : Message} {code length : UInt16}
    (may : KernelCall.May me (.putTagged objects.transmit m code length) { cargo := [m.message] }
      (.enqueue objects.transmit m')) (same : m.message.id = m'.id) :
    Obeys me (.putTagged objects.transmit m code length) (Call.put objects.transmit m')
      (KernelCall.Ends (.putTagged objects.transmit m code length)) { cargo := [m.message] } := by
  refine fun _ => ⟨may, fun c b c' hc result => ?_⟩
  have routine := Section.enqueue_routine result
  rw [hc.1.forms] at routine
  obtain ⟨⟨r, data⟩, rfl, rfl⟩ := Option.map_eq_some_iff.1 (Option.some.inj routine.symm)
  have empty := cargo_of_put (q := objects.transmit) same (some (.transmit objects, data))
  exact ⟨fun _ _ => trivial, fun _ => ⟨.intro m code length _ rfl empty, empty⟩⟩

theorem putTagged {q : QueueId} {m : TaggedMessage} {code length : UInt16}
    (puts : Obeys me (.putTagged q m code length)
      (Call.put q (m.withHeader code length).message) (KernelCall.Ends (.putTagged q m code length))
      { cargo := [m.message] }) :
    Obeys me (.putTagged q m code length) (Call.putTagged q m code length)
      (KernelCall.Ends (.putTagged q m code length)) { cargo := [m.message] } := by
  unfold Call.putTagged
  split
  · exact puts
  · next long => exact .tooLong q m code length (Nat.lt_of_not_le long)

end Obeys

/-- A part obeys from the moment at which it makes a call, if the buffers in its hands are of the
pool. -/
theorem Spot.obeys {x : Spot} {β : Type} {call : KernelCall β} {next : β → Spot} (me : TaskId)
    (does : x.deed objects = .call call next) (home : ∀ m ∈ x.hand, m.home = objects.pool) :
    Obeys me call call.program call.Ends { cargo := call.takes } := by
  have work (k : Kernel) (h : k.Furnished) :
      (k.forms[objects.work.index]?).map Prod.snd = some none := by rw [h.forms]; rfl
  cases x <;> cases does
  case asks => exact .receiveTagged_task (by decide) (by decide) fun k h => h.pool
  case fills m => exact .putTagged (.put_task (.puts ..) rfl work fun ph empty => empty)
  case pauses => exact .critical (.naps 5) (fun _ => rfl) fun _ _ _ _ _ => trivial
  case awaits => exact .receiveTagged_task (by decide) (by decide) fun k h => h.work
  case enters => exact .lockUntilClaimed _
  case leaves => exact .critical (.unlocks _) (fun _ => rfl) fun _ _ _ _ _ => rfl
  case passes m => exact .putTagged (.put_driver (.puts ..) rfl)
  case rests => exact .critical (.naps _) (fun _ => rfl) fun _ _ _ _ _ => trivial
  case opens => exact .lockUntilClaimed _
  case closes => exact .critical (.unlocks _) (fun _ => rfl) fun _ _ _ _ _ => rfl
  case looksSwitches => exact .critical .views (fun _ => rfl) fun _ _ _ _ _ => trivial
  case resets => exact .critical .resets (fun _ => rfl) fun _ _ _ _ _ => trivial
  case polls => exact .receiveTagged_driver
  case returns m =>
    have home : m.message.home = objects.pool := home _ (List.mem_singleton.2 rfl)
    refine .put_task (.givesBack m) rfl (fun k h => ?_) fun ph empty => empty
    rw [h.forms, home]
    rfl

end Rtos
