import Rtos.Proofs.Contract

/-!
# The calls keep their contract

Every call of the kernel, from the moment it is made. Each program is followed section by section:
`Phase.Rests` says that a call is between two sections that have nothing to do with each other, and
the blocking calls go through `settle`, whose loop holds the verdict of the last try.
-/

namespace Rtos

/-- Nothing but the request itself is to blame for a fault. -/
def Blameless {α : Type} (x : Except Fault α) : Prop := ∀ e, x = .error e → ¬ e.IsBreach

namespace Blameless

variable {α β : Type}

theorem ok (a : α) : Blameless (.ok a) := fun _ h => nomatch h

theorem error {e : Fault} (h : ¬ e.IsBreach) : Blameless (.error e : Except Fault α) := by
  rintro _ ⟨⟩
  exact h

theorem bind {x : Except Fault α} {f : α → Except Fault β} (hx : Blameless x)
    (hf : ∀ a, Blameless (f a)) : Blameless (x >>= f) := by
  cases x with
  | ok a => exact hf a
  | error e =>
    rintro _ ⟨⟩
    exact hx e rfl

theorem entry (table : List α) (i : Nat) : Blameless (entry table i) := by
  unfold Rtos.entry
  split
  · exact .ok _
  · exact .error id

theorem mapM {f : α → Except Fault β} (hf : ∀ a, Blameless (f a)) (l : List α) :
    Blameless (l.mapM f) := by
  induction l with
  | nil => exact .ok []
  | cons a l ih =>
    rw [List.mapM_cons]
    exact .bind (hf a) fun b => .bind ih fun bs => .ok _

theorem messageRow (k : Kernel) (id : MessageId) (s : Slot) : Blameless (k.messageRow id s) := by
  refine .bind (.entry _ _) fun home => .bind ?_ fun holder => .ok _
  cases s.queue with
  | none => exact .ok none
  | some q => exact .bind (.entry _ _) fun x => .ok (some x)

theorem queueMessages (k : Kernel) (q : QueueId) :
    Blameless (do k.queueMessages (← k.queue q)) :=
  .bind (.entry _ _) fun _ => .mapM (fun _ => .bind (.entry _ _) fun _ => .messageRow _ _ _) _

theorem poolMessages (k : Kernel) (q : QueueId) : Blameless (k.poolMessages q) :=
  .mapM (fun _ => .messageRow _ _ _) _

theorem currentTask (k : Kernel) : Blameless k.currentTask := by
  unfold Kernel.currentTask
  split
  · exact .ok _
  · exact .error id

theorem localWord (k : Kernel) (n : Nat) : Blameless (k.localWord n) := by
  refine .bind (currentTask k) fun t => .bind (.entry _ _) fun x => ?_
  split
  · exact .ok _
  · exact .error id

theorem queueSemaphore (k : Kernel) (q : QueueId) : Blameless (k.queueSemaphore q) := by
  refine .bind (.entry _ _) fun x => ?_
  split <;> exact .ok _

theorem controlRoutine (k : Kernel) (q : QueueId) : Blameless (k.controlRoutine q) := by
  refine .bind (.entry _ _) fun x => ?_
  split <;> exact .ok _

end Blameless

/-- The call is between two sections that have nothing to do with each other, and holds just the
messages `cargo`. -/
structure Phase.Rests {α : Type} (call : KernelCall α) (cargo : List Message) (ph : Phase) : Prop where
  blocked : ph.blocked = none
  ticket : ph.ticket call = none
  alive : ¬ ph.gone
  cargo : ph.cargo = cargo

/-- The call tried for `w`, with verdict `v`, and holds just the messages `cargo`. -/
structure Phase.HasTried (w : Waitable) (v : Verdict) (cargo : List Message) (ph : Phase) : Prop where
  tried : ph.last.bind Outcome.tried = some (w, v)
  cargo : ph.cargo = cargo

namespace Phase

variable {α β : Type} {call : KernelCall α} {cargo : List Message} {ph : Phase} {w : Waitable}
  {v : Verdict} {t : TaskId} {a : Action β} {b : β}

theorem rests_initial : ({ cargo } : Phase).Rests call cargo := by
  refine ⟨rfl, rfl, ?_, rfl⟩
  rintro ⟨_, h, -⟩
  exact nomatch h

theorem rests_after (tried : a.tried b = none) (stays : a.exits = false)
    (h : (ph.after ⟨a, b⟩).cargo = cargo) : (ph.after ⟨a, b⟩).Rests call cargo := by
  have hb : (ph.after ⟨a, b⟩).last.bind Outcome.tried = none := tried
  refine ⟨?_, ?_, ?_, h⟩
  · rw [blocked, hb]
  · rw [ticket, hb]
  · rintro ⟨o, ho, he⟩
    cases ho
    exact Bool.noConfusion (stays.symm.trans he)

theorem HasTried.alive (h : ph.HasTried w v cargo) : ¬ ph.gone := by
  rintro ⟨⟨a, b⟩, ho, he⟩
  have ht := h.tried
  rw [ho] at ht
  cases a <;> simp_all [Action.exits, Outcome.tried, Action.tried]

theorem HasTried.blocked (h : ph.HasTried w (.asleep t) cargo) : ph.blocked = some (w, t) := by
  rw [Phase.blocked, h.tried]

theorem HasTried.not_blocked (h : ph.HasTried w v cargo) (hv : ∀ t, v ≠ .asleep t) :
    ph.blocked = none := by
  rw [Phase.blocked, h.tried]
  cases v with
  | asleep t => exact (hv t rfl).elim
  | _ => rfl

theorem HasTried.no_ticket (h : ph.HasTried w v cargo)
    (hv : v = .claimed → call.source = none) : ph.ticket call = none := by
  rw [Phase.ticket, h.tried]
  cases v with
  | claimed => exact hv rfl
  | _ => rfl

theorem HasTried.ticket (h : ph.HasTried w .claimed cargo) : ph.ticket call = call.source := by
  rw [Phase.ticket, h.tried]

/-- A try that is over leaves nothing to do, unless a message can now be taken. -/
theorem HasTried.rests (h : ph.HasTried w v cargo) (hv : ∀ t, v ≠ .asleep t)
    (hs : v = .claimed → call.source = none) : ph.Rests call cargo :=
  ⟨h.not_blocked hv, h.no_ticket hs, h.alive, h.cargo⟩

end Phase

/-- Sections that any call may come to while it rests. -/
def Action.isPlain {β : Type} : Action β → Bool
  | schedule | tick | startWith _ | wake _ | setLocalWord .. | resetTimes | addTask ..
  | addSemaphore .. | addMutex .. | post _ | unlock _ | setRoutines .. => true
  | _ => false

theorem Action.tried_of_resumes {β : Type} {a : Action β} {w : Waitable} {t : TaskId}
    (h : a.resumes = some (w, t)) (verdict : β = Verdict) (b : β) :
    a.tried b = some (w, cast verdict b) := by
  cases a <;> simp_all [Action.resumes, Action.tried]

theorem Action.cargo_of_resumes {β : Type} {a : Action β} {w : Waitable} {t : TaskId} {ph : Phase}
    (h : a.resumes = some (w, t)) (b : β) : (ph.after ⟨a, b⟩).cargo = ph.cargo := by
  cases a <;> simp_all [Action.resumes, Phase.after, Outcome.put, Action.puts, Outcome.made,
    Outcome.taken]

namespace Permits

variable {who : Caller} {α β : Type} {call : KernelCall α} {k : Kernel} {ph : Phase}
  {a : Action β} {cargo : List Message}

theorem plain (h : ph.Rests call cargo) (ha : a.isPlain) : Permits who call k ph a where
  resumes := by rw [h.blocked]; cases a <;> simp_all [Action.isPlain, Action.resumes]
  redeems := by rw [h.ticket]; cases a <;> simp_all [Action.isPlain, Action.redeems]
  polls q hq := by cases a <;> simp_all [Action.isPlain, Action.polls]
  alive := h.alive
  awaits w hw := by cases a <;> simp_all [Action.isPlain, Action.tries]
  own hs := by cases a <;> simp_all [Action.isPlain, Action.suspends]
  holds q m hp := by cases a <;> simp_all [Action.isPlain, Action.puts]
  hands q m hp := by cases a <;> simp_all [Action.isPlain, Action.puts]
  whole _ q m hp := by cases a <;> simp_all [Action.isPlain, Action.puts]
  sizes _ hs := by cases a <;> simp_all [Action.isPlain, Action.shape]
  fresh d hd := by cases a <;> simp_all [Action.isPlain, Action.adds]
  reads f hf := by cases a <;> simp_all [Action.isPlain, Action.views]

theorem looks {f : Kernel → Except Fault β} (h : ph.Rests call cargo) (hf : ∀ k, Blameless (f k)) :
    Permits who call k ph (.read f) where
  resumes := h.blocked.symm
  redeems := h.ticket.symm
  polls _ hq := nomatch hq
  alive := h.alive
  awaits _ hw := nomatch hw
  own hs := hs.elim
  holds _ _ hp := nomatch hp
  hands _ _ hp := nomatch hp
  whole _ _ _ hp := nomatch hp
  sizes _ hs := nomatch hs
  fresh _ hd := nomatch hd
  reads := by
    rintro _ ⟨⟩
    exact hf

theorem suspends (h : ph.Rests call cargo) (resumes : a.resumes = none) (redeems : a.redeems = none)
    (polls : a.polls = none) (tries : a.tries = none) (puts : a.puts = none)
    (shape : a.shape = none) (adds : a.adds = none) (views : a.views = none)
    (own : a.suspends → who = .thread k.current) : Permits who call k ph a where
  resumes := resumes.trans h.blocked.symm
  redeems := redeems.trans h.ticket.symm
  polls _ hq := nomatch polls.symm.trans hq
  alive := h.alive
  awaits _ hw := nomatch tries.symm.trans hw
  own := own
  holds _ _ hp := nomatch puts.symm.trans hp
  hands _ _ hp := nomatch puts.symm.trans hp
  whole _ _ _ hp := nomatch puts.symm.trans hp
  sizes _ hs := nomatch shape.symm.trans hs
  fresh _ hd := nomatch adds.symm.trans hd
  reads _ hf := nomatch views.symm.trans hf

theorem adds {name : String} {d : Discipline} (h : ph.Rests call cargo) (hd : d.Fresh ph) :
    Permits who call k ph (.addQueue name d) where
  resumes := h.blocked.symm
  redeems := h.ticket.symm
  polls _ hq := nomatch hq
  alive := h.alive
  awaits _ hw := nomatch hw
  own hs := hs.elim
  holds _ _ hp := nomatch hp
  hands _ _ hp := nomatch hp
  whole _ _ _ hp := nomatch hp
  sizes _ hs := nomatch hs
  fresh := by
    rintro _ ⟨⟩
    exact hd
  reads _ hf := nomatch hf

theorem puts {q : QueueId} {m : Message} (h : ph.Rests call cargo) (hm : ph.Holds m)
    (hands : call.Hands q m) (whole : call.stamps = none → m ∈ ph.cargo) :
    Permits who call k ph (.enqueue q m) where
  resumes := h.blocked.symm
  redeems := h.ticket.symm
  polls _ hq := nomatch hq
  alive := h.alive
  awaits _ hw := nomatch hw
  own hs := hs.elim
  holds := by
    rintro _ _ ⟨⟩
    exact hm
  hands := by
    rintro _ _ ⟨⟩
    exact hands
  whole := by
    rintro none _ _ ⟨⟩
    exact whole none
  sizes _ hs := nomatch hs
  fresh _ hd := nomatch hd
  reads _ hf := nomatch hf

theorem begins (h : ph.Rests call cargo) (resumes : a.resumes = none) {w : Waitable}
    (tries : a.tries = some w) (aw : call.Awaits k w) (own : a.suspends → who = .thread k.current) :
    Permits who call k ph a where
  resumes := resumes.trans h.blocked.symm
  redeems := by rw [h.ticket]; cases a <;> simp_all [Action.tries, Action.redeems]
  polls q hq := by cases a <;> simp_all [Action.tries, Action.polls]
  alive := h.alive
  awaits w' hw := Option.some.inj (tries.symm.trans hw) ▸ aw
  own := own
  holds q m hp := by cases a <;> simp_all [Action.tries, Action.puts]
  hands q m hp := by cases a <;> simp_all [Action.tries, Action.puts]
  whole _ q m hp := by cases a <;> simp_all [Action.tries, Action.puts]
  sizes _ hs := by cases a <;> simp_all [Action.tries, Action.shape]
  fresh d hd := by cases a <;> simp_all [Action.tries, Action.adds]
  reads f hf := by cases a <;> simp_all [Action.tries, Action.views]

theorem asks {q : QueueId} (h : ph.Rests call cargo) (source : call.source = some q) :
    Permits who call k ph (.pollDriver q) where
  resumes := h.blocked.symm
  redeems := h.ticket.symm
  polls := by
    rintro _ ⟨⟩
    exact source
  alive := h.alive
  awaits _ hw := nomatch hw
  own hs := hs.elim
  holds _ _ hp := nomatch hp
  hands _ _ hp := nomatch hp
  whole _ _ _ hp := nomatch hp
  sizes _ hs := nomatch hs
  fresh _ hd := nomatch hd
  reads _ hf := nomatch hf

theorem pools {q : QueueId} {shape : PoolShape} (h : ph.Rests call cargo)
    (size : call.slotSize = some shape.size) : Permits who call k ph (.addPool q shape) where
  resumes := h.blocked.symm
  redeems := h.ticket.symm
  polls _ hq := nomatch hq
  alive := h.alive
  awaits _ hw := nomatch hw
  own hs := hs.elim
  holds _ _ hp := nomatch hp
  hands _ _ hp := nomatch hp
  whole _ _ _ hp := nomatch hp
  sizes := by
    rintro _ ⟨⟩
    exact size
  fresh _ hd := nomatch hd
  reads _ hf := nomatch hf

theorem takes {q : QueueId} {w : Waitable} (h : ph.HasTried w .claimed cargo)
    (source : call.source = some q) : Permits who call k ph (.dequeue q) where
  resumes := (h.not_blocked fun _ h => nomatch h).symm
  redeems := source.symm.trans h.ticket.symm
  polls _ hq := nomatch hq
  alive := h.alive
  awaits _ hw := nomatch hw
  own hs := hs.elim
  holds _ _ hp := nomatch hp
  hands _ _ hp := nomatch hp
  whole _ _ _ hp := nomatch hp
  sizes _ hs := nomatch hs
  fresh _ hd := nomatch hd
  reads _ hf := nomatch hf

theorem goesOn {w : Waitable} {t : TaskId} (h : ph.HasTried w (.asleep t) cargo)
    (resumes : a.resumes = some (w, t)) (aw : call.Awaits k w) (own : who = .thread k.current) :
    Permits who call k ph a where
  resumes := resumes.trans h.blocked.symm
  redeems := by
    rw [h.no_ticket fun h => nomatch h]
    cases a <;> simp_all [Action.resumes, Action.redeems]
  polls q hq := by cases a <;> simp_all [Action.resumes, Action.polls]
  alive := h.alive
  awaits w' hw := by cases a <;> simp_all [Action.resumes, Action.tries]
  own _ := own
  holds q m hp := by cases a <;> simp_all [Action.resumes, Action.puts]
  hands q m hp := by cases a <;> simp_all [Action.resumes, Action.puts]
  whole _ q m hp := by cases a <;> simp_all [Action.resumes, Action.puts]
  sizes _ hs := by cases a <;> simp_all [Action.resumes, Action.shape]
  fresh d hd := by cases a <;> simp_all [Action.resumes, Action.adds]
  reads f hf := by cases a <;> simp_all [Action.resumes, Action.views]

end Permits

/-- A call in which the current task may lose the processor is that task's own. -/
theorem Caller.Runs.own {α : Type} {who : Caller} {call : KernelCall α} {k : Kernel}
    (runs : who.Runs call k) (threads : call.isStart = false) (thread : who ≠ .handler) :
    who = .thread k.current := by
  cases who with
  | handler => exact (thread rfl).elim
  | thread t =>
    rcases runs with runs | runs
    · rw [runs]
    · exact Bool.noConfusion (threads.symm.trans runs)

theorem Tries.waits_of_first {r : Resource} {ticks : Int32} {k k' : Kernel} {t : TaskId}
    (h : Tries r ticks none k (.asleep t) k') : ticks ≠ 0 := by
  cases h with
  | sleepsOn _ back => exact nomatch back
  | asleep _ _ _ _ waits => exact waits

theorem Call.home_of_fresh {q : QueueId} {first : MessageId} {shape : PoolShape} {storage : Payload}
    {m : Message} (h : m ∈ freshMessages q first shape storage) : m.home = q := by
  obtain ⟨_, -, rfl⟩ := List.mem_map.1 h
  rfl

namespace Keeps

variable {who : Caller} {α β : Type} {call : KernelCall α} {k : Kernel} {ph : Phase}
  {cargo : List Message}

theorem critical {a : Action β} {Q : β → Kernel → Phase → Prop}
    (h : ∀ c : Core, k.Precedes c.kernel → who.Runs call c.kernel →
      Permits who call c.kernel ph a ∧
        ∀ b c', a.toSection c = .ok b c' → Q b c'.kernel (ph.after ⟨a, b⟩)) :
    Keeps who call (Program.critical a) Q k ph :=
  fun _ c hc hr => ⟨(h c hc hr).1, fun b c' hb _ _ => (h c hc hr).2 b c' hb⟩

theorem plain {a : Action β} {Q : β → Kernel → Phase → Prop} (h : ph.Rests call cargo)
    (ha : a.isPlain) (hQ : ∀ b k', Q b k' (ph.after ⟨a, b⟩)) :
    Keeps who call (Program.critical a) Q k ph :=
  critical fun _ _ _ => ⟨.plain h ha, fun b c' _ => hQ b c'.kernel⟩

theorem reading {f : Kernel → Except Fault β} {Q : β → Kernel → Phase → Prop}
    (h : ph.Rests call cargo) (hf : ∀ k, Blameless (f k))
    (hQ : ∀ k' b ph', k.Precedes k' → f k' = .ok b → ph'.Rests call cargo → Q b k' ph') :
    Keeps who call (Program.reading f) Q k ph := by
  refine critical fun c hc _ => ⟨.looks h hf, fun b c' hb => ?_⟩
  obtain ⟨seen, rfl⟩ := Section.reading_eq_ok.1 hb
  exact hQ _ b _ hc seen (Phase.rests_after rfl rfl h.cargo)

/-- What holds of most programs: they end with nothing left to do. -/
def Rested (call : KernelCall α) (cargo : List Message) (_ : β) (_ : Kernel) (ph : Phase) : Prop :=
  ph.Rests call cargo

theorem frame {entry : Entry} {arg : UInt64} {bytes : Nat} {Q : StackPointer → Kernel → Phase → Prop}
    (h : ∀ sp, Q sp k ph) : Keeps who call (Program.request (.frame entry arg bytes)) Q k ph := h

theorem reserve {bytes : Nat} {Q : Bool → Kernel → Phase → Prop} (h : ∀ granted, Q granted k ph) :
    Keeps who call (Program.request (.reserve bytes)) Q k ph := h

theorem reserveStack {stack : Stack} {Q : Bool → Kernel → Phase → Prop}
    (h : ∀ granted, Q granted k ph) : Keeps who call (Call.reserveStack stack) Q k ph := by
  cases stack with
  | heap bytes => exact reserve h
  | fixed _ => exact h true

theorem createTask {entry : Entry} {arg : UInt64} {name : String} {priority : UInt8} {stack : Stack}
    (h : ph.Rests call cargo) :
    Keeps who call (Call.createTask entry arg name priority stack) (Rested call cargo) k ph := by
  refine .bind (reading h (fun _ => .ok _) fun k' full ph' _ _ h => ?_)
  split
  · intro _
    exact h
  refine .bind (reserveStack fun granted => ?_)
  split
  · refine .bind (frame fun sp => .bind (plain h rfl fun id k'' => ?_))
    have h : (ph'.after ⟨.addTask name priority sp stack.bytes, id⟩).Rests call cargo :=
      Phase.rests_after rfl rfl h.cargo
    cases id with
    | some id => exact fun _ => h
    | none => exact fun _ => h
  · intro _
    exact h

theorem start (h : ph.Rests call cargo) :
    Keeps who call Call.start (Rested call cargo) k ph := by
  refine .bind ((createTask h).imp fun r k' ph' _ h => ?_)
  cases r with
  | error e => exact h
  | ok idle =>
    refine .bind (plain h rfl fun sp k'' => ?_)
    intro _ _ _
    exact Phase.rests_after rfl rfl h.cargo

theorem createSemaphore {name : String} {n : UInt32} (h : ph.Rests call cargo) :
    Keeps who call (Call.createSemaphore name n) (fun r _ ph' => ph'.Rests call cargo ∧
      ∀ s, r = .ok s → n = 0 → ph'.last.bind Outcome.newSemaphore = some s) k ph := by
  refine .bind (plain h rfl fun s k' => ?_)
  have h : (ph.after ⟨.addSemaphore name n, s⟩).Rests call cargo :=
    Phase.rests_after rfl rfl h.cargo
  cases s with
  | none => exact fun _ => ⟨h, fun _ h => nomatch h⟩
  | some s =>
    intro _
    refine ⟨h, ?_⟩
    rintro _ ⟨⟩ rfl
    rfl

theorem createMutex {name : String} (h : ph.Rests call cargo) :
    Keeps who call (Call.createMutex name) (Rested call cargo) k ph := by
  refine .bind (plain h rfl fun m k' => ?_)
  have h : (ph.after ⟨.addMutex name, m⟩).Rests call cargo := Phase.rests_after rfl rfl h.cargo
  cases m with
  | none => exact fun _ => h
  | some m => exact fun _ => h

theorem createDiscipline {name : String} {kind : QueueKind} (h : ph.Rests call cargo) :
    Keeps who call (Call.createDiscipline name kind) (fun r _ ph' => ph'.Rests call cargo ∧
      ∀ d, r = .ok d → d.Fresh ph') k ph := by
  cases kind with
  | task =>
    refine .bind ((createSemaphore h).imp fun r k' ph' _ h => ?_)
    cases r with
    | error e => exact ⟨h.1, fun _ h => nomatch h⟩
    | ok s =>
      refine ⟨h.1, ?_⟩
      rintro _ ⟨⟩
      exact h.2 s rfl rfl
  | driver =>
    refine ⟨h, ?_⟩
    rintro _ ⟨⟩
    rfl

theorem createQueue {name : String} {kind : QueueKind} (h : ph.Rests call cargo) :
    Keeps who call (Call.createQueue name kind) (Rested call cargo) k ph := by
  refine .bind (reading h (fun _ => .ok _) fun k' full ph' _ _ h => ?_)
  split
  · intro _
    exact h
  refine .bind ((createDiscipline h).imp fun r k' ph' _ h => ?_)
  obtain ⟨h, hd⟩ := h
  cases r with
  | error e => exact h
  | ok d =>
    refine .bind (critical fun c _ _ => ⟨.adds h (hd d rfl), fun q c' _ => ?_⟩)
    have h : (ph'.after ⟨.addQueue name d, q⟩).Rests call cargo :=
      Phase.rests_after rfl rfl h.cargo
    cases q with
    | none => exact fun _ => h
    | some q => exact fun _ => h

theorem put {q : QueueId} {m held : Message} (h : ph.Rests call (held :: cargo))
    (id : held.id = m.id) (home : held.home = m.home) (hands : call.Hands q m)
    (whole : call.stamps = none → held = m) :
    Keeps who call (Call.put q m) (Rested call cargo) k ph := by
  have mem : held ∈ ph.cargo := h.cargo ▸ List.mem_cons_self
  refine .bind (critical fun c _ _ =>
    ⟨.puts h ⟨held, mem, id, home⟩ hands fun none => whole none ▸ mem, fun b c' _ => ?_⟩)
  have rests : (ph.after ⟨.enqueue q m, b⟩).Rests call cargo := by
    apply Phase.rests_after rfl rfl
    simp only [Phase.after, Outcome.put, h.cargo]
    exact List.eraseP_cons_of_pos (by simpa using id)
  cases b with
  | none => exact rests
  | some r => exact ⟨⟨rests.blocked, rests.alive⟩, fun _ => rests⟩

theorem putTagged {q : QueueId} {m : TaggedMessage} {code length : UInt16}
    (h : ph.Rests call (m.message :: cargo))
    (hands : call.Hands q (m.withHeader code length).message)
    (stamps : call.stamps = some (m, length)) :
    Keeps who call (Call.putTagged q m code length) (Rested call cargo) k ph := by
  unfold Call.putTagged
  split
  · exact put h rfl rfl hands fun none => nomatch none.symm.trans stamps
  · intro h
    exact h.elim

theorem putAll {q : QueueId} (l : List Message) (h : ph.Rests call (l ++ cargo))
    (hands : ∀ m ∈ l, call.Hands q m) :
    Keeps who call (l.forM (Call.put q)) (Rested call cargo) k ph := by
  induction l generalizing k ph with
  | nil => exact h
  | cons m l ih =>
    obtain ⟨first, others⟩ := List.forall_mem_cons.1 hands
    exact .bind ((put h rfl rfl first fun _ => rfl).imp fun _ _ _ _ h => ih h others)

theorem fillPool {name : String} {q : QueueId} {shape : PoolShape} (h : ph.Rests call cargo)
    (size : call.slotSize = some shape.size) (hands : ∀ q m, m.home = q → call.Hands q m) :
    Keeps who call (Call.fillPool name q shape (Call.blankStorage shape)) (Rested call cargo) k ph := by
  refine .bind (critical fun c _ _ => ⟨.pools h size, fun first c' _ => ?_⟩)
  cases first with
  | none => exact fun _ => Phase.rests_after rfl rfl h.cargo
  | some first =>
    have h : (ph.after ⟨.addPool q shape, some first⟩).Rests call
        (Call.freshMessages q first shape (Call.blankStorage shape) ++ cargo) := by
      apply Phase.rests_after rfl rfl
      simp only [Phase.after, Outcome.put, Action.puts, Outcome.made, Outcome.taken, h.cargo,
        Option.map_none, Option.toList_none, List.append_nil]
    exact .bind ((putAll _ h fun m hm => hands q m (Call.home_of_fresh hm)).imp fun _ _ _ _ h _ => h)

theorem reserveStorage {name : String} {shape : PoolShape} {Q : Bool → Kernel → Phase → Prop}
    (hQ : ∀ granted, Q granted k ph) : Keeps who call (Call.reserveStorage name shape) Q k ph := by
  simp only [Call.reserveStorage]
  split
  · exact hQ false
  refine .bind (reserve fun granted => ?_)
  split
  · exact hQ true
  · intro _
    exact hQ false

theorem createPool {name : String} {kind : QueueKind} {count size : Nat}
    (h : ph.Rests call cargo) (slots : call.slotSize = some (Call.roundUp size))
    (hands : ∀ q m, m.home = q → call.Hands q m) :
    Keeps who call (Call.createPool name kind count size) (Rested call cargo) k ph := by
  simp only [Call.createPool, Call.createPoolWith]
  split
  · intro h
    exact h.elim
  refine .bind (reading h (fun _ => .ok _) fun k' fits ph' _ _ h => ?_)
  split
  · refine .bind (reserveStorage fun granted => ?_)
    split
    · refine .bind ((createQueue h).imp fun r k'' ph'' _ h => ?_)
      cases r with
      | error e => exact h
      | ok q => exact fillPool h slots hands
    · exact h
  · intro _
    exact h

theorem createTaggedPool {name : String} {kind : QueueKind} {count size : Nat}
    (h : ph.Rests call cargo) (slots : call.slotSize = some (Call.roundUp (size + tagBytes)))
    (hands : ∀ q m, m.home = q → call.Hands q m) :
    Keeps who call (Call.createTaggedPool name kind count size) (Rested call cargo) k ph := by
  unfold Call.createTaggedPool
  split
  · intro h
    exact h.elim
  · exact createPool h slots hands

/-- A blocking call goes through windows until its verdict is final. -/
theorem settle {saved : Bool} {v : Verdict} {resume : TaskId → Action Verdict} {w : Waitable}
    {Q : Status → Kernel → Phase → Prop} (h : ph.HasTried w v cargo)
    (blocks : ∀ t, v = .asleep t → who ≠ .handler) (aw : call.Awaits k w)
    (resumes : ∀ t, (resume t).resumes = some (w, t)) (threads : call.isStart = false)
    (hok : ∀ k' ph', k.Precedes k' → ph'.HasTried w .claimed cargo → Q .ok k' ph')
    (hto : ∀ k' ph', k.Precedes k' → ph'.HasTried w .timedOut cargo → Q .timeout k' ph') :
    Keeps who call (Call.settle saved (.ok v) resume) Q k ph := by
  refine ⟨fun x ph => ∃ v₀, x.2 = .ok v₀ ∧ ph.HasTried w v₀ cargo ∧
    ∀ t, v₀ = .asleep t → who ≠ .handler, ⟨v, rfl, h, blocks⟩, ?_⟩
  rintro k' hk ⟨saved, _⟩ ph ⟨v, rfl, h, blocks⟩
  cases v with
  | claimed => exact fun _ => hok k' ph hk h
  | timedOut => exact fun _ => hto k' ph hk h
  | asleep t =>
    intro _ _ _ c hc runs
    refine ⟨?_, fun v c' _ _ => ⟨v, rfl, ⟨?_, ?_⟩, fun _ _ => blocks t rfl⟩⟩
    · exact .goesOn h (resumes t) (aw.later (hk.trans hc)) (runs.own threads (blocks t rfl))
    · exact Action.tried_of_resumes (resumes t) rfl v
    · exact (Action.cargo_of_resumes (resumes t) v).trans h.cargo

theorem wait {s : SemId} {ticks : Int32} {Q : Status → Kernel → Phase → Prop}
    (h : ph.Rests call cargo) (may : who = .handler → ticks = 0) (aw : call.Awaits k (.semaphore s))
    (threads : call.isStart = false)
    (hok : ∀ k' ph', k.Precedes k' → ph'.HasTried (.semaphore s) .claimed cargo → Q .ok k' ph')
    (hto : ∀ k' ph', k.Precedes k' → ph'.HasTried (.semaphore s) .timedOut cargo →
      Q .timeout k' ph') :
    Keeps who call (Call.wait s ticks) Q k ph := by
  refine fun saved c hc runs => ⟨.begins h rfl rfl (aw.later hc) fun waits => ?_,
    fun v c' hv hk => ?_⟩
  · exact runs.own threads fun hh => waits (may hh)
  · refine settle ⟨rfl, h.cargo⟩ (fun t hvt hh => ?_) (aw.later (hc.trans hk)) (fun _ => rfl)
      threads (fun k' ph' hk' => hok k' ph' (hc.trans (hk.trans hk')))
      fun k' ph' hk' => hto k' ph' (hc.trans (hk.trans hk'))
    subst hvt
    exact (Section.beginWait_ok hv).waits_of_first (may hh)

theorem lock {m : MutexId} {ticks : Int32} {Q : Status → Kernel → Phase → Prop}
    (h : ph.Rests call cargo) (may : who = .handler → ticks = 0) (aw : call.Awaits k (.mutex m))
    (threads : call.isStart = false)
    (hok : ∀ k' ph', k.Precedes k' → ph'.HasTried (.mutex m) .claimed cargo → Q .ok k' ph')
    (hto : ∀ k' ph', k.Precedes k' → ph'.HasTried (.mutex m) .timedOut cargo → Q .timeout k' ph') :
    Keeps who call (Call.lock m ticks) Q k ph := by
  refine fun saved c hc runs => ⟨.begins h rfl rfl (aw.later hc) fun waits => ?_,
    fun (me, v) c' hv hk => ?_⟩
  · exact runs.own threads fun hh => waits (may hh)
  · refine settle ⟨rfl, h.cargo⟩ (fun t hvt hh => ?_) (aw.later (hc.trans hk)) (fun _ => rfl)
      threads (fun k' ph' hk' => hok k' ph' (hc.trans (hk.trans hk')))
      fun k' ph' hk' => hto k' ph' (hc.trans (hk.trans hk'))
    subst hvt
    exact (Section.beginLock_ok hv).2.waits_of_first (may hh)

theorem receive {q : QueueId} {ticks : Int32} (h : ph.Rests call []) (source : call.source = some q)
    (may : who = .handler → ticks = 0 ∨ k.queueSemaphore q = .ok none)
    (aw : ∀ k s, k.queueSemaphore q = .ok (some s) → call.Awaits k (.semaphore s))
    (threads : call.isStart = false) :
    Keeps who call (Call.receive q ticks)
      (fun m _ ph' => ph'.Rests call m.toList) k ph := by
  refine .bind (reading h (fun _ => Blameless.queueSemaphore _ _) fun k' s ph' hk hs h => ?_)
  cases s with
  | none =>
    refine critical fun c _ _ => ⟨.asks h source, fun m c' _ => Phase.rests_after rfl rfl ?_⟩
    simp only [Phase.after, Outcome.put, Action.puts, Outcome.made, h.cargo]
    cases m <;> rfl
  | some s =>
    have poll : who = .handler → ticks = 0 := fun hh => (may hh).resolve_right fun hn =>
      nomatch (hk q none hn).symm.trans hs
    refine .bind (wait h poll (aw k' s hs) threads (fun k'' ph'' _ h => ?_) fun k'' ph'' _ h => ?_)
    · refine .bind (critical fun c _ _ => ⟨.takes h source, fun m c' _ => ?_⟩)
      cases m with
      | none => exact fun _ => ⟨rfl, _, rfl, rfl⟩
      | some m =>
        apply Phase.rests_after rfl rfl
        simp only [Phase.after, Outcome.put, Action.puts, Outcome.made, h.cargo]
        rfl
    · exact h.rests (fun _ h => nomatch h) fun h => nomatch h

end Keeps

/-- What a call leaves behind: its caller has just the messages that it got. -/
def KernelCall.Leaves {α : Type} (call : KernelCall α) (a : α) (_ : Kernel) (ph : Phase) : Prop :=
  ph.Rests call (call.gives a)

/-- Every call keeps its contract from the moment it is made. -/
theorem KernelCall.keeps {α : Type} (call : KernelCall α) (who : Caller) (k : Kernel)
    (may : who = .handler → ¬ call.maySuspend k) :
    Keeps who call call.program call.Leaves k { cargo := call.takes } := by
  have h : ({ cargo := call.takes } : Phase).Rests call call.takes := Phase.rests_initial
  -- Most calls are a single section, which is permitted to any call at rest.
  cases call with
  | createTask entry arg name priority stack => exact .createTask h
  | start => exact .start h
  | delay ticks =>
    refine .critical fun c _ runs => ⟨.suspends h rfl rfl rfl rfl rfl rfl rfl rfl fun waits => ?_,
      fun _ _ _ => Phase.rests_after rfl rfl rfl⟩
    exact runs.own rfl fun hh => may hh waits
  | wake t => exact .plain h rfl fun _ _ => Phase.rests_after rfl rfl rfl
  | exit =>
    refine .bind (.critical fun c _ runs =>
      ⟨.suspends h rfl rfl rfl rfl rfl rfl rfl rfl fun waits => ?_, fun _ _ _ => ?_⟩)
    · exact runs.own rfl fun hh => may hh trivial
    · exact ⟨fun _ _ => True, trivial, fun _ _ _ _ _ _ => trivial⟩
  | tick => exact .plain h rfl fun _ _ => Phase.rests_after rfl rfl rfl
  | schedule => exact .plain h rfl fun _ _ => Phase.rests_after rfl rfl rfl
  | setLocalWord n value => exact .plain h rfl fun _ _ => Phase.rests_after rfl rfl rfl
  | resetTimes => exact .plain h rfl fun _ _ => Phase.rests_after rfl rfl rfl
  | kernel => exact .reading h (fun _ => .ok _) fun _ _ _ _ _ h => h
  | task t => exact .reading h (fun _ => .entry _ _) fun _ _ _ _ _ h => h
  | localWord n => exact .reading h (fun _ => .localWord _ _) fun _ _ _ _ _ h => h
  | semaphore s => exact .reading h (fun _ => .entry _ _) fun _ _ _ _ _ h => h
  | mutex m => exact .reading h (fun _ => .entry _ _) fun _ _ _ _ _ h => h
  | lookUp name => exact .reading h (fun _ => .ok _) fun _ _ _ _ _ h => h
  | queue q => exact .reading h (fun _ => .entry _ _) fun _ _ _ _ _ h => h
  | queueMessages q => exact .reading h (fun _ => .queueMessages _ _) fun _ _ _ _ _ h => h
  | poolMessages q => exact .reading h (fun _ => .poolMessages _ _) fun _ _ _ _ _ h => h
  | count q =>
    exact .reading h (fun _ => .bind (.entry _ _) fun _ => .ok _) fun _ _ _ _ _ h => h
  | createSemaphore name n => exact (Keeps.createSemaphore h).imp fun _ _ _ _ h => h.1
  | post s => exact .plain h rfl fun _ _ => Phase.rests_after rfl rfl rfl
  | wait s ticks =>
    exact .wait h (fun hh => Decidable.not_not.1 (may hh)) rfl rfl
      (fun _ _ _ h => h.rests (fun _ h => nomatch h) fun _ => rfl)
      fun _ _ _ h => h.rests (fun _ h => nomatch h) fun _ => rfl
  | waitUntilClaimed s =>
    exact .bind (.wait h (fun hh => (may hh trivial).elim) rfl rfl
      (fun _ _ _ h => h.rests (fun _ h => nomatch h) fun _ => rfl) fun _ _ _ _ h => h.elim)
  | createMutex name => exact .createMutex h
  | lock m ticks =>
    exact .lock h (fun hh => Decidable.not_not.1 (may hh)) rfl rfl
      (fun _ _ _ h => h.rests (fun _ h => nomatch h) fun _ => rfl)
      fun _ _ _ h => h.rests (fun _ h => nomatch h) fun _ => rfl
  | lockUntilClaimed m =>
    exact .bind (.lock h (fun hh => (may hh trivial).elim) rfl rfl
      (fun _ _ _ h => h.rests (fun _ h => nomatch h) fun _ => rfl) fun _ _ _ _ h => h.elim)
  | unlock m => exact .plain h rfl fun _ _ => Phase.rests_after rfl rfl rfl
  | createQueue name kind => exact .createQueue h
  | createPool name kind n size => exact .createPool h rfl fun _ _ home => home
  | createTaggedPool name kind n size => exact .createTaggedPool h rfl fun _ _ home => home
  | put q m => exact .put h rfl rfl ⟨rfl, rfl⟩ fun _ => rfl
  | giveBack m => exact .put h rfl rfl ⟨rfl, rfl⟩ fun _ => rfl
  | receive q ticks =>
    exact .receive h rfl (fun hh => Decidable.or_iff_not_imp_left.2 fun ht =>
      Classical.not_not.1 fun hn => may hh ⟨ht, hn⟩) (fun _ s hs => ⟨s, hs, rfl⟩) rfl
  | putTagged q m code length => exact .putTagged h ⟨rfl, rfl⟩ rfl
  | giveBackTagged m => exact .put h rfl rfl ⟨rfl, rfl⟩ fun _ => rfl
  | receiveTagged q ticks =>
    refine .bind ((Keeps.receive h rfl (fun hh => Decidable.or_iff_not_imp_left.2 fun ht =>
      Classical.not_not.1 fun hn => may hh ⟨ht, hn⟩) (fun _ s hs => ⟨s, hs, rfl⟩) rfl).imp
      fun m k' ph' _ h => ?_)
    cases m with
    | none => exact h
    | some m =>
      refine .bind (p := Program.ofExcept _) ?_
      unfold TaggedMessage.ofMessage
      split
      · intro h
        exact h.elim
      · exact h
  | setRoutines q p c data => exact .plain h rfl fun _ _ => Phase.rests_after rfl rfl rfl
  | control q c arg =>
    refine .bind (.reading h (fun _ => .controlRoutine _ _) fun k' r ph' _ _ h => ?_)
    cases r with
    | error e => exact h
    | ok r => exact ⟨⟨h.blocked, h.alive⟩, fun _ => h⟩

end Rtos
