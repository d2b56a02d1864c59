import Rtos.Proofs.Coherence
import Rtos.Proofs.Holding

/-!
# The sections of one call

`Performs` says which sections a call has carried out so far, whatever the port answered and
whatever others did to the kernel in between. `Follows` is what a program makes of it, for all those
answers: each section that comes next satisfies `P`, and the result `Q`, given the sections before.

A call that waits tries for its object until the try is no longer in vain. So it claims at most
once, in its last try, and it does so exactly if it returns that it has.
-/

namespace Rtos

/-- A section that a call carried out, with the kernel before it and after it. -/
structure Passage where
  before : Kernel
  outcome : Outcome
  after : Kernel

namespace Passage

def record {γ : Type} (who : Caller) (call : KernelCall γ) (p : Passage) : Record :=
  ⟨p.before, who, some ⟨γ, call⟩, p.outcome⟩

def tried (p : Passage) : Option (Waitable × Verdict) := p.outcome.tried

def taken (p : Passage) : Option (QueueId × Message) := p.outcome.taken

theorem taken_of_tried {p : Passage} {x : Waitable × Verdict} (h : p.tried = some x) :
    p.taken = none := by
  obtain ⟨_, ⟨a, b⟩, _⟩ := p
  cases a <;> first | rfl | cases h

end Passage

section

variable (who : Caller) {γ : Type} (call : KernelCall γ)

/-- The call has carried out the sections of the trail, latest first, and the program is left. -/
inductive Performs : List Passage → Program Unit γ → Prop
  | begins : Performs [] call.program
  | acts {β : Type} {trail : List Passage} {a : Action β} {next : Except Fault β → Program Unit γ}
      {b : β} {c c' : Core} (before : Performs trail (.ask (.act a) next))
      (runs : who.Runs call c.kernel) (result : a.toSection c = .ok b c') :
      Performs (⟨c.kernel, ⟨a, b⟩, c'.kernel⟩ :: trail) (next (.ok b))
  | goesOn {β : Type} {trail : List Passage} {r : Request Unit β} {next : β → Program Unit γ}
      {b : β} {c c' : Core} (before : Performs trail (.ask r next)) (answer : Reply r c b c') :
      Performs trail (next b)
  | unrolls {β τ : Type} {trail : List Passage} {body : τ → Program Unit (τ ⊕ β)} {t : τ}
      {next : β → Program Unit γ} (before : Performs trail (.loop body t next)) :
      Performs trail (Program.unroll body t next)

variable (P : List Passage → {β : Type} → Action β → Prop) (F : List Passage → Fault → Prop)

/-- From the trail on, every section that the program comes to satisfies `P`, and the end `Q`. If it
meets a fault between two sections, that satisfies `F`. -/
def Follows : {α : Type} → Program Unit α → (α → List Passage → Prop) → List Passage → Prop
  | _, .done a, Q, trail => Q a trail
  | _, .ask r next, Q, trail =>
    match r, next with
    | .act a, next => P trail a ∧ ∀ (c : Core) b c', who.Runs call c.kernel →
        a.toSection c = .ok b c' → Follows (next (.ok b)) Q (⟨c.kernel, ⟨a, b⟩, c'.kernel⟩ :: trail)
    | .fault f, _ => F trail f
    | _, next => ∀ b, Follows (next b) Q trail
  | _, .loop (τ := τ) body t next, Q, trail => ∃ I : τ → List Passage → Prop, I t trail ∧
      ∀ t trail, I t trail → Follows (body t)
        (fun r trail => match r with
          | .inl t => I t trail
          | .inr b => Follows (next b) Q trail) trail

end

namespace Follows

variable {who : Caller} {γ : Type} {call : KernelCall γ}
  {P : List Passage → {β : Type} → Action β → Prop} {F : List Passage → Fault → Prop} {α β : Type}
  {trail : List Passage}

theorem imp {p : Program Unit α} {Q Q' : α → List Passage → Prop} (h : Follows who call P F p Q trail)
    (hQ : ∀ a trail, Q a trail → Q' a trail) : Follows who call P F p Q' trail := by
  induction p generalizing trail with
  | done a => exact hQ a trail h
  | ask r next ih =>
    cases r
    case act a => exact ⟨h.1, fun c b c' runs hb => ih _ (h.2 c b c' runs hb) hQ⟩
    case fault f => exact h
    all_goals exact fun b => ih b (h b) hQ
  | loop body t next ihb ihn =>
    obtain ⟨I, hI, hbody⟩ := h
    refine ⟨I, hI, fun t trail ht => ihb t (hbody t trail ht) fun r trail hr => ?_⟩
    cases r with
    | inl t => exact hr
    | inr b => exact ihn b hr hQ

theorem bind {p : Program Unit α} {f : α → Program Unit β} {Q : β → List Passage → Prop}
    (h : Follows who call P F p (fun a trail => Follows who call P F (f a) Q trail) trail) :
    Follows who call P F (p.bind f) Q trail := by
  induction p generalizing trail with
  | done a => exact h
  | ask r next ih =>
    cases r
    case act a => exact ⟨h.1, fun c b c' runs hb => ih _ (h.2 c b c' runs hb)⟩
    case fault f => exact h
    all_goals exact fun b => ih b (h b)
  | loop body t next ihb ihn =>
    obtain ⟨I, hI, hbody⟩ := h
    refine ⟨I, hI, fun t trail ht => (hbody t trail ht).imp fun r trail hr => ?_⟩
    cases r with
    | inl t => exact hr
    | inr b => exact ihn b hr

theorem unroll {τ : Type} {body : τ → Program Unit (τ ⊕ β)} {t : τ} {next : β → Program Unit α}
    {Q : α → List Passage → Prop} (h : Follows who call P F (.loop body t next) Q trail) :
    Follows who call P F (Program.unroll body t next) Q trail := by
  obtain ⟨I, hI, hbody⟩ := h
  refine bind ((hbody t trail hI).imp fun r trail hr => ?_)
  cases r with
  | inl t => exact ⟨I, hr, hbody⟩
  | inr b => exact hr

theorem reply {r : Request Unit β} {next : β → Program Unit α} {Q : α → List Passage → Prop}
    {c c' : Core} {b : β} (h : Follows who call P F (.ask r next) Q trail) (answer : Reply r c b c') :
    Follows who call P F (next b) Q trail := by
  cases answer <;> exact h _

theorem critical {a : Action β} {Q : β → List Passage → Prop} (hP : P trail a)
    (hQ : ∀ (c : Core) b c', a.toSection c = .ok b c' →
      Q b (⟨c.kernel, ⟨a, b⟩, c'.kernel⟩ :: trail)) :
    Follows who call P F (Program.critical a) Q trail :=
  fun _ => ⟨hP, fun c b c' _ hb _ => hQ c b c' hb⟩

end Follows

theorem Performs.follows {who : Caller} {γ : Type} {call : KernelCall γ}
    {P : List Passage → {β : Type} → Action β → Prop} {F : List Passage → Fault → Prop}
    {Q : γ → List Passage → Prop} {trail : List Passage} {p : Program Unit γ}
    (h : Performs who call trail p) (whole : Follows who call P F call.program Q []) :
    Follows who call P F p Q trail := by
  induction h with
  | begins => exact whole
  | acts _ runs result ih => exact ih.2 _ _ _ runs result
  | goesOn _ answer ih => exact ih.reply answer
  | unrolls _ ih => exact ih.unroll

/-- The tries of a wait for `w`, the latest first: the last one came to `v`, and after all others
the caller slept. -/
structure Waited (w : Waitable) (v : Verdict) (tries : List Passage) : Prop where
  split : ∃ last earlier, tries = last :: earlier ∧ last.tried = some (w, v) ∧
    ∀ p ∈ earlier, ∃ t, p.tried = some (w, .asleep t)

/-- The sections of a call that takes a message from queue `q`: a poll of a driver queue, or a wait
for the semaphore of the queue, after which the message is taken off if a unit was claimed. -/
inductive Received (q : QueueId) : (got : Bool) → List Passage → Prop
  | polled (got : Bool) (looked polled : Passage) (idle : looked.tried = none ∧ polled.tried = none)
      (queue : looked.before.queueSemaphore q = .ok none) : Received q got [polled, looked]
  | missed (looked : Passage) (s : SemId) (tries : List Passage) (idle : looked.tried = none)
      (queue : looked.before.queueSemaphore q = .ok (some s))
      (waited : Waited (.semaphore s) .timedOut tries) : Received q false (tries ++ [looked])
  | taken (looked took : Passage) (s : SemId) (tries : List Passage)
      (idle : looked.tried = none ∧ took.tried = none)
      (queue : looked.before.queueSemaphore q = .ok (some s))
      (waited : Waited (.semaphore s) .claimed tries) :
      Received q true (took :: (tries ++ [looked]))

def Fetched (m : Message) (trail : List Passage) : Prop :=
  ∃ p q, trail.head? = some p ∧ p.taken = some (q, m)

def Status.verdict : Status → Verdict
  | ok => .claimed
  | timeout => .timedOut

namespace KernelCall

variable {α : Type}

def limit : KernelCall α → Option Int32
  | wait _ n | lock _ n | receive _ n | receiveTagged _ n => some n
  | waitUntilClaimed _ | lockUntilClaimed _ => some waitForever
  | _ => none

def Returns : {α : Type} → KernelCall α → α → List Passage → Prop
  | _, wait s _, status, trail => Waited (.semaphore s) status.verdict trail
  | _, waitUntilClaimed s, _, trail => Waited (.semaphore s) .claimed trail
  | _, lock m _, status, trail => Waited (.mutex m) status.verdict trail
  | _, lockUntilClaimed m, _, trail => Waited (.mutex m) .claimed trail
  | _, receive q _, m, trail => Received q m.isSome trail
  | _, receiveTagged q _, m, trail => Received q m.isSome trail
  | _, _, _, _ => True

end KernelCall

def Action.fetches {β : Type} : Action β → Bool
  | .read _ | .dequeue _ | .pollDriver _ => true
  | _ => false

/-- Whether a call that waits may meet that fault between two sections: one without time limit gives
up, or a message is not as it has to be. -/
def KernelCall.Meets : {α : Type} → KernelCall α → List Passage → Fault → Prop
  | _, wait .., _, _ | _, lock .., _, _ => False
  | _, waitUntilClaimed s, trail, f =>
    f = .waitForeverTimedOut ∧ Waited (.semaphore s) .timedOut trail
  | _, lockUntilClaimed m, trail, f => f = .lockForeverTimedOut ∧ Waited (.mutex m) .timedOut trail
  | _, receive .., _, f => f = .taskQueueCount
  | _, receiveTagged .., trail, f => f = .taskQueueCount ∨
    f = .tooSmallForHeader ∧ ∃ m, Fetched m trail ∧ m.payload.length < tagBytes
  | _, _, _, _ => True

/-- What a call that waits does next, after the sections of the trail. -/
structure KernelCall.Heeds {γ : Type} (call : KernelCall γ) (trail : List Passage) {β : Type}
    (a : Action β) : Prop where
  /-- It tries again only if all its tries were in vain. -/
  again : ∀ w, a.tries = some w → ∀ p ∈ trail, ∀ w' v, p.tried = some (w', v) →
    ∃ t, v = .asleep t
  /-- It waits for as long as it was told to. -/
  limit : ∀ n, call.limit = some n → ∀ t n', a.Makes (.block t n') → n' = n
  /-- It locks for the task that was current at first. -/
  locker : ∀ l, a.locker = some l → ∃ p ∈ trail, p.before.current = some l
  /-- It tries for its object, or it looks for its queue and takes the message. -/
  fetches : a.tries = none → a.fetches ∧ call.source.isSome
  /-- It has no message yet. -/
  lacks : ∀ p ∈ trail, p.taken = none

namespace Waited

variable {w : Waitable} {v : Verdict} {tries : List Passage} {p : Passage} {t : TaskId}

theorem first (h : p.tried = some (w, v)) : Waited w v [p] := ⟨p, [], rfl, h, fun _ h => nomatch h⟩

theorem again (h : Waited w (.asleep t) tries) (hp : p.tried = some (w, v)) :
    Waited w v (p :: tries) := by
  obtain ⟨last, earlier, rfl, hl, he⟩ := h
  exact ⟨p, last :: earlier, rfl, hp, List.forall_mem_cons.2 ⟨⟨t, hl⟩, he⟩⟩

theorem asleep (h : Waited w (.asleep t) tries) :
    ∀ p ∈ tries, ∃ t, p.tried = some (w, .asleep t) := by
  obtain ⟨last, earlier, rfl, hl, he⟩ := h
  exact List.forall_mem_cons.2 ⟨⟨t, hl⟩, he⟩

theorem lacks (h : Waited w v tries) : ∀ p ∈ tries, p.taken = none := by
  obtain ⟨last, earlier, rfl, hl, he⟩ := h
  refine List.forall_mem_cons.2 ⟨Passage.taken_of_tried hl, fun p hp => ?_⟩
  obtain ⟨t, ht⟩ := he p hp
  exact Passage.taken_of_tried ht

end Waited

namespace KernelCall.Heeds

variable {γ β : Type} {call : KernelCall γ} {trail : List Passage} {a : Action β}

theorem idle (fetches : a.fetches) (source : call.source.isSome)
    (lacks : ∀ p ∈ trail, p.taken = none) : call.Heeds trail a := by
  have tries : a.tries = none := by cases a <;> first | rfl | cases fetches
  refine ⟨fun _ h => (nomatch tries.symm.trans h), fun _ _ t n h => ?_, fun l h => ?_,
    fun _ => ⟨fetches, source⟩, lacks⟩
  · cases a <;> first | exact h.elim | cases fetches
  · cases a <;> simp_all [Action.tries, Action.locker]

end KernelCall.Heeds

namespace Follows

variable {who : Caller} {γ : Type} {call : KernelCall γ} {F : List Passage → Fault → Prop}
  {before : List Passage}

/-- The loop of a wait: the invariant is that the caller has slept after all tries but the last. -/
theorem settle {saved : Bool} {v : Verdict} {resume : TaskId → Action Verdict} {w : Waitable}
    {tries : List Passage} {first : Passage} {Q : Status → List Passage → Prop}
    (waited : Waited w v tries) (hf : first ∈ tries)
    (idle : ∀ p ∈ before, p.tried = none ∧ p.taken = none)
    (resumes : ∀ t, (resume t).resumes = some (w, t))
    (limit : ∀ n, call.limit = some n → ∀ t t' n', (resume t).Makes (.block t' n') → n' = n)
    (locker : ∀ t l, (resume t).locker = some l → first.before.current = some l)
    (hQ : ∀ status tries, Waited w status.verdict tries → Q status (tries ++ before)) :
    Follows who call call.Heeds F (Call.settle saved (.ok v) resume) Q (tries ++ before) := by
  refine ⟨fun x trail => ∃ v tries, x.2 = .ok v ∧ trail = tries ++ before ∧ Waited w v tries ∧
    first ∈ tries, ⟨v, tries, rfl, rfl, waited, hf⟩, ?_⟩
  rintro ⟨saved, _⟩ _ ⟨v, tries, rfl, rfl, waited, hf⟩
  cases v with
  | claimed => exact fun _ => hQ .ok tries waited
  | timedOut => exact fun _ => hQ .timeout tries waited
  | asleep t =>
    intro _ _ _
    have again := Action.tried_of_resumes (resumes t) rfl (.asleep t)
    refine ⟨⟨fun _ _ p hp w' v' hv => ?_, fun n hn => limit n hn t, fun l hl => ?_,
        fun none => (nomatch (Action.tries_of_tried again).symm.trans none), ?_⟩,
      fun c v c' _ _ => ⟨v, _ :: tries, rfl, rfl, waited.again ?_, List.mem_cons_of_mem _ hf⟩⟩
    · rcases List.mem_append.1 hp with hp | hp
      · obtain ⟨t, ht⟩ := waited.asleep p hp
        exact ⟨t, (Prod.mk.inj (Option.some.inj (hv.symm.trans ht))).2⟩
      · exact nomatch (idle p hp).1.symm.trans hv
    · exact ⟨first, List.mem_append_left _ hf, locker t l hl⟩
    · exact List.forall_mem_append.2 ⟨waited.lacks, fun p hp => (idle p hp).2⟩
    · exact Action.tried_of_resumes (resumes t) rfl v

theorem wait {s : SemId} {n : Int32} {Q : Status → List Passage → Prop}
    (limit : call.limit = some n) (idle : ∀ p ∈ before, p.tried = none ∧ p.taken = none)
    (hQ : ∀ status tries, Waited (.semaphore s) status.verdict tries → Q status (tries ++ before)) :
    Follows who call call.Heeds F (Call.wait s n) Q before := by
  have same {n' : Int32} (h : call.limit = some n') : n = n' := Option.some.inj (limit.symm.trans h)
  refine fun saved => ⟨⟨fun _ _ p hp w v hv => (nomatch (idle p hp).1.symm.trans hv),
    fun n' hn' _ _ hb => hb.trans (same hn'), fun _ h => (nomatch h), fun h => (nomatch h),
    fun p hp => (idle p hp).2⟩,
    fun c v c' _ _ => ?_⟩
  have first : Waited (.semaphore s) v [⟨c.kernel, ⟨.beginWait s n, v⟩, c'.kernel⟩] := .first rfl
  exact settle first List.mem_cons_self idle (fun _ => rfl)
    (fun n' hn' _ _ _ hb => hb.trans (same hn')) (fun _ _ h => nomatch h) hQ

theorem lock {m : MutexId} {n : Int32} {Q : Status → List Passage → Prop}
    (limit : call.limit = some n)
    (hQ : ∀ status tries, Waited (.mutex m) status.verdict tries → Q status tries) :
    Follows who call call.Heeds F (Call.lock m n) Q [] := by
  have same {n' : Int32} (h : call.limit = some n') : n = n' := Option.some.inj (limit.symm.trans h)
  refine fun saved => ⟨⟨fun _ _ _ h => (nomatch h), fun n' hn' _ _ hb => hb.trans (same hn'),
    fun _ h => (nomatch h), fun h => (nomatch h), fun _ h => nomatch h⟩,
    fun c (me, v) c' _ result => ?_⟩
  have current := (Section.beginLock_ok result).1
  have first : Waited (.mutex m) v [⟨c.kernel, ⟨.beginLock m n, (me, v)⟩, c'.kernel⟩] := .first rfl
  have idle : ∀ p ∈ ([] : List Passage), p.tried = none ∧ p.taken = none := fun _ h => nomatch h
  refine settle first List.mem_cons_self idle (fun _ => rfl)
    (fun n' hn' _ _ _ hb => hb.trans (same hn')) (fun _ l h => ?_)
    fun status tries h => by rw [List.append_nil]; exact hQ status tries h
  exact Option.some.inj h ▸ current

theorem receive {q : QueueId} {n : Int32} (limit : call.limit = some n)
    (source : call.source.isSome) (faults : ∀ trail, F trail .taskQueueCount) :
    Follows who call call.Heeds F (Call.receive q n)
      (fun m trail => Received q m.isSome trail ∧ ∀ x, m = some x → Fetched x trail) [] := by
  refine .bind (critical (.idle rfl source fun _ h => nomatch h) fun c s c' looks => ?_)
  obtain ⟨queue, -⟩ := Section.reading_eq_ok.1 looks
  have lacks : ∀ p ∈ [(⟨c.kernel, ⟨.read (·.queueSemaphore q), s⟩, c'.kernel⟩ : Passage)],
      p.tried = none ∧ p.taken = none := List.forall_mem_singleton.2 ⟨rfl, rfl⟩
  cases s with
  | none =>
    refine critical (.idle rfl source fun p hp => (lacks p hp).2) fun c m c' _ => ?_
    refine ⟨.polled _ _ _ ⟨rfl, rfl⟩ queue, ?_⟩
    rintro x rfl
    exact ⟨_, q, rfl, rfl⟩
  | some s =>
    refine .bind (wait limit lacks fun status tries waited => ?_)
    cases status with
    | timeout => exact ⟨.missed _ s tries rfl queue waited, fun _ h => nomatch h⟩
    | ok =>
      have before := List.forall_mem_append.2 ⟨waited.lacks, fun p hp => (lacks p hp).2⟩
      refine .bind (critical (.idle rfl source before) fun _ m _ _ => ?_)
      cases m with
      | none => exact faults _
      | some m =>
        refine ⟨.taken _ _ s tries ⟨rfl, rfl⟩ queue waited, ?_⟩
        rintro x ⟨⟩
        exact ⟨_, q, rfl, rfl⟩

end Follows

theorem KernelCall.follows {γ : Type} (call : KernelCall γ) (waits : call.limit.isSome)
    (who : Caller) : Follows who call call.Heeds call.Meets call.program call.Returns [] := by
  cases call <;> try cases waits
  case wait s n =>
    exact .wait rfl (fun _ h => nomatch h) fun status tries h => (List.append_nil tries).symm ▸ h
  case waitUntilClaimed s =>
    refine .bind (.wait rfl (fun _ h => nomatch h) fun status tries h => ?_)
    rw [List.append_nil]
    cases status with
    | ok => exact h
    | timeout => exact ⟨rfl, h⟩
  case lock m n => exact .lock rfl fun status tries h => h
  case lockUntilClaimed m =>
    refine .bind (.lock rfl fun status tries h => ?_)
    cases status with
    | ok => exact h
    | timeout => exact ⟨rfl, h⟩
  case receive q n => exact .imp (.receive rfl rfl fun _ => rfl) fun _ _ h => h.1
  case receiveTagged q n =>
    refine .bind ((Follows.receive rfl rfl fun _ => .inl rfl).imp fun m trail h => ?_)
    cases m with
    | none => exact h.1
    | some m =>
      refine .bind (p := Program.ofExcept _) ?_
      unfold TaggedMessage.ofMessage
      split
      · next short => exact .inr ⟨rfl, m, h.2 m rfl, short⟩
      · exact h.1

namespace Performs

variable {who : Caller} {γ : Type} {call : KernelCall γ} {trail : List Passage}

theorem heeds {β : Type} {a : Action β} {next : Except Fault β → Program Unit γ}
    (h : Performs who call trail (.ask (.act a) next)) (waits : call.limit.isSome) :
    call.Heeds trail a :=
  (h.follows (call.follows waits who)).1

theorem meets {β : Type} {f : Fault} {next : β → Program Unit γ}
    (h : Performs who call trail (.ask (.fault f) next)) (waits : call.limit.isSome) :
    call.Meets trail f :=
  h.follows (call.follows waits who)

theorem returns {a : γ} (h : Performs who call trail (.done a)) (waits : call.limit.isSome) :
    call.Returns a trail :=
  h.follows (call.follows waits who)

end Performs

/-- The call has carried out the sections of the trail, and the log has them all. -/
structure OpenCall.Came (log : List Record) (o : OpenCall) (trail : List Passage) : Prop where
  performs : Performs o.caller o.call trail o.rest
  logged : (trail.map (·.record o.caller o.call)).Sublist log
  last : o.phase.last = trail.head?.map Passage.outcome

namespace OpenCall.Came

variable {log : List Record} {o : OpenCall} {trail : List Passage}

theorem later (h : o.Came log trail) (p : Record) : o.Came (p :: log) trail :=
  ⟨h.performs, h.logged.cons p, h.last⟩

theorem heeds (h : o.Came log trail) {β : Type} {a : Action β}
    {next : Except Fault β → Program Unit o.α} (rest : o.rest = .ask (.act a) next)
    (waits : o.call.limit.isSome) : o.call.Heeds trail a :=
  (rest ▸ h.performs : Performs o.caller o.call trail (.ask (.act a) next)).heeds waits

theorem meets (h : o.Came log trail) {β : Type} {f : Fault} {next : β → Program Unit o.α}
    (rest : o.rest = .ask (.fault f) next) (waits : o.call.limit.isSome) : o.call.Meets trail f :=
  (rest ▸ h.performs : Performs o.caller o.call trail (.ask (.fault f) next)).meets waits

theorem returns (h : o.Came log trail) {a : o.α} (rest : o.rest = .done a)
    (waits : o.call.limit.isSome) : o.call.Returns a trail :=
  (rest ▸ h.performs : Performs o.caller o.call trail (.done a)).returns waits

end OpenCall.Came

theorem Reachable.came {s : System} (h : Reachable s) :
    ∀ o ∈ s.calls, ∃ trail, o.Came s.log trail := by
  induction h with
  | boot clock => exact fun _ h => nomatch h
  | step _ hs ih =>
    have logs {calls : List OpenCall} {log : List Record} (p : Record)
        (came : ∀ x ∈ calls, ∃ trail, x.Came log trail) :
        ∀ x ∈ calls, ∃ trail, x.Came (p :: log) trail := fun x hx =>
      (came x hx).imp fun _ h => h.later p
    cases hs with
    | begin _ who call held may _ =>
      exact List.forall_mem_cons.2 ⟨⟨[], .begins, List.nil_sublist _, rfl⟩, ih⟩
    | reply c c' later earlier held lost log who call r next ph b may answer =>
      refine forall_middle ih ?_
      rintro ⟨trail, h⟩
      exact ⟨trail, h.performs.goesOn answer, h.logged, h.last⟩
    | act c c' later earlier held lost log who call a next ph b may result =>
      intro x hx
      rcases mem_middle.1 hx with hx | rfl
      · exact logs _ ih x (mem_middle.2 (.inl hx))
      · obtain ⟨trail, h⟩ := ih _ (mem_middle.2 (.inr rfl))
        exact ⟨_, h.performs.acts may.1 result, h.logged.cons_cons _, rfl⟩
    | unroll c later earlier held lost log who call body t next ph =>
      refine forall_middle ih ?_
      rintro ⟨trail, h⟩
      exact ⟨trail, h.performs.unrolls, h.logged, h.last⟩
    | finish c later earlier held lost log who call a ph =>
      exact fun x hx => ih x (mem_middle.2 (.inl hx))
    | switch _ c sp resumed result => exact logs _ ih
    | write => exact ih
    | drop => exact ih
    | elapse => exact ih

end Rtos
