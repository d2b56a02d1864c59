import Mathlib.Logic.Relation
import Rtos.Proofs.Conformance
import Rtos.Proofs.MoveStep

/-!
# Calls under way

In every run, all calls under way keep their contracts, and the calls of one thread are nested: those
that the thread made before its latest call wait for a routine. So the section that comes next is one
that `Permits` allows, and no other call of the same thread is blocked at the time.
-/

namespace Rtos

structure OpenCall.Sound (k : Kernel) (o : OpenCall) : Prop where
  keeps : Keeps o.caller o.call o.rest o.call.Leaves k o.phase
  awaits : ∀ w v, o.phase.last.bind Outcome.tried = some (w, v) → o.call.Awaits k w
  sleeper : ∀ w t, o.phase.blocked = some (w, t) → o.caller = .thread (some t)

/-- Whether the earlier call waits for the later one, if both are made by one thread. -/
def OpenCall.Nests (later earlier : OpenCall) : Prop :=
  later.caller ≠ .handler → later.caller = earlier.caller → earlier.rest.isAtRoutine

structure System.InContract (s : System) : Prop where
  sound : ∀ o ∈ s.calls, o.Sound s.core.kernel
  nested : s.calls.Pairwise OpenCall.Nests

namespace OpenCall.Sound

variable {k k' : Kernel} {o : OpenCall}

theorem later (h : o.Sound k) (hk : k.Precedes k') : o.Sound k' where
  keeps := h.keeps.later hk fun _ _ _ _ _ h => h
  awaits w v ht := (h.awaits w v ht).later hk
  sleeper := h.sleeper

theorem at_routine (h : o.Sound k) (hr : o.rest.isAtRoutine) :
    o.phase.blocked = none ∧ ¬ o.phase.gone := by
  obtain ⟨who, call, rest, ph⟩ := o
  obtain ⟨keeps, -, -⟩ := h
  cases rest with
  | done a => exact nomatch hr
  | loop body t next => exact nomatch hr
  | ask r next =>
    cases r
    case put r data => exact keeps.1
    case control r data c arg => exact keeps.1
    all_goals exact nomatch hr

end OpenCall.Sound

theorem Phase.blocked_after {β : Type} {a : Action β} {b : β} {ph : Phase} {w : Waitable}
    {t : TaskId} : (ph.after ⟨a, b⟩).blocked = some (w, t) ↔ a.tried b = some (w, .asleep t) := by
  have last : (ph.after ⟨a, b⟩).last.bind Outcome.tried = a.tried b := rfl
  rw [Phase.blocked, last]
  split
  · next w' t' h => simp [h]
  · next h =>
    constructor
    · intro none
      cases none
    · intro ht
      exact (h w t ht).elim

theorem Permits.sleeper {who : Caller} {α β : Type} {call : KernelCall α} {k k' : Kernel}
    {ph : Phase} {a : Action β} {b : β} {w : Waitable} {t : TaskId} (h : Permits who call k ph a)
    (before : ∀ w t, ph.blocked = some (w, t) → who = .thread (some t))
    (step : WaitStep a b k k') (asleep : a.tried b = some (w, .asleep t)) :
    who = .thread (some t) := by
  cases step with
  | calm tried => exact nomatch tried.symm.trans asleep
  | delays _ _ tried => exact nomatch tried.symm.trans asleep
  | exits _ tried => exact nomatch tried.symm.trans asleep
  | releases _ _ tried => exact nomatch tried.symm.trans asleep
  | tries r ticks resumed v tried _ _ resumes suspends came =>
    obtain ⟨rfl, rfl⟩ := Prod.mk.inj (Option.some.inj (tried.symm.trans asleep))
    cases came with
    | sleepsOn _ back =>
      refine before r.waitable t (h.resumes.symm.trans (resumes.trans ?_))
      rw [back, Option.map_some]
    | asleep _ _ _ _ waits current => exact current ▸ h.own (suspends (.inl waits))

theorem Reply.kernel_eq {β : Type} {r : Request Unit β} {c c' : Core} {b : β}
    (h : Reply r c b c') : c'.kernel = c.kernel := by
  cases h <;> rfl

theorem Keeps.reply {who : Caller} {α β γ : Type} {call : KernelCall γ} {r : Request Unit β}
    {next : β → Program Unit α} {Q : α → Kernel → Phase → Prop} {k : Kernel} {ph : Phase}
    {c c' : Core} {b : β} (h : Keeps who call (.ask r next) Q k ph) (answer : Reply r c b c') :
    Keeps who call (next b) Q k ph := by
  cases answer with
  | mask => exact h _
  | unmask => exact h _
  | barrier => exact h _
  | idle => exact h _
  | pend => exact h _
  | reserve => exact h _
  | frame => exact h _
  | startFirst => exact h _
  | put => exact h.2 _
  | control => exact h.2 _
  | note => exact h _

namespace System.InContract

variable {s s' : System}

theorem boot (clock : Clock) : ({ core := { clock } } : System).InContract :=
  ⟨fun _ h => (nomatch h), .nil⟩

theorem replace {later earlier : List OpenCall} {o o' : OpenCall} {k k' : Kernel}
    (sound : ∀ x ∈ later ++ o :: earlier, x.Sound k)
    (nested : (later ++ o :: earlier).Pairwise OpenCall.Nests) (hk : k.Precedes k')
    (ho : o'.Sound k') (caller : o'.caller = o.caller) (nests : ∀ x ∈ later, x.Nests o') :
    (∀ x ∈ later ++ o' :: earlier, x.Sound k') ∧
      (later ++ o' :: earlier).Pairwise OpenCall.Nests := by
  constructor
  · intro x hx
    rcases List.mem_append.1 hx with hx | hx
    · exact (sound x (List.mem_append_left _ hx)).later hk
    rcases List.mem_cons.1 hx with rfl | hx
    · exact ho
    · exact (sound x (List.mem_append_right _ (List.mem_cons_of_mem o hx))).later hk
  · rw [List.pairwise_append, List.pairwise_cons] at nested ⊢
    obtain ⟨h₁, ⟨h₂, h₃⟩, h₄⟩ := nested
    refine ⟨h₁, ⟨fun x hx => ?_, h₃⟩, fun x hx y hy => ?_⟩
    · rw [OpenCall.Nests, caller]
      exact h₂ x hx
    · rcases List.mem_cons.1 hy with rfl | hy
      · exact nests x hx
      · exact h₄ x hx y (List.mem_cons_of_mem o hy)

theorem over_of_may {later : List OpenCall} {o o' : OpenCall} {k : Kernel}
    (may : o.MayGoOn later k) (caller : o'.caller = o.caller) : ∀ x ∈ later, x.Nests o' := by
  intro x hx hh he
  exact (may.2 (fun ho => hh (by rw [he, caller, ho])) x hx (he.trans caller)).elim

theorem step (h : s.InContract) (hs : System.Step s s') : s'.InContract := by
  cases hs with
  | begin _ who call held may _ =>
    have handler : who = .handler → ¬ call.maySuspend s.core.kernel := by
      rintro rfl
      exact may
    refine ⟨fun o ho => ?_, .cons (fun o ho => ?_) h.nested⟩
    · rcases List.mem_cons.1 ho with rfl | ho
      · exact ⟨call.keeps who _ handler, fun _ _ ht => (nomatch ht), fun _ _ hb => nomatch hb⟩
      · exact h.sound o ho
    · cases who with
      | handler => exact fun hh => (hh rfl).elim
      | thread t => exact fun _ he => may.2 o ho he.symm
  | reply c c' later earlier held lost log who call r next ph b may answer =>
    have o := h.sound _ (List.mem_append_right later List.mem_cons_self)
    have hk : c.kernel.Precedes c'.kernel := by
      rw [answer.kernel_eq]
      exact .rfl
    have sound : OpenCall.Sound c.kernel ⟨who, call, next b, ph⟩ :=
      ⟨o.keeps.reply answer, o.awaits, o.sleeper⟩
    obtain ⟨sound, nested⟩ := replace h.sound h.nested hk (sound.later hk) rfl (over_of_may may rfl)
    exact ⟨sound, nested⟩
  | act c c' later earlier held lost log who call a next ph b may result =>
    have o := h.sound _ (List.mem_append_right later List.mem_cons_self)
    have hk := Action.precedes result
    obtain ⟨permits, keeps⟩ := o.keeps c .rfl may.1
    have sound : OpenCall.Sound c'.kernel ⟨who, call, next (.ok b), ph.after ⟨a, b⟩⟩ := by
      refine ⟨keeps b c' result hk, fun w v ht => ?_, fun w t hb => ?_⟩
      · exact (permits.awaits w (Action.tries_of_tried ht)).later hk
      · exact permits.sleeper o.sleeper (Action.waitStep result) (Phase.blocked_after.1 hb)
    obtain ⟨sound, nested⟩ := replace h.sound h.nested hk sound rfl (over_of_may may rfl)
    exact ⟨sound, nested⟩
  | unroll c later earlier held lost log who call body t next ph =>
    have o := h.sound _ (List.mem_append_right later List.mem_cons_self)
    have sound : OpenCall.Sound c.kernel ⟨who, call, Program.unroll body t next, ph⟩ :=
      ⟨o.keeps.unroll, o.awaits, o.sleeper⟩
    obtain ⟨sound, nested⟩ := replace h.sound h.nested .rfl sound rfl fun x hx hh he =>
      nomatch (List.pairwise_append.1 h.nested).2.2 x hx _ List.mem_cons_self hh he
    exact ⟨sound, nested⟩
  | finish c later earlier held lost log who call a ph =>
    have sub : (later ++ earlier).Sublist (later ++ ⟨who, call, .done a, ph⟩ :: earlier) :=
      (List.sublist_cons_self _ earlier).append_left later
    exact ⟨fun o ho => h.sound o (sub.subset ho), h.nested.sublist sub⟩
  | switch _ c sp resumed result =>
    exact ⟨fun o ho => (h.sound o ho).later (Action.precedes (a := .switch sp) result), h.nested⟩
  | write => exact ⟨h.sound, h.nested⟩
  | drop => exact ⟨h.sound, h.nested⟩
  | elapse => exact ⟨h.sound, h.nested⟩

theorem permits_of_mem {s : System} (h : s.InContract) {o : OpenCall} (ho : o ∈ s.calls) {β : Type}
    {a : Action β} {next : Except Fault β → Program Unit o.α} (rest : o.rest = .ask (.act a) next)
    (runs : o.caller.Runs o.call s.core.kernel) :
    Permits o.caller o.call s.core.kernel o.phase a := by
  have keeps := (h.sound o ho).keeps
  rw [rest] at keeps
  exact (keeps s.core .rfl runs).1

end System.InContract

namespace System.InContract

variable {c : Core} {later earlier : List OpenCall} {held : List Message} {lost : List MessageId}
  {log : List Record}

theorem permits {who : Caller} {α β : Type} {call : KernelCall α} {a : Action β}
    {next : Except Fault β → Program Unit α} {ph : Phase}
    (h : InContract ⟨c, later ++ ⟨who, call, .ask (.act a) next, ph⟩ :: earlier, held, lost, log⟩)
    (may : OpenCall.MayGoOn ⟨who, call, .ask (.act a) next, ph⟩ later c.kernel) :
    Permits who call c.kernel ph a :=
  h.permits_of_mem (List.mem_append_right later List.mem_cons_self) rfl may.1

theorem alone {o : OpenCall} (h : InContract ⟨c, later ++ o :: earlier, held, lost, log⟩)
    (may : o.MayGoOn later c.kernel) {x : OpenCall} (hx : x ∈ later ++ earlier)
    (thread : o.caller ≠ .handler) (same : x.caller = o.caller) :
    x.phase.blocked = none ∧ ¬ x.phase.gone := by
  rcases List.mem_append.1 hx with hx | hx
  · exact (may.2 thread x hx same).elim
  · have sound := h.sound x (List.mem_append_right later (List.mem_cons_of_mem o hx))
    have nested := (List.pairwise_cons.1 (List.pairwise_append.1 h.nested).2.1).1 x hx
    exact sound.at_routine (nested thread same.symm)

theorem blocked_unique {s : System} (h : s.InContract) {x y : OpenCall} (hx : x ∈ s.calls)
    (hy : y ∈ s.calls) {w w' : Waitable} {t : TaskId} (hb : x.phase.blocked = some (w, t))
    (hb' : y.phase.blocked = some (w', t)) : w = w' := by
  have pairs : s.calls.Pairwise fun x y => ∀ w w' t, x.phase.blocked = some (w, t) →
      y.phase.blocked = some (w', t) → w = w' := by
    refine h.nested.imp_of_mem fun {x y} hx hy nests w w' t hb hb' => ?_
    have caller := (h.sound x hx).sleeper w t hb
    have atRoutine := nests (by rw [caller]; exact fun h => nomatch h)
      (caller.trans ((h.sound y hy).sleeper w' t hb').symm)
    exact nomatch ((h.sound y hy).at_routine atRoutine).1.symm.trans hb'
  refine List.Pairwise.forall_of_forall_of_flip (fun x _ w w' t hb hb' => ?_) pairs
    (pairs.imp fun h w w' t hb hb' => (h w' w t hb' hb).symm) hx hy w w' t hb hb'
  exact (Prod.mk.inj (Option.some.inj (hb.symm.trans hb'))).1

end System.InContract

theorem Reachable.inContract {s : System} (h : Reachable s) : s.InContract := by
  induction h with
  | boot clock => exact .boot clock
  | step _ hs ih => exact ih.step hs

/-- The section that `p` records may be carried out now, by a call under way or by the port. -/
inductive System.Acts (s : System) : Record → Core → Prop
  | call {α β : Type} (c' : Core) (later earlier : List OpenCall) (who : Caller)
      (call : KernelCall α) (a : Action β) (next : Except Fault β → Program Unit α) (ph : Phase)
      (b : β) (calls : s.calls = later ++ ⟨who, call, .ask (.act a) next, ph⟩ :: earlier)
      (may : OpenCall.MayGoOn ⟨who, call, .ask (.act a) next, ph⟩ later s.core.kernel)
      (result : a.toSection s.core = .ok b c') :
      System.Acts s ⟨s.core.kernel, who, some ⟨α, call⟩, ⟨a, b⟩⟩ c'
  | switch (c' : Core) (sp resumed : StackPointer)
      (result : Section.switch sp s.core = .ok resumed c') :
      System.Acts s ⟨s.core.kernel, .handler, none, ⟨.switch sp, resumed⟩⟩ c'

namespace System.Acts

variable {s : System} {p : Record} {c' : Core}

theorem result (h : s.Acts p c') : p.outcome.action.toSection s.core = .ok p.outcome.result c' := by
  cases h with
  | call _ _ _ _ _ _ _ _ _ _ _ result => exact result
  | switch _ _ _ result => exact result

theorem kernel (h : s.Acts p c') : p.kernel = s.core.kernel := by
  cases h <;> rfl

end System.Acts

/-- Only sections change the kernel, and the log has them all. -/
theorem Reachable.log_induction {P : Kernel → List Record → Prop}
    (boot : ∀ clock : Clock, P ({ clock : Core }).kernel [])
    (acts : ∀ s p c', Reachable s → s.Acts p c' → P s.core.kernel s.log →
      P c'.kernel (p :: s.log))
    {s : System} (h : Reachable s) : P s.core.kernel s.log := by
  induction h with
  | boot clock => exact boot clock
  | step hr hs ih =>
    cases hs with
    | begin => exact ih
    | reply c c' later earlier held lost log who call r next ph b may answer =>
      rw [answer.kernel_eq]
      exact ih
    | act c c' later earlier held lost log who call a next ph b may result =>
      exact acts _ _ c' hr (.call c' later earlier who call a next ph b rfl may result) ih
    | unroll => exact ih
    | finish => exact ih
    | switch _ c sp resumed result => exact acts _ _ c hr (.switch c sp resumed result) ih
    | write => exact ih
    | drop => exact ih
    | elapse => exact ih

theorem System.Step.acts {s s' : System} (h : System.Step s s') :
    (s'.core.kernel = s.core.kernel ∧ s'.log = s.log) ∨
      ∃ p c', s.Acts p c' ∧ s'.core.kernel = c'.kernel ∧ s'.log = p :: s.log := by
  cases h with
  | begin => exact .inl ⟨rfl, rfl⟩
  | reply c c' later earlier held lost log who call r next ph b may answer =>
    exact .inl ⟨answer.kernel_eq, rfl⟩
  | act c c' later earlier held lost log who call a next ph b may result =>
    exact .inr ⟨_, c', .call c' later earlier who call a next ph b rfl may result, rfl, rfl⟩
  | unroll => exact .inl ⟨rfl, rfl⟩
  | finish => exact .inl ⟨rfl, rfl⟩
  | switch _ c sp resumed result => exact .inr ⟨_, c, .switch c sp resumed result, rfl, rfl⟩
  | write => exact .inl ⟨rfl, rfl⟩
  | drop => exact .inl ⟨rfl, rfl⟩
  | elapse => exact .inl ⟨rfl, rfl⟩

theorem System.Step.of_call {s s' : System} (h : System.Step s s') {p : Record} {α : Type}
    {call : KernelCall α} (log : s'.log = p :: s.log) (caller : p.call = some ⟨α, call⟩) :
    ∃ (β : Type) (a : Action β) (b : β) (later earlier : List OpenCall)
      (next : Except Fault β → Program Unit α) (ph : Phase) (c' : Core),
      s.calls = later ++ ⟨p.caller, call, .ask (.act a) next, ph⟩ :: earlier ∧
      OpenCall.MayGoOn ⟨p.caller, call, .ask (.act a) next, ph⟩ later s.core.kernel ∧
      a.toSection s.core = .ok b c' ∧ p.outcome = ⟨a, b⟩ ∧
      s' = ⟨c', later ++ ⟨p.caller, call, next (.ok b), ph.after ⟨a, b⟩⟩ :: earlier, s.held, s.lost,
        p :: s.log⟩ := by
  cases h with
  | act c c' later earlier held lost log₁ who call₁ a next ph b may result =>
    obtain rfl := (List.cons.inj log).1
    cases caller
    exact ⟨_, a, b, later, earlier, next, ph, c', rfl, may, result, rfl, rfl⟩
  | switch =>
    obtain rfl := (List.cons.inj log).1
    cases caller
  | _ => exact (List.cons_ne_self p _ log.symm).elim

theorem System.Step.log_subset {s s' : System} (h : System.Step s s') : s.log ⊆ s'.log := by
  rcases h.acts with ⟨-, same⟩ | ⟨p, c', -, -, more⟩
  · rw [same]
    exact List.Subset.refl _
  · rw [more]
    exact List.subset_cons_self p s.log

/-- A run that goes on from `s` adds to the log, and what its sections keep holds in the end. -/
theorem Reachable.run_induction {P : Kernel → List Record → Prop} {s s' : System}
    (h : Reachable s) (run : Relation.ReflTransGen System.Step s s') (start : P s.core.kernel [])
    (acts : ∀ s₁ p c' newer, Reachable s₁ → s₁.Acts p c' → P s₁.core.kernel newer →
      P c'.kernel (p :: newer)) :
    Reachable s' ∧ ∃ newer, s'.log = newer ++ s.log ∧ P s'.core.kernel newer := by
  induction run with
  | refl => exact ⟨h, [], rfl, start⟩
  | @tail s₁ s₂ _ step ih =>
    obtain ⟨hr, newer, log, ih⟩ := ih
    refine ⟨hr.step step, ?_⟩
    rcases step.acts with ⟨kernel, same⟩ | ⟨p, c', act, kernel, more⟩
    · exact ⟨newer, same.trans log, kernel ▸ ih⟩
    · exact ⟨p :: newer, more.trans (congrArg (p :: ·) log), kernel ▸ acts _ p c' newer hr act ih⟩

end Rtos
