import Rtos.Proofs.Interference

/-!
# Programs that nobody disturbs

`Yields` is what a program comes to when nothing else happens from its first request to its last:
it ends, in a result or in a fault, and it gives nobody else the processor on the way. It opens no
window, asks for no switch and runs no routine; what the heap and the port answer to the rest of its
requests is left open.
-/

namespace Rtos

namespace Section

variable {α β : Type} {c : Core}

/-- The section ends in a result, as `P` says. -/
def Ends (x : Section α) (P : α → Core → Prop) (c : Core) : Prop :=
  ∃ a c', x c = .ok a c' ∧ P a c'

namespace Ends

theorem bind {x : Section α} {f : α → Section β} {P : β → Core → Prop} {a : α} {c₁ : Core}
    (first : x c = .ok a c₁) (rest : Ends (f a) P c₁) : Ends (x >>= f) P c := by
  obtain ⟨b, c', hf, h⟩ := rest
  exact ⟨b, c', bind_eq_ok.2 ⟨a, c₁, first, hf⟩, h⟩

theorem andThen {x : Section α} {f : α → Section β} {P : β → Core → Prop}
    (h : Ends x (fun a c' => Ends (f a) P c') c) : Ends (x >>= f) P c := by
  obtain ⟨a, c₁, first, rest⟩ := h
  exact bind first rest

theorem pure {a : α} {P : α → Core → Prop} (h : P a c) : Ends (pure a) P c := ⟨a, c, rfl, h⟩

end Ends

end Section

namespace Request

variable {β : Type}

def isPrompt : Request Unit β → Bool
  | act _ | mask | unmask _ | reserve _ | frame .. | note _ => true
  | _ => false

/-- The answers to a request that is carried out at once, each with the core that it leaves. -/
def Gives (heap : Heap) (c : Core) : {β : Type} → Request Unit β → β → Core → Prop
  | _, act a, r, c' => match r with
    | .ok b => a.toSection c = .ok b c'
    | .error f => a.toSection c = .error f c'
  | _, reserve bytes, granted, c' => heap.answers bytes granted ∧ c' = c
  | _, _, _, c' => c' = c

end Request

theorem Reply.gives {β : Type} {r : Request Unit β} {b : β} {c c' : Core} (h : Reply r c b c')
    (prompt : r.isPrompt) : r.Gives .any c b c' := by
  cases h with
  | reserve _ _ _ _ answer => exact ⟨Heap.answers_any answer, rfl⟩
  | mask | unmask | frame | note => rfl
  | _ => cases prompt

namespace Program

/-- Run by itself from that core, the program ends as `P` says. -/
inductive Yields {α : Type} (heap : Heap) (P : Except Fault α → Core → Prop) :
    Program Unit α → Core → Prop
  | done {a : α} {c : Core} (ends : P (.ok a) c) : Yields heap P (.done a) c
  | fault {β : Type} {f : Fault} {next : β → Program Unit α} {c : Core} (ends : P (.error f) c) :
      Yields heap P (.ask (.fault f) next) c
  | asks {β : Type} {r : Request Unit β} {next : β → Program Unit α} {c : Core}
      (prompt : r.isPrompt) (rest : ∀ b c', r.Gives heap c b c' → Yields heap P (next b) c') :
      Yields heap P (.ask r next) c
  | unrolls {β τ : Type} {body : τ → Program Unit (τ ⊕ β)} {t : τ} {next : β → Program Unit α}
      {c : Core} (rest : Yields heap P (unroll body t next) c) : Yields heap P (.loop body t next) c

namespace Yields

variable {α β : Type} {heap : Heap} {P Q : Except Fault α → Core → Prop} {p : Program Unit α} {c : Core}

theorem imp (h : p.Yields heap P c) (hQ : ∀ r c', P r c' → Q r c') : p.Yields heap Q c := by
  induction h with
  | done ends => exact .done (hQ _ _ ends)
  | fault ends => exact .fault (hQ _ _ ends)
  | asks prompt _ ih => exact .asks prompt ih
  | unrolls _ ih => exact .unrolls ih

theorem bind {p : Program Unit β} {f : β → Program Unit α}
    (h : p.Yields heap (fun r c => match r with
      | .ok b => (f b).Yields heap P c
      | .error e => P (.error e) c) c) : (p.bind f).Yields heap P c := by
  induction h with
  | done ends => exact ends
  | fault ends => exact .fault ends
  | asks prompt _ ih => exact .asks prompt ih
  | @unrolls γ τ body t next c _ ih =>
    have same : (unroll body t next).bind f = unroll body t fun b => (next b).bind f := by
      rw [unroll, unroll, bind_assoc]
      congr 1
      funext r
      cases r <;> rfl
    exact .unrolls (same ▸ ih)

theorem quiet {r : Request Unit β} {next : β → Program Unit α} (prompt : r.isPrompt)
    (still : ∀ b c', r.Gives heap c b c' → c' = c) (h : ∀ b, (next b).Yields heap P c) :
    (Program.ask r next).Yields heap P c :=
  .asks prompt fun b c' gives => still b c' gives ▸ h b

theorem reserve {bytes : Nat} {P : Except Fault Bool → Core → Prop}
    (h : ∀ granted, heap.answers bytes granted → P (.ok granted) c) :
    (Program.request (.reserve bytes)).Yields heap P c :=
  .asks rfl fun granted _ ⟨answer, same⟩ => same ▸ .done (h granted answer)

theorem note {n : Note} {P : Except Fault Unit → Core → Prop} (h : P (.ok ()) c) :
    (Program.note n).Yields heap P c := .quiet rfl (fun _ _ same => same) fun _ => .done h

theorem leave {saved : Bool} {result : Except Fault α} (h : P result c) :
    (Program.leave saved result).Yields heap P c := by
  refine .quiet rfl (fun _ _ same => same) fun _ => ?_
  cases result with
  | ok a => exact .done h
  | error f => exact .fault h

theorem acts {a : Action β} {next : Except Fault β → Program Unit α}
    (h : a.toSection.Ends (fun b => (next (.ok b)).Yields heap P) c) :
    (Program.ask (.act a) next).Yields heap P c := by
  obtain ⟨b, c', result, rest⟩ := h
  refine .asks rfl fun r c₁ gives => ?_
  cases r with
  | ok b₁ =>
    obtain ⟨rfl, rfl⟩ := EStateM.Result.ok.inj (result.symm.trans gives)
    exact rest
  | error f => exact nomatch result.symm.trans gives

theorem critical {a : Action α} (h : a.toSection.Ends (fun b => P (.ok b)) c) :
    (Program.critical a).Yields heap P c := by
  obtain ⟨b, c', result, ends⟩ := h
  exact .quiet rfl (fun _ _ same => same) fun saved => .acts ⟨b, c', result, leave ends⟩

theorem critical_fails {a : Action α} {f : Fault} {c' : Core} (result : a.toSection c = .error f c')
    (h : P (.error f) c') : (Program.critical a).Yields heap P c := by
  refine .quiet rfl (fun _ _ same => same) fun saved => .asks rfl fun r c₁ gives => ?_
  cases r with
  | ok b => exact nomatch result.symm.trans gives
  | error f₁ =>
    obtain ⟨rfl, rfl⟩ := EStateM.Result.error.inj (result.symm.trans gives)
    exact leave h

theorem reading {f : Kernel → Except Fault α} (h : P (f c.kernel) c) :
    (Program.reading f).Yields heap P c := by
  cases seen : f c.kernel with
  | ok a =>
    rw [seen] at h
    exact critical ⟨a, c, Section.reading_eq_ok.2 ⟨seen, rfl⟩, h⟩
  | error e =>
    rw [seen] at h
    exact critical_fails (Section.reading_eq_error.2 ⟨seen, rfl⟩) h

theorem adding {a : Action (Option α)} {f : Kernel → Option (α × Kernel)}
    {P : Except Fault (Option α) → Core → Prop} (does : a.toSection = Section.adding f)
    (refuses : f c.kernel = none → P (.ok none) c)
    (adds : ∀ x k, f c.kernel = some (x, k) → P (.ok (some x)) { c with kernel := k }) :
    (Program.critical a).Yields heap P c := by
  refine critical ?_
  rw [does]
  refine .bind Section.kernel_apply ?_
  cases found : f c.kernel with
  | none => exact .pure (refuses found)
  | some x => exact .bind rfl (.pure (adds x.1 x.2 found))

/-- One program for each member of a list, one after the other. The invariant says what holds with
that many members behind. -/
theorem forM {l : List α} {f : α → Program Unit Unit} {I : Nat → Core → Prop}
    {P : Except Fault Unit → Core → Prop} (begins : I 0 c)
    (step : ∀ i a c, l[i]? = some a → I i c →
      (f a).Yields heap (fun r c' => r = .ok () ∧ I (i + 1) c') c)
    (ends : ∀ c, I l.length c → P (.ok ()) c) : (l.forM f).Yields heap P c := by
  induction l generalizing c I with
  | nil => exact .done (ends c begins)
  | cons a l ih =>
    refine bind ((step 0 a c rfl begins).imp fun r c' ⟨same, held⟩ => ?_)
    subst same
    exact ih (I := fun i => I (i + 1)) held (fun i => step (i + 1)) ends

end Yields

end Program

namespace KernelCall.Amid

variable {γ : Type} {call : KernelCall γ} {c c' : Core} {trail : List Passage}
  {P : Except Fault γ → Core → Prop}

/-- What a call comes to that nobody disturbs holds of the rest of it at every moment. -/
theorem yields {ops : List (Core → Core)} {p : Program Unit γ} (h : call.Amid c ops trail p c')
    (alone : ops = []) (whole : call.program.Yields .any P c) : p.Yields .any P c' := by
  induction h with
  | begins => exact whole
  | others op _ _ =>
    exact absurd alone (List.append_ne_nil_of_right_ne_nil _ (List.cons_ne_nil _ _))
  | acts _ result ih =>
    cases ih alone with
    | asks _ rest => exact rest (.ok _) _ result
  | goesOn _ answer ih =>
    cases ih alone with
    | fault _ => cases answer
    | asks prompt rest => exact rest _ _ (answer.gives prompt)
  | unrolls _ ih =>
    cases ih alone with
    | unrolls rest => exact rest

theorem ends {r : γ} (h : call.Amid c [] trail (.done r) c') (whole : call.program.Yields .any P c) :
    P (.ok r) c' := by
  cases h.yields rfl whole with
  | done ends => exact ends

end KernelCall.Amid

end Rtos
