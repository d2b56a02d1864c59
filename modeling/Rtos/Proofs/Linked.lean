import Mathlib.Data.List.Nodup
import Mathlib.Data.List.Perm.Subperm
import Rtos.Queue
import Rtos.WaitList

/-!
# Lists kept in links

`Linked` relates the links in a table to the list that they hold, whatever follows it, and `Strung`
is a whole list with its first and last member on record. The members are without repetition, so
`chain` reads the list off. Appending, taking the first member off and cutting one out are told in
terms of the links that change.
-/

namespace Rtos

variable {α : Type}

/-- The links lead from `start` through the members of the list, one after the other, to `stop`. -/
inductive Linked (next : α → Option α) (stop : Option α) : Option α → List α → Prop
  | nil : Linked next stop stop []
  | cons (a : α) (l : List α) : Linked next stop (next a) l → Linked next stop (some a) (a :: l)

namespace Linked

variable {next next' : α → Option α} {start stop : Option α} {l l₁ l₂ : List α} {a : α}

theorem chain_eq (h : Linked next none start l) {fuel : Nat} (hl : l.length ≤ fuel) :
    chain next fuel start = l := by
  induction h generalizing fuel with
  | nil => exact chain_none next fuel
  | cons a l _ ih =>
    obtain ⟨n, rfl⟩ : ∃ n, fuel = n + 1 := ⟨fuel - 1, by simp at hl; omega⟩
    rw [chain_succ_some, ih (by simpa using hl)]

theorem congr (h : Linked next stop start l) (hn : ∀ a ∈ l, next' a = next a) :
    Linked next' stop start l := by
  induction h with
  | nil => exact .nil
  | cons a l _ ih =>
    refine .cons a l ?_
    rw [hn a List.mem_cons_self]
    exact ih fun b hb => hn b (List.mem_cons_of_mem a hb)

theorem append (h₁ : Linked next a start l₁) (h₂ : Linked next stop a l₂) :
    Linked next stop start (l₁ ++ l₂) := by
  induction h₁ with
  | nil => exact h₂
  | cons b l _ ih => exact .cons b _ ih

theorem split (h : Linked next stop start (l₁ ++ l₂)) :
    ∃ mid, Linked next mid start l₁ ∧ Linked next stop mid l₂ := by
  induction l₁ generalizing start with
  | nil => exact ⟨start, .nil, h⟩
  | cons b l ih =>
    cases h with
    | cons _ _ h =>
      obtain ⟨mid, h₁, h₂⟩ := ih h
      exact ⟨mid, .cons b l h₁, h₂⟩

theorem start_cons (h : Linked next stop start (a :: l)) :
    start = some a ∧ Linked next stop (next a) l := by
  cases h with
  | cons _ _ h => exact ⟨rfl, h⟩

theorem start_eq (h : Linked next none start l) : start = l.head? := by
  cases h <;> rfl

/-- Puts `a` in between: it is linked to what follows it, and the member before it to `a`. -/
theorem splice (h : Linked next none start (l₁ ++ l₂)) (nodup : (l₁ ++ l₂).Nodup)
    (follows : next' a = l₂.head?) (joint : ∀ z, l₁.getLast? = some z → next' z = some a)
    (same : ∀ b ∈ l₁ ++ l₂, l₁.getLast? ≠ some b → next' b = next b) :
    Linked next' none (if l₁ = [] then some a else start) (l₁ ++ a :: l₂) := by
  obtain ⟨mid, h₁, h₂⟩ := h.split
  have apart := (List.nodup_append.1 nodup).2.2
  have behind : Linked next' none (some a) (a :: l₂) := by
    refine .cons a l₂ ?_
    rw [follows, ← h₂.start_eq]
    exact h₂.congr fun b hb => same b (List.mem_append_right _ hb) fun last =>
      apart b (List.mem_of_getLast? last) b hb rfl
  rcases List.eq_nil_or_concat l₁ with rfl | ⟨pre, z, rfl⟩
  · exact behind
  rw [List.concat_eq_append] at *
  obtain ⟨mid, h₃, h₄⟩ := h₁.split
  obtain ⟨rfl, -⟩ := h₄.start_cons
  have once : z ∉ pre := by
    have := (List.nodup_append.1 nodup).1
    rw [← List.concat_eq_append, List.nodup_concat] at this
    exact this.1
  have before : Linked next' (some z) start pre := h₃.congr fun b hb => by
    refine same b (by simp [hb]) fun last => once ?_
    obtain rfl : z = b := by simpa using last
    exact hb
  have joined : Linked next' none (some z) (z :: a :: l₂) :=
    .cons z _ (joint z (by simp) ▸ behind)
  simpa using before.append joined

end Linked

/-- A whole list, with its first and last member on record. -/
structure Strung (next : α → Option α) (first last : Option α) (l : List α) : Prop where
  linked : Linked next none first l
  last_eq : last = l.getLast?
  nodup : l.Nodup

namespace Strung

variable {next next' : α → Option α} {first last : Option α} {l before behind : List α} {a : α}

theorem nil : Strung next none none [] := ⟨.nil, rfl, List.nodup_nil⟩

theorem congr (h : Strung next first last l) (hn : ∀ a ∈ l, next' a = next a) :
    Strung next' first last l := ⟨h.linked.congr hn, h.last_eq, h.nodup⟩

theorem first_eq (h : Strung next first last l) : first = l.head? := h.linked.start_eq

theorem eq_nil (h : Strung next first last l) (hf : first = none) : l = [] := by
  rw [h.first_eq, List.head?_eq_none_iff] at hf
  exact hf

theorem push (h : Strung next first last l) (ha : a ∉ l) (end_ : next' a = none)
    (joint : ∀ z, last = some z → next' z = some a)
    (same : ∀ b ∈ l, last ≠ some b → next' b = next b) :
    Strung next' (first.or (some a)) (some a) (l ++ [a]) := by
  have nodup : (l ++ [a]).Nodup := by
    rw [← List.concat_eq_append, List.nodup_concat]
    exact ⟨ha, h.nodup⟩
  refine ⟨?_, by simp, nodup⟩
  have tail : Linked next' none (some a) [a] := .cons a [] (end_ ▸ .nil)
  rcases List.eq_nil_or_concat l with rfl | ⟨l, z, rfl⟩
  · rw [h.first_eq]
    exact tail
  · have hz : last = some z := by simp [h.last_eq]
    have hl : z ∉ l := by
      have := h.nodup
      rw [List.nodup_concat] at this
      exact this.1
    rw [List.concat_eq_append] at h same ⊢
    obtain ⟨mid, h₁, h₂⟩ := h.linked.split
    obtain ⟨rfl, -⟩ := h₂.start_cons
    have h₁ : Linked next' (some z) first l := h₁.congr fun b hb =>
      same b (List.mem_append_left _ hb) fun hbz => hl (by simp_all)
    have hf : first.or (some a) = first := by rw [h.first_eq]; cases l <;> rfl
    rw [hf]
    exact (h₁.append (.cons z [] (joint z hz ▸ .nil))).append tail

theorem pop (h : Strung next first last (a :: l)) (same : ∀ b ∈ l, next' b = next b) :
    Strung next' (next a) (if (next a).isNone then none else last) l := by
  obtain ⟨-, hl⟩ := h.linked.start_cons
  refine ⟨hl.congr same, ?_, (List.nodup_cons.1 h.nodup).2⟩
  have hlast := h.last_eq
  rw [hl.start_eq]
  cases l with
  | nil => rfl
  | cons b l => simpa using hlast

/-- Cuts `a` out, past which the member before it is linked. -/
theorem cut [DecidableEq α] (h : Strung next first last (before ++ a :: behind))
    (joint : ∀ p, before.getLast? = some p → next' p = next a)
    (same : ∀ b ∈ before ++ behind, before.getLast? ≠ some b → next' b = next b) :
    Strung next' (if before.getLast? = none then next a else first)
      (if last = some a then before.getLast? else last) (before ++ behind) := by
  obtain ⟨mid, h₁, h₂⟩ := h.linked.split
  obtain ⟨rfl, h₃⟩ := h₂.start_cons
  have hn := h.nodup
  have nodup : (before ++ behind).Nodup :=
    hn.sublist ((List.sublist_cons_self a behind).append_left before)
  have apart : ∀ b ∈ behind, b ∉ before := fun b hb hb' =>
    (List.nodup_append.1 nodup).2.2 b hb' b hb rfl
  have rest : Linked next' none (next a) behind := h₃.congr fun b hb =>
    same b (List.mem_append_right _ hb) fun hp => apart b hb (List.mem_of_getLast? hp)
  refine ⟨?_, ?_, nodup⟩
  · rcases List.eq_nil_or_concat before with rfl | ⟨pre, p, rfl⟩
    · exact rest
    · rw [List.concat_eq_append] at *
      obtain ⟨mid, h₄, h₅⟩ := h₁.split
      obtain ⟨rfl, -⟩ := h₅.start_cons
      have hp : p ∉ pre := by
        have := (List.nodup_append.1 nodup).1
        rw [← List.concat_eq_append, List.nodup_concat] at this
        exact this.1
      have h₄ : Linked next' (some p) first pre := h₄.congr fun b hb => by
        refine same b (by simp [hb]) fun hbp => hp ?_
        simp only [List.getLast?_append, List.getLast?_singleton, Option.some_or,
          Option.some.injEq] at hbp
        exact hbp ▸ hb
      have behind_p : Linked next' none (some p) (p :: behind) :=
        .cons p behind (joint p (by simp) ▸ rest)
      simpa using h₄.append behind_p
  · have ha : a ∉ behind := (List.nodup_cons.1 (List.nodup_append.1 hn).2.1).1
    rw [h.last_eq]
    rcases List.eq_nil_or_concat behind with rfl | ⟨post, z, rfl⟩
    · simp
    · have hza : z ≠ a := fun hza => ha (by simp [hza])
      rw [List.concat_eq_append, ← List.cons_append, ← List.append_assoc, List.getLast?_concat,
        ← List.append_assoc, List.getLast?_concat, if_neg (by simpa using hza)]

end Strung

theorem length_le_of_index_lt {l : List α} {n : Nat} (index : α → Nat)
    (inj : Function.Injective index) (nodup : l.Nodup) (bound : ∀ a ∈ l, index a < n) :
    l.length ≤ n := by
  have hs : l.map index ⊆ List.range n := by
    intro i hi
    obtain ⟨a, ha, rfl⟩ := List.mem_map.1 hi
    exact List.mem_range.2 (bound a ha)
  simpa using (List.subperm_of_subset (nodup.map inj) hs).length_le

section

variable [DecidableEq α] {a : α}

theorem memberBefore_eq_none {l : List α} (h : a ∉ l.tail) : memberBefore a l = none := by
  induction l with
  | nil => rfl
  | cons x l ih =>
    cases l with
    | nil => rfl
    | cons y l =>
      have hy : y ≠ a := fun hy => h (by simp [hy])
      rw [memberBefore, if_neg hy]
      exact ih fun hl => h (List.mem_of_mem_tail hl)

theorem mem_of_memberBefore {l : List α} {b : α} (h : memberBefore a l = some b) : b ∈ l := by
  fun_induction memberBefore a l with
  | case1 x rest =>
    cases h
    exact List.mem_cons_self
  | case2 x y rest hy ih => exact List.mem_cons_of_mem x (ih h)
  | case3 => exact nomatch h

theorem memberBefore_append {before behind : List α} (ha : a ∉ before) (hb : a ∉ behind) :
    memberBefore a (before ++ a :: behind) = before.getLast? := by
  induction before with
  | nil => exact memberBefore_eq_none hb
  | cons x before ih =>
    cases before with
    | nil => exact if_pos rfl
    | cons y before =>
      have hy : y ≠ a := fun hy => ha (by simp [hy])
      rw [List.cons_append, List.cons_append, memberBefore, if_neg hy, List.getLast?_cons_cons]
      exact ih fun hx => ha (List.mem_cons_of_mem x hx)

end

end Rtos
