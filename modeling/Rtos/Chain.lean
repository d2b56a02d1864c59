/-!
# Chains of links

A table of records holds a list in the records themselves: each record names its successor. `chain`
reads such a list off. It takes at most `fuel` members, so it ends whatever the links say; a chain
without repetition is read off whole as soon as `fuel` reaches the size of the table.
-/

namespace Rtos

variable {α : Type}

/-- The members reached from `start` by following `next`, at most `fuel` of them. -/
def chain (next : α → Option α) : Nat → Option α → List α
  | 0, _ => []
  | _ + 1, none => []
  | fuel + 1, some a => a :: chain next fuel (next a)

@[simp] theorem chain_none (next : α → Option α) (fuel : Nat) : chain next fuel none = [] := by
  cases fuel <;> rfl

@[simp] theorem chain_succ_some (next : α → Option α) (fuel : Nat) (a : α) :
    chain next (fuel + 1) (some a) = a :: chain next fuel (next a) := rfl

theorem length_chain_le (next : α → Option α) (fuel : Nat) (start : Option α) :
    (chain next fuel start).length ≤ fuel := by
  induction fuel generalizing start with
  | zero => simp [chain]
  | succ fuel ih =>
    cases start with
    | none => simp
    | some a => simpa using ih (next a)

/-- The member that stands just before the first occurrence of `a`. -/
def memberBefore [DecidableEq α] (a : α) : List α → Option α
  | x :: y :: rest => if y = a then some x else memberBefore a (y :: rest)
  | _ => none

end Rtos
