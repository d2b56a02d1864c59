import Rtos.Proofs.Forever
import Rtos.Proofs.PlantTotals

/-!
# Locks that do not run out

A part that locks the mutex of the totals waits for as long as it takes. The countdown of its task is
below zero, so no tick ends the sleep, and nobody wakes the task but by an unlock. So its call never
finds that its time is over.
-/

namespace Rtos

open Pipeline

namespace Station

def locking : Station → Option Phase
  | calls (.enters ..) ph | calls .opens ph => some ph
  | _ => none

variable {station : Station} {x : Spot} {ph ph' : Phase} {β : Type} {call : KernelCall β} {next : β → Spot}

theorem part_of_locking (h : station.locking = some ph) :
    station.spot.part = .filter ∨ station.spot.part = .monitor := by
  cases station with
  | stands => cases h
  | calls x ph => cases x <;> cases h <;> first | exact .inl rfl | exact .inr rfl

theorem locks_of_locking (does : x.deed objects = .call call next)
    (h : (calls x ph).locking = some ph') : ph = ph' ∧ call.locks = some objects.totals := by
  cases x <;> cases h <;> cases does <;> exact ⟨rfl, rfl⟩

theorem not_hasPassed (h : station.locking = some ph) : ¬ station.HasPassed := by
  cases station with
  | stands => cases h
  | calls x ph => cases x <;> cases h <;> exact id

end Station

/-- A section of a lock without a time limit is not late, and puts its task to sleep without end if it
does. -/
theorem KernelCall.May.lasts {me : TaskId} {γ β : Type} {call : KernelCall γ} {ph : Phase} {a : Action β}
    {b : β} {c c' : Core} {m : MutexId} (may : call.May me ph a) (locks : call.locks = some m)
    (serves : c.kernel.Serves me) (old : me.index < c.kernel.tasks.length)
    (lasts : ph.blocked ≠ none → c.kernel.Lasts me) (result : a.toSection c = .ok b c') :
    (∀ w, a.tried b ≠ some (w, .timedOut)) ∧ ((ph.after ⟨a, b⟩).blocked ≠ none → c'.kernel.Lasts me) := by
  have settle (limit : ∀ t n, a.Makes (.block t n) → n = waitForever)
      (back : ∀ w u, a.resumes = some (w, u) → u = me ∧ c.kernel.Lasts u) :
      (∀ w, a.tried b ≠ some (w, .timedOut)) ∧
        ((ph.after ⟨a, b⟩).blocked ≠ none → c'.kernel.Lasts me) := by
    constructor
    · intro w tried
      obtain ⟨u, resumes, late⟩ := (Action.late_iff result tried limit).1 rfl
      exact (back w u resumes).2.not_late late
    · intro blocked
      obtain ⟨⟨w, u⟩, blocked⟩ := Option.ne_none_iff_exists'.1 blocked
      have tried : a.tried b = some (w, .asleep u) := Phase.blocked_after.1 blocked
      obtain rfl : u = me := by
        cases Action.dozes result tried with
        | sleepsOn resumes => exact (back w u resumes).1
        | asleep _ _ _ current => exact Option.some.inj (current.symm.trans serves.2)
      exact Action.lasts_of_tried result tried limit old fun resumes _ => (back w u resumes).2
  cases may with
  | locks m' =>
    cases locks
    exact settle (fun _ _ makes => makes) fun _ _ resumes => nomatch resumes
  | relocks m' _ blocked =>
    cases locks
    refine settle (fun _ _ makes => makes) ?_
    rintro _ _ ⟨⟩
    exact ⟨rfl, lasts fun none => by cases blocked.symm.trans none⟩
  | _ => cases locks

namespace Scene

/-- No lock of the totals has run out, and a part that is blocked there sleeps without end. -/
structure Patient (s : Scene) : Prop where
  inTime : ∀ part ph, (s.station part).locking = some ph →
    ∀ w, ph.last.bind Outcome.tried ≠ some (w, .timedOut)
  lasts : ∀ part ph, (s.station part).locking = some ph → ph.blocked ≠ none →
    s.core.kernel.Lasts part.task

namespace Patient

variable {s s' : Scene} {part : Part} {new : Station} {c : Core} {owes : Prop} {t : Totals} {j : Journal}

theorem goesOn (h : s.Patient) (lasts : ∀ other ph, other ≠ part → (s.station other).locking = some ph →
      s.core.kernel.Lasts other.task → c.kernel.Lasts other.task)
    (mine : ∀ ph, new.locking = some ph → (∀ w, ph.last.bind Outcome.tried ≠ some (w, .timedOut)) ∧
      (ph.blocked ≠ none → c.kernel.Lasts part.task)) :
    Patient ⟨c, (s.setStation part new).station, owes, t, j⟩ := by
  have both (other : Part) (ph : Phase)
      (locking : ((s.setStation part new).station other).locking = some ph) :
      (∀ w, ph.last.bind Outcome.tried ≠ some (w, .timedOut)) ∧
        (ph.blocked ≠ none → c.kernel.Lasts other.task) := by
    by_cases is : other = part
    · subst is
      rw [station_setStation] at locking
      exact mine ph locking
    · rw [station_setStation_of_ne is] at locking
      exact ⟨h.inTime other ph locking, fun blocked =>
        lasts other ph is locking (h.lasts other ph locking blocked)⟩
  exact ⟨fun other ph locking => (both other ph locking).1, fun other ph locking =>
    (both other ph locking).2⟩

theorem turn (h : s.Patient) (tidy : s.Tidy) (drains : s.Drains) (turn : s.Turn s') : s'.Patient := by
  cases turn with
  | rests c owes still keeps => exact ⟨h.inTime, still ▸ h.lasts⟩
  | begins part x call next owes here does =>
    refine h.goesOn (fun _ _ _ _ lasts => lasts) fun ph locking => ?_
    obtain rfl := (Station.locks_of_locking does locking).1
    exact ⟨fun w => nofun, fun blocked => (blocked rfl).elim⟩
  | acts part x call next a b ph c owes here does may serves result =>
    have gentle : a.targets = none ∧ ¬ a.exits := by
      cases may <;> exact ⟨rfl, nofun⟩
    refine h.goesOn (fun other ph' is locking lasts => ?_) fun ph' locking => ?_
    · refine lasts.act result (gentle.1 ▸ nofun) (fun exits => (gentle.2 exits).elim) fun _ _ _ current => ?_
      have task : other.task = part.task := Option.some.inj (current.symm.trans serves.2)
      have place := tidy.places other ▸ Station.part_of_locking locking
      rcases Part.eq_of_task task is with ⟨rfl, rfl⟩ | ⟨rfl, rfl⟩
      · exact absurd place (by decide)
      · -- While the routine runs, the filter waits for it.
        refine Station.not_hasPassed locking (drains.nested ?_)
        rw [here]
        rintro ⟨⟩
    · obtain ⟨rfl, locks⟩ := Station.locks_of_locking does locking
      have before : (s.station part).locking = some ph := by
        rw [here]
        cases x <;> cases locking <;> rfl
      have old : part.task.index < s.core.kernel.tasks.length := by
        rw [tidy.furnished.tasks]
        cases part <;> decide
      exact may.lasts locks serves old (h.lasts part ph before) result
  | finishes part x call next b ph owes here does ends =>
    exact h.goesOn (fun _ _ _ _ lasts => lasts) nofun
  | owns part x f next owes here does => exact h.goesOn (fun _ _ _ _ lasts => lasts) nofun
  | notes part x n next owes here does => exact h.goesOn (fun _ _ _ _ lasts => lasts) nofun
  | kicks x call next ph here does rules off => exact h.goesOn (fun _ _ _ _ lasts => lasts) nofun
  | hangsUp owes ended => exact h.goesOn (fun _ _ _ _ lasts => lasts) nofun
  | interrupts a b c port result =>
    refine ⟨h.inTime, fun part ph locking blocked => ?_⟩
    have lasts := h.lasts part ph locking blocked
    cases a with
    | tick | switch => exact lasts.act result nofun nofun fun _ makes => makes.elim
    | _ => cases port

end Patient

end Scene

end Rtos
