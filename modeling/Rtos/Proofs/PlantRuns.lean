import Rtos.Proofs.PlantHands
import Rtos.Proofs.PlantLocks

/-!
# What holds in every run of the plant

The invariants of the scene, from the moment at which the scheduler is started: the shape of buffers,
the queue that the routine empties, the stream of samples, the mutex of the totals, the tallies, the
hands and the locks.
-/

namespace Rtos

open Pipeline

def Kernel.ElectsKnown (k : Kernel) : Prop := ∀ t, k.next = some t → t.index < k.tasks.length

theorem Kernel.ElectsKnown.action {β : Type} {a : Action β} {b : β} {c c' : Core}
    (h : c.kernel.ElectsKnown) (result : a.toSection c = .ok b c') (recruits : a.recruits = false) :
    c'.kernel.ElectsKnown := by
  intro t next
  cases Action.taskStep result with
  | turns came =>
    cases came with
    | rests same => exact length_of_roster same.roster ▸ h t (same.next ▸ next)
    | decides ch _ _ after =>
      rw [after.next] at next
      split at next
      · exact length_of_roster after.roster ▸ h t next
      · next chosen choice =>
        split at next
        · cases next
        · cases next
          exact TaskTable.index_lt_of_isRunnable (ReadyList.isRunnable_of_choose choice)
  | switches target _ took => exact nomatch took.next.symm.trans next
  | recruits is => cases is.symm.trans recruits

namespace Scene

structure Sound (s : Scene) : Prop where
  shaped : s.Shaped
  drains : s.Drains
  flows : s.Flows
  guarded : s.Guarded
  tallies : s.Tallies
  countsSent : s.CountsSent
  handed : s.Handed
  patient : s.Patient
  elects : s.core.kernel.ElectsKnown

theorem Sound.turn {s s' : Scene} (h : s.Sound) (tidy : s.Tidy) (turn : s.Turn s') : s'.Sound where
  shaped := h.shaped.turn tidy turn
  drains := h.drains.turn tidy turn
  flows := h.flows.turn tidy h.shaped h.drains turn
  guarded := h.guarded.turn tidy turn
  tallies := by
    obtain ⟨reported, told, rest, tallied⟩ := h.tallies
    exact tallied.turn h.guarded tidy turn
  countsSent := h.countsSent.turn tidy turn
  handed := h.handed.turn tidy h.drains turn
  patient := h.patient.turn tidy h.drains turn
  elects := by
    cases turn with
    | rests c owes still keeps => exact still ▸ h.elects
    | acts part x call next a b ph c owes here does may serves result =>
      exact h.elects.action result (by cases may <;> rfl)
    | interrupts a b c port result =>
      exact h.elects.action result (by cases a <;> first | rfl | cases port)
    | _ => exact h.elects

end Scene

namespace Plant

variable {p : Plant}

theorem kernel_started (clock : Clock) :
    (started clock).core.kernel = (System.run Script.plant).core.kernel := by
  dsimp only [started]

/-- When the scheduler is started, all buffers are in the pool. -/
theorem parked_started (clock : Clock) {q : QueueId} (other : q ≠ objects.pool) :
    (started clock).core.kernel.parked q = [] := by
  rw [kernel_started]
  have queues : (System.run Script.plant).core.kernel.queues.length = 3 := by decide +kernel
  have idle (i : Nat) (hi : i = 1 ∨ i = 2) :
      ((System.run Script.plant).core.kernel.parked ⟨i⟩).length = 0 := by
    rcases hi with rfl | rfl <;> decide +kernel
  obtain ⟨i⟩ := q
  by_cases known : i < 3
  · have pool : i ≠ 0 := fun zero => other (congrArg QueueId.mk zero)
    exact List.eq_nil_of_length_eq_zero (idle i (by omega))
  · have none : (System.run Script.plant).core.kernel.queues[i]? = none :=
      List.getElem?_eq_none (by omega)
    have queued : (System.run Script.plant).core.kernel.queued ⟨i⟩ = [] := by
      rw [Kernel.queued, none]
      rfl
    rw [Kernel.parked, queued]
    rfl

theorem fits_started (clock : Clock) :
    ∀ m ∈ (started clock).core.kernel.parked objects.pool, m.Fits := by
  rw [kernel_started]
  have blank : ∀ m ∈ (System.run Script.plant).core.kernel.parked ⟨0⟩, m.payload.length = 20 := by
    decide +kernel
  exact blank

theorem hand_started (clock : Clock) (part : Part) : ((started clock).scene.station part).hand = [] := by
  cases part <;> rfl

theorem sound_started (clock : Clock) : (started clock).scene.Sound where
  shaped := by
    have work : objects.work ≠ objects.pool := by decide
    refine ⟨fun q m hm => ?_, fun m hm => ?_, fun part => ?_⟩
    · by_cases pool : q = objects.pool
      · exact fits_started clock m (pool ▸ hm)
      · cases (parked_started clock pool ▸ hm : m ∈ [])
    · cases (parked_started clock work ▸ hm : m ∈ [])
    · exact Station.shaped_of_empty (hand_started clock part) (by cases part <;> trivial)
  drains := by
    refine ⟨fun part => ?_, fun running => (running rfl).elim, .inl (parked_started clock (by decide))⟩
    cases part <;> exact .stands _
  flows := by
    have work := @parked_started clock objects.work (by decide)
    have transmit := @parked_started clock objects.transmit (by decide)
    have none (part : Part) (leg : Leg) : ((started clock).scene.station part).samples leg = [] :=
      Station.samples_of_empty (hand_started clock part)
    have core : (started clock).scene.core = (started clock).core := rfl
    refine ⟨?_, ?_⟩
    · simp only [Scene.passed, Scene.coming, none, core, work, transmit]
      rfl
    · simp only [Scene.passed, none, core, transmit]
      rfl
  guarded := by
    have free : (System.run Script.plant).core.kernel.hold ⟨0⟩ = (none, 0) := by decide +kernel
    rw [← kernel_started clock] at free
    refine ⟨fun part mine => ?_, fun _ => free⟩
    cases part <;> exact mine.elim
  tallies := ⟨[], [], [], rfl, rfl, fun _ h => (by cases h), rfl, ⟨rfl, rfl, rfl⟩⟩
  countsSent := ⟨0, rfl, rfl⟩
  handed u := by
    have none (part : Part) : (started clock).scene.idsOf u part = [] := by
      rw [Scene.idsOf, Station.ids, hand_started]
      exact ite_self _
    exact .of_eq (List.flatMap_eq_nil_iff.2 fun part _ => none part).symm
  patient := by
    have idle (part : Part) : ((started clock).scene.station part).locking = none := by
      cases part <;> rfl
    refine ⟨fun part _ here => ?_, fun part _ here => ?_⟩
    · cases (idle part).symm.trans here
    · cases (idle part).symm.trans here
  elects := by
    have known : ∀ t ∈ (System.run Script.plant).core.kernel.next,
        t.index < (System.run Script.plant).core.kernel.tasks.length := by decide +kernel
    rw [← kernel_started clock] at known
    exact known

theorem Runs.sound (h : p.Runs) : p.scene.Sound := by
  induction h with
  | starts clock => exact sound_started clock
  | step before step ih => exact ih.turn before.tidy (before.turn step)

end Plant

end Rtos
