import Rtos.Proofs.FirmwarePlant

/-!
# The books of the firmware

The code that boots comes to the plant at its start. So in every run of the firmware no fault is met,
and the books are kept.
-/

namespace Rtos

open Pipeline

namespace Firmware

variable {w w' : Firmware}

set_option maxRecDepth 100000 in
theorem boots_plant : Program.boots 400 Pipeline.boot {} [] =
    some ((System.run Script.plant).core,
      [.sampler objects, .filter objects, .monitor objects, .idle]) := by
  with_unfolding_all rfl

set_option maxRecDepth 100000 in
theorem core_started : (Plant.started {}).core = (System.run Script.plant).core := by
  have clock : (System.run Script.plant).core.clock = {} := by with_unfolding_all rfl
  rw [Plant.started, ← clock]

theorem boot_eq {n : Nat} (h : boot n = some w) : w =
    { core := (Plant.started {}).core
      thread := fun t =>
        ([Entry.sampler objects, .filter objects, .monitor objects, .idle][t.index]?.getD .idle).program } := by
  obtain ⟨⟨c, entries⟩, booted, rfl⟩ := Option.map_eq_some_iff.1 h
  have longer := Program.boots_add booted 400
  rw [Nat.add_comm, Program.boots_add boots_plant, Option.some.injEq, Prod.mk.injEq] at longer
  obtain ⟨rfl, rfl⟩ := longer
  rw [core_started]

theorem shows_started {n : Nat} (h : boot n = some w) : w.Shows (Plant.started {}) := by
  have same := boot_eq h
  subst same
  refine ⟨rfl, rfl, rfl, fun t known => ?_, fun t other => ?_⟩
  · rcases known with rfl | rfl | rfl
    · exact ⟨.sampler, .done, _, .sampler, .stands (.asks 0), (Program.bind_done _).symm⟩
    · exact ⟨.filter, .done, _, .filter rfl, .stands .awaits, (Program.bind_done _).symm⟩
    · exact ⟨.monitor, .done, _, .monitor, .stands .rests, (Program.bind_done _).symm⟩
  · obtain ⟨i⟩ := t
    have idle : ([Entry.sampler objects, .filter objects, .monitor objects, .idle][i]?.getD .idle) =
        .idle := by
      rcases i with _ | _ | _ | _ | i
      · exact (other (.inl rfl)).elim
      · exact (other (.inr (.inl rfl))).elim
      · exact (other (.inr (.inr rfl))).elim
      · rfl
      · rfl
    show (Job.stands .waits).IsLeft (Entry.program _)
    rw [idle]
    exact .stands .waits

/-- Every run of the firmware is one of the plant. -/
theorem Runs.shown (h : w.Runs) : ∃ p : Plant, p.Runs ∧ w.Shows p := by
  induction h with
  | boots n w booted => exact ⟨_, .starts {}, shows_started booted⟩
  | step before step ih =>
    obtain ⟨p, runs, shows'⟩ := ih
    exact shows'.step runs step

end Firmware

end Rtos
