import Rtos.Proofs.PlantFaults

/-!
# The books of the pipeline

What the journal of a run says together with the queues and the totals: where the eight buffers are,
in which order they are sent, and which samples are in which report.
-/

namespace Rtos

open Pipeline

namespace Station

theorem hand_of_monitor (station : Station) (light : station.Light)
    (monitor : station.spot.part = .monitor) : station.hand = [] := by
  cases station with
  | stands x => cases x <;> first | rfl | cases monitor
  | calls x ph =>
    have keeps : x.keeps = [] := by cases x <;> first | rfl | cases monitor
    rcases light with empty | ⟨carries, -⟩
    · rw [hand, keeps, empty]
      rfl
    · cases x <;> first | exact carries.elim | cases monitor

end Station

namespace Scene

variable {s : Scene}

end Scene

namespace Plant

variable {p : Plant}

/-- The onlooker knows of all buffers that are on no queue. -/
theorem Runs.perm_hands (h : p.Runs) : ((p.hands Part.all).map Message.id).Perm
    (p.journal.hands samplerTask ++ p.journal.hands filterTask) := by
  have sound := h.sound
  have monitor : (p.jobs .monitor).hand = [] :=
    (p.jobs .monitor).hand_station ▸ Station.hand_of_monitor _ (sound.drains.light .monitor)
      (h.tidy.places .monitor)
  have idle : (p.jobs .idle).hand = [] := by
    have fits := h.inOrder.fits .idle
    cases job : p.jobs .idle with
    | stands x =>
      rw [job] at fits
      cases fits with
      | stands _ at_ => cases x <;> first | rfl | cases at_
    | calls x call next rest ph =>
      rw [job] at fits
      cases fits with
      | calls _ _ _ _ _ at_ does =>
        cases x
        case waits => cases does
        all_goals cases at_
  refine .trans (.of_eq ?_) ((sound.handed samplerTask).append (sound.handed filterTask)).symm
  have ids (part : Part) : (p.scene.station part).ids = (p.jobs part).hand.map Message.id :=
    congrArg (List.map Message.id) (p.jobs part).hand_station
  simp [hands, Part.all, monitor, idle, Scene.idsOn, Scene.idsOf, ids, Part.task, samplerTask,
    filterTask, monitorTask, idleTask]

/-- When nobody holds the mutex of the totals, they are the tally of what was not reported. -/
theorem Runs.tallies (h : p.Runs) : ∃ (reported : List (List UInt32)) (told rest : List UInt32),
    p.journal.added = reported.flatten ++ told ++ rest ∧
    p.journal.reports.map Prod.fst = reported.map tally ∧
    (p.core.kernel.hold objects.totals = (none, 0) →
      p.journal.taken = tally told ∧ (p.totals.samples, p.totals.sum) = tally rest) := by
  have sound := h.sound
  obtain ⟨reported, told, rest, tallied⟩ := sound.tallies
  refine ⟨reported, told, rest, tallied.added, tallied.reports, fun free => ?_⟩
  have idle (part : Part) : ¬ (p.scene.station part).spot.Works := by
    intro works
    have hold := sound.guarded.owner part (.of_works works)
    exact absurd (hold.symm.trans free) (by simp)
  have samples := tallied.samples
  rw [Station.uncounted_eq (idle .filter), UInt32.add_zero] at samples
  obtain ⟨taken, sum⟩ := tallied.monitor.settled (idle .monitor)
  exact ⟨taken, Prod.ext samples sum⟩

end Plant

end Rtos
