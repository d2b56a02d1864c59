import Mathlib.Logic.Function.Basic
import Rtos.Pipeline
import Rtos.Proofs.Queued

/-!
# The journal of the pipeline

What an onlooker writes down who sees the messages that come onto queues and off them, the totals before
and after each piece of work on them, and the notes. The onlooker knows on whose thread all this
happens, and nothing of the code there.
-/

namespace Rtos

namespace Pipeline

def objects : Pipeline := ⟨⟨0⟩, ⟨1⟩, ⟨2⟩, ⟨0⟩⟩

def samplerTask : TaskId := ⟨0⟩

def filterTask : TaskId := ⟨1⟩

def monitorTask : TaskId := ⟨2⟩

def idleTask : TaskId := ⟨3⟩

end Pipeline

open Pipeline

structure Sample where
  buffer : MessageId
  reading : UInt32
  deriving DecidableEq

/-- The eight bits of the reading that count. -/
def Sample.value (x : Sample) : UInt32 := x.reading >>> 24

def Message.sample (m : Message) : Sample :=
  ⟨m.id, wordOfBytes ((m.payload.drop tagBytes).take 4)⟩

def total (values : List UInt32) : Nat := values.foldr (fun v n => v.toNat + n) 0

theorem total_concat (values : List UInt32) (v : UInt32) :
    total (values ++ [v]) = total values + v.toNat := by
  induction values with
  | nil => exact Nat.add_comm ..
  | cons w values ih =>
    have first (l : List UInt32) : total (w :: l) = w.toNat + total l := rfl
    rw [List.cons_append, first, first, ih, Nat.add_assoc]

/-- How many values there are, and their sum, as the counters have them. -/
def tally (values : List UInt32) : UInt32 × UInt32 :=
  (UInt32.ofNat values.length, UInt32.ofNat (total values))

theorem tally_concat (values : List UInt32) (v : UInt32) :
    tally (values ++ [v]) = ((tally values).1 + 1, (tally values).2 + v) := by
  rw [tally, total_concat, List.length_append, UInt32.ofNat_add, UInt32.ofNat_add, UInt32.ofNat_toNat]
  rfl

/-- What is in the hands in which `ids` were before the section. -/
def Outcome.hand (o : Outcome) (ids : List MessageId) : List MessageId :=
  match o.put with
  | some (_, m) => ids.erase m.id
  | none => (o.taken.map (·.2.id)).toList ++ ids

structure Journal where
  /-- What came onto the work queue. -/
  sampled : List Sample := []
  /-- What was taken off the transmit queue. -/
  sent : List Sample := []
  /-- The buffers that each task took off a queue and has put on none since. -/
  hands : TaskId → List MessageId := fun _ => []
  /-- What the filter added to the sum, value by value. -/
  added : List UInt32 := []
  /-- The samples and the sum that the monitor took out of the totals since its last report. -/
  taken : UInt32 × UInt32 := (0, 0)
  /-- Each report, with the samples and the sum that were taken for it. -/
  reports : List ((UInt32 × UInt32) × Note) := []

namespace Journal

variable (j : Journal) {t : TaskId} {before after : Totals}

/-- A section is carried out on the thread of task `t`. -/
def acts (t : TaskId) (o : Outcome) : Journal :=
  { j with
    sampled := j.sampled ++ (o.putOn objects.work).map Message.sample
    sent := j.sent ++ (o.takenFrom objects.transmit).map Message.sample
    hands := Function.update j.hands t (o.hand (j.hands t)) }

/-- Task `t` works on the totals. If the filter counts nothing, then it adds to the sum. -/
def owns (t : TaskId) (before after : Totals) : Journal :=
  if t = filterTask ∧ after.samples = before.samples ∧ after.sent = before.sent then
    { j with added := j.added ++ [after.sum - before.sum] }
  else if t = monitorTask then
    { j with taken := (j.taken.1 + (before.samples - after.samples), j.taken.2 + (before.sum - after.sum)) }
  else j

def notes (n : Note) : Journal :=
  { j with taken := (0, 0), reports := j.reports ++ [(j.taken, n)] }

theorem hands_acts {o : Outcome} : (j.acts t o).hands t = o.hand (j.hands t) :=
  Function.update_self ..

theorem hands_acts_of_ne {o : Outcome} {u : TaskId} (h : u ≠ t) : (j.acts t o).hands u = j.hands u :=
  Function.update_of_ne h ..

@[simp] theorem sampled_owns : (j.owns t before after).sampled = j.sampled := by
  unfold owns
  split_ifs <;> rfl

@[simp] theorem sent_owns : (j.owns t before after).sent = j.sent := by
  unfold owns
  split_ifs <;> rfl

@[simp] theorem hands_owns : (j.owns t before after).hands = j.hands := by
  unfold owns
  split_ifs <;> rfl

theorem owns_adds {value : UInt32} :
    j.owns filterTask before { before with sum := before.sum + value } =
      { j with added := j.added ++ [value] } := by
  rw [owns, if_pos ⟨rfl, rfl, rfl⟩]
  dsimp only
  rw [UInt32.add_comm, UInt32.add_sub_cancel]

theorem owns_counts {sum sent : UInt32} :
    j.owns filterTask before ⟨sum, before.samples + 1, sent⟩ = j := by
  rw [owns, if_neg fun h => absurd h.2.1 (by simp), if_neg (by decide)]

theorem owns_tallies {sum samples : UInt32} :
    j.owns filterTask before ⟨sum, samples, before.sent + 1⟩ = j := by
  rw [owns, if_neg fun h => absurd h.2.2 (by simp), if_neg (by decide)]

theorem owns_takes : j.owns monitorTask before after = { j with
    taken := (j.taken.1 + (before.samples - after.samples), j.taken.2 + (before.sum - after.sum)) } := by
  rw [owns, if_neg fun h => absurd h.1 (by decide), if_pos rfl]

theorem owns_takesSamples (none : j.taken = (0, 0)) :
    j.owns monitorTask before { before with samples := 0 } =
      { j with taken := (before.samples, 0) } := by
  rw [owns_takes, none]
  simp

theorem owns_takesSum {samples : UInt32} (half : j.taken = (samples, 0)) :
    j.owns monitorTask before { before with sum := 0 } =
      { j with taken := (samples, before.sum) } := by
  rw [owns_takes, half]
  simp

theorem owns_looks : j.owns monitorTask before before = j := by
  rw [owns_takes]
  simp

theorem added_owns_monitor : (j.owns monitorTask before after).added = j.added := by
  rw [owns_takes]

end Journal

end Rtos
