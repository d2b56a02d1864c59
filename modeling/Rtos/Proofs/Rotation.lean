import Mathlib.Data.List.Rotate
import Rtos.Proofs.RoundRobin
import Rtos.Turns

/-!
# Decision after decision

The most urgent tasks that can run, by age, are the `band`. While no task changes its state, one
decision after another, each with the switch that it asks for, goes round the band: from where the
current task stands in it, or from the oldest task if the current one is not among them.
-/

namespace Rtos

namespace Kernel

instance (k : Kernel) (t : TaskId) : Decidable (k.Foremost t) :=
  decidable_of_iff (TaskTable.isRunnable k.tasks t ∧ ∀ i < k.tasks.length,
      TaskTable.isRunnable k.tasks ⟨i⟩ →
        TaskTable.priority k.tasks ⟨i⟩ ≤ TaskTable.priority k.tasks t)
    ⟨fun ⟨runnable, highest⟩ =>
        ⟨runnable, fun t' ht' => highest t'.index (TaskTable.index_lt_of_isRunnable ht') ht'⟩,
      fun h => ⟨h.runnable, fun i _ => h.highest ⟨i⟩⟩⟩

/-- The most urgent tasks among those that can run, the oldest first. -/
def band (k : Kernel) : List TaskId :=
  ((List.range k.tasks.length).map TaskId.mk).filter fun t => k.Foremost t

/-- The place in the band that the current task leaves the processor to. The last place leaves it to
the first. -/
def place (k : Kernel) : Nat :=
  match k.current with
  | some t => if t ∈ k.band then k.band.idxOf t + 1 else 0
  | none => 0

end Kernel

namespace TaskId

variable {l : List TaskId} {c p : TaskId} {i : Nat}

theorem getElem?_zero_of_oldest (sorted : l.Pairwise fun a b => a.index < b.index) (listed : p ∈ l)
    (oldest : ∀ t ∈ l, p.index ≤ t.index) : l[0]? = some p := by
  cases l with
  | nil => exact absurd listed List.not_mem_nil
  | cons a l =>
    rcases List.mem_cons.1 listed with rfl | behind
    · rfl
    · have younger := (List.pairwise_cons.1 sorted).1 p behind
      have bound := oldest a List.mem_cons_self
      omega

theorem getElem?_succ_of_nearest (sorted : l.Pairwise fun a b => a.index < b.index)
    (here : l[i]? = some c) (listed : p ∈ l) (later : c.index < p.index)
    (nearest : ∀ t ∈ l, c.index < t.index → p.index ≤ t.index) : l[i + 1]? = some p := by
  have below := List.pairwise_iff_getElem.1 sorted
  obtain ⟨hi, rfl⟩ := List.getElem?_eq_some_iff.1 here
  obtain ⟨j, hj, rfl⟩ := List.mem_iff_getElem.1 listed
  have behind : i < j := by
    by_contra ahead
    rcases Nat.lt_or_eq_of_le (Nat.le_of_not_lt ahead) with less | rfl
    · have := below j i hj hi less
      omega
    · exact Nat.lt_irrefl _ later
  rcases Nat.lt_or_eq_of_le (Nat.succ_le_of_lt behind) with less | same
  · have between : i + 1 < l.length := Nat.lt_trans less hj
    have first := below i (i + 1) hi between (Nat.lt_succ_self i)
    have second := below (i + 1) j between hj less
    have bound := nearest l[i + 1] (List.getElem_mem between) first
    omega
  · subst same
    exact List.getElem?_eq_getElem hj

theorem length_of_youngest (sorted : l.Pairwise fun a b => a.index < b.index)
    (here : l[i]? = some c) (youngest : ∀ t ∈ l, t.index ≤ c.index) : i + 1 = l.length := by
  obtain ⟨hi, rfl⟩ := List.getElem?_eq_some_iff.1 here
  rcases Nat.lt_or_eq_of_le (Nat.succ_le_of_lt hi) with less | same
  · have after := List.pairwise_iff_getElem.1 sorted i (i + 1) hi less (Nat.lt_succ_self i)
    have bound := youngest l[i + 1] (List.getElem_mem less)
    omega
  · exact same

end TaskId

namespace Kernel

variable {k k' : Kernel} {t p : TaskId} {i : Nat}

theorem mem_band : t ∈ k.band ↔ k.Foremost t := by
  rw [band, List.mem_filter, decide_eq_true_eq, and_iff_right_iff_imp]
  intro foremost
  have known := TaskTable.index_lt_of_isRunnable foremost.runnable
  exact List.mem_map.2 ⟨t.index, List.mem_range.2 known, rfl⟩

theorem band_sorted (k : Kernel) : k.band.Pairwise fun a b => a.index < b.index :=
  List.Pairwise.filter _ (List.pairwise_map.2 List.pairwise_lt_range)

theorem band_nodup (k : Kernel) : k.band.Nodup :=
  k.band_sorted.imp fun {a b} less (same : a = b) => Nat.lt_irrefl _ (same ▸ less)

theorem band_of_roster (roster : k'.roster = k.roster) : k'.band = k.band := by
  have rested : k'.roster = Change.rest.apply k.roster := roster
  have size : k'.tasks.length = k.tasks.length := length_of_roster rested
  have same (t : TaskId) : k'.Foremost t ↔ k.Foremost t :=
    ⟨fun h => h.of_roster roster.symm, fun h => h.of_roster roster⟩
  simp only [band, size, same]

theorem place_of_current (current : k.current = k.band[i]?) (listed : i < k.band.length) :
    k.place = i + 1 := by
  rw [List.getElem?_eq_getElem listed] at current
  simp only [place, current, if_pos (List.getElem_mem listed)]
  rw [k.band_nodup.idxOf_getElem]

theorem place_of_outside (outside : ∀ t, k.current = some t → t ∉ k.band) : k.place = 0 := by
  unfold place
  split
  · next t current => exact if_neg (outside t current)
  · rfl

theorem Succeeds.getElem?_place (h : k.Succeeds p) : k.band[k.place % k.band.length]? = some p := by
  have peer {a t : TaskId} (foremost : k.Foremost a) (ht : t ∈ k.band) : k.Peers a t :=
    have other := mem_band.1 ht
    ⟨foremost.runnable, other.runnable, UInt8.le_antisymm (foremost.highest t other.runnable)
      (other.highest a foremost.runnable)⟩
  have listed {a : TaskId} (foremost : k.Foremost a) (peers : k.Peers a p) : p ∈ k.band :=
    mem_band.2 ⟨peers.right, fun t ht => peers.same ▸ foremost.highest t ht⟩
  have here {c : TaskId} (current : k.current = some c) (foremost : k.Foremost c) :
      k.place = k.band.idxOf c + 1 ∧ k.band[k.band.idxOf c]? = some c := by
    have hc := mem_band.2 foremost
    refine ⟨by simp only [place, current, if_pos hc], ?_⟩
    rw [List.getElem?_eq_getElem (List.idxOf_lt_length_of_mem hc), List.getElem_idxOf]
  cases h with
  | behind c current foremost peers later nearest =>
    obtain ⟨place, at_c⟩ := here current foremost
    have next := TaskId.getElem?_succ_of_nearest k.band_sorted at_c (listed foremost peers) later
      fun t ht => nearest t (peer foremost ht)
    rwa [place, Nat.mod_eq_of_lt (List.getElem?_eq_some_iff.1 next).1]
  | around c current foremost peers youngest oldest =>
    obtain ⟨place, at_c⟩ := here current foremost
    rw [place, TaskId.length_of_youngest k.band_sorted at_c fun t ht =>
      youngest t (peer foremost ht), Nat.mod_self]
    exact TaskId.getElem?_zero_of_oldest k.band_sorted (listed foremost peers) fun t ht =>
      oldest t (peer foremost ht)
  | anew breaks foremost oldest =>
    rw [place_of_outside fun t current ht => breaks t current (mem_band.1 ht), Nat.zero_mod]
    exact TaskId.getElem?_zero_of_oldest k.band_sorted (mem_band.2 foremost) fun t ht =>
      oldest t (peer foremost ht)

end Kernel

namespace Kernel

/-- `k'` is `k` one turn later: the task whose place it is has the processor, and all else that
scheduling looks at is as it was. -/
structure Passes (k : Kernel) (p : TaskId) (k' : Kernel) : Prop where
  place : k.band[k.place % k.band.length]? = some p
  current : k'.current = some p
  roster : k'.roster = k.roster
  ready : k'.ready = k.ready

namespace Passes

variable {k k' : Kernel} {p t : TaskId}

theorem band (h : k.Passes p k') : k'.band = k.band := band_of_roster h.roster

theorem foremost (h : k.Passes p k') : k.Foremost p := mem_band.1 (List.mem_of_getElem? h.place)

theorem place_eq (h : k.Passes p k') : k'.place = k.place % k.band.length + 1 := by
  have inside := (List.getElem?_eq_some_iff.1 h.place).1
  rw [← h.band] at inside
  have current : k'.current = k'.band[k.place % k'.band.length]? := by
    rw [h.current, h.band, h.place]
  rw [place_of_current current inside, h.band]

theorem inLine (h : k.Passes p k') (before : k.InLine) : k'.InLine :=
  have rested : k'.roster = Change.rest.apply k.roster := h.roster
  before.inPlace (.of_roster rested h.ready)

theorem known (h : k.Passes p k') (current : k'.current = some t) : t.index < k'.tasks.length := by
  have rested : k'.roster = Change.rest.apply k.roster := h.roster
  cases h.current.symm.trans current
  rw [length_of_roster rested]
  exact TaskTable.index_lt_of_isRunnable h.foremost.runnable

theorem up (h : k.Passes p k') : k'.AnyUp := ⟨p, (h.foremost.of_roster h.roster).runnable⟩

end Passes

end Kernel

namespace Section

variable {c : Core}

theorem turn_total (inLine : c.kernel.InLine)
    (known : ∀ t, c.kernel.current = some t → t.index < c.kernel.tasks.length)
    (up : c.kernel.AnyUp) (sp : StackPointer) : ∃ p c₁ resumed c₂, schedule c = .ok () c₁ ∧
      switch sp c₁ = .ok resumed c₂ ∧ c.kernel.Passes p c₂.kernel := by
  obtain ⟨t, ht⟩ := up
  obtain ⟨p, choice⟩ := inLine.exists_choice ht
  have succeeds := inLine.succeeds choice
  obtain ⟨_, c₁, decided⟩ := schedule_total c
  have after := schedule_decides decided
  have roster : c₁.kernel.roster = c.kernel.roster := after.roster
  have size : c₁.kernel.tasks.length = c.kernel.tasks.length :=
    Kernel.length_of_roster after.roster
  have same : c₁.kernel.choice = some p := by
    rw [Kernel.choice_eq, roster, after.ready, after.current, ← Kernel.choice_eq, choice]
  have next : c₁.kernel.next = if c.kernel.current = some p then none else some p := by
    rw [after.next, same]
  have chosen : p.index < c.kernel.tasks.length :=
    TaskTable.index_lt_of_isRunnable (ReadyList.isRunnable_of_choose choice)
  obtain ⟨resumed, c₂, switched⟩ := switch_total (c := c₁) sp
    (fun t ht => size ▸ known t (after.current ▸ ht)) fun t ht => by
      rw [next] at ht
      split at ht
      · cases ht
      · exact size ▸ Option.some.inj ht ▸ chosen
  refine ⟨p, c₁, resumed, c₂, decided, switched, ?_⟩
  rcases switch_ok switched with ⟨none, -, rfl⟩ | ⟨target, took⟩
  · refine ⟨succeeds.getElem?_place, ?_, roster, after.ready⟩
    rw [none] at next
    split at next
    · next running => exact after.current.trans running
    · cases next
  · refine ⟨succeeds.getElem?_place, ?_, took.roster.trans roster, took.ready.trans after.ready⟩
    have elected := took.elected
    rw [next] at elected
    split at elected
    · cases elected
    · exact took.current.trans elected.symm

/-- The band is gone through place by place, and after the last place from the first again. -/
theorem turns_visit (inLine : c.kernel.InLine)
    (known : ∀ t, c.kernel.current = some t → t.index < c.kernel.tasks.length)
    (up : c.kernel.AnyUp) (sps : List StackPointer) : ∃ visited c', turns sps c = .ok visited c' ∧
      visited.length = sps.length ∧
      (∀ j < sps.length, visited[j]? = c.kernel.band[(c.kernel.place + j) % c.kernel.band.length]?) ∧
      c'.kernel.current = visited.getLast?.or c.kernel.current ∧
      c'.kernel.roster = c.kernel.roster := by
  -- After one turn the band is the same, and the current task has the next place in it.
  induction sps generalizing c with
  | nil => exact ⟨[], c, rfl, rfl, fun _ h => (Nat.not_lt_zero _ h).elim, rfl, rfl⟩
  | cons sp sps ih =>
    obtain ⟨p, c₁, resumed, c₂, decided, switched, passes⟩ := turn_total inLine known up sp
    obtain ⟨visited, c', rest, length, visits, last, still⟩ :=
      ih (passes.inLine inLine) (fun _ => passes.known) passes.up
    refine ⟨p :: visited, c', ?_, congrArg Nat.succ length, fun j hj => ?_, ?_,
      still.trans passes.roster⟩
    · refine bind_eq_ok.2 ⟨(), c₁, decided, bind_eq_ok.2 ⟨resumed, c₂, switched, ?_⟩⟩
      exact bind_eq_ok.2 ⟨p, c₂, currentTask_eq_ok.2 ⟨passes.current, rfl⟩,
        bind_eq_ok.2 ⟨visited, c', rest, rfl⟩⟩
    · cases j with
      | zero => exact passes.place.symm
      | succ j =>
        have here := visits j (Nat.lt_of_succ_lt_succ hj)
        rw [passes.band, passes.place_eq] at here
        rw [List.getElem?_cons_succ, here, Nat.add_assoc, Nat.mod_add_mod, Nat.add_comm 1 j]
    · rw [last, passes.current]
      cases visited with
      | nil => rfl
      | cons q visited => simp [List.getLast?_cons]

/-- So do ticks go round the band, as long as they count down nobody's sleep. -/
theorem rounds_rotate (inLine : c.kernel.InLine)
    (known : ∀ t, c.kernel.current = some t → t.index < c.kernel.tasks.length)
    (up : c.kernel.AnyUp) (awake : c.kernel.roster.map Task.tick = c.kernel.roster)
    {sps : List StackPointer} (some : sps ≠ []) : ∃ c', rounds sps c = .ok () c' ∧
      c'.kernel.roster = c.kernel.roster ∧ c'.kernel.current =
        c.kernel.band[(c.kernel.place + (sps.length - 1)) % c.kernel.band.length]? := by
  induction sps generalizing c with
  | nil => exact absurd rfl some
  | cons sp sps ih =>
    -- The tick wakes nobody, so the decision that it ends in is that of a turn.
    let counted : Core := { c with kernel := c.kernel.countTick }
    have same : counted.kernel.roster = c.kernel.roster :=
      Kernel.changes_countTick.roster.trans awake
    have rested : counted.kernel.roster = Change.rest.apply c.kernel.roster := same
    have size : counted.kernel.tasks.length = c.kernel.tasks.length := Kernel.length_of_roster rested
    have up : counted.kernel.AnyUp := by
      rwa [Kernel.AnyUp, ← Kernel.isRunnable_roster, same, Kernel.isRunnable_roster]
    obtain ⟨p, c₁, resumed, c₂, decided, switched, counts⟩ :=
      turn_total (inLine.inPlace (.of_roster rested rfl)) (fun t ht => size ▸ known t ht) up sp
    have band : counted.kernel.band = c.kernel.band := Kernel.band_of_roster same
    have seat : counted.kernel.place = c.kernel.place := by
      simp only [Kernel.place, band]
      rfl
    have passes : c.kernel.Passes p c₂.kernel :=
      ⟨by rw [← band, ← seat, counts.place], counts.current, counts.roster.trans same, counts.ready⟩
    have ticked : tick c = .ok () c₁ := bind_eq_ok.2 ⟨(), counted, rfl, decided⟩
    have first {c' : Core} (rest : rounds sps c₂ = .ok () c') : rounds (sp :: sps) c = .ok () c' :=
      bind_eq_ok.2 ⟨(), c₁, ticked, bind_eq_ok.2 ⟨resumed, c₂, switched, rest⟩⟩
    cases sps with
    | nil => exact ⟨c₂, first rfl, passes.roster, passes.current.trans passes.place.symm⟩
    | cons sp' sps =>
      obtain ⟨c', rest, still, last⟩ := ih (passes.inLine inLine) (fun _ => passes.known) passes.up
        (by rw [passes.roster, awake]) (List.cons_ne_nil _ _)
      refine ⟨c', first rest, still.trans passes.roster, ?_⟩
      rw [last, passes.band, passes.place_eq, Nat.add_assoc, Nat.mod_add_mod]
      congr 2
      simp only [List.length_cons, Nat.add_sub_cancel, Nat.add_comm 1]

end Section

/-- Equally urgent tasks get the processor in turn. With the ready list in order and a task that can
run, whatever was elected before: `k` decisions with their switches take the processor `k` places on
from the place of the current task in the band, or to place `k - 1` if the current task is not in the
band. So as many decisions as there are tasks in the band, wherever they begin, visit each of them
once, and none goes to a task that cannot run or is less urgent. -/
theorem Kernel.InLine.turns_rotate {c : Core} (inLine : c.kernel.InLine)
    (known : ∀ t, c.kernel.current = some t → t.index < c.kernel.tasks.length)
    (up : c.kernel.AnyUp) (sps : List StackPointer) :
    ∃ visited c', Section.turns sps c = .ok visited c' ∧ c'.kernel.roster = c.kernel.roster ∧
      (∀ i < c.kernel.band.length, c.kernel.current = c.kernel.band[i]? →
        c'.kernel.current = c.kernel.band[(i + sps.length) % c.kernel.band.length]?) ∧
      ((∀ t, c.kernel.current = some t → t ∉ c.kernel.band) → sps ≠ [] →
        c'.kernel.current = c.kernel.band[(sps.length - 1) % c.kernel.band.length]?) ∧
      visited.length = sps.length ∧ (∀ t ∈ visited, c.kernel.Foremost t) ∧
      ∀ j, j + c.kernel.band.length ≤ sps.length →
        ((visited.drop j).take c.kernel.band.length).Perm c.kernel.band := by
  obtain ⟨visited, c', result, length, visits, last, roster⟩ :=
    Section.turns_visit inLine known up sps
  have arrives (some : sps ≠ []) : c'.kernel.current =
      c.kernel.band[(c.kernel.place + (sps.length - 1)) % c.kernel.band.length]? := by
    have positive := List.length_pos_iff.2 some
    rw [last, ← visits _ (Nat.sub_lt positive Nat.one_pos), ← length, ← List.getLast?_eq_getElem?]
    cases hv : visited.getLast? with
    | none =>
      rw [List.getLast?_eq_none_iff] at hv
      rw [hv] at length
      exact absurd length.symm (Nat.ne_of_gt positive)
    | some t => rfl
  refine ⟨visited, c', result, roster, fun i hi current => ?_, fun outside some => ?_, length,
    fun t ht => ?_, fun j hj => ?_⟩
  · by_cases some : sps = []
    · subst some
      obtain rfl := List.length_eq_zero_iff.1 length
      rw [last, List.length_nil, Nat.add_zero, Nat.mod_eq_of_lt hi]
      exact current
    · have positive := List.length_pos_iff.2 some
      rw [arrives some, Kernel.place_of_current current hi]
      congr 2
      omega
  · rw [arrives some, Kernel.place_of_outside outside, Nat.zero_add]
  · obtain ⟨j, hj, rfl⟩ := List.mem_iff_getElem.1 ht
    have here := visits j (length ▸ hj)
    rw [List.getElem?_eq_getElem hj] at here
    exact Kernel.mem_band.1 (List.mem_of_getElem? here.symm)
  · -- The stretch is the band, read from where the first of these decisions goes.
    have turned : (visited.drop j).take c.kernel.band.length =
        c.kernel.band.rotate (c.kernel.place + j) := by
      apply List.ext_getElem?
      intro m
      by_cases inside : m < c.kernel.band.length
      · rw [List.getElem?_take_of_lt inside, List.getElem?_drop, visits _ (by omega),
          List.getElem?_rotate inside]
        congr 2
        omega
      · rw [List.getElem?_eq_none, List.getElem?_eq_none]
        · rw [List.length_rotate]
          omega
        · rw [List.length_take]
          omega
    exact turned ▸ List.rotate_perm ..

def Script.sleepsInTurn : List Move :=
  creates "a" 1 ++ creates "b" 1 ++ creates "c" 1 ++ creates "d" 0 ++ starts ++
    calls (.thread (some ⟨0⟩)) .schedule ++ .switches ::
    calls (.thread (some ⟨1⟩)) (.delay (-1))

/-- Three decisions go to the two others in turn. -/
theorem turns_rotate_sleepsInTurn :
    (System.run Script.sleepsInTurn).core.kernel.current = some ⟨1⟩ ∧
      (System.run Script.sleepsInTurn).core.kernel.band = [⟨0⟩, ⟨2⟩] ∧
      ∃ visited c', Section.turns [0, 0, 0] (System.run Script.sleepsInTurn).core = .ok visited c' ∧
        c'.kernel.current = some ⟨0⟩ ∧ (visited.take 2).Perm [⟨0⟩, ⟨2⟩] ∧
        ((visited.drop 1).take 2).Perm [⟨0⟩, ⟨2⟩] := by
  have hr := System.reachable_run Script.sleepsInTurn
  have current : (System.run Script.sleepsInTurn).core.kernel.current = some ⟨1⟩ := by decide +kernel
  have band : (System.run Script.sleepsInTurn).core.kernel.band = [⟨0⟩, ⟨2⟩] := by decide +kernel
  obtain ⟨visited, c', result, -, -, outside, -, -, windows⟩ := hr.inLine.turns_rotate
    (fun t ht => hr.coheres.current t ht) ⟨⟨0⟩, by decide +kernel⟩ [0, 0, 0]
  rw [current, band] at outside
  rw [band] at windows
  refine ⟨current, band, visited, c', result, outside (by decide) (by decide), ?_, ?_⟩
  · exact windows 0 (by decide)
  · exact windows 1 (by decide)

namespace Turns

instance (tasks : List Task) (a b : TaskId) : Decidable (TaskTable.Precedes tasks a b) :=
  inferInstanceAs (Decidable (_ ∨ _ ∧ _))

theorem inLine_setUp (started : Bool) : (setUp started).kernel.InLine := by
  have below (n : Nat) (t : TaskId) : t ∈ (List.range n).map TaskId.mk ↔ t.index < n := by
    obtain ⟨i⟩ := t
    simp
  cases started with
  | false => exact ⟨[⟨0⟩, ⟨1⟩], .cons _ _ (.cons _ _ .nil), below 2, by decide⟩
  | true => exact ⟨[⟨0⟩, ⟨1⟩, ⟨2⟩], .cons _ _ (.cons _ _ (.cons _ _ .nil)), below 3, by decide⟩

/-- The two tasks have the processor in turn, for any number of rounds. -/
theorem current_kernelAfter (n : Nat) (started : Bool) :
    (kernelAfter (n + 1) started).current = [⟨0⟩, ⟨1⟩][n % 2]? := by
  have up : (setUp started).kernel.AnyUp := ⟨⟨0⟩, by cases started <;> decide⟩
  have band : (setUp started).kernel.band = [⟨0⟩, ⟨1⟩] := by cases started <;> decide
  have place : (setUp started).kernel.place = 0 := by cases started <;> decide
  have known (t : TaskId) (current : (setUp started).kernel.current = some t) :
      t.index < (setUp started).kernel.tasks.length := by
    cases started <;> cases current
    decide
  have some : List.replicate (n + 1) (0 : StackPointer) ≠ [] := List.cons_ne_nil _ _
  obtain ⟨c, result, -, current⟩ := Section.rounds_rotate (inLine_setUp started) known up
    (by cases started <;> rfl) some
  rw [band, place, List.length_replicate, Nat.add_sub_cancel, Nat.zero_add] at current
  rw [kernelAfter, result]
  exact current

end Turns

end Rtos
