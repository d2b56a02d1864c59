import Rtos.Proofs.Errand
import Rtos.Proofs.Foremost
import Rtos.Proofs.Port

/-!
# Contexts are handed over

A switch goes on with the context that was saved last for the task that it makes current, or with its
first frame.
-/

namespace Rtos

def Kernel.stackPointer (k : Kernel) (t : TaskId) : Option StackPointer :=
  k.tasks[t.index]?.map Task.stackPointer

/-- Where the section saves a context for task `t`: a switch away from the task does, and before that
its creation, which saves its first frame. -/
def Record.saves (p : Record) (t : TaskId) : Option StackPointer :=
  match p.outcome with
  | ⟨.switch sp, _⟩ => if p.kernel.next.isSome ∧ p.kernel.current = some t then some sp else none
  | ⟨.addTask _ _ sp _, some id⟩ => if id = t then some sp else none
  | _ => none

/-- Only the thread that boots has started the scheduler. -/
def System.StartsAtBoot (s : System) : Prop :=
  ∀ p ∈ s.log, p.outcome.action.starts → p.caller = .thread none

def savedIn (log : List Record) (t : TaskId) : Option StackPointer := log.findSome? (·.saves t)

theorem Task.spared_stackPointer : Task.Spared Task.stackPointer :=
  ⟨fun _ _ _ _ => rfl, fun _ _ => rfl, fun _ _ => rfl, fun _ _ => rfl⟩

namespace Kernel

variable {k k' : Kernel} {t : TaskId}

theorem Spares.stackPointer (h : Spares Task.stackPointer k k') :
    k'.stackPointer t = k.stackPointer t := by
  rw [Kernel.stackPointer, Kernel.stackPointer, ← List.getElem?_map, ← List.getElem?_map, h]

end Kernel

/-- A switch saves the context that it leaves, and then goes on with what is saved for the task that
was elected, be it the same. -/
theorem Section.switch_hands {c c' : Core} {sp resumed : StackPointer} {target : TaskId}
    (elected : c.kernel.next = some target) (h : switch sp c = .ok resumed c') :
    c'.kernel.current = some target ∧ c'.kernel.stackPointer target = some resumed ∧
      ∀ t, c'.kernel.stackPointer t =
        if c.kernel.current = some t then some sp else c.kernel.stackPointer t := by
  obtain ⟨kernel, ⟨x, found, resumes⟩, known⟩ := switch_eq elected h
  have tasks : c'.kernel.tasks.map Task.stackPointer =
      (c.kernel.leaving sp c.clock.now).map Task.stackPointer := by
    rw [kernel]
    exact TaskTable.map_update_same fun _ => rfl
  refine ⟨congrArg Kernel.current kernel, ?_, fun t => ?_⟩
  · rw [Kernel.stackPointer, found]
    exact congrArg some resumes
  rw [Kernel.stackPointer, ← List.getElem?_map, tasks, List.getElem?_map, Kernel.leaving]
  cases hc : c.kernel.current with
  | none => rfl
  | some source =>
    dsimp only
    rw [TaskTable.getElem?_update]
    by_cases same : t = source
    · subst same
      obtain ⟨w, was⟩ := known t hc
      rw [if_pos rfl, if_pos rfl, was]
      rfl
    · rw [if_neg same, if_neg fun h => same (Option.some.inj h).symm]
      rfl

theorem Action.saves {β : Type} {a : Action β} {b : β} {c c' : Core}
    (result : a.toSection c = .ok b c') (who : Caller) (call : Option (Sigma KernelCall))
    (t : TaskId) : c'.kernel.stackPointer t =
      ((Record.mk c.kernel who call ⟨a, b⟩).saves t).or (c.kernel.stackPointer t) := by
  cases a with
  | switch sp =>
    cases next : c.kernel.next with
    | none =>
      rcases Section.switch_ok result with ⟨-, -, rfl⟩ | ⟨target, took⟩
      · simp [Record.saves, next]
      · exact nomatch next.symm.trans took.elected
    | some target =>
      rw [(Section.switch_hands next result).2.2 t]
      simp only [Record.saves, next, Option.isSome_some, true_and]
      split <;> rfl
  | addTask name priority sp stackBytes =>
    rcases Section.adding_ok result with ⟨rfl, rfl⟩ | ⟨id, rfl, added⟩
    · rfl
    have tasks := Kernel.map_addTask (t := t) added Task.spared_stackPointer.next
    obtain ⟨-, rfl, -⟩ := Kernel.addTask_eq_some added
    rw [Kernel.stackPointer, tasks]
    simp only [Record.saves]
    split
    · next new =>
      subst new
      rw [List.getElem?_concat_length]
      rfl
    · next other =>
      have other : t.index ≠ c.kernel.tasks.length := fun h => other (TaskId.index_injective h.symm)
      rw [Option.none_or, Kernel.stackPointer, List.getElem?_append]
      split
      · rfl
      · next h =>
        have past : t.index - c.kernel.tasks.length ≠ 0 := by omega
        rw [List.getElem?_eq_none (Nat.not_lt.1 h), List.getElem?_eq_none]
        exact Nat.pos_of_ne_zero past
  | _ => exact (Action.spares Task.spared_stackPointer result rfl rfl fun _ _ _ => rfl).stackPointer

theorem System.StartsAtBoot.before {s s' : System} (h : s'.StartsAtBoot) (step : System.Step s s') :
    s.StartsAtBoot := fun p hp => h p (step.log_subset hp)

theorem savedIn_cons {p : Record} {log : List Record} {t : TaskId} :
    savedIn (p :: log) t = (p.saves t).or (savedIn log t) := by
  rw [savedIn, List.findSome?_cons]
  cases p.saves t <;> rfl

theorem Reachable.saved {s : System} (h : Reachable s) (t : TaskId) :
    s.core.kernel.stackPointer t = savedIn s.log t := by
  refine h.log_induction (P := fun k log => k.stackPointer t = savedIn log t) (fun _ => rfl) ?_
  intro s p c' _ acts ih
  rw [savedIn_cons, ← ih]
  cases acts with
  | call _ _ _ _ _ _ _ _ _ _ _ result => exact Action.saves result _ _ t
  | switch _ sp _ result => exact Action.saves (a := .switch sp) result _ _ t

theorem Reachable.elects_known {s : System} (h : Reachable s) :
    ∀ t, s.core.kernel.next = some t → t.index < s.core.kernel.tasks.length := by
  refine h.log_induction (P := fun k _ => ∀ t, k.next = some t → t.index < k.tasks.length)
    (fun _ _ h => nomatch h) ?_
  intro s ⟨_, who, call, a, b⟩ c' _ acts ih t next
  have result : a.toSection s.core = .ok b c' := acts.result
  cases Action.taskStep result with
  | turns came =>
    cases came with
    | rests same => exact Kernel.length_of_roster same.roster ▸ ih t (same.next ▸ next)
    | decides ch _ _ after =>
      rw [after.next] at next
      split at next
      · exact Kernel.length_of_roster after.roster ▸ ih t next
      · next choice =>
        split at next <;> cases next
        exact TaskTable.index_lt_of_isRunnable (ReadyList.isRunnable_of_choose choice)
  | switches target _ took => exact nomatch took.next.symm.trans next
  | recruits is =>
    cases a with
    | startWith idle =>
      obtain ⟨x, found, -, kernel⟩ := Section.startWith_ok result
      rw [kernel] at next ⊢
      cases next
      exact (List.getElem?_eq_some_iff.1 found).1
    | addTask name priority sp stackBytes =>
      rcases Section.adding_ok result with ⟨-, rfl⟩ | ⟨id, -, added⟩
      · exact ih t next
      obtain ⟨-, -, kernel⟩ := Kernel.addTask_eq_some added
      have older : c'.kernel.next = s.core.kernel.next := by rw [kernel]
      exact Nat.lt_of_lt_of_le (ih t (older ▸ next)) (Kernel.quiet_addTask added).calm.size
    | _ => cases is

namespace System.Answers

variable {s s' : System} {who : Caller} {sp : StackPointer}

theorem builds {entry : Entry} {arg : UInt64} {bytes : Nat} (reachable : Reachable s)
    (h : System.Answers who (.frame entry arg bytes) sp s s') :
    s'.core.kernel = s.core.kernel ∧ s'.errands.Perm ((who, .adds sp) :: s.errands) := by
  cases h with
  | reply c c' later earlier held lost log call next ph may answer =>
    have errand := ((reachable.dutiful _ (mem_middle.2 (.inr rfl))).reply answer).1
    have now : OpenCall.errand ⟨who, call, next sp, ph⟩ = some (who, .adds sp) :=
      congrArg (Option.map _) errand
    refine ⟨answer.kernel_eq, errands_middle.trans ?_⟩
    rw [now]
    exact .cons _ (errands_middle (o := ⟨who, call, .ask (.frame entry arg bytes) next, ph⟩)).symm

theorem enters (reachable : Reachable s) (h : System.Answers who (.startFirst sp) () s s') :
    s'.core.kernel = s.core.kernel ∧ s.errands.Perm ((who, .enters sp) :: s'.errands) ∧
      (who ≠ .handler → ∀ e, (who, e) ∉ s'.errands) := by
  cases h with
  | reply c c' later earlier held lost log call next ph may answer =>
    have errand := ((reachable.dutiful _ (mem_middle.2 (.inr rfl))).reply answer).1
    have now : OpenCall.errand ⟨who, call, next (), ph⟩ = none := congrArg (Option.map _) errand
    have others : ((later ++ ⟨who, call, next (), ph⟩ :: earlier).filterMap OpenCall.errand).Perm
        ((later ++ earlier).filterMap OpenCall.errand) := by
      refine errands_middle.trans ?_
      rw [now]
      rfl
    refine ⟨answer.kernel_eq, errands_middle.trans (.cons _ others.symm), fun thread e he => ?_⟩
    exact reachable.inContract.no_errand may thread (others.subset he)

end System.Answers

namespace Port

variable {port : Port}

/-- The context of a task is in the region of its first frame, its `home`, except that the task
`astray` still has the context that boots. -/
structure Layout (port : Port) where
  home : List port.Region := []
  astray : Option TaskId := none

def Layout.place (l : port.Layout) (t : TaskId) : Option port.Region :=
  if l.astray = some t then some port.boot else l.home[t.index]?

/-- The regions of the frames that no task has yet. -/
def spare (port : Port) (errands : List (Caller × Errand)) : List port.Region :=
  errands.filterMap fun x => x.2.spare.map port.region

theorem perm_spare {home : List port.Region} {errands : List (Caller × Errand)} {who : Caller}
    {sp : StackPointer} :
    (port.boot :: (home ++ port.spare ((who, .adds sp) :: errands))).Perm
      (port.region sp :: port.boot :: (home ++ port.spare errands)) :=
  (List.perm_middle.cons _).trans (.swap ..)

/-- The layout tells where the contexts are. -/
structure Layout.Fits (l : port.Layout) (k : Kernel) (errands : List (Caller × Errand))
    (here : port.Region) (frames : List StackPointer) (taken : List port.Region) (started : Bool) :
    Prop where
  size : l.home.length = k.tasks.length
  apart : (port.boot :: (l.home ++ port.spare errands)).Nodup
  within : ∀ r ∈ port.boot :: (l.home ++ port.spare errands), r ∈ taken
  built : ∀ who sp, (who, .adds sp) ∈ errands → sp ∈ frames
  saved : ∀ t sp, k.stackPointer t = some sp → k.current ≠ some t →
    l.place t = some (port.region sp)
  boots : k.current = none → here = port.boot
  runs : ∀ t, k.current = some t → l.place t = some here
  entered : ∀ who sp, (who, .enters sp) ∈ errands → who = .thread none ∧
    ∃ t, l.astray = some t ∧ l.home[t.index]? = some (port.region sp)
  astray : ∀ t, l.astray = some t → k.current.isSome ∧
    ∃ sp, (Caller.thread none, Errand.enters sp) ∈ errands
  settled : started → l.astray = none ∧ k.current.isSome

namespace Layout.Fits

variable {l : port.Layout} {k k' : Kernel} {errands errands' : List (Caller × Errand)}
  {here : port.Region} {frames : List StackPointer} {taken taken' : List port.Region}
  {started : Bool} {who : Caller} {t : TaskId} {sp resumed : StackPointer}

theorem congr (h : l.Fits k errands here frames taken started)
    (contexts : ∀ t, k'.stackPointer t = k.stackPointer t)
    (size : k'.tasks.length = k.tasks.length) (current : k'.current = k.current)
    (same : errands'.Perm errands) : l.Fits k' errands' here frames taken started := by
  have regions : (port.boot :: (l.home ++ port.spare errands')).Perm
      (port.boot :: (l.home ++ port.spare errands)) := ((same.filterMap _).append_left _).cons _
  exact {
    size := h.size.trans size.symm
    apart := regions.nodup_iff.2 h.apart
    within r hr := h.within r (regions.subset hr)
    built who sp he := h.built who sp (same.subset he)
    saved t sp hsp other := h.saved t sp (contexts t ▸ hsp) (current ▸ other)
    boots none := h.boots (current ▸ none)
    runs t ht := h.runs t (current ▸ ht)
    entered who sp he := h.entered who sp (same.subset he)
    astray t ht := by
      obtain ⟨some, sp, he⟩ := h.astray t ht
      exact ⟨current ▸ some, sp, same.symm.subset he⟩
    settled done := current ▸ h.settled done }

theorem keeps (h : l.Fits k errands here frames taken started) (kept : ∀ r ∈ taken, r ∈ taken') :
    l.Fits k errands here frames taken' started :=
  { h with within r hr := kept r (h.within r hr) }

theorem home_ne_boot (h : l.Fits k errands here frames taken started) {i : Nat} {r : port.Region}
    (found : l.home[i]? = some r) : r ≠ port.boot := by
  rintro rfl
  exact (List.nodup_cons.1 h.apart).1 (List.mem_append_left _ (List.mem_of_getElem? found))

theorem builds (h : l.Fits k errands here frames taken started) (new : port.region sp ∉ taken) :
    l.Fits k ((who, .adds sp) :: errands) here (sp :: frames) (port.region sp :: taken) started :=
  { h with
    apart := perm_spare.nodup_iff.2 (List.nodup_cons.2 ⟨fun old => new (h.within _ old), h.apart⟩)
    within r hr := List.mem_cons.2 ((List.mem_cons.1 (perm_spare.subset hr)).imp_right (h.within r))
    built who sp he := by
      rcases List.mem_cons.1 he with same | he
      · cases same
        exact List.mem_cons_self
      · exact List.mem_cons_of_mem _ (h.built who sp he)
    entered who sp he := h.entered who sp ((List.mem_cons.1 he).resolve_left nofun)
    astray t ht := by
      obtain ⟨some, sp, he⟩ := h.astray t ht
      exact ⟨some, sp, List.mem_cons_of_mem _ he⟩ }

theorem drops (h : l.Fits k ((who, .adds sp) :: errands) here frames taken started)
    (kept : ∀ r ∈ taken, r ∈ taken' ∨ port.region sp = r) :
    l.Fits k errands here frames taken' started := by
  obtain ⟨free, apart⟩ := List.nodup_cons.1 (perm_spare.nodup_iff.1 h.apart)
  exact { h with
    apart
    within r hr := by
      have old := h.within r (perm_spare.symm.subset (List.mem_cons_of_mem _ hr))
      exact (kept r old).resolve_right fun same => free (same ▸ hr)
    built who sp he := h.built who sp (List.mem_cons_of_mem _ he)
    entered who sp he := h.entered who sp (List.mem_cons_of_mem _ he)
    astray t ht := by
      obtain ⟨some, sp, he⟩ := h.astray t ht
      exact ⟨some, sp, (List.mem_cons.1 he).resolve_left nofun⟩ }

theorem home_of_astray (h : l.Fits k errands here frames taken started) (ht : l.astray = some t) :
    t.index < l.home.length := by
  obtain ⟨-, sp, he⟩ := h.astray t ht
  obtain ⟨-, t', ht', found⟩ := h.entered _ sp he
  obtain rfl : t = t' := Option.some.inj (ht.symm.trans ht')
  exact (List.getElem?_eq_some_iff.1 found).1

theorem adds (h : l.Fits k ((who, .adds sp) :: errands) here frames taken started)
    (contexts : ∀ t, k'.stackPointer t =
      if (⟨k.tasks.length⟩ : TaskId) = t then some sp else k.stackPointer t)
    (size : k'.tasks.length = k.tasks.length + 1) (current : k'.current = k.current) :
    ({ l with home := l.home ++ [port.region sp] } : port.Layout).Fits k' errands here frames
      taken started := by
  have regions : port.boot :: (l.home ++ [port.region sp] ++ port.spare errands) =
      port.boot :: (l.home ++ port.spare ((who, .adds sp) :: errands)) := by
    rw [List.append_assoc]
    rfl
  have longer {i : Nat} {r : port.Region} (found : l.home[i]? = some r) :
      (l.home ++ [port.region sp])[i]? = some r :=
    (List.getElem?_append_left (List.getElem?_eq_some_iff.1 found).1).trans found
  have place {t : TaskId} {r : port.Region} (found : l.place t = some r) :
      ({ l with home := l.home ++ [port.region sp] } : port.Layout).place t = some r := by
    unfold Layout.place at found ⊢
    split at found
    · next gone => rw [if_pos gone, found]
    · next here => rw [if_neg here, longer found]
  exact {
    size := by rw [List.length_append, h.size, size]; rfl
    apart := regions ▸ h.apart
    within := regions ▸ h.within
    built who sp he := h.built who sp (List.mem_cons_of_mem _ he)
    saved t sp' hsp other := by
      rw [contexts] at hsp
      split at hsp
      · next new =>
        cases hsp
        subst new
        have here : l.astray ≠ some ⟨k.tasks.length⟩ := fun gone =>
          Nat.lt_irrefl _ (h.size ▸ h.home_of_astray gone)
        rw [Layout.place, if_neg here, ← h.size, List.getElem?_concat_length]
      · exact place (h.saved t sp' hsp (current ▸ other))
    boots none := h.boots (current ▸ none)
    runs t ht := place (h.runs t (current ▸ ht))
    entered who sp he := by
      obtain ⟨boots, t, ht, found⟩ := h.entered who sp (List.mem_cons_of_mem _ he)
      exact ⟨boots, t, ht, longer found⟩
    astray t ht := by
      obtain ⟨some, sp, he⟩ := h.astray t ht
      exact ⟨current ▸ some, sp, (List.mem_cons.1 he).resolve_left nofun⟩
    settled done := current ▸ h.settled done }

theorem starts (h : l.Fits k errands here frames taken started)
    (alone : ∀ e, (Caller.thread none, e) ∉ errands) (boots : here = port.boot)
    (found : k.stackPointer t = some sp) (contexts : ∀ t, k'.stackPointer t = k.stackPointer t)
    (size : k'.tasks.length = k.tasks.length) (current : k'.current = some t) :
    ({ l with astray := some t } : port.Layout).Fits k' ((.thread none, .enters sp) :: errands) here
      frames taken started := by
  have nobody : l.astray = none := by
    refine Option.eq_none_iff_forall_ne_some.2 fun u hu => ?_
    obtain ⟨-, sp, he⟩ := h.astray u hu
    exact alone _ he
  have place (u : TaskId) : l.place u = l.home[u.index]? := by
    rw [Layout.place, nobody, if_neg nofun]
  have idle : k.current = none := by
    refine Option.eq_none_iff_forall_ne_some.2 fun u hu => ?_
    exact h.home_ne_boot (place u ▸ h.runs u hu) boots
  have home : l.home[t.index]? = some (port.region sp) := by
    rw [← place]
    exact h.saved t sp found fun ht => nomatch idle.symm.trans ht
  exact { h with
    size := h.size.trans size.symm
    built who sp he := h.built who sp ((List.mem_cons.1 he).resolve_left nofun)
    saved u sp' hsp other := by
      have stays : some t ≠ some u := current ▸ other
      rw [Layout.place, if_neg stays, ← place]
      exact h.saved u sp' (contexts u ▸ hsp) fun hu => nomatch idle.symm.trans hu
    boots none := nomatch current.symm.trans none
    runs u hu := by
      obtain rfl : t = u := Option.some.inj (current.symm.trans hu)
      rw [Layout.place, if_pos rfl, boots]
    entered who sp' he := by
      rcases List.mem_cons.1 he with same | he
      · cases same
        exact ⟨rfl, t, rfl, home⟩
      · obtain ⟨rfl, -⟩ := h.entered who sp' he
        exact (alone _ he).elim
    astray u hu := ⟨current ▸ rfl, sp, List.mem_cons_self⟩
    settled done := by
      have some := (h.settled done).2
      rw [idle] at some
      cases some }

theorem enters (h : l.Fits k ((who, .enters sp) :: errands) here frames taken started)
    (alone : ∀ e, (Caller.thread none, e) ∉ errands)
    (boots : who = .thread none → here = port.boot) :
    ({ l with astray := none } : port.Layout).Fits k errands (port.region sp) frames taken true := by
  obtain ⟨boot, t, astray, home⟩ := h.entered who sp List.mem_cons_self
  have current : k.current = some t := by
    obtain ⟨u, hu⟩ := Option.isSome_iff_exists.1 (h.astray t astray).1
    have place := h.runs u hu
    unfold Layout.place at place
    split at place
    · next same => rw [hu, ← same, astray]
    · exact (h.home_ne_boot place (boots boot)).elim
  have place (u : TaskId) : ({ l with astray := none } : port.Layout).place u = l.home[u.index]? :=
    if_neg nofun
  exact { h with
    built who sp he := h.built who sp (List.mem_cons_of_mem _ he)
    saved u sp' hsp other := by
      have old := h.saved u sp' hsp other
      have stays : l.astray ≠ some u := astray ▸ current ▸ other
      rw [Layout.place, if_neg stays] at old
      exact (place u).trans old
    boots none := nomatch current.symm.trans none
    runs u hu := by
      obtain rfl : t = u := Option.some.inj (current.symm.trans hu)
      exact (place t).trans home
    entered who sp' he := by
      obtain ⟨rfl, -⟩ := h.entered who sp' (List.mem_cons_of_mem _ he)
      exact (alone _ he).elim
    astray u hu := nomatch hu
    settled _ := ⟨rfl, current ▸ rfl⟩ }

theorem switches (h : l.Fits k errands here frames taken started) (really : port.region sp = here)
    (current : k'.current = some t) (found : k'.stackPointer t = some resumed)
    (contexts : ∀ u, k'.stackPointer u = if k.current = some u then some sp else k.stackPointer u)
    (size : k'.tasks.length = k.tasks.length) :
    l.Fits k' errands (port.region resumed) frames taken started := by
  have saved (u : TaskId) (sp' : StackPointer) (hsp : k'.stackPointer u = some sp') :
      l.place u = some (port.region sp') := by
    rw [contexts] at hsp
    split at hsp
    · next left =>
      cases hsp
      rw [really]
      exact h.runs u left
    · next other => exact h.saved u sp' hsp other
  exact { h with
    size := h.size.trans size.symm
    saved u sp' hsp _ := saved u sp' hsp
    boots none := nomatch current.symm.trans none
    runs u hu := by
      obtain rfl : t = u := Option.some.inj (current.symm.trans hu)
      exact saved t resumed found
    astray u hu := ⟨current ▸ rfl, (h.astray u hu).2⟩
    settled done := ⟨(h.settled done).1, current ▸ rfl⟩ }

end Layout.Fits

/-- A section of a call leaves the contexts where they are. A creation gives a frame away, and a start
makes another task current. -/
theorem Layout.Fits.act {l : port.Layout} {c c' : Core} {later earlier : List OpenCall}
    {held : List Message} {lost : List MessageId} {log : List Record} {here : port.Region}
    {frames : List StackPointer} {taken taken' : List port.Region} {started : Bool} {who : Caller}
    {α β : Type} {call : KernelCall α}
    {a : Action β} {next : Except Fault β → Program Unit α} {ph : Phase} {b : β}
    (reachable :
      Reachable ⟨c, later ++ ⟨who, call, .ask (.act a) next, ph⟩ :: earlier, held, lost, log⟩)
    (may : OpenCall.MayGoOn ⟨who, call, .ask (.act a) next, ph⟩ later c.kernel)
    (result : a.toSection c = .ok b c') (boots : who = .thread none → here = port.boot)
    (once : a.starts → who = .thread none)
    (kept : ∀ r ∈ taken, r ∈ taken' ∨ ∃ sp, Outcome.refused ⟨a, b⟩ = some sp ∧ port.region sp = r)
    (fits : l.Fits c.kernel ((later ++ ⟨who, call, .ask (.act a) next, ph⟩ :: earlier).filterMap
      OpenCall.errand) here frames taken started) :
    ∃ l : port.Layout, l.Fits c'.kernel
      ((later ++ ⟨who, call, next (.ok b), ph.after ⟨a, b⟩⟩ :: earlier).filterMap OpenCall.errand)
      here frames taken' started := by
  obtain ⟨stays, after⟩ := reachable.dutiful _ (mem_middle.2 (.inr rfl))
  have errand := (after (.ok b)).1
  have before := fits.congr (fun _ => rfl) rfl rfl errands_middle.symm
  suffices h : ∃ l : port.Layout, l.Fits c'.kernel
      (((next (.ok b)).errand.map (who, ·)).toList ++ (later ++ earlier).filterMap OpenCall.errand)
      here frames taken' started by
    obtain ⟨l, h⟩ := h
    exact ⟨l, h.congr (fun _ => rfl) rfl rfl errands_middle⟩
  have within (added : Outcome.refused ⟨a, b⟩ = none) (r : port.Region) (hr : r ∈ taken) :
      r ∈ taken' := by
    refine (kept r hr).resolve_right fun ⟨_, refused, _⟩ => ?_
    cases added.symm.trans refused
  -- Of the sections of calls, only a creation and a start have to do with contexts.
  cases a with
  | switch sp => cases stays
  | startWith idle =>
    obtain rfl := once rfl
    have errand : (next (.ok b)).errand = some (.enters b) := errand
    rw [errand]
    obtain ⟨x, found, rfl, kernel⟩ := Section.startWith_ok result
    refine ⟨_, (before.starts (fun e => reachable.inContract.no_errand may nofun) (boots rfl)
      (congrArg (Option.map Task.stackPointer) found) (fun t => ?_) ?_ ?_).keeps (within rfl)⟩
    all_goals rw [kernel]
    rfl
  | addTask name priority sp stackBytes =>
    have errand : (next (.ok b)).errand = none := errand
    rw [errand]
    have saves := Action.saves (a := .addTask name priority sp stackBytes) result who none
    rcases Section.adding_ok result with ⟨rfl, rfl⟩ | ⟨id, rfl, added⟩
    · refine ⟨l, before.drops fun r hr => (kept r hr).imp_right fun ⟨_, same, region⟩ => ?_⟩
      cases same
      exact region
    obtain ⟨-, rfl, kernel⟩ := Kernel.addTask_eq_some added
    refine ⟨_, (before.adds (fun t => ?_) ?_ ?_).keeps (within rfl)⟩
    · rw [saves]
      simp only [Record.saves]
      split <;> rfl
    · exact Kernel.length_addTask added
    · rw [kernel]
  | _ =>
    have errand : (next (.ok b)).errand = none := errand
    rw [errand]
    have spares := Action.spares Task.spared_stackPointer result rfl rfl fun _ _ _ => rfl
    have size : c'.kernel.tasks.length = c.kernel.tasks.length := by
      have size := congrArg List.length spares
      rwa [List.length_map, List.length_map] at size
    have after := before.congr (fun _ => spares.stackPointer) size (Action.current_eq result rfl rfl) .rfl
    exact ⟨l, after.keeps (within rfl)⟩

def Fit (m : port.Moment) : Prop :=
  ∃ l : port.Layout,
    l.Fits m.system.core.kernel m.system.errands m.here m.frames m.taken m.started

theorem Runs.fit_inner {m : port.Moment} {s' : System} {taken' : List port.Region}
    (run : port.Runs m) (step : System.Step m.system s') (inner : ¬ m.system.Ports s')
    (boots : ∀ p, s'.log = p :: m.system.log → p.caller = .thread none → m.here = port.boot)
    (kept : ∀ r ∈ m.taken, r ∈ taken' ∨ port.Frees m.system s' r) (once : s'.StartsAtBoot)
    (fit : port.Fit m) : port.Fit { m with system := s', taken := taken' } := by
  obtain ⟨s, here, frames, taken, started⟩ := m
  obtain ⟨l, fits⟩ := fit
  have dutiful := run.reachable.dutiful
  -- Without a section there is nobody who gives a region back.
  have still (same : s'.log = s.log) (r : port.Region) (hr : r ∈ taken) : r ∈ taken' := by
    refine (kept r hr).resolve_right fun ⟨p, _, log, _⟩ => ?_
    exact List.cons_ne_self p s.log (log.symm.trans same)
  -- A step that changes neither the kernel nor the errands.
  have same {c c' : Core} {calls calls' : List OpenCall} (kernel : c'.kernel = c.kernel)
      (still : ∀ r ∈ taken, r ∈ taken')
      (fits : l.Fits c.kernel (calls.filterMap OpenCall.errand) here frames taken started)
      (errands : calls'.filterMap OpenCall.errand = calls.filterMap OpenCall.errand) :
      ∃ l : port.Layout,
        l.Fits c'.kernel (calls'.filterMap OpenCall.errand) here frames taken' started :=
    ⟨l, kernel ▸ errands ▸ fits.keeps still⟩
  -- The errands are the same if the call that goes on has the same.
  have middle {later earlier : List OpenCall} {o o' : OpenCall} (one : o'.errand = o.errand) :
      (later ++ o' :: earlier).filterMap OpenCall.errand =
        (later ++ o :: earlier).filterMap OpenCall.errand := by
    simp only [List.filterMap_append, List.filterMap_cons, one]
  cases step with
  | begin _ who call held may _ =>
    refine same rfl (still rfl) fits ?_
    rw [List.filterMap_cons, OpenCall.errand, call.free.1]
    rfl
  | reply c c' later earlier held lost log who call r next ph b may answer =>
    have errand := (dutiful _ (mem_middle.2 (.inr rfl))).reply answer
    refine same answer.kernel_eq (still rfl) fits (middle ?_)
    have one : (next b).errand = (Program.ask r next).errand := by
      cases answer with
      | mask | unmask | pend => exact errand.1
      | frame _ entry arg bytes sp =>
        exact (inner (.builds who entry arg bytes _ (.reply _ _ _ _ _ _ _ _ _ _ may (.frame ..)))).elim
      | startFirst _ sp =>
        exact (inner (.enters who sp (.reply _ _ _ _ _ _ _ _ _ _ may (.startFirst ..)))).elim
      | _ => exact errand.1
    rw [OpenCall.errand, one]
    rfl
  | act c c' later earlier held lost log who call a next ph b may result =>
    refine fits.act run.reachable may result (boots _ rfl) (once _ List.mem_cons_self) fun r hr => ?_
    refine (kept r hr).imp_right fun ⟨p, sp, latest, refused, region⟩ => ⟨sp, ?_, region⟩
    obtain rfl := (List.cons.inj latest).1
    exact refused
  | unroll c later earlier held lost log who call body t next ph =>
    refine same rfl (still rfl) fits (middle ?_)
    rw [OpenCall.errand, (dutiful _ (mem_middle.2 (.inr rfl))).unroll.1]
    rfl
  | finish c later earlier held lost log who call a ph =>
    refine same rfl (still rfl) fits ?_
    simp only [List.filterMap_append, List.filterMap_cons]
    rfl
  | switch _ c sp resumed result => exact (inner (.takes sp resumed (.switch c result))).elim
  | write => exact ⟨l, fits.keeps (still rfl)⟩
  | drop => exact ⟨l, fits.keeps (still rfl)⟩
  | elapse => exact ⟨l, fits.keeps (still rfl)⟩

/-- Every run on a port has a layout, as long as only the thread that boots starts the scheduler. -/
theorem Runs.fit {m : port.Moment} (run : port.Runs m) (once : m.system.StartsAtBoot) :
    port.Fit m := by
  -- Each step of the port finds the layout of the moment before it.
  induction run with
  | boots clock =>
    exact ⟨{}, rfl, List.nodup_singleton _, fun r hr => hr, fun who sp h => (nomatch h),
      fun t sp h => (nomatch h), fun _ => rfl, fun t h => (nomatch h), fun who sp h => (nomatch h),
      fun t h => (nomatch h), fun h => nomatch h⟩
  | @switches m s' sp resumed before step really ih =>
    obtain ⟨l, fits⟩ := ih (once.before step.step)
    cases step with
    | switch c result =>
      rcases Section.switch_ok result with ⟨-, rfl, rfl⟩ | ⟨target, took⟩
      · exact ⟨l, really ▸ fits⟩
      · obtain ⟨current, found, contexts⟩ := Section.switch_hands took.elected result
        have roster : c.kernel.roster = Change.rest.apply m.system.core.kernel.roster := took.roster
        exact ⟨l, fits.switches really current found contexts (Kernel.length_of_roster roster)⟩
  | @builds m s' who entry arg bytes sp before step new ih =>
    obtain ⟨kernel, errands⟩ := step.builds before.reachable
    obtain ⟨l, fits⟩ := ih (once.before step.step)
    exact ⟨l, (kernel ▸ fits.builds new).congr (fun _ => rfl) rfl rfl errands⟩
  | @enters m s' who sp before step boots ih =>
    obtain ⟨kernel, errands, alone⟩ := step.enters before.reachable
    obtain ⟨l, fits⟩ := ih (once.before step.step)
    have fits := fits.congr (fun _ => rfl) rfl rfl errands.symm
    obtain ⟨rfl, -⟩ := fits.entered who sp List.mem_cons_self
    exact ⟨_, kernel ▸ fits.enters (alone nofun) boots⟩
  | @goesOn m s' _ before step inner boots kept ih =>
    exact before.fit_inner step inner boots kept once (ih (once.before step))

theorem Runs.built {m : port.Moment} (run : port.Runs m) (once : m.system.StartsAtBoot) :
    ∀ p ∈ m.system.log, ∀ sp, p.outcome.action.frame = some sp → sp ∈ m.frames := by
  induction run with
  | boots clock => exact fun p h => nomatch h
  | @switches m s' sp resumed before step really ih =>
    have older := ih (once.before step.step)
    cases step with
    | switch c result => exact List.forall_mem_cons.2 ⟨nofun, older⟩
  | @builds m s' who entry arg bytes sp before step new ih =>
    intro p hp sp' frame
    exact List.mem_cons_of_mem _ (ih (once.before step.step) p (step.log ▸ hp) sp' frame)
  | @enters m s' who sp before step boots ih =>
    exact fun p hp => ih (once.before step.step) p (step.log ▸ hp)
  | @goesOn m s' _ before step inner boots kept ih =>
    have older := ih (once.before step)
    rcases step.acts with ⟨-, same⟩ | ⟨q, c', acts, -, more⟩
    · exact fun p hp => older p (same ▸ hp)
    show ∀ p ∈ s'.log, _
    rw [more]
    refine List.forall_mem_cons.2 ⟨fun sp frame => ?_, older⟩
    obtain ⟨l, fits⟩ := before.fit (once.before step)
    cases acts with
    | switch => cases frame
    | call _ later earlier who call a next ph b calls may result =>
      refine fits.built who sp (List.mem_filterMap.2 ⟨_, calls ▸ mem_middle.2 (.inr rfl), ?_⟩)
      have errand : (Program.ask (.act a) next).errand = some (.adds sp) :=
        congrArg (Option.map Errand.adds) frame
      rw [OpenCall.errand, errand]
      rfl

def context (port : Port) (k : Kernel) (here : port.Region) (t : TaskId) : Option port.Region :=
  if k.current = some t then some here else (k.stackPointer t).map port.region

structure HandsOver (port : Port) (m : port.Moment) : Prop where
  /-- Without an election, a switch returns its argument and changes nothing at all. -/
  stays : ∀ sp, m.system.core.kernel.next = none →
    Section.switch sp m.system.core = .ok sp m.system.core
  /-- With one it is carried out, and goes on with what was saved last for the task that is current
  then. -/
  resumes : ∀ sp target, m.system.core.kernel.next = some target → ∃ resumed c,
    Section.switch sp m.system.core = .ok resumed c ∧ c.kernel.current = some target ∧
      savedIn (⟨m.system.core.kernel, .handler, none, ⟨.switch sp, resumed⟩⟩ :: m.system.log) target =
        some resumed
  /-- Each task has the stack pointer that was saved last for it. -/
  saved : ∀ t, m.system.core.kernel.stackPointer t = savedIn m.system.log t
  /-- What a creation saves is a frame that the port has built. -/
  built : ∀ p ∈ m.system.log, ∀ sp, p.outcome.action.frame = some sp → sp ∈ m.frames
  runs : m.system.core.kernel.current.isSome
  /-- No two tasks have the same context. -/
  apart : ∀ t u r, port.context m.system.core.kernel m.here t = some r →
    port.context m.system.core.kernel m.here u = some r → t = u

/-- Contexts are handed over as they should from the first frame on, in every run on a port in which
only the thread that boots starts the scheduler. -/
theorem Runs.handsOver {m : port.Moment} (run : port.Runs m) (started : m.started)
    (once : m.system.StartsAtBoot) : port.HandsOver m := by
  have reachable := run.reachable
  obtain ⟨l, fits⟩ := run.fit once
  obtain ⟨settled, runs⟩ := fits.settled started
  have place (t : TaskId) : l.place t = l.home[t.index]? := by
    rw [Layout.place, settled, if_neg nofun]
  have home {t : TaskId} {r : port.Region}
      (h : port.context m.system.core.kernel m.here t = some r) : l.home[t.index]? = some r := by
    rw [← place]
    unfold context at h
    split at h
    · next current => exact (fits.runs t current).trans h
    · next other =>
      obtain ⟨sp, found, rfl⟩ := Option.map_eq_some_iff.1 h
      exact fits.saved t sp found other
  have nodup : l.home.Nodup := (List.nodup_append.1 (List.nodup_cons.1 fits.apart).2).1
  refine ⟨fun sp none => ?_, fun sp target elected => ?_, reachable.saved, run.built once, runs,
    fun t u r ht hu => ?_⟩
  · obtain ⟨resumed, c, result⟩ := Section.switch_total sp reachable.coheres.current
      reachable.elects_known
    rcases Section.switch_ok result with ⟨-, rfl, rfl⟩ | ⟨target, took⟩
    · exact result
    · exact nomatch none.symm.trans took.elected
  · obtain ⟨resumed, c, result⟩ := Section.switch_total sp reachable.coheres.current
      reachable.elects_known
    obtain ⟨current, found, -⟩ := Section.switch_hands elected result
    refine ⟨resumed, c, result, current, ?_⟩
    exact ((reachable.step (.switch m.system c sp resumed result)).saved target).symm.trans found
  · obtain ⟨known, -⟩ := List.getElem?_eq_some_iff.1 (home ht)
    exact TaskId.index_injective ((List.getElem?_inj known nodup).1 ((home ht).trans (home hu).symm))

theorem handsOver_launches : (numbered.run Script.launches).started ∧
    (numbered.run Script.launches).system.StartsAtBoot ∧
    numbered.HandsOver (numbered.run Script.launches) := by
  have started : (numbered.run Script.launches).started := by decide +kernel
  have once : ∀ p ∈ (numbered.run Script.launches).system.log, p.outcome.action.starts →
      p.caller = .thread none := by decide +kernel
  exact ⟨started, once, (numbered.runs_run Script.launches).handsOver started once⟩

/-- If a task starts the scheduler once more, its context may be saved for the new idle task too. -/
theorem not_handsOver_relaunches : ¬ ∀ (port : Port) (m : port.Moment), port.Runs m → m.started →
    port.HandsOver m := by
  intro h
  have started : (numbered.run Script.relaunches).started := by decide +kernel
  have task : numbered.context (numbered.run Script.relaunches).system.core.kernel
      (numbered.run Script.relaunches).here ⟨0⟩ = some 1 := by decide +kernel
  have idle : numbered.context (numbered.run Script.relaunches).system.core.kernel
      (numbered.run Script.relaunches).here ⟨2⟩ = some 1 := by decide +kernel
  have apart := (h numbered _ (numbered.runs_run Script.relaunches) started).apart
  exact absurd (apart ⟨0⟩ ⟨2⟩ 1 task idle) (by decide)

end Port

end Rtos
