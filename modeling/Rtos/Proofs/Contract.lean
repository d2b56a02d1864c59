import Rtos.Proofs.System

/-!
# What a call may do next

`Permits` says which section a call may come to in the phase in which it is: a call that is blocked
tries again for the same object, one that claimed a unit for a message takes the message off, and so
on. `Keeps` asks this of all sections that a program can come to, whatever the port answers and
whatever others do to the kernel in between.
-/

namespace Rtos

/-- What stays once it is true: the semaphore of a queue, or that it has none. -/
def Kernel.Precedes (k k' : Kernel) : Prop :=
  ∀ q o, k.queueSemaphore q = .ok o → k'.queueSemaphore q = .ok o

theorem Kernel.Precedes.rfl {k : Kernel} : k.Precedes k := fun _ _ h => h

theorem Kernel.Precedes.trans {k₁ k₂ k₃ : Kernel} (h₁ : k₁.Precedes k₂) (h₂ : k₂.Precedes k₃) :
    k₁.Precedes k₃ := fun q o h => h₂ q o (h₁ q o h)

namespace Action

variable {β : Type}

/-- The queue from which the section takes a message whose unit has been claimed. -/
def redeems : Action β → Option QueueId
  | dequeue q => some q
  | _ => none

def polls : Action β → Option QueueId
  | pollDriver q => some q
  | _ => none

def shape : Action β → Option PoolShape
  | addPool _ shape => some shape
  | _ => none

def adds : Action β → Option Discipline
  | addQueue _ d => some d
  | _ => none

/-- What the section looks at, if it does nothing but look at the kernel. -/
def views : Action β → Option (Kernel → Except Fault β)
  | read f => some f
  | _ => none

end Action

namespace KernelCall

variable {α : Type}

def source : KernelCall α → Option QueueId
  | receive q _ | receiveTagged q _ => some q
  | _ => none

/-- The message into which the call writes a header, and the length that it states there. -/
def stamps : KernelCall α → Option (TaggedMessage × UInt16)
  | putTagged _ m _ length => some (m, length)
  | _ => none

def slotSize : KernelCall α → Option Nat
  | createPool _ _ _ size => some (Call.roundUp size)
  | createTaggedPool _ _ _ size => some (Call.roundUp (size + tagBytes))
  | _ => none

/-- Whether the call is one that puts `m` on queue `q`. A message that is given back goes to its
home. -/
def Hands (q : QueueId) (m : Message) : KernelCall α → Prop
  | put q' m' => q' = q ∧ m' = m
  | giveBack m' => m'.home = q ∧ m' = m
  | putTagged q' m' code length => q' = q ∧ (m'.withHeader code length).message = m
  | giveBackTagged m' => m'.message.home = q ∧ m'.message = m
  | createPool .. | createTaggedPool .. => m.home = q
  | _ => False

def Awaits (k : Kernel) (w : Waitable) : KernelCall α → Prop
  | wait s _ | waitUntilClaimed s => w = .semaphore s
  | lock m _ | lockUntilClaimed m => w = .mutex m
  | receive q _ | receiveTagged q _ => ∃ s, k.queueSemaphore q = .ok (some s) ∧ w = .semaphore s
  | _ => False

theorem Awaits.later {k k' : Kernel} {w : Waitable} {call : KernelCall α}
    (h : call.Awaits k w) (hk : k.Precedes k') : call.Awaits k' w := by
  cases call <;> simp only [Awaits] at h ⊢ <;> try exact h
  all_goals
    obtain ⟨s, hs, rfl⟩ := h
    exact ⟨s, hk _ _ hs, rfl⟩

end KernelCall

namespace Outcome

def newSemaphore : Outcome → Option SemId
  | ⟨.addSemaphore _ n, s⟩ => if n = 0 then s else none
  | _ => none

/-- Whether the section found no message on a queue that holds one for every unit claimed. -/
def Missed : Outcome → Prop
  | ⟨.dequeue _, m⟩ => m = none
  | _ => False

end Outcome

/-- The queue whose next message is the caller's, as its unit has been claimed. -/
def Phase.ticket {α : Type} (call : KernelCall α) (ph : Phase) : Option QueueId :=
  match ph.last.bind Outcome.tried with
  | some (_, .claimed) => call.source
  | _ => none

/-- Whether the message that goes onto a queue is one that the call holds. Its payload may have been
written to. -/
def Phase.Holds (ph : Phase) (m : Message) : Prop :=
  ∃ m' ∈ ph.cargo, m'.id = m.id ∧ m'.home = m.home

/-- Whether a new queue starts out empty, with a semaphore that the call made for it. -/
def Discipline.Fresh (ph : Phase) : Discipline → Prop
  | .task s => ph.last.bind Outcome.newSemaphore = some s
  | .driver d => d.count = 0

/-- A fault that tells of a broken kernel, and not of a caller that asks for too much. -/
def Fault.IsBreach : Fault → Prop
  | subtractOverflow | alreadyWaiting | claimedWhileHeld _ | alreadyQueued | wrongHome .. | noBuffer _
  | taskQueueCount | driverQueueCount => True
  | _ => False

/-- What holds of a section that a call of `who` comes to in phase `ph`. -/
structure Permits (who : Caller) {α : Type} (call : KernelCall α) (k : Kernel) (ph : Phase)
    {β : Type} (a : Action β) : Prop where
  resumes : a.resumes = ph.blocked
  redeems : a.redeems = ph.ticket call
  polls : ∀ q, a.polls = some q → call.source = some q
  alive : ¬ ph.gone
  awaits : ∀ w, a.tries = some w → call.Awaits k w
  own : a.suspends → who = .thread k.current
  holds : ∀ q m, a.puts = some (q, m) → ph.Holds m
  hands : ∀ q m, a.puts = some (q, m) → call.Hands q m
  whole : call.stamps = none → ∀ q m, a.puts = some (q, m) → m ∈ ph.cargo
  sizes : ∀ shape, a.shape = some shape → call.slotSize = some shape.size
  fresh : ∀ d, a.adds = some d → d.Fresh ph
  reads : ∀ f, a.views = some f → ∀ k e, f k = .error e → ¬ e.IsBreach

variable (who : Caller) {γ : Type} (call : KernelCall γ)

/-- All sections that the program comes to from phase `ph` and kernel `k` on are permitted, and it
ends in `Q`. -/
def Keeps : {α : Type} → Program Unit α → (α → Kernel → Phase → Prop) → Kernel → Phase → Prop
  | _, .done a, Q, k, ph => Q a k ph
  | _, .ask r next, Q, k, ph =>
    match r, next with
    | .act a, next => ∀ c : Core, k.Precedes c.kernel → who.Runs call c.kernel →
        Permits who call c.kernel ph a ∧ ∀ b c', a.toSection c = .ok b c' →
          c.kernel.Precedes c'.kernel → Keeps (next (.ok b)) Q c'.kernel (ph.after ⟨a, b⟩)
    | .fault f, _ => f.IsBreach → f = .taskQueueCount ∧ ∃ o, ph.last = some o ∧ o.Missed
    | .put _ _, next => (ph.blocked = none ∧ ¬ ph.gone) ∧ ∀ b, Keeps (next b) Q k ph
    | .control _ _ _ _, next => (ph.blocked = none ∧ ¬ ph.gone) ∧ ∀ b, Keeps (next b) Q k ph
    | _, next => ∀ b, Keeps (next b) Q k ph
  | _, .loop (τ := τ) body t next, Q, k, ph => ∃ I : τ → Phase → Prop, I t ph ∧
      ∀ k', k.Precedes k' → ∀ t ph, I t ph →
        Keeps (body t) (fun r k' ph => match r with
          | .inl t => I t ph
          | .inr b => Keeps (next b) Q k' ph) k' ph

variable {who call}

namespace Keeps

variable {α β : Type} {k k' : Kernel} {ph : Phase}

theorem imp {p : Program Unit α} {Q Q' : α → Kernel → Phase → Prop} (h : Keeps who call p Q k ph)
    (hQ : ∀ a k' ph', k.Precedes k' → Q a k' ph' → Q' a k' ph') : Keeps who call p Q' k ph := by
  induction p generalizing k ph with
  | done a => exact hQ a k ph .rfl h
  | ask r next ih =>
    cases r
    case act a =>
      intro c hc hr
      refine ⟨(h c hc hr).1, fun b c' hb hc' => ?_⟩
      refine ih _ ((h c hc hr).2 b c' hb hc') fun a k' ph' hk => hQ a k' ph' ?_
      exact hc.trans (hc'.trans hk)
    case fault f => exact h
    case put r data => exact ⟨h.1, fun b => ih b (h.2 b) hQ⟩
    case control r data c arg => exact ⟨h.1, fun b => ih b (h.2 b) hQ⟩
    all_goals exact fun b => ih b (h b) hQ
  | loop body t next ihb ihn =>
    obtain ⟨I, hI, hbody⟩ := h
    refine ⟨I, hI, fun k' hk t ph ht => ihb t (hbody k' hk t ph ht) fun r k'' ph' hk' hr => ?_⟩
    cases r with
    | inl t => exact hr
    | inr b => exact ihn b hr fun a k₃ ph₃ hk₃ => hQ a k₃ ph₃ (hk.trans (hk'.trans hk₃))

theorem later {p : Program Unit α} {Q : α → Kernel → Phase → Prop} (h : Keeps who call p Q k ph)
    (hk : k.Precedes k') (hQ : ∀ a k k' ph, k.Precedes k' → Q a k ph → Q a k' ph) :
    Keeps who call p Q k' ph := by
  induction p with
  | done a => exact hQ a k k' ph hk h
  | ask r next ih =>
    cases r
    case act a => exact fun c hc => h c (hk.trans hc)
    case fault f => exact h
    case put r data => exact ⟨h.1, fun b => ih b (h.2 b) hQ⟩
    case control r data c arg => exact ⟨h.1, fun b => ih b (h.2 b) hQ⟩
    all_goals exact fun b => ih b (h b) hQ
  | loop body t next _ _ =>
    obtain ⟨I, hI, hbody⟩ := h
    exact ⟨I, hI, fun k₂ hk₂ => hbody k₂ (hk.trans hk₂)⟩

theorem bind {p : Program Unit α} {f : α → Program Unit β} {Q : β → Kernel → Phase → Prop}
    (h : Keeps who call p (fun a k' ph' => Keeps who call (f a) Q k' ph') k ph) :
    Keeps who call (p.bind f) Q k ph := by
  induction p generalizing k ph with
  | done a => exact h
  | ask r next ih =>
    cases r
    case act a =>
      intro c hc hr
      exact ⟨(h c hc hr).1, fun b c' hb hc' => ih _ ((h c hc hr).2 b c' hb hc')⟩
    case fault f => exact h
    case put r data => exact ⟨h.1, fun b => ih b (h.2 b)⟩
    case control r data c arg => exact ⟨h.1, fun b => ih b (h.2 b)⟩
    all_goals exact fun b => ih b (h b)
  | loop body t next ihb ihn =>
    obtain ⟨I, hI, hbody⟩ := h
    refine ⟨I, hI, fun k' hk t ph ht => (hbody k' hk t ph ht).imp fun r k'' ph' _ hr => ?_⟩
    cases r with
    | inl t => exact hr
    | inr b => exact ihn b hr

theorem unroll {τ : Type} {body : τ → Program Unit (τ ⊕ β)} {t : τ} {next : β → Program Unit α}
    {Q : α → Kernel → Phase → Prop} (h : Keeps who call (.loop body t next) Q k ph) :
    Keeps who call (Program.unroll body t next) Q k ph := by
  obtain ⟨I, hI, hbody⟩ := h
  refine bind ((hbody k .rfl t ph hI).imp fun r k' ph' hk hr => ?_)
  cases r with
  | inl t => exact ⟨I, hr, fun k₂ hk₂ => hbody k₂ (hk.trans hk₂)⟩
  | inr b => exact hr

end Keeps

end Rtos
