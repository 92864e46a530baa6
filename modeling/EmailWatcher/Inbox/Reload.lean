import EmailWatcher.Library.Machine
import Mathlib.Order.Lattice

-- When the inbox is loaded again, and how much of it.
namespace Inbox

inductive InboxRefreshIntent (τ : Type)
  | first
  | span (target : τ)
  deriving DecidableEq, Repr

structure Request (τ σ : Type) where
  epoch  : Int
  intent : InboxRefreshIntent τ
  scope  : Option σ
  deriving DecidableEq, Repr

-- What the page says of itself. At most one scope is current.
structure Options (σ : Type) where
  epoch   : Int
  blocked : Bool
  scope   : Option σ
  deriving DecidableEq, Repr

-- A call of `run`, and how many requests had been accepted when it was made.
structure Run (τ σ : Type) where
  id      : Nat
  request : Request τ σ
  since   : Nat
  deriving DecidableEq, Repr

structure InboxReload (τ σ : Type) where
  options  : Options σ
  pending  : Option (Request τ σ)
  active   : Option (Run τ σ)
  -- The runs that have not ended, whether or not they have been abandoned.
  runs     : List (Run τ σ)
  -- What has been, which the reload does not look at: how many requests were accepted, the accepted ones that have
  -- neither been cancelled nor been seen to be stale, all runs, and those that ended as the active one.
  accepted : Nat
  owed     : List (Nat × Request τ σ)
  log      : List (Run τ σ)
  finished : List (Run τ σ)
  deriving DecidableEq, Repr

inductive Action (τ σ : Type)
  | request (intent : InboxRefreshIntent τ) (scope : Option σ)
  | wake
  | running
  | cancel
  | finish  (id : Nat)
  | change  (options : Options σ)
  deriving DecidableEq, Repr

section Source

variable {τ σ : Type} [LinearOrder τ] [DecidableEq σ]

def combine (a b : InboxRefreshIntent τ) : InboxRefreshIntent τ :=
  match a, b with
  | .first,  b       => b
  | a,       .first  => a
  | .span t, .span u => .span (max t u)

def Options.currentScope (o : Options σ) (scope : Option σ) : Bool :=
  scope = none ∨ scope = o.scope

def Options.current (o : Options σ) (r : Request τ σ) : Bool :=
  r.epoch = o.epoch ∧ o.currentScope r.scope

namespace InboxReload

def initial (o : Options σ) : InboxReload τ σ where
  options  := o
  pending  := none
  active   := none
  runs     := []
  accepted := 0
  owed     := []
  log      := []
  finished := []

variable (s : InboxReload τ σ)

def synchronize : InboxReload τ σ := { s with
  pending := s.pending.filter s.options.current
  active  := s.active.filter (s.options.current ·.request)
  owed    := s.owed.filter (s.options.current ·.snd)
}

-- An independent scope-clear obligation survives a superseded effect.
def enqueue (r : Request τ σ) : InboxReload τ σ := { s with
  pending := some <|
    match s.pending with
    | none   => r
    | some p => { r with
        intent := combine p.intent r.intent
        scope  := if p.scope = none then none else r.scope
      }
}

def start (r : Request τ σ) : InboxReload τ σ :=
  let run := ⟨s.log.length, r, s.accepted⟩
  { s with
    pending := none
    active  := some run
    runs    := run :: s.runs
    log     := run :: s.log
  }

def cancel : InboxReload τ σ :=
  { s with pending := none, active := none, owed := [] }

def wake : InboxReload τ σ :=
  let s := s.synchronize
  if s.options.blocked then
    match s.active with
    | some run => { s.enqueue run.request with active := none }
    | none     => s
  else
    match s.pending, s.active with
    | some r, none => s.start r
    | _,      _    => s

def accept (intent : InboxRefreshIntent τ) (scope : Option σ) : InboxReload τ σ := { s with
  accepted := s.accepted + 1
  owed     := (s.accepted, ⟨s.options.epoch, intent, scope⟩) :: s.owed
}

-- `request`, and the run that the answer is taken from. Without one it is `false` at once.
def request (intent : InboxRefreshIntent τ) (scope : Option σ) : InboxReload τ σ × Option Nat :=
  let s := s.synchronize
  if s.options.currentScope scope then
    -- A newer invalidation must also restore the span of an interrupted refresh.
    let restored := s.active.elim intent fun run => combine run.request.intent intent
    let queued := (s.accept intent scope).enqueue ⟨s.options.epoch, restored, scope⟩
    match s.options.blocked, s.active, queued.pending with
    | false, none, some r => (queued.start r, some queued.log.length)
    | _,     _,    _      => (queued, none)
  else (s, none)

-- Whatever a run ends with, it clears and wakes only itself.
def finish (id : Nat) : InboxReload τ σ :=
  let ended := { s with runs := s.runs.filter (·.id ≠ id) }
  match s.active with
  | some run => if run.id = id then { ended with active := none, finished := run :: s.finished }.wake else ended
  | none     => ended

-- `current`, as a run sees it.
def isCurrent (run : Run τ σ) : Bool :=
  s.active.any (·.id = run.id) && s.options.current run.request

end InboxReload

def reload : Machine (InboxReload τ σ) (Action τ σ) Unit where
  step s
    | .request intent scope => .ok (s.request intent scope).fst
    | .wake                 => .ok s.wake
    | .running              => .ok s.synchronize
    | .cancel               => .ok s.cancel
    | .finish id            => if s.runs.any (·.id = id) then .ok (s.finish id) else .error ()
    | .change o             => .ok { s with options := o }

end Source

section Intents

variable {τ : Type} [LinearOrder τ] {a b c : InboxRefreshIntent τ}

-- What is loaded for the first intent is enough for the second.
def Reaches (a b : InboxRefreshIntent τ) : Prop :=
  combine a b = a

theorem reaches_self (a : InboxRefreshIntent τ) : Reaches a a := by
  cases a <;> simp [Reaches, combine]

theorem Reaches.combine_left (h : Reaches a b) : Reaches (combine a c) b := by
  cases a <;> cases b <;> cases c <;> simp_all [Reaches, combine]

theorem Reaches.combine_right (h : Reaches a b) : Reaches (combine c a) b := by
  cases a <;> cases b <;> cases c <;> simp_all [Reaches, combine]

end Intents

section Requests

variable {τ σ : Type} [LinearOrder τ] [DecidableEq σ] {p q r : Request τ σ} {o : Options σ}

structure Request.Serves (p r : Request τ σ) : Prop where
  epoch  : p.epoch = r.epoch
  scope  : p.scope = none ∨ p.scope = r.scope
  intent : Reaches p.intent r.intent

theorem Request.Serves.current (h : p.Serves r) (hr : o.current r) : o.current p := by
  simp only [Options.current, Options.currentScope, decide_eq_true_eq] at hr ⊢
  refine ⟨h.epoch.trans hr.left, ?_⟩
  obtain hs | hs := h.scope
  · exact .inl hs
  · rw [hs]
    exact hr.right

end Requests

namespace InboxReload

variable {τ σ : Type} [LinearOrder τ] [DecidableEq σ] {s : InboxReload τ σ} {i : Nat} {p q r : Request τ σ}

-- The pending request, or a run that was started after the first `i` requests.
inductive Covered (s : InboxReload τ σ) (i : Nat) (r : Request τ σ) : Prop
  | pending  (p : Request τ σ) (h : s.pending = some p) (hs : p.Serves r)
  | active   (run : Run τ σ) (h : s.active = some run) (hi : i < run.since) (hs : run.request.Serves r)
  | finished (run : Run τ σ) (h : run ∈ s.finished) (hi : i < run.since) (hs : run.request.Serves r)

section Enqueue

omit [DecidableEq σ] in
theorem pending_enqueue (hp : s.pending = some p) : (s.enqueue q).pending = some { q with
    intent := combine p.intent q.intent
    scope  := if p.scope = none then none else q.scope
  } := by
  simp only [enqueue, hp]

omit [DecidableEq σ] in
theorem enqueue_serves (h : q.Serves r) : ∃ m, (s.enqueue q).pending = some m ∧ m.Serves r := by
  cases hp : s.pending
  case none   => exact ⟨q, by simp only [enqueue, hp], h⟩
  case some p =>
    refine ⟨_, pending_enqueue hp, h.epoch, ?_, h.intent.combine_right⟩
    dsimp only
    split
    · exact .inl rfl
    · exact h.scope

-- What the pending request serves, and a scope of which it is free, are kept.
theorem enqueue_serves_pending (hp : s.pending = some p) (hc : s.options.current p) (hq : s.options.current q)
    (h : p.Serves r) : ∃ m, (s.enqueue q).pending = some m ∧ m.Serves r := by
  simp only [Options.current, Options.currentScope, decide_eq_true_eq] at hc hq
  refine ⟨_, pending_enqueue hp, (hq.left.trans hc.left.symm).trans h.epoch, ?_, h.intent.combine_left⟩
  dsimp only
  split
  case isTrue         => exact .inl rfl
  case isFalse hscope =>
    -- Both are of the one scope that is current.
    obtain hs | hs := hq.right
    · exact .inl hs
    · have hcurrent := hc.right.resolve_left hscope
      exact .inr <| (hs.trans hcurrent.symm).trans (h.scope.resolve_left hscope)

end Enqueue

section Steps

theorem Covered.synchronize (h : s.Covered i r) (hr : s.options.current r) : s.synchronize.Covered i r := by
  cases h
  case pending p hp hs        => exact .pending p (Option.filter_eq_some_iff.mpr ⟨hp, hs.current hr⟩) hs
  case active run ha hi hs    => exact .active run (Option.filter_eq_some_iff.mpr ⟨ha, hs.current hr⟩) hi hs
  case finished run hf hi hs  => exact .finished run hf hi hs

omit [DecidableEq σ] in
theorem Covered.start (h : s.Covered i r) (ha : s.active = none) (hp : s.pending = some p) (hi : i < s.accepted) :
    (s.start p).Covered i r := by
  cases h
  case pending p' hp' hs      =>
    cases hp.symm.trans hp'
    exact .active _ rfl hi hs
  case active run ha' hi hs   => cases ha.symm.trans ha'
  case finished run hf hi hs  => exact .finished run hf hi hs

theorem Covered.enqueue (h : s.Covered i r) (hp : ∀ p, s.pending = some p → s.options.current p)
    (hq : s.options.current q) : (s.enqueue q).Covered i r := by
  cases h
  case pending p hpending hs =>
    obtain ⟨m, hm, hserves⟩ := enqueue_serves_pending hpending (hp p hpending) hq hs
    exact .pending m hm hserves
  case active run ha hi hs   => exact .active run ha hi hs
  case finished run hf hi hs => exact .finished run hf hi hs

omit [LinearOrder τ] in
theorem synchronize_current :
    (∀ p, s.synchronize.pending = some p → s.synchronize.options.current p) ∧
    ∀ run, s.synchronize.active = some run → s.synchronize.options.current run.request :=
  ⟨fun _ hp => (Option.filter_eq_some_iff.mp hp).right, fun _ ha => (Option.filter_eq_some_iff.mp ha).right⟩

-- What is covered stays covered as long as it is current.
theorem Covered.wake (h : s.Covered i r) (hr : s.options.current r) (hi : i < s.accepted) :
    s.wake.Covered i r := by
  have hcovered := h.synchronize hr
  have haccepted : s.synchronize.accepted = s.accepted := rfl
  obtain ⟨hpending, hactive⟩ := s.synchronize_current
  rw [InboxReload.wake]
  generalize s.synchronize = s' at hcovered haccepted hpending hactive
  simp only
  split
  · split
    case h_2        => exact hcovered
    case h_1 run ha =>
      cases hcovered
      case pending p hp hs       =>
        obtain ⟨m, hm, hserves⟩ := enqueue_serves_pending hp (hpending p hp) (hactive run ha) hs
        exact .pending m hm hserves
      case active run' ha' hi hs =>
        cases ha.symm.trans ha'
        obtain ⟨m, hm, hserves⟩ := enqueue_serves (s := s') hs
        exact .pending m hm hserves
      case finished run' hf hi hs => exact .finished run' hf hi hs
  · split
    case h_1 p hp ha => exact hcovered.start ha hp (haccepted ▸ hi)
    case h_2         => exact hcovered

-- A request that is accepted is covered, and what was covered before stays so.
theorem request_covered {intent : InboxRefreshIntent τ} {scope : Option σ}
    (h : s.Covered i r ∧ s.options.current r ∧ i < s.accepted ∨
      i = s.accepted ∧ r = ⟨s.options.epoch, intent, scope⟩)
    (ha : s.options.currentScope scope) : (s.request intent scope).fst.Covered i r := by
  rw [request]
  have hcovered : s.Covered i r ∧ s.options.current r ∧ i < s.accepted → s.synchronize.Covered i r :=
    fun h => h.left.synchronize h.right.left
  have haccepted : s.synchronize.accepted = s.accepted := rfl
  have hoptions : s.synchronize.options = s.options := rfl
  obtain ⟨hpending, -⟩ := s.synchronize_current
  generalize s.synchronize = s' at hcovered haccepted hoptions hpending
  simp only [hoptions, ha, if_true]
  generalize hrestored : s'.active.elim intent (fun run => combine run.request.intent intent) = restored
  have hreaches : Reaches restored intent := by
    subst hrestored
    cases s'.active
    case none     => exact reaches_self intent
    case some run => exact (reaches_self intent).combine_right
  have hcurrent : s.options.current (⟨s.options.epoch, restored, scope⟩ : Request τ σ) := by
    simp [Options.current, ha]
  have hqueued : ((s'.accept intent scope).enqueue ⟨s.options.epoch, restored, scope⟩).Covered i r := by
    obtain hold | ⟨-, rfl⟩ := h
    · refine Covered.enqueue (s := s'.accept intent scope) ?_ hpending (hoptions ▸ hcurrent)
      cases hcovered hold
      case pending p hp hs       => exact .pending p hp hs
      case active run ha hi hs   => exact .active run ha hi hs
      case finished run hf hi hs => exact .finished run hf hi hs
    · obtain ⟨m, hm, hserves⟩ := enqueue_serves (s := s'.accept intent scope) (q := ⟨s.options.epoch, restored, scope⟩)
        (r := ⟨s.options.epoch, intent, scope⟩) ⟨rfl, .inr rfl, hreaches⟩
      exact .pending m hm hserves
  have hi : i < (s'.accept intent scope).accepted := by
    change i < s'.accepted + 1
    omega
  split
  case h_1 hnone hp => exact hqueued.start hnone hp hi
  case h_2          => exact hqueued

-- A run that ends has done what it was started for, unless it was superseded.
theorem Covered.finish {id : Nat} (h : s.Covered i r) (hr : s.active.any (·.id = id) → s.options.current r)
    (hi : i < s.accepted) : (s.finish id).Covered i r := by
  rw [InboxReload.finish]
  cases ha : s.active
  case none     =>
    cases h
    case pending p hp hs       => exact .pending p hp hs
    case active run ha' hi hs  => cases ha.symm.trans ha'
    case finished run hf hi hs => exact .finished run hf hi hs
  case some run =>
    simp only
    split
    case isTrue hid  =>
      refine Covered.wake ?_ (hr (by simp [ha, hid])) hi
      cases h
      case pending p hp hs        => exact .pending p hp hs
      case active run' ha' hi hs  =>
        cases ha.symm.trans ha'
        exact .finished run List.mem_cons_self hi hs
      case finished run' hf hi hs => exact .finished run' (List.mem_cons_of_mem _ hf) hi hs
    case isFalse hid =>
      cases h
      case pending p hp hs        => exact .pending p hp hs
      case active run' ha' hi hs  =>
        cases ha.symm.trans ha'
        exact .active run rfl hi hs
      case finished run' hf hi hs => exact .finished run' hf hi hs

end Steps

section Owed

variable {x : Nat × Request τ σ} {id : Nat} {intent : InboxRefreshIntent τ} {scope : Option σ}

omit [LinearOrder τ] in
theorem mem_synchronize_owed : x ∈ s.synchronize.owed ↔ x ∈ s.owed ∧ s.options.current x.snd :=
  List.mem_filter

theorem wake_history : s.wake.owed = s.synchronize.owed ∧ s.wake.accepted = s.accepted := by
  have haccepted : s.synchronize.accepted = s.accepted := rfl
  rw [wake]
  generalize s.synchronize = s' at haccepted
  simp only
  split <;> split <;> exact ⟨rfl, haccepted⟩

theorem mem_finish_owed :
    x ∈ (s.finish id).owed ↔ x ∈ s.owed ∧ (s.active.any (·.id = id) → s.options.current x.snd) := by
  rw [finish]
  cases ha : s.active
  case none     => simp
  case some run =>
    simp only
    split
    case isTrue hid  =>
      rw [wake_history.left, mem_synchronize_owed]
      simp [hid]
    case isFalse hid => simp [hid]

theorem finish_accepted : (s.finish id).accepted = s.accepted := by
  rw [finish]
  split
  · split
    · rw [wake_history.right]
    · rfl
  · rfl

theorem mem_request_owed :
    x ∈ (s.request intent scope).fst.owed ↔ (x ∈ s.owed ∧ s.options.current x.snd) ∨
      (s.options.currentScope scope ∧ x = (s.accepted, ⟨s.options.epoch, intent, scope⟩)) := by
  rw [request]
  simp only
  have hoptions : s.synchronize.options = s.options := rfl
  have haccepted : s.synchronize.accepted = s.accepted := rfl
  rw [← mem_synchronize_owed, or_comm]
  generalize s.synchronize = s' at hoptions haccepted
  rw [← hoptions, ← haccepted]
  split
  case isTrue ha  =>
    split <;> simp [start, enqueue, accept, ha]
  case isFalse ha => simp [ha]

theorem request_accepted :
    (s.request intent scope).fst.accepted = s.accepted + if s.options.currentScope scope then 1 else 0 := by
  rw [request]
  simp only
  have hoptions : s.synchronize.options = s.options := rfl
  have haccepted : s.synchronize.accepted = s.accepted := rfl
  generalize s.synchronize = s' at hoptions haccepted
  rw [← hoptions, ← haccepted]
  split
  · split <;> rfl
  · rfl

end Owed

section Runs

-- The runs that were started are told apart by their numbers, and the active one is of them.
structure Numbered (s : InboxReload τ σ) : Prop where
  active : ∀ run, s.active = some run → run ∈ s.log
  below  : ∀ run ∈ s.log, run.id < s.log.length
  unique : ∀ run ∈ s.log, ∀ run' ∈ s.log, run.id = run'.id → run = run'

variable {s' : InboxReload τ σ}

-- What is done to the active run: it is replaced by a new one, or it is kept, or there is none.
inductive Turns (s s' : InboxReload τ σ) : Prop
  | stay  (hl : s'.log = s.log) (ha : ∀ run, s'.active = some run → s.active = some run)
  | start (run : Run τ σ) (hl : s'.log = run :: s.log) (ha : s'.active = some run) (hi : run.id = s.log.length)

omit [LinearOrder τ] [DecidableEq σ] in
theorem Numbered.turn (h : s.Numbered) (ht : s.Turns s') : s'.Numbered := by
  cases ht
  case stay hl ha          =>
    refine ⟨fun run hr => hl ▸ h.active run (ha run hr), ?_, ?_⟩ <;> rw [hl]
    · exact h.below
    · exact h.unique
  case start run hl ha hi =>
    refine ⟨fun run' hr => ?_, fun run' hr => ?_, fun run₁ h₁ run₂ h₂ heq => ?_⟩
    · cases ha.symm.trans hr
      rw [hl]
      exact List.mem_cons_self
    · rw [hl] at hr ⊢
      rw [List.length_cons]
      obtain rfl | hr := List.mem_cons.mp hr
      · omega
      · exact Nat.lt_succ_of_lt (h.below run' hr)
    · rw [hl] at h₁ h₂
      obtain he₁ | hm₁ := List.mem_cons.mp h₁ <;> obtain he₂ | hm₂ := List.mem_cons.mp h₂
      · rw [he₁, he₂]
      · exact absurd (h.below run₂ hm₂) (by rw [← heq, he₁]; omega)
      · exact absurd (h.below run₁ hm₁) (by rw [heq, he₂]; omega)
      · exact h.unique run₁ hm₁ run₂ hm₂ heq

omit [LinearOrder τ] in
theorem turns_synchronize : s.Turns s.synchronize :=
  .stay rfl fun _ ha => (Option.filter_eq_some_iff.mp ha).left

theorem turns_wake : s.Turns s.wake := by
  have hl : s.synchronize.log = s.log := rfl
  have ha : ∀ run, s.synchronize.active = some run → s.active = some run :=
    fun _ ha => (Option.filter_eq_some_iff.mp ha).left
  rw [wake]
  generalize s.synchronize = s' at hl ha
  simp only
  split
  · split
    case h_1 => exact .stay hl nofun
    case h_2 => exact .stay hl ha
  · split
    case h_1 => exact .start _ (congrArg _ hl) rfl (congrArg _ hl)
    case h_2 => exact .stay hl ha

theorem turns_request {intent : InboxRefreshIntent τ} {scope : Option σ} :
    s.Turns (s.request intent scope).fst := by
  have hl : s.synchronize.log = s.log := rfl
  have ha : ∀ run, s.synchronize.active = some run → s.active = some run :=
    fun _ ha => (Option.filter_eq_some_iff.mp ha).left
  rw [request]
  generalize s.synchronize = s' at hl ha
  simp only
  split
  · split
    case h_1 => exact .start _ (congrArg _ hl) rfl (congrArg _ hl)
    case h_2 => exact .stay hl ha
  · exact .stay hl ha

-- A superseded run clears nothing and wakes nothing.
theorem finish_superseded {id : Nat} (h : ∀ run, s.active = some run → run.id ≠ id) :
    s.finish id = { s with runs := s.runs.filter (·.id ≠ id) } := by
  rw [finish]
  cases ha : s.active
  case none     => rfl
  case some run => simp [h run ha]

theorem turns_finish {id : Nat} : s.Turns (s.finish id) := by
  by_cases hid : ∃ run, s.active = some run ∧ run.id = id
  · obtain ⟨run, ha, hid⟩ := hid
    simp only [finish, ha, hid, if_true]
    obtain ⟨hl, ha'⟩ | ⟨run', hl, ha', hi⟩ := turns_wake
      (s := { s with active := none, runs := s.runs.filter (·.id ≠ id), finished := run :: s.finished })
    · exact .stay hl fun run' hr => nomatch ha' run' hr
    · exact .start run' hl ha' hi
  · rw [finish_superseded fun run ha hi => hid ⟨run, ha, hi⟩]
    exact .stay rfl fun _ ha => ha

theorem turns_step {a : Action τ σ} (h : reload.step s a = .ok s') : s.Turns s' := by
  cases a
  case request intent scope =>
    cases h
    exact turns_request
  case wake      =>
    cases h
    exact turns_wake
  case running   =>
    cases h
    exact turns_synchronize
  case cancel    =>
    cases h
    exact .stay rfl nofun
  case finish id =>
    simp only [reload] at h
    split at h <;> cases h
    exact turns_finish
  case change o  =>
    cases h
    exact .stay rfl fun _ ha => ha

end Runs

-- Every request that is owed is covered.
structure Sound (s : InboxReload τ σ) : Prop where
  numbered : s.Numbered
  below    : ∀ x ∈ s.owed, x.fst < s.accepted
  covered  : ∀ x ∈ s.owed, s.Covered x.fst x.snd

section Sound

variable {s' : InboxReload τ σ} {a : Action τ σ}

omit [DecidableEq σ] in
theorem Sound.initial (o : Options σ) : (initial o : InboxReload τ σ).Sound where
  numbered := ⟨nofun, nofun, nofun⟩
  below    := nofun
  covered  := nofun

theorem Sound.step (h : s.Sound) (hstep : reload.step s a = .ok s') : s'.Sound := by
  have hnumbered := h.numbered.turn (turns_step hstep)
  cases a
  case request intent scope =>
    cases hstep
    refine ⟨hnumbered, fun x hx => ?_, fun x hx => ?_⟩ <;> obtain ⟨hx, hr⟩ | ⟨ha, rfl⟩ := mem_request_owed.mp hx
    · have hlt := h.below x hx
      rw [request_accepted]
      omega
    · rw [request_accepted, if_pos ha]
      exact Nat.lt_succ_self _
    · by_cases ha : s.options.currentScope scope
      · exact request_covered (.inl ⟨h.covered x hx, hr, h.below x hx⟩) ha
      · simp only [request, synchronize, ha]
        exact (h.covered x hx).synchronize hr
    · exact request_covered (.inr ⟨rfl, rfl⟩) ha
  case wake      =>
    cases hstep
    obtain ⟨howed, haccepted⟩ := s.wake_history
    refine ⟨hnumbered, fun x hx => ?_, fun x hx => ?_⟩ <;> rw [howed, mem_synchronize_owed] at hx
    · rw [haccepted]
      exact h.below x hx.left
    · exact (h.covered x hx.left).wake hx.right (h.below x hx.left)
  case running   =>
    cases hstep
    refine ⟨hnumbered, fun x hx => ?_, fun x hx => ?_⟩ <;> rw [mem_synchronize_owed] at hx
    · exact h.below x hx.left
    · exact (h.covered x hx.left).synchronize hx.right
  case cancel    =>
    cases hstep
    exact ⟨hnumbered, nofun, nofun⟩
  case finish id =>
    simp only [reload] at hstep
    split at hstep <;> cases hstep
    refine ⟨hnumbered, fun x hx => ?_, fun x hx => ?_⟩ <;> rw [mem_finish_owed] at hx
    · rw [finish_accepted]
      exact h.below x hx.left
    · exact (h.covered x hx.left).finish hx.right (h.below x hx.left)
  case change o  =>
    cases hstep
    refine ⟨hnumbered, h.below, fun x hx => ?_⟩
    cases h.covered x hx
    case pending p hp hs       => exact .pending p hp hs
    case active run ha hi hs   => exact .active run ha hi hs
    case finished run hf hi hs => exact .finished run hf hi hs

theorem sound_run (o : Options σ) (as : List (Action τ σ)) : (reload.run (initial o) as).Sound :=
  Machine.invariant (fun _ _ _ => Sound.step) (.initial o) as

-- A request is owed for as long as it is current, unless it is cancelled.
theorem owed_step {x : Nat × Request τ σ} (hx : x ∈ s.owed) (ha : a ≠ .cancel)
    (hr : s.options.current x.snd) : x ∈ (reload.next s a).owed := by
  cases a
  case request intent scope => exact mem_request_owed.mpr (.inl ⟨hx, hr⟩)
  case wake                 =>
    change x ∈ s.wake.owed
    rw [wake_history.left, mem_synchronize_owed]
    exact ⟨hx, hr⟩
  case running              => exact mem_synchronize_owed.mpr ⟨hx, hr⟩
  case cancel               => exact absurd rfl ha
  case finish id            =>
    simp only [Machine.next, reload]
    split
    case h_1 s' hs' =>
      split at hs' <;> cases hs'
      exact mem_finish_owed.mpr ⟨hx, fun _ => hr⟩
    case h_2        => exact hx
  case change o             => exact hx

theorem owed_run {x : Nat × Request τ σ} {as : List (Action τ σ)} (hx : x ∈ s.owed) (ha : .cancel ∉ as)
    (hr : reload.Always (·.options.current x.snd) s as) : x ∈ (reload.run s as).owed := by
  induction as generalizing s
  case nil          => exact hx
  case cons a as ih =>
    rw [List.mem_cons, not_or] at ha
    exact ih (owed_step hx (Ne.symm ha.left) hr.head) ha.right hr.right

-- Once it has been given up, a run never gets back.
theorem superseded_run {run : Run τ σ} (h : s.Numbered) (hr : run ∈ s.log) (ha : s.active ≠ some run)
    (as : List (Action τ σ)) : (reload.run s as).active ≠ some run := by
  have hrun : (reload.run s as).Numbered ∧ run ∈ (reload.run s as).log ∧ (reload.run s as).active ≠ some run := by
    refine Machine.invariant (m := reload)
      (I := fun s : InboxReload τ σ => s.Numbered ∧ run ∈ s.log ∧ s.active ≠ some run) ?_ ⟨h, hr, ha⟩ as
    rintro s a s' ⟨h, hr, ha⟩ hstep
    have hturns := turns_step hstep
    refine ⟨h.turn hturns, ?_⟩
    obtain ⟨hl, hstay⟩ | ⟨run', hl, hstart, hi⟩ := hturns
    · exact ⟨hl ▸ hr, fun ha' => ha (hstay run ha')⟩
    · refine ⟨hl ▸ List.mem_cons_of_mem _ hr, fun ha' => ?_⟩
      cases hstart.symm.trans ha'
      exact absurd (h.below run hr) (by omega)
  exact hrun.right.right

end Sound

-- Whatever is asked for, and in whatever order the runs end, no request is lost.
theorem obligations_kept (o : Options σ) :
    (∀ (as bs : List (Action τ σ)) intent scope,
      let s := reload.run (initial o) as
      let r := ⟨s.options.epoch, intent, scope⟩
      s.options.currentScope scope → .cancel ∉ bs →
      reload.Always (·.options.current r) s (.request intent scope :: bs) →
      (reload.run s (.request intent scope :: bs)).Covered s.accepted r) ∧
    (∀ as : List (Action τ σ),
      let s := reload.run (initial o) as
      ∀ run ∈ s.log, ∀ run' ∈ s.log, s.isCurrent run → s.isCurrent run' → run = run') ∧
    (∀ (as bs : List (Action τ σ)) run,
      let s := reload.run (initial o) as
      run ∈ s.log → s.active ≠ some run →
      (s.finish run.id).pending = s.pending ∧ (s.finish run.id).active = s.active ∧
      (reload.run s bs).active ≠ some run) ∧
    ∀ as : List (Action τ σ),
      let s := reload.run (initial o) as
      ¬s.options.blocked → s.synchronize.active = none → ∀ p, s.synchronize.pending = some p →
      ∃ run, s.wake.active = some run ∧ run.request = p ∧ s.wake.pending = none := by
  refine ⟨fun as bs intent scope => ?_, fun as => ?_, fun as bs run => ?_, fun as => ?_⟩
  all_goals
    intro s
    have hs : s.Sound := sound_run o as
  · intro r hscope hcancel hcurrent
    have howed : (s.accepted, r) ∈ (reload.next s (.request intent scope)).owed :=
      mem_request_owed.mpr (.inr ⟨hscope, rfl⟩)
    have hrun := Machine.invariant (m := reload) (fun _ _ _ => Sound.step) hs (.request intent scope :: bs)
    have hrest := owed_run howed hcancel hcurrent.right
    exact hrun.covered _ hrest
  · intro run hr run' hr' hc hc'
    simp only [isCurrent, Bool.and_eq_true, Option.any_eq_true, decide_eq_true_eq] at hc hc'
    obtain ⟨⟨a, ha, hi⟩, -⟩ := hc
    obtain ⟨⟨a', ha', hi'⟩, -⟩ := hc'
    cases ha.symm.trans ha'
    exact hs.numbered.unique run hr run' hr' (hi.symm.trans hi')
  · intro hr ha
    have hfinish : s.finish run.id = { s with runs := s.runs.filter (·.id ≠ run.id) } :=
      finish_superseded fun a ha' hi => ha <| by rw [ha', hs.numbered.unique a (hs.numbered.active a ha') run hr hi]
    rw [hfinish]
    exact ⟨rfl, rfl, superseded_run hs.numbered hr ha bs⟩
  · intro hblocked ha p hp
    have hoptions : s.synchronize.options = s.options := rfl
    refine ⟨⟨s.synchronize.log.length, p, s.synchronize.accepted⟩, ?_⟩
    simp [wake, hoptions, hblocked, ha, hp, start]

end InboxReload

end Inbox
