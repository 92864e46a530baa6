import EmailWatcher.SourceLocks.Protocol
import Mathlib.Order.BooleanAlgebra.Set

-- What a thread knows of the state while it is at work.
namespace SourceLocks

open Script

variable [Codec] {ι : Type}

section Views

-- The locks that a frozen set stands for. One that has been frozen before the qualification keeps the
-- selection locked.
def Frozen.locks (f : Frozen) : Set Lock :=
  if f.ready then {l | ∃ m ∈ f.ids, l = .stripe (sourceLockStripe m)}
  else {l | l = .selection ∨ ∃ m ∈ f.ids, l = .legacy (Codec.sourceLockName m)}

-- The part of the state that is a thread's own, and whether the protocol is known to be qualified.
structure Local where
  locks     : Set Lock
  selection : Option Frozen
  context   : Option (List Nat)
  bodies    : List Frozen
  ready     : Option Bool

namespace Local

structure Valid (v : Local) : Prop where
  -- That the protocol is not qualified is known only to who keeps it from being so.
  guarded   : v.ready = some false → .selection ∈ v.locks
  context   : ∀ ns, v.context = some ns → ∀ n ∈ ns, .stripe n ∈ v.locks
  bodies    : ∀ f ∈ v.bodies, v.ready = some f.ready ∧ f.locks ⊆ v.locks
  selection : v.selection = v.bodies.getLast?
  outer     : ∀ f, v.bodies.getLast? = some f → v.locks ⊆ f.locks

-- A thread that is in no body.
def plain (locks : Set Lock) (context : Option (List Nat)) (ready : Option Bool) : Local where
  locks     := locks
  selection := none
  context   := context
  bodies    := []
  ready     := ready

def idle : Local :=
  plain ∅ none none

theorem valid_plain {locks : Set Lock} {context : Option (List Nat)} {ready : Option Bool}
    (hg : ready = some false → .selection ∈ locks)
    (hc : ∀ ns, context = some ns → ∀ n ∈ ns, .stripe n ∈ locks) : (plain locks context ready).Valid :=
  ⟨hg, hc, nofun, rfl, nofun⟩

theorem valid_bare {locks : Set Lock} : (plain locks none none).Valid :=
  valid_plain nofun nofun

theorem valid_qualified {locks : Set Lock} : (plain locks none (some true)).Valid :=
  valid_plain nofun nofun

theorem valid_idle : idle.Valid :=
  valid_bare

end Local

structure View (i : ι) (v : Local) (s : State ι) : Prop where
  locks     : ∀ l, s.owner l = some i ↔ l ∈ v.locks
  selection : s.selection i = v.selection
  context   : s.context i = v.context
  bodies    : s.bodies i = v.bodies
  ready     : ∀ b, v.ready = some b → (s.protocol = some sourceLockProtocol ↔ b = true)

-- Every thread has a view of its own.
def Sound (s : State ι) : Prop :=
  ∀ i, ∃ v : Local, v.Valid ∧ View i v s

structure At (i : ι) (v : Local) (s : State ι) : Prop where
  sound : Sound s
  valid : v.Valid
  view  : View i v s

-- What the other threads leave to the thread `i`.
structure Respects (i : ι) (s s' : State ι) : Prop where
  sound     : Sound s'
  owner     : ∀ l, s'.owner l = some i ↔ s.owner l = some i
  selection : s'.selection i = s.selection i
  context   : s'.context i = s.context i
  bodies    : s'.bodies i = s.bodies i
  recorded  : s.protocol = some sourceLockProtocol → s'.protocol = some sourceLockProtocol
  guarded   : s.owner .selection = some i → s'.protocol = s.protocol

-- What a step of the thread `i` may touch.
structure Frame (i : ι) (s s' : State ι) : Prop where
  owner     : ∀ j, j ≠ i → ∀ l, s'.owner l = some j ↔ s.owner l = some j
  selection : ∀ j, j ≠ i → s'.selection j = s.selection j
  context   : ∀ j, j ≠ i → s'.context j = s.context j
  bodies    : ∀ j, j ≠ i → s'.bodies j = s.bodies j
  protocol  : s'.protocol = s.protocol ∨
    (s.owner .selection = some i ∧ s'.protocol = some sourceLockProtocol)

variable {i j : ι} {v v' : Local} {s s' : State ι}

theorem View.of_kept (hv : v.Valid) (h : View i v s) (ho : ∀ l, s'.owner l = some i ↔ s.owner l = some i)
    (hs : s'.selection i = s.selection i) (hc : s'.context i = s.context i)
    (hb : s'.bodies i = s.bodies i)
    (hr : s.protocol = some sourceLockProtocol → s'.protocol = some sourceLockProtocol)
    (hg : s.owner .selection = some i → s'.protocol = s.protocol) : View i v s' where
  locks l   := (ho l).trans (h.locks l)
  selection := hs.trans h.selection
  context   := hc.trans h.context
  bodies    := hb.trans h.bodies
  ready b hb := by
    have hs := h.ready b hb
    cases b
    case false => rwa [hg ((h.locks _).mpr (hv.guarded hb))]
    case true  => exact iff_of_true (hr (hs.mpr rfl)) rfl

theorem View.respects (hv : v.Valid) (h : View i v s) (hr : Respects i s s') : View i v s' :=
  h.of_kept hv hr.owner hr.selection hr.context hr.bodies hr.recorded hr.guarded

theorem At.stable : Stable (Respects i) (At i v) :=
  fun _ _ h hr => ⟨hr.sound, h.valid, h.view.respects h.valid hr⟩

-- A view that knows less.
theorem At.forget (h : At i v s) (hb : v.bodies = []) : At i { v with ready := none } s where
  sound := h.sound
  valid := ⟨nofun, h.valid.context, by simp [hb], h.valid.selection, h.valid.outer⟩
  view  := ⟨h.view.locks, h.view.selection, h.view.context, h.view.bodies, nofun⟩

-- A step that leaves the others alone, and a view afterwards.
theorem At.step {u : Local} {t : State ι} (h : At i v s) (hf : Frame i s t) (hv : u.Valid)
    (hview : View i u t) : Allowed Sound Respects i s t ∧ At i u t := by
  have hrecorded (hp : s.protocol = some sourceLockProtocol) :
      t.protocol = some sourceLockProtocol := by
    rcases hf.protocol with he | ⟨-, he⟩
    · exact he.trans hp
    · exact he
  have hguarded (j : ι) (hj : j ≠ i) (ho : s.owner .selection = some j) :
      t.protocol = s.protocol := by
    rcases hf.protocol with he | ⟨hi, -⟩
    · exact he
    · exact absurd (Option.some.inj (ho.symm.trans hi)) hj
  have hsound : Sound t := by
    intro j
    by_cases hj : j = i
    · exact hj ▸ ⟨u, hv, hview⟩
    · obtain ⟨w, hw, hview⟩ := h.sound j
      exact ⟨w, hw, hview.of_kept hw (hf.owner j hj) (hf.selection j hj) (hf.context j hj)
        (hf.bodies j hj) hrecorded (hguarded j hj)⟩
  refine ⟨⟨hsound, fun j hj => ?_⟩, hsound, hv, hview⟩
  exact ⟨hsound, hf.owner j hj, hf.selection j hj, hf.context j hj, hf.bodies j hj, hrecorded,
    hguarded j hj⟩

-- What is read of the protocol agrees with what is known, and is known from then on where the guard
-- makes sure that it stays so.
structure Learned (i : ι) (v : Local) (b : Bool) (s : State ι) : Prop where
  here   : At i v s
  agrees : ∀ b', v.ready = some b' → b = b'
  known  : v.bodies = [] → (b = false → .selection ∈ v.locks) → At i { v with ready := some b } s

theorem Learned.stable {b : Bool} : Stable (Respects i) (Learned i v b) :=
  fun _ _ h hr => ⟨At.stable _ _ h.here hr, h.agrees, fun hb hg => At.stable _ _ (h.known hb hg) hr⟩

theorem At.learn {b : Bool} (h : At i v s) (hp : s.protocol = some sourceLockProtocol ↔ b = true) :
    Learned i v b s where
  here       := h
  agrees b' hb' := by
    have := (hp.symm.trans (h.view.ready b' hb'))
    cases b <;> cases b' <;> simp_all
  known hb hg := by
    refine ⟨h.sound, ⟨fun hf => hg (Option.some.inj hf), h.valid.context, by simp [hb],
      h.valid.selection, h.valid.outer⟩, h.view.locks, h.view.selection, h.view.context,
      h.view.bodies, ?_⟩
    intro b' hb'
    obtain rfl := Option.some.inj hb'
    exact hp

end Views

section Steps

variable {α β : Type} {i : ι} {c : Circumstances} {v v' : Local} {s : State ι} {l : Lock} {message : String}

-- The programs of the thread `i`.
abbrev Obeying (i : ι) (Q : Except Failure α → State ι → Prop) : Program ι α → State ι → Prop :=
  Obeys (Respects i) (Allowed Sound Respects i) Q

theorem step_obeys {w : State ι → State ι} (h : At i v s) (hv : v'.Valid)
    (hw : ∀ s, At i v s → Frame i s (w s) ∧ View i v' (w s)) :
    Obeying i (fun r s => r = .ok () ∧ At i v' s) (step w fun _ => ret ()) s := by
  refine Obeys.of_step At.stable (fun s hs => ?_) h
  obtain ⟨hf, hview⟩ := hw s hs
  obtain ⟨hallowed, hs'⟩ := hs.step hf hv hview
  exact ⟨hallowed, Obeys.of_pure At.stable (fun _ h => ⟨rfl, h⟩) hs'⟩

theorem pure_obeys {a : α} (h : At i v s) :
    Obeying i (fun r s => r = .ok a ∧ At i v s) (pure a) s :=
  Obeys.of_pure At.stable (fun _ h => ⟨rfl, h⟩) h

theorem raise_obeys {e : Failure} (h : At i v s) :
    Obeying (α := α) i (fun _ s => At i v s) (raise e) s :=
  Obeys.of_raise At.stable (fun _ h => h) h

theorem done_obeys {x : Except Failure α} (h : At i v s) :
    Obeying i (fun r s => r = x ∧ At i v s) (done x) s := by
  cases x
  case ok a    => exact Obeys.of_pure At.stable (fun _ h => ⟨rfl, h⟩) h
  case error e => exact Obeys.of_raise At.stable (fun _ h => ⟨rfl, h⟩) h

theorem require_obeys {p : Prop} [Decidable p] {e : Failure} (h : At i v s) :
    Obeying i (fun r s => (r = .ok () → p) ∧ At i v s) (Script.require p e) s := by
  unfold Script.require
  split
  case isTrue hp => exact Obeys.of_pure At.stable (fun _ h => ⟨fun _ => hp, h⟩) h
  case isFalse   => exact Obeys.of_raise At.stable (fun _ h => ⟨nofun, h⟩) h

-- What is read of a thread's own part of the state.
theorem read_obeys {g : State ι → α} {a : α} (hg : ∀ s, View i v s → g s = a) (h : At i v s) :
    Obeying i (fun r s => r = .ok a ∧ At i v s) (Script.read g) s := by
  refine Obeys.of_step At.stable (fun s hs => ?_) h
  obtain ⟨hallowed, -⟩ := hs.step (t := s) ⟨fun _ _ _ => .rfl, fun _ _ => rfl, fun _ _ => rfl,
    fun _ _ => rfl, .inl rfl⟩ hs.valid hs.view
  exact ⟨hallowed, Obeys.of_pure At.stable (fun _ h => ⟨by rw [hg _ hs.view], h⟩) hs⟩

theorem protocolReady_obeys [DecidableEq ι] (h : At i v s) :
    Obeying i (fun r s => At i v s ∧ ∀ b, r = .ok b → Learned i v b s) protocolReady s := by
  refine Obeys.bind
    (Q := fun r s => ∃ p, r = .ok p ∧ Learned i v (decide (p = some sourceLockProtocol)) s) ?_ ?_ ?_
  · refine Obeys.of_step At.stable (fun s hs => ?_) h
    obtain ⟨hallowed, -⟩ := hs.step (t := s) ⟨fun _ _ _ => .rfl, fun _ _ => rfl, fun _ _ => rfl,
      fun _ _ => rfl, .inl rfl⟩ hs.valid hs.view
    exact ⟨hallowed, Obeys.of_pure Learned.stable (fun _ h => ⟨_, rfl, h⟩) (hs.learn (by simp))⟩
  · rintro p s ⟨_, hp, h⟩
    cases hp
    cases p
    case none =>
      refine Obeys.of_pure Learned.stable (fun s h => ⟨h.here, fun b hb => ?_⟩) h
      cases hb
      exact h
    case some value =>
      by_cases hv : value = sourceLockProtocol
      case pos =>
        simp only [Script.require_bind hv]
        refine Obeys.of_pure Learned.stable (fun s h => ⟨h.here, fun b hb => ?_⟩) h
        cases hb
        simpa [hv] using h
      case neg =>
        simp only [Script.require, if_neg hv]
        exact Obeys.of_raise At.stable (fun s h => ⟨h, fun b hb => by cases hb⟩) h.here
  · rintro _ s ⟨p, hp, -⟩
    cases hp

end Steps

end SourceLocks
