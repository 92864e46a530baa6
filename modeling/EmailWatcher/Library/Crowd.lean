import EmailWatcher.Library.Script
import Mathlib.Logic.Function.Basic

-- Any number of processes that work on one state step by step, any of which may die.
namespace Script

variable {σ ε α β : Type}

section Obligations

-- What the others do, and what the script may do.
variable (R G : σ → σ → Prop)

-- As long as the others do what `R` allows, every step of the script does what `G` allows, and `Q` holds
-- at its end.
def Obeys (Q : Except ε α → σ → Prop) : Script σ ε α → σ → Prop
  | ret a,           s => ∀ s', Relation.ReflTransGen R s s' → Q (.ok a) s'
  | raise e,         s => ∀ s', Relation.ReflTransGen R s s' → Q (.error e) s'
  | step write next, s =>
    ∀ s', Relation.ReflTransGen R s s' → G s' (write s') ∧ Obeys Q (next s') (write s')

variable {R G} {Q Q' : Except ε α → σ → Prop} {P : Except ε β → σ → Prop} {A : σ → Prop}
  {x : Script σ ε α} {f : α → Script σ ε β} {s s' : σ}

namespace Obeys

theorem interfere (h : Obeys R G Q x s) (hr : Relation.ReflTransGen R s s') : Obeys R G Q x s' := by
  cases x <;> exact fun s'' hr' => h s'' (hr.trans hr')

theorem mono (h : Obeys R G Q x s) (hq : ∀ r s, Q r s → Q' r s) : Obeys R G Q' x s := by
  induction x generalizing s
  case ret a          => exact fun s' hr => hq _ _ (h s' hr)
  case raise e        => exact fun s' hr => hq _ _ (h s' hr)
  case step w next ih => exact fun s' hr => ⟨(h s' hr).left, ih _ (h s' hr).right⟩

theorem bind (h : Obeys R G Q x s) (hok : ∀ a s, Q (.ok a) s → Obeys R G P (f a) s)
    (herr : ∀ e s, Q (.error e) s → P (.error e) s) : Obeys R G P (x >>= f) s := by
  induction x generalizing s
  case ret a          => exact hok a s (h s .refl)
  case raise e        => exact fun s' hr => herr e s' (h s' hr)
  case step w next ih => exact fun s' hr => ⟨(h s' hr).left, ih _ (h s' hr).right⟩

theorem handle {handler : ε → Script σ ε α} (h : Obeys R G Q x s)
    (hok : ∀ a s, Q (.ok a) s → Q' (.ok a) s)
    (herr : ∀ e s, Q (.error e) s → Obeys R G Q' (handler e) s) :
    Obeys R G Q' (x.handle handler) s := by
  induction x generalizing s
  case ret a          => exact fun s' hr => hok a s' (h s' hr)
  case raise e        => exact herr e s (h s .refl)
  case step w next ih => exact fun s' hr => ⟨(h s' hr).left, ih _ (h s' hr).right⟩

theorem capture {P : Except ε (Except ε α) → σ → Prop} (h : Obeys R G Q x s)
    (hq : ∀ r s, Q r s → P (.ok r) s) : Obeys R G P x.capture s := by
  induction x generalizing s
  case ret a          => exact fun s' hr => hq _ s' (h s' hr)
  case raise e        => exact fun s' hr => hq _ s' (h s' hr)
  case step w next ih => exact fun s' hr => ⟨(h s' hr).left, ih _ (h s' hr).right⟩

-- A script that ends as has been settled before.
theorem settled {cleanup : Script σ ε Unit} {r : Except ε α}
    (h : Obeys R G (fun c s => c = .ok () ∧ Q r s) cleanup s) :
    Obeys R G Q (cleanup.bind fun _ => done r) s := by
  induction cleanup generalizing s
  case ret _ =>
    cases r <;> exact fun s' hr => (h s' hr).right
  case raise e        => exact absurd (h s .refl).left nofun
  case step w next ih => exact fun s' hr => ⟨(h s' hr).left, ih _ (h s' hr).right⟩

-- The cleanup starts wherever the script ends, and must not fail.
theorem ensure {cleanup : Script σ ε Unit} (h : Obeys R G Q x s)
    (hc : ∀ r s, Q r s → Obeys R G (fun c s => c = .ok () ∧ Q' r s) cleanup s) :
    Obeys R G Q' (x.ensure cleanup) s := by
  induction x generalizing s
  case ret a          => exact settled (hc _ s (h s .refl))
  case raise e        => exact settled (hc _ s (h s .refl))
  case step w next ih => exact fun s' hr => ⟨(h s' hr).left, ih _ (h s' hr).right⟩

-- The rules for scripts that start where a stable assertion holds.
theorem of_pure {a : α} (hs : Stable R A) (hq : ∀ s, A s → Q (.ok a) s) (h : A s) :
    Obeys R G Q (Pure.pure a) s :=
  fun _ hr => hq _ (hs.many hr h)

theorem of_raise {e : ε} (hs : Stable R A) (hq : ∀ s, A s → Q (.error e) s) (h : A s) :
    Obeys R G Q (raise e) s :=
  fun _ hr => hq _ (hs.many hr h)

theorem of_step {w : σ → σ} {next : σ → Script σ ε α} (hs : Stable R A)
    (hstep : ∀ s, A s → G s (w s) ∧ Obeys R G Q (next s) (w s)) (h : A s) :
    Obeys R G Q (step w next) s :=
  fun _ hr => hstep _ (hs.many hr h)

end Obeys

end Obligations

section Crowds

variable {ι π : Type}

-- A state, and the processes that are at work on it.
structure Crowd (ι σ ε α : Type) where
  state   : σ
  process : ι → Option (Script σ ε α)

inductive Turn (ι π : Type)
  | start (i : ι) (p : π)
  | step  (i : ι)
  | die   (i : ι)

variable [DecidableEq ι] (program : ι → π → Script σ ε α) (leave : ι → σ → σ)

def Crowd.put (c : Crowd ι σ ε α) (i : ι) (s : σ) (x : Option (Script σ ε α)) : Crowd ι σ ε α where
  state   := s
  process := Function.update c.process i x

-- What a process has not put in order before it dies, `leave` does.
def crowd : Machine (Crowd ι σ ε α) (Turn ι π) Unit where
  step c
    | .start i p =>
      match c.process i with
      | none   => .ok <| c.put i c.state (some (program i p))
      | some _ => .error ()
    | .step i    =>
      match c.process i with
      | none                   => .error ()
      | some (.ret _)          => .ok <| c.put i c.state none
      | some (.raise _)        => .ok <| c.put i c.state none
      | some (.step write next) => .ok <| c.put i (write c.state) (some (next c.state))
    | .die i     => .ok <| c.put i (leave i c.state) none

-- Where a process may die.
def Crowd.Admits (D : ι → σ → Prop) (c : Crowd ι σ ε α) : Turn ι π → Prop
  | .die i => D i c.state
  | _      => True

instance {D : ι → σ → Prop} [∀ i s, Decidable (D i s)] (c : Crowd ι σ ε α) :
    (a : Turn ι π) → Decidable (Crowd.Admits D c a)
  | .start _ _ => .isTrue trivial
  | .step _    => .isTrue trivial
  | .die i     => inferInstanceAs <| Decidable (D i c.state)

-- What is to hold of the state, what a process rests on, and where it is to be when it is not at work.
variable (S : σ → Prop) (R : ι → σ → σ → Prop) (W : ι → σ → Prop)

-- A process keeps the state sound, and does what every other process rests on.
def Allowed (i : ι) (s s' : σ) : Prop :=
  S s' ∧ ∀ j, j ≠ i → R j s s'

structure Crowd.Sound (c : Crowd ι σ ε α) : Prop where
  state : S c.state
  idle  : ∀ i, c.process i = none → W i c.state
  obeys : ∀ i x, c.process i = some x →
    Obeys (R i) (Allowed S R i) (fun _ s => W i s) x c.state

variable {program leave S R W} {c : Crowd ι σ ε α} {i : ι} {s : σ} {x : Option (Script σ ε α)}

theorem Crowd.Sound.put (h : c.Sound S R W) (hi : ∀ i, Stable (R i) (W i))
    (hs : Allowed S R i c.state s ∨ s = c.state) (hidle : x = none → W i s)
    (hx : ∀ y, x = some y → Obeys (R i) (Allowed S R i) (fun _ s => W i s) y s) :
    (c.put i s x).Sound S R W := by
  have hothers (j : ι) (hj : j ≠ i) : Relation.ReflTransGen (R j) c.state s := by
    obtain hs | rfl := hs
    · exact .single (hs.right j hj)
    · exact .refl
  refine ⟨?_, fun j hj => ?_, fun j y hj => ?_⟩
  · obtain hs | rfl := hs
    · exact hs.left
    · exact h.state
  · by_cases hji : j = i
    · subst hji
      exact hidle (by simpa [Crowd.put] using hj)
    · have hj : c.process j = none := by simpa [Crowd.put, hji] using hj
      exact (hi j).many (hothers j hji) (h.idle j hj)
  · by_cases hji : j = i
    · subst hji
      exact hx y (by simpa [Crowd.put] using hj)
    · have hj : c.process j = some y := by simpa [Crowd.put, hji] using hj
      exact (h.obeys j y hj).interfere (hothers j hji)

-- If every program does what it is allowed to, and leaves things as it has found them, then so does every
-- run in which processes die only where they may.
theorem Crowd.sound_guarded {D : ι → σ → Prop} {as : List (Turn ι π)}
    (hi : ∀ i, Stable (R i) (W i))
    (hp : ∀ i p s, S s → W i s →
      Obeys (R i) (Allowed S R i) (fun _ s => W i s) (program i p) s)
    (hl : ∀ i s, S s → D i s → Allowed S R i s (leave i s) ∧ W i (leave i s))
    (h : c.Sound S R W) (hg : (crowd program leave).Guarded (Crowd.Admits D) c as) :
    ((crowd program leave).run c as).Sound S R W := by
  refine Machine.guarded_invariant ?_ h hg
  rintro c a c' hc hd hstep
  cases a
  case start i p =>
    cases hx : c.process i <;> simp only [crowd, hx] at hstep <;> cases hstep
    refine hc.put hi (.inr rfl) nofun fun y hy => ?_
    cases hy
    exact hp i p _ hc.state (hc.idle i hx)
  case step i =>
    rcases hx : c.process i with _ | (a | e | ⟨write, next⟩) <;> simp only [crowd, hx] at hstep <;>
      cases hstep
    case some.ret      => exact hc.put hi (.inr rfl) (fun _ => hc.obeys i _ hx _ .refl) nofun
    case some.raise    => exact hc.put hi (.inr rfl) (fun _ => hc.obeys i _ hx _ .refl) nofun
    case some.step     =>
      have hstep := hc.obeys i _ hx _ .refl
      refine hc.put hi (.inl hstep.left) nofun fun y hy => ?_
      cases hy
      exact hstep.right
  case die i =>
    cases hstep
    have hleave := hl i _ hc.state hd
    exact hc.put hi (.inl hleave.left) (fun _ => hleave.right) nofun

theorem Crowd.sound_run (hi : ∀ i, Stable (R i) (W i))
    (hp : ∀ i p s, S s → W i s →
      Obeys (R i) (Allowed S R i) (fun _ s => W i s) (program i p) s)
    (hl : ∀ i s, S s → Allowed S R i s (leave i s) ∧ W i (leave i s))
    (h : c.Sound S R W) (as : List (Turn ι π)) :
    ((crowd program leave).run c as).Sound S R W :=
  Crowd.sound_guarded (D := fun _ _ => True) hi hp (fun i s hs _ => hl i s hs) h <|
    .of_forall fun _ a => by cases a <;> trivial

end Crowds

end Script
