import EmailWatcher.Library.Machine
import Mathlib.Logic.Relation

-- Programs that work on a shared state in single steps. Between any two of its steps a program may be
-- interfered with, and it may die.

-- A step writes, and goes on by what it has read before it wrote.
inductive Script (σ ε α : Type)
  | ret   (a : α)
  | raise (e : ε)
  | step  (write : σ → σ) (next : σ → Script σ ε α)

namespace Script

variable {σ ε α β : Type}

def bind : Script σ ε α → (α → Script σ ε β) → Script σ ε β
  | ret a,           f => f a
  | raise e,         _ => raise e
  | step write next, f => step write fun s => (next s).bind f

instance : Monad (Script σ ε) where
  pure := ret
  bind := bind

-- `try: x; except e: handler(e)`
def handle : Script σ ε α → (ε → Script σ ε α) → Script σ ε α
  | ret a,           _       => ret a
  | raise e,         handler => handler e
  | step write next, handler => step write fun s => (next s).handle handler

-- `try: return Ok(x) except e: return Err(e)`
def capture : Script σ ε α → Script σ ε (Except ε α)
  | ret a           => ret (.ok a)
  | raise e         => ret (.error e)
  | step write next => step write fun s => (next s).capture

-- A call that neither reads nor writes the state.
def done : Except ε α → Script σ ε α
  | .ok a    => ret a
  | .error e => raise e

-- `try: x; finally: cleanup`
def ensure : Script σ ε α → Script σ ε Unit → Script σ ε α
  | ret a,           cleanup => cleanup.bind fun _ => done (.ok a)
  | raise e,         cleanup => cleanup.bind fun _ => done (.error e)
  | step write next, cleanup => step write fun s => (next s).ensure cleanup

-- A step that only reads.
def read (f : σ → α) : Script σ ε α :=
  step id fun s => ret (f s)

-- A step that writes if `c` holds, and fails with `e` if it does not.
def attempt (c : σ → Prop) [DecidablePred c] (write : σ → σ) (e : ε) : Script σ ε Unit :=
  step (fun s => if c s then write s else s) fun s => if c s then ret () else raise e

-- `if not c: raise e`
def require (c : Prop) [Decidable c] (e : ε) : Script σ ε Unit :=
  if c then ret () else raise e

-- The script runs alone, to its end.
def exec : Script σ ε α → σ → Except ε α × σ
  | ret a,           s => (.ok a, s)
  | raise e,         s => (.error e, s)
  | step write next, s => (next s).exec (write s)

theorem require_bind {c : Prop} [Decidable c] {e : ε} (h : c) (f : Unit → Script σ ε β) :
    require c e >>= f = f () := by
  rw [require, if_pos h]
  rfl

section Safety

-- What is to hold wherever the script can be left, what the others may do, and what is to hold at the
-- end of the script.
variable (I : σ → Prop) (E : σ → σ → Prop)

-- However the others interfere, `I` holds before every step of the script and `Q` at its end.
def Safe (Q : Except ε α → σ → Prop) : Script σ ε α → σ → Prop
  | ret a,           s => ∀ s', Relation.ReflTransGen E s s' → Q (.ok a) s'
  | raise e,         s => ∀ s', Relation.ReflTransGen E s s' → Q (.error e) s'
  | step write next, s => ∀ s', Relation.ReflTransGen E s s' → I s' ∧ Safe Q (next s') (write s')

-- What the others leave true.
def Stable (A : σ → Prop) : Prop :=
  ∀ s s', A s → E s s' → A s'

variable {I E} {Q Q' : Except ε α → σ → Prop} {P : Except ε β → σ → Prop} {A B : σ → Prop}
  {x : Script σ ε α} {f : α → Script σ ε β} {s s' : σ}

theorem Stable.many (h : Stable E A) (hr : Relation.ReflTransGen E s s') (ha : A s) : A s' := by
  induction hr
  case refl          => exact ha
  case tail _ hstep ih => exact h _ _ ih hstep

namespace Safe

theorem interfere (h : Safe I E Q x s) (hr : Relation.ReflTransGen E s s') : Safe I E Q x s' := by
  cases x <;> exact fun s'' hr' => h s'' (hr.trans hr')

theorem bind (h : Safe I E Q x s) (hok : ∀ a s, Q (.ok a) s → Safe I E P (f a) s)
    (herr : ∀ e s, Q (.error e) s → P (.error e) s) : Safe I E P (x >>= f) s := by
  induction x generalizing s
  case ret a          => exact hok a s (h s .refl)
  case raise e        => exact fun s' hr => herr e s' (h s' hr)
  case step w next ih => exact fun s' hr => ⟨(h s' hr).left, ih _ (h s' hr).right⟩

theorem handle {handler : ε → Script σ ε α} (h : Safe I E Q x s)
    (hok : ∀ a s, Q (.ok a) s → Q' (.ok a) s)
    (herr : ∀ e s, Q (.error e) s → Safe I E Q' (handler e) s) :
    Safe I E Q' (x.handle handler) s := by
  induction x generalizing s
  case ret a          => exact fun s' hr => hok a s' (h s' hr)
  case raise e        => exact herr e s (h s .refl)
  case step w next ih => exact fun s' hr => ⟨(h s' hr).left, ih _ (h s' hr).right⟩

-- The rules for scripts that start where a stable assertion holds.
theorem of_pure {a : α} (hs : Stable E A) (hq : ∀ s, A s → Q (.ok a) s) (h : A s) :
    Safe I E Q (Pure.pure a) s :=
  fun _ hr => hq _ (hs.many hr h)

theorem of_raise {e : ε} (hs : Stable E A) (hq : ∀ s, A s → Q (.error e) s) (h : A s) :
    Safe I E Q (raise e) s :=
  fun _ hr => hq _ (hs.many hr h)

theorem of_read {g : σ → α} (hs : Stable E A) (hi : ∀ s, A s → I s)
    (hq : ∀ s, A s → ∀ s', Relation.ReflTransGen E s s' → Q (.ok (g s)) s') (h : A s) :
    Safe I E Q (read g) s := by
  intro s' hr
  have ha := hs.many hr h
  exact ⟨hi _ ha, fun s'' hr' => hq s' ha s'' hr'⟩

theorem of_attempt {c : σ → Prop} [DecidablePred c] {w : σ → σ} {e : ε} {Q : Except ε Unit → σ → Prop}
    (hs : Stable E A) (hi : ∀ s, A s → I s) (hc : ∀ s, A s → c s) (hb : Stable E B)
    (hw : ∀ s, A s → B (w s)) (hq : ∀ s, B s → Q (.ok ()) s) (h : A s) :
    Safe I E Q (attempt c w e) s := by
  intro s' hr
  have ha := hs.many hr h
  refine ⟨hi _ ha, ?_⟩
  simp only [hc _ ha, if_true]
  exact of_pure hb hq (hw _ ha)

theorem exec (h : Safe I E Q x s) : Q (x.exec s).fst (x.exec s).snd := by
  induction x generalizing s
  case ret a          => exact h s .refl
  case raise e        => exact h s .refl
  case step w next ih => exact ih _ (h s .refl).right

theorem invariant (h : Safe I E Q x s) (hq : ∀ r s, Q r s → I s) : I s := by
  cases x
  case ret a       => exact hq _ _ (h s .refl)
  case raise e     => exact hq _ _ (h s .refl)
  case step w next => exact (h s .refl).left

end Safe

end Safety

section Frames

variable {γ : Type} (g : σ → γ)

-- No step of the script writes what `g` reads.
def Keeps : Script σ ε α → Prop
  | ret _           => True
  | raise _         => True
  | step write next => ∀ s, g (write s) = g s ∧ Keeps (next s)

variable {g} {x : Script σ ε α} {f : α → Script σ ε β} {s : σ}

namespace Keeps

theorem exec (h : Keeps g x) : g (x.exec s).snd = g s := by
  induction x generalizing s
  case ret            => rfl
  case raise          => rfl
  case step w next ih => exact (ih s (h s).right).trans (h s).left

theorem bind (h : Keeps g x) (hf : ∀ a, Keeps g (f a)) : Keeps g (x >>= f) := by
  induction x
  case ret a          => exact hf a
  case raise          => trivial
  case step w next ih => exact fun s => ⟨(h s).left, ih s (h s).right⟩

theorem handle {handler : ε → Script σ ε α} (h : Keeps g x) (hh : ∀ e, Keeps g (handler e)) :
    Keeps g (x.handle handler) := by
  induction x
  case ret            => trivial
  case raise e        => exact hh e
  case step w next ih => exact fun s => ⟨(h s).left, ih s (h s).right⟩

theorem pure {a : α} : Keeps g (Pure.pure a : Script σ ε α) :=
  trivial

theorem raise {e : ε} : Keeps g (raise e : Script σ ε α) :=
  trivial

theorem read {r : σ → α} : Keeps g (read r : Script σ ε α) :=
  fun _ => ⟨rfl, trivial⟩

theorem attempt {c : σ → Prop} [DecidablePred c] {w : σ → σ} {e : ε} (h : ∀ s, g (w s) = g s) :
    Keeps g (attempt c w e) := by
  intro s
  by_cases hc : c s
  · simp only [hc, if_true]
    exact ⟨h s, trivial⟩
  · simp only [hc, if_false, true_and]
    trivial

theorem require {c : Prop} [Decidable c] {e : ε} : Keeps g (require c e : Script σ ε Unit) := by
  rw [Script.require]
  split <;> trivial

end Keeps

end Frames

section Guarantees

variable (R : σ → σ → Prop)

-- Every step of the script makes an `R`, whatever it is taken from.
def Follows : Script σ ε α → Prop
  | ret _           => True
  | raise _         => True
  | step write next => ∀ s, R s (write s) ∧ Follows (next s)

variable {R} {x : Script σ ε α} {f : α → Script σ ε β}

namespace Follows

theorem bind (h : Follows R x) (hf : ∀ a, Follows R (f a)) : Follows R (x >>= f) := by
  induction x
  case ret a          => exact hf a
  case raise          => trivial
  case step w next ih => exact fun s => ⟨(h s).left, ih s (h s).right⟩

theorem handle {handler : ε → Script σ ε α} (h : Follows R x) (hh : ∀ e, Follows R (handler e)) :
    Follows R (x.handle handler) := by
  induction x
  case ret            => trivial
  case raise e        => exact hh e
  case step w next ih => exact fun s => ⟨(h s).left, ih s (h s).right⟩

theorem pure {a : α} : Follows R (Pure.pure a : Script σ ε α) :=
  trivial

theorem raise {e : ε} : Follows R (raise e : Script σ ε α) :=
  trivial

end Follows

end Guarantees

section Worlds

-- A state, and the process that is at work on it, if there is one.
structure World (σ ε α : Type) where
  state   : σ
  process : Option (Script σ ε α)

inductive Move (ι ξ : Type)
  | start     (i : ι)
  | step
  | die
  | interfere (x : ξ)

variable {ι ξ : Type} (program : ι → Script σ ε α) (apply : ξ → σ → σ)

-- One process at a time. It goes on step by step until it has come to its end, or dies.
def world : Machine (World σ ε α) (Move ι ξ) Unit where
  step w a :=
    match a, w.process with
    | .start i,     none                   => .ok { w with process := some (program i) }
    | .start _,     some _                 => .error ()
    | .step,        none                   => .error ()
    | .step,        some (.ret _)          => .ok { w with process := none }
    | .step,        some (.raise _)        => .ok { w with process := none }
    | .step,        some (.step write next) =>
      .ok ⟨write w.state, some (next w.state)⟩
    | .die,         _                      => .ok { w with process := none }
    | .interfere x, _                      => .ok { w with state := apply x w.state }

-- Where the process may die, and when the others may interfere.
def Admits (D : σ → Prop) (O : σ → ξ → Prop) (w : World σ ε α) : Move ι ξ → Prop
  | .die         => D w.state
  | .interfere x => O w.state x
  | _            => True

instance {D : σ → Prop} {O : σ → ξ → Prop} [DecidablePred D] [∀ s, DecidablePred (O s)]
    (w : World σ ε α) : (a : Move ι ξ) → Decidable (Admits D O w a)
  | .start _     => .isTrue trivial
  | .step        => .isTrue trivial
  | .die         => inferInstanceAs <| Decidable (D w.state)
  | .interfere x => inferInstanceAs <| Decidable (O w.state x)

variable {program apply} {I S D : σ → Prop} {E : σ → σ → Prop} {O : σ → ξ → Prop} {s : σ}

-- What holds of the world: between two processes the state is sound, and a process is safe.
def World.Sound (I S : σ → Prop) (E : σ → σ → Prop) (w : World σ ε α) : Prop :=
  match w.process with
  | none   => S w.state
  | some x => Safe I E (fun _ s => S s) x w.state

-- If every program is safe to start in a sound state, and a state in which a process may die is sound,
-- then the world stays sound.
theorem World.sound_run {as : List (Move ι ξ)} (hp : ∀ i s, S s → Safe I E (fun _ s => S s) (program i) s)
    (hi : ∀ s, S s → I s) (hd : ∀ s, I s → D s → S s) (hs : Stable E S)
    (he : ∀ s x, O s x → E s (apply x s)) (h : S s)
    (hg : (world program apply).Guarded (Admits D O) ⟨s, none⟩ as) :
    World.Sound I S E ((world program apply).run ⟨s, none⟩ as) := by
  refine Machine.guarded_invariant ?_ h hg
  rintro ⟨s, process⟩ a w' hw hc hstep
  cases a
  case start i =>
    cases process
    case none   =>
      cases hstep
      exact hp i s hw
    case some x => cases hstep
  case step =>
    cases process
    case none   => cases hstep
    case some x =>
      cases x <;> cases hstep
      case ret a           => exact hw s .refl
      case raise e         => exact hw s .refl
      case step write next => exact (hw s .refl).right
  case die =>
    cases process <;> cases hstep
    case none   => exact hw
    case some x => exact hd s (Safe.invariant hw fun _ s => hi s) hc
  case interfere x =>
    cases process <;> cases hstep
    case none   => exact hs s _ hw (he s x hc)
    case some y => exact Safe.interfere hw (.single (he s x hc))

-- What every step of every program makes, a run makes.
theorem World.follows_run {R : σ → σ → Prop} (hr : ∀ s, R s s)
    (ht : ∀ s₁ s₂ s₃, R s₁ s₂ → R s₂ s₃ → R s₁ s₃) (hp : ∀ i, Follows R (program i))
    (hx : ∀ s x, R s (apply x s)) {w : World σ ε α} (hw : ∀ x, w.process = some x → Follows R x)
    (as : List (Move ι ξ)) :
    R w.state ((world program apply).run w as).state ∧
    ∀ x, ((world program apply).run w as).process = some x → Follows R x := by
  refine Machine.invariant
    (I := fun w' : World σ ε α => R w.state w'.state ∧ ∀ x, w'.process = some x → Follows R x) ?_ ⟨hr _, hw⟩ as
  rintro ⟨s, process⟩ a w' ⟨hs, hf⟩ hstep
  cases a
  case start i =>
    cases process <;> cases hstep
    refine ⟨hs, fun x hx => ?_⟩
    cases hx
    exact hp i
  case step =>
    cases process
    case none   => cases hstep
    case some x =>
      cases x <;> cases hstep
      case ret a   => exact ⟨hs, nofun⟩
      case raise e => exact ⟨hs, nofun⟩
      case step write next =>
        have hstep := hf _ rfl s
        refine ⟨ht _ _ _ hs hstep.left, fun x hx => ?_⟩
        cases hx
        exact hstep.right
  case die =>
    cases process <;> cases hstep <;> exact ⟨hs, nofun⟩
  case interfere x =>
    cases process <;> cases hstep <;> exact ⟨ht _ _ _ hs (hx s x), hf⟩

theorem World.Sound.invariant {w : World σ ε α} (hi : ∀ s, S s → I s) (h : World.Sound I S E w) :
    I w.state := by
  obtain ⟨s, process⟩ := w
  cases process
  case none   => exact hi s h
  case some x => exact Safe.invariant h fun _ s => hi s

end Worlds

end Script
