import Mathlib.Logic.Basic
import Mathlib.Tactic.Common

-- Straight-line code that may raise, and how to read off what a successful run of it has done.
namespace Transaction

variable {ε α β σ : Type} {e : ε}

-- `if not c: raise e`.
def require (c : Prop) [Decidable c] (e : ε) : Except ε Unit :=
  if c then .ok () else .error e

-- `row = ...; if row is None: raise e`.
def find (o : Option α) (e : ε) : Except ε α :=
  match o with
  | some a => .ok a
  | none   => .error e

@[simp]
theorem require_eq_ok {c : Prop} [Decidable c] {u : Unit} : require c e = .ok u ↔ c := by
  unfold require
  split <;> simp_all

@[simp]
theorem find_eq_ok {o : Option α} {a : α} : find o e = .ok a ↔ o = some a := by
  cases o <;> simp [find]

-- A sequence of statements succeeds exactly if its first statement does and the rest does after it.
@[simp]
theorem bind_eq_ok {x : Except ε α} {f : α → Except ε β} {b : β} :
    (x >>= f) = .ok b ↔ ∃ a, x = .ok a ∧ f a = .ok b := by
  cases x <;> simp [bind, Except.bind]

theorem bind_eq_error {x : Except ε α} {f : α → Except ε β} {e : ε} :
    (x >>= f) = .error e ↔ x = .error e ∨ ∃ a, x = .ok a ∧ f a = .error e := by
  cases x <;> simp [Bind.bind, Except.bind]

@[simp]
theorem pure_eq_ok {a b : α} : (pure a : Except ε α) = .ok b ↔ a = b := by
  simp [pure, Except.pure]

@[simp]
theorem map_eq_ok {x : Except ε α} {f : α → β} {b : β} :
    (f <$> x) = .ok b ↔ ∃ a, x = .ok a ∧ f a = b := by
  cases x <;> simp [Functor.map, Except.map]

@[simp]
theorem throw_eq_ok {a : α} : (throw e : Except ε α) = .ok a ↔ False := by
  simp [throw, throwThe, MonadExceptOf.throw]

theorem exists_ok_of_isOk {x : Except ε α} (h : x.isOk) : ∃ a, x = .ok a := by
  cases x
  case error => simp [Except.isOk, Except.toBool] at h
  case ok a  => exact ⟨a, rfl⟩

section Loops

variable {f : σ → α → Except ε σ} {l : List α} {s s' : σ}

-- The rule for a loop all of whose passes preserve a relation to the state before the loop.
theorem foldlM_relation {R : σ → σ → Prop} (hr : ∀ s, R s s)
    (ht : ∀ s₁ s₂ s₃, R s₁ s₂ → R s₂ s₃ → R s₁ s₃)
    (hs : ∀ s, ∀ a ∈ l, ∀ s', f s a = .ok s' → R s s') (h : l.foldlM f s = .ok s') : R s s' := by
  induction l generalizing s
  case nil =>
    simp only [List.foldlM_nil, pure_eq_ok] at h
    exact h ▸ hr s
  case cons a l ih =>
    simp only [List.foldlM_cons, bind_eq_ok] at h
    obtain ⟨s₁, h₁, h₂⟩ := h
    refine ht _ _ _ (hs _ _ (by simp) _ h₁) <| ih ?_ h₂
    exact fun s b hb => hs s b (by simp [hb])

theorem foldlM_invariant {I : σ → Prop} (hs : ∀ s, ∀ a ∈ l, ∀ s', I s → f s a = .ok s' → I s')
    (hi : I s) (h : l.foldlM f s = .ok s') : I s' := by
  refine foldlM_relation (R := fun s s' => I s → I s') ?_ ?_ ?_ h hi
  · exact fun _ h => h
  · exact fun _ _ _ h₁ h₂ h => h₂ (h₁ h)
  · exact fun s a ha s' hok hi => hs s a ha s' hi hok

-- The rule for a loop whose passes need an invariant to preserve a relation.
theorem foldlM_guarded {I : σ → Prop} {R : σ → σ → Prop} (hr : ∀ s, R s s)
    (ht : ∀ s₁ s₂ s₃, R s₁ s₂ → R s₂ s₃ → R s₁ s₃)
    (hs : ∀ s, ∀ a ∈ l, ∀ s', I s → f s a = .ok s' → I s' ∧ R s s') (hi : I s)
    (h : l.foldlM f s = .ok s') : I s' ∧ R s s' := by
  refine foldlM_relation (R := fun s s' => I s → I s' ∧ R s s') ?_ ?_ ?_ h hi
  · exact fun s h => ⟨h, hr s⟩
  · intro s₁ s₂ s₃ h₁ h₂ hi
    obtain ⟨hi₂, hr₂⟩ := h₁ hi
    obtain ⟨hi₃, hr₃⟩ := h₂ hi₂
    exact ⟨hi₃, ht _ _ _ hr₂ hr₃⟩
  · exact fun s a ha s' hok hi => hs s a ha s' hi hok

-- A loop commutes with what all of its passes commute with.
theorem foldlM_commute {g : σ → σ} (h : ∀ s, ∀ a ∈ l, f (g s) a = g <$> f s a) (s : σ) :
    l.foldlM f (g s) = g <$> l.foldlM f s := by
  induction l generalizing s
  case nil => rfl
  case cons a l ih =>
    simp only [List.foldlM_cons, h s a (by simp), map_bind, bind_map_left]
    congr 1
    funext s₁
    exact ih (fun s b hb => h s b (by simp [hb])) s₁

end Loops

end Transaction
