import Mathlib.Order.Basic

-- Loops that need not end. They are given fuel, and without enough of it there is no result.
namespace Loop

inductive Step (σ α : Type)
  | again (s : σ)
  | done  (a : α)

variable {σ α : Type}

def run (body : σ → Option (Step σ α)) : Nat → σ → Option α
  | 0,        _ => none
  | fuel + 1, s =>
    match body s with
    | some (.again s') => run body fuel s'
    | some (.done a)   => some a
    | none             => none

variable {body body' : σ → Option (Step σ α)} {fuel fuel' : Nat} {s : σ} {a : α}

-- The rule for total correctness: the rank bounds the number of rounds.
theorem run_total {I : σ → Prop} {Q : α → Prop} (rank : σ → Nat)
    (hb : ∀ s, I s → (∃ s', body s = some (.again s') ∧ I s' ∧ rank s' < rank s) ∨
      ∃ a, body s = some (.done a) ∧ Q a)
    (h : I s) (hf : rank s < fuel) : ∃ a, run body fuel s = some a ∧ Q a := by
  induction fuel generalizing s
  case zero => omega
  case succ fuel ih =>
    rcases hb s h with ⟨s', hs, h', hr⟩ | ⟨a, hs, hq⟩
    · obtain ⟨a, ha, hq⟩ := ih h' (by omega)
      exact ⟨a, by rw [run, hs]; exact ha, hq⟩
    · exact ⟨a, by rw [run, hs], hq⟩

-- More fuel does not change a result.
theorem run_mono (hb : ∀ s x, body s = some x → body' s = some x) (hf : fuel ≤ fuel')
    (h : run body fuel s = some a) : run body' fuel' s = some a := by
  induction fuel generalizing s fuel'
  case zero => cases h
  case succ fuel ih =>
    obtain ⟨fuel', rfl⟩ : ∃ n, fuel' = n + 1 := ⟨fuel' - 1, by omega⟩
    rw [run] at h ⊢
    cases hs : body s
    case none => simp [hs] at h
    case some x =>
      rw [hs] at h
      rw [hb s x hs]
      cases x
      case again s' => exact ih (by omega) h
      case done     => exact h

end Loop
