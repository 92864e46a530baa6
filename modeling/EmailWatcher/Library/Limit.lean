import Mathlib.Logic.Basic

-- Lists that must not be longer than a limit.
namespace Limit

variable {α β ε : Type} {n : Nat} {e : ε}

def within (n : Nat) (e : ε) (l : List β) : Except ε (List β) :=
  if l.length ≤ n then .ok l else .error e

theorem within_eq_ok {l l' : List β} : within n e l = .ok l' ↔ l.length ≤ n ∧ l' = l := by
  unfold within
  split
  case isTrue h  => simp [h, eq_comm]
  case isFalse h => simp [h]

theorem within_eq_error {l : List β} : (∃ e', within n e l = .error e') ↔ n < l.length := by
  unfold within
  split
  case isTrue h  => simp [Nat.not_lt.mpr h]
  case isFalse h => simp [Nat.lt_of_not_le h]

-- A loop that collects and gives up beyond the limit never has a part of the whole for an answer.
theorem foldlM_within {f : List β → α → Except ε (List β)} {g : α → List β}
    (hf : ∀ acc a, acc.length ≤ n → f acc a = within n e (acc ++ g a)) {acc : List β}
    (h : acc.length ≤ n) (l : List α) : l.foldlM f acc = within n e (acc ++ l.flatMap g) := by
  induction l generalizing acc
  case nil => simp [within, h, pure, Except.pure]
  case cons a l ih =>
    rw [List.foldlM_cons, hf acc a h, List.flatMap_cons, ← List.append_assoc]
    by_cases hn : (acc ++ g a).length ≤ n
    case pos =>
      rw [within, if_pos hn]
      exact ih hn
    case neg =>
      have hn' : ¬(acc ++ g a ++ l.flatMap g).length ≤ n := fun h =>
        hn (by rw [List.length_append] at h; omega)
      rw [within, if_neg hn, within, if_neg hn']
      rfl

end Limit
