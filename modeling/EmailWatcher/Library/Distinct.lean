import Mathlib.Data.List.Induction
import Mathlib.Data.List.Nodup

-- The distinct elements of a list in the order in which they occur for the first time.
namespace Distinct

variable {α : Type} [DecidableEq α]

def insert (xs : List α) (x : α) : List α :=
  if x ∈ xs then xs else xs ++ [x]

def firsts (xs : List α) : List α :=
  xs.foldl insert []

variable {xs ys : List α} {x y : α}

@[simp]
theorem firsts_nil : firsts ([] : List α) = [] :=
  rfl

theorem firsts_concat : firsts (xs ++ [x]) = insert (firsts xs) x := by
  simp [firsts]

theorem firsts_concat_of_mem (h : x ∈ firsts xs) : firsts (xs ++ [x]) = firsts xs := by
  rw [firsts_concat, insert, if_pos h]

theorem firsts_concat_of_not_mem (h : x ∉ firsts xs) : firsts (xs ++ [x]) = firsts xs ++ [x] := by
  rw [firsts_concat, insert, if_neg h]

@[simp]
theorem mem_insert : y ∈ insert xs x ↔ y ∈ xs ∨ y = x := by
  by_cases h : x ∈ xs <;> simp_all [insert]

theorem nodup_firsts : (firsts xs).Nodup := by
  induction xs using List.reverseRecOn
  case nil                         => exact .nil
  case append_singleton xs x ih =>
    by_cases h : x ∈ firsts xs
    · rwa [firsts_concat_of_mem h]
    · rw [firsts_concat_of_not_mem h]
      refine List.nodup_append.mpr ⟨ih, List.nodup_singleton x, fun y hy z hz => ?_⟩
      obtain rfl := List.mem_singleton.mp hz
      exact fun he => h (he ▸ hy)

-- What comes later does not disturb what has been there before.
theorem firsts_of_nodup (h : xs.Nodup) : firsts xs = xs := by
  induction xs using List.reverseRecOn
  case nil                      => rfl
  case append_singleton xs x ih =>
    obtain ⟨hxs, -, hx⟩ := List.nodup_append.mp h
    have hfirsts := ih hxs
    rw [firsts_concat_of_not_mem, hfirsts]
    rw [hfirsts]
    exact fun hmem => hx x hmem x (List.mem_singleton_self x) rfl

theorem firsts_mono (h : xs <+: ys) : firsts xs <+: firsts ys := by
  obtain ⟨zs, rfl⟩ := h
  induction zs using List.reverseRecOn
  case nil                      => simp
  case append_singleton zs z ih =>
    rw [← List.append_assoc]
    by_cases h : z ∈ firsts (xs ++ zs)
    · rwa [firsts_concat_of_mem h]
    · rw [firsts_concat_of_not_mem h]
      exact ih.trans (List.prefix_append _ _)

end Distinct
