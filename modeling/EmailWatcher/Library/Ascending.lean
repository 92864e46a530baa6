import Mathlib.Data.List.Dedup
import Mathlib.Data.List.Sort

-- Strictly ascending lists, and where a bound cuts them.
namespace Ascending

variable {α : Type} {l : List Nat} {x i : Nat}

-- `sorted(set(values))`
def sortedSet (values : List Nat) : List Nat :=
  values.dedup.insertionSort (· ≤ ·)

theorem sortedSet_eq (h : l.Pairwise (· < ·)) : sortedSet l = l := by
  rw [sortedSet, List.dedup_eq_self.mpr (h.imp Nat.ne_of_lt)]
  exact (h.imp Nat.le_of_lt).insertionSort_eq

-- What is not above the bound comes first.
theorem split (h : l.Pairwise (· < ·)) (x : Nat) : l = l.filter (· ≤ x) ++ l.filter (x < ·) := by
  induction l
  case nil          => rfl
  case cons a l ih =>
    rw [List.pairwise_cons] at h
    have ih := ih h.right
    by_cases ha : a ≤ x
    · rw [List.filter_cons_of_pos (by simpa using ha), List.filter_cons_of_neg (by simpa using ha),
        List.cons_append, ← ih]
    · have hnone : l.filter (· ≤ x) = [] := by
        refine List.filter_eq_nil_iff.mpr fun b hb => ?_
        have := h.left b hb
        simp only [decide_eq_true_eq]
        omega
      rw [hnone] at ih
      rw [List.filter_cons_of_neg (by simpa using ha), List.filter_cons_of_pos (by simpa using ha), hnone,
        List.nil_append, ← List.nil_append (l.filter _), ← ih]

theorem drop_below (h : l.Pairwise (· < ·)) :
    l.drop (l.filter (· ≤ x)).length = l.filter (x < ·) := by
  conv_lhs =>
    arg 2
    rw [split h x]
  exact List.drop_left

theorem take_below (h : l.Pairwise (· < ·)) :
    l.take (l.filter (· ≤ x)).length = l.filter (· ≤ x) := by
  conv_lhs =>
    arg 2
    rw [split h x]
  exact List.take_left

-- An element is above the bound from the place on that the bound cuts.
theorem lt_getElem_iff (h : l.Pairwise (· < ·)) (hi : i < l.length) :
    x < l[i] ↔ (l.filter (· ≤ x)).length ≤ i := by
  constructor
  · intro hx
    by_contra hlt
    have hmem : l[i] ∈ l.filter (· ≤ x) := by
      rw [← take_below h]
      exact List.mem_take_iff_getElem.mpr ⟨i, by omega, rfl⟩
    have := (List.mem_filter.mp hmem).right
    simp only [decide_eq_true_eq] at this
    omega
  · intro hle
    have hmem : l[i] ∈ l.filter (x < ·) := by
      rw [← drop_below h]
      exact List.mem_drop_iff_getElem.mpr ⟨i - (l.filter (· ≤ x)).length, by omega, by congr 1; omega⟩
    simpa using (List.mem_filter.mp hmem).right

theorem getLastD_take {k : Nat} (hk : 0 < k) (hl : k ≤ l.length) :
    (l.take k).getLastD 0 = l[k - 1] := by
  rw [List.getLastD_eq_getLast?, List.getLast?_take, if_neg (by omega)]
  simp [List.getElem?_eq_getElem (show k - 1 < l.length by omega)]

-- The last element of a part from the front bounds that part, and nothing else.
theorem le_getLastD_take_iff {k a : Nat} (h : l.Pairwise (· < ·)) (hk : 0 < k) (hl : k ≤ l.length)
    (ha : a ∈ l) : a ≤ (l.take k).getLastD 0 ↔ a ∈ l.take k := by
  obtain ⟨i, hi, rfl⟩ := List.mem_iff_getElem.mp ha
  rw [List.pairwise_iff_getElem] at h
  rw [getLastD_take hk hl]
  constructor
  · intro hle
    refine List.mem_take_iff_getElem.mpr ⟨i, ?_, rfl⟩
    by_contra hge
    exact absurd (h (k - 1) i (by omega) hi (by omega)) (by omega)
  · intro hmem
    obtain ⟨j, hj, hij⟩ := List.mem_take_iff_getElem.mp hmem
    rw [← hij]
    rcases Nat.lt_or_ge j (k - 1) with hlt | hge
    · exact Nat.le_of_lt (h j (k - 1) (by omega) (by omega) hlt)
    · exact le_of_eq <| by congr 1; omega

-- What is not below the first element of a part at the end belongs to that part.
theorem mem_drop_of_le {k a : Nat} (h : l.Pairwise (· < ·)) (hk : k < l.length) (ha : a ∈ l)
    (hle : l[k] ≤ a) : a ∈ l.drop k := by
  obtain ⟨i, hi, rfl⟩ := List.mem_iff_getElem.mp ha
  rw [List.pairwise_iff_getElem] at h
  have hki : k ≤ i := by
    by_contra hlt
    exact absurd (h i k hi hk (Nat.lt_of_not_le hlt)) (Nat.not_lt.mpr hle)
  exact List.mem_drop_iff_getElem.mpr ⟨i - k, by omega, by congr 1; omega⟩

-- One element less that counts.
theorem countP_lt {p q : Nat → Bool} {a : Nat} (h : ∀ b ∈ l, p b → q b) (ha : a ∈ l) (hq : q a)
    (hp : p a = false) : l.countP p < l.countP q := by
  obtain ⟨front, back, rfl⟩ := List.append_of_mem ha
  have hfront := List.countP_mono_left fun b hb => h b (List.mem_append_left _ hb)
  have hback := List.countP_mono_left fun b hb => h b (List.mem_append_right _ (List.mem_cons_of_mem _ hb))
  simp only [List.countP_append, List.countP_cons, hq, hp, if_true, Bool.false_eq_true, if_false]
  omega

end Ascending
