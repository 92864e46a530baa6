import Mathlib.Data.List.MinMax
import Mathlib.Data.List.Sort

-- Rows in the order of a sort key that no two of them share, and the place that each takes in it.
namespace Ranking

variable {α κ : Type} [LinearOrder κ]

-- `ORDER BY key`
def ordered (key : α → κ) (l : List α) : List α :=
  l.insertionSort (key · ≤ key ·)

-- The number of rows that come before `a`.
def ahead (key : α → κ) (l : List α) (a : α) : Nat :=
  l.countP (key · < key a)

-- `ROW_NUMBER() OVER (ORDER BY key)`
def rowNumber [DecidableEq α] (key : α → κ) (l : List α) (a : α) : Nat :=
  (ordered key l).idxOf a + 1

variable {key : α → κ} {l l₁ l₂ : List α} {a b : α} {n : Nat}

theorem ordered_perm : (ordered key l).Perm l :=
  List.perm_insertionSort _ l

@[simp]
theorem mem_ordered : a ∈ ordered key l ↔ a ∈ l :=
  ordered_perm.mem_iff

theorem ordered_pairwise : (ordered key l).Pairwise (key · ≤ key ·) := by
  have : Std.Total fun a b : α => key a ≤ key b := ⟨fun a b => le_total (key a) (key b)⟩
  have : IsTrans α fun a b => key a ≤ key b := ⟨fun _ _ _ => le_trans⟩
  exact List.pairwise_insertionSort _ l

theorem ahead_of_perm (h : l₁.Perm l₂) : ahead key l₁ a = ahead key l₂ a :=
  h.countP_eq _

-- In a list that is in order already, the rows before `a` are the ones in front of it.
theorem ahead_of_pairwise (h : (l₁ ++ a :: l₂).Pairwise (key · ≤ key ·))
    (hn : ((l₁ ++ a :: l₂).map key).Nodup) : ahead key (l₁ ++ a :: l₂) a = l₁.length := by
  rw [List.pairwise_append, List.pairwise_cons] at h
  obtain ⟨-, ⟨h₂, -⟩, h₁⟩ := h
  have hlt : ∀ b ∈ l₁, key b < key a := by
    intro b hb
    refine lt_of_le_of_ne (h₁ b hb a (by simp)) fun he => ?_
    rw [List.map_append, List.map_cons, List.nodup_append] at hn
    exact hn.right.right (key b) (List.mem_map_of_mem hb) (key a) (by simp) he
  have hge : ∀ b ∈ a :: l₂, ¬key b < key a := by
    intro b hb
    cases List.mem_cons.mp hb
    case inl he => simp [he]
    case inr hb => exact not_lt.mpr (h₂ b hb)
  rw [ahead, List.countP_append, List.countP_eq_length.mpr (by simpa using hlt)]
  rw [List.countP_eq_zero.mpr (by simpa using hge), Nat.add_zero]

theorem rowNumber_eq_ahead [DecidableEq α] (hn : (l.map key).Nodup) (ha : a ∈ l) :
    rowNumber key l a = ahead key l a + 1 := by
  have ha' : a ∈ ordered key l := mem_ordered.mpr ha
  obtain ⟨l₁, l₂, h⟩ := List.append_of_mem ha'
  have hp : (ordered key l).Perm l := ordered_perm
  have hs : (ordered key l).Pairwise (key · ≤ key ·) := ordered_pairwise
  have hn' : ((ordered key l).map key).Nodup := (hp.map key).nodup_iff.mpr hn
  rw [rowNumber, ← ahead_of_perm hp]
  rw [h] at hs hn' ⊢
  have hf : a ∉ l₁ := by
    have hd := (List.nodup_append.mp (List.Nodup.of_map key hn')).right.right
    exact fun hm => hd a hm a (by simp) rfl
  rw [ahead_of_pairwise hs hn', List.idxOf_append_of_notMem hf, List.idxOf_cons_self, Nat.add_zero]

theorem ahead_lt_of_lt (ha : a ∈ l) (h : key a < key b) : ahead key l a < ahead key l b := by
  unfold ahead
  obtain ⟨l₁, l₂, rfl⟩ := List.append_of_mem ha
  have hle : ∀ m : List α, m.countP (key · < key a) ≤ m.countP (key · < key b) :=
    fun m => List.countP_mono_left fun x _ hx => by simp only [decide_eq_true_eq] at *; exact hx.trans h
  have h₁ := hle l₁
  have h₂ := hle l₂
  simp only [List.countP_append, List.countP_cons, lt_irrefl, h, decide_false, decide_true]
  simp
  omega

theorem ahead_le_iff (ha : a ∈ l) (hb : b ∈ l) : ahead key l a ≤ ahead key l b ↔ key a ≤ key b := by
  constructor
  case mp => exact fun h => not_lt.mp fun hlt => absurd h <| not_le.mpr <| ahead_lt_of_lt hb hlt
  case mpr =>
    intro h
    cases h.lt_or_eq
    case inl h => exact (ahead_lt_of_lt ha h).le
    case inr h => simp [ahead, h]

-- Every place up to that of a row is taken.
theorem exists_ahead_eq (hn : (l.map key).Nodup) (hb : b ∈ l) (h : n ≤ ahead key l b) :
    ∃ a ∈ l, ahead key l a = n := by
  have hp : (ordered key l).Perm l := ordered_perm
  have hlt : n < (ordered key l).length := by
    refine lt_of_le_of_lt h ?_
    rw [hp.length_eq]
    refine lt_of_le_of_ne List.countP_le_length fun he => ?_
    simpa using List.countP_eq_length.mp he b hb
  have hs : (ordered key l).Pairwise (key · ≤ key ·) := ordered_pairwise
  have hn' : ((ordered key l).map key).Nodup := (hp.map key).nodup_iff.mpr hn
  have he : (ordered key l).take n ++ (ordered key l)[n] :: (ordered key l).drop (n + 1) =
      ordered key l := by
    rw [← List.drop_eq_getElem_cons hlt, List.take_append_drop]
  refine ⟨(ordered key l)[n], hp.mem_iff.mp (List.getElem_mem hlt), ?_⟩
  rw [← ahead_of_perm hp]
  rw [← he] at hs hn'
  have := ahead_of_pairwise hs hn'
  rw [he] at this
  simpa [hlt.le] using this

-- The first row among those that at least `n` others come before.
theorem argmin_filter_ahead (hn : (l.map key).Nodup) :
    (l.filter (n ≤ ahead key l ·)).argmin key = some a ↔ a ∈ l ∧ ahead key l a = n := by
  classical
  rw [List.argmin_eq_some_iff]
  simp only [List.mem_filter, decide_eq_true_eq, and_imp]
  constructor
  case mp =>
    rintro ⟨⟨ha, hle⟩, hmin, -⟩
    refine ⟨ha, ?_⟩
    obtain ⟨b, hb, rfl⟩ := exists_ahead_eq hn ha hle
    exact le_antisymm ((ahead_le_iff ha hb).mpr (hmin b hb le_rfl)) hle
  case mpr =>
    rintro ⟨ha, rfl⟩
    refine ⟨⟨ha, le_rfl⟩, fun b hb hle => (ahead_le_iff ha hb).mp hle, ?_⟩
    intro b hb hle hk
    rw [List.inj_on_of_nodup_map hn hb ha (le_antisymm hk ((ahead_le_iff ha hb).mp hle))]

theorem argmin_eq_some_iff_ahead (hn : (l.map key).Nodup) :
    l.argmin key = some a ↔ a ∈ l ∧ ahead key l a = 0 := by
  rw [← argmin_filter_ahead hn]
  simp

end Ranking
