import Mathlib.Data.List.Nodup
import Mathlib.Data.Option.Basic

-- A row type whose primary key is `key`. Tables below are indexed by the row type alone, the key
-- type follows from it.
class Keyed (ρ : Type) (κ : outParam Type) where
  key : ρ → κ

open Keyed

-- A dictionary is a table of pairs.
instance {κ ν : Type} : Keyed (κ × ν) κ where
  key := Prod.fst

-- A finite table in insertion order. The primary key constraint is part of the type, so no
-- operation can produce two rows with one key.
@[ext]
structure Table (ρ : Type) {κ : Type} [Keyed ρ κ] where
  rows  : List ρ
  nodup : (rows.map key).Nodup

namespace Table

variable {ρ κ : Type} [Keyed ρ κ]

instance : Membership ρ (Table ρ) where
  mem t r := r ∈ t.rows

instance [DecidableEq ρ] (r : ρ) (t : Table ρ) : Decidable (r ∈ t) :=
  inferInstanceAs <| Decidable (r ∈ t.rows)

theorem mem_rows {t : Table ρ} {r : ρ} : r ∈ t.rows ↔ r ∈ t :=
  Iff.rfl

def empty : Table ρ where
  rows  := []
  nodup := by simp

instance : EmptyCollection (Table ρ) where
  emptyCollection := empty

instance : Inhabited (Table ρ) where
  default := empty

@[simp]
theorem not_mem_empty (r : ρ) : r ∉ (∅ : Table ρ) :=
  List.not_mem_nil

theorem eq_of_key_eq {t : Table ρ} {r₁ r₂ : ρ} (h₁ : r₁ ∈ t) (h₂ : r₂ ∈ t) (h : key r₁ = key r₂) :
    r₁ = r₂ :=
  List.inj_on_of_nodup_map t.nodup h₁ h₂ h

variable [DecidableEq κ]

-- The row with primary key `k`.
def get (t : Table ρ) (k : κ) : Option ρ :=
  t.rows.find? (key · = k)

theorem get_eq_some {t : Table ρ} {k : κ} {r : ρ} : t.get k = some r ↔ r ∈ t ∧ key r = k := by
  constructor
  case mp =>
    intro h
    exact ⟨List.mem_of_find?_eq_some h, by simpa using List.find?_some h⟩
  case mpr =>
    rintro ⟨hm, rfl⟩
    cases hf : t.get (key r)
    case none =>
      have := List.find?_eq_none.mp hf r hm
      simp at this
    case some r' =>
      have hm' : r' ∈ t := List.mem_of_find?_eq_some hf
      have hk' : key r' = key r := by simpa using List.find?_some hf
      rw [eq_of_key_eq hm' hm hk']

theorem get_eq_none {t : Table ρ} {k : κ} : t.get k = none ↔ ∀ r ∈ t, key r ≠ k := by
  simp [get, List.find?_eq_none, mem_rows]

theorem mem_of_get {t : Table ρ} {k : κ} {r : ρ} (h : t.get k = some r) : r ∈ t :=
  get_eq_some.mp h |>.left

theorem key_of_get {t : Table ρ} {k : κ} {r : ρ} (h : t.get k = some r) : key r = k :=
  get_eq_some.mp h |>.right

theorem get_of_mem {t : Table ρ} {r : ρ} (h : r ∈ t) : t.get (key r) = some r :=
  get_eq_some.mpr ⟨h, rfl⟩

theorem mem_iff_get {t : Table ρ} {r : ρ} : r ∈ t ↔ t.get (key r) = some r :=
  ⟨get_of_mem, mem_of_get⟩

@[simp]
theorem get_empty (k : κ) : (∅ : Table ρ).get k = none :=
  rfl

-- `INSERT`: fails when the primary key is taken.
def insert (t : Table ρ) (r : ρ) : Option (Table ρ) :=
  if h : t.get (key r) = none then
    some {
      rows  := t.rows ++ [r]
      nodup := by
        have hn := get_eq_none.mp h
        simp only [List.map_append, List.map_cons, List.map_nil]
        refine List.Nodup.append t.nodup (List.nodup_singleton _) ?_
        simp only [List.disjoint_singleton, List.mem_map, not_exists, not_and]
        exact fun r' hr' => hn r' hr'
    }
  else
    none

theorem insert_eq_some {t t' : Table ρ} {r : ρ} :
    t.insert r = some t' ↔ t.get (key r) = none ∧ t'.rows = t.rows ++ [r] := by
  unfold insert
  split
  case isTrue h => simp [h, Table.ext_iff, eq_comm]
  case isFalse h => simp [h]

theorem mem_insert {t t' : Table ρ} {r x : ρ} (h : t.insert r = some t') :
    x ∈ t' ↔ x ∈ t ∨ x = r := by
  simp [← mem_rows, (insert_eq_some.mp h).right]

theorem get_insert {t t' : Table ρ} {r : ρ} (h : t.insert r = some t') (k : κ) :
    t'.get k = if key r = k then some r else t.get k := by
  obtain ⟨hn, hr⟩ := insert_eq_some.mp h
  unfold get
  rw [hr, List.find?_append]
  split
  case isTrue hk =>
    have : t.rows.find? (key · = k) = none := hk ▸ hn
    simp [this, hk]
  case isFalse hk => simp [hk]

-- `INSERT OR IGNORE`.
def insertOrIgnore (t : Table ρ) (r : ρ) : Table ρ :=
  t.insert r |>.getD t

theorem insertOrIgnore_of_none {t : Table ρ} {r : ρ} (h : t.get (key r) = none) :
    t.insert r = some (t.insertOrIgnore r) := by
  simp [insertOrIgnore, insert, h]

theorem insertOrIgnore_of_some {t : Table ρ} {r r' : ρ} (h : t.get (key r) = some r') :
    t.insertOrIgnore r = t := by
  simp [insertOrIgnore, insert, h]

@[simp]
theorem get_insertOrIgnore (t : Table ρ) (r : ρ) (k : κ) :
    (t.insertOrIgnore r).get k = (t.get k).or (if key r = k then some r else none) := by
  cases h : t.get (key r)
  case none =>
    rw [get_insert (insertOrIgnore_of_none h)]
    split
    case isTrue hk => simp [← hk, h]
    case isFalse hk => simp
  case some r' =>
    rw [insertOrIgnore_of_some h]
    split
    case isTrue hk => simp [← hk, h]
    case isFalse hk => simp

-- `INSERT ... ON CONFLICT DO UPDATE`: replace the row with the key of `r`, or append.
def put (t : Table ρ) (r : ρ) : Table ρ :=
  if h : t.get (key r) = none then
    (t.insert r).get (by simp [insert, h])
  else {
    rows  := t.rows.map fun x => if key x = key r then r else x
    nodup := by
      rw [List.map_map, List.map_congr_left (g := key)]
      · exact t.nodup
      · intro x _
        simp only [Function.comp_apply]
        split <;> simp_all
  }

@[simp]
theorem get_put (t : Table ρ) (r : ρ) (k : κ) :
    (t.put r).get k = if key r = k then some r else t.get k := by
  unfold put
  split
  case isTrue h => exact get_insert (Option.some_get _).symm k
  case isFalse h =>
    obtain ⟨r', hr'⟩ := Option.ne_none_iff_exists'.mp h
    have hk' := key_of_get hr'
    split
    case isTrue hk =>
      refine get_eq_some.mpr ⟨?_, hk⟩
      refine List.mem_map.mpr ⟨r', mem_of_get hr', ?_⟩
      simp [hk']
    case isFalse hk =>
      apply Option.ext
      intro x
      simp only [get_eq_some, ← mem_rows, List.mem_map]
      constructor
      case mp =>
        rintro ⟨⟨y, hy, rfl⟩, hx⟩
        split at hx
        case isTrue => exact absurd hx hk
        case isFalse hne =>
          rw [if_neg hne]
          exact ⟨hy, hx⟩
      case mpr =>
        rintro ⟨hx, rfl⟩
        exact ⟨⟨x, hx, by simp [Ne.symm hk]⟩, rfl⟩

-- A row that is put adds at most itself.
theorem rows_put_of_none {t : Table ρ} {r : ρ} (h : t.get (key r) = none) : (t.put r).rows = t.rows ++ [r] := by
  rw [put, dif_pos h]
  exact (insert_eq_some.mp (Option.some_get _).symm).right

theorem length_put_le (t : Table ρ) (r : ρ) : (t.put r).rows.length ≤ t.rows.length + 1 := by
  unfold put
  split
  case isTrue h =>
    have hinsert : t.insert r = some ((t.insert r).get (by simp [insert, h])) := (Option.some_get _).symm
    exact Nat.le_of_eq (by rw [(insert_eq_some.mp hinsert).right, List.length_append, List.length_singleton])
  case isFalse h => exact Nat.le_succ_of_le (Nat.le_of_eq (List.length_map _))

theorem length_insertOrIgnore_le (t : Table ρ) (r : ρ) :
    (t.insertOrIgnore r).rows.length ≤ t.rows.length + 1 := by
  cases h : t.get (key r)
  case none =>
    have hinsert := insert_eq_some.mp (insertOrIgnore_of_none h)
    exact Nat.le_of_eq (by rw [hinsert.right, List.length_append, List.length_singleton])
  case some =>
    rw [insertOrIgnore_of_some h]
    exact Nat.le_succ _

omit [DecidableEq κ] in
theorem length_foldl_le {f : Table ρ → ρ → Table ρ} (hf : ∀ t r, (f t r).rows.length ≤ t.rows.length + 1)
    (l : List ρ) (t : Table ρ) : (l.foldl f t).rows.length ≤ t.rows.length + l.length := by
  induction l generalizing t
  case nil          => exact Nat.le_refl _
  case cons r l ih =>
    have hle := ih (f t r)
    have hstep := hf t r
    rw [List.foldl_cons, List.length_cons]
    omega

theorem mem_put {t : Table ρ} {r x : ρ} : x ∈ t.put r ↔ x = r ∨ (x ∈ t ∧ key x ≠ key r) := by
  rw [mem_iff_get, get_put, mem_iff_get (t := t)]
  split
  case isTrue h =>
    simp only [Option.some.injEq, h, ne_eq, not_true, and_false, or_false]
    exact eq_comm
  case isFalse h =>
    have hn : x ≠ r := fun he => h (by rw [he])
    simp [hn, Ne.symm h]

omit [DecidableEq κ] in
theorem nodup_filter (t : Table ρ) (p : ρ → Bool) : ((t.rows.filter p).map key).Nodup :=
  t.nodup.sublist <| List.filter_sublist.map _

-- `DELETE ... WHERE p`.
def delete (t : Table ρ) (p : ρ → Bool) : Table ρ where
  rows  := t.rows.filter (! p ·)
  nodup := t.nodup_filter _

omit [DecidableEq κ] in
@[simp]
theorem mem_delete {t : Table ρ} {p : ρ → Bool} {r : ρ} : r ∈ t.delete p ↔ r ∈ t ∧ p r = false := by
  simp [← mem_rows, delete]

-- What is put under a key that was free can be taken out again.
theorem delete_put {t : Table ρ} {r : ρ} {p : ρ → Bool} (h : t.get (key r) = none)
    (hp : ∀ x, p x = decide (key x = key r)) : (t.put r).delete p = t := by
  refine Table.ext ?_
  have hrest : t.rows.filter (fun x => !p x) = t.rows := by
    refine List.filter_eq_self.mpr fun x hx => ?_
    simpa [hp] using get_eq_none.mp h x hx
  change (t.put r).rows.filter (fun x => !p x) = t.rows
  rw [rows_put_of_none h, List.filter_append, hrest]
  simp [hp]

theorem get_delete_eq_some {t : Table ρ} {p : ρ → Bool} {k : κ} {r : ρ} :
    (t.delete p).get k = some r ↔ t.get k = some r ∧ p r = false := by
  simp [get_eq_some, and_right_comm]

@[simp]
theorem get_delete (t : Table ρ) (p : ρ → Bool) (k : κ) :
    (t.delete p).get k = (t.get k).filter (! p ·) := by
  apply Option.ext
  intro r
  simp [get_delete_eq_some, Option.filter_eq_some_iff]

-- `UPDATE ... SET f WHERE p`, for updates that leave the primary key alone.
def update (t : Table ρ) (p : ρ → Bool) (f : ρ → ρ)
    (hf : ∀ r, key (f r) = key r := by as_aux_lemma => intros; rfl) : Table ρ where
  rows  := t.rows.map fun r => if p r then f r else r
  nodup := by
    rw [List.map_map, List.map_congr_left (g := key)]
    · exact t.nodup
    · intro r _
      simp only [Function.comp_apply]
      split <;> simp [hf]

omit [DecidableEq κ] in
theorem mem_update {t : Table ρ} {p : ρ → Bool} {f : ρ → ρ} {hf} {r : ρ} :
    r ∈ t.update p f hf ↔ ∃ r' ∈ t, (if p r' then f r' else r') = r := by
  simp [← mem_rows, update]

omit [DecidableEq κ] in
theorem update_of_forall_eq {t : Table ρ} {p : ρ → Bool} {f : ρ → ρ} (hf)
    (h : ∀ r ∈ t, p r → f r = r) : t.update p f hf = t := by
  ext1
  refine (List.map_congr_left fun r hr => ?_).trans (List.map_id _)
  simpa using h r hr

omit [DecidableEq κ] in
theorem update_of_forall_not {t : Table ρ} {p : ρ → Bool} {f : ρ → ρ} (hf)
    (h : ∀ r ∈ t, p r = false) : t.update p f hf = t :=
  update_of_forall_eq hf fun r hr hp => by simp [h r hr] at hp

omit [DecidableEq κ] in
-- An update that does not change which rows are deleted can be made before or after that.
theorem update_delete_comm {t : Table ρ} {p q : ρ → Bool} {f : ρ → ρ} (hf)
    (h : ∀ r, q (if p r then f r else r) = q r) :
    (t.delete q).update p f hf = (t.update p f hf).delete q := by
  ext1
  simp only [update, delete, List.filter_map]
  congr 2
  funext r
  simp [Function.comp_apply, h]

@[simp]
theorem get_update (t : Table ρ) (p : ρ → Bool) (f : ρ → ρ) (hf) (k : κ) :
    (t.update p f hf).get k = (t.get k).map fun r => if p r then f r else r := by
  unfold get update
  simp only
  induction t.rows
  case nil => rfl
  case cons r rs ih =>
    have hk : key (if p r then f r else r) = key r := by split <;> simp [hf]
    simp only [List.map_cons, List.find?_cons, hk]
    split <;> simp [ih]

section SelectByKey

variable {t : Table ρ} {p : ρ → Bool} {i k : κ}

-- `UPDATE ... WHERE key = i`.
theorem get_update_key {f : ρ → ρ} (hf) (hp : ∀ r, p r = decide (key r = i)) :
    (t.update p f hf).get k = if k = i then (t.get k).map f else t.get k := by
  rw [get_update]
  cases h : t.get k
  case none => simp
  case some r =>
    have hk := key_of_get h
    by_cases k = i <;> simp_all

-- `DELETE ... WHERE q(key)`.
theorem get_delete_of_key {q : κ → Bool} (hp : ∀ r, p r = q (key r)) :
    (t.delete p).get k = if q k then none else t.get k := by
  rw [get_delete]
  cases h : t.get k
  case none => simp
  case some r =>
    have hk := key_of_get h
    cases hq : q k <;> simp [Option.filter, hp, hk, hq]

-- `DELETE ... WHERE key = i`.
theorem get_delete_key (hp : ∀ r, p r = decide (key r = i)) :
    (t.delete p).get k = if k = i then none else t.get k := by
  simpa using get_delete_of_key (q := fun k => decide (k = i)) hp

-- `UPDATE ... WHERE key = i AND q`.
theorem get_update_key_and {f : ρ → ρ} {q : ρ → Bool} (hf)
    (hp : ∀ r, p r = (decide (key r = i) && q r)) :
    (t.update p f hf).get k = (t.get k).map fun r => if k = i ∧ q r then f r else r := by
  rw [get_update]
  cases h : t.get k
  case none => rfl
  case some r =>
    have hk := key_of_get h
    simp_all

end SelectByKey

end Table
