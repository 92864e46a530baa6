import Mathlib.Data.List.Basic

-- Replacement in sequences, and the escaping that is made of it.
namespace Escapes

variable {α : Type} [DecidableEq α]

-- The replacement goes on behind what is still to be passed over.
def replaceFrom (old new : List α) : Nat → List α → List α
  | _,     []      => []
  | n + 1, _ :: xs => replaceFrom old new n xs
  | 0,     x :: xs =>
    if old.isPrefixOf (x :: xs) then new ++ replaceFrom old new (old.length - 1) xs
    else x :: replaceFrom old new 0 xs

-- `value.replace(old, new)` for an `old` that is not empty.
def replace (old new xs : List α) : List α :=
  replaceFrom old new 0 xs

-- `value.replace("\\", "\\\\").replace('"', '\\"')`
def escape (e q : α) (xs : List α) : List α :=
  replace [q] [e, q] (replace [e] [e, e] xs)

-- `value.replace('\\"', '"').replace("\\\\", "\\")`
def unescape (e q : α) (xs : List α) : List α :=
  replace [e, e] [e] (replace [e, q] [q] xs)

variable {a b e q x : α} {new xs ys : List α}

theorem replace_singleton (a : α) (new xs : List α) :
    replace [a] new xs = xs.flatMap fun x => if x = a then new else [x] := by
  induction xs
  case nil          => rfl
  case cons x xs ih =>
    rw [replace] at ih
    rw [replace, replaceFrom, List.flatMap_cons, ← ih]
    by_cases h : x = a
    · simp [h]
    · simp [h, Ne.symm h]

-- A part of two that does not begin here is left.
theorem replace_cons (h : ¬[a, b].isPrefixOf (x :: xs)) :
    replace [a, b] new (x :: xs) = x :: replace [a, b] new xs := by
  rw [replace, replaceFrom, if_neg h]
  rfl

theorem replace_pair : replace [a, b] new (a :: b :: xs) = new ++ replace [a, b] new xs := by
  simp [replace, replaceFrom]

-- What is written for one of the sequence.
def escaped (e q x : α) : List α :=
  if x = e ∨ x = q then [e, x] else [x]

theorem escape_eq (h : e ≠ q) : escape e q xs = xs.flatMap (escaped e q) := by
  rw [escape, replace_singleton, replace_singleton, List.flatMap_assoc]
  refine List.flatMap_congr fun x _ => ?_
  by_cases hx : x = e
  · simp [escaped, hx, h]
  · by_cases hq : x = q
    · simp [escaped, hq, Ne.symm h]
    · simp [escaped, hx, hq]

theorem mem_escape (h : e ≠ q) (hx : x ∈ escape e q xs) : x = e ∨ x ∈ xs := by
  rw [escape_eq h] at hx
  obtain ⟨y, hy, hx⟩ := List.mem_flatMap.mp hx
  rw [escaped] at hx
  split at hx
  case isTrue  =>
    obtain rfl | rfl : x = e ∨ x = y := by simpa using hx
    · exact .inl rfl
    · exact .inr hy
  case isFalse => exact .inr (List.mem_singleton.mp hx ▸ hy)

-- What is escaped does not begin with a quote.
theorem head?_escape (h : e ≠ q) : (xs.flatMap (escaped e q)).head? ≠ some q := by
  cases xs
  case nil       => simp
  case cons x xs =>
    rw [List.flatMap_cons, escaped]
    split
    case isTrue     => simpa using h
    case isFalse hx => simpa using (not_or.mp hx).right

def doubled (e x : α) : List α :=
  if x = e then [e, e] else [x]

theorem replace_quotes (h : e ≠ q) : replace [e, q] [q] (xs.flatMap (escaped e q)) = xs.flatMap (doubled e) := by
  induction xs
  case nil          => rfl
  case cons x xs ih =>
    have hhead : (xs.flatMap (escaped e q)).head? ≠ some q := head?_escape h
    rw [List.flatMap_cons, List.flatMap_cons, ← ih, escaped, doubled]
    generalize xs.flatMap (escaped e q) = ys at hhead
    by_cases hx : x = e
    · rw [if_pos (.inl hx), if_pos hx, hx, List.cons_append, List.cons_append, List.nil_append]
      rw [replace_cons (by simp [Ne.symm h]), replace_cons]
      · rfl
      · cases ys
        case nil       => simp
        case cons y ys => simpa using Ne.symm hhead
    · rw [if_neg hx]
      by_cases hq : x = q
      · rw [if_pos (.inr hq), hq]
        exact replace_pair
      · rw [if_neg (by simp [hx, hq])]
        exact replace_cons (by simp [Ne.symm hx])

theorem replace_doubled : replace [e, e] [e] (xs.flatMap (doubled e)) = xs := by
  induction xs
  case nil          => rfl
  case cons x xs ih =>
    rw [List.flatMap_cons, doubled]
    split
    case isTrue hx  =>
      rw [hx]
      exact replace_pair.trans (congrArg (e :: ·) ih)
    case isFalse hx =>
      refine (replace_cons (by simp [Ne.symm hx])).trans ?_
      exact congrArg (x :: ·) ih

-- Two replacements one after the other undo the escaping, for after the first every escape stands beside another.
theorem unescape_escape (h : e ≠ q) : unescape e q (escape e q xs) = xs := by
  rw [escape_eq h, unescape, replace_quotes h, replace_doubled]

end Escapes
