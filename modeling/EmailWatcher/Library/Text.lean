import Mathlib.Data.List.DropRight
import Mathlib.Data.List.Infix

-- Text as it is decoded, lone surrogates included.
abbrev CodePoint := Fin 0x110000

abbrev Text := List CodePoint

instance CodePoint.neZero : @NeZero Nat Zero.ofOfNat0 0x110000 where
  out := by decide

instance : LawfulBEq CodePoint :=
  inferInstance

instance : LawfulBEq (Option CodePoint) :=
  inferInstance

instance : LawfulBEq Text :=
  inferInstance

instance : Coe Char CodePoint where
  coe c := Fin.ofNat 0x110000 c.toNat

instance : Coe String Text where
  coe s := s.toList.map fun c => (c : CodePoint)

namespace Text

-- `str.isspace` of a single character.
def isSpace (c : CodePoint) : Bool :=
  (0x09 ≤ c.val && c.val ≤ 0x0d) || (0x1c ≤ c.val && c.val ≤ 0x20) ||
  (0x2000 ≤ c.val && c.val ≤ 0x200a) ||
  c.val ∈ [0x85, 0xa0, 0x1680, 0x2028, 0x2029, 0x202f, 0x205f, 0x3000]

def space : CodePoint :=
  ' '

-- `text[start:stop]`.
def slice (text : Text) (start stop : Nat) : Text :=
  (text.take stop).drop start

-- `text.find(part, start)`.
def find (text part : Text) (start : Nat) : Option Nat :=
  (List.range' start (text.length + 1 - start)).find? fun i => part.isPrefixOf (text.drop i)

-- `text.rfind(c, 0, stop)`.
def rfind (text : Text) (c : CodePoint) (stop : Nat) : Int :=
  match (List.range (min stop text.length)).reverse.find? fun i => text[i]? = some c with
  | some i => i
  | none   => -1

def strip (text : Text) : Text :=
  (text.dropWhile isSpace).rdropWhile isSpace

-- `text.split()`.
def split (text : Text) : List Text :=
  (text.splitOnP isSpace).filter (· ≠ [])

-- `" ".join(text.split())`.
def collapse (text : Text) : Text :=
  List.intercalate [space] (split text)

section Slice

variable {text : Text} {a b c : Nat}

theorem slice_append (hab : a ≤ b) (hbc : b ≤ c) : slice text a b ++ slice text b c = slice text a c := by
  have hc : c - a = (b - a) + (c - b) := by omega
  have hb : a + (b - a) = b := by omega
  rw [slice, slice, slice, List.drop_take, List.drop_take, List.drop_take, hc, List.take_add, List.drop_drop, hb]

theorem take_append_slice (h : a ≤ b) : text.take a ++ slice text a b = text.take b :=
  slice_append (Nat.zero_le a) h

theorem slice_cons {x : CodePoint} (hx : text[a]? = some x) (h : a < b) :
    slice text a b = x :: slice text (a + 1) b := by
  obtain ⟨ha, hx⟩ := List.getElem?_eq_some_iff.mp hx
  have hlt : a < (text.take b).length := by
    rw [List.length_take]
    omega
  rw [slice, List.drop_eq_getElem_cons hlt, List.getElem_take, hx]
  rfl

end Slice

section Search

variable {text part : Text} {c : CodePoint} {i start stop : Nat}

theorem find_eq_some :
    find text part start = some i ↔
    part <+: text.drop i ∧ (start ≤ i ∧ i ≤ text.length) ∧
      ∀ j, start ≤ j → j < i → ¬part <+: text.drop j := by
  simp only [find, List.find?_range'_eq_some, List.isPrefixOf_iff_prefix, List.mem_range'_1,
    Bool.not_eq_true', Bool.eq_false_iff, ne_eq]
  refine and_congr_right fun _ => and_congr_left fun _ => ?_
  omega

theorem find_eq_none :
    find text part start = none ↔ ∀ i, start ≤ i → i ≤ text.length → ¬part <+: text.drop i := by
  simp only [find, List.find?_range'_eq_none, List.isPrefixOf_iff_prefix, Bool.not_eq_true',
    Bool.eq_false_iff, ne_eq]
  exact forall_congr' fun i => forall_congr' fun _ => by
    constructor <;> exact fun h hi => h (by omega)

-- A part is found from the start on if it is there at all.
theorem find_isSome : (find text part 0).isSome ↔ part <:+: text := by
  rw [← not_iff_not, Option.not_isSome_iff_eq_none, find_eq_none]
  constructor
  case mp =>
    rintro h ⟨before, after, rfl⟩
    refine h before.length (Nat.zero_le _) (by simp) ?_
    simp [List.append_assoc]
  case mpr =>
    rintro h i - - ⟨after, hi⟩
    refine h ⟨text.take i, after, ?_⟩
    rw [List.append_assoc, hi, List.take_append_drop]

theorem rfind_bounds : -1 ≤ rfind text c stop ∧ rfind text c stop < stop := by
  unfold rfind
  split
  case h_1 i h =>
    have := List.mem_range.mp (List.mem_reverse.mp (List.mem_of_find?_eq_some h))
    omega
  case h_2 => omega

end Search

-- What a collapsed text goes on with after its first word has begun.
def follow : Bool → Text → Text
  | _,      []      => []
  | spaced, c :: cs =>
    if isSpace c then follow true cs
    else (if spaced then [space, c] else [c]) ++ follow false cs

section Collapse

variable {text xs ys zs : Text} {c : CodePoint} {spaced : Bool}

theorem follow_of_split (xs : Text) : ∃ w ws, xs.splitOnP isSpace = w :: ws ∧
    follow false xs = w ++ (ws.filter (· ≠ [])).flatMap (space :: ·) ∧
    follow true xs = ((w :: ws).filter (· ≠ [])).flatMap (space :: ·) := by
  induction xs
  case nil => exact ⟨[], [], rfl, rfl, rfl⟩
  case cons c xs ih =>
    obtain ⟨w, ws, hs, hf, ht⟩ := ih
    cases hc : isSpace c
    case true =>
      refine ⟨[], w :: ws, by simp [List.splitOnP_cons_eq_if_modifyHead, hc, hs], ?_, ?_⟩
      · simp [follow, hc, ht]
      · simp [follow, hc, ht]
    case false =>
      refine ⟨c :: w, ws, by simp [List.splitOnP_cons_eq_if_modifyHead, hc, hs], ?_, ?_⟩
      · simp [follow, hc, hf]
      · simp [follow, hc, hf]

theorem intercalate_cons (w : Text) (ws : List Text) :
    List.intercalate [space] (w :: ws) = w ++ ws.flatMap (space :: ·) := by
  induction ws generalizing w
  case nil            => simp
  case cons w' ws ih => simp [List.intercalate_cons_cons, ih]

@[simp]
theorem collapse_nil : collapse [] = [] :=
  rfl

theorem collapse_space (hc : isSpace c) : collapse (c :: xs) = collapse xs := by
  simp [collapse, split, List.splitOnP_cons_eq_if_modifyHead, hc]

theorem collapse_word (hc : isSpace c = false) : collapse (c :: xs) = c :: follow false xs := by
  obtain ⟨w, ws, hs, hf, -⟩ := follow_of_split xs
  have hsplit : split (c :: xs) = (c :: w) :: ws.filter (· ≠ []) := by
    simp [split, List.splitOnP_cons_eq_if_modifyHead, hc, hs]
  rw [collapse, hsplit, intercalate_cons, hf]
  rfl

theorem follow_word (hc : isSpace c = false) :
    follow spaced (c :: xs) = (if spaced then [space] else []) ++ collapse (c :: xs) := by
  rw [collapse_word hc]
  cases spaced <;> simp [follow, hc]

-- What is left of a text that is not blank begins with a word.
theorem exists_collapse_eq (h : collapse text ≠ []) :
    ∃ c cs, isSpace c = false ∧ collapse text = collapse (c :: cs) := by
  induction text
  case nil => exact absurd rfl h
  case cons c cs ih =>
    cases hc : isSpace c
    case true  => rw [collapse_space hc] at h ⊢; exact ih h
    case false => exact ⟨c, cs, hc, rfl⟩

theorem follow_append (spaced : Bool) (xs ys : Text) :
    ∃ b, follow spaced (xs ++ ys) = follow spaced xs ++ follow b ys := by
  induction xs generalizing spaced
  case nil => exact ⟨spaced, rfl⟩
  case cons c xs ih =>
    cases hc : isSpace c
    case true =>
      obtain ⟨b, h⟩ := ih true
      exact ⟨b, by simp [follow, hc, h]⟩
    case false =>
      obtain ⟨b, h⟩ := ih false
      exact ⟨b, by simp [follow, hc, h]⟩

theorem follow_spaces (h : ∀ c ∈ xs, isSpace c) : follow spaced xs = [] := by
  induction xs generalizing spaced
  case nil          => rfl
  case cons c xs ih => simp [follow, h c (by simp), ih fun c hc => h c (by simp [hc])]

-- White space around a text does not count.
theorem collapse_spaces_append (h : ∀ c ∈ xs, isSpace c) : collapse (xs ++ ys) = collapse ys := by
  induction xs
  case nil => rfl
  case cons c xs ih =>
    rw [List.cons_append, collapse_space (h c (by simp)), ih fun c hc => h c (by simp [hc])]

theorem collapse_append_spaces (h : ∀ c ∈ ys, isSpace c) : collapse (xs ++ ys) = collapse xs := by
  induction xs
  case nil =>
    have hnil : collapse (ys ++ []) = collapse [] := collapse_spaces_append h
    rwa [List.append_nil] at hnil
  case cons c xs ih =>
    cases hc : isSpace c
    case true  => rw [List.cons_append, collapse_space hc, collapse_space hc, ih]
    case false =>
      obtain ⟨b, hb⟩ := follow_append false xs ys
      rw [List.cons_append, collapse_word hc, collapse_word hc, hb, follow_spaces h, List.append_nil]

theorem strip_eq (text : Text) : ∃ before after, text = before ++ strip text ++ after ∧
    (∀ c ∈ before, isSpace c) ∧ ∀ c ∈ after, isSpace c := by
  refine ⟨text.takeWhile isSpace, (text.dropWhile isSpace).rtakeWhile isSpace, ?_, ?_, ?_⟩
  · rw [List.append_assoc, strip, List.rdropWhile_append_rtakeWhile, List.takeWhile_append_dropWhile]
  · exact fun c hc => List.mem_takeWhile_imp hc
  · exact fun c hc => List.mem_rtakeWhile_imp hc

theorem collapse_strip : collapse (strip text) = collapse text := by
  obtain ⟨before, after, h, hb, ha⟩ := strip_eq text
  conv_rhs => rw [h]
  rw [collapse_append_spaces ha, collapse_spaces_append hb]

-- A part that begins with a word stays whole.
theorem collapse_infix (hc : isSpace c = false) : collapse (c :: ys) <:+: collapse (xs ++ c :: ys ++ zs) := by
  obtain ⟨b, hb⟩ := follow_append false ys zs
  have hinner : collapse (c :: ys) <+: collapse (c :: ys ++ zs) := by
    rw [List.cons_append, collapse_word hc, collapse_word hc, hb]
    exact ⟨_, rfl⟩
  refine hinner.isInfix.trans ?_
  rw [List.append_assoc, List.cons_append]
  induction xs
  case nil => exact List.infix_rfl
  case cons d xs ih =>
    cases hd : isSpace d
    case true  => rwa [List.cons_append, collapse_space hd]
    case false =>
      obtain ⟨b', hb'⟩ := follow_append false xs (c :: (ys ++ zs))
      rw [List.cons_append, collapse_word hd, hb', follow_word hc, ← List.append_assoc]
      exact ((List.suffix_append _ _).trans (List.suffix_cons _ _)).isInfix

theorem getLast?_follow {c : CodePoint} (h : (follow spaced xs).getLast? = some c) : isSpace c = false := by
  induction xs generalizing spaced
  case nil => cases h
  case cons d xs ih =>
    cases hd : isSpace d
    case true  => exact ih (by simpa [follow, hd] using h)
    case false =>
      have hlast : (d :: follow false xs).getLast? = some c := by
        cases spaced
        · simpa [follow, hd] using h
        · simpa [follow, hd] using h
      cases hrest : (follow false xs).getLast?
      case none       => simp_all [List.getLast?_cons]
      case some last =>
        rw [List.getLast?_cons, hrest] at hlast
        exact ih (hrest.trans hlast)

end Collapse

-- The characters that `str.splitlines` ends a line at. A carriage return and a line feed end one line.
def isLineBreak (c : CodePoint) : Bool :=
  c.val ∈ [0x0a, 0x0b, 0x0c, 0x0d, 0x1c, 0x1d, 0x1e, 0x85, 0x2028, 0x2029]

-- `text.splitlines()`, behind the part of a line that has been read, and perhaps behind a carriage return.
def splitlinesFrom (line : Text) (returned : Bool) : Text → List Text
  | []      => if line = [] then [] else [line]
  | c :: cs =>
    if returned && c.val = 0x0a then splitlinesFrom line false cs
    else if isLineBreak c then line :: splitlinesFrom [] (c.val = 0x0d) cs
    else splitlinesFrom (line ++ [c]) false cs

def splitlines (text : Text) : List Text :=
  splitlinesFrom [] false text

-- What of a text is seen.
def visible (text : Text) : Text :=
  text.filter fun c => !isSpace c

section Visible

variable {text xs ys : Text} {c : CodePoint}

theorem isSpace_of_isLineBreak (h : isLineBreak c) : isSpace c := by
  simp only [isLineBreak, List.mem_cons, List.not_mem_nil, or_false, decide_eq_true_eq] at h
  simp only [isSpace, Bool.or_eq_true, Bool.and_eq_true, decide_eq_true_eq, List.mem_cons, List.not_mem_nil, or_false]
  omega

@[simp]
theorem visible_append : visible (xs ++ ys) = visible xs ++ visible ys :=
  List.filter_append ..

theorem visible_flatten (l : List Text) : visible l.flatten = (l.map visible).flatten := by
  exact List.filter_flatten

theorem visible_cons : visible (c :: xs) = if isSpace c then visible xs else c :: visible xs := by
  cases hc : isSpace c <;> simp [visible, hc]

theorem visible_follow (spaced : Bool) (xs : Text) : visible (follow spaced xs) = visible xs := by
  have hspace : isSpace space = true := by decide
  induction xs generalizing spaced
  case nil          => rfl
  case cons c xs ih =>
    rw [follow, visible_cons]
    cases hc : isSpace c
    case true  => exact ih true
    case false => cases spaced <;> simp [visible_cons, hspace, hc, ih]

theorem visible_collapse (text : Text) : visible (collapse text) = visible text := by
  induction text
  case nil          => rfl
  case cons c cs ih =>
    cases hc : isSpace c
    case true  => rw [collapse_space hc, ih, visible_cons, if_pos hc]
    case false => rw [collapse_word hc, visible_cons, visible_cons, visible_follow]

theorem visible_dropWhile (text : Text) : visible (text.dropWhile isSpace) = visible text := by
  induction text
  case nil          => rfl
  case cons c cs ih =>
    rw [List.dropWhile_cons, visible_cons]
    cases hc : isSpace c
    case true  => simpa using ih
    case false => simp [visible_cons, hc]

theorem visible_strip (text : Text) : visible (strip text) = visible text := by
  have hreverse (l : Text) : visible l.reverse = (visible l).reverse := List.filter_reverse
  rw [strip, List.rdropWhile, hreverse, visible_dropWhile, hreverse, List.reverse_reverse, visible_dropWhile]

theorem visible_splitlinesFrom (line text : Text) (returned : Bool) :
    visible (splitlinesFrom line returned text).flatten = visible line ++ visible text := by
  induction text generalizing line returned
  case nil          =>
    rw [splitlinesFrom]
    split
    case isTrue hline  => simp [hline, visible]
    case isFalse hline => simp [visible]
  case cons c cs ih =>
    rw [splitlinesFrom, visible_cons]
    split
    case isTrue hfeed      =>
      have hc : isSpace c = true := by
        have hfeed : c.val = 0x0a := of_decide_eq_true (Bool.and_eq_true_iff.mp hfeed).right
        simp [isSpace, hfeed]
      rw [ih, if_pos hc]
    case isFalse =>
      split
      case isTrue hbreak   =>
        rw [List.flatten_cons, visible_append, ih, if_pos (isSpace_of_isLineBreak hbreak)]
        rfl
      case isFalse         =>
        rw [ih, visible_append, List.append_assoc]
        cases hc : isSpace c <;> simp [visible, hc]

theorem visible_splitlines (text : Text) : visible (splitlines text).flatten = visible text := by
  rw [splitlines, visible_splitlinesFrom]
  rfl

end Visible

section Breaks

variable {text line l : Text} {c : CodePoint}

theorem mem_splitlinesFrom {returned : Bool} (hline : ∀ c ∈ line, isLineBreak c = false)
    (hl : l ∈ splitlinesFrom line returned text) : ∀ c ∈ l, isLineBreak c = false := by
  induction text generalizing line returned
  case nil          =>
    rw [splitlinesFrom] at hl
    split at hl
    case isTrue  => cases hl
    case isFalse => exact List.mem_singleton.mp hl ▸ hline
  case cons c cs ih =>
    rw [splitlinesFrom] at hl
    split at hl
    case isTrue  => exact ih hline hl
    case isFalse =>
      split at hl
      case isTrue         =>
        obtain rfl | hl := List.mem_cons.mp hl
        · exact hline
        · exact ih (fun _ hd => absurd hd List.not_mem_nil) hl
      case isFalse hbreak =>
        refine ih (fun d hd => ?_) hl
        obtain hd | hd := List.mem_append.mp hd
        · exact hline d hd
        · rw [List.mem_singleton.mp hd]
          simpa using hbreak

theorem mem_splitlines (hl : l ∈ splitlines text) : ∀ c ∈ l, isLineBreak c = false :=
  mem_splitlinesFrom (fun _ hd => absurd hd List.not_mem_nil) hl

theorem mem_follow {spaced : Bool} (hc : c ∈ follow spaced text) : isSpace c = false ∨ c = space := by
  induction text generalizing spaced
  case nil          => cases hc
  case cons d cs ih =>
    rw [follow] at hc
    cases hd : isSpace d
    case true  => exact ih (by simpa [hd] using hc)
    case false =>
      rw [hd, if_neg Bool.false_ne_true] at hc
      obtain hc | hc := List.mem_append.mp hc
      · cases spaced
        case true  =>
          obtain rfl | rfl : c = space ∨ c = d := by simpa using hc
          · exact .inr rfl
          · exact .inl hd
        case false => exact .inl (by simpa using List.mem_singleton.mp hc ▸ hd)
      · exact ih hc

theorem mem_collapse (hc : c ∈ collapse text) : isSpace c = false ∨ c = space := by
  induction text
  case nil          => cases hc
  case cons d cs ih =>
    cases hd : isSpace d
    case true  => exact ih (collapse_space hd ▸ hc)
    case false =>
      rw [collapse_word hd] at hc
      obtain rfl | hc := List.mem_cons.mp hc
      · exact .inl hd
      · exact mem_follow hc

-- What has no white space at its ends is not stripped.
theorem trim_eq_self {α : Type} {p : α → Bool} {a b : α} {xs : List α} (ha : p a = false) (hb : p b = false) :
    ((a :: xs ++ [b]).dropWhile p).rdropWhile p = a :: xs ++ [b] := by
  rw [List.cons_append, List.dropWhile_cons_of_neg (by simp [ha]), ← List.cons_append,
    List.rdropWhile_concat_neg _ _ _ (by simp [hb])]

theorem mem_strip (hc : c ∈ strip text) : c ∈ text :=
  (List.dropWhile_sublist _).subset ((List.rdropWhile_prefix _ _).subset hc)

end Breaks
end Text
