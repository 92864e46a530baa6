import EmailWatcher.Library.Text

-- Byte strings, and how text is written in them.
abbrev Octet := Fin 256

abbrev Octets := List Octet

-- An ASCII character.
instance : Coe Char Octet where
  coe c := Fin.ofNat 256 c.toNat

instance : Coe String Octets where
  coe s := s.toList.map fun c => (c : Octet)

def isSurrogate (c : CodePoint) : Bool :=
  0xd800 ≤ c.val && c.val ≤ 0xdfff

namespace Octets

def quote : Octet :=
  '"'

def backslash : Octet :=
  '\\'

def opening : Octet :=
  '('

def closing : Octet :=
  ')'

def blank : Octet :=
  ' '

def newline : Octet :=
  '\n'

-- `bytes.isspace` of a single byte, which is `\s` in a pattern of bytes.
def isSpace (b : Octet) : Bool :=
  b.val = 0x20 || (0x09 ≤ b.val && b.val ≤ 0x0d)

def strip (bytes : Octets) : Octets :=
  (bytes.dropWhile isSpace).rdropWhile isSpace

-- `value.split()`
def split (bytes : Octets) : List Octets :=
  (bytes.splitOnP isSpace).filter (· ≠ [])

-- Words with a single space between them are found again.
theorem split_intercalate {b : Octet} {words : List Octets} (hb : isSpace b)
    (h : ∀ w ∈ words, w ≠ [] ∧ ∀ c ∈ w, isSpace c = false) : split (List.intercalate [b] words) = words := by
  rw [split]
  induction words
  case nil          => rfl
  case cons w ws ih =>
    obtain ⟨⟨hne, hw⟩, hws⟩ := List.forall_mem_cons.mp h
    cases ws
    case nil       => simp [List.splitOnP_eq_singleton hw, hne]
    case cons v ws =>
      rw [List.intercalate_cons_cons, List.append_assoc, List.singleton_append, List.splitOnP_append_cons_of_forall_mem hw b hb,
        List.filter_cons_of_pos (by simpa using hne), ih hws]

def octet (n : Nat) : Octet :=
  Fin.ofNat 256 n

def codePoint (n : Nat) : CodePoint :=
  Fin.ofNat 0x110000 n

-- What Python puts where bytes are malformed.
def replacement : CodePoint :=
  codePoint 0xfffd

-- `value.decode("ascii", "replace")`
def decodeAscii (bytes : Octets) : Text :=
  bytes.map fun b => if b.val < 0x80 then codePoint b.val else replacement

section Utf8

def utf8Char (c : CodePoint) : Octets :=
  if c.val < 0x80 then [octet c.val]
  else if c.val < 0x800 then [octet (0xc0 + c.val / 0x40), octet (0x80 + c.val % 0x40)]
  else if c.val < 0x10000 then
    [octet (0xe0 + c.val / 0x1000), octet (0x80 + c.val / 0x40 % 0x40), octet (0x80 + c.val % 0x40)]
  else
    [octet (0xf0 + c.val / 0x40000), octet (0x80 + c.val / 0x1000 % 0x40), octet (0x80 + c.val / 0x40 % 0x40),
      octet (0x80 + c.val % 0x40)]

-- `text.encode("utf-8")` of a text that has no surrogates.
def utf8 (text : Text) : Octets :=
  text.flatMap utf8Char

-- A character that has begun: what has been read of it, how many bytes are missing, and the bounds of the next one.
structure Pending where
  value : Nat
  tails : Nat
  low   : Nat
  high  : Nat

inductive Lead
  | char    (c : CodePoint)
  | pending (p : Pending)
  | invalid

def lead (b : Octet) : Lead :=
  if b.val < 0x80 then .char (codePoint b.val)
  else if b.val < 0xc2 then .invalid
  else if b.val < 0xe0 then .pending ⟨b.val % 0x20, 0, 0x80, 0xbf⟩
  else if b.val < 0xf0 then
    .pending ⟨b.val % 0x10, 1, if b.val = 0xe0 then 0xa0 else 0x80, if b.val = 0xed then 0x9f else 0xbf⟩
  else if b.val < 0xf5 then
    .pending ⟨b.val % 0x08, 2, if b.val = 0xf0 then 0x90 else 0x80, if b.val = 0xf4 then 0x8f else 0xbf⟩
  else .invalid

-- The characters of a byte string, with `none` for each of its longest parts that begin no further character.
def scanFrom : Option Pending → Octets → List (Option CodePoint)
  | none,   []      => []
  | some _, []      => [none]
  | none,   b :: bs =>
    match lead b with
    | .char c    => some c :: scanFrom none bs
    | .pending p => scanFrom (some p) bs
    | .invalid   => none :: scanFrom none bs
  | some p, b :: bs =>
    if p.low ≤ b.val ∧ b.val ≤ p.high then
      match p.tails with
      | 0         => some (codePoint (p.value * 0x40 + b.val % 0x40)) :: scanFrom none bs
      | tails + 1 => scanFrom (some ⟨p.value * 0x40 + b.val % 0x40, tails, 0x80, 0xbf⟩) bs
    else
      none ::
        match lead b with
        | .char c    => some c :: scanFrom none bs
        | .pending p => scanFrom (some p) bs
        | .invalid   => none :: scanFrom none bs

def scan (bytes : Octets) : List (Option CodePoint) :=
  scanFrom none bytes

-- `value.decode("utf-8", "replace")`
def decodeReplace (bytes : Octets) : Text :=
  (scan bytes).map fun c => c.getD replacement

-- `value.decode("utf-8", errors="strict")`, which fails where a byte is malformed.
def decodeStrict (bytes : Octets) : Option Text :=
  (scan bytes).mapM id

variable {c : CodePoint} {text : Text} {bytes : Octets}

theorem val_octet {n : Nat} (h : n < 256) : (octet n).val = n :=
  Nat.mod_eq_of_lt h

theorem codePoint_eq {n : Nat} (h : n = c.val) : codePoint n = c := by
  rw [h]
  exact Fin.ofNat_val_eq_self c

theorem scan_char {b : Octet} (h : lead b = .char c) : scanFrom none (b :: bytes) = some c :: scan bytes := by
  rw [scanFrom, h]
  rfl

theorem scan_pending {b : Octet} {p : Pending} (h : lead b = .pending p) :
    scanFrom none (b :: bytes) = scanFrom (some p) bytes := by
  rw [scanFrom, h]

theorem scan_last {value low high n : Nat} (hn : n < 256) (hl : low ≤ n) (hh : n ≤ high) :
    scanFrom (some ⟨value, 0, low, high⟩) (octet n :: bytes) =
      some (codePoint (value * 0x40 + n % 0x40)) :: scan bytes := by
  rw [scanFrom, val_octet hn, if_pos ⟨hl, hh⟩]
  rfl

theorem scan_tail {value tails low high n : Nat} (hn : n < 256) (hl : low ≤ n) (hh : n ≤ high) :
    scanFrom (some ⟨value, tails + 1, low, high⟩) (octet n :: bytes) =
      scanFrom (some ⟨value * 0x40 + n % 0x40, tails, 0x80, 0xbf⟩) bytes := by
  rw [scanFrom, val_octet hn, if_pos ⟨hl, hh⟩]

theorem lead_ascii {n : Nat} (h : n < 0x80) : lead (octet n) = .char (codePoint n) := by
  rw [lead, val_octet (by omega), if_pos h]

theorem lead_two {n : Nat} (hl : 0xc2 ≤ n) (hh : n < 0xe0) : lead (octet n) = .pending ⟨n % 0x20, 0, 0x80, 0xbf⟩ := by
  rw [lead, val_octet (by omega), if_neg (by omega), if_neg (by omega), if_pos hh]

theorem lead_three {n : Nat} (hl : 0xe0 ≤ n) (hh : n < 0xf0) : lead (octet n) =
    .pending ⟨n % 0x10, 1, if n = 0xe0 then 0xa0 else 0x80, if n = 0xed then 0x9f else 0xbf⟩ := by
  rw [lead, val_octet (by omega), if_neg (by omega), if_neg (by omega), if_neg (by omega), if_pos hh]

theorem lead_four {n : Nat} (hl : 0xf0 ≤ n) (hh : n < 0xf5) : lead (octet n) =
    .pending ⟨n % 0x08, 2, if n = 0xf0 then 0x90 else 0x80, if n = 0xf4 then 0x8f else 0xbf⟩ := by
  rw [lead, val_octet (by omega), if_neg (by omega), if_neg (by omega), if_neg (by omega), if_neg (by omega), if_pos hh]

theorem scan_utf8Char (hc : isSurrogate c = false) : scan (utf8Char c ++ bytes) = some c :: scan bytes := by
  have hlt := c.isLt
  rw [utf8Char]
  split
  case isTrue h  =>
    refine (scan_char (lead_ascii h)).trans ?_
    rw [codePoint_eq (c := c) rfl]
    rfl
  case isFalse h =>
    split
    case isTrue h'  =>
      refine (scan_pending (lead_two (by omega) (by omega))).trans ?_
      refine (scan_last (by omega) (by omega) (by omega)).trans ?_
      rw [codePoint_eq (c := c) (by omega)]
      rfl
    case isFalse h' =>
      split
      case isTrue h''  =>
        have hplain : c.val < 0xd800 ∨ 0xdfff < c.val := by
          simp only [isSurrogate, Bool.and_eq_false_iff, decide_eq_false_iff_not] at hc
          omega
        refine (scan_pending (lead_three (by omega) (by omega))).trans ?_
        refine (scan_tail (by omega) (by split <;> omega) (by split <;> omega)).trans ?_
        refine (scan_last (by omega) (by omega) (by omega)).trans ?_
        rw [codePoint_eq (c := c) (by omega)]
        rfl
      case isFalse h'' =>
        refine (scan_pending (lead_four (by omega) (by omega))).trans ?_
        refine (scan_tail (by omega) (by split <;> omega) (by split <;> omega)).trans ?_
        refine (scan_tail (by omega) (by omega) (by omega)).trans ?_
        refine (scan_last (by omega) (by omega) (by omega)).trans ?_
        rw [codePoint_eq (c := c) (by omega)]
        rfl

theorem scan_utf8 (h : ∀ c ∈ text, isSurrogate c = false) : scan (utf8 text) = text.map some := by
  induction text
  case nil          => rfl
  case cons c cs ih =>
    rw [utf8, List.flatMap_cons, scan_utf8Char (h c List.mem_cons_self), List.map_cons]
    exact congrArg (some c :: ·) (ih fun d hd => h d (List.mem_cons_of_mem c hd))

-- What has been encoded is decoded.
theorem decodeReplace_utf8 (h : ∀ c ∈ text, isSurrogate c = false) : decodeReplace (utf8 text) = text := by
  rw [decodeReplace, scan_utf8 h, List.map_map]
  exact List.map_id text

-- An ASCII byte is an ASCII character.
theorem mem_utf8 {b : Octet} (hb : b.val < 0x80) (h : b ∈ utf8 text) : codePoint b.val ∈ text := by
  obtain ⟨c, hc, h⟩ := List.mem_flatMap.mp h
  have hlt := c.isLt
  have hne {n : Nat} (hl : 0x80 ≤ n) (hh : n < 0x100) : b ≠ octet n := by
    intro heq
    rw [heq, val_octet hh] at hb
    omega
  rw [utf8Char] at h
  split at h
  case isTrue hascii =>
    rw [List.mem_singleton.mp h, val_octet (by omega), codePoint_eq (c := c) rfl]
    exact hc
  case isFalse       =>
    split at h
    case isTrue  =>
      simp only [List.mem_cons, List.not_mem_nil, or_false] at h
      exact absurd h (not_or.mpr ⟨hne (by omega) (by omega), hne (by omega) (by omega)⟩)
    case isFalse =>
      split at h
      case isTrue  =>
        simp only [List.mem_cons, List.not_mem_nil, or_false] at h
        exact absurd h (not_or.mpr ⟨hne (by omega) (by omega), not_or.mpr ⟨hne (by omega) (by omega),
          hne (by omega) (by omega)⟩⟩)
      case isFalse =>
        simp only [List.mem_cons, List.not_mem_nil, or_false] at h
        exact absurd h (not_or.mpr ⟨hne (by omega) (by omega), not_or.mpr ⟨hne (by omega) (by omega),
          not_or.mpr ⟨hne (by omega) (by omega), hne (by omega) (by omega)⟩⟩⟩)

end Utf8

section Utf16

def word (n : Nat) : Octets :=
  [octet (n / 0x100), octet (n % 0x100)]

def utf16Char (c : CodePoint) : Octets :=
  if c.val < 0x10000 then word c.val
  else word (0xd800 + (c.val - 0x10000) / 0x400) ++ word (0xdc00 + (c.val - 0x10000) % 0x400)

-- `text.encode("utf-16-be")`, which fails at a surrogate.
def utf16 (text : Text) : Option Octets :=
  if text.any isSurrogate then none else some (text.flatMap utf16Char)

def words : Octets → Option (List Nat)
  | []          => some []
  | [_]         => none
  | a :: b :: bs => (words bs).map ((a.val * 0x100 + b.val) :: ·)

def characters : List Nat → Option Text
  | []      => some []
  | n :: ns =>
    if 0xd800 ≤ n ∧ n < 0xdc00 then
      match ns with
      | m :: ns =>
        if 0xdc00 ≤ m ∧ m < 0xe000 then
          (characters ns).map (codePoint (0x10000 + (n - 0xd800) * 0x400 + (m - 0xdc00)) :: ·)
        else none
      | []      => none
    else if 0xdc00 ≤ n ∧ n < 0xe000 then none
    else (characters ns).map (codePoint n :: ·)

def decodeUtf16 (bytes : Octets) : Option Text := do
  characters (← words bytes)

variable {c : CodePoint} {text : Text} {bytes : Octets}

theorem words_word {n : Nat} (h : n < 0x10000) : words (word n ++ bytes) = (words bytes).map (n :: ·) := by
  have hsum : n / 0x100 * 0x100 + n % 0x100 = n := by omega
  simp only [word, List.cons_append, List.nil_append, words, val_octet (show n / 0x100 < 256 by omega),
    val_octet (show n % 0x100 < 256 by omega), hsum]

theorem characters_plain {n : Nat} {ns : List Nat} (h : n < 0xd800 ∨ 0xe000 ≤ n) :
    characters (n :: ns) = (characters ns).map (codePoint n :: ·) := by
  conv_lhs => unfold characters
  rw [if_neg (by omega), if_neg (by omega)]

theorem characters_pair {n m : Nat} {ns : List Nat} (hn : 0xd800 ≤ n ∧ n < 0xdc00) (hm : 0xdc00 ≤ m ∧ m < 0xe000) :
    characters (n :: m :: ns) =
      (characters ns).map (codePoint (0x10000 + (n - 0xd800) * 0x400 + (m - 0xdc00)) :: ·) := by
  conv_lhs => unfold characters
  rw [if_pos hn]
  dsimp only
  rw [if_pos hm]

theorem decodeUtf16_of_words {ns : List Nat} (h : words bytes = some ns) : decodeUtf16 bytes = characters ns := by
  rw [decodeUtf16, h]
  rfl

theorem decodeUtf16_of_none (h : words bytes = none) : decodeUtf16 bytes = none := by
  rw [decodeUtf16, h]
  rfl

theorem decodeUtf16_char (hc : isSurrogate c = false) :
    decodeUtf16 (utf16Char c ++ bytes) = (decodeUtf16 bytes).map (c :: ·) := by
  have hlt := c.isLt
  have hplain : c.val < 0xd800 ∨ 0xdfff < c.val := by
    simp only [isSurrogate, Bool.and_eq_false_iff, decide_eq_false_iff_not] at hc
    omega
  rw [utf16Char]
  split
  case isTrue h  =>
    have hword : words (word c.val ++ bytes) = (words bytes).map (c.val :: ·) := words_word h
    cases hwords : words bytes
    case none    => rw [decodeUtf16_of_none hwords, decodeUtf16_of_none (by rw [hword, hwords]; rfl)]; rfl
    case some ns =>
      rw [hwords, Option.map_some] at hword
      rw [decodeUtf16_of_words hwords, decodeUtf16_of_words hword, characters_plain (by omega), codePoint_eq (c := c) rfl]
  case isFalse h =>
    generalize hn : 0xd800 + (c.val - 0x10000) / 0x400 = n
    generalize hm : 0xdc00 + (c.val - 0x10000) % 0x400 = m
    have hword : words (word n ++ word m ++ bytes) = ((words bytes).map (m :: ·)).map (n :: ·) := by
      rw [List.append_assoc, words_word (by omega), words_word (by omega)]
    cases hwords : words bytes
    case none    => rw [decodeUtf16_of_none hwords, decodeUtf16_of_none (by rw [hword, hwords]; rfl)]; rfl
    case some ns =>
      rw [hwords, Option.map_some, Option.map_some] at hword
      rw [decodeUtf16_of_words hwords, decodeUtf16_of_words hword, characters_pair (by omega) (by omega),
        codePoint_eq (c := c) (by omega)]

theorem decodeUtf16_utf16 (h : utf16 text = some bytes) : decodeUtf16 bytes = some text := by
  rw [utf16] at h
  split at h
  case isTrue        => cases h
  case isFalse hnone =>
    cases h
    induction text
    case nil          => rfl
    case cons c cs ih =>
      simp only [List.any_cons, Bool.or_eq_true, not_or, Bool.not_eq_true] at hnone
      rw [List.flatMap_cons, decodeUtf16_char hnone.left, ih (by simpa using hnone.right)]
      rfl

theorem utf16_eq_some (h : ∀ c ∈ text, isSurrogate c = false) : utf16 text = some (text.flatMap utf16Char) := by
  refine if_neg ?_
  simpa using h

end Utf16

end Octets
