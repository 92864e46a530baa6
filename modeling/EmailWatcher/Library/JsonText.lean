import EmailWatcher.Library.Decimal
import EmailWatcher.Library.Json
import EmailWatcher.Library.Octets
import Mathlib.Data.List.Lex
import Mathlib.Data.List.Sort

-- JSON as text: how values are written, and how they are read again.
namespace JsonText

open Decimal (isAsciiDigit)
open Octets (codePoint)

-- A number with a fraction or an exponent is kept as it is written.
inductive Number
  | int   (n : Int)
  | float (literal : Text)
  deriving DecidableEq, Repr

abbrev Value := Json Text Number

section Characters

def quote : CodePoint := '"'

def backslash : CodePoint := '\\'

def comma : CodePoint := ','

def colon : CodePoint := ':'

def openBrace : CodePoint := Fin.ofNat _ 0x7b

def closeBrace : CodePoint := Fin.ofNat _ 0x7d

def openBracket : CodePoint := '['

def closeBracket : CodePoint := ']'

def minus : CodePoint := '-'

def letterU : CodePoint := 'u'

-- The characters that are escaped with a letter, and their letters.
def letters : List (CodePoint × CodePoint) :=
  [(quote, quote), (backslash, backslash), ('/', '/'), (codePoint 0x08, 'b'), (codePoint 0x0c, 'f'),
    (codePoint 0x0a, 'n'), (codePoint 0x0d, 'r'), (codePoint 0x09, 't')]

def isHigh (n : Nat) : Bool :=
  0xd800 ≤ n && n ≤ 0xdbff

def isLow (n : Nat) : Bool :=
  0xdc00 ≤ n && n ≤ 0xdfff

def hexDigit (n : Nat) : CodePoint :=
  if n < 10 then codePoint (0x30 + n) else codePoint (0x57 + n)

def hexValue (c : CodePoint) : Option Nat :=
  if 0x30 ≤ c.val ∧ c.val ≤ 0x39 then some (c.val - 0x30)
  else if 0x61 ≤ c.val ∧ c.val ≤ 0x66 then some (c.val - 0x57)
  else if 0x41 ≤ c.val ∧ c.val ≤ 0x46 then some (c.val - 0x37)
  else none

-- `isspace` of the reader
def isBlank (c : CodePoint) : Bool :=
  c.val ∈ [0x20, 0x09, 0x0a, 0x0d]

end Characters

section Writer

def escapeUnit (n : Nat) : Text :=
  [backslash, letterU, hexDigit (n / 4096 % 16), hexDigit (n / 256 % 16), hexDigit (n / 16 % 16), hexDigit (n % 16)]

-- A character in a string, with or without `ensure_ascii`. A slash is not escaped.
def escapeChar (ascii : Bool) (c : CodePoint) : Text :=
  if c.val = 0x2f then [c]
  else
    match letters.lookup c with
    | some letter => [backslash, letter]
    | none        =>
      if c.val < 0x20 then escapeUnit c.val
      else if c.val < 0x7f || !ascii then [c]
      else if c.val < 0x10000 then escapeUnit c.val
      else escapeUnit (0xd800 + (c.val - 0x10000) / 0x400) ++ escapeUnit (0xdc00 + (c.val - 0x10000) % 0x400)

def writeString (ascii : Bool) (text : Text) : Text :=
  quote :: text.flatMap (escapeChar ascii) ++ [quote]

def writeInt (n : Int) : Text :=
  if n < 0 then minus :: Decimal.digits n.natAbs else Decimal.digits n.natAbs

def writeNumber : Number → Text
  | .int n         => writeInt n
  | .float literal => literal

def writeBool : Bool → Text
  | true  => ("true" : String)
  | false => ("false" : String)

def writeArray (items : List Text) : Text :=
  openBracket :: List.intercalate [comma] items ++ [closeBracket]

def writeObject (ascii : Bool) (members : List (Text × Text)) : Text :=
  openBrace :: List.intercalate [comma] ((members.insertionSort (·.fst ≤ ·.fst)).map fun m =>
    writeString ascii m.fst ++ colon :: m.snd) ++ [closeBrace]

mutual

-- `json.dumps(value, ensure_ascii=ascii, separators=(",", ":"), sort_keys=True)`
def dumps (ascii : Bool) : Value → Text
  | .null           => ("null" : String)
  | .bool b         => writeBool b
  | .number n       => writeNumber n
  | .string text    => writeString ascii text
  | .array items    => writeArray (dumpsItems ascii items)
  | .object members => writeObject ascii (dumpsMembers ascii members)

def dumpsItems (ascii : Bool) : List Value → List Text
  | []            => []
  | item :: items => dumps ascii item :: dumpsItems ascii items

def dumpsMembers (ascii : Bool) : List (Text × Value) → List (Text × Text)
  | []                       => []
  | (name, value) :: members => (name, dumps ascii value) :: dumpsMembers ascii members

end

end Writer

section Reader

-- `JSONDecodeError` and what `int` raises are both a `ValueError`.
inductive Fault
  | valueError
  | recursionError
  deriving DecidableEq, Repr

def skip (text : Text) : Text :=
  text.dropWhile isBlank

-- The text behind a character that it has to start with.
def expect (c : CodePoint) : Text → Option Text
  | []      => none
  | x :: xs => if x = c then some xs else none

-- A character of a string as it is written: by itself, or as a code unit.
inductive Piece
  | char (c : CodePoint)
  | unit (n : Nat)
  deriving DecidableEq, Repr

def unitOf (a b c d : CodePoint) : Option Nat := do
  return (← hexValue a) * 4096 + (← hexValue b) * 256 + (← hexValue c) * 16 + (← hexValue d)

-- The pieces of a string up to its closing quote, and what is behind it.
def pieces : Text → Option (List Piece × Text)
  | []      => none
  | c :: cs =>
    if c = quote then some ([], cs)
    else if c = backslash then
      match cs with
      | []      => none
      | e :: es =>
        if e = letterU then
          match es with
          | w :: x :: y :: z :: rest =>
            match unitOf w x y z, pieces rest with
            | some n, some (ps, rest) => some (.unit n :: ps, rest)
            | _,      _               => none
          | _                        => none
        else
          match letters.find? (·.snd = e), pieces es with
          | some (c, _), some (ps, rest) => some (.char c :: ps, rest)
          | _,           _               => none
    else if c.val < 0x20 then none
    else
      match pieces cs with
      | some (ps, rest) => some (.char c :: ps, rest)
      | none            => none

-- Two code units that are a pair are one character. Others stand for themselves.
def joinPairs : List Piece → Text
  | []                         => []
  | .char c :: ps              => c :: joinPairs ps
  | [.unit n]                  => [codePoint n]
  | .unit n :: .char c :: ps   => codePoint n :: c :: joinPairs ps
  | .unit n :: .unit m :: ps   =>
    if isHigh n && isLow m then codePoint (0x10000 + (n - 0xd800) * 0x400 + (m - 0xdc00)) :: joinPairs ps
    else codePoint n :: joinPairs (.unit m :: ps)

-- `scanstring`, behind the opening quote
def readString (text : Text) : Except Fault (Text × Text) :=
  match pieces text with
  | some (ps, rest) => .ok (joinPairs ps, rest)
  | none            => .error .valueError

-- How many digits `int` takes.
def maxStrDigits : Nat := 4300

def readFraction (text : Text) : Text :=
  match text with
  | c :: cs => if c = ('.' : CodePoint) && cs.head?.any isAsciiDigit then c :: cs.takeWhile isAsciiDigit else []
  | []      => []

def readExponent (text : Text) : Text :=
  match text with
  | []      => []
  | c :: cs =>
    if c = ('e' : CodePoint) || c = ('E' : CodePoint) then
      let sign := (cs.take 1).filter fun s => s = ('+' : CodePoint) || s = minus
      let digits := (cs.drop sign.length).takeWhile isAsciiDigit
      if digits = [] then [] else c :: sign ++ digits
    else []

-- The digits in front of a fraction or an exponent: a zero is alone.
def readDigits (text : Text) : Text :=
  match text with
  | []     => []
  | c :: _ => if c = ('0' : CodePoint) then [c] else text.takeWhile isAsciiDigit

-- `_match_number`
def readNumber (text : Text) : Except Fault (Number × Text) :=
  let sign := (text.take 1).filter (· = minus)
  let digits := readDigits (text.drop sign.length)
  let rest := (text.drop sign.length).drop digits.length
  let fraction := readFraction rest
  let exponent := readExponent (rest.drop fraction.length)
  if digits = [] then .error .valueError
  else if fraction = [] ∧ exponent = [] then
    if digits.length > maxStrDigits then .error .valueError
    else .ok (.int (if sign = [] then Decimal.value digits else -Decimal.value digits), rest)
  else .ok (.float (sign ++ digits ++ fraction ++ exponent), (rest.drop fraction.length).drop exponent.length)

-- The words that stand for a value.
def words : List (Text × Value) :=
  [(("null" : String), .null), (("true" : String), .bool true), (("false" : String), .bool false),
    (("NaN" : String), .number (.float ("NaN" : String))),
    (("Infinity" : String), .number (.float ("Infinity" : String))),
    (("-Infinity" : String), .number (.float ("-Infinity" : String)))]

variable (item : Text → Except Fault (Value × Text))

-- The items of an array, behind the opening bracket and blanks. There are no more of them than characters.
def readItems : Nat → Text → Except Fault (List Value × Text)
  | 0,     _    => .error .valueError
  | n + 1, text => do
    let (v, text) ← item text
    match expect comma (skip text), expect closeBracket (skip text) with
    | some text, _         => do
      let (vs, text) ← readItems n (skip text)
      return (v :: vs, text)
    | none,      some text => return ([v], text)
    | none,      none      => .error .valueError

def readMembers : Nat → Text → Except Fault (List (Text × Value) × Text)
  | 0,     _    => .error .valueError
  | n + 1, text =>
    match expect quote text with
    | none      => .error .valueError
    | some text => do
      let (name, text) ← readString text
      match expect colon (skip text) with
      | none      => .error .valueError
      | some text => do
        let (v, text) ← item (skip text)
        match expect comma (skip text), expect closeBrace (skip text) with
        | some text, _         => do
          let (ms, text) ← readMembers n (skip text)
          return ((name, v) :: ms, text)
        | none,      some text => return ([(name, v)], text)
        | none,      none      => .error .valueError

-- `scan_once`, where no more than `depth` arrays and objects are open at once
def scanOnce : Nat → Text → Except Fault (Value × Text)
  | depth, text =>
    match text with
    | []        => .error .valueError
    | c :: rest =>
      if c = quote then do
        let (text, rest) ← readString rest
        return (.string text, rest)
      else if c = openBrace then
        match depth with
        | 0         => .error .recursionError
        | depth + 1 =>
          match expect closeBrace (skip rest) with
          | some rest => .ok (.object [], rest)
          | none      => do
            let (ms, rest) ← readMembers (scanOnce depth) (skip rest).length (skip rest)
            return (.object ms, rest)
      else if c = openBracket then
        match depth with
        | 0         => .error .recursionError
        | depth + 1 =>
          match expect closeBracket (skip rest) with
          | some rest => .ok (.array [], rest)
          | none      => do
            let (vs, rest) ← readItems (scanOnce depth) (skip rest).length (skip rest)
            return (.array vs, rest)
      else
        match words.find? (·.fst.isPrefixOf text) with
        | some (word, v) => .ok (v, text.drop word.length)
        | none           => do
          let (n, rest) ← readNumber text
          return (.number n, rest)

-- How many arrays and objects the interpreter reads within each other.
def recursionLimit : Nat := 10000

-- `JSONDecoder.decode`
def loads (depth : Nat) (text : Text) : Except Fault Value := do
  let (v, rest) ← scanOnce depth (skip text)
  if skip rest = [] then return v else .error .valueError

end Reader

section Strings

def textOf (s : String) : Text := s

variable {ascii : Bool} {c : CodePoint} {text rest : Text} {ps : List Piece} {n m : Nat}

-- Text that can be stored as UTF-8.
def Plain (text : Text) : Prop :=
  ∀ c ∈ text, isSurrogate c = false

instance (text : Text) : Decidable (Plain text) :=
  List.decidableBAll _ text

theorem codePoint_inj {c d : Char} (h : (c : CodePoint) = (d : CodePoint)) : c = d := by
  have hc := c.valid
  have hd := d.valid
  have hv := congrArg Fin.val h
  simp only [Fin.ofNat, Fin.val_mk] at hv
  have hlt : ∀ e : Char, e.toNat < 0x110000 := by
    intro e
    have he := e.valid
    simp only [UInt32.isValidChar, Nat.isValidChar] at he
    change e.val.toNat < 0x110000
    omega
  rw [Nat.mod_eq_of_lt (hlt c), Nat.mod_eq_of_lt (hlt d)] at hv
  exact Char.toNat_inj.mp hv

theorem textOf_eq (s : String) : textOf s = s.toList.map fun c => (Fin.ofNat 0x110000 c.toNat : CodePoint) := by
  simp only [textOf, List.map_id_fun', id_eq, bind_pure_comp, List.map_eq_map]

theorem textOf_inj {s t : String} (h : textOf s = textOf t) : s = t := by
  rw [textOf_eq, textOf_eq] at h
  exact String.toList_inj.mp (List.map_injective_iff.mpr (fun _ _ => codePoint_inj) h)

theorem plain_textOf (s : String) : Plain (textOf s) := by
  intro c hc
  rw [textOf_eq] at hc
  obtain ⟨x, -, rfl⟩ := List.mem_map.mp hc
  have hx := x.valid
  simp only [UInt32.isValidChar, Nat.isValidChar] at hx
  have hn : x.toNat = x.val.toNat := rfl
  simp only [isSurrogate, Fin.ofNat, Bool.and_eq_false_iff, decide_eq_false_iff_not]
  omega

-- A text without surrogates as a string.
def stringOf (text : Text) : String :=
  String.ofList (text.map fun c => Char.ofNat c.val)

theorem textOf_stringOf (h : Plain text) : textOf (stringOf text) = text := by
  rw [textOf_eq, stringOf, String.toList_ofList, List.map_map]
  refine (List.map_congr_left fun c hc => ?_).trans (List.map_id text)
  have hplain := h c hc
  have hlt := c.isLt
  simp only [isSurrogate, Bool.and_eq_false_iff, decide_eq_false_iff_not] at hplain
  have hvalid : c.val.isValidChar := by
    unfold Nat.isValidChar
    omega
  have hval : (Char.ofNat c.val).toNat = c.val := by
    rw [Char.ofNat, dif_pos hvalid]
    rfl
  simp only [Function.comp_apply, hval, id_eq]
  exact Fin.ofNat_val_eq_self c

theorem stringOf_textOf (s : String) : stringOf (textOf s) = s :=
  textOf_inj (textOf_stringOf (plain_textOf s))

theorem length_textOf (s : String) : (textOf s).length = s.length := by
  rw [textOf_eq, List.length_map, String.length_toList]

theorem length_stringOf (text : Text) : (stringOf text).length = text.length := by
  rw [stringOf, String.length_ofList, List.length_map]

theorem hexValue_hexDigit : ∀ n < 16, hexValue (hexDigit n) = some n := by
  decide

theorem pieces_escapeUnit (h : n < 0x10000) (hr : pieces rest = some (ps, text)) :
    pieces (escapeUnit n ++ rest) = some (.unit n :: ps, text) := by
  have hn : unitOf (hexDigit (n / 4096 % 16)) (hexDigit (n / 256 % 16)) (hexDigit (n / 16 % 16))
      (hexDigit (n % 16)) = some n := by
    have hmod : ∀ k : Nat, hexValue (hexDigit (k % 16)) = some (k % 16) :=
      fun k => hexValue_hexDigit _ (Nat.mod_lt _ (by decide))
    simp only [unitOf, hmod, Option.pure_def, Option.bind_eq_bind, Option.bind_some, Option.some.injEq]
    omega
  simp only [escapeUnit, List.cons_append, List.nil_append]
  rw [pieces, if_neg (by decide), if_pos rfl]
  simp only [↓reduceIte, hn, hr]

theorem find?_letter : ∀ p ∈ letters, letters.find? (·.snd = p.snd) = some p ∧ p.snd ≠ letterU := by
  have h : letters.all fun p => letters.find? (·.snd = p.snd) = some p ∧ p.snd ≠ letterU := by decide
  exact fun p hp => of_decide_eq_true (List.all_eq_true.mp h p hp)

theorem mem_of_lookup {l : List (CodePoint × CodePoint)} {letter : CodePoint} (h : l.lookup c = some letter) :
    (c, letter) ∈ l := by
  induction l
  case nil          => cases h
  case cons p l ih =>
    rw [List.lookup_cons] at h
    by_cases hc : c = p.fst
    case pos =>
      simp only [hc, BEq.rfl, Option.some.injEq] at h
      rw [hc, ← h]
      exact List.mem_cons_self
    case neg =>
      rw [beq_false_of_ne hc] at h
      exact List.mem_cons_of_mem _ (ih h)

theorem pieces_letter {letter : CodePoint} (h : letters.lookup c = some letter)
    (hr : pieces rest = some (ps, text)) : pieces (backslash :: letter :: rest) = some (.char c :: ps, text) := by
  obtain ⟨hfind, hne⟩ := find?_letter _ (mem_of_lookup h)
  rw [pieces.eq_def]
  simp only [if_neg (show backslash ≠ quote by decide), ↓reduceIte, if_neg hne, hfind, hr]

theorem pieces_quote : pieces (quote :: rest) = some ([], rest) := by
  rw [pieces.eq_def]
  rfl

theorem pieces_char (hq : c ≠ quote) (hb : c ≠ backslash) (hc : ¬c.val < 0x20)
    (hr : pieces rest = some (ps, text)) : pieces (c :: rest) = some (.char c :: ps, text) := by
  rw [pieces.eq_def]
  simp only [if_neg hq, if_neg hb, if_neg hc, hr]

theorem lookup_quote : letters.lookup quote ≠ none ∧ letters.lookup backslash ≠ none := by
  decide

theorem joinPairs_unit (h : isHigh n = false) : joinPairs (.unit n :: ps) = codePoint n :: joinPairs ps := by
  cases ps
  case nil       => rw [joinPairs, joinPairs]
  case cons p ps =>
    cases p
    case char c => rw [joinPairs, joinPairs]
    case unit m => rw [joinPairs, h, Bool.false_and, if_neg (by decide)]

-- A character is read as it was written.
theorem exists_pieces (ascii : Bool) (hc : isSurrogate c = false) (hr : pieces rest = some (ps, text)) :
    ∃ ps', pieces (escapeChar ascii c ++ rest) = some (ps', text) ∧ joinPairs ps' = c :: joinPairs ps := by
  have hchar : c ≠ quote → c ≠ backslash → ¬c.val < 0x20 →
      ∃ ps', pieces ([c] ++ rest) = some (ps', text) ∧ joinPairs ps' = c :: joinPairs ps :=
    fun hq hb hlt => ⟨_, pieces_char hq hb hlt hr, rfl⟩
  have hsurrogate : ¬(0xd800 ≤ c.val ∧ c.val ≤ 0xdfff) := by
    intro h
    simp [isSurrogate, h] at hc
  have hunit : c.val < 0x10000 →
      ∃ ps', pieces (escapeUnit c.val ++ rest) = some (ps', text) ∧ joinPairs ps' = c :: joinPairs ps := by
    intro hlt
    refine ⟨_, pieces_escapeUnit hlt hr, ?_⟩
    rw [joinPairs_unit (by simp only [isHigh, Bool.and_eq_false_iff, decide_eq_false_iff_not]; omega)]
    rw [Octets.codePoint_eq rfl]
  rw [escapeChar]
  split
  case isTrue h => exact hchar (by rintro rfl; cases h) (by rintro rfl; cases h) (by omega)
  case isFalse  =>
    cases hl : letters.lookup c
    case some letter => exact ⟨_, pieces_letter hl hr, rfl⟩
    case none        =>
      have hq : c ≠ quote := fun he => lookup_quote.left (he ▸ hl)
      have hb : c ≠ backslash := fun he => lookup_quote.right (he ▸ hl)
      simp only
      split
      case isTrue h  => exact hunit (by omega)
      case isFalse h =>
        split
        case isTrue  => exact hchar hq hb h
        case isFalse =>
          split
          case isTrue h   => exact hunit h
          case isFalse hn =>
            have hlt := c.isLt
            have hlo := pieces_escapeUnit (n := 0xdc00 + (c.val - 0x10000) % 0x400) (by omega) hr
            have hhi := pieces_escapeUnit (n := 0xd800 + (c.val - 0x10000) / 0x400) (by omega) hlo
            rw [← List.append_assoc] at hhi
            refine ⟨_, hhi, ?_⟩
            · have hhigh : isHigh (0xd800 + (c.val - 0x10000) / 0x400) = true := by
                simp only [isHigh, Bool.and_eq_true, decide_eq_true_eq]
                omega
              have hlow : isLow (0xdc00 + (c.val - 0x10000) % 0x400) = true := by
                simp only [isLow, Bool.and_eq_true, decide_eq_true_eq]
                omega
              rw [joinPairs, hhigh, hlow, Bool.and_self, if_pos rfl]
              rw [Octets.codePoint_eq (c := c) (by omega)]

theorem readString_writeString (h : Plain text) :
    readString (text.flatMap (escapeChar ascii) ++ quote :: rest) = .ok (text, rest) := by
  have hp : ∃ ps, pieces (text.flatMap (escapeChar ascii) ++ quote :: rest) = some (ps, rest) ∧
      joinPairs ps = text := by
    induction text
    case nil          => exact ⟨[], pieces_quote, rfl⟩
    case cons c cs ih =>
      obtain ⟨hc, hcs⟩ := List.forall_mem_cons.mp h
      obtain ⟨ps, hps, hjoin⟩ := ih hcs
      obtain ⟨ps', hps', hjoin'⟩ := exists_pieces ascii hc hps
      rw [List.flatMap_cons, List.append_assoc]
      exact ⟨ps', hps', by rw [hjoin', hjoin]⟩
  obtain ⟨ps, hps, hjoin⟩ := hp
  rw [readString, hps, ← hjoin]

end Strings

section Numbers

variable {rest : Text} {n : Nat}

-- What a value can be followed by.
def Stops (rest : Text) : Prop :=
  ∀ c ∈ rest.head?, c = comma ∨ c = closeBracket ∨ c = closeBrace

theorem Stops.cons {c : CodePoint} {cs : Text} (h : Stops (c :: cs)) :
    c = comma ∨ c = closeBracket ∨ c = closeBrace :=
  h c rfl

theorem readFraction_stop (h : Stops rest) : readFraction rest = [] := by
  cases rest
  case nil       => rfl
  case cons c cs =>
    rw [readFraction]
    obtain rfl | rfl | rfl := h.cons <;> rfl

theorem readExponent_stop (h : Stops rest) : readExponent rest = [] := by
  cases rest
  case nil       => rfl
  case cons c cs =>
    rw [readExponent]
    obtain rfl | rfl | rfl := h.cons <;> rfl

theorem takeWhile_stop (h : Stops rest) : rest.takeWhile isAsciiDigit = [] := by
  cases rest
  case nil       => rfl
  case cons c cs =>
    rw [List.takeWhile_cons]
    obtain rfl | rfl | rfl := h.cons <;> rfl

theorem readDigits_digits (h : Stops rest) : readDigits (Decimal.digits n ++ rest) = Decimal.digits n := by
  cases n
  case zero   => rfl
  case succ n =>
    obtain ⟨c, cs, hdigits, -, hne⟩ := Decimal.exists_digits_eq (Nat.succ_pos n)
    have htake : (Decimal.digits (n + 1) ++ rest).takeWhile isAsciiDigit = Decimal.digits (n + 1) := by
      rw [List.takeWhile_append_of_pos fun c hc => Decimal.mem_digits hc, takeWhile_stop h, List.append_nil]
    rw [hdigits, List.cons_append] at htake ⊢
    rw [readDigits, if_neg hne, htake]

theorem digits_head_ne (n : Nat) : ((Decimal.digits n ++ rest).take 1).filter (· = minus) = [] := by
  obtain ⟨c, cs, hdigits⟩ := List.exists_cons_of_ne_nil (Decimal.digits_ne_nil (n := n))
  have hc : isAsciiDigit c := Decimal.mem_digits (n := n) (by rw [hdigits]; exact List.mem_cons_self)
  rw [hdigits]
  simp only [List.cons_append, List.take_succ_cons, List.take_zero]
  refine List.filter_eq_nil_iff.mpr ?_
  intro x hx
  obtain rfl := List.mem_singleton.mp hx
  simp only [decide_eq_true_eq]
  rintro rfl
  cases hc

theorem readNumber_writeInt {i : Int} (hi : (Decimal.digits i.natAbs).length ≤ maxStrDigits) (h : Stops rest) :
    readNumber (writeInt i ++ rest) = .ok (.int i, rest) := by
  have hne : ¬Decimal.digits i.natAbs = [] := Decimal.digits_ne_nil
  rw [writeInt]
  split
  case isTrue hneg  =>
    have hsign : ((minus :: (Decimal.digits i.natAbs ++ rest)).take 1).filter (· = minus) = [minus] := rfl
    simp only [readNumber, hsign, List.length_singleton, List.cons_append, List.drop_succ_cons, List.drop_zero,
      readDigits_digits h, List.drop_left, readFraction_stop h, List.length_nil, readExponent_stop h,
      and_self, if_true, if_neg hne, if_neg (Nat.not_lt.mpr hi), Decimal.value_digits, reduceCtorEq, if_false]
    have : -(i.natAbs : Int) = i := by omega
    rw [this]
  case isFalse hpos =>
    simp only [readNumber, digits_head_ne, List.length_nil, List.drop_zero, readDigits_digits h, List.drop_left,
      readFraction_stop h, readExponent_stop h, and_self, if_true, if_neg hne, if_neg (Nat.not_lt.mpr hi),
      Decimal.value_digits]
    have : (i.natAbs : Int) = i := by omega
    rw [this]

end Numbers

section Values

-- Values that can be written and read again: the names of an object are in order, the numbers are not too long, and
-- no more than `depth` arrays and objects are within each other.
inductive Writable : Nat → Value → Prop
  | null {depth} : Writable depth .null
  | bool {depth b} : Writable depth (.bool b)
  | int {depth i} : (Decimal.digits i.natAbs).length ≤ maxStrDigits → Writable depth (.number (.int i))
  | string {depth text} : Plain text → Writable depth (.string text)
  | array {depth items} : (∀ v ∈ items, Writable depth v) → Writable (depth + 1) (.array items)
  | object {depth members} : (members.map Prod.fst).Pairwise (· < ·) → (∀ m ∈ members, Plain m.fst) →
      (∀ m ∈ members, Writable depth m.snd) → Writable (depth + 1) (.object members)

variable {ascii : Bool} {depth : Nat} {v : Value} {text rest : Text}

theorem dumpsItems_eq (ascii : Bool) (items : List Value) : dumpsItems ascii items = items.map (dumps ascii) := by
  induction items
  case nil              => rw [dumpsItems, List.map_nil]
  case cons v items ih  => rw [dumpsItems, ih, List.map_cons]

theorem dumpsMembers_eq (ascii : Bool) (members : List (Text × Value)) :
    dumpsMembers ascii members = members.map fun m => (m.fst, dumps ascii m.snd) := by
  induction members
  case nil               => rw [dumpsMembers, List.map_nil]
  case cons m members ih => rw [dumpsMembers, ih, List.map_cons]

-- A member as it is written.
def writeMember (ascii : Bool) (m : Text × Value) : Text :=
  writeString ascii m.fst ++ colon :: dumps ascii m.snd

theorem dumps_object {members : List (Text × Value)} (h : (members.map Prod.fst).Pairwise (· < ·)) :
    dumps ascii (.object members) =
      openBrace :: List.intercalate [comma] (members.map (writeMember ascii)) ++ [closeBrace] := by
  have hsorted : (members.map fun m => (m.fst, dumps ascii m.snd)).Pairwise
      fun a b : Text × Text => a.fst ≤ b.fst := by
    rw [List.pairwise_map] at h ⊢
    exact h.imp fun hab => le_of_lt hab
  rw [dumps, writeObject, dumpsMembers_eq, hsorted.insertionSort_eq, List.map_map]
  rfl

-- What `scan_once` does with a value, in front of anything that stops it.
def Reads (depth : Nat) (text : Text) (v : Value) : Prop :=
  ∀ rest, Stops rest → scanOnce depth (text ++ rest) = .ok (v, rest)

-- No value starts with a blank or with what ends an array or an object.
def Starts (text : Text) : Prop :=
  ∃ c cs, text = c :: cs ∧ isBlank c = false ∧ c ≠ closeBracket ∧ c ≠ closeBrace

theorem starts_dumps (ascii : Bool) (h : Writable depth v) : Starts (dumps ascii v) := by
  cases h
  case null            => exact ⟨_, _, by rw [dumps]; rfl, by decide, by decide, by decide⟩
  case bool b          => cases b <;> exact ⟨_, _, by rw [dumps]; rfl, by decide, by decide, by decide⟩
  case int i _         =>
    rw [dumps, writeNumber, writeInt]
    split
    case isTrue  => exact ⟨_, _, rfl, by decide, by decide, by decide⟩
    case isFalse =>
      obtain ⟨c, cs, hdigits⟩ := List.exists_cons_of_ne_nil (Decimal.digits_ne_nil (n := i.natAbs))
      have hc : isAsciiDigit c := Decimal.mem_digits (n := i.natAbs) (by rw [hdigits]; exact List.mem_cons_self)
      simp only [isAsciiDigit, Bool.and_eq_true, decide_eq_true_eq] at hc
      refine ⟨c, cs, hdigits, ?_, ?_, ?_⟩
      · simp only [isBlank, List.mem_cons, List.not_mem_nil, or_false, decide_eq_false_iff_not]
        omega
      · rintro rfl
        exact absurd hc (by decide)
      · rintro rfl
        exact absurd hc (by decide)
  case string          => exact ⟨_, _, by rw [dumps]; rfl, by decide, by decide, by decide⟩
  case array           => exact ⟨_, _, by rw [dumps]; rfl, by decide, by decide, by decide⟩
  case object hs _ _   => exact ⟨_, _, by rw [dumps]; rfl, by decide, by decide, by decide⟩

theorem Starts.skip (h : Starts text) : skip (text ++ rest) = text ++ rest := by
  obtain ⟨c, cs, rfl, hc, -, -⟩ := h
  rw [JsonText.skip, List.cons_append, List.dropWhile_cons_of_neg (by simpa using hc)]

theorem Starts.expect (h : Starts text) :
    expect closeBracket (text ++ rest) = none ∧ expect closeBrace (text ++ rest) = none := by
  obtain ⟨c, cs, rfl, -, hbracket, hbrace⟩ := h
  exact ⟨if_neg hbracket, if_neg hbrace⟩

theorem Starts.ne_nil (h : Starts text) : text ≠ [] := by
  obtain ⟨c, cs, rfl, -⟩ := h
  exact List.cons_ne_nil c cs

theorem Starts.intercalate {texts : List Text} (h : Starts text) :
    Starts (List.intercalate [comma] (text :: texts)) := by
  cases texts
  case nil            =>
    rw [List.intercalate_singleton]
    exact h
  case cons t texts   =>
    obtain ⟨c, cs, rfl, hc⟩ := h
    rw [List.intercalate_cons_cons]
    exact ⟨c, _, rfl, hc⟩

theorem skip_stop (h : Stops rest) : skip rest = rest := by
  cases rest
  case nil       => rfl
  case cons c cs =>
    refine List.dropWhile_cons_of_neg ?_
    obtain rfl | rfl | rfl := h.cons <;> decide

theorem skip_colon : skip (colon :: rest) = colon :: rest :=
  List.dropWhile_cons_of_neg (by decide)

theorem stops_cons {c : CodePoint} (h : c = comma ∨ c = closeBracket ∨ c = closeBrace) : Stops (c :: rest) := by
  rintro _ ⟨⟩
  exact h

-- Items with commas between them are read one after another.
variable (rest) in
theorem readItems_intercalate {items : List Value} {n : Nat} (hne : items ≠ [])
    (hr : ∀ v ∈ items, Reads depth (dumps ascii v) v) (hs : ∀ v ∈ items, Starts (dumps ascii v))
    (hn : items.length ≤ n) :
    readItems (scanOnce depth) n (List.intercalate [comma] (items.map (dumps ascii)) ++ closeBracket :: rest) =
      .ok (items, rest) := by
  induction items generalizing n
  case nil            => exact absurd rfl hne
  case cons v vs ih =>
    obtain ⟨hv, hvs⟩ := List.forall_mem_cons.mp hr
    obtain ⟨-, hss⟩ := List.forall_mem_cons.mp hs
    cases n
    case zero   => exact absurd hn (by simp)
    case succ n =>
      cases vs
      case nil       =>
        have hstop : Stops (closeBracket :: rest) := stops_cons (.inr (.inl rfl))
        have hv := hv _ hstop
        simp only [List.map_cons, List.map_nil, List.intercalate_singleton]
        rw [readItems, hv]
        simp only [bind, Except.bind, skip_stop hstop]
        rfl
      case cons w ws =>
        have hstop : Stops (comma :: (List.intercalate [comma] ((w :: ws).map (dumps ascii)) ++
          closeBracket :: rest)) := stops_cons (.inl rfl)
        have hv := hv _ hstop
        have htail : Starts (List.intercalate [comma] ((w :: ws).map (dumps ascii))) :=
          (hss w List.mem_cons_self).intercalate
        rw [List.map_cons, List.map_cons, List.intercalate_cons_cons, ← List.map_cons]
        simp only [List.append_assoc, List.cons_append, List.nil_append]
        rw [readItems, hv]
        simp only [bind, Except.bind, skip_stop hstop, expect, ↓reduceIte]
        rw [htail.skip, ih (by simp) hvs hss (by simpa using hn)]
        rfl

theorem writeMember_append (m : Text × Value) :
    writeMember ascii m ++ rest =
      quote :: (m.fst.flatMap (escapeChar ascii) ++ quote :: colon :: (dumps ascii m.snd ++ rest)) := by
  simp only [writeMember, writeString, List.append_assoc, List.cons_append, List.nil_append]

theorem starts_writeMember (m : Text × Value) : Starts (writeMember ascii m) :=
  ⟨_, _, rfl, by decide, by decide, by decide⟩

variable (rest) in
theorem readMembers_intercalate {members : List (Text × Value)} {n : Nat} (hne : members ≠ [])
    (hp : ∀ m ∈ members, Plain m.fst) (hr : ∀ m ∈ members, Reads depth (dumps ascii m.snd) m.snd)
    (hs : ∀ m ∈ members, Starts (dumps ascii m.snd)) (hn : members.length ≤ n) :
    readMembers (scanOnce depth) n
      (List.intercalate [comma] (members.map (writeMember ascii)) ++ closeBrace :: rest) = .ok (members, rest) := by
  induction members generalizing n
  case nil            => exact absurd rfl hne
  case cons m ms ih =>
    obtain ⟨hname, hps⟩ := List.forall_mem_cons.mp hp
    obtain ⟨hm, hms⟩ := List.forall_mem_cons.mp hr
    obtain ⟨hstart, hss⟩ := List.forall_mem_cons.mp hs
    cases n
    case zero   => exact absurd hn (by simp)
    case succ n =>
      cases ms
      case nil       =>
        have hstop : Stops (closeBrace :: rest) := stops_cons (.inr (.inr rfl))
        simp only [List.map_cons, List.map_nil, List.intercalate_singleton]
        rw [writeMember_append, readMembers, expect, if_pos rfl]
        simp only [bind, Except.bind, readString_writeString hname, skip_colon, expect, ↓reduceIte, hstart.skip]
        rw [hm _ hstop]
        simp only [skip_stop hstop]
        rfl
      case cons m' ms =>
        have hstop : Stops (comma :: (List.intercalate [comma] ((m' :: ms).map (writeMember ascii)) ++
          closeBrace :: rest)) := stops_cons (.inl rfl)
        rw [List.map_cons, List.map_cons, List.intercalate_cons_cons, ← List.map_cons]
        simp only [List.append_assoc, List.cons_append, List.nil_append]
        rw [writeMember_append, readMembers, expect, if_pos rfl]
        simp only [bind, Except.bind, readString_writeString hname, skip_colon, expect, ↓reduceIte, hstart.skip]
        rw [hm _ hstop]
        simp only [skip_stop hstop, ↓reduceIte]
        have htail : Starts (List.intercalate [comma] ((m' :: ms).map (writeMember ascii))) :=
          (starts_writeMember m').intercalate
        rw [htail.skip, ih (by simp) hps hms hss (by simpa using hn)]
        rfl

theorem length_le_intercalate (texts : List Text) (h : ∀ t ∈ texts, t ≠ []) :
    texts.length ≤ (List.intercalate [comma] texts).length := by
  induction texts
  case nil              => exact Nat.le_refl _
  case cons t texts ih =>
    obtain ⟨ht, hts⟩ := List.forall_mem_cons.mp h
    have hpos := List.length_pos_of_ne_nil ht
    have ih := ih hts
    cases texts
    case nil            =>
      rw [List.intercalate_singleton, List.length_singleton]
      exact hpos
    case cons u texts =>
      rw [List.intercalate_cons_cons]
      simp only [List.length_append, List.length_cons, List.length_nil] at ih ⊢
      omega

variable (rest) in
theorem length_le_append {texts : List Text} (h : ∀ t ∈ texts, Starts t) :
    texts.length ≤ (List.intercalate [comma] texts ++ rest).length := by
  have hlen := length_le_intercalate texts fun t ht => (h t ht).ne_nil
  rw [List.length_append]
  omega

theorem word_ne {c : CodePoint} {cs : Text} (hc : c = minus → ∃ d ds, cs = d :: ds ∧ isAsciiDigit d)
    (h : isAsciiDigit c ∨ c = minus) : words.find? (·.fst.isPrefixOf (c :: cs)) = none := by
  refine List.find?_eq_none.mpr fun w hw => ?_
  simp only [words, List.mem_cons, List.not_mem_nil, or_false] at hw
  obtain rfl | rfl | rfl | rfl | rfl | rfl := hw
  all_goals
    intro hp
    simp only [List.isPrefixOf_iff_prefix] at hp
    obtain ⟨tail, htail⟩ := hp
    injection htail with hhead htail
    rw [← hhead] at h hc
  case inr.inr.inr.inr.inr =>
    obtain ⟨d, ds, rfl, hd⟩ := hc (by decide)
    injection htail with hhead _
    rw [← hhead] at hd
    exact absurd hd (by decide)
  all_goals exact absurd h (by decide)

theorem writeInt_cons (i : Int) :
    ∃ c cs, writeInt i = c :: cs ∧ (isAsciiDigit c ∨ c = minus) ∧
      (c = minus → ∃ d ds, cs = d :: ds ∧ isAsciiDigit d) := by
  obtain ⟨d, ds, hdigits⟩ := List.exists_cons_of_ne_nil (Decimal.digits_ne_nil (n := i.natAbs))
  have hd : isAsciiDigit d := Decimal.mem_digits (n := i.natAbs) (by rw [hdigits]; exact List.mem_cons_self)
  rw [writeInt]
  split
  case isTrue  => exact ⟨_, _, rfl, .inr rfl, fun _ => ⟨d, ds, hdigits, hd⟩⟩
  case isFalse =>
    refine ⟨d, ds, hdigits, .inl hd, ?_⟩
    rintro rfl
    exact absurd hd (by decide)

-- A number is neither a string, an array nor an object, and none of the words.
theorem reads_int {i : Int} (hi : (Decimal.digits i.natAbs).length ≤ maxStrDigits) :
    Reads depth (writeInt i) (.number (.int i)) := by
  intro rest hr
  have hnumber := readNumber_writeInt hi hr
  obtain ⟨c, cs, hwrite, hc, hminus⟩ := writeInt_cons i
  have hq : c ≠ quote ∧ c ≠ openBrace ∧ c ≠ openBracket := by
    refine ⟨?_, ?_, ?_⟩ <;> rintro rfl <;> exact absurd hc (by decide)
  have hword : words.find? (·.fst.isPrefixOf (c :: (cs ++ rest))) = none := by
    refine word_ne (fun he => ?_) hc
    obtain ⟨d, ds, rfl, hd⟩ := hminus he
    exact ⟨d, ds ++ rest, rfl, hd⟩
  rw [hwrite, List.cons_append] at hnumber ⊢
  rw [scanOnce.eq_def]
  simp only [if_neg hq.left, if_neg hq.right.left, if_neg hq.right.right, hword, hnumber]
  rfl

theorem reads_string (hp : Plain text) : Reads depth (writeString ascii text) (.string text) := by
  intro rest _
  rw [writeString, List.append_assoc, List.singleton_append, List.cons_append, scanOnce.eq_def]
  simp only [↓reduceIte, readString_writeString hp, bind, Except.bind]
  rfl

theorem reads_array {items : List Value} (hr : ∀ v ∈ items, Reads depth (dumps ascii v) v)
    (hs : ∀ v ∈ items, Starts (dumps ascii v)) :
    Reads (depth + 1) (dumps ascii (.array items)) (.array items) := by
  intro rest _
  rw [dumps, writeArray, dumpsItems_eq]
  simp only [List.append_assoc, List.cons_append, List.nil_append]
  rw [scanOnce.eq_def]
  simp only [if_neg (show openBracket ≠ quote by decide), if_neg (show openBracket ≠ openBrace by decide),
    ↓reduceIte]
  cases items
  case nil =>
    have hskip : skip (closeBracket :: rest) = closeBracket :: rest := skip_stop (stops_cons (.inr (.inl rfl)))
    simp only [List.map_nil, List.intercalate_nil, List.nil_append, hskip, expect, ↓reduceIte]
  case cons w ws =>
    have hstart : Starts (List.intercalate [comma] ((w :: ws).map (dumps ascii))) :=
      (hs w List.mem_cons_self).intercalate
    have hlen := length_le_append (closeBracket :: rest) (List.forall_mem_map.mpr hs)
    rw [List.length_map] at hlen
    have hread := readItems_intercalate rest (by simp) hr hs hlen
    simp only [hstart.skip, hstart.expect.left, hread, bind, Except.bind]
    rfl

theorem reads_object {members : List (Text × Value)} (hsorted : (members.map Prod.fst).Pairwise (· < ·))
    (hp : ∀ m ∈ members, Plain m.fst) (hr : ∀ m ∈ members, Reads depth (dumps ascii m.snd) m.snd)
    (hs : ∀ m ∈ members, Starts (dumps ascii m.snd)) :
    Reads (depth + 1) (dumps ascii (.object members)) (.object members) := by
  intro rest _
  rw [dumps_object hsorted]
  simp only [List.append_assoc, List.cons_append, List.nil_append]
  rw [scanOnce.eq_def]
  simp only [if_neg (show openBrace ≠ quote by decide), ↓reduceIte]
  cases members
  case nil =>
    have hskip : skip (closeBrace :: rest) = closeBrace :: rest := skip_stop (stops_cons (.inr (.inr rfl)))
    simp only [List.map_nil, List.intercalate_nil, List.nil_append, hskip, expect, ↓reduceIte]
  case cons m ms =>
    have hstart : Starts (List.intercalate [comma] ((m :: ms).map (writeMember ascii))) :=
      (starts_writeMember m).intercalate
    have hstarts : ∀ t ∈ (m :: ms).map (writeMember ascii), Starts t :=
      List.forall_mem_map.mpr fun m _ => starts_writeMember m
    have hlen := length_le_append (closeBrace :: rest) hstarts
    rw [List.length_map] at hlen
    have hread := readMembers_intercalate rest (by simp) hp hr hs hlen
    simp only [hstart.skip, hstart.expect.right, hread, bind, Except.bind]
    rfl

-- What has been written is read again.
theorem reads_dumps (ascii : Bool) (h : Writable depth v) : Reads depth (dumps ascii v) v := by
  induction h
  case null   =>
    intro rest _
    rw [dumps, scanOnce.eq_def]
    rfl
  case bool b =>
    intro rest _
    cases b <;> rw [dumps, scanOnce.eq_def] <;> rfl
  case int depth i hi       => exact reads_int hi
  case string depth text hp => exact reads_string hp
  case array depth items hv ih =>
    exact reads_array ih fun v hm => starts_dumps ascii (hv v hm)
  case object depth members hsorted hp hv ih =>
    exact reads_object hsorted hp ih fun m hm => starts_dumps ascii (hv m hm)

theorem loads_dumps (ascii : Bool) (h : Writable depth v) : loads depth (dumps ascii v) = .ok v := by
  have hread := reads_dumps ascii h [] (by rintro _ ⟨⟩)
  have hskip : skip (dumps ascii v ++ []) = dumps ascii v ++ [] := (starts_dumps ascii h).skip
  rw [List.append_nil] at hread hskip
  rw [loads, hskip, hread]
  rfl

end Values

end JsonText
