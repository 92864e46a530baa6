import EmailWatcher.Library.JsonText

-- JSON as bytes: the encodings that it is read in, and that what is written in ASCII is read again.
namespace JsonText

open Decimal (isAsciiDigit)
open Octets (codePoint)

section Bytes

-- `bytes.decode(encoding, "surrogatepass")`, where surrogates are characters like any others.
def units (big : Bool) : Octets → Option (List Nat)
  | a :: b :: bytes => (units big bytes).map ((if big then a.val * 256 + b.val else b.val * 256 + a.val) :: ·)
  | [_]             => none
  | []              => some []

def utf16 (big : Bool) (bytes : Octets) : Option Text :=
  (units big bytes).map fun us => joinPairs (us.map .unit)

def utf32 (big : Bool) (bytes : Octets) : Option Text := do
  go <| ← units big bytes
where
  go : List Nat → Option Text
    | a :: b :: us =>
      let n := if big then a * 0x10000 + b else b * 0x10000 + a
      if n < 0x110000 then (go us).map (codePoint n :: ·) else none
    | [_]          => none
    | []           => some []

def isTail (b : Octet) : Bool :=
  0x80 ≤ b.val && b.val ≤ 0xbf

def utf8 : Octets → Option Text
  | []          => some []
  | a :: rest =>
    if a.val < 0x80 then (utf8 rest).map (codePoint a.val :: ·)
    else
      match rest with
      | []          => none
      | b :: rest =>
        if 0xc2 ≤ a.val && a.val < 0xe0 && isTail b then
          (utf8 rest).map (codePoint (a.val % 0x20 * 0x40 + b.val % 0x40) :: ·)
        else
          match rest with
          | []          => none
          | c :: rest =>
            let n := a.val % 0x10 * 0x1000 + b.val % 0x40 * 0x40 + c.val % 0x40
            if 0xe0 ≤ a.val && a.val < 0xf0 && isTail b && isTail c && 0x800 ≤ n then
              (utf8 rest).map (codePoint n :: ·)
            else
              match rest with
              | []          => none
              | d :: rest =>
                let n := a.val % 0x08 * 0x40000 + b.val % 0x40 * 0x1000 + c.val % 0x40 * 0x40 + d.val % 0x40
                if 0xf0 ≤ a.val && a.val < 0xf8 && isTail b && isTail c && isTail d && 0x10000 ≤ n && n < 0x110000 then
                  (utf8 rest).map (codePoint n :: ·)
                else none

-- `bytes.decode(json.detect_encoding(bytes), "surrogatepass")`
def decodeBytes (bytes : Octets) : Option Text :=
  let starts (mark : List Nat) := mark.isPrefixOf (bytes.map Fin.val)
  if starts [0, 0, 0xfe, 0xff] then utf32 true (bytes.drop 4)
  else if starts [0xff, 0xfe, 0, 0] then utf32 false (bytes.drop 4)
  else if starts [0xfe, 0xff] then utf16 true (bytes.drop 2)
  else if starts [0xff, 0xfe] then utf16 false (bytes.drop 2)
  else if starts [0xef, 0xbb, 0xbf] then utf8 (bytes.drop 3)
  else
    match bytes with
    | a :: b :: c :: d :: _ =>
      if a.val = 0 then if b.val = 0 then utf32 true bytes else utf16 true bytes
      else if b.val = 0 then if c.val = 0 && d.val = 0 then utf32 false bytes else utf16 false bytes
      else utf8 bytes
    | [a, b]                =>
      if a.val = 0 then utf16 true bytes else if b.val = 0 then utf16 false bytes else utf8 bytes
    | _                     => utf8 bytes

-- `json.loads(bytes)`
def loadsBytes (depth : Nat) (bytes : Octets) : Except Fault Value :=
  match decodeBytes bytes with
  | some text => loads depth text
  | none      => .error .valueError

-- The characters that JSON is written with, where nothing else is allowed.
def Ascii (text : Text) : Prop :=
  ∀ c ∈ text, 0x20 ≤ c.val ∧ c.val < 0x7f

instance (text : Text) : Decidable (Ascii text) :=
  List.decidableBAll _ text

-- `text.encode("ascii")`
def encodeAscii (text : Text) : Octets :=
  text.map fun c => Octets.octet c.val

variable {text : Text} {n : Nat} {c : CodePoint}

theorem val_octet_ascii (hc : 0x20 ≤ c.val ∧ c.val < 0x7f) : (Octets.octet c.val).val = c.val :=
  Octets.val_octet (by omega)

theorem utf8_encodeAscii (h : Ascii text) : utf8 (encodeAscii text) = some text := by
  induction text
  case nil          => rfl
  case cons c cs ih =>
    obtain ⟨hc, hcs⟩ := List.forall_mem_cons.mp h
    rw [encodeAscii, List.map_cons, utf8.eq_def]
    simp only [val_octet_ascii hc]
    rw [if_pos (by omega), ← encodeAscii, ih hcs, Octets.codePoint_eq rfl]
    rfl

theorem not_mark (m : Nat) (mark : List Nat) (h : Ascii text) (hm : m < 0x20 ∨ 0x7f ≤ m) :
    (m :: mark).isPrefixOf ((encodeAscii text).map Fin.val) = false := by
  cases text
  case nil       => rfl
  case cons c cs =>
    have hc := (List.forall_mem_cons.mp h).left
    rw [encodeAscii, List.map_cons, List.map_cons, List.isPrefixOf_cons_cons, val_octet_ascii hc]
    have hne : (m == c.val) = false := by
      rw [beq_eq_false_iff_ne]
      omega
    rw [hne, Bool.false_and]

theorem octet_ne_zero (hc : 0x20 ≤ c.val ∧ c.val < 0x7f) : (Octets.octet c.val).val ≠ 0 := by
  rw [val_octet_ascii hc]
  omega

theorem decodeBytes_encodeAscii (h : Ascii text) : decodeBytes (encodeAscii text) = some text := by
  have h₁ := not_mark 0 [0, 0xfe, 0xff] h (by decide)
  have h₂ := not_mark 0xff [0xfe, 0, 0] h (by decide)
  have h₃ := not_mark 0xfe [0xff] h (by decide)
  have h₄ := not_mark 0xff [0xfe] h (by decide)
  have h₅ := not_mark 0xef [0xbb, 0xbf] h (by decide)
  have hutf8 := utf8_encodeAscii h
  simp only [decodeBytes, h₁, h₂, h₃, h₄, h₅, Bool.false_eq_true, if_false]
  rw [encodeAscii] at hutf8 ⊢
  match text, h with
  | [],                    _ => exact hutf8
  | [_],                   _ => exact hutf8
  | [a, b],                h =>
    have ha := octet_ne_zero (h a (by simp))
    have hb := octet_ne_zero (h b (by simp))
    simp only [List.map_cons, List.map_nil, if_neg ha, if_neg hb] at hutf8 ⊢
    exact hutf8
  | [_, _, _],             _ => exact hutf8
  | a :: b :: c :: d :: cs, h =>
    have ha := octet_ne_zero (h a (by simp))
    have hb := octet_ne_zero (h b (by simp))
    simp only [List.map_cons, if_neg ha, if_neg hb] at hutf8 ⊢
    exact hutf8

theorem Ascii.append {xs ys : Text} (hx : Ascii xs) (hy : Ascii ys) : Ascii (xs ++ ys) :=
  fun c hc => (List.mem_append.mp hc).elim (hx c) (hy c)

theorem Ascii.cons {cs : Text} (hc : 0x20 ≤ c.val ∧ c.val < 0x7f) (h : Ascii cs) : Ascii (c :: cs) :=
  List.forall_mem_cons.mpr ⟨hc, h⟩

theorem ascii_nil : Ascii [] :=
  nofun

theorem ascii_hexDigit : ∀ n < 16, 0x20 ≤ (hexDigit n).val ∧ (hexDigit n).val < 0x7f := by
  decide

theorem ascii_escapeUnit (n : Nat) : Ascii (escapeUnit n) := by
  have h : ∀ k : Nat, 0x20 ≤ (hexDigit (k % 16)).val ∧ (hexDigit (k % 16)).val < 0x7f :=
    fun k => ascii_hexDigit _ (Nat.mod_lt _ (by decide))
  exact .cons (by decide) (.cons (by decide) (.cons (h _) (.cons (h _) (.cons (h _) (.cons (h _) ascii_nil)))))

theorem ascii_escapeChar (c : CodePoint) : Ascii (escapeChar true c) := by
  rw [escapeChar]
  split
  case isTrue h => exact .cons (by omega) ascii_nil
  case isFalse  =>
    cases hl : letters.lookup c
    case some letter =>
      have hall : letters.all fun p => 0x20 ≤ p.snd.val ∧ p.snd.val < 0x7f := by decide
      have hletter := of_decide_eq_true (List.all_eq_true.mp hall _ (mem_of_lookup hl))
      exact .cons (by decide) (.cons hletter ascii_nil)
    case none        =>
      simp only [Bool.not_true, Bool.or_false, decide_eq_true_eq]
      split
      case isTrue         => exact ascii_escapeUnit _
      case isFalse hlow   =>
        split
        case isTrue hhigh => exact .cons (by omega) ascii_nil
        case isFalse      =>
          split
          case isTrue     => exact ascii_escapeUnit _
          case isFalse    => exact (ascii_escapeUnit _).append (ascii_escapeUnit _)

theorem ascii_writeString (text : Text) : Ascii (writeString true text) := by
  have hbody : Ascii (text.flatMap (escapeChar true)) := by
    intro c hc
    obtain ⟨x, -, hx⟩ := List.mem_flatMap.mp hc
    exact ascii_escapeChar x c hx
  exact (Ascii.cons (by decide) hbody).append (.cons (by decide) ascii_nil)

theorem ascii_digits (n : Nat) : Ascii (Decimal.digits n) := by
  intro c hc
  have h := Decimal.mem_digits hc
  simp only [isAsciiDigit, Bool.and_eq_true, decide_eq_true_eq] at h
  omega

theorem ascii_intercalate {texts : List Text} (h : ∀ t ∈ texts, Ascii t) : Ascii (List.intercalate [comma] texts) := by
  induction texts
  case nil              => exact ascii_nil
  case cons t texts ih =>
    obtain ⟨ht, hts⟩ := List.forall_mem_cons.mp h
    cases texts
    case nil            => rwa [List.intercalate_singleton]
    case cons u texts =>
      rw [List.intercalate_cons_cons]
      exact (ht.append (.cons (by decide) ascii_nil)).append (ih hts)

theorem ascii_dumps {depth : Nat} {v : Value} (h : Writable depth v) : Ascii (dumps true v) := by
  induction h
  case null                       => rw [dumps]; decide
  case bool b                     => cases b <;> rw [dumps] <;> decide
  case int i _                    =>
    rw [dumps, writeNumber, writeInt]
    split
    case isTrue  => exact .cons (by decide) (ascii_digits _)
    case isFalse => exact ascii_digits _
  case string                     => rw [dumps]; exact ascii_writeString _
  case array depth items _ ih     =>
    rw [dumps, writeArray, dumpsItems_eq]
    refine .append (.cons (by decide) (ascii_intercalate fun t ht => ?_)) (.cons (by decide) ascii_nil)
    obtain ⟨v, hv, rfl⟩ := List.mem_map.mp ht
    exact ih v hv
  case object depth members hs _ _ ih =>
    rw [dumps_object hs]
    refine .append (.cons (by decide) (ascii_intercalate fun t ht => ?_)) (.cons (by decide) ascii_nil)
    obtain ⟨m, hm, rfl⟩ := List.mem_map.mp ht
    exact (ascii_writeString _).append (.cons (by decide) (ih m hm))

theorem loadsBytes_dumps {depth : Nat} {v : Value} (h : Writable depth v) :
    loadsBytes depth (encodeAscii (dumps true v)) = .ok v := by
  rw [loadsBytes, decodeBytes_encodeAscii (ascii_dumps h)]
  exact loads_dumps true h

end Bytes

end JsonText
