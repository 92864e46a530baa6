import EmailWatcher.Imap.Codecs
import EmailWatcher.Library.Escapes
import EmailWatcher.Library.Octets

-- The values of a response of a mail server, and how they are parsed.
namespace Imap

-- `_ImapValue`: `None`, an atom, a quoted string, or a list.
inductive Value
  | nil
  | atom   (data : Octets)
  | quoted (data : Octets)
  | list   (values : List Value)

-- `ValueError`
structure ValueError where
  message : String
  deriving DecidableEq

namespace Values

open Octets (quote backslash opening closing blank)

-- `b" \r\n\t"`
def isGap (b : Octet) : Bool :=
  b.val = 0x20 || b.val = 0x0d || b.val = 0x0a || b.val = 0x09

-- What is not in `b" ()\r\n\t"`.
def isAtomic (b : Octet) : Bool :=
  !isGap b && b ≠ opening && b ≠ closing

-- `value.upper()`
def upper (data : Octets) : Octets :=
  data.map fun b => if 0x61 ≤ b.val ∧ b.val ≤ 0x7a then Octets.octet (b.val - 0x20) else b

def nilName : Octets :=
  ("NIL" : Octets)

def maxMimeDepth : Nat := 100

def maxMimeParts : Nat := 1000

def maxBodystructureTokens : Nat :=
  maxMimeParts * 32

-- `_ImapValueParser`, which has the data from its position on before it.
structure ValueParser where
  rest   : Octets
  tokens : Nat

-- What a method returns or raises, and where it leaves the parser.
abbrev Result (α : Type) := Except ValueError α × ValueParser

variable (p : ValueParser)

-- `_skip_spaces`
def ValueParser.skipSpaces : ValueParser :=
  { p with rest := p.rest.dropWhile isGap }

-- The loop of `_quoted`, perhaps behind a backslash.
def quotedFrom : Bool → Octets → Octets → Except ValueError Octets × Octets
  | _,     _,     []        => (.error ⟨"IMAP quoted string ended early"⟩, [])
  | true,  value, b :: rest => quotedFrom false (value ++ [b]) rest
  | false, value, b :: rest =>
    if b = quote then (.ok value, rest)
    else if b = backslash then quotedFrom true value rest
    else quotedFrom false (value ++ [b]) rest

-- `_quoted`
def ValueParser.quoted : Result Value :=
  let x := quotedFrom false [] p.rest.tail
  (x.fst.map .quoted, { p with rest := x.snd })

def ValueParser.atom : Result Value :=
  let data := p.rest.takeWhile isAtomic
  if data = [] then (.error ⟨"IMAP atom is invalid"⟩, p)
  else (.ok (if upper data = nilName then .nil else .atom data), { p with rest := p.rest.dropWhile isAtomic })

mutual

-- `_value`, as long as the fuel lasts.
def value : Nat → Nat → ValueParser → Option (Result Value)
  | 0,        _,     _ => none
  | fuel + 1, depth, p =>
    let p := { p with tokens := p.tokens + 1 }
    if p.tokens > maxBodystructureTokens ∨ depth > maxMimeDepth + 8 then
      some (.error ⟨"IMAP data exceeds structural limits"⟩, p)
    else
      match p.rest with
      | []        => some (.error ⟨"IMAP data ended early"⟩, p)
      | b :: rest =>
        if b = opening then items fuel depth [] { p with rest := rest.dropWhile isGap }
        else if b = quote then some p.quoted
        else some p.atom

-- The loop of `_value` over the values of a list.
def items : Nat → Nat → List Value → ValueParser → Option (Result Value)
  | 0,        _,     _,      _ => none
  | fuel + 1, depth, values, p =>
    match p.rest with
    | []        => some (.error ⟨"IMAP list ended early"⟩, p)
    | b :: rest =>
      if b = closing then some (.ok (.list values), { p with rest })
      else
        match value fuel (depth + 1) p with
        | none               => none
        | some (.error e, p) => some (.error e, p)
        | some (.ok v, p)    => items fuel depth (values ++ [v]) p.skipSpaces

end

-- The loop of `parse`.
def parseFrom : Nat → List Value → ValueParser → Option (Result (List Value))
  | 0,        _,      _ => none
  | fuel + 1, values, p =>
    match p.rest with
    | []     => some (.ok values, p)
    | _ :: _ =>
      match value fuel 0 p with
      | none               => none
      | some (.error e, p) => some (.error e, p)
      | some (.ok v, p)    => parseFrom fuel (values ++ [v]) p.skipSpaces

def parse (fuel : Nat) (data : Octets) : Option (Result (List Value)) :=
  parseFrom fuel [] (ValueParser.skipSpaces ⟨data, 0⟩)

section Progress

variable {p q : ValueParser} {α : Type} {fuel depth : Nat}

-- The position does not go back.
structure Advances (p q : ValueParser) : Prop where
  rest   : q.rest <:+ p.rest
  tokens : p.tokens ≤ q.tokens

theorem Advances.refl : Advances p p :=
  ⟨List.suffix_rfl, le_rfl⟩

theorem Advances.trans {r : ValueParser} (h : Advances p q) (h' : Advances q r) : Advances p r :=
  ⟨h'.rest.trans h.rest, h.tokens.trans h'.tokens⟩

theorem advances_skipSpaces : Advances p p.skipSpaces :=
  ⟨List.dropWhile_suffix _, le_rfl⟩

-- A call moves the position on, and past a value.
structure Moves (p : ValueParser) (r : Result α) : Prop where
  advances : Advances p r.snd
  strictly : ∀ v, r.fst = .ok v → r.snd.rest.length < p.rest.length

theorem Moves.of_error {e : ValueError} (h : Advances p q) : Moves p ((.error e, q) : Result α) :=
  ⟨h, nofun⟩

theorem Moves.after {r : Result α} (h : Advances p q) (hr : Moves q r) : Moves p r :=
  ⟨h.trans hr.advances, fun v hv => (hr.strictly v hv).trans_le h.rest.length_le⟩

theorem quotedFrom_suffix (escaped : Bool) (value rest : Octets) : (quotedFrom escaped value rest).snd <:+ rest := by
  induction rest generalizing escaped value
  case nil            => cases escaped <;> exact List.suffix_rfl
  case cons b rest ih =>
    cases escaped
    case true  => exact (ih _ _).trans (List.suffix_cons _ _)
    case false =>
      rw [quotedFrom]
      split
      · exact List.suffix_cons _ _
      · split
        · exact (ih _ _).trans (List.suffix_cons _ _)
        · exact (ih _ _).trans (List.suffix_cons _ _)

theorem moves_quoted {b : Octet} {rest : Octets} (h : p.rest = b :: rest) : Moves p p.quoted := by
  have hsuffix : (quotedFrom false [] p.rest.tail).snd <:+ rest := h ▸ quotedFrom_suffix _ _ _
  refine ⟨⟨h ▸ hsuffix.trans (List.suffix_cons _ _), le_rfl⟩, fun v _ => ?_⟩
  rw [h]
  exact Nat.lt_succ_of_le hsuffix.length_le

theorem moves_atom : Moves p p.atom := by
  rw [ValueParser.atom]
  split
  case isTrue      => exact .of_error .refl
  case isFalse hne =>
    refine ⟨⟨List.dropWhile_suffix _, le_rfl⟩, fun v _ => ?_⟩
    have hlength := congrArg List.length (List.takeWhile_append_dropWhile (p := isAtomic) (l := p.rest))
    rw [List.length_append] at hlength
    have hpos := List.length_pos_iff.mpr hne
    change (p.rest.dropWhile isAtomic).length < _
    omega

-- One level of the recursion at a time.
theorem value_moves (fuel : Nat) :
    (∀ depth p r, value fuel depth p = some r → Moves p r) ∧
    ∀ depth values p r, items fuel depth values p = some r → Moves p r := by
  induction fuel
  case zero           => exact ⟨nofun, nofun⟩
  case succ fuel ih =>
    obtain ⟨ihvalue, ihitems⟩ := ih
    constructor
    · intro depth p r h
      have hcount : Advances p { p with tokens := p.tokens + 1 } := ⟨List.suffix_rfl, Nat.le_succ _⟩
      rw [value] at h
      refine .after hcount ?_
      dsimp only at h
      split at h
      case isTrue  =>
        cases h
        exact .of_error .refl
      case isFalse =>
        split at h
        case h_1           =>
          cases h
          exact .of_error .refl
        case h_2 b rest hrest =>
          split at h
          case isTrue  =>
            have hskip : rest.dropWhile isGap <:+ b :: rest := (List.dropWhile_suffix _).trans (List.suffix_cons _ _)
            have hskips : Advances { p with tokens := p.tokens + 1 } ⟨rest.dropWhile isGap, p.tokens + 1⟩ :=
              ⟨hrest ▸ hskip, le_rfl⟩
            exact .after hskips (ihitems _ _ _ _ h)
          case isFalse =>
            split at h
            · cases h
              exact moves_quoted hrest
            · cases h
              exact moves_atom
    · intro depth values p r h
      rw [items] at h
      split at h
      case h_1              =>
        cases h
        exact .of_error .refl
      case h_2 b rest hrest =>
        split at h
        case isTrue  =>
          cases h
          refine ⟨⟨hrest ▸ List.suffix_cons _ _, le_rfl⟩, fun v _ => ?_⟩
          rw [hrest]
          exact Nat.lt_succ_self _
        case isFalse =>
          split at h
          case h_1         => cases h
          case h_2 e q hv  =>
            cases h
            exact .of_error (ihvalue _ _ _ hv).advances
          case h_3 v q hv  =>
            exact .after ((ihvalue _ _ _ hv).advances.trans advances_skipSpaces) (ihitems _ _ _ _ h)

-- The fuel lasts, for every value takes something of what is left.
theorem value_isSome (fuel : Nat) :
    (∀ depth p, 2 * p.rest.length + 1 ≤ fuel → (value fuel depth p).isSome) ∧
    ∀ depth values p, 2 * p.rest.length + 2 ≤ fuel → (items fuel depth values p).isSome := by
  induction fuel
  case zero         => exact ⟨fun _ _ h => absurd h (by omega), fun _ _ _ h => absurd h (by omega)⟩
  case succ fuel ih =>
    obtain ⟨ihvalue, ihitems⟩ := ih
    constructor
    · intro depth p h
      rw [value]
      dsimp only
      split
      case isTrue  => rfl
      case isFalse =>
        split
        case h_1              => rfl
        case h_2 b rest hrest =>
          split
          case isTrue  =>
            have hskip := (List.dropWhile_suffix isGap (l := rest)).length_le
            rw [hrest, List.length_cons] at h
            exact ihitems _ _ _ (by dsimp only; omega)
          case isFalse =>
            split
            · rfl
            · rfl
    · intro depth values p h
      rw [items]
      split
      case h_1              => rfl
      case h_2 b rest hrest =>
        split
        case isTrue  => rfl
        case isFalse =>
          have hsome := ihvalue (depth + 1) p (by omega)
          split
          case h_1 hnone  =>
            rw [hnone] at hsome
            cases hsome
          case h_2        => rfl
          case h_3 v q hv =>
            have hlt : q.rest.length < p.rest.length := ((value_moves fuel).left _ _ _ hv).strictly v rfl
            have hskip := (List.dropWhile_suffix isGap (l := q.rest)).length_le
            exact ihitems _ _ _ (by simp only [ValueParser.skipSpaces]; omega)

theorem parseFrom_isSome {values : List Value} (h : 2 * p.rest.length + 2 ≤ fuel) : (parseFrom fuel values p).isSome := by
  induction fuel generalizing values p
  case zero         => omega
  case succ fuel ih =>
    rw [parseFrom]
    split
    case h_1              => rfl
    case h_2 b rest hrest =>
      have hsome := (value_isSome fuel).left 0 p (by omega)
      split
      case h_1 hnone  =>
        rw [hnone] at hsome
        cases hsome
      case h_2        => rfl
      case h_3 v q hv =>
        have hlt : q.rest.length < p.rest.length := ((value_moves fuel).left _ _ _ hv).strictly v rfl
        have hskip := (List.dropWhile_suffix isGap (l := q.rest)).length_le
        exact ih (by simp only [ValueParser.skipSpaces]; omega)

theorem parseFrom_advances {values : List Value} {r : Result (List Value)} (h : parseFrom fuel values p = some r) :
    Advances p r.snd := by
  induction fuel generalizing values p
  case zero         => cases h
  case succ fuel ih =>
    rw [parseFrom] at h
    split at h
    case h_1 =>
      cases h
      exact .refl
    case h_2 =>
      split at h
      case h_1        => cases h
      case h_2 e q hv =>
        cases h
        exact ((value_moves fuel).left _ _ _ hv).advances
      case h_3 v q hv => exact (((value_moves fuel).left _ _ _ hv).advances.trans advances_skipSpaces).trans (ih h)

end Progress

section Printing

-- A tree is printed as a row of tokens.
inductive Token
  | opening
  | closing
  | word   (data : Octets)
  | string (data : Octets)

namespace Token

def print : Token → Octets
  | opening     => [Octets.opening]
  | closing     => [Octets.closing]
  | word data   => data
  | string data => quote :: Escapes.escape backslash quote data ++ [quote]

def isWord : Token → Bool
  | word _ => true
  | _      => false

-- It runs on from a word before it.
def runsOn : Token → Bool
  | word _   => true
  | string _ => true
  | _        => false

end Token

mutual

def tokens : Value → List Token
  | .nil         => [.word nilName]
  | .atom data   => [.word data]
  | .quoted data => [.string data]
  | .list values => .opening :: tokensOf values ++ [.closing]

def tokensOf : List Value → List Token
  | []      => []
  | v :: vs => tokens v ++ tokensOf vs

end

mutual

-- How many values a tree is.
def count : Value → Nat
  | .list values => counts values + 1
  | _            => 1

def counts : List Value → Nat
  | []      => 0
  | v :: vs => count v + counts vs

end

mutual

-- How deep the values in a tree are.
def height : Value → Nat
  | .list values => heights values
  | _            => 0

def heights : List Value → Nat
  | []      => 0
  | v :: vs => max (height v + 1) (heights vs)

end

structure IsWord (data : Octets) : Prop where
  nonempty : data ≠ []
  atomic   : ∀ b ∈ data, isAtomic b
  unquoted : data.head? ≠ some quote

structure IsAtom (data : Octets) : Prop extends IsWord data where
  notNil : upper data ≠ nilName

mutual

def Plain : Value → Prop
  | .atom data   => IsAtom data
  | .list values => PlainAll values
  | _            => True

def PlainAll : List Value → Prop
  | []      => True
  | v :: vs => Plain v ∧ PlainAll vs

end

-- The bytes are the tokens with white space around them. Where `separate` is set, there is some between a word and a
-- token that runs on from it; `behind` is whether a word comes before.
inductive Prints (separate : Bool) : Bool → List Token → Octets → Prop
  | nil  {behind : Bool} {gap : Octets} (hgap : ∀ b ∈ gap, isGap b) : Prints separate behind [] gap
  | cons {behind : Bool} {t : Token} {ts : List Token} {gap rest : Octets} (hgap : ∀ b ∈ gap, isGap b)
    (hne : separate → behind → t.runsOn → gap ≠ []) (hrest : Prints separate t.isWord ts rest) :
    Prints separate behind (t :: ts) (gap ++ t.print ++ rest)

end Printing

section Reading

variable {p : ValueParser} {fuel depth : Nat} {behind : Bool} {t : Token} {ts : List Token} {bytes data rest : Octets}
  {b : Octet} {v : Value} {values : List Value}

theorem isWord_nilName : IsWord nilName :=
  ⟨by decide, by decide +kernel, by decide⟩

-- A token that the parser can take.
def Token.Sound : Token → Prop
  | word data => IsWord data
  | _         => True

theorem Token.print_eq (h : t.Sound) : ∃ b bs, t.print = b :: bs ∧ isGap b = false := by
  cases t
  case opening     => exact ⟨Octets.opening, [], rfl, by decide⟩
  case closing     => exact ⟨Octets.closing, [], rfl, by decide⟩
  case word data   =>
    obtain ⟨b, bs, rfl⟩ := List.exists_cons_of_ne_nil h.nonempty
    have hb := h.atomic b List.mem_cons_self
    simp only [isAtomic, Bool.and_eq_true, Bool.not_eq_true'] at hb
    exact ⟨b, bs, rfl, hb.left.left⟩
  case string data => exact ⟨quote, _, rfl, by decide⟩

-- The white space before a token is skipped.
theorem Prints.skip (h : Prints true behind (t :: ts) bytes) (ht : t.Sound) :
    ∃ rest, bytes.dropWhile isGap = t.print ++ rest ∧ Prints true t.isWord ts rest := by
  cases h
  case cons gap rest hgap hne hrest =>
    obtain ⟨b, bs, hprint, hb⟩ := Token.print_eq ht
    refine ⟨rest, ?_, hrest⟩
    rw [List.append_assoc, List.dropWhile_append_of_pos hgap, hprint, List.cons_append,
      List.dropWhile_cons_of_neg (by simp [hb])]

theorem Prints.skip_nil (h : Prints true behind [] bytes) : bytes.dropWhile isGap = [] := by
  cases h
  case nil hgap => exact List.dropWhile_eq_nil_iff.mpr hgap

theorem isAtomic_gap (hb : isGap b) : isAtomic b = false := by
  simp [isAtomic, hb]

-- A word ends where it was printed to end.
theorem Prints.stop (h : Prints true true ts bytes) : ∀ b, bytes.head? = some b → isAtomic b = false := by
  intro b hb
  cases h
  case nil hgap =>
    exact isAtomic_gap (hgap b (List.mem_of_head? hb))
  case cons t ts gap rest hgap hrest hne =>
    cases gap
    case cons c cs =>
      obtain rfl : c = b := by simpa using hb
      exact isAtomic_gap (hgap c List.mem_cons_self)
    case nil       =>
      cases t
      case opening     => cases hb; decide
      case closing     => cases hb; decide
      case word data   => exact absurd rfl (hne rfl rfl rfl)
      case string data => exact absurd rfl (hne rfl rfl rfl)

theorem takeWhile_word (hdata : ∀ b ∈ data, isAtomic b) (h : Prints true true ts rest) :
    (data ++ rest).takeWhile isAtomic = data ∧ (data ++ rest).dropWhile isAtomic = rest := by
  rw [List.takeWhile_append_of_pos hdata, List.dropWhile_append_of_pos hdata]
  cases hr : rest
  case nil       => exact ⟨List.append_nil _, rfl⟩
  case cons c cs =>
    have hc := h.stop c (by rw [hr]; rfl)
    rw [List.takeWhile_cons_of_neg (by simp [hc]), List.dropWhile_cons_of_neg (by simp [hc])]
    exact ⟨List.append_nil _, rfl⟩

theorem atom_word (h : IsWord data) (hrest : Prints true true ts rest) {n : Nat} :
    ValueParser.atom ⟨data ++ rest, n⟩ = (.ok (if upper data = nilName then .nil else .atom data), ⟨rest, n⟩) := by
  obtain ⟨htake, hdrop⟩ := takeWhile_word h.atomic hrest
  simp only [ValueParser.atom, htake, hdrop, if_neg h.nonempty]

theorem quotedFrom_escape (data : Octets) (value : Octets) :
    quotedFrom false value (Escapes.escape backslash quote data ++ quote :: rest) = (.ok (value ++ data), rest) := by
  rw [Escapes.escape_eq (by decide)]
  induction data generalizing value
  case nil          => rw [List.flatMap_nil, List.nil_append, quotedFrom, if_pos rfl, List.append_nil]
  case cons b bs ih =>
    rw [List.flatMap_cons, Escapes.escaped, List.append_assoc]
    split
    case isTrue hb  =>
      rw [List.cons_append, List.cons_append, List.nil_append, quotedFrom, if_neg (by decide), if_pos rfl, quotedFrom, ih,
        List.append_assoc, List.singleton_append]
    case isFalse hb =>
      obtain ⟨hslash, hquote⟩ := not_or.mp hb
      rw [List.cons_append, List.nil_append, quotedFrom, if_neg hquote, if_neg hslash, ih, List.append_assoc,
        List.singleton_append]

theorem quoted_string {n : Nat} : ValueParser.quoted ⟨(Token.string data).print ++ rest, n⟩ = (.ok (.quoted data), ⟨rest, n⟩) := by
  have hquoted : quotedFrom false [] (Escapes.escape backslash quote data ++ quote :: rest) = (.ok ([] ++ data), rest) :=
    quotedFrom_escape data []
  simp only [Token.print, ValueParser.quoted, List.cons_append, List.append_assoc, List.tail_cons,
    List.nil_append] at hquoted ⊢
  rw [hquoted]
  rfl

-- A value within the limits.
theorem value_succ (hrest : p.rest = b :: rest) (htokens : p.tokens + 1 ≤ maxBodystructureTokens)
    (hdepth : depth ≤ maxMimeDepth + 8) : value (fuel + 1) depth p =
      if b = opening then items fuel depth [] ⟨rest.dropWhile isGap, p.tokens + 1⟩
      else if b = quote then some (ValueParser.quoted ⟨p.rest, p.tokens + 1⟩)
      else some (ValueParser.atom ⟨p.rest, p.tokens + 1⟩) := by
  rw [value]
  dsimp only
  rw [if_neg (not_or.mpr ⟨Nat.not_lt.mpr htokens, Nat.not_lt.mpr hdepth⟩), hrest]

-- The parser takes the tokens of a tree, and it is the tree that it returns.
def Reads (v : Value) : Prop :=
  ∀ (fuel depth : Nat) (p : ValueParser) (r : Result Value) (behind : Bool) (ts : List Token) (bytes : Octets),
    Plain v → Prints true behind (tokens v ++ ts) bytes → p.rest = bytes.dropWhile isGap →
    p.tokens + count v ≤ maxBodystructureTokens → depth + height v ≤ maxMimeDepth + 8 → value fuel depth p = some r →
    ∃ behind' rest, r = (.ok v, ⟨rest, p.tokens + count v⟩) ∧ Prints true behind' ts rest

def ReadsAll (vs : List Value) : Prop :=
  ∀ (fuel depth : Nat) (values : List Value) (p : ValueParser) (r : Result Value) (behind : Bool) (ts : List Token)
    (bytes : Octets), PlainAll vs → Prints true behind (tokensOf vs ++ .closing :: ts) bytes →
    p.rest = bytes.dropWhile isGap → p.tokens + counts vs ≤ maxBodystructureTokens →
    depth + heights vs ≤ maxMimeDepth + 8 → items fuel depth values p = some r →
    ∃ rest, r = (.ok (.list (values ++ vs)), ⟨rest, p.tokens + counts vs⟩) ∧ Prints true false ts rest

theorem reads_word (hword : IsWord data) (htokens : tokens v = [.word data]) (hcount : count v = 1)
    (hv : (if upper data = nilName then .nil else .atom data) = v) : Reads v := by
  intro fuel depth p r behind ts bytes _ hprints hrest hmax hdepth hr
  rw [htokens] at hprints
  obtain ⟨rest, hskip, htail⟩ := hprints.skip hword
  obtain ⟨b, bs, rfl⟩ := List.exists_cons_of_ne_nil hword.nonempty
  have hb := hword.atomic b List.mem_cons_self
  cases fuel
  case zero      => cases hr
  case succ fuel =>
    rw [hskip] at hrest
    rw [value_succ hrest (by omega) (by omega), if_neg, if_neg, hrest] at hr
    · have hatom := atom_word (n := p.tokens + 1) hword htail
      rw [show (Token.word (b :: bs)).print = b :: bs from rfl, hatom, hv] at hr
      cases hr
      exact ⟨true, rest, by rw [hcount], htail⟩
    · rintro rfl
      exact hword.unquoted rfl
    · rintro rfl
      exact absurd hb (by decide)

theorem reads_nil : Reads .nil :=
  reads_word isWord_nilName rfl rfl (if_pos (by decide +kernel))

theorem reads_atom (data : Octets) : Reads (.atom data) :=
  fun fuel depth p r behind ts bytes hplain => reads_word hplain.toIsWord rfl rfl (if_neg hplain.notNil) fuel depth p r
    behind ts bytes hplain

theorem reads_quoted (data : Octets) : Reads (.quoted data) := by
  intro fuel depth p r behind ts bytes _ hprints hrest hmax hdepth hr
  obtain ⟨rest, hskip, htail⟩ := hprints.skip trivial
  rw [hskip] at hrest
  simp only [count] at hmax ⊢
  cases fuel
  case zero      => cases hr
  case succ fuel =>
    have hcons : p.rest = quote :: (Escapes.escape backslash quote data ++ [quote] ++ rest) := hrest
    rw [value_succ hcons (by omega) (by omega), if_neg (by decide), if_pos rfl, hrest, quoted_string] at hr
    cases hr
    exact ⟨false, rest, rfl, htail⟩

theorem reads_list (vs : List Value) (ih : ReadsAll vs) : Reads (.list vs) := by
  intro fuel depth p r behind ts bytes hplain hprints hrest hmax hdepth hr
  rw [tokens, List.cons_append, List.cons_append, List.append_assoc] at hprints
  obtain ⟨rest, hskip, htail⟩ := hprints.skip trivial
  rw [hskip] at hrest
  simp only [count, height] at hmax hdepth ⊢
  cases fuel
  case zero      => cases hr
  case succ fuel =>
    have hcons : p.rest = opening :: rest := hrest
    rw [value_succ hcons (by omega) (by omega), if_pos rfl] at hr
    obtain ⟨rest', rfl, htail'⟩ := ih fuel depth [] _ r false ts rest hplain htail rfl (by dsimp only; omega) (by omega) hr
    refine ⟨false, rest', ?_, htail'⟩
    rw [List.nil_append, Nat.add_right_comm, Nat.add_assoc]

theorem readsAll_nil : ReadsAll [] := by
  intro fuel depth values p r behind ts bytes _ hprints hrest _ _ hr
  obtain ⟨rest, hskip, htail⟩ := hprints.skip trivial
  rw [hskip] at hrest
  cases fuel
  case zero      => cases hr
  case succ fuel =>
    have hcons : p.rest = closing :: rest := hrest
    rw [items, hcons] at hr
    cases hr
    exact ⟨rest, by rw [List.append_nil]; rfl, htail⟩

-- A tree does not begin like the end of a list.
theorem tokens_eq (hv : Plain v) : ∃ t ts b bs, tokens v = t :: ts ∧ t.Sound ∧ t.print = b :: bs ∧ b ≠ closing := by
  cases v
  case nil         => exact ⟨.word nilName, [], _, _, rfl, isWord_nilName, rfl, by decide⟩
  case atom data   =>
    obtain ⟨b, bs, rfl⟩ := List.exists_cons_of_ne_nil hv.nonempty
    refine ⟨.word (b :: bs), [], b, bs, rfl, hv.toIsWord, rfl, ?_⟩
    rintro rfl
    exact absurd (hv.atomic closing List.mem_cons_self) (by decide)
  case quoted data => exact ⟨.string data, [], quote, _, rfl, trivial, rfl, by decide⟩
  case list values => exact ⟨.opening, _, opening, [], rfl, trivial, rfl, by decide⟩

theorem readsAll_cons (v : Value) (vs : List Value) (ihv : Reads v) (ih : ReadsAll vs) : ReadsAll (v :: vs) := by
  intro fuel depth values p r behind ts bytes hplain hprints hrest hmax hdepth hr
  rw [tokensOf, List.append_assoc] at hprints
  simp only [counts, heights] at hmax hdepth ⊢
  obtain ⟨t, ts', b, bs, htokens, hsound, hprint, hb⟩ := tokens_eq hplain.left
  have hcons : ∃ rest, p.rest = b :: rest := by
    rw [htokens] at hprints
    obtain ⟨rest, hskip, -⟩ := hprints.skip hsound
    exact ⟨bs ++ rest, by rw [hrest, hskip, hprint]; rfl⟩
  obtain ⟨rest, hcons⟩ := hcons
  cases fuel
  case zero      => cases hr
  case succ fuel =>
    rw [items, hcons] at hr
    dsimp only at hr
    rw [if_neg hb] at hr
    cases hvalue : value fuel (depth + 1) p
    case none    => rw [hvalue] at hr; cases hr
    case some r₀ =>
      obtain ⟨behind', rest', rfl, htail⟩ := ihv fuel (depth + 1) p r₀ behind _ bytes hplain.left hprints hrest (by omega)
        (by omega) hvalue
      rw [hvalue] at hr
      obtain ⟨rest'', rfl, htail'⟩ := ih fuel depth (values ++ [v]) _ r behind' ts rest' hplain.right htail rfl
        (by simp only [ValueParser.skipSpaces]; omega) (by omega) hr
      exact ⟨rest'', by simp [ValueParser.skipSpaces, Nat.add_assoc], htail'⟩

theorem reads (v : Value) : Reads v :=
  @Value.rec Reads ReadsAll reads_nil reads_atom reads_quoted reads_list readsAll_nil readsAll_cons v

theorem parseFrom_prints {vs : List Value} {r : Result (List Value)} (hplain : PlainAll vs)
    (hprints : Prints true behind (tokensOf vs) bytes) (hrest : p.rest = bytes.dropWhile isGap)
    (hmax : p.tokens + counts vs ≤ maxBodystructureTokens) (hdepth : heights vs ≤ maxMimeDepth + 8 + 1)
    (hr : parseFrom fuel values p = some r) : r.fst = .ok (values ++ vs) := by
  induction vs generalizing fuel values p behind bytes
  case nil          =>
    cases fuel
    case zero      => cases hr
    case succ fuel =>
      rw [hprints.skip_nil] at hrest
      rw [parseFrom, hrest] at hr
      cases hr
      exact (List.append_nil _).symm ▸ rfl
  case cons v vs ih =>
    rw [tokensOf] at hprints
    simp only [counts, heights] at hmax hdepth
    obtain ⟨t, ts', b, bs, htokens, hsound, hprint, hb⟩ := tokens_eq hplain.left
    have hcons : ∃ rest, p.rest = b :: rest := by
      rw [htokens] at hprints
      obtain ⟨rest, hskip, -⟩ := hprints.skip hsound
      exact ⟨bs ++ rest, by rw [hrest, hskip, hprint]; rfl⟩
    obtain ⟨rest, hcons⟩ := hcons
    cases fuel
    case zero      => cases hr
    case succ fuel =>
      rw [parseFrom, hcons] at hr
      dsimp only at hr
      cases hvalue : value fuel 0 p
      case none    => rw [hvalue] at hr; cases hr
      case some r₀ =>
        obtain ⟨behind', rest', rfl, htail⟩ := reads v fuel 0 p r₀ behind _ bytes hplain.left hprints hrest (by omega)
          (by omega) hvalue
        rw [hvalue] at hr
        have hvalues := ih hplain.right htail rfl (by simp only [ValueParser.skipSpaces]; omega) (by omega) hr
        rw [hvalues, List.append_assoc, List.singleton_append]

-- The parser inverts the printing.
theorem parse_prints {vs : List Value} (hplain : PlainAll vs) (hprints : Prints true false (tokensOf vs) bytes)
    (hmax : counts vs ≤ maxBodystructureTokens) (hdepth : heights vs ≤ maxMimeDepth + 8 + 1)
    (hfuel : 2 * bytes.length + 2 ≤ fuel) : ∃ q, parse fuel bytes = some (.ok vs, q) := by
  have hskip := (List.dropWhile_suffix isGap (l := bytes)).length_le
  have hskipped : 2 * (ValueParser.skipSpaces ⟨bytes, 0⟩).rest.length + 2 ≤ fuel := by
    simp only [ValueParser.skipSpaces]
    omega
  obtain ⟨r, hr⟩ : ∃ r, parse fuel bytes = some r := Option.isSome_iff_exists.mp (parseFrom_isSome hskipped)
  have hvalues := parseFrom_prints hplain hprints rfl (by simp only [ValueParser.skipSpaces]; omega) hdepth hr
  exact ⟨r.snd, hr.trans (congrArg some (Prod.ext hvalues rfl))⟩

end Reading

section Responses

def maxBodystructureBytes : Nat := 1024 * 1024

-- An item of a response of `imaplib`: a pair is a line that announces a literal, and the literal.
inductive Item
  | none
  | bytes   (item : Octets)
  | literal (metadata literal : Octets)
  -- a pair of other objects
  | pair
  | other

inductive ResponseError
  | valueError  (message : String)
  -- `MailboxMessageUnavailable`
  | unavailable (message : String)

def isDigit (b : Octet) : Bool :=
  0x30 ≤ b.val && b.val ≤ 0x39

-- `int(digits)`
def number (digits : Octets) : Except ResponseError Nat :=
  if digits.length > Codec.maxStrDigits then .error (.valueError "Exceeds the limit for integer string conversion")
  else .ok (digits.foldl (fun n b => n * 10 + (b.val - 0x30)) 0)

def dropHead (b : Octet) (bytes : Octets) : Octets :=
  if bytes.head? = some b then bytes.tail else bytes

def plusSign : Octet :=
  '+'

def brace : Octet :=
  '{'

def closingBrace : Octet :=
  '}'

-- `_IMAP_LITERAL_SUFFIX.search`, from the end: what stands before the match, and its digits.
def literalSuffix (metadata : Octets) : Option (Octets × Octets) :=
  let line := dropHead '\r' (dropHead '\n' metadata.reverse)
  if line.head? = some closingBrace then
    let counted := dropHead plusSign line.tail
    let digits := counted.takeWhile isDigit
    let before := counted.dropWhile isDigit
    if digits ≠ [] ∧ before.head? = some brace then some (before.tail.reverse, digits.reverse) else none
  else none

def quotedLiteral (literal : Octets) : Octets :=
  quote :: Escapes.escape backslash quote literal ++ [quote]

-- One round of the loop of `_bodystructure_response_bytes`.
def extend (output : Octets) (item : Item) : Except ResponseError Octets := do
  let bounded (output : Octets) : Except ResponseError Octets :=
    if output.length > maxBodystructureBytes then .error (.valueError "IMAP response exceeds the metadata limit")
    else .ok output
  match item with
  | .none                     => return output
  | .bytes item               => bounded (output ++ item ++ [blank])
  | .literal metadata literal =>
    match literalSuffix metadata with
    | some (before, digits) =>
      if (← number digits) ≠ literal.length then .error (.valueError "IMAP literal length is invalid")
      else bounded (output ++ before ++ quotedLiteral literal ++ [blank])
    | none                  => .error (.valueError "IMAP literal length is invalid")
  | .pair                     => .error (.valueError "IMAP literal is invalid")
  | .other                    => .error (.valueError "IMAP response item is invalid")

-- `_bodystructure_response_bytes`
def responseBytes (response : List Item) : Except ResponseError Octets := do
  let output ← response.foldlM extend []
  if output = [] then .error (.unavailable "The mail server message is no longer available") else return output

-- The end of a line that announces a literal of that length, in digits that can be read.
structure Announces (length : Nat) (tail : Octets) : Prop where
  announced : ∃ digits plus ending : Octets, tail = brace :: digits ++ plus ++ closingBrace :: ending ∧
    digits ≠ [] ∧ (∀ b ∈ digits, isDigit b) ∧ number digits = .ok length ∧ (plus = [] ∨ plus = [plusSign]) ∧
    (ending = [] ∨ ending = ("\r" : Octets) ∨ ending = ("\n" : Octets) ∨ ending = ("\r\n" : Octets))

-- A response carries the tokens; each string is in quotes or a literal, and between two values an item may end.
inductive Sends : Bool → List Token → List Item → Prop
  | last    {behind : Bool} {ts : List Token} {item : Octets} (h : Prints true behind ts item) :
    Sends behind ts [.bytes item]
  | bytes   {behind : Bool} {ts ts' : List Token} {item : Octets} {items : List Item} (h : Prints true behind ts item)
    (hitems : Sends false ts' items) : Sends behind (ts ++ ts') (.bytes item :: items)
  | literal {behind : Bool} {ts ts' : List Token} {before tail data : Octets} {items : List Item}
    (h : Prints true behind (ts ++ [.string data]) (before ++ (Token.string data).print)) (ht : Announces data.length tail)
    (hitems : Sends false ts' items) :
    Sends behind (ts ++ .string data :: ts') (.literal (before ++ tail) data :: items)
  | none    {behind : Bool} {ts : List Token} {items : List Item} (hitems : Sends behind ts items) :
    Sends behind ts (.none :: items)

-- What the items of a response are together.
def Item.text : Item → Octets
  | .bytes item               => item ++ [blank]
  | .literal metadata data    =>
    ((literalSuffix metadata).map fun x => x.fst ++ quotedLiteral data ++ [blank]).getD []
  | _                         => []

section Sending

variable {behind : Bool} {ts ts' : List Token} {xs ys before tail data digits : Octets} {items : List Item} {n : Nat} {b : Octet}

-- One more blank stands between two printed rows.
theorem Prints.append (h : Prints true behind ts xs) (h' : Prints true false ts' ys) :
    Prints true behind (ts ++ ts') (xs ++ blank :: ys) := by
  induction h
  case nil gap hgap                           =>
    have hgap' : ∀ b ∈ gap ++ [blank], isGap b := by
      intro b hb
      obtain hb | hb := List.mem_append.mp hb
      · exact hgap b hb
      · exact List.mem_singleton.mp hb ▸ by decide
    rw [List.nil_append, ← List.singleton_append, ← List.append_assoc]
    cases h'
    case nil hys                  =>
      refine .nil fun b hb => ?_
      obtain hb | hb := List.mem_append.mp hb
      · exact hgap' b hb
      · exact hys b hb
    case cons t ts gap' rest hys hrest hne =>
      rw [← List.append_assoc, ← List.append_assoc]
      refine .cons (fun b hb => ?_) (fun _ _ _ => by simp) hrest
      obtain hb | hb := List.mem_append.mp hb
      · exact hgap' b hb
      · exact hys b hb
  case cons t ts gap rest hgap hne hrest ih =>
    rw [List.cons_append, List.append_assoc]
    exact .cons hgap hne ih

theorem dropHead_cons (b : Octet) (xs : Octets) : dropHead b (b :: xs) = xs :=
  if_pos rfl

theorem dropHead_of_ne {c : Octet} (h : c ≠ b) : dropHead b (c :: xs) = c :: xs :=
  if_neg (by simpa using h)

theorem literalSuffix_announces (h : Announces n tail) :
    ∃ digits, literalSuffix (before ++ tail) = some (before, digits) ∧ number digits = .ok n := by
  obtain ⟨digits, plus, ending, rfl, hne, hdigits, hn, hplus, hending⟩ := h
  refine ⟨digits, ?_, hn⟩
  have hreverse : (before ++ (brace :: digits ++ plus ++ closingBrace :: ending)).reverse =
      ending.reverse ++ closingBrace :: (plus.reverse ++ (digits.reverse ++ brace :: before.reverse)) := by
    simp
  have hline (xs : Octets) : dropHead '\r' (dropHead '\n' (ending.reverse ++ closingBrace :: xs)) = closingBrace :: xs := by
    obtain rfl | rfl | rfl | rfl := hending
    · rfl
    · rfl
    · rfl
    · rfl
  have hdigits' : ∀ b ∈ digits.reverse, isDigit b := fun b hb => hdigits b (List.mem_reverse.mp hb)
  have hcounted : dropHead plusSign (plus.reverse ++ (digits.reverse ++ brace :: before.reverse)) =
      digits.reverse ++ brace :: before.reverse := by
    obtain rfl | rfl := hplus
    · cases hd : digits.reverse
      case nil       => exact absurd (List.reverse_eq_nil_iff.mp hd) hne
      case cons d ds =>
        refine dropHead_of_ne ?_
        rintro rfl
        exact absurd (hdigits' plusSign (hd ▸ List.mem_cons_self)) (by decide)
    · exact dropHead_cons _ _
  rw [literalSuffix, hreverse, hline]
  simp only [List.head?_cons, if_true, List.tail_cons, hcounted, List.takeWhile_append_of_pos hdigits',
    List.dropWhile_append_of_pos hdigits', List.takeWhile_cons_of_neg (show ¬isDigit brace by decide),
    List.dropWhile_cons_of_neg (show ¬isDigit brace by decide), List.append_nil]
  rw [if_pos ⟨mt List.reverse_eq_nil_iff.mp hne, trivial⟩, List.reverse_reverse, List.reverse_reverse]

theorem Sends.prints (h : Sends behind ts items) : Prints true behind ts (items.flatMap Item.text) := by
  induction h
  case last behind ts item h                                       =>
    have hprints := h.append (.nil fun b hb => absurd hb List.not_mem_nil)
    simpa [Item.text] using hprints
  case bytes behind ts ts' item items h hitems ih                  =>
    rw [List.flatMap_cons, Item.text, List.append_assoc]
    exact h.append ih
  case literal behind ts ts' before tail data items h ht hitems ih =>
    obtain ⟨digits, hsuffix, -⟩ : ∃ digits, literalSuffix (before ++ tail) = some (before, digits) ∧
      number digits = .ok data.length := literalSuffix_announces ht
    have hprints := h.append ih
    rw [List.append_assoc] at hprints
    rw [List.flatMap_cons, Item.text, hsuffix, Option.map_some, Option.getD_some, List.append_assoc]
    exact hprints
  case none hitems ih                                              =>
    rw [List.flatMap_cons]
    exact ih

theorem extend_bytes {output item : Octets} (h : (output ++ Item.text (.bytes item)).length ≤ maxBodystructureBytes) :
    extend output (.bytes item) = .ok (output ++ Item.text (.bytes item)) := by
  rw [Item.text, ← List.append_assoc] at h ⊢
  exact if_neg (Nat.not_lt.mpr h)

theorem extend_literal {output : Octets} (ht : Announces data.length tail)
    (h : (output ++ Item.text (.literal (before ++ tail) data)).length ≤ maxBodystructureBytes) :
    extend output (.literal (before ++ tail) data) = .ok (output ++ Item.text (.literal (before ++ tail) data)) := by
  obtain ⟨digits, hsuffix, hnumber⟩ : ∃ digits, literalSuffix (before ++ tail) = some (before, digits) ∧
    number digits = .ok data.length := literalSuffix_announces ht
  rw [Item.text, hsuffix, Option.map_some, Option.getD_some, ← List.append_assoc, ← List.append_assoc] at h ⊢
  rw [extend]
  simp only [hsuffix, hnumber, bind, Except.bind]
  rw [if_neg (not_not.mpr rfl)]
  exact if_neg (Nat.not_lt.mpr h)

-- A count in more digits than can be read is refused, whichever it is.
theorem extend_literal_of_long {output metadata : Octets} (hsuffix : literalSuffix metadata = some (before, digits))
    (h : Codec.maxStrDigits < digits.length) : ∃ e, extend output (.literal metadata data) = .error e := by
  have hnumber : number digits = .error (.valueError "Exceeds the limit for integer string conversion") := if_pos h
  rw [extend]
  simp only [hsuffix, hnumber, bind, Except.bind]
  exact ⟨_, rfl⟩

-- The loop goes on with the text of the items, as long as it stays within the limit.
theorem foldlM_extend {output : Octets} (h : Sends behind ts items)
    (hmax : (output ++ items.flatMap Item.text).length ≤ maxBodystructureBytes) :
    items.foldlM extend output = .ok (output ++ items.flatMap Item.text) := by
  induction h generalizing output
  case last behind ts item h                                       =>
    simp only [List.flatMap_cons, List.flatMap_nil, List.append_nil] at hmax ⊢
    rw [List.foldlM_cons, extend_bytes hmax]
    rfl
  case bytes behind ts ts' item items h hitems ih                  =>
    rw [List.flatMap_cons, ← List.append_assoc] at hmax ⊢
    have hlength := hmax
    rw [List.length_append] at hlength
    rw [List.foldlM_cons, extend_bytes (by omega)]
    exact ih hmax
  case literal behind ts ts' before tail data items h ht hitems ih =>
    rw [List.flatMap_cons, ← List.append_assoc] at hmax ⊢
    have hlength := hmax
    rw [List.length_append] at hlength
    rw [List.foldlM_cons, extend_literal ht (by omega)]
    exact ih hmax
  case none hitems ih                                              =>
    rw [List.flatMap_cons] at hmax ⊢
    exact ih hmax

theorem Sends.text_ne_nil (h : Sends behind ts items) : items.flatMap Item.text ≠ [] := by
  induction h
  case last                                                        => simp [Item.text]
  case bytes                                                       => simp [Item.text]
  case literal behind ts ts' before tail data items h ht hitems ih =>
    rw [List.flatMap_cons]
    exact fun hnil => ih (List.append_eq_nil_iff.mp hnil).right
  case none hitems ih                                              => exact ih

theorem responseBytes_sends (h : Sends behind ts items)
    (hmax : (items.flatMap Item.text).length ≤ maxBodystructureBytes) :
    responseBytes items = .ok (items.flatMap Item.text) := by
  have hfold : items.foldlM extend [] = .ok ([] ++ items.flatMap Item.text) :=
    foldlM_extend h (by rwa [List.nil_append])
  rw [List.nil_append] at hfold
  rw [responseBytes, hfold]
  exact if_neg h.text_ne_nil

end Sending

end Responses

-- The trees that are printed within the limits of the parser.
structure Bounded (vs : List Value) : Prop where
  plain  : PlainAll vs
  tokens : counts vs ≤ maxBodystructureTokens
  depth  : heights vs ≤ maxMimeDepth + 9

-- The parser gives the trees back that were printed, with white space between a word and what would run on from it; it
-- does so as well when strings are sent as literals; and on all data it ends, and has moved on past each value.
theorem values_parsed :
    (∀ vs bytes fuel, Bounded vs → Prints true false (tokensOf vs) bytes → 2 * bytes.length + 2 ≤ fuel →
      ∃ q, parse fuel bytes = some (.ok vs, q)) ∧
    (∀ vs items, Bounded vs → Sends false (tokensOf vs) items →
      (items.flatMap Item.text).length ≤ maxBodystructureBytes → ∃ bytes, responseBytes items = .ok bytes ∧
      ∀ fuel, 2 * bytes.length + 2 ≤ fuel → ∃ q, parse fuel bytes = some (.ok vs, q)) ∧
    (∀ data fuel, 2 * data.length + 2 ≤ fuel → ∃ r, parse fuel data = some r ∧ Advances ⟨data, 0⟩ r.snd) ∧
    ∀ fuel depth p r, value fuel depth p = some r → Moves p r := by
  refine ⟨?_, ?_, ?_, fun fuel => (value_moves fuel).left⟩
  · exact fun vs bytes fuel h hprints hfuel => parse_prints h.plain hprints h.tokens h.depth hfuel
  · intro vs items h hsends hmax
    exact ⟨_, responseBytes_sends hsends hmax, fun fuel hfuel => parse_prints h.plain hsends.prints h.tokens h.depth hfuel⟩
  · intro data fuel hfuel
    have hskip := (List.dropWhile_suffix isGap (l := data)).length_le
    have hskipped : 2 * (ValueParser.skipSpaces ⟨data, 0⟩).rest.length + 2 ≤ fuel := by
      simp only [ValueParser.skipSpaces]
      omega
    obtain ⟨r, hr⟩ : ∃ r, parse fuel data = some r := Option.isSome_iff_exists.mp (parseFrom_isSome hskipped)
    exact ⟨r, hr, advances_skipSpaces.trans (parseFrom_advances hr)⟩

section Sample

theorem isAtom_letter : IsAtom ("a" : Octets) :=
  ⟨⟨by decide, by decide +kernel, by decide +kernel⟩, by decide +kernel⟩

-- Two atoms with no white space between them are one.
theorem atoms_run_together :
    ¬∀ vs bytes fuel, Bounded vs → Prints false false (tokensOf vs) bytes → 2 * bytes.length + 2 ≤ fuel →
      ∃ q, parse fuel bytes = some (.ok vs, q) := by
  intro h
  have hgap : ∀ b ∈ ([] : Octets), isGap b := fun b hb => absurd hb List.not_mem_nil
  have hbounded : Bounded [.atom ("a" : Octets), .atom ("a" : Octets)] :=
    ⟨⟨isAtom_letter, isAtom_letter, trivial⟩, by decide, by decide⟩
  have hprints : Prints false false (tokensOf [.atom ("a" : Octets), .atom ("a" : Octets)]) ("aa" : Octets) :=
    .cons hgap nofun (.cons hgap nofun (.nil hgap))
  obtain ⟨q, hq⟩ := h _ _ 6 hbounded hprints (by decide)
  have hlength : (parse 6 ("aa" : Octets)).map (fun r => r.fst.toOption.map List.length) = some (some 1) := by
    decide +kernel
  rw [hq] at hlength
  exact absurd (Option.some.inj (Option.some.inj hlength)) (by decide)

-- `(a "\"" NIL)`, once in one line and once with a literal.
theorem values_parsed_list :
    let vs : List Value := [.list [.atom ("a" : Octets), .quoted [quote], .nil]]
    (∃ q, parse 30 ("(a \"\\\"\" NIL)" : Octets) = some (.ok vs, q)) ∧
    ∃ bytes, responseBytes [.literal (("(a " : Octets) ++ ("\x7b1\x7d" : Octets)) [quote], .bytes (" NIL)" : Octets)] =
      .ok bytes ∧
      ∃ q, parse 40 bytes = some (.ok vs, q) := by
  intro vs
  have hnone : ∀ b ∈ ([] : Octets), isGap b := fun b hb => absurd hb List.not_mem_nil
  have hblank : ∀ b ∈ [blank], isGap b := fun b hb => List.mem_singleton.mp hb ▸ by decide
  have hbounded : Bounded vs := ⟨⟨⟨isAtom_letter, trivial, trivial, trivial⟩, trivial⟩, by decide, by decide⟩
  have hend : Prints true false [.word nilName, .closing] ([blank] ++ nilName ++ ([] ++ [closing] ++ [])) :=
    .cons hblank nofun (.cons hnone nofun (.nil hnone))
  have hquoted (ts : List Token) (rest : Octets) (hrest : Prints true false ts rest) :
      Prints true false (.opening :: .word ("a" : Octets) :: .string [quote] :: ts)
        ([] ++ [opening] ++ ([] ++ ("a" : Octets) ++ ([blank] ++ (Token.string [quote]).print ++ rest))) :=
    .cons hnone nofun (.cons hnone nofun (.cons hblank (fun _ _ _ => by simp) hrest))
  have hannounces : Announces 1 ("\x7b1\x7d" : Octets) :=
    ⟨("1" : Octets), [], [], by decide +kernel, by decide, by decide +kernel, rfl, .inl rfl, .inl rfl⟩
  obtain ⟨hparse, hsend, -⟩ := values_parsed
  constructor
  · exact hparse vs _ 30 hbounded (hquoted _ _ hend) (by decide +kernel)
  · have hliteral : Sends false ([.opening, .word ("a" : Octets)] ++ .string [quote] :: [.word nilName, .closing])
        [.literal (("(a " : Octets) ++ ("\x7b1\x7d" : Octets)) [quote], .bytes (" NIL)" : Octets)] :=
      .literal (hquoted [] [] (.nil hnone)) hannounces (.last hend)
    obtain ⟨bytes, hbytes, hparsed⟩ := hsend vs _ hbounded hliteral (by decide +kernel)
    refine ⟨bytes, hbytes, hparsed 40 ?_⟩
    have hlength : (responseBytes [.literal (("(a " : Octets) ++ ("\x7b1\x7d" : Octets)) [quote],
        .bytes (" NIL)" : Octets)]).toOption.map List.length = some 14 := by decide +kernel
    rw [hbytes] at hlength
    have hlength : bytes.length = 14 := Option.some.inj hlength
    omega

end Sample

end Values

end Imap
