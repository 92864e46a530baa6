import EmailWatcher.Library.Loop
import EmailWatcher.Library.Text
import Mathlib.Algebra.GroupWithZero.Nat

-- The addresses that stand in the text of an email.
namespace Scheduling

open Text

-- `str.casefold`, which goes character by character, and what else addresses are checked with.
class Characters where
  fold        : CodePoint → Text
  fold_space  : ∀ c, Text.isSpace c = true → fold c = [c]
  isPrintable : CodePoint → Bool
  -- The address of `email.utils.parseaddr`.
  parseaddr   : Text → Text
  -- `domain.encode("idna").decode("ascii")`, if that is possible.
  idna        : Text → Option Text

section Addresses

variable [Characters]

def casefold (text : Text) : Text :=
  text.flatMap Characters.fold

def at' : CodePoint := '@'

def dot : CodePoint := '.'

def isAlphanumeric (c : CodePoint) : Bool :=
  (0x30 ≤ c.val && c.val ≤ 0x39) || (0x41 ≤ c.val && c.val ≤ 0x5a) || (0x61 ≤ c.val && c.val ≤ 0x7a)

-- `DOMAIN_LABEL_RE`.
def domainLabel (label : Text) : Bool :=
  1 ≤ label.length && label.length ≤ 63 &&
  label.all (fun c => isAlphanumeric c || c = ('-' : Char)) &&
  label.head?.all isAlphanumeric && label.getLast?.all isAlphanumeric

def validDomain (domain : Text) : Bool :=
  match Characters.idna domain with
  | none       => false
  | some ascii => ascii.length ≤ 253 && (ascii.splitOnP (· = dot)).all domainLabel

def normalizeAddress (value : Text) : Text :=
  casefold <| strip <| Characters.parseaddr value

-- `email.rpartition("@")`, where there is an `@`.
def rpartitionAt (email : Text) : Option (Text × Text) :=
  let domain := email.rtakeWhile (· ≠ at')
  let rest := email.rdropWhile (· ≠ at')
  if rest = [] then none else some (rest.dropLast, domain)

def normalizeValidatedAddress (value : Text) : Option Text := do
  let email := normalizeAddress value
  let (name, domain) ← rpartitionAt email
  if name = [] || domain = [] || name.contains at' || name.head? = some dot || name.getLast? = some dot ||
      decide ([dot, dot] <:+: name) || !validDomain domain ||
      email.any (fun c => isSpace c || !Characters.isPrintable c) then
    none
  else
    some email

end Addresses

structure MailboxToken where
  address : Text
  start   : Nat
  stop    : Nat
  deriving DecidableEq

section Lexer

variable [Characters]

def enclosures : List (CodePoint × CodePoint) :=
  [('"', '"'), ('[', ']'), ('<', '>'), ('(', ')')]

def separators : List CodePoint :=
  [',', ';', ':']

-- Complete enclosures, by the place that they open at.
abbrev Ends := List (Nat × Nat)

structure Enclosing where
  ends      : Ends
  stack     : List (CodePoint × Nat)
  quotation : Option (Nat × List (CodePoint × Nat))

namespace Enclosing

def quote (s : Enclosing) (position : Nat) : Enclosing :=
  match s.quotation with
  | none                  => { s with quotation := some (position, s.stack), stack := [] }
  | some (opening, stack) => ⟨(opening, position + 1) :: s.ends, stack, none⟩

def opens (s : Enclosing) (character : CodePoint) (position : Nat) : Enclosing :=
  match enclosures.lookup character with
  | some closing => { s with stack := (closing, position) :: s.stack }
  | none         => s

def read (s : Enclosing) (character : CodePoint) (position : Nat) : Enclosing :=
  if character = ('"' : Char) then s.quote position
  else
    match s.stack with
    | (closing, opening) :: stack =>
      if character = closing then { s with stack := stack, ends := (opening, position + 1) :: s.ends }
      else s.opens character position
    | [] => s.opens character position

def step (text : Text) : Nat × Enclosing → Option (Loop.Step (Nat × Enclosing) Ends)
  | (position, s) =>
    match text[position]? with
    | none           => some <| .done s.ends
    | some character =>
      if character = ('\\' : Char) ∧ (s.stack ≠ [] ∨ s.quotation.isSome) then some <| .again (position + 2, s)
      else some <| .again (position + 1, s.read character position)

end Enclosing

def proseEnclosureEnds (fuel : Nat) (text : Text) : Option Ends :=
  Loop.run (Enclosing.step text) fuel (0, ⟨[], [], none⟩)

-- `min(ends.get(position, limit), limit)`.
def skipEnclosure (ends : Ends) (limit position : Nat) : Nat :=
  min ((ends.lookup position).getD limit) limit

def proseLexemeEnd (fuel : Nat) (text : Text) (limit : Nat) (ends : Ends) : Nat → Option Nat :=
  Loop.run (fun position =>
    if position < limit then
      match text[position]? with
      | none           => none
      | some character =>
        if isSpace character ∨ character ∈ separators then some <| .done position
        else if (enclosures.lookup character).isSome then some <| .again (skipEnclosure ends limit position)
        else some <| .again (position + 1)
    else some <| .done position) fuel

def opaqueCompoundGapEnd (fuel : Nat) (text : Text) (limit : Nat) (ends : Ends) : Nat → Option Nat :=
  Loop.run (fun position =>
    if position < limit then
      match text[position]? with
      | none           => none
      | some character =>
        if isSpace character then some <| .again (position + 1)
        else if character = ('(' : Char) then some <| .again (skipEnclosure ends limit position)
        else some <| .done position
    else some <| .done position) fuel

-- The parts around an `@` belong together.
def compoundEnd (fuel : Nat) (text : Text) (right : Nat) (ends : Ends) : Nat → Option Nat :=
  Loop.run (fun stop => do
    let nextPart ← opaqueCompoundGapEnd fuel text right ends stop
    if text[stop - 1]? = some at' then
      let continuation ← proseLexemeEnd fuel text right ends nextPart
      if continuation = nextPart then return .done continuation
      else return .again continuation
    else if nextPart < right ∧ text[nextPart]? = some at' then return .again (nextPart + 1)
    else return .done stop) fuel

def trimMarks (text : Text) (start : Nat) : Nat → Nat
  | 0        => 0
  | stop + 1 =>
    if start < stop + 1 ∧ (text[stop]? = some (('!' : Char) : CodePoint) ∨
        text[stop]? = some (('?' : Char) : CodePoint)) then
      trimMarks text start stop
    else stop + 1

def trimDot (text : Text) (start stop : Nat) : Nat :=
  if start < stop ∧ text[stop - 1]? = some dot ∧ (stop = start + 1 ∨ text[stop - 2]? ≠ some dot) then stop - 1
  else stop

def wrappers : List CodePoint :=
  ['"', '(', '<']

def opaqueCharacters : List CodePoint :=
  ['"', '[', ']', '<', '>', '(', ')']

-- The address in `text[start:stop]`, if it is a plain one.
def plainAddress (text : Text) (start stop : Nat) : Option MailboxToken := do
  let word := slice text start stop
  if word.count at' ≠ 1 ∨ word.any (· ∈ opaqueCharacters) then none
  else
    let address ← normalizeValidatedAddress word
    if address = casefold word then some ⟨address, start, stop⟩ else none

structure Reading where
  regions : List (Nat × Nat)
  tokens  : List MailboxToken

-- What is made of a word: a region to be read of its own, or perhaps a token.
def Reading.word (text : Text) (ends : Ends) (s : Reading) (start stop : Nat) : Reading :=
  let character := text[start]?
  if start < stop ∧ character ∈ wrappers.map some ∧ ends.lookup start = some stop then
    if character = some (('<' : Char) : CodePoint) then
      { s with tokens := s.tokens ++ (plainAddress text (start + 1) (stop - 1)).toList }
    else { s with regions := (start + 1, stop - 1) :: s.regions }
  else { s with tokens := s.tokens ++ (plainAddress text start stop).toList }

def readRegion (fuel : Nat) (text : Text) (ends : Ends) (right : Nat) : Nat × Reading → Option Reading :=
  Loop.run (fun (position, s) => do
    if position < right then
      let character ← text[position]?
      if isSpace character ∨ character ∈ separators then return .again (position + 1, s)
      else
        let stop ← proseLexemeEnd fuel text right ends position
        let stop ← compoundEnd fuel text right ends stop
        return .again (stop, s.word text ends position (trimDot text position (trimMarks text position stop)))
    else return .done s) fuel

-- The regions that are still to be read, the last one first.
def readRegions (fuel : Nat) (text : Text) (ends : Ends) : Reading → Option (List MailboxToken) :=
  Loop.run (fun s =>
    match s.regions with
    | []                       => some <| .done s.tokens
    | (left, right) :: regions =>
      (readRegion fuel text ends right (left, { s with regions })).map .again) fuel

def proseMailboxTokensWithin (fuel : Nat) (text : Text) : Option (List MailboxToken) := do
  let ends ← proseEnclosureEnds fuel text
  readRegions fuel text ends ⟨[(0, text.length)], []⟩

end Lexer

-- One of two intervals is beside the other, or within it.
def Nested (a b : Nat × Nat) : Prop :=
  a.snd ≤ b.fst ∨ b.snd ≤ a.fst ∨ (b.fst ≤ a.fst ∧ a.snd ≤ b.snd) ∨ (a.fst ≤ b.fst ∧ b.snd ≤ a.snd)

structure WellNested (length : Nat) (ends : Ends) : Prop where
  bounds : ∀ e ∈ ends, e.fst < e.snd ∧ e.snd ≤ length
  nested : ends.Pairwise Nested
  unique : (ends.map Prod.fst).Nodup

namespace Enclosing

-- The places of what is open, the innermost first.
def openings (s : Enclosing) : List Nat :=
  s.stack.map Prod.snd ++
  match s.quotation with
  | none                  => []
  | some (opening, stack) => opening :: stack.map Prod.snd

structure Sound (text : Text) (position : Nat) (s : Enclosing) : Prop where
  ends   : WellNested text.length s.ends
  past   : ∀ e ∈ s.ends, e.snd ≤ position
  order  : s.openings.Pairwise (· > ·)
  below  : ∀ o ∈ s.openings, o < position
  beside : ∀ e ∈ s.ends, ∀ o ∈ s.openings, e.snd ≤ o ∨ o < e.fst

variable {text : Text} {position : Nat} {s s' : Enclosing} {character : CodePoint}

theorem Sound.skip (h : Sound text position s) {n : Nat} (hn : position ≤ n) : Sound text n s where
  ends       := h.ends
  past e he  := (h.past e he).trans hn
  order      := h.order
  below o ho := (h.below o ho).trans_le hn
  beside     := h.beside

theorem Sound.open (h : Sound text position s) (he : s'.ends = s.ends)
    (ho : s'.openings = position :: s.openings) : Sound text (position + 1) s' where
  ends            := he ▸ h.ends
  past e hm       := Nat.le_succ_of_le (h.past e (he ▸ hm))
  order           := ho ▸ List.pairwise_cons.mpr ⟨h.below, h.order⟩
  below o hm      := by
    rw [ho, List.mem_cons] at hm
    rcases hm with rfl | hm
    · exact Nat.lt_succ_self _
    · exact Nat.lt_succ_of_lt (h.below o hm)
  beside e hm o hm' := by
    rw [ho, List.mem_cons] at hm'
    rw [he] at hm
    rcases hm' with rfl | hm'
    · exact .inl (h.past e hm)
    · exact h.beside e hm o hm'

-- What has opened within the enclosure that closes is forgotten.
theorem Sound.close {opening : Nat} (inner outer : List Nat) (h : Sound text position s)
    (hp : position < text.length) (hs : s.openings = inner ++ opening :: outer)
    (he : s'.ends = (opening, position + 1) :: s.ends) (ho : s'.openings = outer) :
    Sound text (position + 1) s' := by
  have hopening : opening ∈ s.openings := by simp [hs]
  have hlt := h.below opening hopening
  have horder := List.pairwise_cons.mp (List.pairwise_append.mp (hs ▸ h.order)).right.left
  have houter (o : Nat) (hm : o ∈ outer) : o ∈ s.openings := by simp [hs, hm]
  constructor
  case ends =>
    rw [he]
    constructor
    case bounds =>
      intro e hm
      rcases List.mem_cons.mp hm with rfl | hm
      · exact ⟨Nat.lt_succ_of_lt hlt, hp⟩
      · exact h.ends.bounds e hm
    case nested =>
      refine List.pairwise_cons.mpr ⟨fun e hm => ?_, h.ends.nested⟩
      have := h.past e hm
      have := h.ends.bounds e hm
      unfold Nested
      have := h.beside e hm opening hopening
      omega
    case unique =>
      refine List.nodup_cons.mpr ⟨fun hm => ?_, h.ends.unique⟩
      obtain ⟨e, hmem, hfst⟩ := List.mem_map.mp hm
      have := h.ends.bounds e hmem
      have := h.beside e hmem opening hopening
      omega
  case past =>
    intro e hm
    rw [he] at hm
    rcases List.mem_cons.mp hm with rfl | hm
    · exact le_rfl
    · exact Nat.le_succ_of_le (h.past e hm)
  case order => exact ho ▸ horder.right
  case below => exact fun o hm => Nat.lt_succ_of_lt (h.below o (houter o (ho ▸ hm)))
  case beside =>
    intro e hm o hm'
    rw [ho] at hm'
    rw [he] at hm
    rcases List.mem_cons.mp hm with rfl | hm
    · exact .inr (horder.left o hm')
    · exact h.beside e hm o (houter o hm')

theorem Sound.opens (h : Sound text position s) : Sound text (position + 1) (s.opens character position) := by
  unfold Enclosing.opens
  split
  · exact h.open rfl (by simp [openings])
  · exact h.skip (Nat.le_succ _)

theorem Sound.read (h : Sound text position s) (hp : position < text.length) :
    Sound text (position + 1) (s.read character position) := by
  unfold Enclosing.read
  split
  case isTrue =>
    unfold Enclosing.quote
    split
    case h_1 hq                => exact h.open rfl (by simp [openings, hq])
    case h_2 opening stack hq  =>
      exact h.close (s.stack.map Prod.snd) (stack.map Prod.snd) hp (by simp [openings, hq]) rfl (by simp [openings])
  case isFalse =>
    split
    case h_1 closing opening stack hs =>
      split
      case isTrue  => exact h.close [] _ hp (by simp [openings, hs]; rfl) rfl (by simp [openings])
      case isFalse => exact h.opens
    case h_2 => exact h.opens

end Enclosing

theorem proseEnclosureEnds_total {text : Text} (fuel : Nat) (hf : text.length < fuel) :
    ∃ ends, proseEnclosureEnds fuel text = some ends ∧ WellNested text.length ends := by
  refine Loop.run_total (I := fun x => Enclosing.Sound text x.fst x.snd) (fun x => text.length - x.fst) ?_ ?_
    (by simpa using hf)
  · rintro ⟨position, s⟩ h
    cases hc : text[position]?
    case none => exact .inr ⟨s.ends, by simp [Enclosing.step, hc], h.ends⟩
    case some character =>
      have hp := (List.getElem?_eq_some_iff.mp hc).choose
      refine .inl ?_
      by_cases hescape : character = ('\\' : Char) ∧ (s.stack ≠ [] ∨ s.quotation.isSome)
      case pos =>
        refine ⟨(position + 2, s), by simp only [Enclosing.step, hc, if_pos hescape], ?_, ?_⟩
        · exact h.skip (Nat.le_add_right position 2)
        · dsimp only
          omega
      case neg =>
        refine ⟨(position + 1, s.read character position), by simp only [Enclosing.step, hc, if_neg hescape], ?_, ?_⟩
        · exact h.read hp
        · dsimp only
          omega
  · exact ⟨⟨by simp, .nil, .nil⟩, by simp, .nil, by simp [Enclosing.openings], by simp⟩

section Words

variable {text : Text} {ends : Ends} {fuel position limit start stop right : Nat}

theorem WellNested.lookup {o e : Nat} (h : WellNested text.length ends) (hl : ends.lookup o = some e) :
    o < e ∧ e ≤ text.length := by
  obtain ⟨before, after, rfl, -⟩ := List.lookup_eq_some_iff.mp hl
  exact h.bounds (o, e) (by simp)

theorem lt_skipEnclosure (h : WellNested text.length ends) (hp : position < limit) :
    position < skipEnclosure ends limit position ∧ skipEnclosure ends limit position ≤ limit := by
  unfold skipEnclosure
  cases hl : ends.lookup position
  case none   => simpa using hp
  case some e =>
    have := h.lookup hl
    simp only [Option.getD_some]
    omega

variable (fuel) in
theorem proseLexemeEnd_total (h : WellNested text.length ends) (hp : position ≤ limit)
    (hlimit : limit ≤ text.length) (hf : limit - position < fuel) :
    ∃ stop, proseLexemeEnd fuel text limit ends position = some stop ∧ position ≤ stop ∧ stop ≤ limit := by
  refine Loop.run_total (I := fun n => position ≤ n ∧ n ≤ limit) (fun n => limit - n) ?_ ⟨le_rfl, hp⟩ hf
  rintro n ⟨hle, hn⟩
  split
  case isFalse => exact .inr ⟨n, rfl, hle, hn⟩
  case isTrue hlt =>
    rw [List.getElem?_eq_getElem (by omega : n < text.length)]
    dsimp only
    split
    case isTrue  => exact .inr ⟨n, rfl, hle, hn⟩
    case isFalse =>
      refine .inl ?_
      split
      case isTrue =>
        have := lt_skipEnclosure h hlt
        exact ⟨_, rfl, by omega, by omega⟩
      case isFalse => exact ⟨_, rfl, by omega, by omega⟩

-- What does not begin with a separator is not empty.
variable (fuel) in
theorem lt_proseLexemeEnd {c : CodePoint} (h : WellNested text.length ends) (hp : position < limit)
    (hlimit : limit ≤ text.length) (hc : text[position]? = some c)
    (hword : ¬(isSpace c = true ∨ c ∈ separators)) (hf : limit - position < fuel) :
    ∃ stop, proseLexemeEnd fuel text limit ends position = some stop ∧ position < stop ∧ stop ≤ limit := by
  obtain ⟨fuel, rfl⟩ : ∃ n, fuel = n + 1 := ⟨fuel - 1, by omega⟩
  obtain ⟨next, hnext, hlt, hle⟩ : ∃ next, proseLexemeEnd (fuel + 1) text limit ends position =
      proseLexemeEnd fuel text limit ends next ∧ position < next ∧ next ≤ limit := by
    by_cases hopen : (enclosures.lookup c).isSome
    case pos =>
      refine ⟨skipEnclosure ends limit position, ?_, lt_skipEnclosure h hp⟩
      simp only [proseLexemeEnd, Loop.run, if_pos hp, hc, if_neg hword, if_pos hopen]
    case neg =>
      refine ⟨position + 1, ?_, Nat.lt_succ_self _, hp⟩
      simp only [proseLexemeEnd, Loop.run, if_pos hp, hc, if_neg hword, if_neg hopen]
  obtain ⟨stop, hs, hns, hsl⟩ := proseLexemeEnd_total fuel h hle hlimit (by omega)
  exact ⟨stop, hnext.trans hs, by omega, hsl⟩

variable (fuel) in
theorem opaqueCompoundGapEnd_total (h : WellNested text.length ends) (hp : position ≤ limit)
    (hlimit : limit ≤ text.length) (hf : limit - position < fuel) :
    ∃ stop, opaqueCompoundGapEnd fuel text limit ends position = some stop ∧ position ≤ stop ∧ stop ≤ limit := by
  refine Loop.run_total (I := fun n => position ≤ n ∧ n ≤ limit) (fun n => limit - n) ?_ ⟨le_rfl, hp⟩ hf
  rintro n ⟨hle, hn⟩
  split
  case isFalse => exact .inr ⟨n, rfl, hle, hn⟩
  case isTrue hlt =>
    rw [List.getElem?_eq_getElem (by omega : n < text.length)]
    dsimp only
    split
    case isTrue  => exact .inl ⟨_, rfl, by omega, by omega⟩
    case isFalse =>
      split
      case isTrue =>
        have := lt_skipEnclosure h hlt
        exact .inl ⟨_, rfl, by omega, by omega⟩
      case isFalse => exact .inr ⟨_, rfl, hle, hn⟩

variable (fuel) in
theorem compoundEnd_total (h : WellNested text.length ends) (hstop : stop ≤ right)
    (hright : right ≤ text.length) (hf : text.length < fuel) :
    ∃ stop', compoundEnd fuel text right ends stop = some stop' ∧ stop ≤ stop' ∧ stop' ≤ right := by
  refine Loop.run_total (I := fun n => stop ≤ n ∧ n ≤ right) (fun n => right - n) ?_ ⟨le_rfl, hstop⟩
    (by omega)
  rintro n ⟨hle, hn⟩
  obtain ⟨next, hgap, hnext, hnr⟩ := opaqueCompoundGapEnd_total fuel h hn hright (by omega)
  obtain ⟨continuation, hcont, hc, hcr⟩ := proseLexemeEnd_total fuel h hnr hright (by omega)
  simp only [hgap, hcont, Option.bind_eq_bind, Option.bind_some, Option.pure_def]
  split
  case isTrue =>
    split
    case isTrue  => exact .inr ⟨_, rfl, by omega, hcr⟩
    case isFalse => exact .inl ⟨_, rfl, by omega, by omega⟩
  case isFalse =>
    split
    case isTrue  => exact .inl ⟨_, rfl, by omega, by omega⟩
    case isFalse => exact .inr ⟨_, rfl, hle, hn⟩

theorem trimMarks_le : trimMarks text start stop ≤ stop := by
  induction stop
  case zero => exact le_rfl
  case succ stop ih =>
    rw [trimMarks]
    split
    case isTrue  => exact ih.trans (Nat.le_succ stop)
    case isFalse => exact le_rfl

theorem trimDot_le : trimDot text start stop ≤ stop := by
  unfold trimDot
  split
  case isTrue  => exact Nat.sub_le stop 1
  case isFalse => exact le_rfl

end Words

section Tokens

variable [Characters]

structure IsMailbox (text : Text) (t : MailboxToken) : Prop where
  nonempty : t.start < t.stop
  inside   : t.stop ≤ text.length
  folded   : casefold (slice text t.start t.stop) = t.address
  single   : (slice text t.start t.stop).count at' = 1
  plain    : ∀ c ∈ slice text t.start t.stop, c ∉ opaqueCharacters ∧ isSpace c = false

def MailboxToken.span (t : MailboxToken) : Nat × Nat :=
  (t.start, t.stop)

variable {text value address : Text} {ends : Ends} {start stop : Nat} {t : MailboxToken}

theorem not_space_of_normalize (h : normalizeValidatedAddress value = some address) :
    ∀ c ∈ address, isSpace c = false := by
  unfold normalizeValidatedAddress at h
  obtain ⟨⟨name, domain⟩, -, h⟩ := Option.bind_eq_some_iff.mp h
  dsimp only at h
  split at h
  case isTrue => cases h
  case isFalse hvalid =>
    intro c hc
    obtain rfl := Option.some.inj h
    have hany := (Bool.or_eq_false_iff.mp (Bool.eq_false_iff.mpr hvalid)).right
    have := List.any_eq_false.mp hany c hc
    simp only [Bool.or_eq_true, not_or, Bool.not_eq_true] at this
    exact this.left

theorem plainAddress_eq_some (hstop : stop ≤ text.length) (h : plainAddress text start stop = some t) :
    t.span = (start, stop) ∧ IsMailbox text t := by
  unfold plainAddress at h
  dsimp only at h
  split at h
  case isTrue => cases h
  case isFalse hword =>
    obtain ⟨address, haddress, h⟩ := Option.bind_eq_some_iff.mp h
    split at h
    case isFalse => cases h
    case isTrue he =>
      obtain rfl := Option.some.inj h
      have hcount : (slice text start stop).count at' = 1 := by
        by_contra hn
        exact hword (.inl hn)
      refine ⟨rfl, ?_, hstop, he.symm, hcount, fun c hc => ⟨fun hopaque => ?_, ?_⟩⟩
      · by_contra hn
        have hle : stop ≤ start := Nat.not_lt.mp hn
        rw [slice, List.drop_eq_nil_of_le ((List.length_take_le _ _).trans hle)] at hcount
        cases hcount
      · exact hword (.inr (List.any_eq_true.mpr ⟨c, hc, by simpa using hopaque⟩))
      · -- White space would be in the folded word as well, but no address has any.
        by_contra hspace
        have hfold : c ∈ casefold (slice text start stop) := by
          refine List.mem_flatMap.mpr ⟨c, hc, ?_⟩
          rw [Characters.fold_space c (by simpa using hspace)]
          exact List.mem_singleton_self c
        exact hspace (not_space_of_normalize haddress c (he ▸ hfold))

-- Two intervals that have no place in common.
def Apart (a b : Nat × Nat) : Prop :=
  a.snd ≤ b.fst ∨ b.snd ≤ a.fst

-- The tokens that have been read, the regions that are left and the part of a region that is being read.
structure Reading.Sound (text : Text) (s : Reading) (part : List (Nat × Nat)) : Prop where
  mailboxes : ∀ t ∈ s.tokens, IsMailbox text t
  begun     : ∀ r ∈ part, r.snd ≤ text.length
  regions   : ∀ r ∈ s.regions, r.snd ≤ text.length
  apart     : (part ++ s.regions ++ s.tokens.map (·.span)).Pairwise Apart

omit [Characters] in
theorem Apart.symm {x y : Nat × Nat} (h : Apart x y) : Apart y x :=
  Or.symm h

omit [Characters] in
theorem Apart.sub {a b p r : Nat} {x : Nat × Nat} (h : Apart (p, r) x) (ha : p ≤ a) (hb : b ≤ r) :
    Apart (a, b) x := by
  unfold Apart at *
  simp only at *
  omega

namespace Reading

variable {s : Reading} {a b p p' r : Nat}

theorem Sound.shrink (h : s.Sound text [(p, r)]) (hp : p ≤ p') : s.Sound text [(p', r)] where
  mailboxes := h.mailboxes
  begun     := by simpa using h.begun
  regions   := h.regions
  apart     := by
    obtain ⟨hpart, hrest⟩ := List.pairwise_cons.mp h.apart
    exact List.pairwise_cons.mpr ⟨fun x hx => (hpart x hx).sub hp le_rfl, hrest⟩

theorem Sound.region (h : s.Sound text [(p, r)]) (ha : p ≤ a) (hb : b ≤ p') (hp : p ≤ p') (hr : p' ≤ r) :
    Sound text { s with regions := (a, b) :: s.regions } [(p', r)] where
  mailboxes := h.mailboxes
  begun     := by simpa using h.begun
  regions x hx := by
    rcases List.mem_cons.mp hx with rfl | hx
    · exact hb.trans (hr.trans (h.begun (p, r) (by simp)))
    · exact h.regions x hx
  apart := by
    obtain ⟨hpart, hrest⟩ := List.pairwise_cons.mp h.apart
    refine List.pairwise_cons.mpr ⟨fun x hx => ?_, List.pairwise_cons.mpr ⟨fun x hx => ?_, hrest⟩⟩
    · rcases List.mem_cons.mp hx with rfl | hx
      · exact .inr hb
      · exact (hpart x hx).sub hp le_rfl
    · exact (hpart x hx).sub ha (hb.trans hr)

theorem Sound.token (h : s.Sound text [(p, r)]) (ht : IsMailbox text t) (ha : p ≤ t.start) (hb : t.stop ≤ p')
    (hp : p ≤ p') (hr : p' ≤ r) : Sound text { s with tokens := s.tokens ++ [t] } [(p', r)] where
  mailboxes t' ht' := by
    rcases List.mem_append.mp ht' with ht' | ht'
    · exact h.mailboxes t' ht'
    · exact List.mem_singleton.mp ht' ▸ ht
  begun    := by simpa using h.begun
  regions  := h.regions
  apart    := by
    obtain ⟨hpart, hrest⟩ := List.pairwise_cons.mp h.apart
    simp only [List.map_append, List.map_cons, List.map_nil]
    rw [← List.append_assoc]
    refine List.pairwise_append.mpr ⟨?_, List.pairwise_singleton _ _, fun x hx y hy => ?_⟩
    · exact List.pairwise_cons.mpr ⟨fun x hx => (hpart x hx).sub hp le_rfl, hrest⟩
    · rw [List.mem_singleton.mp hy]
      rcases List.mem_cons.mp hx with rfl | hx
      · exact .inr hb
      · exact ((hpart x hx).sub ha (hb.trans hr) : Apart t.span x).symm

-- What a word is made into stays within the word.
theorem Sound.word (h : s.Sound text [(p, r)]) (hb : b ≤ p') (hp : p ≤ p') (hr : p' ≤ r) :
    Sound text (s.word text ends p b) [(p', r)] := by
  have hlength : r ≤ text.length := h.begun (p, r) (by simp)
  have hplain (start stop : Nat) (hstart : p ≤ start) (hstop : stop ≤ p') :
      Sound text { s with tokens := s.tokens ++ (plainAddress text start stop).toList } [(p', r)] := by
    cases ht : plainAddress text start stop
    case none   => simpa using h.shrink hp
    case some t =>
      obtain ⟨hspan, hmailbox⟩ := plainAddress_eq_some (hstop.trans (hr.trans hlength)) ht
      obtain ⟨rfl, rfl⟩ := Prod.mk.inj hspan
      exact h.token hmailbox hstart hstop hp hr
  unfold Reading.word
  dsimp only
  split
  case isFalse => exact hplain p b le_rfl hb
  case isTrue =>
    split
    case isTrue  => exact hplain (p + 1) (b - 1) (Nat.le_succ p) ((Nat.sub_le b 1).trans hb)
    case isFalse => exact h.region (Nat.le_succ p) ((Nat.sub_le b 1).trans hb) hp hr

-- What is left to be read.
def weight (s : Reading) : Nat :=
  (s.regions.map fun r => r.snd - r.fst + 1).sum

theorem weight_word (hb : b ≤ p') (hp : p < p') : (s.word text ends p b).weight ≤ s.weight + (p' - p) := by
  unfold Reading.word
  dsimp only
  split
  case isFalse => exact Nat.le_add_right _ _
  case isTrue =>
    split
    case isTrue  => exact Nat.le_add_right _ _
    case isFalse =>
      simp only [weight, List.map_cons, List.sum_cons]
      omega

variable {fuel left right : Nat}

theorem readRegion_total (hends : WellNested text.length ends) (h : s.Sound text [(left, right)])
    (hf : text.length < fuel) :
    ∃ s', readRegion fuel text ends right (left, s) = some s' ∧ s'.Sound text [] ∧
      s'.weight ≤ s.weight + (right - left) := by
  have hright : right ≤ text.length := h.begun (left, right) (by simp)
  refine Loop.run_total (I := fun x => x.snd.Sound text [(x.fst, right)] ∧
    x.snd.weight + (right - x.fst) ≤ s.weight + (right - left)) (fun x => right - x.fst) ?_ ⟨h, le_rfl⟩
    (by dsimp only; omega)
  rintro ⟨position, s⟩ ⟨h, hw⟩
  dsimp only at h hw ⊢
  split
  case isFalse =>
    refine .inr ⟨s, rfl, ⟨h.mailboxes, by simp, h.regions, (List.pairwise_cons.mp h.apart).right⟩, by omega⟩
  case isTrue hlt =>
    refine .inl ?_
    have hc := List.getElem?_eq_getElem (by omega : position < text.length)
    simp only [hc, Option.bind_eq_bind, Option.bind_some, Option.pure_def]
    split
    case isTrue =>
      exact ⟨(position + 1, s), rfl, ⟨h.shrink (Nat.le_succ _), by dsimp only; omega⟩, by dsimp only; omega⟩
    case isFalse hword =>
      obtain ⟨stop, hlexeme, hstop, hsr⟩ := lt_proseLexemeEnd fuel hends hlt hright hc hword (by omega)
      obtain ⟨stop', hcompound, hstop', hsr'⟩ := compoundEnd_total fuel hends hsr hright hf
      have hb : trimDot text position (trimMarks text position stop') ≤ stop' := trimDot_le.trans trimMarks_le
      have hweight : (s.word text ends position _).weight ≤ s.weight + (stop' - position) :=
        weight_word hb (by omega)
      simp only [hlexeme, hcompound, Option.bind_some]
      refine ⟨(stop', _), rfl, ⟨h.word hb (by omega) hsr', ?_⟩, ?_⟩
      · dsimp only
        omega
      · dsimp only
        omega

variable (fuel) in
theorem readRegions_total (hends : WellNested text.length ends) (h : s.Sound text [])
    (hf : text.length < fuel) (hw : s.weight < fuel) :
    ∃ tokens, readRegions fuel text ends s = some tokens ∧ (∀ t ∈ tokens, IsMailbox text t) ∧
      (tokens.map (·.span)).Pairwise Apart := by
  refine Loop.run_total (I := fun s => s.Sound text []) Reading.weight ?_ h hw
  intro s h
  cases hr : s.regions
  case nil =>
    refine .inr ⟨s.tokens, rfl, h.mailboxes, ?_⟩
    simpa [hr] using h.apart
  case cons region regions =>
    obtain ⟨left, right⟩ := region
    have hrest : Sound text { s with regions } [(left, right)] := by
      have hregions := h.regions
      have hapart := h.apart
      rw [hr] at hregions hapart
      exact ⟨h.mailboxes, by simpa using hregions (left, right) (by simp),
        fun r hm => hregions r (by simp [hm]), hapart⟩
    obtain ⟨s', hs', h', hweight⟩ := readRegion_total hends hrest hf
    refine .inl ⟨s', by simp only [hs', Option.map_some], h', ?_⟩
    simp only [weight, hr, List.map_cons, List.sum_cons] at hweight ⊢
    omega

end Reading

section Fuel

variable {fuel fuel' limit position : Nat} {tokens : List MailboxToken}

omit [Characters] in
theorem compoundEnd_mono (hf : fuel ≤ fuel') (h : compoundEnd fuel text limit ends position = some stop) :
    compoundEnd fuel' text limit ends position = some stop := by
  refine Loop.run_mono (fun position x hx => ?_) hf h
  simp only [Option.bind_eq_bind, Option.bind_eq_some_iff] at hx ⊢
  obtain ⟨next, hgap, hx⟩ := hx
  refine ⟨next, Loop.run_mono (fun _ _ h => h) hf hgap, ?_⟩
  split at hx
  case isFalse hn => simpa only [if_neg hn] using hx
  case isTrue hc  =>
    obtain ⟨continuation, hlexeme, hx⟩ := Option.bind_eq_some_iff.mp hx
    rw [if_pos hc]
    exact Option.bind_eq_some_iff.mpr ⟨continuation, Loop.run_mono (fun _ _ h => h) hf hlexeme, hx⟩

theorem readRegion_mono {s s' : Reading} (hf : fuel ≤ fuel')
    (h : readRegion fuel text ends limit (position, s) = some s') :
    readRegion fuel' text ends limit (position, s) = some s' := by
  refine Loop.run_mono (fun x y hy => ?_) hf h
  obtain ⟨position, s⟩ := x
  dsimp only at hy ⊢
  split at hy
  case isFalse hn => simpa only [if_neg hn] using hy
  case isTrue hlt =>
    rw [if_pos hlt]
    obtain ⟨c, hc, hy⟩ := Option.bind_eq_some_iff.mp hy
    refine Option.bind_eq_some_iff.mpr ⟨c, hc, ?_⟩
    split at hy
    case isTrue hspace => rwa [if_pos hspace]
    case isFalse hword =>
      rw [if_neg hword]
      obtain ⟨stop, hlexeme, hy⟩ := Option.bind_eq_some_iff.mp hy
      obtain ⟨stop', hcompound, hy⟩ := Option.bind_eq_some_iff.mp hy
      exact Option.bind_eq_some_iff.mpr ⟨stop, Loop.run_mono (fun _ _ h => h) hf hlexeme,
        Option.bind_eq_some_iff.mpr ⟨stop', compoundEnd_mono hf hcompound, hy⟩⟩

theorem proseMailboxTokensWithin_mono (hf : fuel ≤ fuel')
    (h : proseMailboxTokensWithin fuel text = some tokens) :
    proseMailboxTokensWithin fuel' text = some tokens := by
  obtain ⟨ends, hends, h⟩ := Option.bind_eq_some_iff.mp h
  refine Option.bind_eq_some_iff.mpr ⟨ends, Loop.run_mono (fun _ _ h => h) hf hends, ?_⟩
  refine Loop.run_mono (fun s x hx => ?_) hf h
  split at hx
  case h_1 => exact hx
  case h_2 left right regions hs =>
    obtain ⟨s', hs', hx⟩ := Option.map_eq_some_iff.mp hx
    exact Option.map_eq_some_iff.mpr ⟨s', readRegion_mono hf hs', hx⟩

end Fuel

-- The tokens, for which the length of the text is fuel enough.
def proseMailboxTokens (text : Text) : List MailboxToken :=
  (proseMailboxTokensWithin (text.length + 2) text).getD []

-- The reading of a text ends: from some fuel on the tokens are the same. They are mailboxes of the text,
-- and the enclosures that they are read by are well nested.
theorem prose_tokens_faithful (text : Text) :
    ∃ ends tokens, (∀ fuel, text.length + 2 ≤ fuel → proseEnclosureEnds fuel text = some ends ∧
        proseMailboxTokensWithin fuel text = some tokens) ∧
      proseMailboxTokens text = tokens ∧ WellNested text.length ends ∧
      (∀ t ∈ tokens, IsMailbox text t) ∧ (tokens.map (·.span)).Pairwise Apart := by
  have hfuel : text.length < text.length + 2 := by omega
  obtain ⟨ends, hends, hnested⟩ := proseEnclosureEnds_total (text.length + 2) hfuel
  have hstart : Reading.Sound text ⟨[(0, text.length)], []⟩ [] :=
    ⟨by simp, by simp, by simp, List.pairwise_singleton _ _⟩
  have hweight : Reading.weight ⟨[(0, text.length)], []⟩ < text.length + 2 := by simp [Reading.weight]
  obtain ⟨tokens, hread, hmailboxes, hapart⟩ :=
    Reading.readRegions_total (text.length + 2) hnested hstart hfuel hweight
  have htokens : proseMailboxTokensWithin (text.length + 2) text = some tokens := by
    rw [proseMailboxTokensWithin, hends]
    exact hread
  refine ⟨ends, tokens, fun fuel hf => ?_, by rw [proseMailboxTokens, htokens]; rfl, hnested, hmailboxes, hapart⟩
  exact ⟨Loop.run_mono (fun _ _ h => h) hf hends, proseMailboxTokensWithin_mono hf htokens⟩

end Tokens

end Scheduling
