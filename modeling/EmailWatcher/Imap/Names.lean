import EmailWatcher.Library.Base64
import EmailWatcher.Library.Escapes
import Mathlib.Data.Finset.Dedup

-- The names of folders, as they are sent to a mail server and as it lists them.
namespace Imap

open Octets (quote backslash opening closing blank newline utf8 decodeReplace decodeAscii)

section MailboxNames

def ampersand : CodePoint :=
  '&'

def hyphen : CodePoint :=
  '-'

def plus : CodePoint :=
  '+'

def slash : CodePoint :=
  '/'

def comma : CodePoint :=
  ','

def printable (c : CodePoint) : Bool :=
  0x20 ≤ c.val && c.val ≤ 0x7e

-- What has been written of a name, and the run of characters that wait.
structure Encoder where
  out : Text
  run : Text

-- `flush`, which fails at a surrogate.
def Encoder.flush (e : Encoder) : Option Encoder := do
  if e.run = [] then return e
  let raw := Base64.encode plus slash (← Octets.utf16 e.run)
  return ⟨e.out ++ ampersand :: Escapes.replace [slash] [comma] (Base64.rstrip raw) ++ [hyphen], []⟩

def Encoder.step (e : Encoder) (character : CodePoint) : Option Encoder := do
  if character = ampersand then
    let e ← e.flush
    return { e with out := e.out ++ [ampersand, hyphen] }
  else if printable character then
    let e ← e.flush
    return { e with out := e.out ++ [character] }
  else
    return { e with run := e.run ++ [character] }

-- `_encode_mailbox_name`
def encodeMailboxName (name : Text) : Option Text := do
  let e ← (← name.foldlM Encoder.step ⟨[], []⟩).flush
  return e.out

-- A decoder of the modified UTF-7 of RFC 3501: what stands between an ampersand and a hyphen.
def unshift (run : Text) : Option Text := do
  if run = [] then return [ampersand]
  let digits ← run.mapM (Base64.value plus comma)
  let text ← Octets.decodeUtf16 (← Base64.octets digits)
  if text.any printable then none else return text

-- The characters behind an ampersand wait for the hyphen.
def decodeFrom : Option Text → Text → Option Text
  | none,     []      => some []
  | some _,   []      => none
  | none,     c :: cs =>
    if c = ampersand then decodeFrom (some []) cs
    else if printable c then (decodeFrom none cs).map (c :: ·)
    else none
  | some run, c :: cs =>
    if c = hyphen then do return (← unshift run) ++ (← decodeFrom none cs)
    else decodeFrom (some (run ++ [c])) cs

def decodeMailboxName (wire : Text) : Option Text :=
  decodeFrom none wire

variable {e e' : Encoder} {cs run digits : Text} {bytes : Octets}

-- The digit that is sent.
def wireDigit (i : Base64.Sextet) : CodePoint :=
  if Base64.digit plus slash i = slash then comma else Base64.digit plus slash i

theorem digit_ne_pad : ∀ i, Base64.digit plus slash i ≠ Base64.pad := by
  decide

theorem printable_wireDigit : ∀ i, printable (wireDigit i) := by
  decide

theorem wireDigit_ne_hyphen : ∀ i, wireDigit i ≠ hyphen := by
  decide

theorem value_wireDigit : ∀ i, Base64.value plus comma (wireDigit i) = some i := by
  decide

theorem replace_rstrip_encode (bytes : Octets) :
    Escapes.replace [slash] [comma] (Base64.rstrip (Base64.encode plus slash bytes)) =
      (Base64.sextets bytes).map wireDigit := by
  have hpad : Base64.pad ∉ (Base64.sextets bytes).map (Base64.digit plus slash) := by
    intro h
    obtain ⟨i, -, hi⟩ := List.mem_map.mp h
    exact digit_ne_pad i hi
  rw [Base64.encode, Base64.padding, Base64.rstrip_append hpad, Escapes.replace_singleton, List.flatMap_map]
  induction Base64.sextets bytes
  case nil          => rfl
  case cons i is ih =>
    rw [List.flatMap_cons, List.map_cons, ih, wireDigit]
    split <;> rfl

theorem mapM_value (digits : List Base64.Sextet) :
    (digits.map wireDigit).mapM (Base64.value plus comma) = some digits := by
  induction digits
  case nil          => rfl
  case cons i is ih => simp [List.mapM_cons, value_wireDigit, ih]

-- The decoder undoes the shift of a run.
theorem unshift_run (hrun : run ≠ []) (hplain : ∀ c ∈ run, printable c = false) (h : Octets.utf16 run = some bytes) :
    unshift ((Base64.sextets bytes).map wireDigit) = some run := by
  have hdecode := Octets.decodeUtf16_utf16 h
  have hoctets := Base64.octets_sextets bytes
  have hdigits : (Base64.sextets bytes).map wireDigit ≠ [] := by
    intro hnil
    rw [List.map_eq_nil_iff.mp hnil] at hoctets
    cases hoctets
    cases hdecode
    exact hrun rfl
  rw [unshift, if_neg hdigits]
  simp only [mapM_value, hoctets, hdecode, Option.pure_def, Option.bind_eq_bind, Option.bind_some]
  exact if_neg (by simpa using hplain)

theorem decodeFrom_digits (h : hyphen ∉ digits) : decodeFrom (some run) (digits ++ hyphen :: cs) =
    (unshift (run ++ digits)).bind fun text => (decodeFrom none cs).map (text ++ ·) := by
  induction digits generalizing run
  case nil          =>
    rw [List.nil_append, List.append_nil, decodeFrom, if_pos rfl]
    cases unshift run <;> cases decodeFrom none cs <;> rfl
  case cons d ds ih =>
    obtain ⟨hd, hds⟩ := not_or.mp (mt List.mem_cons.mpr h)
    rw [List.cons_append, decodeFrom, if_neg (Ne.symm hd), ih hds, List.append_assoc, List.singleton_append]

theorem flush_eq_some (h : e.flush = some e') : e'.run = [] ∧ ∃ wire, e'.out = e.out ++ wire ∧
    (∀ c ∈ wire, printable c) ∧ ((∀ c ∈ e.run, printable c = false) → ∀ cs,
      decodeFrom none (wire ++ cs) = (decodeFrom none cs).map (e.run ++ ·)) := by
  rw [Encoder.flush] at h
  split at h
  case isTrue hrun  =>
    cases h
    refine ⟨hrun, [], (List.append_nil _).symm, fun c hc => absurd hc List.not_mem_nil, fun _ cs => ?_⟩
    rw [hrun, List.nil_append]
    cases decodeFrom none cs <;> rfl
  case isFalse hrun =>
    obtain ⟨bytes, hbytes, h⟩ := Option.bind_eq_some_iff.mp h
    cases h
    rw [replace_rstrip_encode]
    refine ⟨rfl, ampersand :: (Base64.sextets bytes).map wireDigit ++ [hyphen], by simp, ?_, ?_⟩
    · intro c hc
      obtain (rfl | hc) | hc : (c = ampersand ∨ c ∈ (Base64.sextets bytes).map wireDigit) ∨ c = hyphen := by
        simpa [or_assoc] using hc
      · decide
      · obtain ⟨i, -, rfl⟩ := List.mem_map.mp hc
        exact printable_wireDigit i
      · rw [hc]
        decide
    · intro hplain cs
      have hhyphen : hyphen ∉ (Base64.sextets bytes).map wireDigit := by
        intro hmem
        obtain ⟨i, -, hi⟩ := List.mem_map.mp hmem
        exact wireDigit_ne_hyphen i hi
      rw [List.append_assoc, List.singleton_append, List.cons_append, decodeFrom, if_pos rfl,
        decodeFrom_digits hhyphen, List.nil_append, unshift_run hrun hplain hbytes]
      rfl

-- What waits and what comes is what the decoder finds in what is still written.
theorem decodeFrom_encode (hrun : ∀ c ∈ e.run, printable c = false)
    (h : (cs.foldlM Encoder.step e).bind Encoder.flush = some e') :
    ∃ wire, e'.out = e.out ++ wire ∧ (∀ c ∈ wire, printable c) ∧ decodeFrom none wire = some (e.run ++ cs) := by
  induction cs generalizing e
  case nil          =>
    obtain ⟨-, wire, hout, hprintable, hdecode⟩ := flush_eq_some h
    have hdecode := hdecode hrun []
    rw [List.append_nil] at hdecode
    exact ⟨wire, hout, hprintable, hdecode⟩
  case cons c cs ih =>
    rw [List.foldlM_cons, Option.bind_eq_bind, Option.bind_assoc] at h
    obtain ⟨e₁, hstep, h⟩ := Option.bind_eq_some_iff.mp h
    rw [Encoder.step] at hstep
    split at hstep
    case isTrue hc  =>
      obtain ⟨e₀, hflush, hstep⟩ := Option.bind_eq_some_iff.mp hstep
      cases hstep
      obtain ⟨hempty, wire₀, hout₀, hprintable₀, hdecode₀⟩ := flush_eq_some hflush
      obtain ⟨wire, hout, hprintable, hdecode⟩ := ih (by simp [hempty]) h
      refine ⟨wire₀ ++ ampersand :: hyphen :: wire, by simp [hout, hout₀], ?_, ?_⟩
      · intro d hd
        obtain hd | rfl | rfl | hd : d ∈ wire₀ ∨ d = ampersand ∨ d = hyphen ∨ d ∈ wire := by simpa using hd
        · exact hprintable₀ d hd
        · decide
        · decide
        · exact hprintable d hd
      · rw [hdecode₀ hrun, decodeFrom, if_pos rfl, decodeFrom, if_pos rfl, hdecode]
        simp [unshift, hempty, hc]
    case isFalse hc =>
      split at hstep
      case isTrue hprint  =>
        obtain ⟨e₀, hflush, hstep⟩ := Option.bind_eq_some_iff.mp hstep
        cases hstep
        obtain ⟨hempty, wire₀, hout₀, hprintable₀, hdecode₀⟩ := flush_eq_some hflush
        obtain ⟨wire, hout, hprintable, hdecode⟩ := ih (by simp [hempty]) h
        refine ⟨wire₀ ++ c :: wire, by simp [hout, hout₀], ?_, ?_⟩
        · intro d hd
          obtain hd | rfl | hd : d ∈ wire₀ ∨ d = c ∨ d ∈ wire := by simpa using hd
          · exact hprintable₀ d hd
          · exact hprint
          · exact hprintable d hd
        · rw [hdecode₀ hrun, decodeFrom, if_neg hc, if_pos hprint, hdecode]
          simp [hempty]
      case isFalse hprint =>
        cases hstep
        have hrun' : ∀ d ∈ e.run ++ [c], printable d = false := by
          intro d hd
          obtain hd | hd := List.mem_append.mp hd
          · exact hrun d hd
          · exact List.mem_singleton.mp hd ▸ by simpa using hprint
        obtain ⟨wire, hout, hprintable, hdecode⟩ := ih hrun' h
        exact ⟨wire, hout, hprintable, by simpa using hdecode⟩

theorem flush_isSome (h : ∀ c ∈ e.run, isSurrogate c = false) : ∃ e', e.flush = some e' ∧ e'.run = [] := by
  rw [Encoder.flush]
  split
  case isTrue hrun => exact ⟨e, rfl, hrun⟩
  case isFalse     =>
    rw [Octets.utf16_eq_some h]
    exact ⟨_, rfl, rfl⟩

theorem encode_isSome (he : ∀ c ∈ e.run, isSurrogate c = false) (h : ∀ c ∈ cs, isSurrogate c = false) :
    ∃ e', (cs.foldlM Encoder.step e).bind Encoder.flush = some e' := by
  induction cs generalizing e
  case nil          =>
    obtain ⟨e', hflush, -⟩ := flush_isSome he
    exact ⟨e', hflush⟩
  case cons c cs ih =>
    obtain ⟨hc, hcs⟩ := List.forall_mem_cons.mp h
    obtain ⟨e₀, hflush, hempty⟩ := flush_isSome he
    rw [List.foldlM_cons, Option.bind_eq_bind, Option.bind_assoc, Encoder.step]
    split
    case isTrue  =>
      rw [hflush]
      exact ih (by simp [hempty]) hcs
    case isFalse =>
      split
      case isTrue  =>
        rw [hflush]
        exact ih (by simp [hempty]) hcs
      case isFalse =>
        refine ih (fun d hd => ?_) hcs
        obtain hd | hd := List.mem_append.mp hd
        · exact he d hd
        · exact List.mem_singleton.mp hd ▸ hc

theorem decode_encodeMailboxName {name wire : Text} (h : encodeMailboxName name = some wire) :
    (∀ c ∈ wire, printable c) ∧ decodeMailboxName wire = some name := by
  obtain ⟨e₀, hfold, h⟩ := Option.bind_eq_some_iff.mp h
  obtain ⟨e', hflush, hout⟩ := Option.bind_eq_some_iff.mp h
  cases hout
  obtain ⟨wire, hout, hprintable, hdecode⟩ := decodeFrom_encode (e := ⟨[], []⟩)
    (fun c hc => absurd hc List.not_mem_nil) (Option.bind_eq_some_iff.mpr ⟨e₀, hfold, hflush⟩)
  rw [List.nil_append] at hout
  exact hout ▸ ⟨hprintable, hdecode⟩

end MailboxNames

section Lists

def brace : Octet :=
  '{'

def quoteChar : CodePoint :=
  '"'

def escapeChar : CodePoint :=
  '\\'

-- `_quoted_imap_astring`
def quotedImapAstring (value : Text) : Text :=
  quoteChar :: Escapes.escape escapeChar quoteChar value ++ [quoteChar]

-- One item of a LIST response: a line, or a line that ends in the announcement of a literal and the literal.
inductive ListItem
  | line    (item : Octets)
  | literal (head literal : Octets)
  | other

-- The groups of `_LIST_LINE` that are read.
structure ListLine where
  attributes : Octets
  name       : Octets

-- `\s+`
def gap : Octets → Option Octets
  | []      => none
  | b :: bs => if Octets.isSpace b then some (bs.dropWhile Octets.isSpace) else none

-- What is behind `(?:[^"\\]|\\.)*"`, perhaps behind a backslash.
def behindQuote : Bool → Octets → Option Octets
  | _,     []      => none
  | true,  b :: bs => if b = newline then none else behindQuote false bs
  | false, b :: bs => if b = quote then some bs else behindQuote (b = backslash) bs

def delimiter (bytes : Octets) : Option Octets :=
  if bytes.head? = some quote then behindQuote false bytes.tail
  else if ("NIL" : Octets).isPrefixOf bytes then some (bytes.drop 3)
  else none

-- `_LIST_LINE.match`, of a line that has no white space around it.
def matchListLine (line : Octets) : Option ListLine := do
  let attributes := line.tail.takeWhile (· ≠ closing)
  let rest := line.tail.dropWhile (· ≠ closing)
  guard (line.head? = some opening ∧ rest ≠ [])
  let name ← gap (← delimiter (← gap rest.tail))
  guard (name ≠ [] ∧ newline ∉ name)
  return ⟨attributes, name⟩

-- `value.casefold()` of ASCII characters and replacements.
def casefold (value : Text) : Text :=
  value.map fun c => if 0x41 ≤ c.val ∧ c.val ≤ 0x5a then Octets.codePoint (c.val + 0x20) else c

def ListLine.attributeSet (l : ListLine) : Finset Text :=
  ((Octets.split l.attributes).map fun part => casefold (decodeAscii part)).toFinset

-- `prefix.rsplit(b"{", 1)[0]`
def beforeBrace (bytes : Octets) : Octets :=
  if brace ∈ bytes then (bytes.rdropWhile (· ≠ brace)).dropLast else bytes

-- `raw[1:-1]` without its escapes, of what stands in quotes.
def unquote (raw : Text) : Text :=
  if raw.head? = some quoteChar ∧ raw.getLast? = some quoteChar ∧ 2 ≤ raw.length then
    Escapes.unescape escapeChar quoteChar (Text.slice raw 1 (raw.length - 1))
  else raw

-- `_parse_list_line`
def parseListLine : ListItem → Option (Finset Text × Text)
  | .literal head literal => do
    let l ← matchListLine (Octets.strip (beforeBrace head ++ [quote, quote]))
    return (l.attributeSet, decodeReplace literal)
  | .line item            => do
    let l ← matchListLine (Octets.strip item)
    return (l.attributeSet, unquote (Text.strip (decodeReplace l.name)))
  | .other                => none

section Lines

variable {name : Text} {bytes xs : Octets}

-- A flag of a folder: neither white space nor a closing parenthesis is in it.
structure Attribute where
  bytes    : Octets
  nonempty : bytes ≠ []
  plain    : ∀ b ∈ bytes, Octets.isSpace b = false ∧ b ≠ closing

-- The hierarchy delimiter of a folder.
inductive Delimiter
  | nil
  | quoted (text : Octets)

def Delimiter.print : Delimiter → Octets
  | nil         => ("NIL" : Octets)
  | quoted text => quote :: Escapes.escape backslash quote text ++ [quote]

-- A LIST line up to the name.
def listHead (attributes : List Attribute) (d : Delimiter) : Octets :=
  opening :: List.intercalate [blank] (attributes.map (·.bytes)) ++ closing :: blank :: d.print ++ [blank]

theorem Attribute.words (attributes : List Attribute) :
    ∀ w ∈ attributes.map (·.bytes), w ≠ [] ∧ ∀ c ∈ w, Octets.isSpace c = false := by
  intro w hw
  obtain ⟨a, -, rfl⟩ := List.mem_map.mp hw
  exact ⟨a.nonempty, fun c hc => (a.plain c hc).left⟩

theorem Attribute.unclosed (attributes : List Attribute) :
    ∀ c ∈ List.intercalate [blank] (attributes.map (·.bytes)), c ≠ closing := by
  intro c hc
  induction attributes
  case nil          => cases hc
  case cons a as ih =>
    cases as
    case nil       => exact (a.plain c (by simpa using hc)).right
    case cons b bs =>
      rw [List.map_cons, List.map_cons, List.intercalate_cons_cons] at hc
      simp only [List.mem_append, List.mem_singleton] at hc
      obtain (hc | rfl) | hc := hc
      · exact (a.plain c hc).right
      · decide
      · exact ih (by simpa using hc)

theorem behindQuote_escape (text : Octets) :
    behindQuote false (Escapes.escape backslash quote text ++ quote :: xs) = some xs := by
  have hne : backslash ≠ quote := by decide
  rw [Escapes.escape_eq hne]
  induction text
  case nil          => rw [List.flatMap_nil, List.nil_append, behindQuote, if_pos rfl]
  case cons b bs ih =>
    rw [List.flatMap_cons, Escapes.escaped, List.append_assoc]
    split
    case isTrue hb  =>
      have hline : b ≠ newline := by
        rintro rfl
        exact absurd hb (by decide)
      rw [List.cons_append, List.cons_append, List.nil_append, behindQuote, if_neg hne, decide_eq_true rfl, behindQuote,
        if_neg hline, ih]
    case isFalse hb =>
      obtain ⟨hslash, hquote⟩ := not_or.mp hb
      rw [List.cons_append, List.nil_append, behindQuote, if_neg hquote, decide_eq_false hslash, ih]

theorem delimiter_print (d : Delimiter) : delimiter (d.print ++ xs) = some xs := by
  cases d
  case nil         => rfl
  case quoted text =>
    refine (if_pos rfl).trans ?_
    rw [Delimiter.print, List.cons_append, List.cons_append, List.append_assoc]
    exact behindQuote_escape text

theorem gap_blank {b : Octet} (hb : Octets.isSpace b = false) : gap (blank :: b :: xs) = some (b :: xs) := by
  rw [gap, if_pos (by decide), List.dropWhile_cons_of_neg (by simp [hb])]

theorem Delimiter.print_eq (d : Delimiter) : ∃ b bs, d.print = b :: bs ∧ Octets.isSpace b = false := by
  cases d
  case nil         => exact ⟨'N', ("IL" : Octets), rfl, by decide⟩
  case quoted text => exact ⟨quote, _, rfl, by decide⟩

theorem matchListLine_listHead {b : Octet} (attributes : List Attribute) (d : Delimiter) (hb : Octets.isSpace b = false)
    (hline : newline ∉ b :: xs) : matchListLine (listHead attributes d ++ b :: xs) =
      some ⟨List.intercalate [blank] (attributes.map (·.bytes)), b :: xs⟩ := by
  obtain ⟨c, cs, hprint, hc⟩ := d.print_eq
  have hplain : ∀ x ∈ List.intercalate [blank] (attributes.map (·.bytes)), decide (x ≠ closing) = true :=
    fun x hx => decide_eq_true (Attribute.unclosed attributes x hx)
  have hgap : gap (blank :: (d.print ++ blank :: b :: xs)) = some (d.print ++ blank :: b :: xs) := by
    rw [hprint]
    exact gap_blank hc
  have hhead : listHead attributes d ++ b :: xs = opening ::
      (List.intercalate [blank] (attributes.map (·.bytes)) ++ closing :: (blank :: (d.print ++ blank :: b :: xs))) := by
    simp [listHead]
  have htake : (List.intercalate [blank] (attributes.map (·.bytes)) ++
      closing :: blank :: (d.print ++ blank :: b :: xs)).takeWhile (· ≠ closing) =
      List.intercalate [blank] (attributes.map (·.bytes)) := by
    rw [List.takeWhile_append_of_pos hplain, List.takeWhile_cons_of_neg (by simp), List.append_nil]
  have hdrop : (List.intercalate [blank] (attributes.map (·.bytes)) ++
      closing :: blank :: (d.print ++ blank :: b :: xs)).dropWhile (· ≠ closing) =
      closing :: blank :: (d.print ++ blank :: b :: xs) := by
    rw [List.dropWhile_append_of_pos hplain, List.dropWhile_cons_of_neg (by simp)]
  rw [hhead, matchListLine]
  simp only [List.head?_cons, List.tail_cons, htake, hdrop, hgap, delimiter_print, gap_blank hb, Option.bind_eq_bind,
    Option.bind_some]
  simp [guard, hline]

def lineFeed : CodePoint :=
  '\n'

theorem utf8_quotedImapAstring (name : Text) : utf8 (quotedImapAstring name) =
    quote :: utf8 (Escapes.escape escapeChar quoteChar name) ++ [quote] := by
  have hquote : Octets.utf8Char quoteChar = [quote] := by decide
  simp [utf8, quotedImapAstring, hquote]

theorem mem_quotedImapAstring {name : Text} {c : CodePoint} (h : c ∈ quotedImapAstring name) :
    c = quoteChar ∨ c = escapeChar ∨ c ∈ name := by
  simp only [quotedImapAstring, List.cons_append, List.mem_cons, List.mem_append, List.not_mem_nil, or_false] at h
  obtain rfl | h | rfl := h
  · exact .inl rfl
  · exact .inr (Escapes.mem_escape (by decide) h)
  · exact .inl rfl

-- The escapes put no line break in.
theorem newline_quotedImapAstring {name : Text} (h : lineFeed ∉ name) :
    newline ∉ utf8 (quotedImapAstring name) := by
  intro hmem
  obtain heq | heq | hmem := mem_quotedImapAstring (Octets.mem_utf8 (by decide) hmem)
  · exact absurd heq (by decide)
  · exact absurd heq (by decide)
  · exact h hmem

theorem unquote_quotedImapAstring (name : Text) : unquote (quotedImapAstring name) = name := by
  have hlast : (quotedImapAstring name).getLast? = some quoteChar := List.getLast?_concat
  have hslice : Text.slice (quotedImapAstring name) 1 ((quotedImapAstring name).length - 1) =
      Escapes.escape escapeChar quoteChar name := by
    simp [Text.slice, quotedImapAstring]
  rw [unquote, if_pos ⟨rfl, hlast, by simp [quotedImapAstring]⟩, hslice, Escapes.unescape_escape (by decide)]

theorem parseListLine_line {name : Text} (attributes : List Attribute) (d : Delimiter)
    (hplain : ∀ c ∈ name, isSurrogate c = false) (hline : lineFeed ∉ name) :
    parseListLine (.line (listHead attributes d ++ utf8 (quotedImapAstring name))) =
      some ((attributes.map fun a => casefold (decodeAscii a.bytes)).toFinset, name) := by
  have hstrip : Octets.strip (listHead attributes d ++ utf8 (quotedImapAstring name)) =
      listHead attributes d ++ utf8 (quotedImapAstring name) := by
    rw [utf8_quotedImapAstring, listHead, ← List.append_assoc]
    exact Text.trim_eq_self (by decide) (by decide)
  have hquoted : ∀ c ∈ quotedImapAstring name, isSurrogate c = false := by
    intro c hc
    obtain rfl | rfl | hc := mem_quotedImapAstring hc
    · decide
    · decide
    · exact hplain c hc
  have hname : Text.strip (quotedImapAstring name) = quotedImapAstring name :=
    Text.trim_eq_self (by decide) (by decide)
  have hmatch : matchListLine (listHead attributes d ++ utf8 (quotedImapAstring name)) =
      some ⟨List.intercalate [blank] (attributes.map (·.bytes)), utf8 (quotedImapAstring name)⟩ := by
    have hnewline := newline_quotedImapAstring hline
    obtain ⟨bytes, hbytes⟩ : ∃ bytes, utf8 (quotedImapAstring name) = quote :: bytes := ⟨_, utf8_quotedImapAstring name⟩
    rw [hbytes] at hnewline ⊢
    exact matchListLine_listHead attributes d (by decide) hnewline
  rw [parseListLine, hstrip, hmatch]
  simp only [Option.bind_eq_bind, Option.bind_some, Octets.decodeReplace_utf8 hquoted, hname, unquote_quotedImapAstring,
    ListLine.attributeSet, Octets.split_intercalate (b := blank) (by decide) (Attribute.words attributes), List.map_map]
  rfl

theorem beforeBrace_append {count : Octets} (h : brace ∉ count) : beforeBrace (xs ++ brace :: count) = xs := by
  have hcount : ∀ b ∈ count.reverse, decide (b ≠ brace) = true := by
    intro b hb
    refine decide_eq_true ?_
    rintro rfl
    exact h (List.mem_reverse.mp hb)
  rw [beforeBrace, if_pos (by simp), List.rdropWhile, List.reverse_append, List.reverse_cons, List.append_assoc,
    List.dropWhile_append_of_pos hcount, List.singleton_append, List.dropWhile_cons_of_neg (by simp)]
  simp

theorem parseListLine_literal {name : Text} {count : Octets} (attributes : List Attribute) (d : Delimiter)
    (hcount : brace ∉ count) (hplain : ∀ c ∈ name, isSurrogate c = false) :
    parseListLine (.literal (listHead attributes d ++ brace :: count) (utf8 name)) =
      some ((attributes.map fun a => casefold (decodeAscii a.bytes)).toFinset, name) := by
  have hstrip : Octets.strip (listHead attributes d ++ [quote, quote]) = listHead attributes d ++ [quote, quote] := by
    obtain ⟨inner, hinner⟩ : ∃ inner, inner =
        List.intercalate [blank] (attributes.map (·.bytes)) ++ closing :: blank :: d.print ++ [blank, quote] := ⟨_, rfl⟩
    have hends : ((opening :: inner ++ [quote]).dropWhile Octets.isSpace).rdropWhile Octets.isSpace =
        opening :: inner ++ [quote] := Text.trim_eq_self (by decide) (by decide)
    rw [hinner] at hends
    simpa [listHead, Octets.strip] using hends
  rw [parseListLine, beforeBrace_append hcount, hstrip, matchListLine_listHead attributes d (by decide) (by decide)]
  simp only [Option.bind_eq_bind, Option.bind_some, Octets.decodeReplace_utf8 hplain,
    ListLine.attributeSet, Octets.split_intercalate (b := blank) (by decide) (Attribute.words attributes), List.map_map]
  rfl

end Lines

end Lists

-- A name is what a decoder finds in what is sent of it, and what is found in a line that lists it, be it in quotes or
-- as a literal.
theorem folder_names_survive (name : Text) (hplain : ∀ c ∈ name, isSurrogate c = false) :
    (∃ wire, encodeMailboxName name = some wire ∧ (∀ c ∈ wire, printable c) ∧ decodeMailboxName wire = some name ∧
      ∀ name', encodeMailboxName name' = some wire → name' = name) ∧
    ∀ (attributes : List Attribute) (d : Delimiter),
      (lineFeed ∉ name →
        parseListLine (.line (listHead attributes d ++ utf8 (quotedImapAstring name))) =
          some ((attributes.map fun a => casefold (decodeAscii a.bytes)).toFinset, name)) ∧
      ∀ count, brace ∉ count →
        parseListLine (.literal (listHead attributes d ++ brace :: count) (utf8 name)) =
          some ((attributes.map fun a => casefold (decodeAscii a.bytes)).toFinset, name) := by
  refine ⟨?_, fun attributes d => ⟨parseListLine_line attributes d hplain,
    fun count hcount => parseListLine_literal attributes d hcount hplain⟩⟩
  obtain ⟨e', he⟩ := encode_isSome (e := ⟨[], []⟩) (fun c hc => absurd hc List.not_mem_nil) hplain
  obtain ⟨e₀, hfold, hflush⟩ := Option.bind_eq_some_iff.mp he
  have hwire : encodeMailboxName name = some e'.out :=
    Option.bind_eq_some_iff.mpr ⟨e₀, hfold, Option.bind_eq_some_iff.mpr ⟨e', hflush, rfl⟩⟩
  obtain ⟨hprintable, hdecode⟩ := decode_encodeMailboxName hwire
  refine ⟨e'.out, hwire, hprintable, hdecode, fun name' h => ?_⟩
  exact Option.some_injective _ ((decode_encodeMailboxName h).right.symm.trans hdecode)

section Sample

-- A name with an ampersand, a letter beyond ASCII, a quotation mark and a backslash.
def sent : Text :=
  [0x45, 0x26, 0xe9, 0x22, 0x5c]

def sentFlag : Attribute where
  bytes    := ("\\Sent" : Octets)
  nonempty := by decide +kernel
  plain    := by decide +kernel

def sentUse : Text :=
  ("\\sent" : String)

theorem folder_names_survive_sent :
    (∃ wire, encodeMailboxName sent = some wire ∧ (∀ c ∈ wire, printable c) ∧ decodeMailboxName wire = some sent) ∧
    parseListLine (.line (listHead [sentFlag] (.quoted ("/" : Octets)) ++ utf8 (quotedImapAstring sent))) =
      some ([sentUse].toFinset, sent) ∧
    parseListLine (.literal (listHead [sentFlag] .nil ++ ("\x7b21\x7d" : Octets)) (utf8 sent)) =
      some ([sentUse].toFinset, sent) := by
  have hany : sent.any isSurrogate = false := rfl
  obtain ⟨⟨wire, hwire, hprintable, hdecode, -⟩, hlists⟩ := folder_names_survive sent fun c hc =>
    Bool.eq_false_iff.mpr (List.any_eq_false.mp hany c hc)
  have hflag : decodeAscii sentFlag.bytes = (("\\Sent" : String) : Text) := by decide +kernel
  have huse : casefold (decodeAscii sentFlag.bytes) = sentUse := by
    rw [hflag]
    decide +kernel
  rw [← huse]
  refine ⟨⟨wire, hwire, hprintable, hdecode⟩, ?_, ?_⟩
  · exact (hlists [sentFlag] (.quoted ("/" : Octets))).left (by decide +kernel)
  · exact (hlists [sentFlag] .nil).right ("21\x7d" : Octets) (by decide +kernel)

end Sample

end Imap
