import EmailWatcher.Library.Base64
import EmailWatcher.Library.JsonBytes
import EmailWatcher.ThreadReads.Readers

-- The tokens of the readers: the JSON of a cursor, in base 64.
namespace ThreadReads

open Base64 (hyphen underscore)
open JsonText (Value Number Plain Writable Ascii textOf stringOf recursionLimit)
open Threads (Wire)

section Values

mutual

def valueOf : Wire → Value
  | .null           => .null
  | .bool b         => .bool b
  | .number n       => .number (.int n)
  | .string s       => .string (textOf s)
  | .array items    => .array (valuesOf items)
  | .object members => .object (membersOf members)

def valuesOf : List Wire → List Value
  | []            => []
  | item :: items => valueOf item :: valuesOf items

def membersOf : List (String × Wire) → List (Text × Value)
  | []                      => []
  | (name, item) :: members => (textOf name, valueOf item) :: membersOf members

end

-- A string without surrogates.
def asStored (text : Text) : Option String :=
  if text.any isSurrogate then none else some (stringOf text)

mutual

-- A value with neither fractions nor surrogates, and with no name twice in an object.
def wireOf : Value → Option Wire
  | .null             => some .null
  | .bool b           => some (.bool b)
  | .number (.int n)  => some (.number n)
  | .number (.float _) => none
  | .string text      => (asStored text).map .string
  | .array items      => (wiresOf items).map .array
  | .object members   => if (members.map Prod.fst).Nodup then (fieldsOf members).map .object else none

def wiresOf : List Value → Option (List Wire)
  | []            => some []
  | item :: items => do return (← wireOf item) :: (← wiresOf items)

def fieldsOf : List (Text × Value) → Option (List (String × Wire))
  | []                      => some []
  | (name, item) :: members => do return (← asStored name, ← wireOf item) :: (← fieldsOf members)

end

end Values

section Source

-- `_json`
def json (w : Wire) : Octets :=
  Octets.utf8 (JsonText.dumps false (valueOf w))

-- `base64.urlsafe_b64encode(_json(value)).decode()`
def encodeToken (w : Wire) : String :=
  stringOf (Base64.encode hyphen underscore (json w))

-- `_decode_json_bytes`. What cannot be a member of a cursor is left out.
def decodeJsonBytes (raw : Octets) : Option Wire := do
  let text ← Octets.decodeStrict raw
  wireOf (← (JsonText.loads recursionLimit text).toOption)

-- A token is ASCII and the canonical base64 of its bytes.
def decodeToken (token : String) : Option Wire := do
  let text := textOf token
  if text.all (·.val < 0x80) then
    let raw ← Base64.b64decode hyphen underscore text
    if Base64.encode hyphen underscore raw = text then decodeJsonBytes raw else none
  else none

end Source

section Digests

-- What `hexdigest` gives.
def IsDigest (text : String) : Prop :=
  text.length = 64 ∧ text.toList.all isLowerHex

variable {s : String}

theorem lowerHex_textOf (h : IsDigest s) {c : CodePoint} (hc : c ∈ textOf s) :
    0x30 ≤ c.val ∧ c.val ≤ 0x39 ∨ 0x61 ≤ c.val ∧ c.val ≤ 0x66 := by
  rw [JsonText.textOf_eq] at hc
  obtain ⟨x, hx, rfl⟩ := List.mem_map.mp hc
  have hhex := List.all_eq_true.mp h.right x hx
  simp only [isLowerHex, Bool.or_eq_true, Bool.and_eq_true, decide_eq_true_eq, Char.le_def, UInt32.le_iff_toNat_le] at hhex
  have hval : (Fin.ofNat 0x110000 x.toNat : CodePoint).val = x.toNat := by
    refine Nat.mod_eq_of_lt ?_
    have hn : x.toNat = x.val.toNat := rfl
    obtain h | h := hhex <;> exact Nat.lt_of_le_of_lt (hn ▸ h.right) (by decide)
  rw [hval]
  exact hhex

-- A digest is not escaped.
theorem escape_digest (ascii : Bool) (h : IsDigest s) : (textOf s).flatMap (JsonText.escapeChar ascii) = textOf s := by
  refine (List.flatMap_congr fun c hc => ?_).trans (List.flatMap_singleton' _)
  have hhex := lowerHex_textOf h hc
  have hletters : JsonText.letters.lookup c = none := by
    have hnone : ∀ p ∈ JsonText.letters, ¬(0x30 ≤ p.fst.val ∧ p.fst.val ≤ 0x39 ∨ 0x61 ≤ p.fst.val ∧ p.fst.val ≤ 0x66) := by
      simp only [JsonText.letters, List.forall_mem_cons, List.not_mem_nil, false_implies, implies_true]
      decide
    refine List.lookup_eq_none_iff.mpr fun p hp => ?_
    refine bne_iff_ne.mpr fun he => hnone p hp ?_
    rw [← he]
    exact hhex
  rw [JsonText.escapeChar, if_neg (by omega), hletters]
  simp only [if_neg (show ¬c.val < 0x20 by omega), decide_eq_true (show c.val < 0x7f by omega), Bool.true_or, if_true]

end Digests

section Tokens

variable {c : Cursor}

structure Cursor.Digests (c : Cursor) : Prop where
  selector : IsDigest c.selector
  revision : IsDigest c.revision
  last     : IsDigest c.last

-- The members of a cursor, as they are written.
def Cursor.members (c : Cursor) : List (Text × Value) :=
  [(textOf "last", .string (textOf c.last)), (textOf "revision", .string (textOf c.revision)),
    (textOf "selector", .string (textOf c.selector)), (textOf "version", .number (.int 1))]

theorem members_sorted (c : Cursor) : (c.members.map Prod.fst).Pairwise (· < ·) := by
  change [textOf "last", textOf "revision", textOf "selector", textOf "version"].Pairwise (· < ·)
  decide

theorem writable_members (c : Cursor) : Writable recursionLimit (.object c.members) := by
  refine .object (members_sorted c) ?_ ?_
  · simp only [Cursor.members, List.forall_mem_cons, List.not_mem_nil, false_implies, implies_true, and_true]
    exact ⟨JsonText.plain_textOf _, JsonText.plain_textOf _, JsonText.plain_textOf _, JsonText.plain_textOf _⟩
  · simp only [Cursor.members, List.forall_mem_cons, List.not_mem_nil, false_implies, implies_true, and_true]
    exact ⟨.string (JsonText.plain_textOf _), .string (JsonText.plain_textOf _), .string (JsonText.plain_textOf _),
      .int (by decide)⟩

-- The order of the members does not count.
theorem dumps_dict (ascii : Bool) (c : Cursor) :
    JsonText.dumps ascii (valueOf c.dict) = JsonText.dumps ascii (.object c.members) := by
  have h₁ : ¬textOf "version" ≤ textOf "selector" := by decide
  have h₂ : ¬textOf "version" ≤ textOf "revision" := by decide
  have h₃ : ¬textOf "version" ≤ textOf "last" := by decide
  have h₄ : ¬textOf "selector" ≤ textOf "revision" := by decide
  have h₅ : ¬textOf "selector" ≤ textOf "last" := by decide
  have h₆ : ¬textOf "revision" ≤ textOf "last" := by decide
  rw [JsonText.dumps_object (members_sorted c)]
  simp only [Cursor.dict, valueOf, membersOf, JsonText.dumps, JsonText.dumpsMembers, JsonText.writeObject,
    List.insertionSort_cons, List.insertionSort_nil, List.orderedInsert_cons, List.orderedInsert_nil, h₁, h₂, h₃, h₄, h₅, h₆, if_false]
  rfl

-- Nor does `ensure_ascii`.
theorem dumps_members (h : c.Digests) :
    JsonText.dumps false (.object c.members) = JsonText.dumps true (.object c.members) := by
  have hname : ∀ name ∈ [textOf "last", textOf "revision", textOf "selector", textOf "version"],
      name.flatMap (JsonText.escapeChar false) = name.flatMap (JsonText.escapeChar true) := by
    decide
  simp only [List.forall_mem_cons] at hname
  rw [JsonText.dumps_object (members_sorted c), JsonText.dumps_object (members_sorted c)]
  simp only [Cursor.members, List.map_cons, List.map_nil, JsonText.writeMember, JsonText.dumps, JsonText.writeString,
    hname, escape_digest _ h.last, escape_digest _ h.revision, escape_digest _ h.selector]

theorem length_dumps (h : c.Digests) : (JsonText.dumps true (.object c.members)).length = 243 := by
  have hname : (textOf "last").flatMap (JsonText.escapeChar true) = textOf "last" ∧
      (textOf "revision").flatMap (JsonText.escapeChar true) = textOf "revision" ∧
      (textOf "selector").flatMap (JsonText.escapeChar true) = textOf "selector" ∧
      (textOf "version").flatMap (JsonText.escapeChar true) = textOf "version" := by
    decide
  have hone : (JsonText.writeInt 1).length = 1 := by decide
  obtain ⟨h₁, h₂, h₃, h₄⟩ := hname
  have hlen : ∀ s, IsDigest s → (textOf s).length = 64 := fun s hs => by rw [JsonText.length_textOf, hs.left]
  have hn : (textOf "last").length = 4 ∧ (textOf "revision").length = 8 ∧ (textOf "selector").length = 8 ∧
      (textOf "version").length = 7 := by decide
  rw [JsonText.dumps_object (members_sorted c)]
  simp only [Cursor.members, List.map_cons, List.map_nil, List.intercalate_cons_cons, List.intercalate_singleton,
    JsonText.writeMember, JsonText.dumps, JsonText.writeNumber, JsonText.writeString, h₁, h₂, h₃, h₄,
    escape_digest _ h.last, escape_digest _ h.revision, escape_digest _ h.selector, List.length_append,
    List.length_cons, List.length_nil, hlen _ h.last, hlen _ h.revision, hlen _ h.selector, hn, hone]

theorem utf8_ascii {text : Text} (h : Ascii text) : Octets.utf8 text = JsonText.encodeAscii text := by
  rw [Octets.utf8, JsonText.encodeAscii]
  refine (List.flatMap_congr fun c hc => ?_).trans (List.map_eq_flatMap ..).symm
  rw [Octets.utf8Char, if_pos (by have := h c hc; omega)]

theorem json_dict (h : c.Digests) : json c.dict = Octets.utf8 (JsonText.dumps true (.object c.members)) := by
  rw [json, dumps_dict, dumps_members h]

theorem length_json (h : c.Digests) : (json c.dict).length = 243 := by
  rw [json_dict h, utf8_ascii (JsonText.ascii_dumps (writable_members c)), JsonText.encodeAscii, List.length_map,
    length_dumps h]

theorem decodeJsonBytes_json (h : c.Digests) :
    decodeJsonBytes (json c.dict) = some (.object [("last", .string c.last), ("revision", .string c.revision),
      ("selector", .string c.selector), ("version", .number 1)]) := by
  have hplain : Plain (JsonText.dumps true (.object c.members)) := by
    intro x hx
    have := JsonText.ascii_dumps (writable_members c) x hx
    simp only [isSurrogate, Bool.and_eq_false_iff, decide_eq_false_iff_not]
    omega
  have hscan : Octets.decodeStrict (json c.dict) = some (JsonText.dumps true (.object c.members)) := by
    rw [json_dict h, Octets.decodeStrict, Octets.scan_utf8 hplain]
    exact Base64.mapM_eq_some (f := id) (fun _ => rfl) _
  have hstored : ∀ s : String, asStored (textOf s) = some s := by
    intro s
    have hs := List.any_eq_false.mpr fun x hx => Bool.eq_false_iff.mp (JsonText.plain_textOf s x hx)
    rw [asStored, hs, JsonText.stringOf_textOf]
    rfl
  have hnames : [textOf "last", textOf "revision", textOf "selector", textOf "version"].Nodup := by decide
  rw [decodeJsonBytes, hscan, Option.bind_eq_bind, Option.bind_some, JsonText.loads_dumps true (writable_members c)]
  simp only [Except.toOption, Option.bind_eq_bind, Option.bind_some, Cursor.members, wireOf, List.map_cons, List.map_nil,
    hnames, if_true, fieldsOf, hstored, Option.map_some, Option.pure_def]

theorem length_encodeToken (h : c.Digests) : (encodeToken c.dict).length = 324 := by
  rw [encodeToken, JsonText.length_stringOf, Base64.encode, List.length_append, List.length_map, Base64.length_sextets,
    Base64.padding, List.length_replicate, length_json h]

theorem plain_encode (bytes : Octets) : ∀ x ∈ Base64.encode hyphen underscore bytes, x.val < 0x80 := by
  intro x hx
  rw [Base64.encode, Base64.padding] at hx
  have hdigit : ∀ i, (Base64.digit hyphen underscore i).val < 0x80 := by decide
  obtain hx | hx := List.mem_append.mp hx
  · obtain ⟨i, -, rfl⟩ := List.mem_map.mp hx
    exact hdigit i
  · rw [List.eq_of_mem_replicate hx]
    decide

theorem decodeToken_encodeToken (h : c.Digests) :
    decodeToken (encodeToken c.dict) = some (.object [("last", .string c.last), ("revision", .string c.revision),
      ("selector", .string c.selector), ("version", .number 1)]) := by
  have hascii := plain_encode (json c.dict)
  have htext : textOf (encodeToken c.dict) = Base64.encode hyphen underscore (json c.dict) := by
    refine JsonText.textOf_stringOf fun x hx => ?_
    have := hascii x hx
    simp only [isSurrogate, Bool.and_eq_false_iff, decide_eq_false_iff_not]
    omega
  have hdecode := Base64.b64decode_encode Base64.apart_urlsafe (json c.dict)
  rw [Base64.encode_eq Base64.apart_urlsafe] at hdecode
  simp only [decodeToken, htext]
  rw [if_pos (List.all_eq_true.mpr fun x hx => decide_eq_true (hascii x hx)), hdecode, Option.bind_eq_bind, Option.bind_some,
    if_pos rfl, decodeJsonBytes_json h]

end Tokens

end ThreadReads
