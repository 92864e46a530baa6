import EmailWatcher.Library.Base64
import EmailWatcher.Library.JsonBytes

-- The cursors of the Inbox: where a page of it continues, as a token that is handed out and comes back.
namespace Inbox

open Base64 (hyphen underscore)
open JsonText (Value Number Writable Plain textOf plain_textOf recursionLimit)

-- `ApiError`, and what is raised by the code that is called.
inductive QueryError
  | api (code : String) (message : Text)
  | recursionError
  | unicodeEncodeError
  deriving DecidableEq, Repr

def invalidRequest (message : String) : QueryError :=
  .api "invalid_request" message

-- Where a page continues: behind the message of this time and id.
structure Position where
  receivedAt : Text
  messageId  : Text
  deriving DecidableEq, Repr

section Source

-- `MAX_INBOX_CURSOR_BYTES`
def maxInboxCursorBytes : Nat := 1024

def receivedAtName : Text := textOf "received_at"

def messageIdName : Text := textOf "message_id"

def versionName : Text := textOf "v"

def Position.dict (p : Position) : Value :=
  .object [(messageIdName, .string p.messageId), (receivedAtName, .string p.receivedAt),
    (versionName, .number (.int 1))]

-- `_encode_inbox_cursor`
def encodeInboxCursor (cursor : Option Position) : Option Text :=
  cursor.map fun p =>
    Base64.rstrip <| Base64.encode hyphen underscore <| JsonText.encodeAscii <| JsonText.dumps true p.dict

-- The value that a dictionary has for a name. The last of several counts.
def lastMember (members : List (Text × Value)) (name : Text) : Option Value :=
  (members.reverse.find? (·.fst = name)).map Prod.snd

-- The position that the members of a cursor name, if they are no others.
def Position.ofDict (decoded : Value) : Option Position :=
  match decoded with
  | .object members =>
    let names := members.map Prod.fst
    if names ⊆ [messageIdName, receivedAtName, versionName] then
      match lastMember members messageIdName, lastMember members receivedAtName, lastMember members versionName with
      | some (.string messageId), some (.string receivedAt), some (.number (.int 1)) =>
        if 0 < messageId.length ∧ messageId.length ≤ 512 ∧ 0 < receivedAt.length ∧ receivedAt.length ≤ 64 then
          some ⟨receivedAt, messageId⟩
        else none
      | _, _, _ => none
    else none
  | _               => none

def cursorInvalid : QueryError :=
  invalidRequest "cursor is invalid"

-- `_decode_inbox_cursor`
def decodeInboxCursor (value : Value) : Except QueryError (Option Position) :=
  match value with
  | .null        => .ok none
  | .string text =>
    if text = [] ∨ text.length > maxInboxCursorBytes * 2 then .error cursorInvalid
    else
      match Base64.b64decode hyphen underscore (text ++ List.replicate ((4 - text.length % 4) % 4) Base64.pad) with
      | none     => .error cursorInvalid
      | some raw =>
        if raw.length > maxInboxCursorBytes then .error cursorInvalid
        else
          match JsonText.loadsBytes recursionLimit raw with
          | .error .valueError     => .error cursorInvalid
          | .error .recursionError => .error .recursionError
          | .ok decoded            =>
            match Position.ofDict decoded with
            | some p => .ok (some p)
            | none   => .error cursorInvalid
  | _            => .error cursorInvalid

end Source

section Weights

-- How many bytes a text takes in a cursor.
def weight (text : Text) : Nat :=
  (text.flatMap (JsonText.escapeChar true)).length

-- The positions whose cursors are taken back.
structure Position.Usable (p : Position) : Prop where
  received : 0 < p.receivedAt.length ∧ p.receivedAt.length ≤ 64
  message  : 0 < p.messageId.length ∧ p.messageId.length ≤ 512
  weight   : weight p.messageId + weight p.receivedAt ≤ 984

instance (p : Position) : Decidable p.Usable :=
  decidable_of_iff ((0 < p.receivedAt.length ∧ p.receivedAt.length ≤ 64) ∧
    (0 < p.messageId.length ∧ p.messageId.length ≤ 512) ∧ weight p.messageId + weight p.receivedAt ≤ 984)
    ⟨fun h => ⟨h.left, h.right.left, h.right.right⟩, fun h => ⟨h.received, h.message, h.weight⟩⟩

variable {p : Position}

theorem names_sorted : messageIdName < receivedAtName ∧ messageIdName < versionName ∧ receivedAtName < versionName := by
  decide

theorem writable_dict {depth : Nat} (hr : Plain p.receivedAt) (hm : Plain p.messageId) :
    Writable (depth + 1) p.dict := by
  obtain ⟨h₁, h₂, h₃⟩ := names_sorted
  refine .object (by simp [h₁, h₂, h₃]) ?_ ?_
  · simp only [List.forall_mem_cons, List.not_mem_nil, false_implies, implies_true, and_true]
    exact ⟨by decide, by decide, by decide⟩
  · simp only [List.forall_mem_cons, List.not_mem_nil, false_implies, implies_true, and_true]
    exact ⟨.string hm, .string hr, .int (by decide)⟩

theorem length_dumps (p : Position) :
    (JsonText.dumps true p.dict).length = 40 + weight p.messageId + weight p.receivedAt := by
  obtain ⟨h₁, h₂, h₃⟩ := names_sorted
  rw [Position.dict, JsonText.dumps_object (by simp [h₁, h₂, h₃])]
  simp only [List.map_cons, List.map_nil, List.intercalate_cons_cons, List.intercalate_singleton,
    JsonText.writeMember, JsonText.dumps, JsonText.writeNumber, JsonText.writeString, List.length_append, List.length_cons,
    List.length_nil, weight]
  have hm : (messageIdName.flatMap (JsonText.escapeChar true)).length = 10 := by decide
  have hr : (receivedAtName.flatMap (JsonText.escapeChar true)).length = 11 := by decide
  have hv : (versionName.flatMap (JsonText.escapeChar true)).length = 1 := by decide
  have hone : (JsonText.writeInt 1).length = 1 := by decide
  omega

theorem ofDict_dict (p : Position) : Position.ofDict p.dict =
    if 0 < p.messageId.length ∧ p.messageId.length ≤ 512 ∧ 0 < p.receivedAt.length ∧ p.receivedAt.length ≤ 64 then
      some p
    else none := by
  have h₁ : receivedAtName ≠ messageIdName := by decide
  have h₂ : versionName ≠ messageIdName := by decide
  have h₃ : versionName ≠ receivedAtName := by decide
  simp [Position.ofDict, Position.dict, lastMember, h₁, h₂, h₃]

end Weights

section Tokens

variable {p q : Position}

-- The bytes of a cursor, and the token that they are written as.
def Position.raw (p : Position) : Octets :=
  JsonText.encodeAscii <| JsonText.dumps true p.dict

def Position.token (p : Position) : Text :=
  Base64.rstrip <| Base64.encode hyphen underscore p.raw

theorem encodeInboxCursor_some (p : Position) : encodeInboxCursor (some p) = some p.token :=
  rfl

theorem length_raw (p : Position) : p.raw.length = 40 + weight p.messageId + weight p.receivedAt := by
  rw [← length_dumps p]
  exact List.length_map _

theorem length_token (p : Position) : p.token.length = (4 * p.raw.length + 2) / 3 := by
  rw [Position.token, Base64.rstrip_encode Base64.apart_urlsafe.digit, List.length_map, Base64.length_sextets]

theorem b64decode_token (p : Position) :
    Base64.b64decode hyphen underscore (p.token ++ List.replicate ((4 - p.token.length % 4) % 4) Base64.pad) =
      some p.raw :=
  Base64.b64decode_encode Base64.apart_urlsafe p.raw

theorem loadsBytes_raw (hr : Plain p.receivedAt) (hm : Plain p.messageId) :
    JsonText.loadsBytes recursionLimit p.raw = .ok p.dict :=
  JsonText.loadsBytes_dumps (writable_dict hr hm)

theorem decode_token (hr : Plain p.receivedAt) (hm : Plain p.messageId) :
    decodeInboxCursor (.string p.token) = if p.Usable then .ok (some p) else .error cursorInvalid := by
  have hraw := length_raw p
  have hlen := length_token p
  have hne : p.token ≠ [] := by
    intro he
    rw [he, List.length_nil] at hlen
    omega
  rw [decodeInboxCursor]
  by_cases hbytes : p.raw.length ≤ maxInboxCursorBytes
  case neg =>
    have hunusable : ¬p.Usable := fun h => hbytes (by have := h.weight; rw [maxInboxCursorBytes]; omega)
    rw [if_neg hunusable]
    split
    case isTrue  => rfl
    case isFalse =>
      rw [b64decode_token]
      simp only [if_pos (Nat.lt_of_not_le hbytes)]
  case pos =>
    have hshort : ¬(p.token = [] ∨ p.token.length > maxInboxCursorBytes * 2) := by
      rw [hlen, maxInboxCursorBytes] at *
      exact not_or.mpr ⟨hne, by omega⟩
    rw [if_neg hshort, b64decode_token]
    simp only [if_neg (Nat.not_lt.mpr hbytes)]
    rw [loadsBytes_raw hr hm]
    simp only [ofDict_dict]
    rw [maxInboxCursorBytes, hraw] at hbytes
    by_cases husable : p.Usable
    case pos =>
      have h := husable
      rw [if_pos husable, if_pos ⟨h.message.left, h.message.right, h.received⟩]
    case neg =>
      rw [if_neg husable, if_neg fun h => husable ⟨h.right.right, ⟨h.left, h.right.left⟩, by omega⟩]

theorem token_inj (hr : Plain p.receivedAt) (hm : Plain p.messageId) (hr' : Plain q.receivedAt)
    (hm' : Plain q.messageId) (h : p.token = q.token) : p = q := by
  have hraw : p.raw = q.raw := by
    have := b64decode_token p
    rw [h, b64decode_token q] at this
    exact (Option.some.inj this).symm
  have hdict : p.dict = q.dict := by
    have := loadsBytes_raw hr hm
    rw [hraw, loadsBytes_raw hr' hm'] at this
    exact (Except.ok.inj this).symm
  simp only [Position.dict, Json.object.injEq, List.cons.injEq, Prod.mk.injEq, true_and, Json.string.injEq,
    and_true] at hdict
  obtain ⟨hid, hat⟩ := hdict
  cases p
  cases q
  exact congrArg₂ Position.mk hat hid

theorem ofDict_eq_some {decoded : Value} (h : Position.ofDict decoded = some p) :
    (0 < p.receivedAt.length ∧ p.receivedAt.length ≤ 64) ∧ 0 < p.messageId.length ∧ p.messageId.length ≤ 512 := by
  cases decoded <;> try cases h
  case object members =>
    simp only [Position.ofDict] at h
    split at h
    case isFalse => cases h
    case isTrue  =>
      split at h <;> try cases h
      split at h
      case isFalse     => cases h
      case isTrue hlen =>
        obtain rfl := Option.some.inj h
        exact ⟨hlen.right.right, hlen.left, hlen.right.left⟩

-- What a value has to be to name a position.
theorem decodeInboxCursor_eq_some {value : Value} (h : decodeInboxCursor value = .ok (some p)) :
    (∃ text, value = .string text ∧ 0 < text.length ∧ text.length ≤ 2 * maxInboxCursorBytes) ∧
      (0 < p.receivedAt.length ∧ p.receivedAt.length ≤ 64) ∧ 0 < p.messageId.length ∧ p.messageId.length ≤ 512 := by
  cases value <;> try cases h
  case string text =>
    simp only [decodeInboxCursor] at h
    split at h
    case isTrue         => cases h
    case isFalse hshort =>
      obtain ⟨hne, hle⟩ := not_or.mp hshort
      refine ⟨⟨text, rfl, List.length_pos_iff.mpr hne, by omega⟩, ?_⟩
      split at h <;> try cases h
      split at h <;> try cases h
      split at h <;> try cases h
      split at h <;> try cases h
      case h_1 hdict =>
        exact ofDict_eq_some hdict

end Tokens

section Theorem

-- A cursor comes back as what it was made from if that is not too long, as it is and as it is written, and is refused
-- otherwise. It is the cursor of no other position, and only a short text that names a short position is taken.
theorem inboxCursor_exact (p : Position) (hr : Plain p.receivedAt) (hm : Plain p.messageId) :
    (∃ token, encodeInboxCursor (some p) = some token ∧
      decodeInboxCursor (.string token) = if p.Usable then .ok (some p) else .error cursorInvalid) ∧
    (∀ q, Plain q.receivedAt → Plain q.messageId → encodeInboxCursor (some q) = encodeInboxCursor (some p) → q = p) ∧
    ∀ value q, decodeInboxCursor value = .ok (some q) →
      (∃ text, value = .string text ∧ 0 < text.length ∧ text.length ≤ 2 * maxInboxCursorBytes) ∧
      (0 < q.receivedAt.length ∧ q.receivedAt.length ≤ 64) ∧ 0 < q.messageId.length ∧ q.messageId.length ≤ 512 := by
  refine ⟨⟨p.token, encodeInboxCursor_some p, decode_token hr hm⟩, ?_, ?_⟩
  · intro q hr' hm' h
    rw [encodeInboxCursor_some, encodeInboxCursor_some] at h
    exact token_inj hr' hm' hr hm (Option.some.inj h)
  · intro value q h
    exact decodeInboxCursor_eq_some h

theorem inboxCursor_exact_letter :
    let p : Position := ⟨textOf "2026-05-01T08:00:00+00:00", textOf "letter-1"⟩
    ∃ token, encodeInboxCursor (some p) = some token ∧ decodeInboxCursor (.string token) = .ok (some p) := by
  intro p
  obtain ⟨token, htoken, hdecode⟩ := (inboxCursor_exact p (plain_textOf _) (plain_textOf _)).left
  rw [if_pos (by decide)] at hdecode
  exact ⟨token, htoken, hdecode⟩

end Theorem

end Inbox
