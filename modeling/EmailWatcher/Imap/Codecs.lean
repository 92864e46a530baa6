import EmailWatcher.Library.Decimal
import EmailWatcher.Library.Fields
import EmailWatcher.Library.Gregorian

-- The texts that cursors and message ids are saved as.
namespace Imap.Codec

open Decimal (isdecimal isAsciiDigit)
open Fields (Form partition)
open Gregorian (Date)

section Numbers

inductive Raised
  | imapError (code message : String)
  | valueError
  | overflowError
  deriving DecidableEq, Repr

-- How many digits the interpreter reads or writes at most.
def maxStrDigits : Nat := 4300

-- The largest value of a C `int`.
def maxInt : Nat := 2 ^ 31 - 1

-- `int(text)`, of a text that is decimal
def int (text : Text) : Except Raised Nat :=
  if text.length > maxStrDigits then .error .valueError else .ok (Decimal.value text)

-- `str(number)`
def str (number : Nat) : Except Raised Text :=
  if (Decimal.digits number).length > maxStrDigits then .error .valueError else .ok (Decimal.digits number)

-- `date.fromordinal`
def fromordinal (ordinal : Nat) : Except Raised Date :=
  if ordinal > maxInt then .error .overflowError
  else
    match Date.fromordinal ordinal with
    | none      => .error .valueError
    | some date => .ok date

end Numbers

section Encoders

def cursorPrefix : Text :=
  ("eom-imap-v2:" : String)

def recoveryCursorPrefix : Text :=
  ("eom-imap-recovery-v1:" : String)

def messageIdPrefix : Text :=
  ("eom-imap-message-v2:" : String)

def sentMessageIdPrefix : Text :=
  ("eom-imap-sent-v1:" : String)

def sentCursorPrefix : Text :=
  ("eom-imap-sent-cursor-v1:" : String)

def sentRecoveryCursorPrefix : Text :=
  ("eom-imap-sent-recovery-v1:" : String)

def colon : CodePoint :=
  ':'

-- `_cursor`
def cursor (mailboxId : Text) (uidValidity lastUid : Nat) : Except Raised Text := do
  return cursorPrefix ++ mailboxId ++ colon :: (← str uidValidity) ++ colon :: (← str lastUid)

-- `_recovery_cursor`
def recoveryCursor (mailboxId : Text) (uidValidity upperUid snapshotUid : Nat) (searchDay : Date) :
    Except Raised Text := do
  return recoveryCursorPrefix ++ mailboxId ++ colon :: (← str uidValidity) ++ colon :: (← str upperUid) ++
    colon :: (← str snapshotUid) ++ colon :: (← str searchDay.toordinal)

-- `_sent_cursor`
def sentCursor (mailboxId folderKey : Text) (uidValidity lastUid : Nat) : Except Raised Text := do
  return sentCursorPrefix ++ mailboxId ++ colon :: folderKey ++ colon :: (← str uidValidity) ++
    colon :: (← str lastUid)

-- `_sent_recovery_cursor`
def sentRecoveryCursor (mailboxId folderKey : Text) (uidValidity upperUid snapshotUid : Nat) (searchDay : Date) :
    Except Raised Text := do
  return sentRecoveryCursorPrefix ++ mailboxId ++ colon :: folderKey ++ colon :: (← str uidValidity) ++
    colon :: (← str upperUid) ++ colon :: (← str snapshotUid) ++ colon :: (← str searchDay.toordinal)

-- `_message_id`
def messageId (mailboxId : Text) (uidValidity uid : Nat) (folderKey : Option Text) : Except Raised Text :=
  match folderKey with
  | none           => do
    return messageIdPrefix ++ mailboxId ++ colon :: (← str uidValidity) ++ colon :: (← str uid)
  | some folderKey => do
    return sentMessageIdPrefix ++ mailboxId ++ colon :: folderKey ++ colon :: (← str uidValidity) ++
      colon :: (← str uid)

end Encoders

section Decoders

def invalidCursor : Raised :=
  .imapError "imap_cursor_invalid" "Saved mail server cursor is invalid"

def invalidMessageId : Raised :=
  .imapError "imap_protocol_error" "Mail server message identity is invalid"

-- `_MAILBOX_ID.fullmatch`
def isMailboxId (text : Text) : Bool :=
  text.length = 64 && text.all fun c => isAsciiDigit c || (0x61 ≤ c.val && c.val ≤ 0x66)

-- `_UID.fullmatch`
def isUid : Text → Bool
  | []      => false
  | c :: cs => isAsciiDigit c && c ≠ ('0' : CodePoint) && cs.all isAsciiDigit

-- `value.removeprefix(start)`
def removeprefix (start value : Text) : Text :=
  if start.isPrefixOf value then value.drop start.length else value

-- `value.removeprefix(start) if value.startswith(start) else ""`
def behind (start value : Text) : Text :=
  if start.isPrefixOf value then removeprefix start value else []

-- `value.removeprefix(start).split(":") if value.startswith(start) else []`
def splitFields (start value : Text) : List Text :=
  if start.isPrefixOf value then ( removeprefix start value).splitOn colon else []

-- The numbers of a cursor or of a message id, which are checked when both have been read.
def readNumbers (refusal : Raised) (refuses : Nat → Nat → Bool) (validity uid : Text) : Except Raised (Nat × Nat) := do
  let validity ← int validity
  let uid ← int uid
  if refuses validity uid then .error refusal else return (validity, uid)

-- The same, with the UIDVALIDITY checked before the UID is read.
def readSentNumbers (refusal : Raised) (validity uid : Text) : Except Raised (Nat × Nat) := do
  let validity ← int validity
  if validity ≤ 0 then .error refusal else return (validity, ← int uid)

-- `date.fromordinal(int(ordinal_text))`, where a ValueError makes the cursor invalid
def readSearchDay (ordinalText : Text) : Except Raised Date :=
  match int ordinalText >>= fromordinal with
  | .error .valueError => .error invalidCursor
  | result             => result

-- The numbers of a recovery cursor.
def readRecovery (validityText upperText snapshotText ordinalText : Text) : Except Raised (Nat × Nat × Nat × Date) := do
  let validity ← int validityText
  let upperUid ← int upperText
  let snapshotUid ← int snapshotText
  let searchDay ← readSearchDay ordinalText
  if validity ≤ 0 || upperUid ≤ 0 || snapshotUid ≤ 0 || upperUid > snapshotUid then .error invalidCursor
  else return (validity, upperUid, snapshotUid, searchDay)

-- `_decode_cursor` and `_decode_message_id`, which differ in what they ask of the UID and of the numbers
def decodePartitioned (start : Text) (isLast : Text → Bool) (refusal : Raised) (refuses : Nat → Nat → Bool)
    (value : Text) : Except Raised (Text × Nat × Nat) :=
  let (mailboxId, separator, remainder) := partition colon (behind start value)
  let (validity, uidSeparator, uid) := partition colon remainder
  if separator = [] || uidSeparator = [] || !isMailboxId mailboxId || !isdecimal validity || !isLast uid then
    .error refusal
  else do
    return (mailboxId, ← readNumbers refusal refuses validity uid)

-- `_decode_cursor`
def decodeCursor (value : Text) : Except Raised (Text × Nat × Nat) :=
  decodePartitioned cursorPrefix isdecimal invalidCursor (fun validity uid => validity ≤ 0 || uid < 0) value

-- The fields of `_decode_recovery_cursor`
def decodeRecoveryFields (fields : List Text) : Except Raised (Text × Nat × Nat × Nat × Date) :=
  match fields with
  | [mailboxId, validityText, upperText, snapshotText, ordinalText] =>
    if !isMailboxId mailboxId || [validityText, upperText, snapshotText, ordinalText].any (!isdecimal ·) then
      .error invalidCursor
    else do
      return (mailboxId, ← readRecovery validityText upperText snapshotText ordinalText)
  | _ => .error invalidCursor

-- `_decode_recovery_cursor`
def decodeRecoveryCursor (value : Text) : Except Raised (Text × Nat × Nat × Nat × Date) :=
  decodeRecoveryFields <| (behind recoveryCursorPrefix value).splitOn colon

-- The fields of `_decode_sent_cursor` and of `_decode_any_message_id`
def decodeSentFields (isLast : Text → Bool) (refusal : Raised) (fields : List Text) :
    Except Raised (Text × Text × Nat × Nat) :=
  match fields with
  | [mailboxId, folderKey, validity, uid] =>
    if !isMailboxId mailboxId || !isMailboxId folderKey || !isdecimal validity || !isLast uid then
      .error refusal
    else do
      return (mailboxId, folderKey, ← readSentNumbers refusal validity uid)
  | _ => .error refusal

-- `_decode_sent_cursor`
def decodeSentCursor (value : Text) : Except Raised (Text × Text × Nat × Nat) :=
  decodeSentFields isdecimal invalidCursor (splitFields sentCursorPrefix value)

-- The fields of `_decode_sent_recovery_cursor`
def decodeSentRecoveryFields (fields : List Text) : Except Raised (Text × Text × Nat × Nat × Nat × Date) :=
  match fields with
  | [mailboxId, folderKey, validityText, upperText, snapshotText, ordinalText] =>
    if !isMailboxId mailboxId || !isMailboxId folderKey ||
        [validityText, upperText, snapshotText, ordinalText].any (!isdecimal ·) then
      .error invalidCursor
    else do
      return (mailboxId, folderKey, ← readRecovery validityText upperText snapshotText ordinalText)
  | _ => .error invalidCursor

-- `_decode_sent_recovery_cursor`
def decodeSentRecoveryCursor (value : Text) : Except Raised (Text × Text × Nat × Nat × Nat × Date) :=
  decodeSentRecoveryFields (splitFields sentRecoveryCursorPrefix value)

-- `_decode_message_id`
def decodeMessageId (value : Text) : Except Raised (Text × Nat × Nat) :=
  decodePartitioned messageIdPrefix isUid invalidMessageId (fun validity _ => validity ≤ 0) value

-- `_decode_any_message_id`: a message has a folder key unless it is one of the Inbox.
def decodeAnyMessageId (value : Text) : Except Raised (Text × Option Text × Nat × Nat) :=
  if !sentMessageIdPrefix.isPrefixOf value then do
    let (mailboxId, validity, uid) ← decodeMessageId value
    return (mailboxId, none, validity, uid)
  else do
    let (mailboxId, folderKey, validity, uid) ←
      decodeSentFields isUid invalidMessageId (( removeprefix sentMessageIdPrefix value).splitOn colon)
    return (mailboxId, some folderKey, validity, uid)

end Decoders

section Forms

theorem isAsciiDigit_ne_colon {c : CodePoint} (h : isAsciiDigit c) : c ≠ colon := by
  rintro rfl
  exact absurd h (by decide)

theorem isMailboxId_plain {text : Text} (h : isMailboxId text) : colon ∉ text := by
  intro hmem
  simp only [isMailboxId, Bool.and_eq_true, List.all_eq_true] at h
  exact absurd (h.right colon hmem) (by decide)

theorem isdecimal_plain {text : Text} (h : isdecimal text) : colon ∉ text := by
  intro hmem
  simp only [isdecimal, Bool.and_eq_true, List.all_eq_true] at h
  exact absurd (h.right colon hmem) (by decide)

theorem isUid_plain {text : Text} (h : isUid text) : colon ∉ text := by
  cases text
  case nil       => simp
  case cons c cs =>
    simp only [isUid, Bool.and_eq_true, List.all_eq_true] at h
    intro hmem
    obtain hc | hc := List.mem_cons.mp hmem
    · exact isAsciiDigit_ne_colon h.left.left hc.symm
    · exact isAsciiDigit_ne_colon (h.right colon hc) rfl

-- The fields of a cursor or a message id.
inductive Field
  | mailboxId
  | decimal
  | uid

def Field.accepts : Field → Text → Bool
  | mailboxId => isMailboxId
  | decimal   => isdecimal
  | uid       => isUid

theorem Field.plain {field : Field} {text : Text} (h : field.accepts text) : colon ∉ text := by
  cases field
  case mailboxId => exact isMailboxId_plain h
  case decimal   => exact isdecimal_plain h
  case uid       => exact isUid_plain h

-- The fields that are read of a form.
abbrev Accepted (fields : List Field) (fs : List Text) : Prop :=
  List.Forall₂ (fun p f => p f = true) (fields.map Field.accepts) fs

def form (start : Text) (fields : List Field) (h : fields ≠ []) : Form CodePoint where
  start     := start
  separator := colon
  fields    := fields.map Field.accepts
  nonempty  := by simpa using h
  plain p hp f hf := by
    obtain ⟨field, -, rfl⟩ := List.mem_map.mp hp
    exact Field.plain hf

def cursorForm : Form CodePoint :=
  form cursorPrefix [.mailboxId, .decimal, .decimal] (by decide)

def recoveryCursorForm : Form CodePoint :=
  form recoveryCursorPrefix [.mailboxId, .decimal, .decimal, .decimal, .decimal] (by decide)

def sentCursorForm : Form CodePoint :=
  form sentCursorPrefix [.mailboxId, .mailboxId, .decimal, .decimal] (by decide)

def sentRecoveryCursorForm : Form CodePoint :=
  form sentRecoveryCursorPrefix [.mailboxId, .mailboxId, .decimal, .decimal, .decimal, .decimal] (by decide)

def messageIdForm : Form CodePoint :=
  form messageIdPrefix [.mailboxId, .decimal, .uid] (by decide)

def sentMessageIdForm : Form CodePoint :=
  form sentMessageIdPrefix [.mailboxId, .mailboxId, .decimal, .uid] (by decide)

variable {fs : List Text}

theorem accepted_three {a b c : Field} (h : Accepted [a, b, c] fs) :
    ∃ x y z, fs = [x, y, z] ∧ a.accepts x ∧ b.accepts y ∧ c.accepts z := by
  obtain _ | ⟨hx, _ | ⟨hy, _ | ⟨hz, _ | _⟩⟩⟩ := h
  exact ⟨_, _, _, rfl, hx, hy, hz⟩

theorem accepted_four {a b c d : Field} (h : Accepted [a, b, c, d] fs) :
    ∃ x y z w, fs = [x, y, z, w] ∧ a.accepts x ∧ b.accepts y ∧ c.accepts z ∧ d.accepts w := by
  obtain _ | ⟨hx, hrest⟩ := h
  obtain ⟨y, z, w, rfl, haccepts⟩ := accepted_three hrest
  exact ⟨_, y, z, w, rfl, hx, haccepts⟩

theorem accepted_five {a b c d e : Field} (h : Accepted [a, b, c, d, e] fs) :
    ∃ x y z w v, fs = [x, y, z, w, v] ∧ a.accepts x ∧ b.accepts y ∧ c.accepts z ∧ d.accepts w ∧ e.accepts v := by
  obtain _ | ⟨hx, hrest⟩ := h
  obtain ⟨y, z, w, v, rfl, haccepts⟩ := accepted_four hrest
  exact ⟨_, y, z, w, v, rfl, hx, haccepts⟩

theorem accepted_six {a b c d e f : Field} (h : Accepted [a, b, c, d, e, f] fs) :
    ∃ x y z w v u, fs = [x, y, z, w, v, u] ∧
      a.accepts x ∧ b.accepts y ∧ c.accepts z ∧ d.accepts w ∧ e.accepts v ∧ f.accepts u := by
  obtain _ | ⟨hx, hrest⟩ := h
  obtain ⟨y, z, w, v, u, rfl, haccepts⟩ := accepted_five hrest
  exact ⟨_, y, z, w, v, u, rfl, hx, haccepts⟩

end Forms

section Following

-- A decoder reads the texts of a form field by field, and refuses all others.
structure Follows {β : Type} (form : Form CodePoint) (refusal : Raised) (read : List Text → Except Raised β)
    (decode : Text → Except Raised β) : Prop where
  reads   : ∀ text fs, form.Reads text fs → decode text = read fs
  refuses : ∀ text, (∀ fs, ¬form.Reads text fs) → decode text = .error refusal

variable {β : Type} {start rest value : Text} {fs : List Text} {fields : List Field} {h : fields ≠ []}
  {refusal : Raised} {isLast : Text → Bool} {refuses : Nat → Nat → Bool} {read : List Text → Except Raised β}
  {decode : Text → Except Raised β}

theorem removeprefix_append : removeprefix start (start ++ rest) = rest := by
  rw [ removeprefix, if_pos (List.isPrefixOf_iff_prefix.mpr (List.prefix_append _ _)), List.drop_left]

theorem behind_append : behind start (start ++ rest) = rest := by
  rw [behind, if_pos (List.isPrefixOf_iff_prefix.mpr (List.prefix_append _ _)), removeprefix_append]

theorem behind_of_not_starts (h : ¬start <+: value) : behind start value = [] :=
  if_neg (mt List.isPrefixOf_iff_prefix.mp h)

-- A decoder that splits what follows its start.
theorem Follows.of_split (hread : ∀ rest, decode (start ++ rest) = read (rest.splitOn colon))
    (hstart : ∀ value, ¬start <+: value → decode value = .error refusal)
    (hfields : ∀ fs, ¬Accepted fields fs → read fs = .error refusal) :
    Follows (form start fields h) refusal read decode where
  reads text fs hr := by
    obtain ⟨rest, rfl⟩ := hr.starts
    obtain ⟨rfl, -⟩ := Form.reads_start_append.mp hr
    exact hread rest
  refuses text hr := by
    by_cases hs : start <+: text
    case neg => exact hstart text hs
    case pos =>
      obtain ⟨rest, rfl⟩ := hs
      rw [hread]
      exact hfields _ fun hf => hr _ (Form.reads_start_append.mpr ⟨rfl, hf⟩)

-- The fields of a text that is partitioned twice.
def readPartitioned (isLast : Text → Bool) (refusal : Raised) (refuses : Nat → Nat → Bool) :
    List Text → Except Raised (Text × Nat × Nat)
  | [mailboxId, validity, uid] =>
    if !isMailboxId mailboxId || !isdecimal validity || !isLast uid then .error refusal
    else do
      return (mailboxId, ← readNumbers refusal refuses validity uid)
  | _ => .error refusal

theorem decodePartitioned_eq (hlast : ∀ text, isLast text → colon ∉ text) :
    decodePartitioned start isLast refusal refuses (start ++ rest) =
      readPartitioned isLast refusal refuses (rest.splitOn colon) := by
  rw [decodePartitioned, behind_append]
  obtain ⟨hpart, hcolon⟩ | ⟨xs, ys, rfl, hxs, hpart⟩ := Fields.partition_cases colon rest
  case inl => simp [hpart, List.splitOn_eq_singleton hcolon, readPartitioned]
  case inr =>
    rw [List.splitOn_append_cons_self_of_not_mem hxs]
    obtain ⟨hpart', hcolon⟩ | ⟨zs, ws, rfl, hzs, hpart'⟩ := Fields.partition_cases colon ys
    case inl => simp [hpart, hpart', List.splitOn_eq_singleton hcolon, readPartitioned]
    case inr =>
      rw [List.splitOn_append_cons_self_of_not_mem hzs]
      by_cases hws : colon ∈ ws
      case neg => simp [hpart, hpart', List.splitOn_eq_singleton hws, readPartitioned]
      case pos =>
        -- one separator too many stands in the UID
        obtain ⟨us, vs, rfl, hus⟩ := List.eq_append_cons_of_mem hws
        have hbad : isLast (us ++ colon :: vs) = false := by
          rw [← Bool.not_eq_true]
          exact fun hl => hlast _ hl hws
        rw [List.splitOn_append_cons_self_of_not_mem hus]
        obtain ⟨t, ts, hts⟩ := List.exists_cons_of_ne_nil (List.splitOn_ne_nil colon vs)
        simp [hpart, hpart', hbad, hts, readPartitioned]

theorem decodePartitioned_of_not_starts (h : ¬start <+: value) :
    decodePartitioned start isLast refusal refuses value = .error refusal := by
  simp [decodePartitioned, behind_of_not_starts h, partition]

theorem readPartitioned_refuses {last : Field}
    (hf : ¬Accepted [.mailboxId, .decimal, last] fs) :
    readPartitioned last.accepts refusal refuses fs = .error refusal := by
  rw [readPartitioned.eq_def]
  split
  case h_2              => rfl
  case h_1 mailboxId validity uid =>
    refine if_pos ?_
    by_contra hchecks
    simp only [Bool.or_eq_true, Bool.not_eq_true', not_or, Bool.not_eq_false] at hchecks
    exact hf (.cons hchecks.left.left (.cons hchecks.left.right (.cons hchecks.right .nil)))

theorem decodeSentFields_refuses {last : Field}
    (hf : ¬Accepted [.mailboxId, .mailboxId, .decimal, last] fs) :
    decodeSentFields last.accepts refusal fs = .error refusal := by
  rw [decodeSentFields.eq_def]
  split
  case h_2                        => rfl
  case h_1 mailboxId folderKey validity uid =>
    refine if_pos ?_
    by_contra hchecks
    simp only [Bool.or_eq_true, Bool.not_eq_true', not_or, Bool.not_eq_false] at hchecks
    obtain ⟨⟨⟨hmailbox, hfolder⟩, hvalidity⟩, huid⟩ := hchecks
    exact hf (.cons hmailbox (.cons hfolder (.cons hvalidity (.cons huid .nil))))

theorem decodeRecoveryFields_refuses
    (hf : ¬Accepted [.mailboxId, .decimal, .decimal, .decimal, .decimal] fs) :
    decodeRecoveryFields fs = .error invalidCursor := by
  rw [decodeRecoveryFields.eq_def]
  split
  case h_2                               => rfl
  case h_1 mailboxId validity upper snapshot ordinal =>
    refine if_pos ?_
    by_contra hchecks
    simp only [List.any_cons, List.any_nil, Bool.or_eq_true, Bool.not_eq_true', not_or, Bool.not_eq_false,
      Bool.or_false] at hchecks
    obtain ⟨hmailbox, hvalidity, hupper, hsnapshot, hordinal⟩ := hchecks
    exact hf (.cons hmailbox (.cons hvalidity (.cons hupper (.cons hsnapshot (.cons hordinal .nil)))))

theorem decodeSentRecoveryFields_refuses
    (hf : ¬Accepted [.mailboxId, .mailboxId, .decimal, .decimal, .decimal, .decimal] fs) :
    decodeSentRecoveryFields fs = .error invalidCursor := by
  rw [decodeSentRecoveryFields.eq_def]
  split
  case h_2                                         => rfl
  case h_1 mailboxId folderKey validity upper snapshot ordinal =>
    refine if_pos ?_
    by_contra hchecks
    simp only [List.any_cons, List.any_nil, Bool.or_eq_true, Bool.not_eq_true', not_or, Bool.not_eq_false,
      Bool.or_false] at hchecks
    obtain ⟨⟨hmailbox, hfolder⟩, hvalidity, hupper, hsnapshot, hordinal⟩ := hchecks
    exact hf (.cons hmailbox (.cons hfolder (.cons hvalidity (.cons hupper (.cons hsnapshot (.cons hordinal .nil))))))

theorem decodeCursor_follows :
    Follows cursorForm invalidCursor
      (readPartitioned Field.decimal.accepts invalidCursor fun validity uid => validity ≤ 0 || uid < 0) decodeCursor :=
  .of_split (fun _ => decodePartitioned_eq fun _ => isdecimal_plain) (fun _ => decodePartitioned_of_not_starts)
    fun _ => readPartitioned_refuses

theorem decodeMessageId_follows :
    Follows messageIdForm invalidMessageId
      (readPartitioned Field.uid.accepts invalidMessageId fun validity _ => validity ≤ 0) decodeMessageId :=
  .of_split (fun _ => decodePartitioned_eq fun _ => isUid_plain) (fun _ => decodePartitioned_of_not_starts)
    fun _ => readPartitioned_refuses

theorem decodeRecoveryCursor_follows :
    Follows recoveryCursorForm invalidCursor decodeRecoveryFields decodeRecoveryCursor := by
  refine .of_split (fun rest => ?_) (fun value h => ?_) fun _ => decodeRecoveryFields_refuses
  · rw [decodeRecoveryCursor, behind_append]
  · rw [decodeRecoveryCursor, behind_of_not_starts h, List.splitOn_nil]
    rfl

theorem follows_splitFields (hfields : ∀ fs, ¬Accepted fields fs → read fs = .error refusal) :
    Follows (form start fields h) refusal read fun value => read (splitFields start value) := by
  refine .of_split (fun rest => ?_) (fun value hs => ?_) hfields
  · rw [splitFields, if_pos (List.isPrefixOf_iff_prefix.mpr (List.prefix_append _ _)), removeprefix_append]
  · rw [splitFields, if_neg (mt List.isPrefixOf_iff_prefix.mp hs)]
    refine hfields [] fun hnil => h ?_
    exact List.map_eq_nil_iff.mp (List.forall₂_nil_right_iff.mp hnil)

theorem decodeSentCursor_follows :
    Follows sentCursorForm invalidCursor (decodeSentFields Field.decimal.accepts invalidCursor) decodeSentCursor :=
  follows_splitFields fun _ => decodeSentFields_refuses

theorem decodeSentRecoveryCursor_follows :
    Follows sentRecoveryCursorForm invalidCursor decodeSentRecoveryFields decodeSentRecoveryCursor :=
  follows_splitFields fun _ => decodeSentRecoveryFields_refuses

-- The part of `_decode_any_message_id` for the messages of the Sent folder.
theorem decodeSentMessageId_follows :
    Follows sentMessageIdForm invalidMessageId (decodeSentFields Field.uid.accepts invalidMessageId)
      fun value => decodeSentFields isUid invalidMessageId (splitFields sentMessageIdPrefix value) :=
  follows_splitFields fun _ => decodeSentFields_refuses

end Following

end Imap.Codec
