import EmailWatcher.Library.Distinct
import EmailWatcher.Mail.Schema

-- What has changed in a Gmail mailbox since a saved cursor. A history that is too long for one batch is
-- continued by calls that read it again from its start, and skip what has been returned before.
namespace Gmail.History

section Text

def maxIncrementalMessageIds : Nat := 200

def maxHistoryContinuationBytes : Nat := 4096

def maxHistoryContinuationOffset : Nat := 50000

def maxGmailLabelIdBytes : Nat := 512

def maxGmailPageTokenBytes : Nat := 8192

def historyContinuationPrefix : String := "eom-gmail-history-v2:"

def legacyHistoryContinuationPrefix : String := "eom-gmail-history-v1:"

-- The first ten characters of the runs of decimal digits of Unicode, of which the last one has five
-- times as many.
def decimalZeros : List Nat :=
  [0x30, 0x660, 0x6f0, 0x7c0, 0x966, 0x9e6, 0xa66, 0xae6, 0xb66, 0xbe6, 0xc66, 0xce6, 0xd66, 0xde6,
    0xe50, 0xed0, 0xf20, 0x1040, 0x1090, 0x17e0, 0x1810, 0x1946, 0x19d0, 0x1a80, 0x1a90, 0x1b50, 0x1bb0,
    0x1c40, 0x1c50, 0xa620, 0xa8d0, 0xa900, 0xa9d0, 0xa9f0, 0xaa50, 0xabf0, 0xff10, 0x104a0, 0x10d30,
    0x11066, 0x110f0, 0x11136, 0x111d0, 0x112f0, 0x11450, 0x114d0, 0x11650, 0x116c0, 0x11730, 0x118e0,
    0x11950, 0x11c50, 0x11d50, 0x11da0, 0x11f50, 0x16a60, 0x16ac0, 0x16b50, 0x1d7ce, 0x1d7d8, 0x1d7e2,
    0x1d7ec, 0x1d7f6, 0x1e140, 0x1e2f0, 0x1e4f0, 0x1e950, 0x1fbf0]

-- `text.isdecimal()`
def isdecimal (text : String) : Bool :=
  text.toList ≠ [] && text.toList.all fun c =>
    decimalZeros.any fun z => z ≤ c.toNat && c.toNat < z + 10

-- `_contains_control`
def containsControl (text : String) : Bool :=
  text.toList.any fun c => c.toNat < 0x20 || (0x7f ≤ c.toNat && c.toNat < 0xa0)

def withinUtf8Bytes (text : String) (maximum : Nat) : Bool :=
  text.utf8ByteSize ≤ maximum

-- `_bounded_text`
def boundedText (value : Option String) (maximumBytes : Nat) : Option String :=
  value.filter fun text =>
    text ≠ "" && !containsControl text && withinUtf8Bytes text maximumBytes

-- `text.startswith(start)`
def startswith (text start : String) : Bool :=
  start.toList.isPrefixOf text.toList

-- `text.removeprefix(start)`, of a text that starts with it
def removeprefix (text start : String) : String :=
  String.ofList <| text.toList.drop start.toList.length

end Text

section Cursors

-- What `json.loads` makes of a text.
inductive Value
  | null
  | bool  (value : Bool)
  | int   (value : Int)
  | float (text : String)
  | str   (text : String)
  | list  (items : List Value)
  | dict  (items : List (String × Value))

inductive Failure
  -- `StaleHistoryCursor`
  | stale (message : String)
  -- `GmailError`
  | gmail (message : String)
  deriving DecidableEq, Repr

def cursorPayload (startHistoryId : String) (offset : Nat) (digest : String) : Value :=
  .dict [("prefix_sha256", .str digest), ("returned", .int offset),
    ("start_history_id", .str startHistoryId)]

-- The digest of the canonical JSON text of a list of ids, and JSON itself. `loads` fails on a text in
-- which a key occurs twice.
class Codec where
  -- `_history_prefix_digest`
  historyPrefixDigest        : List String → String
  historyPrefixDigest_length : ∀ ids, (historyPrefixDigest ids).toList.length = 64
  historyPrefixDigest_hex    : ∀ ids, (historyPrefixDigest ids).toList.all isLowerHex
  dumps                      : Value → String
  loads                      : String → Option Value
  loads_dumps                : ∀ startHistoryId offset digest,
    loads (dumps (cursorPayload startHistoryId offset digest)) =
      some (cursorPayload startHistoryId offset digest)

variable [Codec]

-- What a cursor says: where the history starts, how many ids have been returned, and their digest.
structure Decoded where
  startHistoryId : String
  offset         : Nat
  digest         : Option String
  deriving DecidableEq, Repr

def Value.get? (items : List (String × Value)) (key : String) : Option Value :=
  (items.find? (·.fst = key)).map (·.snd)

def decodeContinuation (payload : Option Value) : Except Failure Decoded :=
  let invalid := Failure.stale "Saved Gmail history continuation cursor is invalid"
  let keys := ["prefix_sha256", "returned", "start_history_id"]
  match payload with
  | some (.dict items) =>
    if ¬(items.map (·.fst) ⊆ keys ∧ keys ⊆ items.map (·.fst)) then
      .error invalid
    else
      match Value.get? items "start_history_id", Value.get? items "returned",
        Value.get? items "prefix_sha256" with
      | some (.str startHistoryId), some (.int offset), some (.str digest) =>
        if !isdecimal startHistoryId || offset < 0 || offset > maxHistoryContinuationOffset ||
            digest.toList.length ≠ 64 || !digest.toList.all isLowerHex then
          .error invalid
        else if offset = 0 ∧ digest ≠ Codec.historyPrefixDigest [] then
          .error <| .stale "Saved Gmail history continuation prefix changed"
        else
          .ok ⟨startHistoryId, offset.toNat, some digest⟩
      | _, _, _ => .error invalid
  | _ => .error invalid

-- `_decode_history_cursor`
def decodeHistoryCursor (cursor : String) : Except Failure Decoded :=
  if cursor = "" then
    .error <| .stale "Saved Gmail history cursor is invalid"
  else if startswith cursor legacyHistoryContinuationPrefix then
    .error <| .stale "Saved Gmail history continuation uses the retired stream"
  else if !startswith cursor historyContinuationPrefix then
    if !isdecimal cursor || !withinUtf8Bytes cursor maxHistoryContinuationBytes then
      .error <| .stale "Saved Gmail history cursor is invalid"
    else
      .ok ⟨cursor, 0, none⟩
  else if !withinUtf8Bytes cursor maxHistoryContinuationBytes then
    .error <| .stale "Saved Gmail history continuation cursor is invalid"
  else
    decodeContinuation <| Codec.loads <| removeprefix cursor historyContinuationPrefix

-- `_history_continuation_cursor`
def historyContinuationCursor (startHistoryId : String) (messageIds : List String) :
    Except Failure String :=
  if messageIds.length > maxHistoryContinuationOffset then
    .error <| .stale "Saved Gmail history continuation exceeded replay bounds"
  else
    let cursor := historyContinuationPrefix ++ Codec.dumps
      (cursorPayload startHistoryId messageIds.length (Codec.historyPrefixDigest messageIds))
    if !withinUtf8Bytes cursor maxHistoryContinuationBytes then
      .error <| .stale "Saved Gmail history continuation exceeded transport bounds"
    else
      .ok cursor

end Cursors

section Answers

-- A field of a JSON object: it may be absent, or hold something else than what is asked for.
inductive Field (α : Type)
  | absent
  | valid (value : α)
  | invalid

structure Message where
  id       : Option String
  labelIds : Option (List String)

structure Added where
  message  : Option Message
  labelIds : Option (List String)

-- An item of the lists that is no object is an `Added` without a message.
structure Event where
  messagesAdded : Field (List Added)
  labelsAdded   : Field (List Added)

structure Response where
  historyId     : Field String
  -- an item that is no object is `none`
  history       : Field (List (Option Event))
  nextPageToken : Field String

-- How the server answers a request for one page.
inductive Answer
  | response (r : Response)
  | notObject
  | httpError (status : Nat)

end Answers

section Hints

structure FolderObservation where
  locations : List Mail.Folder
  complete  : Bool

-- `_HistoryFolderObservations`
structure Hints where
  hints         : List (String × FolderObservation)
  wholeInRecord : List String

-- `locations_from_labels`
def locationsFromLabels (labelIds : List String) : List Mail.Folder :=
  (labelIds.filterMap fun label =>
    if label = "INBOX" then some .inbox else if label = "SENT" then some .sent else none).dedup

namespace Hints

def beginRecord (h : Hints) : Hints :=
  { h with wholeInRecord := [] }

def put (h : Hints) (messageId : String) (o : FolderObservation) : Hints :=
  if h.hints.any (·.fst = messageId) then
    { h with hints := h.hints.map fun x => if x.fst = messageId then (messageId, o) else x }
  else
    { h with hints := h.hints ++ [(messageId, o)] }

def add (h : Hints) (messageId : String) (added : Added) : Hints :=
  let whole := added.message.bind (·.labelIds)
  let h := if whole.isSome then { h with wholeInRecord := messageId :: h.wholeInRecord } else h
  match whole <|> added.labelIds with
  | none        => h
  | some labels =>
    let locations := locationsFromLabels labels
    let complete := decide (messageId ∈ h.wholeInRecord)
    match h.hints.find? (·.fst = messageId) with
    | none         => h.put messageId ⟨locations, complete⟩
    | some earlier =>
      if !complete && locations = [] then
        h
      else
        h.put messageId ⟨locations ∪ earlier.snd.locations, complete⟩

def snapshot (h : Hints) (drained : Bool) : List (String × FolderObservation) :=
  h.hints.map fun (messageId, o) => (messageId, ⟨o.locations, drained && o.complete⟩)

end Hints

end Hints

section Changes

variable [Codec]

structure Changes where
  messageIds : List String
  cursor     : String
  locations  : List (String × FolderObservation)
  drained    : Bool

-- The variables of the loop. `seen_ids` holds what `orderedUniqueIds` holds.
structure Progress where
  ids              : List String
  hints            : Hints
  orderedUniqueIds : List String
  newest           : String
  prefixVerified   : Bool

-- The loop is left before its end.
inductive Stop
  | returns (changes : Changes)
  | raises  (e : Failure)

-- What is done about an id that has been listed.
def visit (c : Decoded) (p : Progress) (messageId : String) : Except Stop Progress :=
  if messageId ∈ p.orderedUniqueIds then
    .ok p
  else
    let p := { p with orderedUniqueIds := p.orderedUniqueIds ++ [messageId] }
    let uniqueIdsSeen := p.orderedUniqueIds.length
    if uniqueIdsSeen > maxHistoryContinuationOffset then
      .error <| .raises <| .stale "Saved Gmail history continuation exceeded replay bounds"
    else if uniqueIdsSeen = c.offset then
      if some (Codec.historyPrefixDigest p.orderedUniqueIds) ≠ c.digest then
        .error <| .raises <| .stale "Saved Gmail history continuation prefix changed"
      else
        .ok { p with prefixVerified := true }
    else if uniqueIdsSeen < c.offset then
      .ok p
    else if p.ids.length = maxIncrementalMessageIds then
      match historyContinuationCursor c.startHistoryId
        (p.orderedUniqueIds.take (c.offset + p.ids.length)) with
      | .error e   => .error <| .raises e
      | .ok cursor => .error <| .returns ⟨p.ids, cursor, p.hints.snapshot false, false⟩
    else
      .ok { p with ids := p.ids ++ [messageId] }

def addAddition (c : Decoded) (p : Progress) (added : Added) : Except Stop Progress :=
  match boundedText (added.message.bind (·.id)) maxGmailLabelIdBytes with
  | none           => .error <| .raises <| .gmail "Gmail history message ID is invalid"
  | some messageId => visit c { p with hints := p.hints.add messageId added } messageId

def addField (c : Decoded) (p : Progress) : Field (List Added) → Except Stop Progress
  | .absent          => .ok p
  | .invalid         => .error <| .raises <| .gmail "Gmail history response is invalid"
  | .valid additions => additions.foldlM (addAddition c) p

def addEvent (c : Decoded) (p : Progress) : Option Event → Except Stop Progress
  | none       => .error <| .raises <| .gmail "Gmail history response is invalid"
  | some event => do
    let p ← addField c { p with hints := p.hints.beginRecord } event.messagesAdded
    addField c p event.labelsAdded

def addHistory (c : Decoded) (p : Progress) : Field (List (Option Event)) → Except Stop Progress
  | .absent       => .ok p
  | .invalid      => .error <| .raises <| .gmail "Gmail history response is invalid"
  | .valid events => events.foldlM (addEvent c) p

def readNewest (p : Progress) : Field String → Except Stop Progress
  | .absent    => .ok p
  | .invalid   => .error <| .raises <| .gmail "Gmail history response contained an invalid cursor"
  | .valid id  =>
    if !isdecimal id then
      .error <| .raises <| .gmail "Gmail history response contained an invalid cursor"
    else
      .ok { p with newest := id }

-- Whether another page is to be read.
def nextPage : Field String → Except Stop Bool
  | .absent      => .ok false
  | .invalid     => .error <| .raises <| .gmail "Gmail history page token is invalid"
  | .valid token =>
    if (boundedText (some token) maxGmailPageTokenBytes).isNone then
      .error <| .raises <| .gmail "Gmail history page token is invalid"
    else
      .ok true

-- The loop over the pages, for the answers of the server in their order.
def readPages (c : Decoded) (p : Progress) : List Answer → Except Stop Progress
  | []                       => .error <| .raises <| .gmail "Gmail history request failed"
  | .notObject :: _          => .error <| .raises <| .gmail "Gmail history response is invalid"
  | .httpError status :: _   =>
    if status = 404 then
      .error <| .raises <| .stale "Saved Gmail history cursor is no longer available"
    else
      .error <| .raises <| .gmail s!"Gmail history request failed (HTTP {status})"
  | .response r :: answers   => do
    let p ← readNewest p r.historyId
    let p ← addHistory c p r.history
    if ← nextPage r.nextPageToken then readPages c p answers else return p

-- `_history_changes`
def historyChanges (startHistoryId : String) (answers : List Answer) : Except Failure Changes :=
  match decodeHistoryCursor startHistoryId with
  | .error e => .error e
  | .ok c    =>
    match readPages c ⟨[], ⟨[], []⟩, [], c.startHistoryId, c.offset = 0⟩ answers with
    | .error (.returns changes) => .ok changes
    | .error (.raises e)        => .error e
    | .ok p                     =>
      if !p.prefixVerified then
        .error <| .stale "Saved Gmail history continuation cursor cannot be resumed"
      else
        .ok ⟨p.ids, p.newest, p.hints.snapshot true, true⟩

end Changes

end Gmail.History
