import EmailWatcher.ThreadReads.Store

-- The readers of the retained threads. Each reads one snapshot of the store.
namespace ThreadReads

open Threads (Wire)
open Transaction

variable [Stdlib]

section Pages

-- `MAX_CURSOR_BYTES`
def maxCursorBytes : Nat :=
  4096

structure Cursor where
  selector : String
  revision : String
  last     : String
  deriving DecidableEq, Repr

def Cursor.dict (c : Cursor) : Wire :=
  .object [("version", .number 1), ("selector", .string c.selector), ("revision", .string c.revision),
    ("last", .string c.last)]

def asDigest (j : Wire) : Option String :=
  j.asString.filter fun text => text.length = 64 ∧ text.toList.all isLowerHex

def Cursor.ofDict (j : Wire) : Option Cursor := do
  let field ← j.fields ["version", "selector", "revision", "last"]
  let .number 1 ← field "version" | none
  return {
    selector := ← asDigest (← field "selector")
    revision := ← asDigest (← field "revision")
    last     := ← asDigest (← field "last")
  }

-- `_cursor`
def cursor (value : Wire) : Except ReadError (Option Cursor) :=
  match value with
  | .null => return none
  | _     => do
    let decoded := do
      let token ← value.asString
      if 1 ≤ token.length ∧ token.length ≤ maxCursorBytes then
        Cursor.ofDict (← Stdlib.decodeToken token)
      else none
    return some (← find decoded <| .api "invalid_request" "Malformed thread cursor")

-- Where a page starts: behind the key that the cursor names by its digest.
def start (decoded : Option Cursor) (binding version : String) (keys : List Wire) : Except ReadError Nat :=
  match decoded with
  | none         => return 0
  | some decoded => do
    require (decoded.selector = binding) <|
      .api "invalid_request" "Thread cursor does not match this selection"
    require (decoded.revision = version) <|
      .api "stale_cursor" "Local history changed; restart this list"
    let position ← find ((keys.map Stdlib.digest).findIdx? (· = decoded.last)) <|
      .api "invalid_request" "Thread cursor position is not visible"
    return position + 1

-- `_page`: the rows, and the next cursor.
def page (rows keys : List Wire) (selector : List (String × Wire)) (revision : Wire) (limit : Nat)
    (value : Wire) : Except ReadError (List Wire × Option String) := do
  require (1 ≤ limit ∧ limit ≤ 100) <|
    .api "invalid_request" "limit must be an integer between 1 and 100"
  let decoded ← cursor value
  let binding := Stdlib.digest (.object (selector ++ [("limit", .number limit), ("ordering", .number 1)]))
  let version := Stdlib.digest revision
  let after ← start decoded binding version keys
  let stop := min (after + limit) rows.length
  let token :=
    if stop < rows.length then
      (keys[stop - 1]?).map fun key => Stdlib.encodeToken (Cursor.dict ⟨binding, version, Stdlib.digest key⟩)
    else none
  return ((rows.take stop).drop after, token)

end Pages

-- The first argument of the readers: a vendor, or an `InboxThreadSelector`.
inductive Selector
  | vendor (vendorId : String)
  | inbox  (messageRef : InboxMessageRef)
  deriving DecidableEq, Repr

-- `_read_selector`
def readSelector (selector : Selector) (requested : ThreadRef) (inboxMessage : Option InboxMessageRef) :
    List (String × Wire) :=
  match selector with
  | .inbox messageRef =>
    [("inbox_thread", .object [("thread_ref", requested.asdict), ("message_ref", messageRef.asdict)])]
  | .vendor vendorId  =>
    [("vendor_id", .string vendorId), ("thread_ref", requested.asdict)] ++
      (inboxMessage.map fun m => ("inbox_message", m.asdict)).toList

namespace Store

variable (s : Store)

section Threads

-- `vendors[vendor_id]`, where there is one.
def vendor (vendorId : Option String) : Except ReadError Wire :=
  match vendorId with
  | some vendorId => do return (← find (s.vendors.get vendorId) (.key vendorId)).dict
  | none          => return .null

-- `_inbox_thread`
def inboxThread (origin : InboxMessageRef) : Except ReadError (ThreadRef × List (Row × Member)) := do
  let m ← find (s.mail.logicalMessages.find? fun m => m.provider = origin.provider ∧
      m.accountId = origin.accountId ∧ m.messageId = origin.messageId) <|
    .api "not_found" "Retained Inbox message was not found"
  require (s.mail.effectiveIdentity m = origin.mailboxIdentityKey) <|
    .api "stale_selection" "Inbox identity changed; refresh the selection"
  let threadKey ← find (m.threadKey.filter (· ≠ "")) <|
    .runtime "Retained thread mapping is inconsistent"
  let ref : ThreadRef := ⟨origin.provider, origin.accountId, s.mail.effectiveIdentity m, threadKey⟩
  require (¬(ref.provider = .imap ∧ (s.mail.aliases.get threadKey).isSome)) <|
    .runtime "Retained thread mapping is inconsistent"
  let expected := (s.mail.logicalMessages.filter fun m => ref.has m (s.mail.effectiveIdentity m)).map
    (·.messageId)
  let members := group ref (← s.members ref.provider ref.accountId (some ref))
  let ids := members.map (·.fst.message.messageId)
  require (origin.messageId ∈ expected ∧ expected ⊆ ids ∧ ids ⊆ expected) <|
    .runtime "Retained thread membership is inconsistent"
  return (ref, members)

-- `_resolve_thread_ref`. The aliases are followed until one has been seen, and there are no more keys than
-- aliases to see.
def resolveThreadRef (requested : ThreadRef) : Except ReadError ThreadRef :=
  if requested.provider = .imap then go s.mail.aliases.rows.length [] requested.threadKey else return requested
where
  go (n : Nat) (seen : List String) (key : String) : Except ReadError ThreadRef :=
    if key ∈ seen then throw <| .api "not_found" "Retained thread was not found"
    else
      match n, s.mail.aliases.get key with
      | _,     none   => return { requested with threadKey := key }
      | 0,     some _ => throw <| .api "not_found" "Retained thread was not found"
      | n + 1, some a => go n (key :: seen) a.survivorKey

-- The Inbox message that a selection is bound to.
def selectedOrigin (selector : Selector) (inboxMessage : Option InboxMessageRef) :
    Except ReadError (Option InboxMessageRef) :=
  match selector with
  | .inbox messageRef => do
    require (inboxMessage = none) <| .api "invalid_request" "Thread selectors cannot be mixed"
    return some messageRef
  | .vendor vendorId  => do
    require (vendorId ≠ "") <| .api "invalid_request" "A vendor selector is required"
    return inboxMessage

def selectedMembers (ref : ThreadRef) (origin : Option InboxMessageRef) :
    Except ReadError (List (Row × Member)) :=
  match origin with
  | some origin => do
    let (originRef, members) ← s.inboxThread origin
    require (ref = originRef) <| .api "not_found" "Inbox message is not in the selected thread"
    require (∀ vendorId ∈ represented members, (s.vendors.get vendorId).isSome) <|
      .runtime "Retained thread attribution is inconsistent"
    return members
  | none        => do
    return group ref (← s.members ref.provider ref.accountId none)

-- Whether the selector fits the vendors that are represented.
def checkSelector (selector : Selector) (bound : Bool) (members : List (Row × Member)) : Except ReadError Unit :=
  match selector with
  | .inbox _         =>
    require (represented members = []) <|
      .api "stale_selection" "Thread context changed; resolve again"
  | .vendor vendorId =>
    require ((s.vendors.get vendorId).isSome ∧ vendorId ∈ represented members) <|
      if bound then .api "stale_selection" "Vendor context changed; resolve again"
      else .api "not_found" "Retained thread was not found"

-- `_selected_thread`
def selectedThread (selector : Selector) (requested : ThreadRef) (inboxMessage : Option InboxMessageRef) :
    Except ReadError (ThreadRef × List (Row × Member)) := do
  let origin ← selectedOrigin selector inboxMessage
  let ref ← s.resolveThreadRef requested
  let members ← s.selectedMembers ref origin
  s.checkSelector selector origin.isSome members
  return (ref, members)

end Threads

section Readers

def resolvedRelation (owner : Option (Member × String)) (selected : Option String) : Except ReadError String :=
  match selected with
  | none          => return "non_vendor"
  | some selected => do
    let (_, ownerId) ← find owner .type
    return if ownerId = selected then "owned" else "linked"

def resolvedContext (selected : Option String) (thread : Wire) : Except ReadError Wire :=
  match selected with
  | none   => return .object [("kind", .string "non_vendor"), ("thread", thread)]
  | some _ => do
    return .object [("kind", .string "vendor"), ("vendor", ← s.vendor selected), ("thread", thread)]

-- `resolve_inbox`
def resolveInbox (origin : InboxMessageRef) (vendorId : Option String) (limit : Nat) (value : Wire) :
    Except ReadError Wire := do
  let (ref, members) ← s.inboxThread origin
  let represented := represented members
  require (∀ vendorId ∈ represented, (s.vendors.get vendorId).isSome) <|
    .runtime "Retained thread attribution is inconsistent"
  let candidates := (represented.insertionSort (· ≤ ·)).filterMap s.vendors.get
  let owner := followOwner (members.map Prod.snd)
  let ownerVendor ← s.vendor (owner.map Prod.snd)
  let (items, nextCursor) ← page (candidates.map Vendor.dict)
    (candidates.map fun v => .array [.string v.vendorId])
    [("operation", .string "threads.resolve"), ("message_ref", origin.asdict)]
    (.object [("thread_ref", ref.asdict), ("owner_vendor", ownerVendor),
      ("candidates", .array (candidates.map Vendor.dict))])
    limit value
  require (vendorId.all (· ∈ represented)) <|
    .api "stale_selection" "Vendor context changed; resolve again"
  if vendorId = none ∧ 1 < candidates.length then
    return .object [("state", .string "choose_vendor"), ("message_ref", origin.asdict),
      ("thread_ref", ref.asdict), ("owner_vendor", ownerVendor), ("items", .array items),
      ("next_cursor", .ofOption .string nextCursor)]
  else
    let selected := (vendorId.filter (· ≠ "")).or (candidates.head?.map Vendor.vendorId)
    let (subject, epoch) ← s.threadTitle members
    let latestReceivedAt ← receivedAt epoch
    let relation ← resolvedRelation owner selected
    let context ← s.resolvedContext selected (.object [("thread_ref", ref.asdict), ("subject", .string subject),
      ("latest_received_at", latestReceivedAt), ("message_count", .number members.length),
      ("relation", .string relation), ("owner_vendor", ownerVendor)])
    return .object [("state", .string "resolved"), ("message_ref", origin.asdict), ("context", context)]

-- `HISTORY_NOTICE`
def historyNotice : String :=
  "History partial — only locally retained messages are shown"

-- The key that a message is sorted by: its time, its source and its id.
def messageKey (x : Row × Member) : Bool ×ₗ Int ×ₗ String ×ₗ String :=
  toLex (x.snd.epoch.isNone, toLex (x.snd.epoch.getD 0, toLex (x.snd.source, x.fst.message.messageId)))

def messageKeyDict (x : Row × Member) : Wire :=
  .array [.bool x.snd.epoch.isNone, .number (x.snd.epoch.getD 0), .string x.snd.source,
    .string x.fst.message.messageId]

-- An item of `list_messages`.
def messageItem (ref : ThreadRef) (followed : Bool) (x : Row × Member) : Except ReadError Wire := do
  let (row, member) := x
  let messageId := row.message.messageId
  let unit ← find (s.mail.logicalUnit messageId) .assertion
  let attributedVendor ← s.vendor (row.vendorId.filter (· ≠ ""))
  let receivedAt ← receivedAt member.epoch
  let bodyState ← s.project messageId ref.mailboxIdentityKey followed false
  return .object [("message_id", .string messageId), ("subject", .string (s.subject messageId)),
    ("direction", .string row.derived.direction.name), ("sender", .string row.message.sender),
    ("sender_name", .ofOption .string (s.senderName messageId)), ("attributed_vendor", attributedVendor),
    ("received_at", receivedAt), ("body_state", bodyState),
    ("copy_count", .number ((unit.sources.map (·.providerMessageId)).dedup.length))]

def listedRelation (owner : Option (Member × String)) (selector : Selector) : String :=
  match owner with
  | none              => "non_vendor"
  | some (_, ownerId) => if selector = .vendor ownerId then "owned" else "linked"

-- `list_messages`
def listMessages (selector : Selector) (requested : ThreadRef) (inboxMessage : Option InboxMessageRef)
    (limit : Nat) (value : Wire) : Except ReadError Wire := do
  let (ref, members) ← s.selectedThread selector requested inboxMessage
  let owner := followOwner (members.map Prod.snd)
  let relation := listedRelation owner selector
  let ownerVendor ← s.vendor (owner.map Prod.snd)
  let (subject, _) ← s.threadTitle members
  let thread : Wire := .object [("thread_ref", ref.asdict), ("relation", .string relation),
    ("owner_vendor", ownerVendor), ("subject", .string subject), ("history_notice", .string historyNotice)]
  let projected ← members.mapM fun x => do return (x, ← s.messageItem ref owner.isSome x)
  let projected := projected.insertionSort fun x y => messageKey x.fst ≤ messageKey y.fst
  let (items, nextCursor) ← page (projected.map Prod.snd) (projected.map fun x => messageKeyDict x.fst)
    (("operation", .string "threads.messages") :: readSelector selector requested inboxMessage)
    (.object [("thread", thread),
      ("messages", .array (projected.map fun x => .array [messageKeyDict x.fst, x.snd]))])
    limit value
  return .object [("thread", thread), ("items", .array items), ("next_cursor", .ofOption .string nextCursor)]

-- `read_body`
def readBody (selector : Selector) (requested : ThreadRef) (messageId : String)
    (inboxMessage : Option InboxMessageRef) : Except ReadError Wire := do
  let (ref, members) ← s.selectedThread selector requested inboxMessage
  require (members.any fun x => x.fst.message.messageId = messageId) <|
    .api "not_found" "Retained message was not found"
  let followed := (followOwner (members.map Prod.snd)).isSome
  let body ← s.project messageId ref.mailboxIdentityKey followed true
  return .object [("thread_ref", ref.asdict), ("message_id", .string messageId), ("body", body)]

end Readers

end Store

end ThreadReads
