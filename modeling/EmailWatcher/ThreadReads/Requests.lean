import EmailWatcher.ThreadReads.Readers

-- The queries of the host, and how the engine takes them.
namespace Threads

def ThreadRef.toWire (r : ThreadRef) : Wire :=
  .object [("provider", .string r.provider), ("account_id", .string r.accountId),
    ("mailbox_identity_key", .ofOption .string r.mailboxIdentityKey), ("thread_key", .string r.threadKey)]

def InboxMessageRef.toWire (r : InboxMessageRef) : Wire :=
  .object [("provider", .string r.provider), ("account_id", .string r.accountId),
    ("mailbox_identity_key", .ofOption .string r.mailboxIdentityKey), ("message_id", .string r.messageId)]

def paging (limit : Fin 65536) (cursor : Option String) : List (String × Wire) :=
  [("limit", .number limit.val), ("cursor", .ofOption .string cursor)]

inductive ThreadResolveQuery
  | choice     (messageRef : InboxMessageRef) (vendorId : String)
  | candidates (messageRef : InboxMessageRef) (limit : Fin 65536) (cursor : Option String)
  deriving DecidableEq, Repr

namespace ThreadResolveQuery

def origin : ThreadResolveQuery → InboxMessageRef
  | choice messageRef _       => messageRef
  | candidates messageRef _ _ => messageRef

def vendor : ThreadResolveQuery → Option String
  | choice _ vendorId => some vendorId
  | candidates _ _ _  => none

def toWire : ThreadResolveQuery → Wire
  | choice messageRef vendorId         =>
    .object [("message_ref", messageRef.toWire), ("vendor_id", .string vendorId)]
  | candidates messageRef limit cursor => .object (("message_ref", messageRef.toWire) :: paging limit cursor)

end ThreadResolveQuery

def ThreadSelector.members : ThreadSelector → List (String × Wire)
  | .vendor vendorId threadRef inboxMessage =>
    [("vendor_id", .string vendorId), ("thread_ref", threadRef.toWire)] ++
      (inboxMessage.map fun m => ("inbox_message", m.toWire)).toList
  | .inbox threadRef messageRef             =>
    [("inbox_thread", .object [("thread_ref", threadRef.toWire), ("message_ref", messageRef.toWire)])]

structure ThreadMessagesQuery where
  selector : ThreadSelector
  limit    : Fin 65536
  cursor   : Option String
  deriving DecidableEq, Repr

def ThreadMessagesQuery.toWire (q : ThreadMessagesQuery) : Wire :=
  .object (q.selector.members ++ paging q.limit q.cursor)

structure ThreadBodyQuery where
  selector  : ThreadSelector
  messageId : String
  deriving DecidableEq, Repr

def ThreadBodyQuery.toWire (q : ThreadBodyQuery) : Wire :=
  .object (q.selector.members ++ [("message_id", .string q.messageId)])

end Threads

namespace ThreadReads

open Mail (Provider)
open Threads (Wire)
open Transaction

variable [Stdlib]

section Fields

def invalid (message : String) : ReadError :=
  .api "invalid_request" message

-- `payload.get(name, default)`
def getOr (payload : Wire) (name : String) (default : Wire) : Wire :=
  (payload.member name).getD default

-- `_payload`
def payload (request : Wire) (allowed : List String) : Except ReadError Unit :=
  match request with
  | .object members =>
    let unknown := (members.map Prod.fst).filter (· ∉ allowed)
    require (unknown = []) <|
      invalid ("Unsupported payload fields: " ++ ", ".intercalate (unknown.insertionSort (· ≤ ·)))
  | _               => throw <| invalid "payload must be an object"

-- `_mail_provider`
def mailProvider (value : Wire) : Except ReadError Provider := do
  let text ← find value.asString <| invalid "provider must be a non-empty string"
  require (strip text ≠ "" ∧ text.length ≤ 64) <| invalid "provider must be a non-empty string"
  find ([Provider.gmail, .imap, .microsoft365].find? (·.name = Stdlib.casefold (strip text))) <|
    .api "unsupported_provider" "That email provider is not available"

-- `_mail_account_key`
def mailAccountKey (value : Wire) : Except ReadError (Provider × String) := do
  let provider ← mailProvider (getOr value "provider" .null)
  let accountId ← find (getOr value "account_id" .null).asString <|
    invalid "account_id must be a non-empty string"
  require (strip accountId ≠ "" ∧ accountId.length ≤ 128) <|
    invalid "account_id must be a non-empty string"
  return (provider, strip accountId)

-- `_require_mailbox_identity_key`, unless it is `null`.
def mailboxIdentityKey (value : Wire) : Except ReadError (Option String) :=
  match value with
  | .null => return none
  | _     => do
    let identity ← find (asDigest value) <|
      invalid "mailbox identity key must be a lower-case SHA-256 digest"
    return some identity

-- An `ApiError` of any code becomes an invalid request.
def asInvalid {α : Type} (x : Except ReadError α) : Except ReadError α :=
  match x with
  | .error (.api _ message) => .error (invalid message)
  | x                       => x

-- `_thread_ref`
def threadRef (value : Wire) : Except ReadError ThreadRef := do
  require ((value.fields ["provider", "account_id", "mailbox_identity_key", "thread_key"]).isSome ∧
    value.size = 4) <| invalid "thread_ref requires exactly the complete scope"
  asInvalid do
    let (provider, accountId) ← mailAccountKey value
    let identity ← mailboxIdentityKey (getOr value "mailbox_identity_key" .null)
    let key ← find (((getOr value "thread_key" .null).asString).filter fun key =>
        key ≠ "" ∧ key.utf8ByteSize ≤ 512) <|
      invalid "thread_key must be nonempty text of at most 512 UTF-8 bytes"
    return ⟨provider, accountId, identity, key⟩

-- `_inbox_message_ref`
def inboxMessageRef (value : Wire) : Except ReadError InboxMessageRef := do
  require ((value.fields ["provider", "account_id", "mailbox_identity_key", "message_id"]).isSome ∧
    value.size = 4) <| invalid "message_ref requires exactly the complete scope"
  let (provider, accountId, identity) ← asInvalid do
    let (provider, accountId) ← mailAccountKey value
    let identity ← mailboxIdentityKey (getOr value "mailbox_identity_key" .null)
    return (provider, accountId, identity)
  let message ← find (((getOr value "message_id" .null).asString).filter (· ≠ "")) <|
    invalid "message_id must be a non-empty string"
  return ⟨provider, accountId, identity, message⟩

-- `_vendor_id`
def vendorId (payload : Wire) : Except ReadError String :=
  find ((getOr payload "vendor_id" .null).asString.filter (validUuidV4 ·)) <|
    invalid "vendor_id must be a canonical UUIDv4 string"

-- `_bounded_limit`, with the bounds of the threads.
def boundedLimit (payload : Wire) : Except ReadError Nat :=
  match getOr payload "limit" (.number 25) with
  | .number n =>
    if 1 ≤ n ∧ n ≤ 100 then return n.toNat
    else throw <| invalid "limit must be an integer between 1 and 100"
  | _         => throw <| invalid "limit must be an integer between 1 and 100"

end Fields

section Handlers

variable (s : Store)

-- `_threads_resolve`
def threadsResolve (request : Wire) : Except ReadError Wire := do
  payload request ["message_ref", "vendor_id", "limit", "cursor"]
  let ref ← inboxMessageRef (getOr request "message_ref" .null)
  let vendor ← if (request.member "vendor_id").isSome then some <$> vendorId request else pure none
  require (¬(vendor.isSome ∧ ((request.member "limit").isSome ∨ (request.member "cursor").isSome))) <|
    invalid "Explicit vendor choice does not accept paging fields"
  let limit ← boundedLimit request
  s.resolveInbox ref vendor limit (getOr request "cursor" .null)

-- `_thread_read_selector`
def threadReadSelector (request : Wire) : Except ReadError (Selector × ThreadRef × Option InboxMessageRef) :=
  match request.member "inbox_thread" with
  | some value => do
    require ((request.member "vendor_id").isNone ∧ (request.member "thread_ref").isNone ∧
      (request.member "inbox_message").isNone) <| invalid "Thread selectors cannot be mixed"
    require ((value.fields ["thread_ref", "message_ref"]).isSome ∧ value.size = 2) <|
      invalid "inbox_thread requires a thread and message reference"
    let messageRef ← inboxMessageRef (getOr value "message_ref" .null)
    let ref ← threadRef (getOr value "thread_ref" .null)
    return (.inbox messageRef, ref, none)
  | none       => do
    let vendor ← vendorId request
    let ref ← threadRef (getOr request "thread_ref" .null)
    let inboxMessage ← match request.member "inbox_message" with
      | some value => some <$> inboxMessageRef value
      | none       => pure none
    return (.vendor vendor, ref, inboxMessage)

-- `_threads_messages`
def threadsMessages (request : Wire) : Except ReadError Wire := do
  payload request ["vendor_id", "thread_ref", "inbox_message", "inbox_thread", "limit", "cursor"]
  let (selector, ref, origin) ← threadReadSelector request
  let limit ← boundedLimit request
  s.listMessages selector ref origin limit (getOr request "cursor" .null)

-- `_threads_body`
def threadsBody (request : Wire) : Except ReadError Wire := do
  payload request ["vendor_id", "thread_ref", "inbox_message", "inbox_thread", "message_id"]
  let (selector, ref, origin) ← threadReadSelector request
  let message ← find ((getOr request "message_id" .null).asString.filter (strip · ≠ "")) <|
    invalid "message_id must be a non-empty string"
  s.readBody selector ref message origin

end Handlers

end ThreadReads
