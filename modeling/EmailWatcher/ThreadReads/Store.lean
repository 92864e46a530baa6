import EmailWatcher.Mail.Removal
import EmailWatcher.Threads.Decode
import Mathlib.Data.List.MinMax
import Mathlib.Data.Prod.Lex

-- What is read of the retained mail: the logical messages, and the threads that they form.
namespace ThreadReads

open Mail (Provider)
open Threads (Wire)
open Transaction

-- What is raised. A `ThreadReadError` becomes an `ApiError` of the same code.
inductive ReadError
  | api     (code message : String)
  | runtime (message : String)
  | key     (key : String)
  | value   (message : String)
  | type
  | assertion
  deriving DecidableEq, Repr

-- What is called of the standard library.
class Stdlib where
  -- `datetime.fromisoformat`, of an aware time, as it is or in UTC.
  fromIsoFormat : String → Option Instant
  -- `datetime.fromtimestamp(epoch, UTC).isoformat()`, if that does not raise.
  isoFormat     : Instant → Option String
  -- `str.casefold`
  casefold      : String → String
  -- The digest of the JSON of a value.
  digest        : Wire → String
  -- A value as the text of a cursor, and back: canonical base64 of JSON without duplicate keys.
  encodeToken   : Wire → String
  decodeToken   : String → Option Wire

-- A row of `message_derived`.
structure Derived where
  messageId : String
  direction : Threads.ThreadDirection
  vendorId  : Option String
  deriving DecidableEq, Repr

instance : Keyed Derived String where
  key := Derived.messageId

-- A row of `vendors`.
structure Vendor where
  vendorId    : String
  displayName : String
  deriving DecidableEq, Repr

instance : Keyed Vendor String where
  key := Vendor.vendorId

def Vendor.dict (v : Vendor) : Wire :=
  .object [("vendor_id", .string v.vendorId), ("display_name", .string v.displayName)]

-- The stored mail, with the columns of `messages` and of `message_bodies` that only these readers read. There
-- are no more rows than there can be row ids, and no integers but those of a column.
structure Store where
  mail        : Mail.Store
  derived     : Table Derived
  vendors     : Table Vendor
  subject     : String → String
  senderName  : String → Option String
  storedChars : String → Int
  messages_lt : mail.messages.rows.length < 0x8000000000000000
  located_lt  : mail.locations.rows.length < 0x8000000000000000
  source_lt   : ∀ b ∈ mail.bodies, b.sourceChars < 0x8000000000000000

structure ThreadRef where
  provider           : Provider
  accountId          : String
  mailboxIdentityKey : Option String
  threadKey          : String
  deriving DecidableEq, Repr

def ThreadRef.asdict (r : ThreadRef) : Wire :=
  .object [("provider", .string r.provider.name), ("account_id", .string r.accountId),
    ("mailbox_identity_key", .ofOption .string r.mailboxIdentityKey), ("thread_key", .string r.threadKey)]

structure InboxMessageRef where
  provider           : Provider
  accountId          : String
  mailboxIdentityKey : Option String
  messageId          : String
  deriving DecidableEq, Repr

def InboxMessageRef.asdict (r : InboxMessageRef) : Wire :=
  .object [("provider", .string r.provider.name), ("account_id", .string r.accountId),
    ("mailbox_identity_key", .ofOption .string r.mailboxIdentityKey), ("message_id", .string r.messageId)]

section Members

-- A logical message, joined to what is derived of it.
structure Row where
  message  : Mail.Message
  identity : Option String
  derived  : Derived
  deriving DecidableEq, Repr

def Row.vendorId (r : Row) : Option String :=
  r.derived.vendorId

-- The newest time, which is infinite where no time is in order, the first source, and the vendor.
structure Member where
  epoch  : Option Instant
  source : String
  vendor : Option String
  deriving DecidableEq, Repr

def ThreadRef.has (r : ThreadRef) (m : Mail.Message) (identity : Option String) : Bool :=
  m.provider = r.provider ∧ m.accountId = r.accountId ∧ identity = r.mailboxIdentityKey ∧
  m.threadKey = some r.threadKey

namespace Store

variable (s : Store)

-- `_thread_member`
def threadMember [Stdlib] (m : Mail.Message) (vendor : Option String) : Except ReadError Member := do
  let unit ← find (s.mail.logicalUnit m.messageId) .assertion
  let timestamps := unit.sources.filterMap fun x => Stdlib.fromIsoFormat x.receivedAt
  let source ← find ((unit.sources.map (·.providerMessageId)).argmin id) <|
    .value "min() iterable argument is empty"
  return ⟨timestamps.max?, source, vendor⟩

def rows (provider : Provider) (accountId : String) : List Row :=
  (s.mail.logicalMessages.filter fun m => m.provider = provider ∧ m.accountId = accountId).filterMap fun m =>
    (s.derived.get m.messageId).map fun d => ⟨m, s.mail.effectiveIdentity m, d⟩

-- `_members`, of an account or of one thread of it.
def members [Stdlib] (provider : Provider) (accountId : String) (thread : Option ThreadRef) :
    Except ReadError (List (Row × Member)) :=
  ((s.rows provider accountId).filter fun r => thread.all (·.has r.message r.identity)).mapM fun r => do
    return (r, ← s.threadMember r.message r.vendorId)

-- `.get(ref, [])`
def group (ref : ThreadRef) (members : List (Row × Member)) : List (Row × Member) :=
  members.filter fun x => ref.has x.fst.message x.fst.identity

-- `_follow_owner`, with the vendor.
def followOwner (members : List Member) : Option (Member × String) :=
  (members.filterMap fun m => m.vendor.map (m, ·)).argmin fun (m, vendor) =>
    toLex (m.epoch.isNone, toLex (m.epoch.getD 0, toLex (m.source, vendor)))

-- `_newest`
def newest (m : Member) : Bool ×ₗ Int ×ₗ String :=
  toLex (m.epoch.isNone, toLex (-m.epoch.getD 0, m.source))

-- `_thread_title`: the subject, and the time of the newest member.
def threadTitle (members : List (Row × Member)) : Except ReadError (String × Option Instant) := do
  let (latest, order) ← find (members.argmin fun x => newest x.snd) <|
    .value "min() iterable argument is empty"
  let subject := s.subject latest.message.messageId
  return (if subject = "" then "No subject" else subject, order.epoch)

-- `represented`
def represented (members : List (Row × Member)) : List String :=
  (members.filterMap fun x => x.fst.vendorId).dedup

-- `datetime.fromtimestamp(epoch, UTC).isoformat() if math.isfinite(epoch) else None`
def receivedAt [Stdlib] (epoch : Option Instant) : Except ReadError Wire :=
  match epoch with
  | none   => return .null
  | some t => return .string (← find (Stdlib.isoFormat t) (.value "year is out of range"))

end Store

end Members

section Bodies

-- `MAX_STORED_BODY_CHARS`
def maxStoredBodyChars : Nat :=
  200000

def reason : Mail.UnavailableReason → String
  | .sourceGone     => "source_gone"
  | .outsideFolders => "outside_folders"

def bodyStatus (state : String) : Wire :=
  .object [("state", .string state)]

-- `body_state.project`
def Store.project (s : Store) (messageId : String) (mailboxIdentityKey : Option String)
    (threadFollowed includeText : Bool) : Except ReadError Wire := do
  let unit ← find (s.mail.logicalUnit messageId) <| .runtime "Retained body membership is unavailable"
  if unit.rows.any fun row => !s.mail.messageAvailable Mail.CONTENT row then
    return bodyStatus "removal_pending"
  else if !threadFollowed then
    return bodyStatus "not_followed"
  else if mailboxIdentityKey = none then
    return bodyStatus "mailbox_identity_unavailable"
  else
    require (s.mail.logicalMessages.any fun m => m.messageId = messageId && s.mail.followed m) <|
      .runtime "Retained body follow state is inconsistent"
    match s.mail.bodies.get messageId with
    | some stored =>
      let count := s.storedChars messageId
      let source := stored.sourceChars
      require (0 ≤ count ∧ count ≤ maxStoredBodyChars ∧ count ≤ source) <|
        .runtime "Stored body lengths are invalid"
      let result : List (String × Wire) :=
        [("state", .string "stored"), ("stored_chars", .number count), ("source_chars", .number source)]
      if includeText then
        require ((stored.text.length : Int) = count) <| .runtime "Stored body text is invalid"
        return .object (result ++ [("text", .string stored.text)])
      else return .object result
    | none        =>
      match s.mail.unavailable.get messageId with
      | none        => return bodyStatus "pending"
      | some marker => return bodyStatus (reason marker.reason)

end Bodies

end ThreadReads
