import Mathlib.Data.List.Sort
import Mathlib.Data.Prod.Lex
import EmailWatcher.Basic
import EmailWatcher.Library.Machine
import EmailWatcher.Library.Table
import EmailWatcher.Library.Transaction

-- The stored mail, the threads that it forms, and the removals that are under way.
namespace Mail

inductive Provider
  | gmail
  | microsoft365
  | imap
  deriving DecidableEq, Repr

def Provider.name : Provider → String
  | gmail        => "gmail"
  | microsoft365 => "microsoft365"
  | imap         => "imap"

inductive LegacyStatus
  | continuityProven
  | replacement
  | unresolved
  deriving DecidableEq, Repr

inductive Status
  | pending
  | analyzed
  | summarized
  | skipped
  deriving DecidableEq, Repr

inductive Folder
  | inbox
  | sent
  deriving DecidableEq, Repr

inductive Kind
  | delete
  | clear
  | unfollow
  deriving DecidableEq, Repr

inductive RemovalState
  | pending
  | completed
  deriving DecidableEq, Repr

-- A row of `mail_accounts`.
structure Account where
  provider             : Provider
  accountId            : String
  mailboxIdentityKey   : Option String
  legacyIdentityStatus : LegacyStatus
  legacyIdentityKey    : Option String
  deriving DecidableEq, Repr

instance : Keyed Account (Provider × String) where
  key a := (a.provider, a.accountId)

-- A row of `messages`. A row with a `logicalOf` is a copy of the message that it names. The
-- columns that only analysis and display read are left out.
structure Message where
  messageId          : String
  provider           : Provider
  accountId          : String
  mailboxIdentityKey : Option String
  providerMessageId  : String
  threadKey          : Option String
  rfcMessageId       : Option String
  logicalOf          : Option String
  sender             : String
  receivedAt         : String
  status             : Status
  notified           : Bool
  deriving DecidableEq, Repr

instance : Keyed Message String where
  key := Message.messageId

-- The row that stands for the message to readers.
def Message.canonical (m : Message) : String :=
  m.logicalOf.getD m.messageId

-- A row of `message_locations`.
structure Location where
  messageId          : String
  provider           : Provider
  accountId          : String
  mailboxIdentityKey : String
  providerMessageId  : String
  location           : Folder
  receivedAt         : Option String
  deriving DecidableEq, Repr

instance : Keyed Location (Provider × String × String × String × Folder) where
  key l := (l.provider, l.accountId, l.mailboxIdentityKey, l.providerMessageId, l.location)

structure Scope where
  provider           : Provider
  accountId          : String
  mailboxIdentityKey : String
  deriving DecidableEq, Repr

-- A row of `imap_thread_ids`.
structure ThreadId where
  scope     : Scope
  rfcId     : String
  threadKey : String
  deriving DecidableEq, Repr

instance : Keyed ThreadId (Scope × String) where
  key t := (t.scope, t.rfcId)

-- A row of `thread_key_aliases`.
structure Alias where
  oldKey      : String
  survivorKey : String
  deriving DecidableEq, Repr

instance : Keyed Alias String where
  key := Alias.oldKey

-- A row of `thread_follow`.
structure Follow where
  scope     : Scope
  threadKey : String
  followed  : Bool
  deriving DecidableEq, Repr

instance : Keyed Follow (Scope × String) where
  key f := (f.scope, f.threadKey)

-- A row of `thread_watermarks`.
structure Watermark where
  scope         : Scope
  threadKey     : String
  syncedThrough : String
  deriving DecidableEq, Repr

instance : Keyed Watermark (Scope × String) where
  key w := (w.scope, w.threadKey)

-- A row of `reconcile_catchup`. Targets are compared as text.
structure Catchup where
  scope      : Scope
  generation : Nat
  threadKey  : String
  target     : String
  deriving DecidableEq, Repr

instance : Keyed Catchup (Scope × Nat × String) where
  key c := (c.scope, c.generation, c.threadKey)

-- A row of `suppressed_messages`.
structure Suppressed where
  provider   : Provider
  accountId  : String
  messageKey : String
  expiresAt  : Instant
  deriving DecidableEq, Repr

instance : Keyed Suppressed (Provider × String × String) where
  key x := (x.provider, x.accountId, x.messageKey)

-- A row of `message_bodies`.
structure Body where
  messageId   : String
  text        : String
  sourceChars : Nat
  fetchedAt   : Instant
  deriving DecidableEq, Repr

instance : Keyed Body String where
  key := Body.messageId

inductive UnavailableReason
  | sourceGone
  | outsideFolders
  deriving DecidableEq, Repr

-- A row of `message_body_unavailable`.
structure BodyUnavailable where
  messageId : String
  reason    : UnavailableReason
  deriving DecidableEq, Repr

instance : Keyed BodyUnavailable String where
  key := BodyUnavailable.messageId

-- `_SourceIdentity`.
structure Source where
  provider           : Provider
  accountId          : String
  mailboxIdentityKey : Option String
  providerMessageId  : String
  receivedAt         : String
  deriving DecidableEq, Repr

instance : Keyed Source (Provider × String × Option String × String) where
  key x := (x.provider, x.accountId, x.mailboxIdentityKey, x.providerMessageId)

def Message.source (m : Message) : Source where
  provider           := m.provider
  accountId          := m.accountId
  mailboxIdentityKey := m.mailboxIdentityKey
  providerMessageId  := m.providerMessageId
  receivedAt         := m.receivedAt

-- A removal request key `rm1.<expires>.<nonce>.<signature>`. A text of another form is refused
-- before it can name a request.
structure Key where
  expires   : Nat
  nonce     : String
  signature : String
  deriving DecidableEq, Repr

-- The parameters of a removal request. `delete` names one message, `unfollow` several.
inductive Parameters
  | messageId  (id : String)
  | messageIds (ids : List String)
  | other      (json : String)
  deriving DecidableEq, Repr

-- A row of `message_removal_requests`.
structure Request where
  requestId        : Key
  kind             : Kind
  parametersSha256 : String
  acceptedAt       : Instant
  deriving DecidableEq, Repr

instance : Keyed Request Key where
  key := Request.requestId

-- A row of `message_removal_intents`.
structure Intent where
  intentId           : String
  requestId          : Key
  kind               : Kind
  provider           : Provider
  accountId          : String
  mailboxIdentityKey : Option String
  acceptedAt         : Instant
  state              : RemovalState
  requestedCount     : Nat
  completedCount     : Nat
  settledAt          : Option Instant
  deriving DecidableEq, Repr

instance : Keyed Intent String where
  key := Intent.intentId

-- A row of `message_removal_targets`.
structure Target where
  intentId          : String
  logicalTargetId   : String
  messageId         : String
  provider          : Provider
  accountId         : String
  storedIdentityKey : Option String
  providerMessageId : String
  sourceIdentities  : List Source
  state             : RemovalState
  settledAt         : Option Instant
  deriving DecidableEq, Repr

instance : Keyed Target (String × String) where
  key t := (t.intentId, t.messageId)

-- The hashes and the parsers of the standard library that the store calls.
class Codec where
  requestHash   : Kind → Parameters → String
  signature     : Nat → String → Kind → String → String
  sha256        : String → String
  fromIsoFormat : String → Option Instant
  isPrintable   : Char → Bool
  isSpace       : Char → Bool

structure Store where
  clock       : Instant
  accounts    : Table Account
  messages    : Table Message
  locations   : Table Location
  threadIds   : Table ThreadId
  aliases     : Table Alias
  follows     : Table Follow
  watermarks  : Table Watermark
  catchup     : Table Catchup
  suppressed  : Table Suppressed
  bodies      : Table Body
  unavailable : Table BodyUnavailable
  requests    : Table Request
  intents     : Table Intent
  targets     : Table Target

-- `_LogicalUnit`.
structure LogicalUnit where
  rows    : List String
  sources : List Source
  deriving DecidableEq, Repr

namespace Store

-- `_effective_message_identity_sql`.
def effectiveIdentity (s : Store) (m : Message) : Option String :=
  m.mailboxIdentityKey.or <| (s.accounts.get (m.provider, m.accountId)).bind fun a =>
    if a.legacyIdentityStatus = .continuityProven then a.legacyIdentityKey else none

section LogicalUnit

-- `_logical_unit_members_sql`, in the order of the message ids.
def members (s : Store) (canonical : String) : List Message :=
  s.messages.rows.filter (fun m => m.messageId = canonical || m.logicalOf = some canonical)
    |>.insertionSort (·.messageId ≤ ·.messageId)

-- The sources that are recorded as places of the message but have no row of their own.
def locatedSources (s : Store) (canonical : String) : List Source :=
  match s.messages.get canonical with
  | none   => []
  | some m =>
    s.locations.rows.filter (·.messageId = canonical) |>.map fun l => {
      provider           := m.provider
      accountId          := m.accountId
      mailboxIdentityKey := some l.mailboxIdentityKey
      providerMessageId  := l.providerMessageId
      receivedAt         := l.receivedAt.getD m.receivedAt
    }

-- The dictionary of sources: a later row replaces the time of an earlier one, a place does not.
def unitSources (s : Store) (canonical : String) : Table Source :=
  (s.locatedSources canonical).foldl Table.insertOrIgnore <|
    ((s.members canonical).map Message.source).foldl Table.put ∅

-- `_logical_unit`.
def logicalUnit (s : Store) (messageId : String) : Option LogicalUnit :=
  (s.messages.get messageId).map fun m => {
    rows    := (s.members m.canonical).map Message.messageId
    sources := (s.unitSources m.canonical).rows
  }

end LogicalUnit

section Deletion

-- Trigger `messages_release_imap_component`: the last row of a component takes its ids and the
-- aliases that lead to it along.
def releaseImapComponent (s : Store) (old : Message) : Store :=
  match old.threadKey with
  | none     => s
  | some key =>
    let shared (m : Message) : Bool :=
      m.provider = old.provider && m.accountId = old.accountId && m.threadKey = some key
    if old.provider = .imap ∧ !s.messages.rows.any shared then { s with
      threadIds := s.threadIds.delete fun t =>
        t.scope.provider = old.provider && t.scope.accountId = old.accountId && t.threadKey = key
      aliases := s.aliases.delete (·.survivorKey = key)
    } else
      s

-- `DELETE FROM messages` for one row, with the triggers that do not delete further messages.
def deleteRow (s : Store) (messageId : String) : Store :=
  match s.messages.get messageId with
  | none     => s
  | some old =>
    let s := { s with
      messages    := s.messages.delete (·.messageId = messageId)
      locations   := s.locations.delete (·.messageId = messageId)
      bodies      := s.bodies.delete (·.messageId = messageId)
      unavailable := s.unavailable.delete (·.messageId = messageId)
    }
    s.releaseImapComponent old

-- The rows that `messages_delete_recipients_and_locations` deletes along with the given ones. The
-- trigger is recursive, and no chain of copies is longer than the table.
def withCopies (s : Store) : Nat → List String → List String
  | 0,     ids => ids
  | n + 1, ids =>
    ids ++ s.withCopies n ((s.messages.rows.filter (·.logicalOf.any (· ∈ ids))).map (·.messageId))

-- `DELETE FROM messages WHERE message_id IN ids`.
def deleteMessages (s : Store) (ids : List String) : Store :=
  (s.withCopies s.messages.rows.length ids).foldl deleteRow s

end Deletion

end Store

end Mail
