import Mathlib.Algebra.GroupWithZero.Nat
import EmailWatcher.Mail.Schema

-- Removal requests: acceptance freezes what is to be removed, completion removes it.
namespace Mail

open Transaction

section Eligibility

-- A stored row, or a source that is about to become one.
structure Candidate where
  messageId          : Option String
  provider           : Provider
  accountId          : String
  mailboxIdentityKey : Option String
  providerMessageId  : String
  deriving DecidableEq, Repr

def Message.candidate (m : Message) : Candidate where
  messageId          := m.messageId
  provider           := m.provider
  accountId          := m.accountId
  mailboxIdentityKey := m.mailboxIdentityKey
  providerMessageId  := m.providerMessageId

-- Which removals an operation has to respect.
structure Eligibility where
  includeUnfollow : Bool

def CONTENT : Eligibility := ⟨true⟩

def RECORD : Eligibility := ⟨false⟩

def Eligibility.covers (e : Eligibility) (k : Kind) : Bool :=
  e.includeUnfollow || k = .delete || k = .clear

namespace Target

-- The target was frozen from the candidate's own row.
def sameBinding (t : Target) (c : Candidate) : Bool :=
  c.messageId = some t.messageId && t.storedIdentityKey = c.mailboxIdentityKey &&
    t.providerMessageId = c.providerMessageId

def sameSource (t : Target) (i : Intent) (c : Candidate) : Bool :=
  t.providerMessageId = c.providerMessageId && i.mailboxIdentityKey = c.mailboxIdentityKey

def frozenSource (t : Target) (c : Candidate) : Bool :=
  t.sourceIdentities.any fun x =>
    x.provider = c.provider && x.accountId = c.accountId &&
      x.mailboxIdentityKey = c.mailboxIdentityKey && x.providerMessageId = c.providerMessageId

-- The row is still the one that was frozen.
def isRow (t : Target) (m : Message) : Bool :=
  t.messageId = m.messageId && t.provider = m.provider && t.accountId = m.accountId &&
    t.storedIdentityKey = m.mailboxIdentityKey && t.providerMessageId = m.providerMessageId

-- The candidate belongs to the logical unit that was frozen.
def holds (t : Target) (i : Intent) (c : Candidate) : Bool :=
  t.provider = c.provider && t.accountId = c.accountId &&
    (t.sameBinding c || t.sameSource i c || t.frozenSource c)

end Target

namespace Store

variable (s : Store) (e : Eligibility)

def withholds (c : Candidate) (t : Target) (i : Intent) : Bool :=
  i.intentId = t.intentId && t.state = .pending && i.state = .pending && e.covers i.kind && t.holds i c

-- `available_sql`, which `source_available` evaluates for a candidate source.
def available (c : Candidate) : Bool :=
  !s.targets.rows.any fun t => s.intents.rows.any fun i => withholds e c t i

-- `message_available`, for callers that require the source and retain no other binding of it.
def messageAvailable (messageId : String) : Bool :=
  (s.messages.get messageId).any fun m => s.available e m.candidate

-- The view `logical_messages`.
def logicalMessages : List Message :=
  s.messages.rows.filter fun m => m.logicalOf = none && s.available RECORD m.candidate

-- `_followed_message_sql`.
def followed (m : Message) : Bool :=
  match s.effectiveIdentity m, m.threadKey with
  | some identity, some key => (s.follows.get (⟨m.provider, m.accountId, identity⟩, key)).any (·.followed)
  | _,             _        => false

end Store

end Eligibility

section Keys

variable [Codec]

def maxRetentionDays : Nat := 3650

def days (n : Int) : Int := n * (24 * 60 * 60 * Instant.second)

def Key.expiry (key : Key) : Instant := key.expires * Instant.second

-- `_issue_key`. The nonce is drawn at random.
def issueKey (kind : Kind) (parameters : Parameters) (retentionDays : Int) (nonce : String)
    (now : Instant) : Except StoreError Key := do
  require (1 ≤ retentionDays) <| .value "Invalid removal retention interval"
  let expires := ((now + days retentionDays) / Instant.second).toNat
  return {
    expires   := expires
    nonce     := nonce
    signature := Codec.signature expires nonce kind (Codec.requestHash kind parameters)
  }

-- `_parse_key`.
def parseKey (key : Key) (kind : Kind) (fingerprint : String) : Except StoreError Instant := do
  require (key.signature = Codec.signature key.expires key.nonce kind fingerprint) <|
    .value "Local removal request key does not match its parameters"
  return key.expiry

-- `validate_key`.
def validateKey (key : Key) (kind : Kind) (fingerprint : String) (now : Instant) :
    Except StoreError Unit := do
  let expiry ← parseKey key kind fingerprint
  require (now < expiry) <| .value "Local removal request key has expired; start a new request"

end Keys

structure Outcome where
  requestId : Key
  intentIds : List String
  kind      : Kind
  requested : Nat
  completed : Nat
  deriving DecidableEq, Repr

namespace Store

section Receipts

def intentsOf (s : Store) (key : Key) : List Intent :=
  s.intents.rows.filter (·.requestId = key)

def receipt (s : Store) (r : Request) : Outcome :=
  let children := (s.intentsOf r.requestId).insertionSort (·.intentId ≤ ·.intentId)
  {
    requestId := r.requestId
    intentIds := children.map (·.intentId)
    kind      := r.kind
    requested := (children.map (·.requestedCount)).sum
    completed := (children.map (·.completedCount)).sum
  }

-- `outcome`, for a caller that names the kind and the fingerprint it asks about or neither.
def outcome (s : Store) (key : Key) (asked : Option (Kind × String)) :
    Except StoreError (Option Outcome) := do
  match s.requests.get key with
  | none   => return none
  | some r =>
    require (asked.all (· = (r.kind, r.parametersSha256))) <|
      .value "Removal request key was already used with different parameters"
    return some (s.receipt r)

-- `status`.
def status [Codec] (s : Store) (key : Key) (asked : Option (Kind × Parameters)) :
    Except StoreError (Option Outcome) := do
  let result ← s.outcome key <| asked.map fun (kind, p) => (kind, Codec.requestHash kind p)
  match result, asked with
  | some result, _              => return some result
  | none,        none           => throw <| .value "Local removal request has not been accepted"
  | none,        some (kind, p) =>
    validateKey key kind (Codec.requestHash kind p) s.clock
    return none

end Receipts

section Acceptance

abbrev Binding := Provider × String × Option String

-- The unit of a message goes to the group of its binding.
def groupUnit (s : Store) (groups : Table (Binding × Table (String × LogicalUnit)))
    (messageId : String) : Table (Binding × Table (String × LogicalUnit)) :=
  match s.messages.get messageId, s.logicalUnit messageId with
  | some row, some unit =>
    -- `row["logical_of"] or row["message_id"]`.
    let canonical := (row.logicalOf.filter (· ≠ "")).getD row.messageId
    let binding : Binding := (row.provider, row.accountId, s.effectiveIdentity row)
    let units := ((groups.get binding).map Prod.snd).getD ∅
    groups.put (binding, units.put (canonical, unit))
  | _, _ => groups

-- The units to freeze by the binding that an intent is for.
def removalGroups (s : Store) (messageIds : List String) :
    Table (Binding × Table (String × LogicalUnit)) :=
  messageIds.foldl s.groupUnit ∅

-- The row of a unit as the intent freezes it.
def frozenTarget (i : Intent) (canonical : String) (sources : List Source) (row : Message) :
    Target where
  intentId          := i.intentId
  logicalTargetId   := canonical
  messageId         := row.messageId
  provider          := row.provider
  accountId         := row.accountId
  storedIdentityKey := row.mailboxIdentityKey
  providerMessageId := row.providerMessageId
  sourceIdentities  := sources
  state             := .pending
  settledAt         := none

def freezeRow (s : Store) (i : Intent) (canonical : String) (sources : List Source)
    (messageId : String) : Except StoreError Store := do
  let row ← find (s.messages.get messageId) <| .type "'NoneType' object is not subscriptable"
  require (row.provider = i.provider ∧ row.accountId = i.accountId) <|
    .integrity "FOREIGN KEY constraint failed"
  let targets ← find (s.targets.insert (frozenTarget i canonical sources row)) <|
    .integrity "UNIQUE constraint failed: message_removal_targets"
  return { s with targets := targets }

def freezeUnit (i : Intent) (s : Store) (unit : String × LogicalUnit) : Except StoreError Store :=
  unit.snd.rows.foldlM (fun s messageId => s.freezeRow i unit.fst unit.snd.sources messageId) s

def newIntent (key : Key) (kind : Kind) (acceptedAt : Instant) (intentId : String)
    (group : Binding × Table (String × LogicalUnit)) : Intent where
  intentId           := intentId
  requestId          := key
  kind               := kind
  provider           := group.fst.1
  accountId          := group.fst.2.1
  mailboxIdentityKey := group.fst.2.2
  acceptedAt         := acceptedAt
  state              := .pending
  requestedCount     := group.snd.rows.length
  completedCount     := 0
  settledAt          := none

def freezeGroup (s : Store) (i : Intent) (units : Table (String × LogicalUnit)) :
    Except StoreError Store := do
  let intents ← find (s.intents.insert i) <|
    .integrity "UNIQUE constraint failed: message_removal_intents.intent_id"
  units.rows.foldlM (freezeUnit i) { s with intents := intents }

-- `freeze`. The ids of the intents are drawn from `uuid`.
def freeze (s : Store) (key : Key) (kind : Kind) (messageIds : List String) (acceptedAt : Instant)
    (uuid : Nat → String) : Except StoreError Store :=
  (s.removalGroups messageIds).rows.zipIdx.foldlM
    (fun s (group, n) => s.freezeGroup (newIntent key kind acceptedAt (uuid n) group) group.snd) s

-- The messages that a request is about.
def selectedMessages (s : Store) (kind : Kind) (parameters : Parameters)
    (messageIds : Option (List String)) : Except StoreError (List String) := do
  match kind, parameters, messageIds with
  | .delete, .messageId id, _ =>
    require (s.messageAvailable RECORD id) <| .key [id]
    return [id]
  | .delete,   _, _        => throw <| .key ["message_id"]
  | .clear,    _, _        => return s.logicalMessages.map (·.messageId)
  | .unfollow, _, some ids => return ids
  | .unfollow, _, none     =>
    throw <| .value "Unfollow acceptance belongs to the derived owner"

-- `_accept_in_transaction`: the outcome, and whether it was this call that accepted the request.
def acceptInTransaction [Codec] (s : Store) (key : Key) (kind : Kind) (parameters : Parameters)
    (messageIds : Option (List String)) (uuid : Nat → String) :
    Except StoreError (Store × Option Outcome × Bool) := do
  let fingerprint := Codec.requestHash kind parameters
  match ← s.outcome key (some (kind, fingerprint)) with
  | some previous => return (s, some previous, false)
  | none          =>
    validateKey key kind fingerprint s.clock
    let messageIds ← s.selectedMessages kind parameters messageIds
    let requests ← find
      (s.requests.insert {
        requestId        := key
        kind             := kind
        parametersSha256 := fingerprint
        acceptedAt       := s.clock
      }) <|
      .integrity "UNIQUE constraint failed: message_removal_requests.request_id"
    let s ← freeze { s with requests := requests } key kind messageIds s.clock uuid
    return (s, ← s.outcome key (some (kind, fingerprint)), true)

-- `accept`: the acceptance and, if it was this call that accepted the request, the completion that
-- follows. `complete` is what `resume` gets to do.
def accept [Codec] (s : Store) (key : Key) (kind : Kind) (parameters : Parameters)
    (uuid : Nat → String) (complete : Store → Except StoreError Store) :
    Except StoreError (Store × Option Outcome) := do
  let (s, result, created) ← s.acceptInTransaction key kind parameters none uuid
  if created then
    let s ← complete s
    return (s, ← s.outcome key (some (kind, Codec.requestHash kind parameters)))
  else
    return (s, result)

-- The units with retained content that are no longer followed, each with the message that it was
-- found by.
def unfollowedUnits (s : Store) (candidates : List String) : Table (List String × String) :=
  candidates.foldl (fun selected messageId =>
      match s.messages.get messageId, s.logicalUnit messageId with
      | some row, some unit =>
        let retained (id : String) : Bool :=
          (s.bodies.get id).isSome || (s.unavailable.get id).isSome
        if (s.messages.get row.canonical).any s.followed ∨
            unit.rows.any (! s.messageAvailable CONTENT ·) ∨ ¬ unit.rows.any retained then
          selected
        else
          selected.insertOrIgnore (unit.rows, messageId)
      | _, _ => selected)
    ∅

-- `accept_unfollow_units`. Only a guarded write transaction has the authority to accept.
def acceptUnfollowUnits [Codec] (s : Store) (candidates : List String) (authority : Bool)
    (nonce : String) (uuid : Nat → String) : Except StoreError (Store × Option Key) := do
  let selected := (s.unfollowedUnits candidates).rows.map Prod.snd
  if selected = [] then
    return (s, none)
  else
    require authority <| .runtime "Fresh unfollow requires its guarded write transaction"
    let parameters := Parameters.messageIds (selected.insertionSort (· ≤ ·))
    let key ← issueKey .unfollow parameters maxRetentionDays nonce s.clock
    let (s, _) ← s.acceptInTransaction key .unfollow parameters selected uuid
    return (s, some key)

end Acceptance

section Completion

variable [Codec]

-- `_message_suppression_key`.
def messageSuppressionKey (provider : Provider) (accountId providerMessageId : String)
    (mailboxIdentityKey : Option String) : String :=
  Codec.sha256 <| "\x00".intercalate <|
    [provider.name, accountId] ++ mailboxIdentityKey.toList ++ [providerMessageId]

-- `_legacy_message_suppression_key`.
def legacyMessageSuppressionKey (providerMessageId : String) : String :=
  Codec.sha256 providerMessageId

-- `_suppression_expiry`.
def suppressionExpiry (receivedAt : String) (now : Instant) : Instant :=
  min ((Codec.fromIsoFormat receivedAt).getD now) now + days maxRetentionDays

def suppressSource (now : Instant) (s : Store) (x : Source) : Store := { s with
  suppressed := s.suppressed.put {
    provider   := x.provider
    accountId  := x.accountId
    messageKey :=
      messageSuppressionKey x.provider x.accountId x.providerMessageId x.mailboxIdentityKey
    expiresAt  := suppressionExpiry x.receivedAt now
  }
}

-- The targets of a unit that are still to be removed.
def pendingTargets (s : Store) (unit : String × String) : List Target :=
  s.targets.rows.filter fun t =>
    t.intentId = unit.fst && t.logicalTargetId = unit.snd && t.state = .pending

def suppressTargets (s : Store) (targets : List Target) (now : Instant) : Store :=
  ((targets.map (·.sourceIdentities)).eraseDups.flatten).foldl (suppressSource now) s

def removeTarget (kind : Kind) (s : Store) (t : Target) : Store :=
  match (s.messages.get t.messageId).filter t.isRow with
  | none     => s
  | some row =>
    match kind with
    | .unfollow => { s with
        bodies      := s.bodies.delete (·.messageId = row.messageId)
        unavailable := s.unavailable.delete (·.messageId = row.messageId)
      }
    | _ => s.deleteMessages [row.messageId]

-- `COUNT(DISTINCT logical_target_id)` over the completed targets.
def completedTargets (s : Store) (intentId : String) : List String :=
  (s.targets.rows.filter fun t => t.intentId = intentId && t.state = .completed)
    |>.map (·.logicalTargetId) |>.dedup

def settleTargets (s : Store) (unit : String × String) (now : Instant) : Store := { s with
  targets := s.targets.update
    (fun t => t.intentId = unit.fst && t.logicalTargetId = unit.snd && t.state = .pending)
    fun t => { t with state := .completed, settledAt := some now }
}

def settleIntent (s : Store) (i : Intent) (now : Instant) : Store :=
  let completed := (s.completedTargets i.intentId).length
  let settled := completed = i.requestedCount
  { s with
    intents := s.intents.update (·.intentId = i.intentId) fun i => { i with
      completedCount := completed
      state          := if settled then .completed else .pending
      settledAt      := if settled then some now else none
    }
  }

def completeUnit (s : Store) (unit : String × String) (now : Instant) : Except StoreError Store := do
  let targets := s.pendingTargets unit
  if targets = [] then
    return s
  else
    let i ← find (s.intents.get unit.fst) <| .type "'NoneType' object is not subscriptable"
    let s := if i.kind = .unfollow then s else s.suppressTargets targets now
    let s := targets.foldl (removeTarget i.kind) s
    let s := s.settleTargets unit now
    return s.settleIntent i now

-- One transaction of `resume`: the units of a chunk whose source locks it acquired. A unit that is
-- busy is in no chunk, and keeps its receipt and its barrier.
def resume (s : Store) (chunk : List (String × String)) (now : Instant) : Except StoreError Store :=
  chunk.foldlM (fun s unit => s.completeUnit unit now) s

end Completion

section Retirement

variable [Codec]

-- The request has expired, and all of it has been settled for the retention interval.
def retirable (s : Store) (cutoff : Instant) (r : Request) : Except StoreError Bool := do
  let expiry ← parseKey r.requestId r.kind r.parametersSha256
  return expiry ≤ s.clock && r.acceptedAt ≤ cutoff && (s.intentsOf r.requestId).all fun i =>
    i.state = .completed && i.settledAt.all (· ≤ cutoff)

-- Deleting an intent deletes its targets.
def dropRequest (s : Store) (key : Key) : Store := { s with
  targets  := s.targets.delete fun t => (s.intents.get t.intentId).any (·.requestId = key)
  intents  := s.intents.delete (·.requestId = key)
  requests := s.requests.delete (·.requestId = key)
}

def retireRequest (cutoff : Instant) (s : Store) (r : Request) : Except StoreError Store := do
  let retires ← s.retirable cutoff r
  return if retires then s.dropRequest r.requestId else s

-- `retire`.
def retire (s : Store) (retentionDays : Int) : Except StoreError Store :=
  s.requests.rows.foldlM (retireRequest (s.clock - days retentionDays)) s

end Retirement

end Store

end Mail
