import EmailWatcher.Mail.Removal
import EmailWatcher.Mail.Threads

-- The operations that store mail, and the ones that keep what is stored in order.
namespace Mail

open Transaction

variable [Codec]

-- The headers of a message as a provider reads them. Its ids are normal.
structure Metadata where
  messageId    : String
  rfcMessageId : Option String
  replyIds     : List String
  receivedAt   : String
  normal       : ∀ id ∈ rfcMessageId.toList ++ replyIds, normalizeMessageId id = some id

def Metadata.ids (m : Metadata) : List String :=
  (m.rfcMessageId.toList ++ m.replyIds).eraseDups

-- The arguments of `_insert_message_in_transaction`. `provenance` is the verdict on the admission's
-- provenance, `granted` tells whether the label that admits the message is still selected, and
-- `fresh` is the key that is drawn for a new thread.
structure Capture where
  messageId          : String
  threadId           : Option String
  sender             : String
  receivedAt         : String
  provider           : Provider
  accountId          : String
  providerMessageId  : Option String
  mailboxIdentityKey : Option String
  rfcMessageId       : Option String
  replyIds           : List String
  locations          : List Folder
  provenance         : Except StoreError Unit
  granted            : Bool
  fresh              : String

namespace Capture

variable (c : Capture)

-- `provider_message_id or message_id`.
def source : String :=
  (c.providerMessageId.filter (· ≠ "")).getD c.messageId

def rfcId : Option String :=
  c.rfcMessageId.bind normalizeMessageId

-- The source that is to be captured.
def candidate (identity : String) : Candidate where
  messageId          := c.messageId
  provider           := c.provider
  accountId          := c.accountId
  mailboxIdentityKey := identity
  providerMessageId  := c.source

-- The distinct ids of the message and of the messages it replies to.
def ids : List String :=
  ((c.rfcId.toList ++ c.replyIds).filterMap normalizeMessageId).eraseDups

end Capture

namespace Store

section Locations

-- `_record_locations`. The observations that confirm a location are left out.
def recordLocations (s : Store) (messageId : String) (scope : Scope) (providerMessageId : String)
    (locations : List Folder) (headersObserved : Bool) (receivedAt : Option String) :
    Except StoreError Store := do
  require (headersObserved → locations ≠ []) <|
    .value "header observation requires an admitted location"
  let recorded := locations.foldl (fun t location => t.insertOrIgnore {
      messageId          := messageId
      provider           := scope.provider
      accountId          := scope.accountId
      mailboxIdentityKey := scope.mailboxIdentityKey
      providerMessageId  := providerMessageId
      location           := location
      receivedAt         := receivedAt
    }) s.locations
  return { s with
    locations := recorded.update
      (fun l => l.provider = scope.provider && l.accountId = scope.accountId &&
        l.mailboxIdentityKey = scope.mailboxIdentityKey && l.providerMessageId = providerMessageId)
      fun l => { l with receivedAt := receivedAt.or l.receivedAt }
  }

end Locations

section LegacyIdentity

omit [Codec] in
theorem key_reparented (new : String) (l : Location) :
    Keyed.key { l with messageId := new } = Keyed.key l :=
  rfl

-- `_reparent_logical_sources`.
def reparentLogicalSources (s : Store) (old new : String) : Store :=
  let bodies :=
    match s.bodies.get old, s.bodies.get new with
    | some b, none => (s.bodies.delete (·.messageId = old)).put { b with messageId := new }
    | _,      _    => s.bodies
  let unavailable :=
    match s.unavailable.get old, s.unavailable.get new with
    | some u, none => (s.unavailable.delete (·.messageId = old)).put { u with messageId := new }
    | _,      _    => s.unavailable
  { s with
    locations   := s.locations.update (·.messageId = old) (fun l => { l with messageId := new })
      (key_reparented new)
    bodies      := bodies
    unavailable :=
      if (bodies.get new).isSome then unavailable.delete (·.messageId = new) else unavailable
  }

def requeue (s : Store) (messageId : String) : Store := { s with
  messages := s.messages.update (fun m => m.messageId = messageId && m.status = .skipped)
    fun m => { m with status := .pending }
}

-- A copy becomes the row that the root and its other copies are copies of.
def promote (s : Store) (root successor : String) : Store := { s with
  messages := s.messages.update (·.messageId = successor) (fun m => { m with logicalOf := none })
    |>.update (fun m => m.messageId = root || m.logicalOf = some root)
      fun m => { m with logicalOf := some successor }
}

-- The legacy rows that belong to the connected mailbox and are still to be worked on.
def bindable (s : Store) (provider : Provider) (accountId : String) (messageId : Option String) :
    List Message :=
  s.messages.rows.filter fun m =>
    m.provider = provider && m.accountId = accountId && m.mailboxIdentityKey = none &&
    m.status = .pending && m.logicalOf = none && messageId.all (· = m.messageId) &&
    (s.effectiveIdentity m).isSome &&
    s.effectiveIdentity m = (s.accounts.get (provider, accountId)).bind (·.mailboxIdentityKey)

-- The row of a source under an identity that is not null.
def sourceRow (s : Store) (scope : Scope) (providerMessageId : String) : Option Message :=
  s.messages.rows.find? fun m =>
    m.provider = scope.provider && m.accountId = scope.accountId &&
    m.mailboxIdentityKey = some scope.mailboxIdentityKey && m.providerMessageId = providerMessageId

def setIdentity (s : Store) (messageId identity : String) : Store := { s with
  messages := s.messages.update (·.messageId = messageId)
    fun m => { m with mailboxIdentityKey := some identity }
}

-- One pass of `_bind_pending_legacy_identity`. The successor has an identity, so requeuing it
-- binds nothing further.
def bindRow (provider : Provider) (accountId identity : String) (s : Store) (root : Message) :
    Except StoreError Store :=
  match s.sourceRow ⟨provider, accountId, identity⟩ root.providerMessageId with
  | none           => return s.setIdentity root.messageId identity
  | some collision => do
    require (collision.logicalOf = some root.messageId) <|
      .runtime "legacy pending source collides outside its logical unit"
    let s := s.promote root.messageId collision.messageId
    let s := s.reparentLogicalSources root.messageId collision.messageId
    return s.requeue collision.messageId

-- `_bind_pending_legacy_identity`.
def bindPendingLegacyIdentity (s : Store) (provider : Provider) (accountId : String)
    (messageId : Option String) : Except StoreError Store :=
  match (s.accounts.get (provider, accountId)).bind (·.mailboxIdentityKey) with
  | none          => return s
  | some identity =>
    (s.bindable provider accountId messageId).foldlM (bindRow provider accountId identity) s

-- `_requeue_if_skipped`.
def requeueIfSkipped (s : Store) (messageId : String) : Except StoreError Store :=
  match s.messages.get messageId with
  | none   => return s
  | some m =>
    if m.status = .skipped then
      (s.requeue messageId).bindPendingLegacyIdentity m.provider m.accountId (some messageId)
    else
      return s

def validIdentityKey (key : String) : Bool :=
  key.toList.length = 64 && key.toList.all isLowerHex

-- `reconcile_mailbox_identity`.
def reconcileMailboxIdentity (s : Store) (provider : Provider) (accountId key : String)
    (legacyStatus : Option LegacyStatus) : Except StoreError Store := do
  require (validIdentityKey key) <|
    .value "mailbox identity key must be a lower-case SHA-256 digest"
  let a ← find (s.accounts.get (provider, accountId)) <| .key [provider.name, accountId]
  let status := legacyStatus.getD a.legacyIdentityStatus
  let replaced := a.mailboxIdentityKey.any (· ≠ key)
  let proven := a.mailboxIdentityKey = none ∧ status = .continuityProven
  let s := { s with
    accounts := s.accounts.put { a with
      mailboxIdentityKey   := some key
      legacyIdentityStatus := if replaced then .replacement else status
      legacyIdentityKey    :=
        if replaced then a.mailboxIdentityKey
        else if proven then some key
        else a.legacyIdentityKey
    }
  }
  if proven then
    s.bindPendingLegacyIdentity provider accountId none
  else
    return s

end LegacyIdentity

section Capture

def logicalRank (m : Message) : Nat :=
  if m.notified then 0 else
    match m.status with
    | .summarized => 1
    | .analyzed   => 2
    | .pending    => 3
    | .skipped    => 4

-- `_logical_message_id`: the stored message that a source is a copy of.
def logicalMessageId (s : Store) (scope : Scope) (rfcMessageId otherThan : String) :
    Option String :=
  let matching (m : Message) : Bool :=
    m.provider = scope.provider && m.accountId = scope.accountId &&
    m.rfcMessageId = some rfcMessageId && m.logicalOf = none && m.providerMessageId ≠ otherThan &&
    s.effectiveIdentity m = some scope.mailboxIdentityKey
  let bound := s.messages.rows.filter fun m => m.mailboxIdentityKey.isSome && matching m
  let legacy := s.messages.rows.filter fun m => m.mailboxIdentityKey.isNone && matching m
  (bound ++ legacy).argmin (fun m => toLex (logicalRank m, m.providerMessageId))
    |>.map (·.messageId)

-- `_stored_source_membership_sql`.
def storedSourceMembership (s : Store) (scope : Scope) (providerMessageId : String) :
    List String :=
  let matching (m : Message) : Bool :=
    m.provider = scope.provider && m.accountId = scope.accountId &&
    m.providerMessageId = providerMessageId &&
    s.effectiveIdentity m = some scope.mailboxIdentityKey
  let bound := s.messages.rows.filter fun m => m.mailboxIdentityKey.isSome && matching m
  let legacy := s.messages.rows.filter fun m => m.mailboxIdentityKey.isNone && matching m
  let located := s.locations.rows.filter fun l =>
    l.provider = scope.provider && l.accountId = scope.accountId &&
    l.mailboxIdentityKey = scope.mailboxIdentityKey && l.providerMessageId = providerMessageId
  (bound ++ legacy).map (·.canonical) ++ located.map (·.messageId)

def maxThreadKeyBytes : Nat := 512

-- `_provider_thread_key`.
def providerThreadKey (threadId : Option String) (fresh : String) : String :=
  match threadId.filter (· ≠ "") with
  | none    => fresh
  | some id => if id.utf8ByteSize ≤ maxThreadKeyBytes then id else "sha256:" ++ Codec.sha256 id

-- The keys that a tombstone of the source may be stored under.
def suppressionKeys (account : Account) (scope : Scope) (source : String) : List String :=
  let key := messageSuppressionKey scope.provider scope.accountId source
  key (some scope.mailboxIdentityKey) ::
    if account.legacyIdentityStatus = .continuityProven ∧
        account.legacyIdentityKey = some scope.mailboxIdentityKey then
      [key none, legacyMessageSuppressionKey source]
    else
      []

def isSuppressed (s : Store) (provider : Provider) (accountId : String) (keys : List String) :
    Bool :=
  keys.any fun k => (s.suppressed.get (provider, accountId, k)).isSome

-- The thread that a captured message goes to, the components that it joins, and the ids that it
-- brings along. Only IMAP messages have components.
def captureThread (s : Store) (scope : Scope) (c : Capture) : String × List String :=
  if c.provider = .imap then
    s.imapThreadKey scope c.ids none c.fresh
  else
    (providerThreadKey c.threadId c.fresh, [])

def joinComponent (s : Store) (scope : Scope) (threadKey : String) (merged ids : List String) :
    Except StoreError Store :=
  if scope.provider = .imap then s.applyImapComponent scope threadKey merged ids else return s

-- A copy of a stored message is recorded as one more place of it.
def captureCopy (s : Store) (scope : Scope) (c : Capture) (logicalId : String) :
    Except StoreError Store := do
  let (threadKey, merged) := s.captureThread scope c
  let s ← s.recordLocations logicalId scope c.source c.locations true (some c.receivedAt)
  let s ← s.requeueIfSkipped logicalId
  s.joinComponent scope threadKey merged c.ids

def capturedRow (scope : Scope) (c : Capture) (threadKey : String) : Message where
  messageId          := c.messageId
  provider           := scope.provider
  accountId          := scope.accountId
  mailboxIdentityKey := some scope.mailboxIdentityKey
  providerMessageId  := c.source
  threadKey          := some threadKey
  rfcMessageId       := c.rfcId
  logicalOf          := none
  sender             := c.sender
  receivedAt         := c.receivedAt
  status             := .pending
  notified           := false

-- `INSERT OR IGNORE INTO messages`: neither the id nor the source is stored already.
def insertable (s : Store) (scope : Scope) (c : Capture) : Bool :=
  (s.messages.get c.messageId).isNone && (s.sourceRow scope c.source).isNone

def captureRow (s : Store) (scope : Scope) (c : Capture) : Except StoreError (Store × Bool) := do
  let (threadKey, merged) := s.captureThread scope c
  require (c.source ≠ "") <| .integrity "message source identity is required"
  if s.insertable scope c then
    let s := { s with messages := s.messages.put (capturedRow scope c threadKey) }
    let s ← s.joinComponent scope threadKey merged c.ids
    let s ← s.recordLocations c.messageId scope c.source c.locations true none
    return (s, true)
  else
    return (s, false)

-- `_insert_message_in_transaction`: whether a row was inserted.
def capture (s : Store) (c : Capture) : Except StoreError (Store × Bool) := do
  let identity ← find c.mailboxIdentityKey <| .value "mailbox identity key is required"
  c.provenance
  let scope : Scope := ⟨c.provider, c.accountId, identity⟩
  let account ← find
    ((s.accounts.get (c.provider, c.accountId)).filter (·.mailboxIdentityKey = some identity)) <|
    .runtime "mailbox identity changed"
  if !s.available RECORD (c.candidate identity) then
    return (s, false)
  else
    require c.granted <| .runtime "gmail_recovery_grant_revoked"
    let logical := c.rfcId.bind (s.logicalMessageId scope · c.source)
    if logical.any (! s.messageAvailable RECORD ·) then
      return (s, false)
    else
      require (c.locations ≠ []) <| .value "a captured message names at least one admitted folder"
      if s.isSuppressed c.provider c.accountId (suppressionKeys account scope c.source) then
        return (s, false)
      else
        match logical with
        | some logicalId => (·, false) <$> s.captureCopy scope c logicalId
        | none           => s.captureRow scope c

-- `record_reconcile_headers`. A key is drawn only for a message that has none.
def recordReconcileHeaders (s : Store) (scope : Scope) (m : Metadata) (locations : List Folder)
    (fresh : String) : Except StoreError Store :=
  match (s.storedSourceMembership scope m.messageId).head? with
  | none           => return s
  | some logicalId =>
    match (s.messages.get logicalId).filter fun row => s.available RECORD row.candidate with
    | none     => return s
    | some row => do
      let s ← s.recordLocations logicalId scope m.messageId locations true (some m.receivedAt)
      let (threadKey, merged) := s.imapThreadKey scope m.ids row.threadKey fresh
      let s ← s.joinComponent scope threadKey merged m.ids
      s.requeueIfSkipped logicalId

-- `record_message_location`.
def recordMessageLocation (s : Store) (scope : Scope) (providerMessageId : String)
    (locations : List Folder) (headersObserved : Bool) : Except StoreError Store :=
  match (s.storedSourceMembership scope providerMessageId).head? with
  | none           => return s
  | some logicalId =>
    if s.messageAvailable RECORD logicalId then do
      let s ← s.recordLocations logicalId scope providerMessageId locations headersObserved none
      if locations = [] then return s else s.requeueIfSkipped logicalId
    else
      return s

end Capture

section Upkeep

-- `body_state.record`: the body of a followed message, or why there is none.
def recordBody (s : Store) (messageId : String) (body : (String × Nat) ⊕ UnavailableReason)
    (fetchedAt : Instant) : Store :=
  if s.messageAvailable CONTENT messageId ∧
      s.logicalMessages.any (fun m => m.messageId = messageId && s.followed m) then
    match body with
    | .inl (text, sourceChars) => { s with
        unavailable := s.unavailable.delete (·.messageId = messageId)
        bodies      := s.bodies.put {
          messageId   := messageId
          text        := text
          sourceChars := sourceChars
          fetchedAt   := fetchedAt
        }
      }
    | .inr reason => { s with
        bodies      := s.bodies.delete (·.messageId = messageId)
        unavailable := s.unavailable.put { messageId := messageId, reason := reason }
      }
  else
    s

-- A transaction of the purge. `expired` is the verdict on the age of a message and on its thread;
-- only messages that are visible are purged.
def purgeMessages (s : Store) (chunk : List String) (expired : Message → Bool) : Store :=
  s.deleteMessages <| s.logicalMessages.filter (fun m => m.messageId ∈ chunk && expired m)
    |>.map (·.messageId)

-- `julianday` counts milliseconds.
def julianday (t : Instant) : Int := (t + 500) / 1000

-- The tombstones that the purge deletes. An account under recovery keeps all of its own.
def purgeSuppressed (s : Store) (recovering : Provider → String → Bool) : Store := { s with
  suppressed := s.suppressed.delete fun x =>
    julianday x.expiresAt < julianday s.clock && !recovering x.provider x.accountId
}

-- The processing state of a message moves on.
def process (s : Store) (messageId : String) (status : Status) (notified : Bool) : Store := { s with
  messages := s.messages.update (·.messageId = messageId)
    fun m => { m with status := status, notified := notified }
}

end Upkeep

end Store

section Machine

inductive Action
  | tick (elapsed : Nat)
  | capture (c : Capture)
  | recordReconcileHeaders (scope : Scope) (m : Metadata) (locations : List Folder) (fresh : String)
  | recordMessageLocation (scope : Scope) (providerMessageId : String) (locations : List Folder)
      (headersObserved : Bool)
  | reconcileMailboxIdentity (provider : Provider) (accountId key : String)
      (legacyStatus : Option LegacyStatus)
  | recordBody (messageId : String) (body : (String × Nat) ⊕ UnavailableReason)
      (fetchedAt : Instant)
  | process (messageId : String) (status : Status) (notified : Bool)
  | recomputeDerived (follows : Table Follow) (watermarks : Table Watermark)
      (catchup : Table Catchup)
  | accept (key : Key) (kind : Kind) (parameters : Parameters) (uuid : Nat → String)
  | acceptUnfollowUnits (candidates : List String) (authority : Bool) (nonce : String)
      (uuid : Nat → String)
  | resume (chunk : List (String × String)) (now : Instant)
  | status (key : Key) (asked : Option (Kind × Parameters))
  | retire (retentionDays : Int)
  | purgeMessages (chunk : List String) (expired : Message → Bool)
  | purgeSuppressed (recovering : Provider → String → Bool)

-- Every action is one transaction. What `recomputeDerived` leaves in the tables of the threads is
-- not decided here.
def step (s : Store) : Action → Except StoreError Store
  | .tick elapsed => return { s with clock := s.clock + elapsed }
  | .capture c => Prod.fst <$> s.capture c
  | .recordReconcileHeaders scope m locations fresh =>
    s.recordReconcileHeaders scope m locations fresh
  | .recordMessageLocation scope providerMessageId locations headersObserved =>
    s.recordMessageLocation scope providerMessageId locations headersObserved
  | .reconcileMailboxIdentity provider accountId key legacyStatus =>
    s.reconcileMailboxIdentity provider accountId key legacyStatus
  | .recordBody messageId body fetchedAt => return s.recordBody messageId body fetchedAt
  | .process messageId status notified => return s.process messageId status notified
  | .recomputeDerived follows watermarks catchup =>
    return { s with follows := follows, watermarks := watermarks, catchup := catchup }
  | .accept key kind parameters uuid =>
    Prod.fst <$> s.acceptInTransaction key kind parameters none uuid
  | .acceptUnfollowUnits candidates authority nonce uuid =>
    Prod.fst <$> s.acceptUnfollowUnits candidates authority nonce uuid
  | .resume chunk now => s.resume chunk now
  | .status key asked => (fun _ => s) <$> s.status key asked
  | .retire retentionDays => s.retire retentionDays
  | .purgeMessages chunk expired => return s.purgeMessages chunk expired
  | .purgeSuppressed recovering => return s.purgeSuppressed recovering

def machine : Machine Store Action StoreError where
  step := step

end Machine

end Mail
