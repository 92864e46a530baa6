import EmailWatcher.Library.Ranking
import EmailWatcher.Library.Session
import EmailWatcher.Mail.Capture

-- The recovery of a Gmail mailbox whose history has been lost: its messages are listed page by page, and
-- every message of a page is finished before the next page is read.
namespace Gmail

open Session

section Schema

def maxGmailLabelSelectors : Nat := 100

def maxGmailLabelIdBytes : Nat := 512

def maxGmailLabelNameBytes : Nat := 1024

def maxGmailRecoverySnapshotBytes : Nat := 1024 * 1024

def maxGmailRecoveryPageJsonBytes : Nat := 512 * 1024

def maxGmailRecoveryPageIds : Nat := 200

def maxGmailRecoveryPageTokenBytes : Nat := 8192

def maxGmailRecoveryCursorBytes : Nat := 4096

def sqliteMaxInteger : Nat := 2 ^ 63 - 1

-- The last second that a `datetime` can stand for.
def maxTimestamp : Nat := 253402300799

inductive AdmissionKind
  | exactSender
  | vendorAddress
  | vendorDomain
  | sentToVendor
  | threadFollow
  | gmailUserLabel
  deriving DecidableEq, Repr

-- `AdmissionProvenance`
structure AdmissionProvenance where
  kind               : AdmissionKind
  selectorId         : String
  displayName        : Option String
  mailboxIdentityKey : String
  admittedAt         : String
  deriving DecidableEq, Repr

inductive Phase
  | collecting
  | backoff
  | degraded
  deriving DecidableEq, Repr

-- `GmailLabelSelectorSnapshot`
structure SelectorSnapshot where
  selectorId  : String
  labelId     : String
  displayName : String
  deriving DecidableEq, Repr

-- A row of `gmail_recovery_state`. The snapshots and the page are stored as canonical JSON.
structure Recovery where
  accountId                : String
  mailboxIdentityKey       : String
  selectorRevision         : Nat
  senderSnapshot           : List (String × Option String)
  selectorSnapshot         : List SelectorSnapshot
  afterExclusiveEpoch      : Nat
  beforeExclusiveEpoch     : Nat
  retentionCutoff          : Instant
  replacementHistoryCursor : String
  pageToken                : Option String
  currentPageIds           : List String
  pageLoaded               : Bool
  nextIndex                : Nat
  pageCount                : Nat
  terminalCandidateCount   : Nat
  invalidPageTokenCount    : Nat
  consecutiveRetryCount    : Nat
  state                    : Phase
  failureCode              : Option String
  nextRetryAt              : Option String
  createdAt                : Instant
  queryScope               : String
  deriving DecidableEq, Repr

instance : Keyed Recovery String where
  key := Recovery.accountId

-- A row of `gmail_label_selector_sets`.
structure SelectorSet where
  accountId                 : String
  currentMailboxIdentityKey : String
  revision                  : Nat
  deriving DecidableEq, Repr

instance : Keyed SelectorSet String where
  key := SelectorSet.accountId

-- A row of `gmail_label_selectors`.
structure Selector where
  selectorId         : String
  accountId          : String
  mailboxIdentityKey : String
  labelId            : String
  deriving DecidableEq, Repr

instance : Keyed Selector String where
  key := Selector.selectorId

-- A row of `mailbox_state`.
structure MailboxState where
  accountId     : String
  cursor        : String
  lastSuccessAt : Instant
  deriving DecidableEq, Repr

instance : Keyed MailboxState String where
  key := MailboxState.accountId

-- `active` lists the accounts whose flag is set.
structure Store where
  mail         : Mail.Store
  active       : List String
  selectorSets : Table SelectorSet
  selectors    : Table Selector
  recoveries   : Table Recovery
  mailboxes    : Table MailboxState

inductive RecoveryError
  | store           (e : StoreError)
  -- `GmailLabelStoreError`
  | label           (code : String)
  -- `MailboxIdentityChanged`
  | identityChanged
  deriving DecidableEq, Repr

namespace RecoveryError

def value (message : String) : RecoveryError :=
  .store (.value message)

def runtime (message : String) : RecoveryError :=
  .store (.runtime message)

def integrity (message : String) : RecoveryError :=
  .store (.integrity message)

end RecoveryError

-- What an address is normalized to, and which texts are timestamps in UTC.
class Codec extends Mail.Codec where
  normalizeValidatedAddress : String → Except StoreError String
  utcTimestamp              : String → Bool

end Schema

open RecoveryError

abbrev Statement (α : Type) := Session Store RecoveryError α

section Texts

-- `unicodedata.category(character) == "Cc"`
def isControl (c : Char) : Bool :=
  c.toNat < 0x20 || (0x7f ≤ c.toNat && c.toNat ≤ 0x9f)

def boundedText (bytes : Nat) (text : String) : Bool :=
  text ≠ "" && text.utf8ByteSize ≤ bytes && !text.toList.any isControl

-- `_require_bounded_text`
def requireBoundedText (bytes : Nat) (field text : String) : Except RecoveryError Unit :=
  Transaction.require (boundedText bytes text) <| value s!"{field} is invalid"

-- `_require_mailbox_identity_key`
def requireMailboxIdentityKey (key : String) : Except RecoveryError Unit :=
  Transaction.require (Mail.Store.validIdentityKey key) <|
    value "mailbox identity key must be a lower-case SHA-256 digest"

-- `_require_revision`
def requireRevision (revision : Nat) : Except RecoveryError Unit :=
  Transaction.require (revision ≤ sqliteMaxInteger) <|
    value "revision must be a non-negative SQLite integer"

end Texts

section Json

-- The bytes of the canonical documents, in which only what JSON reserves is escaped.
def jsonCharBytes (c : Char) : Nat :=
  if c.toNat ∈ [0x08, 0x09, 0x0a, 0x0c, 0x0d, 0x22, 0x5c] then 2
  else if c.toNat < 0x20 then 6
  else c.utf8Size

def jsonStringBytes (text : String) : Nat :=
  2 + (text.toList.map jsonCharBytes).sum

def jsonArrayBytes (items : List Nat) : Nat :=
  2 + items.sum + (items.length - 1)

def pageBytes (ids : List String) : Nat :=
  jsonArrayBytes <| ids.map jsonStringBytes

-- The braces, the keys `email` and `name`, and the signs between them
def senderSnapshotBytes (xs : List (String × Option String)) : Nat :=
  jsonArrayBytes <| xs.map fun x => 18 + jsonStringBytes x.fst + x.snd.elim 4 jsonStringBytes

-- The braces, the keys `display_name`, `label_id` and `selector_id`, and the signs between them
def selectorSnapshotBytes (xs : List SelectorSnapshot) : Nat :=
  jsonArrayBytes <| xs.map fun x =>
    44 + jsonStringBytes x.displayName + jsonStringBytes x.labelId + jsonStringBytes x.selectorId

end Json

variable [Codec]

-- `_validate_utc_timestamp`
def validateUtcTimestamp (field text : String) : Except RecoveryError Unit :=
  Transaction.require (Codec.utcTimestamp text) <|
    value s!"{field} must be a UTC ISO-8601 timestamp"

section Admissions

def exactSenderSelectorPrefix : String := "sender:"

-- `THREAD_ADMISSION_SELECTOR_PREFIXES`
def AdmissionKind.threadSelectorPrefix : AdmissionKind → Option String
  | .vendorAddress  => some "vendor-address:"
  | .vendorDomain   => some "vendor-address:"
  | .sentToVendor   => some "vendor-recipient:"
  | .threadFollow   => some "thread:"
  | .exactSender    => none
  | .gmailUserLabel => none

-- `text[len(beginning):] if text.startswith(beginning)`
def stripped (beginning text : String) : Option String :=
  if beginning.toList <+: text.toList then
    some <| String.ofList <| text.toList.drop beginning.toList.length
  else
    none

-- The selector of an exact sender spells its address the way it is normalized.
def validExactSender (selectorId : String) : Bool :=
  match stripped exactSenderSelectorPrefix selectorId with
  | none         => false
  | some address =>
    match Codec.normalizeValidatedAddress address with
    | .ok normalized =>
      exactSenderSelectorPrefix ++ normalized = selectorId &&
      selectorId.utf8ByteSize ≤ maxGmailLabelIdBytes
    | .error _       => false

def validThreadSelector (beginning selectorId : String) : Bool :=
  match stripped beginning selectorId with
  | none        => false
  | some digest => Mail.Store.validIdentityKey digest

-- `_validate_admission_provenance`
def validateAdmissionProvenance (a : AdmissionProvenance) (mailboxIdentityKey : String) :
    Except RecoveryError Unit := do
  requireBoundedText maxGmailLabelIdBytes "admission selector id" a.selectorId
  Transaction.require (a.displayName.all (·.utf8ByteSize ≤ 1024)) <|
    value "admission display name is invalid"
  Transaction.require (a.displayName.all fun name => !name.toList.any isControl) <|
    value "admission display name is invalid"
  Transaction.require (a.kind = .gmailUserLabel → validUuidV4 a.selectorId) <|
    value "gmail label admission selector id is invalid"
  Transaction.require (a.kind = .exactSender → validExactSender a.selectorId) <|
    value "exact sender admission selector id is invalid"
  Transaction.require (a.kind.threadSelectorPrefix.all (validThreadSelector · a.selectorId)) <|
    value "vendor/thread admission selector id is invalid"
  requireMailboxIdentityKey a.mailboxIdentityKey
  Transaction.require (a.mailboxIdentityKey = mailboxIdentityKey) identityChanged
  validateUtcTimestamp "admitted_at" a.admittedAt

end Admissions

section Codecs

def validPage (ids : List String) : Bool :=
  ids.length ≤ maxGmailRecoveryPageIds && ids.all (boundedText maxGmailLabelIdBytes) &&
  decide ids.Nodup && pageBytes ids ≤ maxGmailRecoveryPageJsonBytes

def encodeGmailRecoveryPage (ids : List String) : Except RecoveryError (List String) :=
  if validPage ids then .ok ids else .error <| label "gmail_recovery_page_invalid"

-- A name is printable text with no space around it.
def validName (name : String) : Bool :=
  name ≠ "" && !name.toList.head?.any Mail.Codec.isSpace &&
  !name.toList.getLast?.any Mail.Codec.isSpace && name.toList.all Mail.Codec.isPrintable

def validSender (x : String × Option String) : Bool :=
  (Codec.normalizeValidatedAddress x.fst).toOption = some x.fst && x.snd.all validName

def senderOrder (x : String × Option String) : String ×ₗ String :=
  toLex (x.fst, x.snd.getD "")

def addSender (seen : List String) (x : String × Option String) :
    Except RecoveryError (List String) := do
  let email ← (Codec.normalizeValidatedAddress x.fst).mapError store
  Transaction.require (email = x.fst ∧ email ∉ seen) <| value "gmail sender snapshot is invalid"
  Transaction.require (x.snd.all validName) <| value "gmail sender snapshot is invalid"
  return seen ++ [email]

def encodeGmailSenderSnapshot (xs : List (String × Option String)) :
    Except RecoveryError (List (String × Option String)) := do
  let _ ← xs.foldlM addSender []
  let items := Ranking.ordered senderOrder xs
  Transaction.require (senderSnapshotBytes items ≤ maxGmailRecoverySnapshotBytes) <|
    label "gmail_recovery_snapshot_too_large"
  return items

def decodeGmailSenderSnapshot (xs : List (String × Option String)) :
    Except RecoveryError (List (String × Option String)) := do
  Transaction.require (senderSnapshotBytes xs ≤ maxGmailRecoverySnapshotBytes) <|
    runtime "gmail sender snapshot is invalid"
  Transaction.require (xs.all validSender ∧ (xs.map Prod.fst).Nodup) <|
    runtime "gmail sender snapshot is invalid"
  Transaction.require (xs.Pairwise (senderOrder · ≤ senderOrder ·)) <|
    runtime "gmail sender snapshot is not canonical"
  return xs

def validSelector (x : SelectorSnapshot) : Bool :=
  boundedText maxGmailLabelIdBytes x.labelId && boundedText maxGmailLabelNameBytes x.displayName &&
  validUuidV4 x.selectorId

def addSelector (seen : List String) (x : SelectorSnapshot) :
    Except RecoveryError (List String) := do
  Transaction.require (validUuidV4 x.selectorId ∧ x.selectorId ∉ seen) <|
    value "gmail selector snapshot has an invalid selector id"
  requireBoundedText maxGmailLabelIdBytes "gmail label id" x.labelId
  requireBoundedText maxGmailLabelNameBytes "gmail label display name" x.displayName
  return seen ++ [x.selectorId]

def encodeGmailSelectorSnapshot (xs : List SelectorSnapshot) :
    Except RecoveryError (List SelectorSnapshot) := do
  Transaction.require (xs.length ≤ maxGmailLabelSelectors) <|
    value "gmail selector snapshot exceeds its item limit"
  let _ ← xs.foldlM addSelector []
  let items := Ranking.ordered (·.selectorId) xs
  Transaction.require (selectorSnapshotBytes items ≤ maxGmailRecoverySnapshotBytes) <|
    label "gmail_recovery_snapshot_too_large"
  return items

def decodeGmailSelectorSnapshot (xs : List SelectorSnapshot) :
    Except RecoveryError (List SelectorSnapshot) := do
  Transaction.require (selectorSnapshotBytes xs ≤ maxGmailRecoverySnapshotBytes ∧
    xs.length ≤ maxGmailLabelSelectors) <| runtime "gmail selector snapshot is invalid"
  Transaction.require (xs.all validSelector ∧ (xs.map (·.selectorId)).Nodup) <|
    runtime "gmail selector snapshot is invalid"
  Transaction.require (xs.Pairwise (·.selectorId ≤ ·.selectorId)) <|
    runtime "gmail selector snapshot is not canonical"
  return xs

-- `_gmail_recovery_state`: a row is read only in a state that the calls can leave it in.
def gmailRecoveryState (r : Recovery) : Except RecoveryError Recovery := do
  Transaction.require (validPage r.currentPageIds) <| runtime "gmail recovery page is invalid"
  Transaction.require ((r.pageLoaded = false → r.currentPageIds = [] ∧ r.nextIndex = 0) ∧
    r.nextIndex ≤ r.currentPageIds.length) <| runtime "gmail recovery page state is invalid"
  Transaction.require (r.pageToken.all (·.utf8ByteSize ≤ maxGmailRecoveryPageTokenBytes)) <|
    runtime "gmail recovery page token is invalid"
  let _ ← decodeGmailSenderSnapshot r.senderSnapshot
  let _ ← decodeGmailSelectorSnapshot r.selectorSnapshot
  return r

end Codecs

section Statements

-- The `CHECK` constraints of `gmail_recovery_state`.
def Recovery.check (r : Recovery) : Bool :=
  r.accountId ≠ "" && r.accountId.utf8ByteSize ≤ 128 &&
  Mail.Store.validIdentityKey r.mailboxIdentityKey &&
  senderSnapshotBytes r.senderSnapshot ≤ 1048576 &&
  selectorSnapshotBytes r.selectorSnapshot ≤ 1048576 &&
  r.afterExclusiveEpoch < r.beforeExclusiveEpoch && 0 ≤ r.retentionCutoff &&
  r.replacementHistoryCursor ≠ "" && r.replacementHistoryCursor.utf8ByteSize ≤ 4096 &&
  r.pageToken.all (·.utf8ByteSize ≤ 8192) && pageBytes r.currentPageIds ≤ 524288 &&
  r.nextIndex ≤ 200 && r.consecutiveRetryCount ≤ 31

-- What the trigger `gmail_recovery_state_immutable` asks of an `UPDATE`.
def Recovery.mutable (r r' : Recovery) : Bool :=
  r'.accountId = r.accountId && r'.mailboxIdentityKey = r.mailboxIdentityKey &&
  r'.selectorRevision = r.selectorRevision && r'.senderSnapshot = r.senderSnapshot &&
  r'.selectorSnapshot = r.selectorSnapshot && r'.afterExclusiveEpoch = r.afterExclusiveEpoch &&
  r'.beforeExclusiveEpoch = r.beforeExclusiveEpoch && r'.retentionCutoff = r.retentionCutoff &&
  r'.replacementHistoryCursor = r.replacementHistoryCursor && r'.createdAt = r.createdAt &&
  r.pageCount ≤ r'.pageCount && r.terminalCandidateCount ≤ r'.terminalCandidateCount &&
  r.invalidPageTokenCount ≤ r'.invalidPageTokenCount

namespace Recovery

-- The columns that the calls set.
def load (r : Recovery) (ids : List String) (token : Option String) : Recovery := { r with
  pageToken             := token
  currentPageIds        := ids
  pageLoaded            := true
  nextIndex             := 0
  pageCount             := r.pageCount + 1
  consecutiveRetryCount := 0
  state                 := .collecting
  failureCode           := none
  nextRetryAt           := none
}

def unload (r : Recovery) : Recovery := { r with
  currentPageIds := []
  pageLoaded     := false
  nextIndex      := 0
}

def backOff (r : Recovery) (retries : Nat) (state : Phase) (code retryAt : String) : Recovery :=
  { r with
    consecutiveRetryCount := retries
    state                 := state
    failureCode           := some code
    nextRetryAt           := some retryAt
  }

def clear (r : Recovery) : Recovery := { r with
  state       := .collecting
  failureCode := none
  nextRetryAt := none
}

def restart (r : Recovery) : Recovery := { r.unload with
  pageToken := none
}

def advance (r : Recovery) : Recovery := { r with
  nextIndex              := r.nextIndex + 1
  terminalCandidateCount := r.terminalCandidateCount + 1
  consecutiveRetryCount  := 0
  state                  := .collecting
  failureCode            := none
  nextRetryAt            := none
}

end Recovery

-- An `UPDATE` of the rows that meet `p`: their number.
def updateRecovery (p : Recovery → Bool) (g : Recovery → Recovery)
    (hg : ∀ r, (g r).accountId = r.accountId := by as_aux_lemma => intros; rfl) :
    Statement Nat := do
  let rows ← query (·.recoveries.rows.filter p)
  require (∀ r ∈ rows, r.mutable (g r)) <| integrity "gmail recovery state is immutable"
  require (∀ r ∈ rows, (g r).check) <| integrity "CHECK constraint failed: gmail_recovery_state"
  write fun s => { s with recoveries := s.recoveries.update p g hg }
  return rows.length

-- The row of an account, which has just been written.
def readRecovery (accountId : String) : Statement Recovery := do
  let row ← query (·.recoveries.get accountId)
  find row <| .store (.type "'NoneType' object is not subscriptable")

-- `_require_current_gmail_selector_set`
def requireCurrentGmailSelectorSet (accountId mailboxIdentityKey : String) :
    Statement SelectorSet := do
  let s ← query id
  let account := s.mail.accounts.get (.gmail, accountId)
  let current (x : SelectorSet) : Bool := account.isSome &&
    x.currentMailboxIdentityKey = mailboxIdentityKey &&
    account.any (·.mailboxIdentityKey = some mailboxIdentityKey)
  find ((s.selectorSets.get accountId).filter current) identityChanged

def requireActive (accountId : String) : Statement Unit := do
  let s ← query id
  require (accountId ∈ s.active) <| label "account_not_active"

-- `_require_current_gmail_recovery`
def requireCurrentGmailRecovery (accountId mailboxIdentityKey : String) : Statement Recovery := do
  discard <| requireCurrentGmailSelectorSet accountId mailboxIdentityKey
  let s ← query id
  let row ← find (s.recoveries.get accountId) <| label "not_found"
  let state ← lift <| gmailRecoveryState row
  require (state.mailboxIdentityKey = mailboxIdentityKey) identityChanged
  requireActive accountId
  return state

end Statements

section Start

-- The arguments of `create_gmail_recovery_state`.
structure CreateRequest where
  accountId                : String
  mailboxIdentityKey       : String
  selectorRevision         : Nat
  senderSnapshot           : List (String × Option String)
  selectorSnapshot         : List SelectorSnapshot
  afterExclusiveEpoch      : Int
  beforeExclusiveEpoch     : Int
  replacementHistoryCursor : String
  retentionCutoff          : Option Instant
  queryScope               : String
  now                      : Instant

-- Without a cutoff of its own a recovery keeps what it lists.
def CreateRequest.cutoff (r : CreateRequest) : Except RecoveryError Instant := do
  let cutoff ←
    match r.retentionCutoff with
    | some cutoff => .ok cutoff
    | none        =>
      if r.afterExclusiveEpoch ≤ maxTimestamp then .ok (r.afterExclusiveEpoch * Instant.second)
      else .error <| value "year is out of range"
  Transaction.require (0 ≤ cutoff) <| value "gmail recovery retention cutoff is invalid"
  return cutoff

def CreateRequest.row (r : CreateRequest) (cutoff : Instant)
    (senders : List (String × Option String)) (selectors : List SelectorSnapshot) : Recovery where
  accountId                := r.accountId
  mailboxIdentityKey       := r.mailboxIdentityKey
  selectorRevision         := r.selectorRevision
  senderSnapshot           := senders
  selectorSnapshot         := selectors
  afterExclusiveEpoch      := r.afterExclusiveEpoch.toNat
  beforeExclusiveEpoch     := r.beforeExclusiveEpoch.toNat
  retentionCutoff          := cutoff
  replacementHistoryCursor := r.replacementHistoryCursor
  pageToken                := none
  currentPageIds           := []
  pageLoaded               := false
  nextIndex                := 0
  pageCount                := 0
  terminalCandidateCount   := 0
  invalidPageTokenCount    := 0
  consecutiveRetryCount    := 0
  state                    := .collecting
  failureCode              := none
  nextRetryAt              := none
  createdAt                := r.now
  queryScope               := r.queryScope

def createGmailRecoveryState (r : CreateRequest) : Statement Recovery := do
  lift <| requireMailboxIdentityKey r.mailboxIdentityKey
  lift <| requireRevision r.selectorRevision
  require (0 ≤ r.afterExclusiveEpoch ∧ r.afterExclusiveEpoch < r.beforeExclusiveEpoch ∧
    r.beforeExclusiveEpoch ≤ sqliteMaxInteger) <| value "gmail recovery window is invalid"
  lift <| requireBoundedText maxGmailRecoveryCursorBytes "gmail replacement history cursor"
    r.replacementHistoryCursor
  let cutoff ← lift r.cutoff
  let senders ← lift <| encodeGmailSenderSnapshot r.senderSnapshot
  let selectors ← lift <| encodeGmailSelectorSnapshot r.selectorSnapshot
  let selectorSet ← requireCurrentGmailSelectorSet r.accountId r.mailboxIdentityKey
  requireActive r.accountId
  require (selectorSet.revision = r.selectorRevision) <| label "stale_revision"
  let frozen ← lift <| decodeGmailSelectorSnapshot selectors
  let s ← query id
  require (frozen.all fun x => s.selectors.rows.any fun y =>
    y.accountId = r.accountId && y.mailboxIdentityKey = r.mailboxIdentityKey &&
    y.selectorId = x.selectorId && y.labelId = x.labelId) <| label "gmail_recovery_grant_revoked"
  let row := r.row cutoff senders selectors
  require row.check <| label "conflict"
  let recoveries ← find (s.recoveries.insert row) <| label "conflict"
  write ({ · with recoveries := recoveries })
  readRecovery r.accountId

end Start

section Pages

variable (accountId mailboxIdentityKey : String)

def storeGmailRecoveryPage (ids : List String) (nextPageToken : Option String) :
    Statement Recovery := do
  lift <| requireMailboxIdentityKey mailboxIdentityKey
  let page ← lift <| encodeGmailRecoveryPage ids
  require (nextPageToken.all (boundedText maxGmailRecoveryPageTokenBytes)) <|
    value "gmail recovery page token is invalid"
  let state ← requireCurrentGmailRecovery accountId mailboxIdentityKey
  require (state.pageLoaded = false) <| label "gmail_recovery_page_already_loaded"
  require (state.pageCount ≠ sqliteMaxInteger) <| label "gmail_recovery_counter_overflow"
  discard <| updateRecovery (·.accountId = accountId) (·.load page nextPageToken)
  readRecovery accountId

-- Retires a page all of whose messages are finished. The last page stays: it is ready.
def finishGmailRecoveryPage : Statement Bool := do
  lift <| requireMailboxIdentityKey mailboxIdentityKey
  let state ← requireCurrentGmailRecovery accountId mailboxIdentityKey
  require (state.pageLoaded ∧ state.nextIndex = state.currentPageIds.length) <|
    label "gmail_recovery_page_not_drained"
  if state.pageToken = none then
    return true
  else
    discard <| updateRecovery (·.accountId = accountId) (·.unload)
    return false

def recordGmailRecoveryBackoff (failureCode nextRetryAt : String) (degraded : Bool) :
    Statement Recovery := do
  require (failureCode ∈
    ["gmail_recovery_provider_unavailable", "gmail_recovery_page_invalid"]) <|
    value "gmail recovery failure code is invalid"
  lift <| requireMailboxIdentityKey mailboxIdentityKey
  lift <| validateUtcTimestamp "next_retry_at" nextRetryAt
  let state ← requireCurrentGmailRecovery accountId mailboxIdentityKey
  let retryCount := min 31 (state.consecutiveRetryCount + 1)
  let phase : Phase := if degraded then .degraded else .backoff
  discard <| updateRecovery (·.accountId = accountId) <|
    (·.backOff retryCount phase failureCode nextRetryAt)
  readRecovery accountId

def recordGmailRecoveryInvalidPageToken (nextRetryAt : String) : Statement Recovery := do
  lift <| requireMailboxIdentityKey mailboxIdentityKey
  lift <| validateUtcTimestamp "next_retry_at" nextRetryAt
  let state ← requireCurrentGmailRecovery accountId mailboxIdentityKey
  require (state.invalidPageTokenCount ≠ sqliteMaxInteger) <|
    label "gmail_recovery_counter_overflow"
  let invalidCount := state.invalidPageTokenCount + 1
  let retryCount := min 31 (state.consecutiveRetryCount + 1)
  let phase : Phase := if 5 ≤ invalidCount then .degraded else .backoff
  discard <| updateRecovery (·.accountId = accountId) fun r =>
    { r.restart.backOff retryCount phase "gmail_recovery_page_token_invalid" nextRetryAt with
      invalidPageTokenCount := invalidCount }
  readRecovery accountId

def clearGmailRecoveryBackoff : Statement Recovery := do
  lift <| requireMailboxIdentityKey mailboxIdentityKey
  discard <| requireCurrentGmailRecovery accountId mailboxIdentityKey
  discard <| updateRecovery (·.accountId = accountId) (·.clear)
  readRecovery accountId

-- A page token belongs to the query that it came from, so paging starts again under a new scope.
def restartGmailRecoveryPage (queryScope : String) : Statement Recovery := do
  lift <| requireMailboxIdentityKey mailboxIdentityKey
  discard <| requireCurrentGmailRecovery accountId mailboxIdentityKey
  discard <| updateRecovery (·.accountId = accountId) ({ ·.restart with queryScope := queryScope })
  readRecovery accountId

end Pages

section Candidates

-- `GmailRecoveryMessage`, as far as it is stored
structure RecoveryMessage where
  messageId    : String
  threadId     : Option String
  sender       : String
  receivedAt   : String
  rfcMessageId : Option String
  replyIds     : List String
  locations    : List Mail.Folder

-- The arguments of `finish_gmail_recovery_candidate`, and the key that is drawn for a new thread.
structure Candidate where
  accountId          : String
  mailboxIdentityKey : String
  providerMessageId  : String
  message            : Option RecoveryMessage
  admission          : Option AdmissionProvenance
  metadataLabelIds   : Option (List String)
  fresh              : String

-- The least of the selectors that were frozen and still are selected admits a labelled message.
def labelGranted (s : Store) (c : Candidate) (r : Recovery) (a : AdmissionProvenance) : Bool :=
  let frozen (id : String) := r.selectorSnapshot.find? (·.selectorId = id)
  let current := s.selectors.rows.filter fun x =>
    x.accountId = c.accountId && x.mailboxIdentityKey = c.mailboxIdentityKey
  let matching := current.filter fun x =>
    (frozen x.selectorId).any (·.labelId = x.labelId) && x.labelId ∈ c.metadataLabelIds.getD []
  (frozen a.selectorId).any fun x =>
    (matching.map (·.selectorId)).min? = some a.selectorId && some x.displayName = a.displayName

def senderGranted (r : Recovery) (a : AdmissionProvenance) : Bool :=
  let address := (stripped exactSenderSelectorPrefix a.selectorId).getD ""
  (r.senderSnapshot.find? (·.fst = address)).any (·.snd = a.displayName)

def stillSelected (s : Store) (c : Candidate) (a : AdmissionProvenance) : Bool :=
  (s.selectorSets.get c.accountId).any (·.currentMailboxIdentityKey = c.mailboxIdentityKey) &&
  s.selectors.rows.any fun x => x.accountId = c.accountId &&
    x.mailboxIdentityKey = c.mailboxIdentityKey && x.selectorId = a.selectorId

def Candidate.capture (c : Candidate) (s : Store) (m : RecoveryMessage)
    (a : AdmissionProvenance) : Mail.Capture where
  messageId          := m.messageId
  threadId           := m.threadId
  sender             := m.sender
  receivedAt         := m.receivedAt
  provider           := .gmail
  accountId          := c.accountId
  providerMessageId  := some c.providerMessageId
  mailboxIdentityKey := some c.mailboxIdentityKey
  rfcMessageId       := m.rfcMessageId
  replyIds           := m.replyIds
  locations          := m.locations
  provenance         := .ok ()
  granted            := a.kind ≠ .gmailUserLabel || stillSelected s c a
  fresh              := c.fresh

-- Inserts the message of the candidate, if there is one and the snapshots of the recovery admit it.
def admitCandidate (c : Candidate) (r : Recovery) : Statement Bool :=
  match c.message, c.admission with
  | some m, some a => do
    lift <| validateAdmissionProvenance a c.mailboxIdentityKey
    let s ← query id
    require (if a.kind = .gmailUserLabel then labelGranted s c r a else senderGranted r a) <|
      label "gmail_recovery_grant_revoked"
    let (mail, inserted) ← lift <| (s.mail.capture (c.capture s m a)).mapError .store
    write ({ · with mail := mail })
    return inserted
  | _, _ => pure false

-- What the store derives from the mail is brought up to date at the end of a transaction.
def recomputeDerived (recompute : Mail.Store → Except StoreError Mail.Store) : Statement Unit := do
  let s ← query id
  let mail ← lift <| (recompute s.mail).mapError .store
  write ({ · with mail := mail })

def finishGmailRecoveryCandidate (c : Candidate)
    (recompute : Mail.Store → Except StoreError Mail.Store) : Statement Bool := do
  lift <| requireMailboxIdentityKey c.mailboxIdentityKey
  lift <| requireBoundedText maxGmailLabelIdBytes "gmail provider message id" c.providerMessageId
  require (c.message.isNone = c.admission.isNone ∧
    (c.message.isNone → c.metadataLabelIds.isNone)) <|
    value "message, admission, and metadata labels are inconsistent"
  require (c.message.all fun m => c.metadataLabelIds.isSome && m.locations ≠ []) <|
    value "admitted recovery metadata must name an admitted folder"
  let state ← requireCurrentGmailRecovery c.accountId c.mailboxIdentityKey
  require (state.pageLoaded ∧
    state.currentPageIds[state.nextIndex]? = some c.providerMessageId) <|
    label "gmail_recovery_candidate_mismatch"
  require (state.terminalCandidateCount ≠ sqliteMaxInteger) <|
    label "gmail_recovery_counter_overflow"
  let inserted ← admitCandidate c state
  let current (r : Recovery) : Bool := r.accountId = c.accountId &&
    r.mailboxIdentityKey = c.mailboxIdentityKey && r.nextIndex = state.nextIndex &&
    r.terminalCandidateCount = state.terminalCandidateCount
  let changed ← updateRecovery current (·.advance)
  require (changed = 1) <| label "gmail_recovery_candidate_mismatch"
  recomputeDerived recompute
  return inserted

-- Moves the mailbox to the cursor that was read before the first page was, and ends the recovery.
def completeGmailRecovery (accountId mailboxIdentityKey : String)
    (recompute : Mail.Store → Except StoreError Mail.Store) : Statement String := do
  lift <| requireMailboxIdentityKey mailboxIdentityKey
  let state ← requireCurrentGmailRecovery accountId mailboxIdentityKey
  require (state.pageLoaded ∧ state.pageToken = none ∧
    state.nextIndex = state.currentPageIds.length) <| label "gmail_recovery_page_not_drained"
  write fun s => { s with
    mailboxes := s.mailboxes.put ⟨accountId, state.replacementHistoryCursor, state.createdAt⟩
  }
  let ended (r : Recovery) : Bool :=
    r.accountId = accountId && r.mailboxIdentityKey = mailboxIdentityKey
  let deleted ← query (·.recoveries.rows.filter ended)
  write fun s => { s with recoveries := s.recoveries.delete ended }
  require (deleted.length = 1) <| label "not_found"
  -- What the threads of the mailbox have been synced through no longer counts.
  let scope : Mail.Scope := ⟨.gmail, accountId, mailboxIdentityKey⟩
  write fun s => { s with mail.watermarks := s.mail.watermarks.delete (·.scope = scope) }
  recomputeDerived recompute
  return state.replacementHistoryCursor

end Candidates

section Calls

-- The row that a transaction has written is read once more after its commit.
def readBack (x : Statement Recovery) (s : Store) : Except RecoveryError Recovery × Store :=
  match x.commit s with
  | (.ok r, s')    => (gmailRecoveryState r, s')
  | (.error e, s') => (.error e, s')

inductive Call
  | create           (r : CreateRequest)
  | storePage        (accountId mailboxIdentityKey : String) (ids : List String)
      (nextPageToken : Option String)
  | finishPage       (accountId mailboxIdentityKey : String)
  | backoff          (accountId mailboxIdentityKey : String) (failureCode nextRetryAt : String)
      (degraded : Bool)
  | invalidPageToken (accountId mailboxIdentityKey : String) (nextRetryAt : String)
  | clearBackoff     (accountId mailboxIdentityKey : String)
  | restartPage      (accountId mailboxIdentityKey : String) (queryScope : String)
  | finishCandidate  (c : Candidate) (recompute : Mail.Store → Except StoreError Mail.Store)
  | complete         (accountId mailboxIdentityKey : String)
      (recompute : Mail.Store → Except StoreError Mail.Store)

-- What a call returns, and the store that it leaves behind.
def Call.perform (s : Store) : Call → Except RecoveryError Unit × Store
  | .create r => answer <| readBack (createGmailRecoveryState r) s
  | .storePage accountId key ids token =>
    answer <| readBack (storeGmailRecoveryPage accountId key ids token) s
  | .finishPage accountId key => answer <| (finishGmailRecoveryPage accountId key).commit s
  | .backoff accountId key code retryAt degraded =>
    answer <| readBack (recordGmailRecoveryBackoff accountId key code retryAt degraded) s
  | .invalidPageToken accountId key retryAt =>
    answer <| readBack (recordGmailRecoveryInvalidPageToken accountId key retryAt) s
  | .clearBackoff accountId key => answer <| readBack (clearGmailRecoveryBackoff accountId key) s
  | .restartPage accountId key scope =>
    answer <| readBack (restartGmailRecoveryPage accountId key scope) s
  | .finishCandidate c recompute => answer <| (finishGmailRecoveryCandidate c recompute).commit s
  | .complete accountId key recompute =>
    answer <| (completeGmailRecovery accountId key recompute).commit s
where
  answer {α : Type} (x : Except RecoveryError α × Store) : Except RecoveryError Unit × Store :=
    (discard x.fst, x.snd)

end Calls

end Gmail
