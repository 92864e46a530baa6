import EmailWatcher.Basic
import EmailWatcher.Library.Journal
import EmailWatcher.Library.Table

namespace Calendar

inductive RunState
  | detected
  | extracting
  | ambiguous
  | manualReview
  | proposing
  | awaitingConfirmation
  | declined
  | writeAuthorized
  | writing
  | completed
  | failed
  | unresolved
  | sourceUnavailable
  | reconciling
  deriving DecidableEq, Repr

-- `length(value) = size`, which a missing value passes.
def sized (size : Nat) (value : Option String) : Bool :=
  value.all (·.toList.length = size)

def identifier : Option String → Bool :=
  sized 36

def digest : Option String → Bool :=
  sized 64

-- `length(CAST(value AS BLOB)) <= bytes`
def bounded (bytes : Nat) (value : Option String) : Bool :=
  value.all (·.utf8ByteSize ≤ bytes)

-- `length(value) BETWEEN 1 AND 64`
def shortCode (value : Option String) : Bool :=
  value.all fun code => 1 ≤ code.toList.length && code.toList.length ≤ 64

-- A row of `automation_runs`.
structure Run where
  runId                   : String
  provider                : String
  accountId               : String
  calendarPrincipalKey    : String
  sourceMessageKey        : String
  automationId            : String
  automationVersion       : Nat
  extractionSchemaVersion : Nat
  state                   : RunState
  stateVersion            : Nat
  failureCode             : Option String
  sourceContentSha256     : Option String
  extractionContextAt     : Option String
  extractionTimezone      : Option String
  extractionBodyCharLimit : Option Nat
  currentPayloadId        : Option String
  currentPayloadSha256    : Option String
  reviewNotifiedAt        : Option Instant
  expiresAt               : Instant
  deriving DecidableEq, Repr

instance : Keyed Run String where
  key := Run.runId

-- The columns under which a message is admitted once.
def Run.admission (r : Run) : String × String × String × String × Nat :=
  (r.provider, r.accountId, r.sourceMessageKey, r.automationId, r.automationVersion)

-- The CHECK constraints of `automation_runs`. A comparison with a missing value does not fail.
def Run.check (r : Run) : Bool :=
  identifier r.runId && r.provider ≠ "" && r.accountId ≠ "" &&
  digest r.calendarPrincipalKey && digest r.sourceMessageKey &&
  r.automationId ≠ "" && 0 < r.automationVersion && 0 < r.extractionSchemaVersion &&
  1 ≤ r.stateVersion && digest r.sourceContentSha256 && r.extractionBodyCharLimit.all (0 < ·) &&
  identifier r.currentPayloadId && digest r.currentPayloadSha256 &&
  (r.state ≠ .detected || r.failureCode = none) &&
  (r.state ≠ .sourceUnavailable || r.failureCode.all (· = "source_unavailable"))

inductive EventDecision
  | confirmed
  | declined
  deriving DecidableEq, Repr

-- A row of `automation_events`.
structure Event where
  eventId                 : String
  runId                   : String
  sequenceNo              : Nat
  previousState           : Option RunState
  nextState               : RunState
  stateVersion            : Nat
  automationId            : String
  automationVersion       : Nat
  extractionSchemaVersion : Nat
  calendarPrincipalKey    : String
  transitionKind          : RunState
  failureCode             : Option String
  payloadId               : Option String
  payloadSha256           : Option String
  decision                : Option EventDecision
  transactionId           : Option String
  graphEventId            : Option String
  createdAt               : Instant
  deriving DecidableEq, Repr

instance : Keyed Event String where
  key := Event.eventId

instance : Entry Event RunState where
  sequenceNo    := Event.sequenceNo
  stateVersion  := Event.stateVersion
  previousState := Event.previousState
  nextState     := Event.nextState

def Event.check (e : Event) : Bool :=
  identifier e.eventId && e.runId ≠ "" && 1 ≤ e.stateVersion &&
  e.automationId ≠ "" && 0 < e.automationVersion && 0 < e.extractionSchemaVersion &&
  digest e.calendarPrincipalKey && identifier e.payloadId && digest e.payloadSha256 &&
  identifier e.transactionId &&
  e.graphEventId.all (fun id => 1 ≤ id.utf8ByteSize && id.utf8ByteSize ≤ 512) &&
  if e.nextState = .detected then
    e.previousState = none && e.sequenceNo = 0 && e.stateVersion = 1 &&
    e.transitionKind = .detected && e.failureCode = none
  else
    e.previousState.isSome && 1 ≤ e.sequenceNo && e.stateVersion = e.sequenceNo + 1

inductive ExtractionStatus
  | reserved
  | accepted
  | rejected
  deriving DecidableEq, Repr

-- A row of `automation_extraction_payloads`.
structure Extraction where
  payloadId           : String
  runId               : String
  attemptNo           : Nat
  requestId           : String
  status              : ExtractionStatus
  sourceContentSha256 : String
  contextAt           : String
  timezone            : String
  bodyCharLimit       : Nat
  organizerAddress    : String
  failureCount        : Nat
  nextRetryAt         : Option Instant
  lastErrorCode       : Option String
  resultSha256        : Option String
  resultJson          : Option String
  violationsJson      : Option String
  completedAt         : Option Instant
  deriving DecidableEq, Repr

instance : Keyed Extraction String where
  key := Extraction.payloadId

def Extraction.check (x : Extraction) : Bool :=
  identifier x.payloadId && x.runId ≠ "" && x.attemptNo ∈ [1, 2] && identifier x.requestId &&
  digest x.sourceContentSha256 && x.contextAt ≠ "" && x.timezone ≠ "" && 0 < x.bodyCharLimit &&
  x.organizerAddress ≠ "" && x.organizerAddress.toList.length ≤ 320 &&
  shortCode x.lastErrorCode && digest x.resultSha256 &&
  x.resultJson.all (fun json => 1 ≤ json.utf8ByteSize && json.utf8ByteSize ≤ 32768) &&
  x.violationsJson.all (fun json => 2 ≤ json.utf8ByteSize && json.utf8ByteSize ≤ 8192) &&
  match x.status with
  | .reserved =>
    x.resultSha256 = none && x.resultJson = none && x.violationsJson = none && x.completedAt = none
  | .accepted =>
    x.resultSha256.isSome && x.resultJson.isSome && x.violationsJson = some "[]" &&
    x.completedAt.isSome
  | .rejected =>
    x.resultSha256.isSome && x.resultJson.isSome && x.violationsJson.any (· ≠ "[]") &&
    x.completedAt.isSome

inductive ProposalStatus
  | accepted
  | noSuggestions
  deriving DecidableEq, Repr

-- A row of `automation_proposal_payloads`.
structure Proposal where
  payloadId        : String
  runId            : String
  proposalVersion  : Nat
  status           : ProposalStatus
  requestSha256    : String
  proposalSha256   : String
  subject          : String
  attendeesJson    : String
  start            : Option String
  stop             : Option String
  timezone         : Option String
  suggestionReason : Option String
  emptyReason      : Option String
  observedAt       : Instant
  expiresAt        : Option Instant
  deriving DecidableEq, Repr

instance : Keyed Proposal String where
  key := Proposal.payloadId

def Proposal.check (p : Proposal) : Bool :=
  identifier p.payloadId && p.runId ≠ "" && 0 < p.proposalVersion &&
  digest p.requestSha256 && digest p.proposalSha256 && p.subject.utf8ByteSize ≤ 512 &&
  2 ≤ p.attendeesJson.utf8ByteSize && p.attendeesJson.utf8ByteSize ≤ 32768 &&
  bounded 64 p.start && bounded 64 p.stop && bounded 128 p.timezone &&
  bounded 512 p.suggestionReason && bounded 512 p.emptyReason &&
  match p.status with
  | .accepted =>
    p.start.isSome && p.stop.isSome && p.timezone.isSome && p.suggestionReason.isSome &&
    p.emptyReason = none && p.expiresAt.isSome
  | .noSuggestions =>
    p.start = none && p.stop = none && p.timezone = none && p.suggestionReason = none &&
    p.emptyReason.isSome && p.expiresAt = none

inductive WriteStatus
  | authorized
  | writing
  | unresolved
  | reconciling
  | completed
  | failed
  | cancelled
  deriving DecidableEq, Repr

-- A row of `automation_calendar_writes`. The calendar is always the primary one.
structure CalendarWrite where
  runId                : String
  transactionId        : String
  proposalVersion      : Nat
  proposalSha256       : String
  calendarPrincipalKey : String
  start                : String
  stop                 : String
  timezone             : String
  status               : WriteStatus
  graphEventId         : Option String
  failureCode          : Option String
  confirmedAt          : Instant
  submittedAt          : Option Instant
  completedAt          : Option Instant
  deriving DecidableEq, Repr

instance : Keyed CalendarWrite String where
  key := CalendarWrite.runId

def CalendarWrite.check (w : CalendarWrite) : Bool :=
  w.runId ≠ "" && identifier w.transactionId && 0 < w.proposalVersion &&
  digest w.proposalSha256 && digest w.calendarPrincipalKey &&
  bounded 64 w.start && bounded 64 w.stop && bounded 128 w.timezone &&
  w.graphEventId.all (fun id => 1 ≤ id.utf8ByteSize && id.utf8ByteSize ≤ 512) &&
  shortCode w.failureCode &&
  if w.status = .completed then
    w.graphEventId.isSome && w.completedAt.isSome
  else
    w.graphEventId = none && w.completedAt = none

@[ext]
structure Store where
  runs        : Table Run
  events      : Table Event
  extractions : Table Extraction
  proposals   : Table Proposal
  writes      : Table CalendarWrite

instance : EmptyCollection Store where
  emptyCollection := {
    runs        := ∅
    events      := ∅
    extractions := ∅
    proposals   := ∅
    writes      := ∅
  }

-- The events of a run, in the order in which they have been appended.
def Store.log (s : Store) (runId : String) : List Event :=
  s.events.rows.filter (·.runId = runId)

inductive RunError
  | store             (e : StoreError)
  | permission        (message : String)
  -- `AutomationSourceChanged`
  | sourceChanged     (message : String)
  -- `AutomationCalendarWriteStateChanged`
  | writeStateChanged (message : String)
  deriving DecidableEq, Repr

namespace RunError

def value (message : String) : RunError :=
  .store (.value message)

def runtime (message : String) : RunError :=
  .store (.runtime message)

def missing (runId : String) : RunError :=
  .store (.key [runId])

def integrity (message : String) : RunError :=
  .store (.integrity message)

end RunError

-- What `json.dumps` is given for a proposal.
structure ProposalDocument where
  attendees        : List String
  emptyReason      : Option String
  stop             : Option String
  principalKey     : String
  start            : Option String
  subject          : String
  suggestionReason : Option String
  timezone         : Option String
  version          : Nat
  deriving DecidableEq, Repr

structure Violation where
  code : String
  path : String
  deriving DecidableEq, Repr

-- A parsed time: the instant that it stands for, and the offset in microseconds that it is given
-- with, if it is.
structure ZonedTime where
  utc    : Instant
  offset : Option Int
  deriving DecidableEq, Repr

-- The codecs and the tables that the runs rely on.
class Codec where
  -- `hashlib.sha256(text).hexdigest()`
  sha256 : String → String
  -- `normalize_validated_address`
  normalizeValidatedAddress : String → Option String
  encodeAttendees : List String → String
  encodeProposal : ProposalDocument → String
  encodeViolations : List Violation → String
  -- `error_code[0].islower()`, `error_code.replace("_", "").isalnum()` and
  -- `error_code == error_code.casefold()`, for a code that is not empty
  lowercaseCode : String → Bool
  -- `datetime.fromisoformat`, as far as the result can be converted to UTC
  fromIsoFormat : String → Option ZonedTime
  -- The offset from UTC of a zone at an instant
  zoneInfo : String → Option (Instant → Int)

end Calendar
