import EmailWatcher.Library.Session
import EmailWatcher.Calendar.Schema

namespace Calendar

open Session RunError

abbrev Statement (α : Type) := Session Store RunError α

def schedulingAutomationId : String := "email.schedule_event"

def schedulingAutomationVersion : Nat := 1

def schedulingExtractionSchemaVersion : Nat := 1

def automationRetryDelaysSeconds : List Nat := [60, 300, 900, 3600]

def maxAutomationProposalAttendees : Nat := 64

-- `_CALENDAR_PENDING_STATES`
def calendarPendingStates : List RunState :=
  [.detected, .extracting, .proposing, .awaitingConfirmation]

-- `_CALENDAR_REVIEW_STATES`
def calendarReviewStates : List RunState :=
  [.manualReview, .ambiguous]

section Statements

-- An `UPDATE` of `automation_runs` that has to meet exactly one row.
def updateRun (p : Run → Bool) (g : Run → Run) (lost : RunError)
    (hg : ∀ r, (g r).runId = r.runId := by as_aux_lemma => intros; rfl) : Statement Unit := do
  let rows ← query (·.runs.rows.filter p)
  require (∀ r ∈ rows, (g r).check) <| integrity "CHECK constraint failed: automation_runs"
  write fun s => { s with runs := s.runs.update p g hg }
  require (rows.length = 1) lost

def updateExtraction (p : Extraction → Bool) (g : Extraction → Extraction) (lost : RunError)
    (hg : ∀ x, (g x).payloadId = x.payloadId := by as_aux_lemma => intros; rfl) :
    Statement Unit := do
  let rows ← query (·.extractions.rows.filter p)
  require (∀ x ∈ rows, (g x).check) <|
    integrity "CHECK constraint failed: automation_extraction_payloads"
  write fun s => { s with extractions := s.extractions.update p g hg }
  require (rows.length = 1) lost

def updateWrite (p : CalendarWrite → Bool) (g : CalendarWrite → CalendarWrite) (lost : RunError)
    (hg : ∀ w, (g w).runId = w.runId := by as_aux_lemma => intros; rfl) : Statement Unit := do
  let rows ← query (·.writes.rows.filter p)
  require (∀ w ∈ rows, (g w).check) <|
    integrity "CHECK constraint failed: automation_calendar_writes"
  write fun s => { s with writes := s.writes.update p g hg }
  require (rows.length = 1) lost

def insertExtraction (x : Extraction) : Statement Unit := do
  let s ← query id
  require x.check <| integrity "CHECK constraint failed: automation_extraction_payloads"
  require (∀ x' ∈ s.extractions.rows, x'.requestId ≠ x.requestId ∧
      ¬(x'.runId = x.runId ∧ x'.attemptNo = x.attemptNo)) <|
    integrity "UNIQUE constraint failed: automation_extraction_payloads.request_id"
  let extractions ← find (s.extractions.insert x) <|
    integrity "UNIQUE constraint failed: automation_extraction_payloads.payload_id"
  write ({ · with extractions := extractions })

def insertProposal (p : Proposal) : Statement Unit := do
  let s ← query id
  require p.check <| integrity "CHECK constraint failed: automation_proposal_payloads"
  require (∀ p' ∈ s.proposals.rows,
      ¬(p'.runId = p.runId ∧ p'.proposalVersion = p.proposalVersion)) <|
    integrity "UNIQUE constraint failed: automation_proposal_payloads.proposal_version"
  let proposals ← find (s.proposals.insert p) <|
    integrity "UNIQUE constraint failed: automation_proposal_payloads.payload_id"
  write ({ · with proposals := proposals })

def insertWrite (w : CalendarWrite) : Statement Unit := do
  let s ← query id
  require w.check <| integrity "CHECK constraint failed: automation_calendar_writes"
  require (∀ w' ∈ s.writes.rows, w'.transactionId ≠ w.transactionId) <|
    integrity "UNIQUE constraint failed: automation_calendar_writes.transaction_id"
  let writes ← find (s.writes.insert w) <|
    integrity "UNIQUE constraint failed: automation_calendar_writes.run_id"
  write ({ · with writes := writes })

end Statements

section Events

def appendAutomationEvent (e : Event) : Statement Unit := do
  let s ← query id
  require e.check <| integrity "CHECK constraint failed: automation_events"
  require (∀ e' ∈ s.events.rows, e'.runId = e.runId →
      e'.sequenceNo ≠ e.sequenceNo ∧ e'.stateVersion ≠ e.stateVersion) <|
    integrity "UNIQUE constraint failed: automation_events.sequence_no"
  let events ← find (s.events.insert e) <|
    integrity "UNIQUE constraint failed: automation_events.event_id"
  write ({ · with events := events })

-- What a caller of `_append_automation_event` adds to the row of the run. The kind of a transition is
-- the state that it leads to.
structure EventFields where
  eventId       : String
  previousState : Option RunState
  nextState     : RunState
  nextVersion   : Nat
  failureCode   : Option String
  createdAt     : Instant
  payloadId     : Option String        := none
  payloadSha256 : Option String        := none
  decision      : Option EventDecision := none
  transactionId : Option String        := none
  graphEventId  : Option String        := none

def Run.event (r : Run) (x : EventFields) : Event where
  eventId                 := x.eventId
  runId                   := r.runId
  sequenceNo              := x.nextVersion - 1
  previousState           := x.previousState
  nextState               := x.nextState
  stateVersion            := x.nextVersion
  automationId            := r.automationId
  automationVersion       := r.automationVersion
  extractionSchemaVersion := r.extractionSchemaVersion
  calendarPrincipalKey    := r.calendarPrincipalKey
  transitionKind          := x.nextState
  failureCode             := x.failureCode
  payloadId               := x.payloadId
  payloadSha256           := x.payloadSha256
  decision                := x.decision
  transactionId           := x.transactionId
  graphEventId            := x.graphEventId
  createdAt               := x.createdAt

-- `SELECT * FROM automation_runs` at the end of a transition.
def readRun (runId : String) (unreadable : String) : Statement Run := do
  let run ← query (·.runs.get runId)
  find run <| runtime unreadable

end Events

section Admission

structure Admission where
  runId                : String
  eventId              : String
  provider             : String
  accountId            : String
  calendarPrincipalKey : String
  -- `_message_suppression_key`
  sourceMessageKey     : String
  createdAt            : Instant
  expiresAt            : Instant

def Admission.run (r : Admission) : Run where
  runId                   := r.runId
  provider                := r.provider
  accountId               := r.accountId
  calendarPrincipalKey    := r.calendarPrincipalKey
  sourceMessageKey        := r.sourceMessageKey
  automationId            := schedulingAutomationId
  automationVersion       := schedulingAutomationVersion
  extractionSchemaVersion := schedulingExtractionSchemaVersion
  state                   := .detected
  stateVersion            := 1
  failureCode             := none
  sourceContentSha256     := none
  extractionContextAt     := none
  extractionTimezone      := none
  extractionBodyCharLimit := none
  currentPayloadId        := none
  currentPayloadSha256    := none
  reviewNotifiedAt        := none
  expiresAt               := r.expiresAt

def insertRun (r : Run) : Statement Unit := do
  let s ← query id
  require r.check <| integrity "CHECK constraint failed: automation_runs"
  let runs ← find (s.runs.insert r) <|
    integrity "UNIQUE constraint failed: automation_runs.run_id"
  write ({ · with runs := runs })

-- A message that has been admitted before is left alone.
def admitSchedulingAutomation (r : Admission) : Statement Unit := do
  let s ← query id
  if s.runs.rows.any (·.admission = r.run.admission) then
    return
  else
    insertRun r.run
    appendAutomationEvent <| r.run.event {
      eventId       := r.eventId
      previousState := none
      nextState     := .detected
      nextVersion   := 1
      failureCode   := none
      createdAt     := r.createdAt
    }

end Admission

section Cancellation

inductive Cause
  | sourceUnavailable
  | threadUnfollowed
  deriving DecidableEq, Repr

def Cause.text : Cause → String
  | sourceUnavailable => "source_unavailable"
  | threadUnfollowed  => "thread_unfollowed"

-- `automation_source_loss_requires_review`
def Cause.requiresReview (cause : Cause) : Bool :=
  cause ≠ .threadUnfollowed

def deletePayloads (runId : String) : Statement Unit := do
  write fun s => { s with extractions := s.extractions.delete (·.runId = runId) }
  write fun s => { s with proposals := s.proposals.delete (·.runId = runId) }

def cancellable (state : RunState) (cause : Cause) : Bool :=
  state ∈ calendarPendingStates || state = .writeAuthorized ||
  (cause = .threadUnfollowed && state ∈ calendarReviewStates)

def cancelAuthorizedWrite (row : Run) (cause : Cause) : Statement Unit :=
  if row.state = .writeAuthorized then
    updateWrite (fun w => w.runId = row.runId && w.status = .authorized)
      (fun w => { w with status := .cancelled, failureCode := some cause.text })
      (runtime "Automation source cleanup lost its write-state race")
  else
    return

-- `_cancel_automation_source`. The row and the transaction have been read before.
def cancelAutomationSource (row : Run) (transactionId : Option String) (cause : Cause)
    (eventId : String) (updatedAt : Instant) : Statement Bool := do
  deletePayloads row.runId
  if !cancellable row.state cause then
    return false
  else
    cancelAuthorizedWrite row cause
    updateRun (fun r => r.runId = row.runId && r.state = row.state && r.stateVersion = row.stateVersion)
      (fun r => { r with
        state            := .sourceUnavailable
        stateVersion     := row.stateVersion + 1
        failureCode      := some "source_unavailable"
        reviewNotifiedAt := if cause.requiresReview then none else some updatedAt
      })
      (runtime "Automation source cleanup lost its expected-state race")
    appendAutomationEvent <| row.event {
      eventId       := eventId
      previousState := row.state
      nextState     := .sourceUnavailable
      nextVersion   := row.stateVersion + 1
      failureCode   := cause.text
      createdAt     := updatedAt
      payloadId     := row.currentPayloadId
      payloadSha256 := row.currentPayloadSha256
      transactionId := if row.state = .writeAuthorized then transactionId else none
    }
    return true

-- The rows of some runs, together with the transactions of their writes.
def Store.admissions (s : Store) (runIds : List String) : List (Run × Option String) :=
  runIds.filterMap fun id => (s.runs.get id).map fun r => (r, (s.writes.get id).map (·.transactionId))

-- One chunk of `_mark_automation_sources_unavailable`: the runs that the messages of the chunk are
-- bound to are read at once, and then cancelled one after the other.
def cancelChunk (cause : Cause) (eventId : String → String) (updatedAt : Instant)
    (runIds : List String) : Statement Unit := do
  let rows ← query (·.admissions runIds)
  rows.forM fun (row, transactionId) => do
    let _ ← cancelAutomationSource row transactionId cause (eventId row.runId) updatedAt

def markAutomationSourcesUnavailable (chunks : List (List String)) (cause : Cause)
    (eventId : String → String) (updatedAt : Instant) : Statement Unit :=
  chunks.forM (cancelChunk cause eventId updatedAt)

-- `_calendar_unfollow_candidate_sql`
def Store.unfollowCandidate (s : Store) (r : Run) : Bool :=
  r.state ∈ calendarPendingStates || r.state ∈ calendarReviewStates ||
  (r.state = .writeAuthorized && (s.writes.get r.runId).any (·.status = .authorized))

-- The admissions that `_recompute_derived` revokes, of the runs whose thread is no longer followed.
def cancelUnfollowed (runIds : List String) (eventId : String → String) (updatedAt : Instant) :
    Statement Unit := do
  let s ← query id
  (s.admissions runIds |>.filter (s.unfollowCandidate ·.fst)).forM fun (row, transactionId) => do
    let _ ← cancelAutomationSource row transactionId .threadUnfollowed (eventId row.runId) updatedAt

-- A handoff that is under way keeps its run alive.
def Store.expired (s : Store) (now : Instant) (runId : String) : Bool :=
  (s.runs.get runId).any fun r => r.state ∉ [.writing, .reconciling] && r.expiresAt ≤ now

-- The deletion of a run takes its payloads and its write with it.
def purgeExpiredAutomationTombstones (now : Instant) : Statement Unit := do
  let expired ← query (·.expired now)
  write fun s => { s with
    runs        := s.runs.delete (expired ·.runId)
    extractions := s.extractions.delete (expired ·.runId)
    proposals   := s.proposals.delete (expired ·.runId)
    writes      := s.writes.delete (expired ·.runId)
  }
  write fun s => { s with events := s.events.delete (expired ·.runId) }

end Cancellation

section Extraction

-- The run, if there is one and its mail may be used.
def availableRun (runId : String) (available : Bool) : Statement Run := do
  let run ← query (·.runs.get runId)
  let row ← find run <| missing runId
  require available <| missing runId
  return row

-- `_scheduling_preparation_available_sql`: a run that has lost its source only because its thread was
-- unfollowed is prepared again once the thread is followed.
def Store.preparationAvailable (s : Store) (r : Run) (followed : Bool) : Bool :=
  r.state ∈ [.detected, .extracting] ||
  (r.state = .sourceUnavailable && followed && s.events.rows.any fun e =>
    e.runId = r.runId && e.stateVersion = r.stateVersion && e.nextState = .sourceUnavailable &&
    e.transitionKind = .sourceUnavailable && e.failureCode = some "thread_unfollowed")

structure Reservation where
  runId                : String
  expectedStateVersion : Nat
  sourceContentSha256  : String
  contextAt            : String
  timezone             : String
  bodyCharLimit        : Nat
  organizerAddress     : String
  payloadId            : String
  requestId            : String
  eventId              : String
  now                  : Instant

namespace Reservation

def check (r : Reservation) : Statement Unit := do
  require (r.sourceContentSha256.toList.length = 64) <|
    value "source_content_sha256 must be a SHA-256 digest"
  require (r.contextAt ≠ "" ∧ r.timezone ≠ "" ∧ 1 ≤ r.bodyCharLimit ∧ r.organizerAddress ≠ "" ∧
      r.organizerAddress.toList.length ≤ 320) <|
    value "extraction context must be complete"

def extraction (r : Reservation) (attemptNo : Nat) : Extraction where
  payloadId           := r.payloadId
  runId               := r.runId
  attemptNo           := attemptNo
  requestId           := r.requestId
  status              := .reserved
  sourceContentSha256 := r.sourceContentSha256
  contextAt           := r.contextAt
  timezone            := r.timezone
  bodyCharLimit       := r.bodyCharLimit
  organizerAddress    := r.organizerAddress
  failureCount        := 0
  nextRetryAt         := none
  lastErrorCode       := none
  resultSha256        := none
  resultJson          := none
  violationsJson      := none
  completedAt         := none

-- The reservation is the one that has been made before.
def sameAs (r : Reservation) (x : Extraction) : Bool :=
  x.sourceContentSha256 = r.sourceContentSha256 && x.contextAt = r.contextAt &&
  x.timezone = r.timezone && x.bodyCharLimit = r.bodyCharLimit &&
  x.organizerAddress = r.organizerAddress

-- The context that the run was admitted with, if any, is the one of the reservation.
def sameContext (r : Reservation) (row : Run) : Bool :=
  row.extractionContextAt = none ||
  (row.extractionContextAt = some r.contextAt && row.extractionTimezone = some r.timezone &&
    row.extractionBodyCharLimit = some r.bodyCharLimit)

end Reservation

-- `ORDER BY attempt_no`: there are at most two attempts, with distinct numbers.
def Store.extractionsOf (s : Store) (runId : String) : List Extraction :=
  let rows := s.extractions.rows.filter (·.runId = runId)
  rows.filter (·.attemptNo = 1) ++ rows.filter (·.attemptNo ≠ 1)

-- A new attempt, after all checks.
def reserveAttempt (r : Reservation) (row : Run) (attemptNo : Nat) : Statement Extraction := do
  insertExtraction (r.extraction attemptNo)
  updateRun (fun x => x.runId = r.runId && x.state = row.state &&
      x.stateVersion = r.expectedStateVersion)
    (fun x => { x with
      state                   := .extracting
      stateVersion            := r.expectedStateVersion + 1
      failureCode             := none
      sourceContentSha256     := some r.sourceContentSha256
      extractionContextAt     := some r.contextAt
      extractionTimezone      := some r.timezone
      extractionBodyCharLimit := some r.bodyCharLimit
      currentPayloadId        := some r.payloadId
      currentPayloadSha256    := none
    })
    (runtime "Automation extraction lost its expected-state race")
  appendAutomationEvent <| row.event {
    eventId       := r.eventId
    previousState := row.state
    nextState     := .extracting
    nextVersion   := r.expectedStateVersion + 1
    failureCode   := none
    createdAt     := r.now
    payloadId     := r.payloadId
  }
  return r.extraction attemptNo

def reserveAutomationExtraction (r : Reservation) (available followed : Bool) :
    Statement Extraction := do
  r.check
  let row ← availableRun r.runId available
  let s ← query id
  require (s.preparationAvailable row followed ∧ row.stateVersion = r.expectedStateVersion) <|
    runtime "Automation extraction lost its expected-state race"
  let repreparing : Bool := row.state = .sourceUnavailable
  require (repreparing ∨ row.sourceContentSha256.all (· = r.sourceContentSha256)) <|
    .sourceChanged "Automation source content changed after admission"
  let payloads := s.extractionsOf r.runId
  require (payloads.head?.all (·.organizerAddress = r.organizerAddress)) <|
    .sourceChanged "Automation organizer changed or was not pinned after reservation"
  match payloads.getLast?.filter (·.status = .reserved) with
  | some reserved =>
    require (r.sameAs reserved) <|
      .sourceChanged "Automation source or extraction context changed after reservation"
    return reserved
  | none =>
    require (payloads.getLast?.all (·.status = .rejected)) <|
      runtime "Automation extraction already has a terminal result"
    require (payloads.length + 1 ∈ [1, 2]) <|
      runtime "Automation extraction retry budget is exhausted"
    require (repreparing ∨ r.sameContext row) <|
      .sourceChanged "Automation extraction context changed after admission"
    reserveAttempt r row (payloads.length + 1)

-- The payload that the run is being extracted to, if the caller still holds it.
def Run.extracts (row : Run) (x : Extraction) (runId payloadId : String) (version : Nat) : Bool :=
  row.state = .extracting && row.stateVersion = version && row.currentPayloadId = some payloadId &&
  x.runId = runId && x.status = .reserved

variable [Codec]

structure ExtractionFailure where
  runId                : String
  expectedStateVersion : Nat
  payloadId            : String
  errorCode            : String
  retryable            : Bool
  retryAfterSeconds    : Option Nat
  eventId              : String
  now                  : Instant

namespace ExtractionFailure

def check (r : ExtractionFailure) : Statement Unit := do
  require (r.errorCode ≠ "" ∧ r.errorCode.toList.length ≤ 64 ∧ Codec.lowercaseCode r.errorCode) <|
    value "automation extraction error code is invalid"
  require (r.retryAfterSeconds.all fun t => 1 ≤ t && t ≤ 86400) <|
    value "retry_after_seconds must be between 1 and 86400"
  require (r.retryable ∨ r.retryAfterSeconds = none) <|
    value "permanent extraction failures cannot carry a retry delay"

def nextState (r : ExtractionFailure) : RunState :=
  if r.retryable then .extracting else .manualReview

-- The time of the next attempt, after the given number of failures.
def nextRetryAt (r : ExtractionFailure) (failureCount : Nat) : Option Instant :=
  if r.retryable then
    let last := automationRetryDelaysSeconds.length - 1
    let delay := r.retryAfterSeconds.getD <|
      automationRetryDelaysSeconds.getD (min (failureCount - 1) last) 0
    some (r.now + (delay : Int) * Instant.second)
  else
    none

end ExtractionFailure

def recordAutomationExtractionFailure (r : ExtractionFailure) (available : Bool) :
    Statement Run := do
  r.check
  let row ← availableRun r.runId available
  let payload ← query (·.extractions.get r.payloadId)
  let lost := runtime "Automation extraction failure lost its expected-state race"
  let payload ← find payload lost
  require (row.extracts payload r.runId r.payloadId r.expectedStateVersion) lost
  let failureCount := payload.failureCount + 1
  updateExtraction
    (fun x => x.payloadId = r.payloadId && x.runId = r.runId && x.status = .reserved)
    (fun x => { x with
      failureCount  := failureCount
      nextRetryAt   := r.nextRetryAt failureCount
      lastErrorCode := some r.errorCode
    })
    (runtime "Automation extraction payload was not reserved")
  updateRun (fun x => x.runId = r.runId && x.state = .extracting &&
      x.stateVersion = r.expectedStateVersion && x.currentPayloadId = some r.payloadId)
    (fun x => { x with
      state            := r.nextState
      stateVersion     := r.expectedStateVersion + 1
      failureCode      := some ("model_" ++ r.errorCode)
      reviewNotifiedAt := none
    })
    lost
  appendAutomationEvent <| row.event {
    eventId       := r.eventId
    previousState := some .extracting
    nextState     := r.nextState
    nextVersion   := r.expectedStateVersion + 1
    failureCode   := some ("model_" ++ r.errorCode)
    createdAt     := r.now
    payloadId     := r.payloadId
  }
  readRun r.runId "Automation extraction failure was not readable"

structure ExtractionResult where
  runId                : String
  expectedStateVersion : Nat
  payloadId            : String
  resultSha256         : String
  resultJson           : String
  violations           : List Violation
  acceptedState        : Option RunState
  acceptedCode         : Option String
  eventId              : String
  now                  : Instant

namespace ExtractionResult

-- `_encoded_automation_violations`
def violationsJson (r : ExtractionResult) : String :=
  Codec.encodeViolations <| r.violations.take 32 |>.map fun v =>
    { code := takeChars 64 v.code, path := takeChars 256 v.path }

def check (r : ExtractionResult) : Statement Unit := do
  require (r.resultSha256.toList.length = 64 ∧ Codec.sha256 r.resultJson = r.resultSha256 ∧
      1 ≤ r.resultJson.utf8ByteSize ∧ r.resultJson.utf8ByteSize ≤ 32768) <|
    value "automation extraction result is not bounded"
  require (2 ≤ r.violationsJson.utf8ByteSize ∧ r.violationsJson.utf8ByteSize ≤ 8192) <|
    value "automation extraction violations are not bounded"
  require (r.violations.isEmpty = r.acceptedState.isSome) <|
    value "accepted extraction state does not match validation outcome"
  require (r.acceptedState.all (· ∈ [.proposing, .manualReview, .ambiguous])) <|
    value "accepted extraction state is not supported"

-- Where the attempt with the given number leads to: a first rejection is tried again.
def outcome (r : ExtractionResult) (attemptNo : Nat) :
    RunState × Option String × ExtractionStatus :=
  match r.acceptedState with
  | some state => (state, r.acceptedCode, .accepted)
  | none       =>
    if attemptNo = 1 then (.extracting, some "validation_rejected_once", .rejected)
    else (.manualReview, some "validation_rejected", .rejected)

end ExtractionResult

def recordAutomationExtraction (r : ExtractionResult) (available : Bool) : Statement Run := do
  r.check
  let row ← availableRun r.runId available
  let payload ← query (·.extractions.get r.payloadId)
  let payload ← find payload <| missing r.runId
  let lost := runtime "Automation extraction completion lost its expected-state race"
  require (row.extracts payload r.runId r.payloadId r.expectedStateVersion) lost
  let (nextState, failureCode, payloadStatus) := r.outcome payload.attemptNo
  updateExtraction
    (fun x => x.payloadId = r.payloadId && x.runId = r.runId && x.status = .reserved)
    (fun x => { x with
      status         := payloadStatus
      resultSha256   := some r.resultSha256
      resultJson     := some r.resultJson
      violationsJson := some r.violationsJson
      nextRetryAt    := none
      completedAt    := some r.now
    })
    (runtime "Automation extraction payload was not reserved")
  updateRun (fun x => x.runId = r.runId && x.state = .extracting &&
      x.stateVersion = r.expectedStateVersion && x.currentPayloadId = some r.payloadId)
    (fun x => { x with
      state                := nextState
      stateVersion         := r.expectedStateVersion + 1
      failureCode          := failureCode
      currentPayloadSha256 := some r.resultSha256
      reviewNotifiedAt     := none
    })
    lost
  appendAutomationEvent <| row.event {
    eventId       := r.eventId
    previousState := some .extracting
    nextState     := nextState
    nextVersion   := r.expectedStateVersion + 1
    failureCode   := failureCode
    createdAt     := r.now
    payloadId     := r.payloadId
    payloadSha256 := r.resultSha256
  }
  readRun r.runId "Automation extraction result was not readable"

end Extraction

section Proposals

-- `_calendar_proposal_generation`
def Store.calendarProposalGeneration (s : Store) (runId : String) (before : Option Nat) : Nat :=
  s.events.rows.countP fun e => e.runId = runId && e.previousState = some .proposing &&
    e.nextState ∈ [.awaitingConfirmation, .manualReview] && before.all (e.stateVersion < ·)

def Store.latestProposalVersion (s : Store) (runId : String) : Nat :=
  max ((s.proposals.rows.filter (·.runId = runId)).map (·.proposalVersion) |>.foldl max 0)
    ((s.writes.get runId).elim 0 (·.proposalVersion))

variable [Codec]

structure ProposalRequest where
  runId                : String
  expectedStateVersion : Nat
  extractionPayloadId  : String
  requestSha256        : String
  subject              : String
  attendees            : List String
  start                : Option String
  stop                 : Option String
  timezone             : Option String
  suggestionReason     : Option String
  emptyReason          : Option String
  observedAt           : Instant
  payloadId            : String
  eventId              : String

def isHex (c : Char) : Bool :=
  isLowerHex c || ('A' ≤ c && c ≤ 'F')

namespace ProposalRequest

def accepted (r : ProposalRequest) : Bool :=
  r.start.isSome && r.stop.isSome && r.timezone.isSome && r.suggestionReason.any (· ≠ "") &&
  r.emptyReason = none

def noSuggestions (r : ProposalRequest) : Bool :=
  r.start = none && r.stop = none && r.timezone = none && r.suggestionReason = none &&
  r.emptyReason.any (· ≠ "")

-- The time is given in the zone that the proposal names.
def inZone (t : ZonedTime) (zone : Instant → Int) : Bool :=
  t.offset.any fun offset => t.utc + zone t.utc = t.utc + offset && zone t.utc = offset

-- When an accepted proposal expires, if its times are valid.
def expiry (r : ProposalRequest) : Option Instant := do
  let start ← r.start.bind Codec.fromIsoFormat
  let stop ← r.stop.bind Codec.fromIsoFormat
  let zone ← r.timezone.bind Codec.zoneInfo
  if r.observedAt < start.utc ∧ start.utc < stop.utc ∧ inZone start zone ∧ inZone stop zone then
    some (min (r.observedAt + 15 * 60 * Instant.second) start.utc)
  else
    none

-- The checks that do not read the store; they return the addresses of the attendees and the time at
-- which an accepted proposal expires.
def check (r : ProposalRequest) : Statement (List String × Option Instant) := do
  require (r.requestSha256.toList.length = 64 ∧ r.requestSha256.toList.all isHex) <|
    value "proposal request hash must be a SHA-256 digest"
  let attendees ← find (r.attendees.mapM Codec.normalizeValidatedAddress) <|
    value "automation proposal content is invalid"
  let attendeesJson := Codec.encodeAttendees attendees
  require (r.subject.utf8ByteSize ≤ 512 ∧ attendees.length ≤ maxAutomationProposalAttendees ∧
      attendees.Nodup ∧ 2 ≤ attendeesJson.utf8ByteSize ∧ attendeesJson.utf8ByteSize ≤ 32768) <|
    value "automation proposal content is not bounded"
  require (bounded 64 r.start ∧ bounded 64 r.stop ∧ bounded 128 r.timezone ∧
      bounded 512 r.suggestionReason ∧ bounded 512 r.emptyReason) <|
    value "automation proposal content is not bounded"
  require (r.accepted ≠ r.noSuggestions) <|
    value "automation proposal outcome is incomplete"
  if r.accepted then
    let expiresAt ← find r.expiry <| value "automation proposal time is invalid"
    return (attendees, some expiresAt)
  else
    return (attendees, none)

def document (r : ProposalRequest) (attendees : List String) (row : Run) (version : Nat) :
    ProposalDocument where
  attendees        := attendees
  emptyReason      := r.emptyReason
  stop             := r.stop
  principalKey     := row.calendarPrincipalKey
  start            := r.start
  subject          := r.subject
  suggestionReason := r.suggestionReason
  timezone         := r.timezone
  version          := version

def proposal (r : ProposalRequest) (attendees : List String) (row : Run) (version : Nat)
    (expiresAt : Option Instant) : Proposal where
  payloadId        := r.payloadId
  runId            := r.runId
  proposalVersion  := version
  status           := if r.accepted then .accepted else .noSuggestions
  requestSha256    := r.requestSha256
  proposalSha256   := Codec.sha256 <| Codec.encodeProposal <| r.document attendees row version
  subject          := r.subject
  attendeesJson    := Codec.encodeAttendees attendees
  start            := r.start
  stop             := r.stop
  timezone         := r.timezone
  suggestionReason := r.suggestionReason
  emptyReason      := r.emptyReason
  observedAt       := r.observedAt
  expiresAt        := expiresAt.map (min · row.expiresAt)

def nextState (r : ProposalRequest) : RunState :=
  if r.accepted then .awaitingConfirmation else .manualReview

def failureCode (r : ProposalRequest) : Option String :=
  if r.accepted then none else some "proposal_no_suggestions"

end ProposalRequest

def recordAutomationProposal (r : ProposalRequest) (available : Bool) : Statement Run := do
  let (attendees, expiresAt) ← r.check
  let row ← availableRun r.runId available
  let s ← query id
  require (r.observedAt < row.expiresAt) <| missing r.runId
  let extraction ← find ((s.extractions.get r.extractionPayloadId).filter (·.runId = r.runId)) <|
    missing r.runId
  let lost := runtime "Automation proposal lost its expected-state race"
  require (row.state = .proposing ∧ row.stateVersion = r.expectedStateVersion ∧
    extraction.status = .accepted) lost
  let version :=
    max (s.latestProposalVersion r.runId) (s.calendarProposalGeneration r.runId none) + 1
  let proposal := r.proposal attendees row version expiresAt
  insertProposal proposal
  updateRun (fun x => x.runId = r.runId && x.state = .proposing &&
      x.stateVersion = r.expectedStateVersion)
    (fun x => { x with
      state                := r.nextState
      stateVersion         := r.expectedStateVersion + 1
      failureCode          := r.failureCode
      currentPayloadId     := some r.payloadId
      currentPayloadSha256 := some proposal.proposalSha256
      reviewNotifiedAt     := none
    })
    lost
  appendAutomationEvent <| row.event {
    eventId       := r.eventId
    previousState := some .proposing
    nextState     := r.nextState
    nextVersion   := r.expectedStateVersion + 1
    failureCode   := r.failureCode
    createdAt     := r.observedAt
    payloadId     := r.payloadId
    payloadSha256 := proposal.proposalSha256
  }
  readRun r.runId "Automation proposal was not readable"

end Proposals

section Decisions

-- A confirmed admission that has been cancelled before its handoff, by the events that prove it.
def Store.cancellation (s : Store) (runId : String) (confirmedVersion : Nat)
    (proposalSha256 : Option String) : Option Event :=
  s.events.rows.findSome? fun a =>
    if a.runId = runId && a.stateVersion = confirmedVersion && a.decision = some .confirmed &&
        a.previousState = some .awaitingConfirmation && a.nextState = .writeAuthorized &&
        a.transitionKind = .writeAuthorized &&
        proposalSha256.all (a.payloadSha256 = some ·) then
      s.events.rows.find? fun c =>
        c.runId = a.runId && c.stateVersion = a.stateVersion + 1 && c.transactionId.isSome &&
        c.transactionId = a.transactionId && c.previousState = some .writeAuthorized &&
        c.nextState = .sourceUnavailable && c.transitionKind = .sourceUnavailable &&
        c.failureCode ∈ [some "source_unavailable", some "thread_unfollowed"]
    else
      none

-- The historical projection of a cancelled admission.
def Run.cancelledBy (r : Run) (e : Event) : Run := { r with
  state                   := .sourceUnavailable
  stateVersion            := e.stateVersion
  failureCode             := some "source_unavailable"
  automationId            := e.automationId
  automationVersion       := e.automationVersion
  extractionSchemaVersion := e.extractionSchemaVersion
  calendarPrincipalKey    := e.calendarPrincipalKey
  sourceContentSha256     := none
  extractionContextAt     := none
  extractionTimezone      := none
  extractionBodyCharLimit := none
  currentPayloadId        := e.payloadId
  currentPayloadSha256    := e.payloadSha256
  reviewNotifiedAt        := if e.failureCode = some "thread_unfollowed" then some e.createdAt else none
}

-- What a decision or a handoff returns: the run, or the admission that has been cancelled with the
-- event that shows it.
inductive Outcome
  | run (r : Run)
  | cancelled (r : Run) (e : Event)

-- `_cancelled_calendar_admission`
def cancelledCalendarAdmission (row : Run) (confirmedVersion : Nat)
    (proposalSha256 : Option String) (proposalVersion : Option Nat) :
    Statement (Option Outcome) := do
  let s ← query id
  match s.cancellation row.runId confirmedVersion proposalSha256 with
  | none       => return none
  | some event =>
    if proposalVersion.all (· = s.calendarProposalGeneration row.runId (some confirmedVersion)) then
      let inconsistent := runtime "Cancelled automation admission ledger is inconsistent"
      let current ← find (s.writes.get row.runId) inconsistent
      require (some current.transactionId = event.transactionId →
        current.status = .cancelled ∧ current.failureCode = event.failureCode) inconsistent
      return some (.cancelled (row.cancelledBy event) event)
    else
      return none

inductive Decision
  | confirm
  | decline
  deriving DecidableEq, Repr

structure ProposalDecision where
  runId                : String
  expectedStateVersion : Nat
  proposalVersion      : Nat
  proposalSha256       : String
  decision             : Decision
  writeAuthorized      : Bool
  transactionId        : String
  eventId              : String
  now                  : Instant

-- Where a decision leads to.
structure Verdict where
  nextState         : RunState
  failureCode       : Option String
  transactionId     : Option String
  eventDecision     : Option EventDecision
  nextPayloadId     : String
  nextPayloadSha256 : String

namespace ProposalDecision

variable [Codec]

def check (r : ProposalDecision) : Statement Unit :=
  require (1 ≤ r.expectedStateVersion ∧ 1 ≤ r.proposalVersion ∧
      r.proposalSha256.toList.length = 64) <|
    value "automation proposal identity is invalid"

def declined (r : ProposalDecision) (p : Proposal) : Verdict where
  nextState         := .declined
  failureCode       := none
  transactionId     := none
  eventDecision     := some .declined
  nextPayloadId     := p.payloadId
  nextPayloadSha256 := r.proposalSha256

-- The proposal is not valid any more: a new one is to be made of the accepted extraction.
def expired (r : ProposalDecision) : Statement Verdict := do
  let s ← query id
  let unavailable := runtime "Accepted automation extraction is unavailable"
  let extraction ← find
    (s.extractions.rows.find? fun x => x.runId = r.runId && x.status = .accepted) unavailable
  let resultSha256 ← find extraction.resultSha256 unavailable
  return {
    nextState         := .proposing
    failureCode       := some "proposal_expired"
    transactionId     := none
    eventDecision     := none
    nextPayloadId     := extraction.payloadId
    nextPayloadSha256 := resultSha256
  }

-- A write that has been cancelled makes room for the new one.
def deleteCancelledWrite (r : ProposalDecision) (existing : Option CalendarWrite) :
    Statement Unit :=
  match existing with
  | none   => return
  | some _ => do
    let rows ← query (·.writes.rows.filter fun w => w.runId = r.runId && w.status = .cancelled)
    write fun s => { s with
      writes := s.writes.delete fun w => w.runId = r.runId && w.status = .cancelled
    }
    require (rows.length = 1) <| runtime "Cancelled automation admission changed"

def authorize (r : ProposalDecision) (row : Run) (p : Proposal) (start stop timezone : String)
    (existing : Option CalendarWrite) : Statement Verdict := do
  require r.writeAuthorized <| .permission "Calendar write authorization is required"
  r.deleteCancelledWrite existing
  insertWrite {
    runId                := r.runId
    transactionId        := r.transactionId
    proposalVersion      := r.proposalVersion
    proposalSha256       := r.proposalSha256
    calendarPrincipalKey := row.calendarPrincipalKey
    start                := start
    stop                 := stop
    timezone             := timezone
    status               := .authorized
    graphEventId         := none
    failureCode          := none
    confirmedAt          := r.now
    submittedAt          := none
    completedAt          := none
  }
  return {
    nextState         := .writeAuthorized
    failureCode       := none
    transactionId     := some r.transactionId
    eventDecision     := some .confirmed
    nextPayloadId     := p.payloadId
    nextPayloadSha256 := r.proposalSha256
  }

def confirmed (r : ProposalDecision) (row : Run) (p : Proposal) (existing : Option CalendarWrite) :
    Statement Verdict := do
  let incomplete := runtime "Stored automation proposal is incomplete"
  let start ← find (p.start.filter (· ≠ "")) incomplete
  let stop ← find (p.stop.filter (· ≠ "")) incomplete
  let timezone ← find (p.timezone.filter (· ≠ "")) incomplete
  let expiresAt ← find p.expiresAt incomplete
  let startTime ← find (Codec.fromIsoFormat start) <|
    runtime "Stored automation proposal time is invalid"
  if row.expiresAt ≤ r.now ∨ expiresAt ≤ r.now ∨ startTime.utc ≤ r.now then
    r.expired
  else
    r.authorize row p start stop timezone existing

def verdict (r : ProposalDecision) (row : Run) (p : Proposal) (existing : Option CalendarWrite) :
    Statement Verdict :=
  match r.decision with
  | .decline => return r.declined p
  | .confirm => r.confirmed row p existing

-- The decision has been made before.
def repeated (r : ProposalDecision) (row : Run) (existing : Option CalendarWrite) :
    Statement Bool :=
  match r.decision, existing with
  | .decline, _      => return row.state = .declined
  | .confirm, none   => return false
  | .confirm, some w => do
    if w.proposalVersion = r.proposalVersion ∧ w.proposalSha256 = r.proposalSha256 then
      require (w.status ≠ .cancelled) <|
        runtime "Cancelled automation confirmation identity does not match"
      return true
    else
      require (w.status = .cancelled) <|
        runtime "Automation confirmation conflicts with its durable write"
      return false

def replay (r : ProposalDecision) (row : Run) : Statement (Option Outcome) :=
  match r.decision with
  | .decline => return none
  | .confirm => cancelledCalendarAdmission row (r.expectedStateVersion + 1) (some r.proposalSha256)
    (some r.proposalVersion)

-- The transition that the decision makes, after all checks.
def decide (r : ProposalDecision) (row : Run) (p : Proposal) (existing : Option CalendarWrite) :
    Statement Outcome := do
  let lost := runtime "Automation proposal decision lost its expected-state race"
  require (row.state = .awaitingConfirmation ∧ row.stateVersion = r.expectedStateVersion ∧
    row.currentPayloadId = some p.payloadId ∧ row.currentPayloadSha256 = some r.proposalSha256 ∧
    p.status = .accepted) lost
  let v ← r.verdict row p existing
  updateRun (fun x => x.runId = r.runId && x.state = .awaitingConfirmation &&
      x.stateVersion = row.stateVersion && x.currentPayloadId = some p.payloadId &&
      x.currentPayloadSha256 = some r.proposalSha256)
    (fun x => { x with
      state                := v.nextState
      stateVersion         := row.stateVersion + 1
      failureCode          := v.failureCode
      currentPayloadId     := some v.nextPayloadId
      currentPayloadSha256 := some v.nextPayloadSha256
      reviewNotifiedAt     := none
    })
    lost
  appendAutomationEvent <| row.event {
    eventId       := r.eventId
    previousState := some .awaitingConfirmation
    nextState     := v.nextState
    nextVersion   := row.stateVersion + 1
    failureCode   := v.failureCode
    createdAt     := r.now
    payloadId     := p.payloadId
    payloadSha256 := r.proposalSha256
    decision      := v.eventDecision
    transactionId := v.transactionId
  }
  let row ← readRun r.runId "Automation proposal decision was not readable"
  return .run row

end ProposalDecision

def decideAutomationProposal [Codec] (r : ProposalDecision) : Statement Outcome := do
  r.check
  let s ← query id
  let row ← find (s.runs.get r.runId) <| missing r.runId
  match ← r.replay row with
  | some outcome => return outcome
  | none         =>
    let p ← find (s.proposals.rows.find? fun p => p.runId = r.runId &&
      p.proposalVersion = r.proposalVersion && p.proposalSha256 = r.proposalSha256) <|
        missing r.runId
    let existing := s.writes.get r.runId
    if ← r.repeated row existing then
      return .run row
    else
      r.decide row p existing

end Decisions

section Writes

structure Handoff where
  runId                : String
  expectedStateVersion : Nat
  eventId              : String
  now                  : Instant

-- The handoff itself, after all checks.
def handOff (r : Handoff) (row : Run) (w : CalendarWrite) : Statement Outcome := do
  let lost := runtime "Automation write lost its expected-state race"
  updateWrite (fun x => x.runId = r.runId && x.status = .authorized)
    (fun x => { x with status := .writing, submittedAt := some r.now, failureCode := none })
    lost
  updateRun (fun x => x.runId = r.runId && x.state = .writeAuthorized &&
      x.stateVersion = r.expectedStateVersion)
    (fun x => { x with
      state            := .writing
      stateVersion     := r.expectedStateVersion + 1
      failureCode      := none
      reviewNotifiedAt := none
    })
    lost
  appendAutomationEvent <| row.event {
    eventId       := r.eventId
    previousState := some .writeAuthorized
    nextState     := .writing
    nextVersion   := r.expectedStateVersion + 1
    failureCode   := none
    createdAt     := r.now
    payloadId     := row.currentPayloadId
    payloadSha256 := row.currentPayloadSha256
    transactionId := w.transactionId
  }
  let row ← readRun r.runId "Automation write transition was not readable"
  return .run row

-- The source or the proposal of a write is gone.
def cancelHandoff (r : Handoff) (row : Run) (w : CalendarWrite) : Statement Outcome := do
  let _ ← cancelAutomationSource row (some w.transactionId) .sourceUnavailable r.eventId r.now
  let cancelled ← cancelledCalendarAdmission row r.expectedStateVersion none none
  find cancelled <| runtime "Automation cancellation was not readable"

def Store.proposalExists (s : Store) (row : Run) (w : CalendarWrite) : Bool :=
  s.proposals.rows.any fun p => p.runId = row.runId && row.currentPayloadId = some p.payloadId &&
    p.proposalVersion = w.proposalVersion && p.proposalSha256 = w.proposalSha256

def beginAutomationCalendarWrite (r : Handoff) (sourceExists : Bool) : Statement Outcome := do
  require (1 ≤ r.expectedStateVersion) <| value "Automation write version is invalid"
  let s ← query id
  let row ← find (s.runs.get r.runId) <| missing r.runId
  match ← cancelledCalendarAdmission row r.expectedStateVersion none none with
  | some outcome => return outcome
  | none         =>
    let w ← find (s.writes.get r.runId) <| missing r.runId
    require (row.state = .writeAuthorized ∧ row.stateVersion = r.expectedStateVersion) <|
      .writeStateChanged "Automation write lost its expected-state race"
    require (w.status = .authorized) <|
      runtime "Automation write admission ledger is inconsistent"
    if sourceExists ∧ s.proposalExists row w then
      handOff r row w
    else
      cancelHandoff r row w

structure WriteTransition where
  runId                : String
  expectedStateVersion : Nat
  nextState            : RunState
  failureCode          : Option String
  graphEventId         : Option String
  eventId              : String
  now                  : Instant

def calendarWriteTransitions : List (RunState × RunState) := [
  (.writing,     .completed),
  (.writing,     .failed),
  (.writing,     .unresolved),
  (.unresolved,  .reconciling),
  (.reconciling, .completed),
  (.reconciling, .unresolved)
]

namespace WriteTransition

-- The status of a write in a state that a transition may lead to.
def writeStatus : RunState → WriteStatus
  | .completed  => .completed
  | .failed     => .failed
  | .unresolved => .unresolved
  | _           => .reconciling

-- The failure that a transition stores.
def storedFailure (r : WriteTransition) : Statement (Option String) := do
  if r.nextState = .completed then
    require (r.graphEventId.any fun id => id ≠ "" && id.utf8ByteSize ≤ 512) <|
      value "Graph event identity is invalid"
    return none
  else
    require (r.graphEventId = none) <|
      value "Only completed writes may record a Graph event identity"
    if r.nextState ∈ [.failed, .unresolved] then
      require (r.failureCode.any fun c => 1 ≤ c.toList.length && c.toList.length ≤ 64) <|
        value "Automation write failure code is invalid"
      return r.failureCode
    else
      return none

end WriteTransition

def transitionAutomationCalendarWrite (r : WriteTransition) : Statement Run := do
  let s ← query id
  let row ← find (s.runs.get r.runId) <| missing r.runId
  let w ← find (s.writes.get r.runId) <| missing r.runId
  let lost := runtime "Automation write transition lost its expected-state race"
  require ((row.state, r.nextState) ∈ calendarWriteTransitions ∧
    row.stateVersion = r.expectedStateVersion) lost
  let failureCode ← r.storedFailure
  updateWrite (fun x => x.runId = r.runId && x.status = w.status)
    (fun x => { x with
      status       := WriteTransition.writeStatus r.nextState
      graphEventId := r.graphEventId
      failureCode  := failureCode
      completedAt  := if r.nextState = .completed then some r.now else none
    })
    lost
  updateRun (fun x => x.runId = r.runId && x.state = row.state &&
      x.stateVersion = r.expectedStateVersion)
    (fun x => { x with
      state            := r.nextState
      stateVersion     := r.expectedStateVersion + 1
      failureCode      := failureCode
      reviewNotifiedAt := none
    })
    lost
  appendAutomationEvent <| row.event {
    eventId       := r.eventId
    previousState := row.state
    nextState     := r.nextState
    nextVersion   := r.expectedStateVersion + 1
    failureCode   := failureCode
    createdAt     := r.now
    payloadId     := row.currentPayloadId
    payloadSha256 := row.currentPayloadSha256
    transactionId := w.transactionId
    graphEventId  := r.graphEventId
  }
  readRun r.runId "Automation write outcome was not readable"

end Writes

section Reviews

structure ReviewTransition where
  runId                : String
  expectedStateVersion : Nat
  nextState            : RunState
  failureCode          : String
  eventId              : String
  now                  : Instant

def deleteLostExtractions (r : ReviewTransition) : Statement Unit :=
  if r.nextState = .sourceUnavailable then
    write fun s => { s with extractions := s.extractions.delete (·.runId = r.runId) }
  else
    return

def transitionAutomationToReview (r : ReviewTransition) : Statement Run := do
  require (r.nextState ∈ [.manualReview, .sourceUnavailable]) <|
    value "automation review transition is not supported"
  let s ← query id
  let row ← find (s.runs.get r.runId) <| missing r.runId
  let lost := runtime "Automation review transition lost its expected-state race"
  require (row.state ∈ [.detected, .extracting, .proposing] ∧
    row.stateVersion = r.expectedStateVersion) lost
  deleteLostExtractions r
  updateRun (fun x => x.runId = r.runId && x.state = row.state &&
      x.stateVersion = r.expectedStateVersion)
    (fun x => { x with
      state            := r.nextState
      stateVersion     := r.expectedStateVersion + 1
      failureCode      := some r.failureCode
      reviewNotifiedAt := none
    })
    lost
  appendAutomationEvent <| row.event {
    eventId       := r.eventId
    previousState := row.state
    nextState     := r.nextState
    nextVersion   := r.expectedStateVersion + 1
    failureCode   := r.failureCode
    createdAt     := r.now
    payloadId     := row.currentPayloadId
    payloadSha256 := row.currentPayloadSha256
  }
  readRun r.runId "Automation review transition was not readable"

end Reviews

-- The transactions on calendar runs. What they read outside of these tables, they get as an argument:
-- whether the mail of a run may be used, whether its thread is followed, which runs a message is bound
-- to.
inductive Action
  | admitSchedulingAutomation (r : Admission)
  | reserveAutomationExtraction (r : Reservation) (available followed : Bool)
  | recordAutomationExtractionFailure (r : ExtractionFailure) (available : Bool)
  | recordAutomationExtraction (r : ExtractionResult) (available : Bool)
  | recordAutomationProposal (r : ProposalRequest) (available : Bool)
  | decideAutomationProposal (r : ProposalDecision)
  | beginAutomationCalendarWrite (r : Handoff) (sourceExists : Bool)
  | transitionAutomationCalendarWrite (r : WriteTransition)
  | transitionAutomationToReview (r : ReviewTransition)
  | markAutomationSourcesUnavailable (chunks : List (List String)) (cause : Cause)
      (eventId : String → String) (updatedAt : Instant)
  | cancelUnfollowed (runIds : List String) (eventId : String → String) (updatedAt : Instant)
  | purgeExpiredAutomationTombstones (now : Instant)

variable [Codec]

-- The statements of an action, whatever it returns.
def Action.statements : Action → Statement Unit
  | admitSchedulingAutomation r                     =>
    Calendar.admitSchedulingAutomation r
  | reserveAutomationExtraction r available followed =>
    discard <| Calendar.reserveAutomationExtraction r available followed
  | recordAutomationExtractionFailure r available   =>
    discard <| Calendar.recordAutomationExtractionFailure r available
  | recordAutomationExtraction r available          =>
    discard <| Calendar.recordAutomationExtraction r available
  | recordAutomationProposal r available            =>
    discard <| Calendar.recordAutomationProposal r available
  | decideAutomationProposal r                      =>
    discard <| Calendar.decideAutomationProposal r
  | beginAutomationCalendarWrite r sourceExists     =>
    discard <| Calendar.beginAutomationCalendarWrite r sourceExists
  | transitionAutomationCalendarWrite r             =>
    discard <| Calendar.transitionAutomationCalendarWrite r
  | transitionAutomationToReview r                  =>
    discard <| Calendar.transitionAutomationToReview r
  | markAutomationSourcesUnavailable chunks cause eventId updatedAt =>
    Calendar.markAutomationSourcesUnavailable chunks cause eventId updatedAt
  | cancelUnfollowed runIds eventId updatedAt       =>
    Calendar.cancelUnfollowed runIds eventId updatedAt
  | purgeExpiredAutomationTombstones now            =>
    Calendar.purgeExpiredAutomationTombstones now

-- `with self.connection() as db`: the statements run on a connection, and an exception rolls back all
-- that they have written.
def transact (s : Store) (a : Action) : Except RunError Unit × Store :=
  a.statements.commit s

-- Any number of parties, in the order in which their transactions end.
def run (s : Store) (as : List Action) : Store :=
  as.foldl (fun s a => (transact s a).snd) s

end Calendar
