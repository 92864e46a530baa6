import Mathlib.Data.List.MinMax
import Mathlib.Data.List.Sort
import EmailWatcher.Connect.Schema

namespace Connect

open Transaction

def connectQueueMaxJobs : Nat := 25

def connectQueueAdmissionWindow : Int := 2 * 60 * 60 * Instant.second

def maxConnectDispatchErrorCodeBytes : Nat := 128

def maxConnectDispatchErrorMessageBytes : Nat := 1024

def queueDeadlineExceeded : String := "connect_queue_deadline_exceeded"

namespace Fire

-- The fires that the store settles together with the job `jobId`.
def linkedTo (jobId : String) (f : Fire) : Bool :=
  f.jobId = some jobId && f.state.linked

-- The shape of the statements that move fires: the version counts them.
def advance (state : FireState) (reason : String) (f : Fire) : Fire := { f with
  state        := state
  stateVersion := f.stateVersion + 1
  reason       := some reason
  pendingSince := none
}

-- `connect_jobs_delete_linked_automation_fires`: what becomes of a linked fire when the job row
-- `old` is deleted.
def unlink (old : Job) (f : Fire) : Fire :=
  match old.status with
  | .completed => f.advance .completed "connect_completed"
  | .failed    => f.advance .failed <| takeChars 128 <| old.errorCode.getD "connect_failed"
  | _          => { f.advance .sourceUnavailable "job_removed" with jobId := none }

theorem fireId_unlink (old : Job) (f : Fire) : (f.unlink old).fireId = f.fireId := by
  unfold unlink
  split <;> rfl

end Fire

namespace State

-- Delete one job row, with the triggers on its table. A linked fire with an empty reason violates a
-- constraint of the fires table.
def deleteJob (s : State) (old : Job) : Except StoreError State := do
  require (∀ f ∈ s.fires.rows, f.linkedTo old.jobId → (f.unlink old).reason ≠ some "") <|
    .integrity "CHECK constraint failed: automation_fires"
  return { s with
    jobs       := s.jobs.delete (·.jobId = old.jobId)
    dispatches := s.dispatches.delete (·.jobId = old.jobId)
    fires      := s.fires.update (·.linkedTo old.jobId) (·.unlink old) (Fire.fireId_unlink old)
  }

-- `DELETE FROM connect_attachment_jobs WHERE p`.
def deleteJobs (s : State) (p : Job → Bool) : Except StoreError State :=
  (s.jobs.rows.filter p).foldlM deleteJob s

def updateJob (s : State) (jobId : String) (f : Job → Job)
    (hf : ∀ j, (f j).jobId = j.jobId := by as_aux_lemma => intros; rfl) : State :=
  { s with jobs := s.jobs.update (·.jobId = jobId) f hf }

def updateDispatch (s : State) (jobId : String) (f : Dispatch → Dispatch)
    (hf : ∀ d, (f d).jobId = d.jobId := by as_aux_lemma => intros; rfl) : State :=
  { s with dispatches := s.dispatches.update (·.jobId = jobId) f hf }

def settleFires (s : State) (p : Fire → Bool) (state : FireState) (reason : String) : State :=
  { s with fires := s.fires.update p (·.advance state reason) }

-- A job together with its dispatch row.
def entry (s : State) (jobId : String) : Option (Job × Dispatch) :=
  match s.jobs.get jobId, s.dispatches.get jobId with
  | some j, some d => some (j, d)
  | _,      _      => none

-- `_resume_automation_dispatch`: the time spent paused is added to the admission deadline.
def resumeAutomationDispatch (s : State) (jobId : String) (now : Instant) :
    Except StoreError State := do
  let d ← find (s.dispatches.get jobId) <|
    .runtime "Automation entitlement resume lost its Connect job"
  match d.automationPausedAt with
  | none          => return s
  | some pausedAt => return s.updateDispatch jobId fun d => { d with
      admissionDeadline  := d.admissionDeadline + now.elapsedSeconds pausedAt * Instant.second
      automationPausedAt := none
    }

-- `_pause_linked_automation_fires`
def pauseLinkedAutomationFires (s : State) (jobId : String) : State := { s with
  fires := s.fires.update (fun f => f.jobId = some jobId && f.state = .submitted) fun f =>
    f.advance .entitlementPaused "entitlement_inactive"
}

-- `_connect_job_requires_automation_entitlement`
def connectJobRequiresAutomationEntitlement (s : State) (jobId : String) : Bool :=
  s.attempts.rows.any (·.dispatchRequestId = jobId) &&
  (s.dispatches.get jobId).any (·.interactiveAuthorizedAt = none)

section Expiry

-- A job that the provider has not been asked about may still expire.
def expires (s : State) (now : Instant) (d : Dispatch) : Bool :=
  (s.jobs.get d.jobId).any (fun j => j.protocolVersion = .v2 && j.status = .requested) &&
  d.state = .waiting && !d.submissionPossible && d.automationPausedAt = none &&
  d.admissionDeadline ≤ now

def expiredJob (j : Job) : Job := { j with
  status         := .failed
  errorCode      := some queueDeadlineExceeded
  errorMessage   := some "The provider queue admission deadline expired."
  errorRetryable := some false
}

def expiredDispatch (d : Dispatch) : Dispatch :=
  { d with state := .terminal, nextAttemptAt := none }

def expireJob (s : State) (jobId : String) : State := { s with
  jobs := s.jobs.update (fun j => j.jobId = jobId && j.status = .requested) expiredJob
  dispatches := s.dispatches.update
    (fun d => d.jobId = jobId && (d.state = .waiting && !d.submissionPossible)) expiredDispatch
}

def expiringJobs (s : State) (now : Instant) : List String :=
  s.dispatches.rows.filter (s.expires now)
    |>.insertionSort (fun d₁ d₂ => toLex (d₁.admissionDeadline, d₁.jobId) ≤
        toLex (d₂.admissionDeadline, d₂.jobId))
    |>.map (·.jobId)

-- `_expire_waiting_connect_jobs_transaction`
def expireWaitingConnectJobs (s : State) (now : Instant) : State :=
  (s.expiringJobs now).foldl expireJob s

end Expiry

section Claim

-- A paused job leaves the queue as long as nobody has been told about it.
def queued (j : Job) (d : Dispatch) : Bool :=
  j.protocolVersion = .v2 && j.status.active && d.state ≠ .terminal &&
  (d.automationPausedAt = none || d.state ≠ .waiting)

-- The jobs of a lane that are in its queue.
def laneQueue (s : State) (lane : Lane) : List (Job × Dispatch) :=
  s.jobs.rows.filterMap fun j =>
    (s.dispatches.get j.jobId).bind fun d =>
      if j.lane = lane && queued j d then some (j, d) else none

def laneRank : DispatchState → Nat
  | .dispatching                  => 0
  | .reconciling | .providerOwned => 1
  | _                             => 2

-- `ORDER BY ... LIMIT 1`
def laneHead (s : State) (lane : Lane) : Option (Job × Dispatch) :=
  (s.laneQueue lane).argmin fun (j, d) => toLex (laneRank d.state, toLex (j.createdAt, j.jobId))

def claimDispatch (d : Dispatch) : Dispatch := { d with
  state := match d.state with
    | .dispatching => .reconciling
    | .waiting     => .dispatching
    | state        => state
  attemptCount       := d.attemptCount + if d.state = .waiting then 1 else 0
  submissionPossible := d.state = .waiting || d.state = .dispatching || d.submissionPossible
  nextAttemptAt      := none
}

-- The head of a lane, if it is the expected job, is due, and may still be submitted. `content`
-- answers whether the content of a message may be used.
def claimable (s : State) (lane : Lane) (expectedJobId : Option String) (content : String → Bool)
    (now : Instant) : Option (Job × Dispatch) :=
  (s.laneHead lane).filter fun (j, d) =>
    expectedJobId.all (· = j.jobId) &&
    (d.state = .dispatching || d.nextAttemptAt.all (· ≤ now)) &&
    (content j.messageId || d.state ≠ .waiting || d.submissionPossible)

def claimConnectLaneHead (s : State) (lane : Lane) (expectedJobId : Option String)
    (content : String → Bool) (now : Instant) : State × Option (Job × Dispatch) :=
  let s := s.expireWaitingConnectJobs now
  match s.claimable lane expectedJobId content now with
  | none        => (s, none)
  | some (j, d) =>
    let d' := claimDispatch d
    let claimed := { d' with sourceAvailable := d'.sourceAvailable && content j.messageId }
    (s.updateDispatch j.jobId claimDispatch, some (j, claimed))

end Claim

section Defer

structure Deferral where
  jobId                      : String
  expectedDispatchState      : DispatchState
  nextDispatchState          : DispatchState
  errorCode                  : String
  errorMessage               : String
  delaySeconds               : Int
  pauseAutomationDeadline    : Bool
  pauseLinkedAutomationFires : Bool
  now                        : Instant

namespace Deferral

def code (r : Deferral) : String :=
  takeBytes maxConnectDispatchErrorCodeBytes r.errorCode

def message (r : Deferral) : String :=
  takeBytes maxConnectDispatchErrorMessageBytes r.errorMessage

-- A job that goes back to waiting is tried again at its deadline at the latest.
def nextAttemptAt (r : Deferral) (d : Dispatch) : Instant :=
  let next := r.now + r.delaySeconds * Instant.second
  if r.nextDispatchState = .waiting then min d.admissionDeadline next else next

def apply (r : Deferral) (d : Dispatch) : Dispatch := { d with
  state := r.nextDispatchState
  reconciliationFailureCount := d.reconciliationFailureCount +
    if r.nextDispatchState = .reconciling ∨ r.nextDispatchState = .providerOwned then 1 else 0
  nextAttemptAt      := some <| r.nextAttemptAt d
  submissionPossible := r.nextDispatchState ≠ .waiting
  automationPausedAt :=
    if r.pauseAutomationDeadline then d.automationPausedAt.or (some r.now) else d.automationPausedAt
  lastErrorCode    := some r.code
  lastErrorMessage := some r.message
}

end Deferral

-- The part of `defer_connect_job` before it expires other jobs.
def deferDispatch (s : State) (r : Deferral) : Except StoreError State := do
  require (r.expectedDispatchState ∈
      [DispatchState.dispatching, .reconciling, .providerOwned]) <|
    .value "Connect retry expected state is invalid"
  require (r.nextDispatchState ∈ [DispatchState.waiting, .reconciling, .providerOwned]) <|
    .value "Connect retry next state is invalid"
  require (0 ≤ r.delaySeconds ∧ r.delaySeconds ≤ 30) <|
    .value "Connect retry delay must be between 0 and 30 seconds"
  require (r.pauseLinkedAutomationFires → r.pauseAutomationDeadline) <|
    .value "Linked automation fires require a paused dispatch deadline"
  require (r.code ≠ "" ∧ r.message ≠ "") <|
    .value "Connect retry diagnostics cannot be empty"
  let (j, d) ← find (s.entry r.jobId) <|
    .runtime "Connect retry lost its expected dispatch-state race"
  require (d.state = r.expectedDispatchState) <|
    .runtime "Connect retry lost its expected dispatch-state race"
  require j.status.active <|
    .runtime "Only active Connect jobs can be deferred"
  require (r.nextDispatchState = .waiting →
      j.status = .requested ∧ d.highestProviderState = .requested) <|
    .runtime "Provider-owned Connect work cannot return to waiting"
  require (r.nextDispatchState = .providerOwned → j.status ≠ .requested) <|
    .runtime "Requested Connect work cannot become provider-owned"
  let s := s.updateDispatch r.jobId r.apply
  return if r.pauseLinkedAutomationFires then s.pauseLinkedAutomationFires r.jobId else s

def deferConnectJob (s : State) (r : Deferral) : Except StoreError (State × Dispatch) := do
  let s ← s.deferDispatch r
  let s := if r.nextDispatchState = .waiting then s.expireWaitingConnectJobs r.now else s
  let d ← find (s.dispatches.get r.jobId) <|
    .runtime "Deferred Connect job is missing dispatch state"
  return (s, d)

end Defer

section Create

structure JobRequest where
  jobId                          : String
  messageId                      : String
  partId                         : String
  protocolVersion                : Protocol
  capabilityId                   : String
  capabilityVersion              : String
  providerAppId                  : String
  providerInstanceId             : String
  -- What `_validate_v2_request_record` says about the durable request.
  invocationFingerprint          : Except StoreError String
  inputByteSize                  : Nat
  inputSha256                    : String
  inputDisplayName               : Option String
  capabilityExternalEffects      : Bool
  capabilityConfirmationRequired : Bool
  now                            : Instant

namespace JobRequest

def fingerprint (r : JobRequest) : Except StoreError String :=
  match r.protocolVersion with
  | .v1 => do
    require (!r.capabilityExternalEffects ∧ !r.capabilityConfirmationRequired) <|
      .value "Connect v1 jobs cannot store a v2 request"
    return "v1"
  | .v2 => r.invocationFingerprint

def job (r : JobRequest) (fingerprint : String) : Job where
  jobId                 := r.jobId
  messageId             := r.messageId
  partId                := r.partId
  protocolVersion       := r.protocolVersion
  capabilityId          := r.capabilityId
  capabilityVersion     := r.capabilityVersion
  providerAppId         := r.providerAppId
  providerInstanceId    := r.providerInstanceId
  invocationFingerprint := fingerprint
  inputByteSize         := r.inputByteSize
  inputSha256           := r.inputSha256
  inputDisplayName      := r.inputDisplayName
  status                := .requested
  summary               := none
  resultJson            := none
  resultMetadataJson    := none
  errorCode             := none
  errorMessage          := none
  errorRetryable        := none
  createdAt             := r.now

def dispatch (r : JobRequest) : Dispatch where
  jobId                          := r.jobId
  state                          := .waiting
  attemptCount                   := 0
  reconciliationFailureCount     := 0
  nextAttemptAt                  := none
  admissionDeadline              := r.now + connectQueueAdmissionWindow
  submissionPossible             := false
  sourceAvailable                := true
  capabilityExternalEffects      := r.capabilityExternalEffects
  capabilityConfirmationRequired := r.capabilityConfirmationRequired
  capabilityAuthorityKnown       := true
  interactiveAuthorizedAt        := none
  automationPausedAt             := none
  highestProviderState           := .requested
  lastErrorCode                  := none
  lastErrorMessage               := none

end JobRequest

-- The active job that an invocation joins.
def joinedJob (s : State) (r : JobRequest) (fingerprint : String) : Option Job :=
  s.jobs.rows.filter (fun j => j.messageId = r.messageId && j.partId = r.partId &&
      j.protocolVersion = .v2 && j.invocationFingerprint = fingerprint && j.status.active)
    |>.argmin fun j => toLex (j.createdAt, j.jobId)

-- `idx_connect_attachment_jobs_active`
def violatesActiveIndex (s : State) (j : Job) : Bool :=
  j.protocolVersion = .v1 && s.jobs.rows.any fun j' =>
    j'.messageId = j.messageId && j'.partId = j.partId && j'.protocolVersion = .v1 &&
    j'.capabilityId = j.capabilityId && j'.capabilityVersion = j.capabilityVersion &&
    j'.status.active

def insertJob (s : State) (j : Job) : Except StoreError State := do
  require (!s.violatesActiveIndex j) <|
    .integrity "UNIQUE constraint failed: idx_connect_attachment_jobs_active"
  let jobs ← find (s.jobs.insert j) <|
    .integrity "UNIQUE constraint failed: connect_attachment_jobs.job_id"
  return { s with jobs := jobs }

def insertDispatch (s : State) (d : Dispatch) : Except StoreError State := do
  let dispatches ← find (s.dispatches.insert d) <|
    .integrity "UNIQUE constraint failed: connect_job_dispatch.job_id"
  return { s with dispatches := dispatches }

-- `content` and `attachment` answer whether the message's content may be used and whether it has
-- the attachment.
def createConnectJob (s : State) (r : JobRequest) (content attachment : Bool) :
    Except StoreError (State × Job) := do
  let fingerprint ← r.fingerprint
  require content <| .key [r.messageId, r.partId]
  require attachment <| .key [r.messageId, r.partId]
  match r.protocolVersion with
  | .v1 =>
    let s ← s.insertJob (r.job fingerprint)
    return (s, r.job fingerprint)
  | .v2 =>
    let s := s.expireWaitingConnectJobs r.now
    match s.joinedJob r fingerprint with
    | some existing =>
      require (existing.jobId ≠ r.jobId) <| .integrity "Connect job identity already exists"
      return (s, existing)
    | none =>
      require ((s.laneQueue (r.providerAppId, r.providerInstanceId)).length <
          connectQueueMaxJobs) <|
        .queueFull "Connect provider queue is full"
      let s ← s.insertJob (r.job fingerprint)
      let s ← s.insertDispatch r.dispatch
      return (s, r.job fingerprint)

end Create

section Reset

def resetJob (j : Job) : Job := { j with
  status             := .requested
  summary            := none
  resultJson         := none
  resultMetadataJson := none
  errorCode          := none
  errorMessage       := none
  errorRetryable     := none
}

def resetDispatch (d : Dispatch) : Dispatch :=
  { d with state := .waiting, submissionPossible := false, nextAttemptAt := none }

-- Take back the submission of a job that its provider has not accepted.
def resetSubmission (s : State) (jobId : String) : Protocol → Except StoreError State
  | .v1 => return s
  | .v2 => do
    let d ← find (s.dispatches.get jobId) <|
      .runtime "Connect job resubmission is missing dispatch state"
    require (d.highestProviderState = .requested) <|
      .runtime "Connect job cannot be resubmitted after authoritative provider acceptance"
    require (d.state ∈ [DispatchState.waiting, .dispatching, .reconciling]) <|
      .runtime "Connect job resubmission has incompatible dispatch state"
    return s.updateDispatch jobId resetDispatch

def resetConnectJobForResubmission (s : State) (jobId : String) (expectedState : JobStatus)
    (lane : Lane) (content : String → Bool) : Except StoreError (State × Job) := do
  require expectedState.active <|
    .value "Only active Connect jobs can be reset for resubmission"
  let j ← find (s.jobs.get jobId) <|
    .runtime "Connect job resubmission lost its expected-state race"
  require (j.status = expectedState) <|
    .runtime "Connect job resubmission lost its expected-state race"
  require (content j.messageId) <| .key [j.messageId]
  let s ← s.resetSubmission jobId j.protocolVersion
  require (j.lane = lane) <|
    .runtime "Connect job resubmission lost its expected-state race"
  return (s.updateJob jobId resetJob, resetJob j)

end Reset

end State
end Connect
