import EmailWatcher.Connect.Jobs

namespace Connect

open Transaction

def maxAutomationPreparedIdentityBytes : Nat := 32 * 1024

def automationFireMaxAttempts : Nat := 2

def providerResourceBusy : String := "PROVIDER_RESOURCE_BUSY"

namespace FireState

def text : FireState → String
  | pendingDispatch      => "pending_dispatch"
  | entitlementPaused    => "entitlement_paused"
  | awaitingConfirmation => "awaiting_confirmation"
  | submitted            => "submitted"
  | completed            => "completed"
  | failed               => "failed"
  | declined             => "declined"
  | manualReview         => "manual_review"
  | sourceUnavailable    => "source_unavailable"

end FireState

inductive RetryKind
  | admissionDeadline
  | resourceBusy
  deriving DecidableEq, Repr

def RetryKind.text : RetryKind → String
  | admissionDeadline => "admission_deadline"
  | resourceBusy      => "resource_busy"

-- `_AUTOMATION_FAILURE_RETRY_KINDS`
def failureRetryKind (code : String) : Option RetryKind :=
  if code = queueDeadlineExceeded then some .admissionDeadline
  else if code = providerResourceBusy then some .resourceBusy
  else none

-- `_automation_failure_retry_kind`
def automationFailureRetryKind (j : Job) (d : Dispatch) : Option RetryKind :=
  if j.status ≠ .failed then none
  else match j.errorCode.bind failureRetryKind with
    | some .admissionDeadline =>
      if d.highestProviderState = .requested then some .admissionDeadline else none
    | some .resourceBusy =>
      if j.errorRetryable = some true ∧ d.capabilityAuthorityKnown ∧ !d.capabilityExternalEffects
      then some .resourceBusy else none
    | none => none

-- `automation_pending_seconds`
def Fire.pendingSeconds (f : Fire) (now : Instant) : Nat :=
  match f.state, f.pendingSince with
  | .pendingDispatch, some since => f.authorizedPendingSeconds + now.elapsedSeconds since
  | _,                _          => f.authorizedPendingSeconds

namespace State

def currentAttempt (s : State) (f : Fire) : Option Attempt :=
  s.attempts.get (f.fireId, f.currentAttemptNo)

def updateFire (s : State) (fireId : String) (g : Fire → Fire)
    (hg : ∀ f, (g f).fireId = f.fireId := by as_aux_lemma => intros; rfl) : State :=
  { s with fires := s.fires.update (·.fireId = fireId) g hg }

section Creation

structure FireRequest where
  fireId            : String
  ruleId            : String
  ruleVersion       : Nat
  messageId         : String
  partId            : String
  dispatchRequestId : String
  now               : Instant

def FireRequest.fire (r : FireRequest) : Fire where
  fireId                   := r.fireId
  ruleId                   := r.ruleId
  ruleVersion              := r.ruleVersion
  messageId                := r.messageId
  partId                   := r.partId
  state                    := .pendingDispatch
  stateVersion             := 1
  reason                   := none
  currentAttemptNo         := 1
  jobId                    := none
  preparedIdentity         := none
  confirmed                := false
  pendingSince             := some r.now
  authorizedPendingSeconds := 0

def insertFire (s : State) (f : Fire) : Except StoreError State := do
  require (∀ f' ∈ s.fires.rows, ¬(f'.messageId = f.messageId ∧ f'.partId = f.partId ∧
      f'.ruleId = f.ruleId ∧ f'.ruleVersion = f.ruleVersion)) <|
    .integrity "UNIQUE constraint failed: automation_fires.message_id"
  let fires ← find (s.fires.insert f) <|
    .integrity "UNIQUE constraint failed: automation_fires.fire_id"
  return { s with fires := fires }

def insertAttempt (s : State) (a : Attempt) : Except StoreError State := do
  require (∀ a' ∈ s.attempts.rows, a'.dispatchRequestId ≠ a.dispatchRequestId) <|
    .integrity "UNIQUE constraint failed: automation_fire_attempts.dispatch_request_id"
  let attempts ← find (s.attempts.insert a) <|
    .integrity "UNIQUE constraint failed: automation_fire_attempts.attempt_no"
  return { s with attempts := attempts }

-- What `mark_analyzed` stores for a matched rule. Both identifiers are drawn by the store.
def createAutomationFire (s : State) (r : FireRequest) : Except StoreError State := do
  let s ← s.insertFire r.fire
  s.insertAttempt {
    fireId            := r.fireId
    attemptNo         := 1
    dispatchRequestId := r.dispatchRequestId
    jobId             := none
  }

end Creation

section Transition

variable [Codec]

structure FireTransition where
  fireId           : String
  expectedState    : FireState
  expectedVersion  : Nat
  nextState        : FireState
  reason           : Option String
  jobId            : Option String
  -- The canonical text of the prepared invocation.
  preparedIdentity : Option String
  confirmed        : Option Bool
  now              : Instant

namespace FireTransition

def prepared (r : FireTransition) (f : Fire) : Option PreparedIdentity :=
  match r.preparedIdentity with
  | some json => some { sha256 := Codec.sha256 json, json := json }
  | none      => f.preparedIdentity

def job (r : FireTransition) (f : Fire) : Option String :=
  r.jobId.or f.jobId

def apply (r : FireTransition) (f : Fire) : Fire := { f with
  state            := r.nextState
  stateVersion     := f.stateVersion + 1
  reason           := r.reason
  jobId            := r.job f
  preparedIdentity := r.prepared f
  confirmed        := r.confirmed.getD f.confirmed
  pendingSince     := if r.nextState = .pendingDispatch then some r.now else none
  authorizedPendingSeconds :=
    if f.state = .pendingDispatch ∧ r.nextState = .entitlementPaused then
      f.authorizedPendingSeconds
    else
      f.pendingSeconds r.now
}

-- The checks that do not read the store.
def check (r : FireTransition) : Except StoreError Unit := do
  require ((r.expectedState, r.nextState) ∈ automationFireTransitions) <|
    .value ("Invalid automation fire transition: " ++ r.expectedState.text ++ " -> " ++
      r.nextState.text)
  require (1 ≤ r.expectedVersion) <|
    .value "Automation fire version is invalid"
  require (r.reason.all fun text => text ≠ "" && text.utf8ByteSize ≤ 128) <|
    .value "Automation fire reason is invalid"
  require (r.jobId.all validUuidV4) <|
    .value "Automation fire job identity is invalid"
  require (r.preparedIdentity.all fun json =>
      2 ≤ json.utf8ByteSize && json.utf8ByteSize ≤ maxAutomationPreparedIdentityBytes) <|
    .value "Automation prepared identity is invalid"

end FireTransition

-- Pausing a fire also stops the admission clock of the job that it started.
def pauseDispatch (s : State) (jobId : String) (now : Instant) : Except StoreError State := do
  let _ ← find (s.dispatches.get jobId) <|
    .runtime "Automation entitlement pause lost its Connect job"
  return if s.connectJobRequiresAutomationEntitlement jobId then
    s.updateDispatch jobId fun d =>
      { d with automationPausedAt := d.automationPausedAt.or (some now) }
  else
    s

-- Bind the current attempt of a fire to the job that the fire is submitted with.
def bindAttempt (s : State) (f : Fire) (jobId : String) : Except StoreError State := do
  let a ← find (s.currentAttempt f) <|
    .runtime "Automation fire attempt job binding conflicted"
  require (a.jobId.all (· = jobId)) <|
    .runtime "Automation fire attempt job binding conflicted"
  return { s with
    attempts := s.attempts.update
      (fun a => a.fireId = f.fireId && a.attemptNo = f.currentAttemptNo && a.jobId = none)
      fun a => { a with jobId := some jobId }
  }

-- The writes to the linked job that come with a transition to the given state.
def moveLinkedJob (s : State) (r : FireTransition) (f : Fire) : Except StoreError State :=
  match r.nextState, r.job f with
  | .submitted, none => throw <| .value "Submitted automation fire requires a Connect job"
  | .submitted, some jobId => do
    let s ← s.resumeAutomationDispatch jobId r.now
    s.bindAttempt f jobId
  | .awaitingConfirmation, _ => do
    require (r.prepared f).isSome <|
      .value "Confirmation requires a prepared invocation identity"
    return s
  | .entitlementPaused, some jobId => s.pauseDispatch jobId r.now
  | _, _ => return s

-- A settled job without a source is dropped with the last fire that depended on it.
def dropSettledJob (s : State) (jobId : String) : Except StoreError State :=
  s.deleteJobs fun j => j.jobId = jobId && j.status.settled &&
    (s.dispatches.get jobId).any (! ·.sourceAvailable) && !s.fires.rows.any (·.linkedTo jobId)

def transitionAutomationFire (s : State) (r : FireTransition) : Except StoreError State := do
  r.check
  let f ← find (s.fires.get r.fireId) <| .key [r.fireId]
  require (f.state = r.expectedState ∧ f.stateVersion = r.expectedVersion) <|
    .runtime "Automation fire transition lost its expected-state race"
  let s ← s.moveLinkedJob r f
  let s := s.updateFire r.fireId r.apply
  match r.nextState, r.job f with
  | .completed, some jobId => s.dropSettledJob jobId
  | .failed,    some jobId => s.dropSettledJob jobId
  | _,          _          => return s

end Transition

section Decision

def decideFire (confirmed : Bool) (now : Instant) (f : Fire) : Fire := { f with
  state        := if confirmed then .pendingDispatch else .declined
  stateVersion := f.stateVersion + 1
  reason       := if confirmed then none else some "declined_by_user"
  confirmed    := confirmed
  pendingSince := if confirmed then some now else none
}

def decideAutomationFire (s : State) (fireId : String) (expectedVersion : Nat)
    (preparedIdentitySha256 : String) (confirmed : Bool) (now : Instant) :
    Except StoreError State := do
  require (preparedIdentitySha256.toList.length = 64 ∧
      preparedIdentitySha256.toList.all isLowerHex) <|
    .value "Automation confirmation identity is invalid"
  let f ← find (s.fires.get fireId) <| .key [fireId]
  require (f.state = .awaitingConfirmation ∧ f.stateVersion = expectedVersion ∧
      f.preparedIdentity.any (·.sha256 = preparedIdentitySha256)) <|
    .runtime "Automation confirmation lost its expected-state race"
  let confirmations ←
    if confirmed then
      find (s.confirmations.insert {
        fireId                 := fireId
        preparedIdentitySha256 := preparedIdentitySha256
        confirmedAt            := now
      }) <| .integrity "UNIQUE constraint failed: automation_fire_confirmations.fire_id"
    else
      pure s.confirmations
  return { s with confirmations := confirmations }.updateFire fireId (decideFire confirmed now)

end Decision

section Entitlement

def pauseInteractiveJobAutomationFires (s : State) (jobId : String) : Except StoreError State := do
  let (_, d) ← find ((s.entry jobId).filter (·.fst.status.active)) <|
    .runtime "Only active Connect jobs can pause joined automation fires"
  require (s.attempts.rows.any (·.dispatchRequestId = jobId) →
      d.interactiveAuthorizedAt.isSome) <|
    .runtime "Automation-origin jobs require durable interactive authority"
  return s.pauseLinkedAutomationFires jobId

def authorizeConnectJobInteractively (s : State) (jobId : String) (now : Instant) :
    Except StoreError (State × Job) := do
  let (j, _) ← find ((s.entry jobId).filter (·.fst.protocolVersion = .v2)) <|
    .runtime "Only persisted Connect v2 jobs can be authorized interactively"
  if j.status.settled then
    return (s, j)
  else
    let s := s.updateDispatch jobId fun d =>
      { d with interactiveAuthorizedAt := d.interactiveAuthorizedAt.or (some now) }
    let s ← s.resumeAutomationDispatch jobId now
    return (s, j)

def resumeFire (f : Fire) : Fire := { f with
  state        := .submitted
  stateVersion := f.stateVersion + 1
  reason       := none
}

def resumeAutomationFireJob (s : State) (fireId : String) (expectedVersion : Nat)
    (now : Instant) : Except StoreError State := do
  let f ← find (s.fires.get fireId) <| .key [fireId]
  require (f.state = .entitlementPaused ∧ f.stateVersion = expectedVersion) <|
    .runtime "Automation entitlement resume lost its expected-state race"
  let jobId ← find f.jobId <|
    .runtime "Automation entitlement resume lost its expected-state race"
  let s ← s.resumeAutomationDispatch jobId now
  return s.updateFire fireId resumeFire

end Entitlement

section Retry

def retryFire (kind : RetryKind) (now : Instant) (f : Fire) : Fire := { f with
  state                    := .pendingDispatch
  stateVersion             := f.stateVersion + 1
  reason                   := some ("first_" ++ kind.text)
  currentAttemptNo         := 2
  jobId                    := none
  confirmed                := false
  preparedIdentity         := none
  pendingSince             := some now
  authorizedPendingSeconds := 0
}

-- `dispatchRequestId` is drawn by the store.
def retryAutomationFireAfterFailure (s : State) (fireId : String) (expectedVersion : Nat)
    (dispatchRequestId : String) (now : Instant) : Except StoreError State := do
  let f ← find (s.fires.get fireId) <| .key [fireId]
  let (j, d) ← find (f.jobId.bind s.entry) <| .key [fireId]
  require (f.state = .submitted ∧ f.stateVersion = expectedVersion ∧ f.currentAttemptNo = 1) <|
    .runtime "Automation retry lacks authoritative recovery proof"
  let kind ← find (automationFailureRetryKind j d) <|
    .runtime "Automation retry lacks authoritative recovery proof"
  let s ← s.insertAttempt {
    fireId            := fireId
    attemptNo         := 2
    dispatchRequestId := dispatchRequestId
    jobId             := none
  }
  return { s.updateFire fireId (retryFire kind now) with
    confirmations := s.confirmations.delete (·.fireId = fireId)
  }

end Retry

section Sources

-- The fires of a message that have not been submitted yet.
def unsubmitted (messageId : String) (f : Fire) : Bool :=
  f.messageId = messageId && f.state ∈ [FireState.pendingDispatch, .entitlementPaused]

-- A job that a provider may already know of.
def providerAdmitted (s : State) (jobId : String) : Bool :=
  (s.entry jobId).any fun (j, d) => j.protocolVersion = .v2 && d.capabilityAuthorityKnown &&
    !(d.state = .waiting && !d.submissionPossible)

def bindAdmittedAttempts (s : State) (messageId : String) : State := { s with
  attempts := s.attempts.update
    (fun a => a.jobId = none && (s.fires.get a.fireId).any (unsubmitted messageId) &&
      s.providerAdmitted a.dispatchRequestId)
    fun a => { a with jobId := some a.dispatchRequestId }
}

def submitBoundFires (s : State) (messageId : String) : State := { s with
  fires := s.fires.update
    (fun f => unsubmitted messageId f && f.jobId = none &&
      (s.currentAttempt f).any (·.jobId.isSome))
    fun f => { f.advance .submitted "source_removed_after_provider_admission" with
      jobId := (s.currentAttempt f).bind (·.jobId)
    }
}

-- `_AUTOMATION_SOURCE_BINDING_SQL`
def bindAutomationSource (s : State) (messageId : String) : State :=
  s.bindAdmittedAttempts messageId |>.submitBoundFires messageId

-- The jobs that do not survive their mail source.
def invalidatedJob (s : State) (messageId : String) (j : Job) : Bool :=
  j.messageId = messageId &&
  (j.protocolVersion = .v1 ||
  (j.status.settled &&
    !(s.fires.rows.any (fun f => f.jobId = some j.jobId && f.state = .entitlementPaused) &&
      (!s.attempts.rows.any (·.dispatchRequestId = j.jobId) ||
        (s.dispatches.get j.jobId).any (·.interactiveAuthorizedAt.isSome))) &&
    !(j.capabilityId = "certificate.extract" && s.fires.rows.any (·.linkedTo j.jobId))) ||
  (s.dispatches.get j.jobId).any fun d => d.state = .waiting && !d.submissionPossible)

-- `_CONNECT_SOURCE_INVALIDATION_SQL`
def invalidateConnectSource (s : State) (messageId : String) : Except StoreError State := do
  let s ← s.deleteJobs (s.invalidatedJob messageId)
  return { s with
    dispatches := s.dispatches.update
      (fun d => (s.jobs.get d.jobId).any (·.messageId = messageId))
      fun d => { d with sourceAvailable := false }
  }

-- `_CONNECT_SOURCE_UNAVAILABLE_SQL` for every message of the list, as
-- `_mark_automation_sources_unavailable` runs it.
def markSourcesUnavailable (s : State) (messageIds : List String) : Except StoreError State :=
  messageIds.foldlM (fun s m => (s.bindAutomationSource m).invalidateConnectSource m) s

-- The fires that go with their message.
def removedWithMessage (messageId : String) (f : Fire) : Bool :=
  f.messageId = messageId &&
  (f.state ∈ [FireState.pendingDispatch, .awaitingConfirmation] ||
  (f.state = .entitlementPaused && f.jobId = none))

def removePendingFires (s : State) (messageId : String) : State :=
  let removed (fireId : String) : Bool := (s.fires.get fireId).any (removedWithMessage messageId)
  { s with
    confirmations := s.confirmations.delete (removed ·.fireId)
    attempts      := s.attempts.delete (removed ·.fireId)
    fires         := s.fires.delete (removedWithMessage messageId)
  }

-- The triggers on the deletion of a message: `messages_delete_pending_automation_fires` before it,
-- `messages_delete_connect_attachment_jobs` after it.
def deleteMessage (s : State) (messageId : String) : Except StoreError State :=
  s.bindAutomationSource messageId
    |>.removePendingFires messageId
    |>.invalidateConnectSource messageId

end Sources

end State
end Connect
