import EmailWatcher.Connect.Jobs

namespace Connect

open Transaction

def certificateResultMediaType : String := "application/vnd.local-connect.certificate+json"

def certificateCapabilityId : String := "certificate.extract"

def certificateCapabilityVersion : String := "1.0"

namespace JobStatus

def text : JobStatus → String
  | requested  => "requested"
  | accepted   => "accepted"
  | processing => "processing"
  | completed  => "completed"
  | failed     => "failed"

-- The states that a provider may report after the given one.
def allowed : JobStatus → List JobStatus
  | requested  => [.accepted, .processing, .completed, .failed]
  | accepted   => [.processing, .completed, .failed]
  | processing => [.completed, .failed]
  | _          => []

end JobStatus

def Job.isCertificate (j : Job) : Bool :=
  j.protocolVersion = .v2 && j.capabilityId = certificateCapabilityId

-- The error object that a provider reports.
structure ProviderError where
  code      : Option String
  message   : Option String
  retryable : Bool
  deriving DecidableEq, Repr

-- What the store finds out about the mail source of a certificate job once its fires agree with it:
-- the source is gone or changed, its content is being removed, or it is available.
inductive SourceReading
  | unavailable
  | withheld
  | available (source : CertificateSource)

namespace State

section Certificates

variable [Codec]

-- `_certificate_source_for_job`, the part that compares the job with its fires.
def certificateBinding (s : State) (j : Job) : Bool :=
  s.fires.rows.all fun f => f.jobId ≠ some j.jobId ||
    (f.messageId = j.messageId && f.partId = j.partId &&
    f.state ∈ [FireState.submitted, .entitlementPaused, .completed, .failed] &&
    (s.attempts.get (f.fireId, f.currentAttemptNo)).any (·.jobId = some j.jobId))

-- `_persist_certificate_projection`
def persistCertificateProjection (s : State) (j : Job) (e : CertificateEvidence)
    (reading : SourceReading) : Except CertificateFailure State := do
  require (s.certificateBinding j) .invalid
  match reading with
  | .unavailable   => throw .invalid
  | .withheld      => return s
  | .available src =>
    match s.certificates.get (src, j.messageId, j.partId, j.jobId) with
    | some c =>
      require (c.resultSha256 = e.sha256 ∧ c.canonicalResultJson = e.canonicalJson) .conflict
      return s
    | none => return { s with
        certificates := s.certificates.insertOrIgnore {
          source                := src
          sourceMessageId       := j.messageId
          sourcePartId          := j.partId
          connectJobId          := j.jobId
          resultSha256          := e.sha256
          canonicalResultJson   := e.canonicalJson
          terminalReplayFailure := none
        }
      }

-- The certificate that a result carries. Only what the codec of the result raises is an exception
-- here, an unusable certificate is a value.
def certificateEvidence (j : Job) (outputs : Except StoreError (List Output)) :
    Except StoreError (Except CertificateFailure CertificateEvidence) :=
  if j.capabilityVersion ≠ certificateCapabilityVersion then
    return .error .invalid
  else do
    match ← outputs with
    | [o] =>
      if o.mediaType ≠ certificateResultMediaType then
        return .error .invalid
      else
        return find (Codec.validateCertificateRecord o.payload j.inputSha256 j.inputByteSize
          j.inputDisplayName) .invalid
    | _ => return .error .invalid

-- `except (CertificateResultInvalid, ValueError)`
def catchValueError (x : Except StoreError (Except CertificateFailure CertificateEvidence)) :
    Except StoreError (Except CertificateFailure CertificateEvidence) :=
  match x with
  | .error (.value _) => .ok (.error .invalid)
  | x                 => x

-- Validate and store the certificate of a result, or say why there is none.
def projectCertificate (s : State) (j : Job) (reading : SourceReading)
    (evidence : Except CertificateFailure CertificateEvidence) :
    State × Option CertificateFailure :=
  match evidence >>= (s.persistCertificateProjection j · reading) with
  | .ok s'   => (s', none)
  | .error f => (s, some f)

-- The last statement of `_discard_settled_source_less_certificate_job`: it takes all fires of the
-- job, whatever has become of them, and does not count as a new version.
def overwriteFires (s : State) (jobId : String) : Option CertificateFailure → State
  | none   => s
  | some c => { s with
      fires := s.fires.update (·.jobId = some jobId) fun f =>
        { f with state := .failed, reason := some c.code, pendingSince := none }
    }

-- `_discard_settled_source_less_certificate_job`
def discardSettledSourceLessCertificateJob (s : State) (jobId : String)
    (failure : Option CertificateFailure) : Except StoreError State :=
  if (s.dispatches.get jobId).all (·.sourceAvailable) then
    return s
  else if s.fires.rows.any (·.linkedTo jobId) then
    return s
  else do
    let j ← find ((s.jobs.get jobId).filter (·.status = .completed)) <|
      .runtime "Settled source-less certificate job was not discarded"
    let s ← s.deleteJob j
    return s.overwriteFires jobId failure

def settleByOutcome (s : State) (p : Fire → Bool) : Option CertificateFailure → State
  | none   => s.settleFires p .completed "connect_completed"
  | some c => s.settleFires p .failed c.code

-- Settle the fires of a certificate job by the outcome of its result, and the job with them.
def settleCertificate (s : State) (jobId : String) (p : Fire → Bool)
    (failure : Option CertificateFailure) : Except StoreError State :=
  (s.settleByOutcome p failure).discardSettledSourceLessCertificateJob jobId failure

end Certificates

section Transition

variable [Codec]

structure Transition where
  jobId         : String
  expectedState : JobStatus
  nextState     : JobStatus
  lane          : Lane
  result        : Option String
  error         : Option ProviderError

structure JobValues where
  summary            : Option Summary := none
  resultJson         : Option String := none
  resultMetadataJson : Option String := none
  errorCode          : Option String := none
  errorMessage       : Option String := none
  errorRetryable     : Option Bool := none

namespace Transition

def values (r : Transition) (protocol : Protocol) : Except StoreError JobValues :=
  match r.nextState, r.result, r.error, protocol with
  | .completed, some result, _, .v1 => do
    let summary ← Codec.completedSummary result
    return { summary := some summary }
  | .completed, some result, _, .v2 => do
    let (json, metadata) ← Codec.encodeGenericResult result
    return { resultJson := some json, resultMetadataJson := some metadata }
  | .failed, _, some error, _ =>
    return {
      errorCode      := error.code
      errorMessage   := error.message
      errorRetryable := some error.retryable
    }
  | _, _, _, _ => return {}

def applyJob (r : Transition) (v : JobValues) (j : Job) : Job := { j with
  providerAppId      := r.lane.fst
  providerInstanceId := r.lane.snd
  status             := r.nextState
  summary            := v.summary
  resultJson         := v.resultJson
  resultMetadataJson := v.resultMetadataJson
  errorCode          := v.errorCode
  errorMessage       := v.errorMessage
  errorRetryable     := v.errorRetryable
}

def applyDispatch (r : Transition) (d : Dispatch) : Dispatch := { d with
  state              := if r.nextState.settled then .terminal else .providerOwned
  submissionPossible := r.nextState ≠ .failed || d.submissionPossible
  highestProviderState := match r.nextState, d.highestProviderState with
    | .processing, _          => .processing
    | .accepted,   .requested => .accepted
    | _,           highest    => highest
  reconciliationFailureCount := if r.nextState.settled then d.reconciliationFailureCount else 0
  lastErrorCode    := if r.nextState.settled then d.lastErrorCode else none
  lastErrorMessage := if r.nextState.settled then d.lastErrorMessage else none
  nextAttemptAt    := none
}

def fireReason (r : Transition) : String :=
  if r.nextState = .completed then
    "connect_completed"
  else
    let code := r.error.bind (·.code) |>.getD ""
    takeChars 128 <| if code = "" then "connect_failed" else code

end Transition

-- A paused fire that waits for its entitlement although its job may go on.
def deferredInteractiveFire (s : State) (jobId : String) (d : Dispatch) : Bool :=
  s.fires.rows.any (fun f => f.jobId = some jobId && f.state = .entitlementPaused) &&
  (d.interactiveAuthorizedAt.isSome || !s.attempts.rows.any (·.dispatchRequestId = jobId))

-- A settled job whose source is gone is not kept, unless a fire or a certificate depends on it.
def discardsTerminal (s : State) (r : Transition) (j : Job) (targetAvailable : Bool) : Bool :=
  r.nextState.settled && !j.isCertificate && j.protocolVersion = .v2 &&
  (s.dispatches.get r.jobId).any fun d =>
    !d.sourceAvailable && (!s.deferredInteractiveFire r.jobId d || !targetAvailable)

-- The checks of `transition_connect_job` that come before its writes.
def checkTransition (s : State) (r : Transition) : Except StoreError Job := do
  require (r.nextState ∈ r.expectedState.allowed) <|
    .value ("Invalid Connect job transition: " ++ r.expectedState.text ++ " -> " ++
      r.nextState.text)
  require (r.nextState = .completed → r.result.isSome ∧ r.error.isNone) <|
    .value "Completed Connect jobs require only a result"
  require (r.nextState = .failed → r.error.isSome ∧ r.result.isNone) <|
    .value "Failed Connect jobs require only an error"
  require (r.nextState.active → r.result.isNone ∧ r.error.isNone) <|
    .value "Active Connect jobs cannot contain terminal data"
  let j ← find (s.jobs.get r.jobId) <|
    .runtime "Connect job transition lost its expected-state race"
  require (j.status = r.expectedState) <|
    .runtime "Connect job transition lost its expected-state race"
  require (j.protocolVersion = .v2 → j.lane = r.lane) <|
    .value "Connect v2 provider provenance cannot change"
  require (j.protocolVersion = .v2 → (s.dispatches.get r.jobId).isSome) <|
    .runtime "Connect job transition is missing dispatch state"
  return j

-- The outcome of a completed certificate job, `none` for every other transition.
def certificateOutcome (s : State) (r : Transition) (j : Job) (reading : SourceReading) :
    Except StoreError (State × Option (Option CertificateFailure)) :=
  match r.nextState, r.result with
  | .completed, some result =>
    if j.isCertificate then do
      let evidence ← certificateEvidence j (Codec.validateGenericResult result)
      let (s, outcome) := s.projectCertificate j reading evidence
      return (s, some outcome)
    else
      return (s, none)
  | _, _ => return (s, none)

-- Settle the fires of a job that is not kept, and delete it.
def discardTerminal (s : State) (r : Transition) (j : Job) : Except StoreError State :=
  let state := if r.nextState = .completed then FireState.completed else .failed
  (s.settleFires (·.linkedTo r.jobId) state r.fireReason).deleteJob j

def writeTransition (s : State) (r : Transition) (v : JobValues) (protocol : Protocol) : State :=
  let s := s.updateJob r.jobId (r.applyJob v)
  if protocol = .v2 then s.updateDispatch r.jobId r.applyDispatch else s

def settleOutcome (s : State) (jobId : String) :
    Option (Option CertificateFailure) → Except StoreError State
  | none         => return s
  | some failure => s.settleCertificate jobId (·.linkedTo jobId) failure

def recordTransition (s : State) (r : Transition) (v : JobValues) (j : Job)
    (outcome : Option (Option CertificateFailure)) : Except StoreError State := do
  require (r.nextState = .failed → v.errorCode.isSome ∧ v.errorMessage.isSome) <|
    .integrity "CHECK constraint failed: connect_attachment_jobs"
  (s.writeTransition r v j.protocolVersion).settleOutcome r.jobId outcome

def transitionConnectJob (s : State) (r : Transition) (targetAvailable : Bool)
    (reading : SourceReading) : Except StoreError (State × Job) := do
  let j ← s.checkTransition r
  let v ← r.values j.protocolVersion
  let (s, outcome) ← s.certificateOutcome r j reading
  if s.discardsTerminal r j targetAvailable then
    let s ← s.discardTerminal r j
    return (s, r.applyJob v j)
  else
    let s ← s.recordTransition r v j outcome
    return (s, r.applyJob v j)

end Transition

section Replay

variable [Codec]

-- The job that a replay or a join is about.
def completedCertificateJob (s : State) (jobId : String) (name : String) :
    Except StoreError (Job × Dispatch) := do
  let j ← find (s.jobs.get jobId) <|
    .runtime ("Certificate " ++ name ++ " job is missing")
  require (j.isCertificate ∧ j.status = .completed) <|
    .runtime ("Certificate " ++ name ++ " job is not a completed certificate job")
  let d ← find (s.dispatches.get jobId) <|
    .runtime ("Certificate " ++ name ++ " job is missing dispatch state")
  return (j, d)

def certificatesOf (s : State) (jobId : String) : List Certificate :=
  s.certificates.rows.filter (·.connectJobId = jobId)

-- The fires that a failed replay still has to settle: also those that have settled before, unless
-- they have failed for the reason at hand already.
def unsettledBy (failure : CertificateFailure) (jobId : String) (f : Fire) : Bool :=
  f.jobId = some jobId &&
  (f.state ∈ [FireState.completed, .submitted, .entitlementPaused] ||
  (failure = .conflict && f.state = .failed && f.reason = some CertificateFailure.invalid.code))

-- A conflict is final, and an invalid result stays one unless it turns out to be a conflict.
def mergeReplayFailure (prior outcome : Option CertificateFailure) : Option CertificateFailure :=
  if prior = some .conflict ∨ outcome = some .conflict then some .conflict
  else if prior = some .invalid ∧ outcome = none then some .invalid
  else outcome

def replayOutcome (j : Job) (parent : Certificate) (result : String) :
    Except StoreError (Option CertificateFailure) := do
  let evidence ← catchValueError <| certificateEvidence j (Codec.validateGenericResult result)
  let outcome := match evidence with
    | .error f => some f
    | .ok e    =>
      if parent.resultSha256 = e.sha256 ∧ parent.canonicalResultJson = e.canonicalJson then none
      else some .conflict
  return mergeReplayFailure parent.terminalReplayFailure outcome

-- A replay of a job without a stored certificate.
def replayUnprojected (s : State) (j : Job) (d : Dispatch) (result : String) :
    Except StoreError State := do
  let (encoded, _) ← Codec.encodeGenericResult result
  if d.lastErrorCode = some CertificateFailure.conflict.code ∨ j.resultJson ≠ some encoded then
    let s := s.updateDispatch j.jobId fun d => { d with
      lastErrorCode    := some CertificateFailure.conflict.code
      lastErrorMessage := some "completed certificate replay conflicts with stored evidence"
    }
    s.settleCertificate j.jobId (unsettledBy .conflict j.jobId) (some .conflict)
  else
    -- This path does not touch completed fires, and raises if it leaves one behind. A failed fire
    -- without a reason slips through its comparison with `NULL`.
    require (∀ f ∈ s.fires.rows, f.jobId = some j.jobId → f.state.linked ∨
        (f.state = .failed ∧ f.reason.all (· = CertificateFailure.invalid.code))) <|
      .runtime "Certificate invalid replay could not settle its automation fires"
    s.settleCertificate j.jobId (·.linkedTo j.jobId) (some .invalid)

omit [Codec] in
theorem key_fenced (failure : CertificateFailure) (c : Certificate) :
    Keyed.key { c with terminalReplayFailure := some failure } = Keyed.key c :=
  rfl

def reconcileCertificateCompletedReplay (s : State) (jobId : String) (lane : Lane)
    (result : String) : Except StoreError (State × Job) := do
  let (j, d) ← s.completedCertificateJob jobId "replay"
  require (j.lane = lane) <|
    .value "Connect v2 provider provenance cannot change"
  match s.certificatesOf jobId with
  | [] =>
    let s ← s.replayUnprojected j d result
    return (s, j)
  | [parent] =>
    match ← replayOutcome j parent result with
    | none         => return (s, j)
    | some failure =>
      let s := { s with
        certificates := s.certificates.update (·.connectJobId = jobId)
          (fun c => { c with terminalReplayFailure := some failure }) (key_fenced failure)
      }
      let s ← s.settleCertificate jobId (unsettledBy failure jobId) (some failure)
      return (s, j)
  | _ => throw <| .runtime "Completed certificate job has multiple durable projections"

-- The stored evidence that a job which has been joined late already carries against it.
def joinFence (s : State) (jobId : String) (d : Dispatch) : Option CertificateFailure :=
  match (s.certificatesOf jobId).head?.bind (·.terminalReplayFailure) with
  | some failure => some failure
  | none         =>
    if d.lastErrorCode = some CertificateFailure.conflict.code then some .conflict else none

def joinOutcome (s : State) (j : Job) (d : Dispatch) (reading : SourceReading) :
    Except StoreError (State × Option CertificateFailure) := do
  match s.joinFence j.jobId d with
  | some failure => return (s, some failure)
  | none =>
    if !s.certificateBinding j then
      return (s, some .invalid)
    else
      match reading, j.resultJson with
      | .unavailable, _         => return (s, some .invalid)
      | _,            none      => return (s, some .invalid)
      | _,            some json =>
        let evidence ← catchValueError <| certificateEvidence j (Codec.decodeGenericResult json)
        return s.projectCertificate j reading evidence

def reconcileCertificateCompletedJoin (s : State) (jobId : String) (reading : SourceReading) :
    Except StoreError (State × Job) := do
  let (j, d) ← s.completedCertificateJob jobId "join"
  require ((s.certificatesOf jobId).length ≤ 1) <|
    .runtime "Completed certificate job has multiple durable projections"
  let (s, failure) ← s.joinOutcome j d reading
  let s ← s.settleCertificate jobId (·.linkedTo jobId) failure
  return (s, j)

end Replay

end State
end Connect
