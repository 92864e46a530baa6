import Mathlib.Data.Prod.Lex
import EmailWatcher.Basic
import EmailWatcher.Library.Table
import EmailWatcher.Library.Transaction

namespace Connect

inductive Protocol
  | v1
  | v2
  deriving DecidableEq, Repr

inductive JobStatus
  | requested
  | accepted
  | processing
  | completed
  | failed
  deriving DecidableEq, Repr

namespace JobStatus

def settled : JobStatus → Bool
  | completed | failed => true
  | _                  => false

@[simp]
def active (status : JobStatus) : Bool :=
  !status.settled

end JobStatus

-- What a completed v1 job stores of its summary.
structure Summary where
  artifactId     : String
  mediaType      : String
  byteSize       : Nat
  sha256         : String
  summaryVersion : String
  text           : String
  warningsJson   : String
  deriving DecidableEq, Repr

-- A row of `connect_attachment_jobs`. The columns that only the provider reads are left out.
structure Job where
  jobId                 : String
  messageId             : String
  partId                : String
  protocolVersion       : Protocol
  capabilityId          : String
  capabilityVersion     : String
  providerAppId         : String
  providerInstanceId    : String
  invocationFingerprint : String
  inputByteSize         : Nat
  inputSha256           : String
  inputDisplayName      : Option String
  status                : JobStatus
  summary               : Option Summary
  resultJson            : Option String
  resultMetadataJson    : Option String
  errorCode             : Option String
  errorMessage          : Option String
  errorRetryable        : Option Bool
  createdAt             : Instant
  deriving DecidableEq, Repr

instance : Keyed Job String where
  key := Job.jobId

-- A lane serves one provider app in one instance.
abbrev Lane := String × String

def Job.lane (j : Job) : Lane :=
  (j.providerAppId, j.providerInstanceId)

inductive DispatchState
  | waiting
  | dispatching
  | reconciling
  | providerOwned
  | terminal
  deriving DecidableEq, Repr

inductive ProviderState
  | requested
  | accepted
  | processing
  deriving DecidableEq, Repr

-- The order in which a provider takes over a job.
def ProviderState.rank : ProviderState → Nat
  | requested  => 0
  | accepted   => 1
  | processing => 2

-- A row of `connect_job_dispatch`, which exists for v2 jobs only.
structure Dispatch where
  jobId                          : String
  state                          : DispatchState
  attemptCount                   : Nat
  reconciliationFailureCount     : Nat
  nextAttemptAt                  : Option Instant
  admissionDeadline              : Instant
  submissionPossible             : Bool
  sourceAvailable                : Bool
  capabilityExternalEffects      : Bool
  capabilityConfirmationRequired : Bool
  capabilityAuthorityKnown       : Bool
  interactiveAuthorizedAt        : Option Instant
  automationPausedAt             : Option Instant
  highestProviderState           : ProviderState
  lastErrorCode                  : Option String
  lastErrorMessage               : Option String
  deriving DecidableEq, Repr

instance : Keyed Dispatch String where
  key := Dispatch.jobId

inductive FireState
  | pendingDispatch
  | entitlementPaused
  | awaitingConfirmation
  | submitted
  | completed
  | failed
  | declined
  | manualReview
  | sourceUnavailable
  deriving DecidableEq, Repr

-- `AUTOMATION_FIRE_TRANSITIONS`.
def automationFireTransitions : List (FireState × FireState) := [
  (.pendingDispatch,      .entitlementPaused),
  (.pendingDispatch,      .awaitingConfirmation),
  (.pendingDispatch,      .submitted),
  (.pendingDispatch,      .manualReview),
  (.pendingDispatch,      .sourceUnavailable),
  (.entitlementPaused,    .pendingDispatch),
  (.entitlementPaused,    .submitted),
  (.entitlementPaused,    .completed),
  (.entitlementPaused,    .failed),
  (.entitlementPaused,    .manualReview),
  (.entitlementPaused,    .sourceUnavailable),
  (.awaitingConfirmation, .pendingDispatch),
  (.awaitingConfirmation, .declined),
  (.awaitingConfirmation, .manualReview),
  (.awaitingConfirmation, .sourceUnavailable),
  (.submitted,            .completed),
  (.submitted,            .failed),
  (.submitted,            .entitlementPaused),
  (.submitted,            .pendingDispatch),
  (.submitted,            .manualReview),
  (.submitted,            .sourceUnavailable)
]

-- The digest and the canonical text of a prepared invocation are stored together or not at all.
structure PreparedIdentity where
  sha256 : String
  json   : String
  deriving DecidableEq, Repr

-- A row of `automation_fires`.
structure Fire where
  fireId                   : String
  ruleId                   : String
  ruleVersion              : Nat
  messageId                : String
  partId                   : String
  state                    : FireState
  stateVersion             : Nat
  reason                   : Option String
  currentAttemptNo         : Nat
  jobId                    : Option String
  preparedIdentity         : Option PreparedIdentity
  confirmed                : Bool
  pendingSince             : Option Instant
  authorizedPendingSeconds : Nat
  deriving DecidableEq, Repr

instance : Keyed Fire String where
  key := Fire.fireId

-- The fires that a job still has to settle.
def FireState.linked : FireState → Bool
  | submitted | entitlementPaused => true
  | _                             => false

-- A row of `automation_fire_attempts`.
structure Attempt where
  fireId            : String
  attemptNo         : Nat
  dispatchRequestId : String
  jobId             : Option String
  deriving DecidableEq, Repr

instance : Keyed Attempt (String × Nat) where
  key a := (a.fireId, a.attemptNo)

-- A row of `automation_fire_confirmations`.
structure Confirmation where
  fireId                 : String
  preparedIdentitySha256 : String
  confirmedAt            : Instant
  deriving DecidableEq, Repr

instance : Keyed Confirmation String where
  key := Confirmation.fireId

inductive CertificateFailure
  | conflict
  | invalid
  deriving DecidableEq, Repr

def CertificateFailure.code : CertificateFailure → String
  | conflict => "CERTIFICATE_RESULT_CONFLICT"
  | invalid  => "CERTIFICATE_RESULT_INVALID"

structure CertificateSource where
  provider           : String
  accountId          : String
  mailboxIdentityKey : String
  deriving DecidableEq, Repr

-- A row of `certificate_records`, without the projection of the record's contents.
structure Certificate where
  source                : CertificateSource
  sourceMessageId       : String
  sourcePartId          : String
  connectJobId          : String
  resultSha256          : String
  canonicalResultJson   : String
  terminalReplayFailure : Option CertificateFailure
  deriving DecidableEq, Repr

instance : Keyed Certificate (CertificateSource × String × String × String) where
  key c := (c.source, c.sourceMessageId, c.sourcePartId, c.connectJobId)

@[ext]
structure State where
  jobs          : Table Job
  dispatches    : Table Dispatch
  fires         : Table Fire
  attempts      : Table Attempt
  confirmations : Table Confirmation
  certificates  : Table Certificate

instance : EmptyCollection State where
  emptyCollection := {
    jobs          := ∅
    dispatches    := ∅
    fires         := ∅
    attempts      := ∅
    confirmations := ∅
    certificates  := ∅
  }

-- One output of a provider's generic result.
structure Output where
  mediaType : String
  payload   : String
  deriving DecidableEq, Repr

structure CertificateEvidence where
  sha256        : String
  canonicalJson : String
  deriving DecidableEq, Repr

-- The codecs of provider data. The store branches on what they accept and stores what they return;
-- how they parse is no concern of its transactions.
class Codec where
  -- `hashlib.sha256(text).hexdigest()`
  sha256 : String → String
  -- `_encode_generic_result`
  encodeGenericResult : String → Except StoreError (String × String)
  -- `_validate_generic_result`
  validateGenericResult : String → Except StoreError (List Output)
  -- `_decode_generic_result`
  decodeGenericResult : String → Except StoreError (List Output)
  -- `_validate_certificate_record`
  validateCertificateRecord :
    (payload inputSha256 : String) → (inputByteSize : Nat) → (inputDisplayName : Option String) →
    Option CertificateEvidence
  -- The summary columns of a v1 result, as far as `completed_connect_warnings` accepts them.
  completedSummary : String → Except StoreError Summary

end Connect
