import EmailWatcher.Connect.Results
import EmailWatcher.Connect.Automation
import EmailWatcher.Library.Machine

namespace Connect

open State

-- The transactions on jobs and fires. What they read outside of these tables, they get as an
-- argument: whether content may be used, whether an attachment exists, what is known of a source.
inductive Action
  | createAutomationFire (r : FireRequest)
  | createConnectJob (r : JobRequest) (content attachment : Bool)
  | claimConnectLaneHead (lane : Lane) (expectedJobId : Option String) (content : String → Bool)
      (now : Instant)
  | deferConnectJob (r : Deferral)
  | expireWaitingConnectJobs (now : Instant)
  | transitionConnectJob (r : Transition) (targetAvailable : Bool) (reading : SourceReading)
  | resetConnectJobForResubmission (jobId : String) (expectedState : JobStatus) (lane : Lane)
      (content : String → Bool)
  | reconcileCertificateCompletedReplay (jobId : String) (lane : Lane) (result : String)
  | reconcileCertificateCompletedJoin (jobId : String) (reading : SourceReading)
  | transitionAutomationFire (r : FireTransition)
  | decideAutomationFire (fireId : String) (expectedVersion : Nat)
      (preparedIdentitySha256 : String) (confirmed : Bool) (now : Instant)
  | pauseInteractiveJobAutomationFires (jobId : String)
  | authorizeConnectJobInteractively (jobId : String) (now : Instant)
  | resumeAutomationFireJob (fireId : String) (expectedVersion : Nat) (now : Instant)
  | retryAutomationFireAfterFailure (fireId : String) (expectedVersion : Nat)
      (dispatchRequestId : String) (now : Instant)
  | markSourcesUnavailable (messageIds : List String)
  | deleteMessage (messageId : String)

variable [Codec]

def step (s : State) : Action → Except StoreError State
  | .createAutomationFire r =>
    s.createAutomationFire r
  | .createConnectJob r content attachment =>
    Prod.fst <$> s.createConnectJob r content attachment
  | .claimConnectLaneHead lane expectedJobId content now =>
    .ok (s.claimConnectLaneHead lane expectedJobId content now).fst
  | .deferConnectJob r =>
    Prod.fst <$> s.deferConnectJob r
  | .expireWaitingConnectJobs now =>
    .ok (s.expireWaitingConnectJobs now)
  | .transitionConnectJob r targetAvailable reading =>
    Prod.fst <$> s.transitionConnectJob r targetAvailable reading
  | .resetConnectJobForResubmission jobId expectedState lane content =>
    Prod.fst <$> s.resetConnectJobForResubmission jobId expectedState lane content
  | .reconcileCertificateCompletedReplay jobId lane result =>
    Prod.fst <$> s.reconcileCertificateCompletedReplay jobId lane result
  | .reconcileCertificateCompletedJoin jobId reading =>
    Prod.fst <$> s.reconcileCertificateCompletedJoin jobId reading
  | .transitionAutomationFire r =>
    s.transitionAutomationFire r
  | .decideAutomationFire fireId expectedVersion preparedIdentitySha256 confirmed now =>
    s.decideAutomationFire fireId expectedVersion preparedIdentitySha256 confirmed now
  | .pauseInteractiveJobAutomationFires jobId =>
    s.pauseInteractiveJobAutomationFires jobId
  | .authorizeConnectJobInteractively jobId now =>
    Prod.fst <$> s.authorizeConnectJobInteractively jobId now
  | .resumeAutomationFireJob fireId expectedVersion now =>
    s.resumeAutomationFireJob fireId expectedVersion now
  | .retryAutomationFireAfterFailure fireId expectedVersion dispatchRequestId now =>
    s.retryAutomationFireAfterFailure fireId expectedVersion dispatchRequestId now
  | .markSourcesUnavailable messageIds =>
    s.markSourcesUnavailable messageIds
  | .deleteMessage messageId =>
    s.deleteMessage messageId

def machine : Machine State Action StoreError where
  step := step

end Connect
