import EmailWatcher.Connect.Links
import EmailWatcher.Connect.Retry
import EmailWatcher.Connect.Updates

-- When submitted fires are due to be settled, and how they are.
namespace Connect

open Transaction State

-- What a pass over the fires reads outside of the store: the entitlement, the sources of
-- certificates, and the identifiers that it draws.
structure Surroundings where
  entitled : Bool
  reading  : String → SourceReading
  request  : String → String
  now      : Instant

namespace Fire

def transitionTo (f : Fire) (nextState : FireState) (reason : String) (now : Instant) :
    FireTransition where
  fireId           := f.fireId
  expectedState    := f.state
  expectedVersion  := f.stateVersion
  nextState        := nextState
  reason           := some reason
  jobId            := none
  preparedIdentity := none
  confirmed        := none
  now              := now

end Fire

-- `(job.error_code or "connect_failed")[:128]`
def Job.failureReason (j : Job) : String :=
  let code := j.errorCode.getD ""
  takeChars 128 <| if code = "" then "connect_failed" else code

theorem Job.failureReason_ne (j : Job) : j.failureReason ≠ "" := by
  unfold Job.failureReason takeChars
  intro h
  have h := congrArg String.toList h
  simp only [String.toList_ofList] at h
  have hn : (if j.errorCode.getD "" = "" then "connect_failed" else j.errorCode.getD "") = "" := by
    simpa using h
  split at hn
  case isTrue  => exact absurd hn (by decide)
  case isFalse hne => exact hne hn

namespace State

-- `automation_fire_retry_kind`
def automationFireRetryKind (s : State) (f : Fire) : Option RetryKind :=
  (f.jobId.bind s.entry).bind fun (j, d) => automationFailureRetryKind j d

-- `automation_fire_settlement_due`
def automationFireSettlementDue (s : State) : Bool :=
  s.fires.rows.any fun f => f.state.linked && f.jobId.any fun k =>
    match s.jobs.get k with
    | none   => true
    | some j => j.status.settled && (f.state = .submitted ||
      match s.automationFireRetryKind f with
      | some _ => automationFireMaxAttempts ≤ f.currentAttemptNo
      | none   => !((s.dispatches.get k).any (·.interactiveAuthorizedAt.isSome) ||
          !s.attempts.rows.any (·.dispatchRequestId = k)))

variable [Codec]

def pauseFire (s : State) (f : Fire) (now : Instant) : Except StoreError State :=
  s.transitionAutomationFire <| f.transitionTo .entitlementPaused "entitlement_inactive" now

-- The kind of failure for which a fire is not tried again.
def exhaustedRetryKind (s : State) (f : Fire) : Option RetryKind :=
  (s.automationFireRetryKind f).filter fun _ => automationFireMaxAttempts ≤ f.currentAttemptNo

-- One pass of `_settle_submitted_automation_fires` for a fire with a job. To touch a fire is to
-- leave the store as it is.
def settleByJob (s : State) (env : Surroundings) (f : Fire) (j : Job) :
    Except StoreError State :=
  match s.exhaustedRetryKind f with
  | some kind =>
    s.transitionAutomationFire <| f.transitionTo .manualReview ("second_" ++ kind.text) env.now
  | none =>
    if !s.connectJobRequiresAutomationEntitlement j.jobId && !env.entitled then
      if f.state = .submitted then s.pauseFire f env.now else return s
    else if j.status = .completed then
      if j.capabilityId = certificateCapabilityId then
        Prod.fst <$> s.reconcileCertificateCompletedJoin j.jobId (env.reading j.jobId)
      else
        s.transitionAutomationFire <| f.transitionTo .completed "connect_completed" env.now
    else if j.status ≠ .failed then
      return s
    else if (s.automationFireRetryKind f).isSome then
      if f.state = .submitted && !env.entitled then
        s.pauseFire f env.now
      else if f.state = .entitlementPaused then
        return s
      else
        s.retryAutomationFireAfterFailure f.fireId f.stateVersion (env.request f.fireId) env.now
    else
      s.transitionAutomationFire <| f.transitionTo .failed j.failureReason env.now

def settleFire (s : State) (env : Surroundings) (fireId : String) : Except StoreError State :=
  match (s.fires.get fireId).filter (·.state.linked) with
  | none   => return s
  | some f =>
    match f.jobId with
    | none   =>
      if f.state = .entitlementPaused then return s
      else throw <| .runtime "Submitted automation fire is missing its Connect job"
    | some k =>
      match s.jobs.get k with
      | none   =>
        s.transitionAutomationFire <| f.transitionTo .sourceUnavailable "job_removed" env.now
      | some j => s.settleByJob env f j

-- The loop of `_settle_submitted_automation_fires`: every pass commits on its own, and an exception
-- ends it.
def settleFiresInOrder (s : State) (env : Surroundings) : List String → State × Option StoreError
  | []        => (s, none)
  | id :: ids =>
    match s.settleFire env id with
    | .ok s'   => s'.settleFiresInOrder env ids
    | .error e => (s, some e)

-- `automation_fires_in_states`. The rows come in the order of their last update: `order` is that
-- order of the fires of the store.
def automationFiresInStates (s : State) (order : List String) (states : List FireState)
    (limit : Int) : Except StoreError (List String) := do
  require (states ≠ [] ∧ 1 ≤ limit ∧ limit ≤ connectQueueMaxJobs) <|
    .value "Automation fire query boundary is invalid"
  return (order.filter fun id => (s.fires.get id).any (·.state ∈ states)).take limit.toNat

def settleSubmittedAutomationFires (s : State) (env : Surroundings) (order : List String)
    (limit : Int) : State × Option StoreError :=
  match s.automationFiresInStates order [.submitted, .entitlementPaused] limit with
  | .ok ids  => s.settleFiresInOrder env ids
  | .error e => (s, some e)

end State

-- How much of a fire there is left to settle.
def FireState.unsettled : FireState → Nat
  | submitted         => 2
  | entitlementPaused => 1
  | _                 => 0

variable {s s' s₁ s₂ s₃ : State} {k id : String} {j j' : Job} {d : Dispatch} {f f' : Fire}

namespace State

-- No fire goes back.
def Falls (s s' : State) : Prop :=
  ∀ id f, s.fires.get id = some f →
    ∃ f', s'.fires.get id = some f' ∧ f'.state.unsettled ≤ f.state.unsettled

namespace Falls

theorem refl (s : State) : Falls s s :=
  fun _ f hf => ⟨f, hf, le_rfl⟩

theorem trans (h₁ : Falls s₁ s₂) (h₂ : Falls s₂ s₃) : Falls s₁ s₃ := by
  intro id f hf
  obtain ⟨f₂, hf₂, hle₂⟩ := h₁ id f hf
  obtain ⟨f₃, hf₃, hle₃⟩ := h₂ id f₂ hf₂
  exact ⟨f₃, hf₃, hle₃.trans hle₂⟩

theorem of_eq (h : s'.fires = s.fires) : Falls s s' :=
  fun _ f hf => ⟨f, h ▸ hf, le_rfl⟩

theorem update {p : Fire → Bool} {g : Fire → Fire} {hg}
    (h : ∀ f, s.fires.get f.fireId = some f → p f →
      (g f).state.unsettled ≤ f.state.unsettled) :
    Falls s { s with fires := s.fires.update p g hg } := by
  intro id f hf
  refine ⟨_, by simp only [Table.get_update, hf, Option.map_some]; rfl, ?_⟩
  split
  case isFalse => exact le_rfl
  case isTrue hp =>
    obtain rfl : f.fireId = id := Table.key_of_get hf
    exact h f hf hp

theorem settleFires {p : Fire → Bool} {state : FireState} {reason : String}
    (h : state.unsettled = 0) : Falls s (s.settleFires p state reason) :=
  update fun _ _ _ => h ▸ Nat.zero_le _

theorem deleteJob {old : Job} (h : s.deleteJob old = .ok s') : Falls s s' := by
  obtain ⟨_, rfl⟩ := deleteJob_eq_ok.mp h
  have hu : ∀ f : Fire, (f.unlink old).state.unsettled = 0 := by
    intro f
    unfold Fire.unlink
    split <;> rfl
  have hf : Falls s { s with
      fires := s.fires.update (·.linkedTo old.jobId) (·.unlink old) (Fire.fireId_unlink old) } :=
    update fun f _ _ => hu f ▸ Nat.zero_le _
  exact hf.trans (of_eq rfl)

theorem deleteJobs {p : Job → Bool} (h : s.deleteJobs p = .ok s') : Falls s s' :=
  foldlM_relation (.refl ·) (fun _ _ _ => .trans) (fun _ _ _ _ => deleteJob) h

theorem settleByOutcome {p : Fire → Bool} {failure : Option CertificateFailure} :
    Falls s (s.settleByOutcome p failure) := by
  cases failure <;> exact settleFires rfl

theorem discardSettled {failure : Option CertificateFailure}
    (h : s.discardSettledSourceLessCertificateJob k failure = .ok s') : Falls s s' := by
  obtain rfl | ⟨_, _, _, s₁, _, h₁, _, rfl⟩ := discardSettledSourceLessCertificateJob_eq_ok h
  case inl => exact .refl _
  case inr =>
    refine (deleteJob h₁).trans ?_
    cases failure
    case none => exact .refl _
    case some => exact update fun _ _ _ => Nat.zero_le _

end Falls

-- The fire has been settled as far as it can be for now.
def Settles (id : String) (s s' : State) : Prop :=
  Falls s s' ∧ ∃ f f', s.fires.get id = some f ∧ s'.fires.get id = some f' ∧
    f'.state.unsettled < f.state.unsettled

theorem Settles.after (h : Settles id s₁ s₂) (hf : Falls s₂ s₃) : Settles id s₁ s₃ := by
  obtain ⟨hfalls, f, f', hf₁, hf₂, hlt⟩ := h
  obtain ⟨f₃, hf₃, hle⟩ := hf id f' hf₂
  exact ⟨hfalls.trans hf, f, f₃, hf₁, hf₃, hle.trans_lt hlt⟩

theorem foldlM_deleteJob_of_unlinked {l : List Job}
    (h : ∀ j ∈ l, ∀ f ∈ s.fires, f.linkedTo j.jobId = false) :
    ∃ s', l.foldlM deleteJob s = .ok s' := by
  induction l generalizing s
  case nil => exact ⟨s, rfl⟩
  case cons j l ih =>
    obtain ⟨s₁, h₁⟩ := WellFormed.deleteJob_of_unlinked (h j (by simp))
    have hf : s₁.fires = s.fires := by
      obtain ⟨_, rfl⟩ := deleteJob_eq_ok.mp h₁
      exact Table.update_of_forall_not (Fire.fireId_unlink j) (h j (by simp))
    obtain ⟨s', h'⟩ := ih (s := s₁) fun i hi => by
      rw [hf]
      exact h i (by simp [hi])
    exact ⟨s', by rw [List.foldlM_cons, h₁]; exact h'⟩

theorem dropSettledJob_ok (s : State) (k : String) : ∃ s', s.dropSettledJob k = .ok s' := by
  refine foldlM_deleteJob_of_unlinked fun j hj f hf => ?_
  simp only [List.mem_filter, Bool.and_eq_true, decide_eq_true_eq, Bool.not_eq_true'] at hj
  obtain ⟨_, ⟨⟨hk, _⟩, _⟩, hl⟩ := hj
  have hl := List.any_eq_false.mp hl f hf
  simpa [hk] using hl

section Transitions

variable [Codec] {q : FireState} {reason : String} {now : Instant}

-- A transition out of the states that wait for a job, to one that does not.
theorem transitionAutomationFire_settles (hf : s.fires.get f.fireId = some f)
    (hv : 1 ≤ f.stateVersion) (ha : (f.state, q) ∈ automationFireTransitions)
    (hr : reason ≠ "") (hsize : reason.utf8ByteSize ≤ 128)
    (hlt : q.unsettled < f.state.unsettled)
    (hm : ∃ s₁, s.moveLinkedJob (f.transitionTo q reason now) f = .ok s₁ ∧ s₁.fires = s.fires) :
    ∃ s', s.transitionAutomationFire (f.transitionTo q reason now) = .ok s' ∧
      Settles f.fireId s s' := by
  obtain ⟨s₁, h₁, hf₁⟩ := hm
  have hcheck : (f.transitionTo q reason now).check = .ok () := by
    simp [FireTransition.check, Fire.transitionTo, bind_eq_ok, ha, hv, hr, hsize]
  generalize hr : f.transitionTo q reason now = r at *
  have hid : r.fireId = f.fireId := hr ▸ rfl
  have hq : r.nextState = q := hr ▸ rfl
  have hexp : f.state = r.expectedState ∧ f.stateVersion = r.expectedVersion := hr ▸ ⟨rfl, rfl⟩
  have hu : Settles f.fireId s (s₁.updateFire r.fireId r.apply (fireId_transition r)) := by
    refine ⟨(Falls.of_eq hf₁).trans (.update fun g hg hp => ?_), f, r.apply f, hf, ?_, ?_⟩
    · have hg' : g.fireId = f.fireId := by simpa [hid] using hp
      rw [hf₁, hg'] at hg
      cases hf.symm.trans hg
      exact le_of_lt (show r.nextState.unsettled < _ from hq ▸ hlt)
    · rw [fires_updateFire, if_pos hid.symm, hf₁, hf, Option.map_some]
    · exact show r.nextState.unsettled < _ from hq ▸ hlt
  unfold transitionAutomationFire
  simp only [hcheck, hid, hf, h₁, hexp, find, require, and_self, if_true, bind, Except.bind]
  rw [← hid]
  split
  case h_3 => exact ⟨_, rfl, hid ▸ hu⟩
  all_goals
    obtain ⟨s', h'⟩ := dropSettledJob_ok (s₁.updateFire r.fireId r.apply (fireId_transition r)) _
    exact ⟨s', h', hid ▸ hu.after (.deleteJobs h')⟩

-- The states in which a fire has nothing more to do with its job.
def FireState.released : FireState → Bool
  | .sourceUnavailable | .manualReview | .completed | .failed => true
  | _                                                         => false

theorem moveLinkedJob_of_released {r : FireTransition} (h : FireState.released r.nextState) :
    s.moveLinkedJob r f = .ok s := by
  unfold moveLinkedJob
  cases hn : r.nextState <;> simp_all [FireState.released]

theorem transitionAutomationFire_releases (hf : s.fires.get f.fireId = some f)
    (hv : 1 ≤ f.stateVersion) (hl : f.state.linked) (hq : FireState.released q)
    (hr : reason ≠ "") (hsize : reason.utf8ByteSize ≤ 128) :
    ∃ s', s.transitionAutomationFire (f.transitionTo q reason now) = .ok s' ∧
      Settles f.fireId s s' := by
  refine transitionAutomationFire_settles hf hv ?_ hr hsize ?_ ⟨s, moveLinkedJob_of_released hq, rfl⟩
  · cases hs : f.state <;> cases q <;>
      simp_all [FireState.linked, FireState.released, automationFireTransitions]
  · cases hs : f.state <;> cases q <;>
      simp_all [FireState.linked, FireState.released, FireState.unsettled]

theorem pauseFire_settles (hf : s.fires.get f.fireId = some f) (hv : 1 ≤ f.stateVersion)
    (hs : f.state = .submitted) (hk : f.jobId = some k) (hd : (s.dispatches.get k).isSome) :
    ∃ s', s.pauseFire f now = .ok s' ∧ Settles f.fireId s s' := by
  obtain ⟨d, hd⟩ := Option.isSome_iff_exists.mp hd
  refine transitionAutomationFire_settles hf hv ?_ (by decide) (by decide) ?_ ?_
  · simp [hs, automationFireTransitions]
  · simp [hs, FireState.unsettled]
  · have hj : (f.transitionTo .entitlementPaused "entitlement_inactive" now).job f = some k := hk
    have hmove : s.moveLinkedJob (f.transitionTo .entitlementPaused "entitlement_inactive" now) f =
        s.pauseDispatch k now := by
      unfold moveLinkedJob
      rw [hj]
      rfl
    rw [hmove]
    refine ⟨_, by simp only [pauseDispatch, hd, find, bind, Except.bind]; rfl, ?_⟩
    split <;> rfl

theorem transitionAutomationFire_refuses (hsize : 128 < reason.utf8ByteSize) :
    ∃ e, s.transitionAutomationFire (f.transitionTo q reason now) = .error e := by
  cases h : s.transitionAutomationFire (f.transitionTo q reason now)
  case error e => exact ⟨e, rfl⟩
  case ok s' =>
    obtain ⟨_, _, hc, _⟩ := transitionAutomationFire_eq_ok h
    simp only [FireTransition.check, Fire.transitionTo, bind_eq_ok] at hc
    obtain ⟨_, _, _, _, _, hr, _⟩ := hc
    simp at hr
    omega

end Transitions

section Join

variable [Codec] {reading : SourceReading}

def found : SourceReading → Bool
  | .unavailable => false
  | _            => true

-- What `except ValueError` does not catch.
def raises {α : Type} : Except StoreError α → Bool
  | .error (.value _) => false
  | .error _          => true
  | .ok _             => false

-- The stored result of a certificate job is asked for, and it cannot be decoded.
def undecodable (s : State) (j : Job) (d : Dispatch) (reading : SourceReading) : Bool :=
  s.joinFence j.jobId d = none && s.certificateBinding j && found reading &&
  j.capabilityVersion = certificateCapabilityVersion &&
  j.resultJson.any fun json => raises (Codec.decodeGenericResult json)

theorem certificateEvidence_ok (j : Job) (l : List Output) :
    ∃ x, certificateEvidence j (.ok l) = .ok x := by
  unfold certificateEvidence
  split
  case isTrue => exact ⟨_, rfl⟩
  case isFalse =>
    dsimp only [bind, Except.bind]
    split
    case h_1 => split <;> exact ⟨_, rfl⟩
    case h_2 => exact ⟨_, rfl⟩

theorem certificateEvidence_raises {outputs : Except StoreError (List Output)} :
    (∃ e, catchValueError (certificateEvidence j outputs) = .error e) ↔
      j.capabilityVersion = certificateCapabilityVersion ∧ raises outputs := by
  cases outputs
  case ok l =>
    obtain ⟨x, hx⟩ := certificateEvidence_ok j l
    simp [hx, catchValueError, raises]
  case error e =>
    unfold certificateEvidence
    split
    case isTrue hv => simp [hv, catchValueError, pure, Except.pure]
    case isFalse hv => cases e <;> simp_all [catchValueError, raises, bind, Except.bind]

theorem joinOutcome_raises : (∃ e, s.joinOutcome j d reading = .error e) ↔
    s.undecodable j d reading := by
  unfold joinOutcome undecodable
  cases hfence : s.joinFence j.jobId d
  case some failure => simp [pure, Except.pure]
  case none =>
    cases hb : s.certificateBinding j
    case false => simp [pure, Except.pure]
    case true =>
      cases hj : j.resultJson
      case none => cases reading <;> simp [pure, Except.pure]
      case some json =>
        have hiff : (∃ e, catchValueError (certificateEvidence j (Codec.decodeGenericResult json)) =
            .error e) ↔ _ := certificateEvidence_raises
        cases reading
        case unavailable => simp [found, pure, Except.pure]
        all_goals
          simp only [found, Bool.not_true, Bool.false_eq_true, if_false, decide_true, Bool.and_self,
            Bool.true_and, Option.any_some, Bool.and_eq_true, decide_eq_true_eq, ← hiff]
          cases catchValueError (certificateEvidence j (Codec.decodeGenericResult json)) <;>
            simp [bind, Except.bind, pure, Except.pure]

-- A join settles the fires of its job.
theorem join_settles (he : s.entry k = some (j, d)) (hv : j.protocolVersion = .v2)
    (hcap : j.capabilityId = certificateCapabilityId) (hst : j.status = .completed)
    (hone : (s.certificatesOf k).length ≤ 1) (hdec : s.undecodable j d reading = false)
    (hf : s.fires.get id = some f) (hl : f.linkedTo k) :
    ∃ x, s.reconcileCertificateCompletedJoin k reading = .ok x ∧ Settles id s x.fst := by
  obtain ⟨hj, hd⟩ := entry_eq_some.mp he
  have hcert : j.isCertificate ∧ j.status = .completed := by simp [Job.isCertificate, hv, hcap, hst]
  obtain ⟨⟨s₁, failure⟩, ho⟩ : ∃ x, s.joinOutcome j d reading = .ok x := by
    cases ho : s.joinOutcome j d reading
    case ok x => exact ⟨x, rfl⟩
    case error e => simp [joinOutcome_raises.mp ⟨e, ho⟩] at hdec
  have hsame := joinOutcome_same ho
  obtain ⟨s₂, h₂⟩ : ∃ s₂, s₁.settleCertificate k (·.linkedTo k) failure = .ok s₂ :=
    WellFormed.settleCertificate (hsame.jobs ▸ hj) hst
  refine ⟨(s₂, j), ?_, ?_⟩
  · simp only [reconcileCertificateCompletedJoin, completedCertificateJob, hj, hd, find, require,
      hcert, and_self, if_true, bind, Except.bind, pure, Except.pure, if_pos hone, ho, h₂]
  · have hs : Settles id s (s₁.settleByOutcome (·.linkedTo k) failure) := by
      refine ⟨(Falls.of_eq hsame.fires).trans .settleByOutcome, f, ?_⟩
      have hf₁ : s₁.fires.get id = some f := hsame.fires ▸ hf
      have hlinked : f.state.linked := by
        simp only [Fire.linkedTo, Bool.and_eq_true] at hl
        exact hl.right
      have hpos : 0 < f.state.unsettled := by
        cases hs : f.state <;> simp_all [FireState.linked, FireState.unsettled]
      cases failure
      case none =>
        refine ⟨f.advance .completed "connect_completed", hf, ?_, hpos⟩
        simp [settleByOutcome, settleFires, hf₁, hl]
      case some c =>
        refine ⟨f.advance .failed c.code, hf, ?_, hpos⟩
        simp [settleByOutcome, settleFires, hf₁, hl]
    exact hs.after (.discardSettled h₂)

theorem join_raises (he : s.entry k = some (j, d))
    (h : 1 < (s.certificatesOf k).length ∨ s.undecodable j d reading) :
    ∃ e, s.reconcileCertificateCompletedJoin k reading = .error e := by
  obtain ⟨hj, hd⟩ := entry_eq_some.mp he
  cases hr : s.reconcileCertificateCompletedJoin k reading
  case error e => exact ⟨e, rfl⟩
  case ok x =>
    simp only [reconcileCertificateCompletedJoin, completedCertificateJob, bind_eq_ok, hj, hd] at hr
    obtain ⟨_, ⟨_, hfind, _, _, _, hfind', hp⟩, _, hlen, _, ho, _⟩ := hr
    cases Option.some.inj (find_eq_ok.mp hfind)
    cases Option.some.inj (find_eq_ok.mp hfind')
    cases hp
    obtain h | h := h
    case inl =>
      have hlen := require_eq_ok.mp hlen
      omega
    case inr =>
      obtain ⟨e, he⟩ := joinOutcome_raises.mpr h
      cases he.symm.trans ho

end Join

theorem retry_settles {kind : RetryKind} {request : String} {now : Instant}
    (hf : s.fires.get f.fireId = some f) (hs : f.state = .submitted) (hk : f.jobId = some k)
    (he : s.entry k = some (j, d)) (hkind : automationFailureRetryKind j d = some kind)
    (hno : f.currentAttemptNo = 1) (hsecond : s.attempts.get (f.fireId, 2) = none)
    (hfresh : ∀ t ∈ s.attempts, t.dispatchRequestId ≠ request) :
    ∃ s', s.retryAutomationFireAfterFailure f.fireId f.stateVersion request now = .ok s' ∧
      Settles f.fireId s s' := by
  obtain ⟨attempts, ha⟩ : ∃ attempts, s.attempts.insert ⟨f.fireId, 2, request, none⟩ =
      some attempts := ⟨_, Table.insertOrIgnore_of_none hsecond⟩
  have hinsert : s.insertAttempt ⟨f.fireId, 2, request, none⟩ =
      .ok { s with attempts := attempts } := by
    simp only [insertAttempt, ha, find, require, bind, Except.bind, pure, Except.pure]
    rw [if_pos (by simpa [Table.mem_rows] using hfresh)]
  obtain ⟨s', h'⟩ : ∃ s',
      s.retryAutomationFireAfterFailure f.fireId f.stateVersion request now = .ok s' := by
    simp only [retryAutomationFireAfterFailure, hf, hk, he, hs, hno, hkind, Option.bind_some, find,
      require, and_self, if_true, bind, Except.bind, hinsert, pure, Except.pure]
    exact ⟨_, rfl⟩
  obtain ⟨⟨_, _, _, kind', hr⟩, _⟩ := retryAutomationFireAfterFailure_eq_ok h'
  refine ⟨s', h', fun i g hg => ?_, f, retryFire kind' now f, hf, ?_, ?_⟩
  · rw [hr.fires, hg]
    split
    case isTrue  => exact ⟨_, rfl, Nat.zero_le _⟩
    case isFalse => exact ⟨g, rfl, le_rfl⟩
  · rw [hr.fires, if_pos rfl, hf, Option.map_some]
  · simp [hs, retryFire, FireState.unsettled]

section Passes

variable [Codec] {env : Surroundings}

-- There is nothing to settle for the fire yet: it waits for its job, for its entitlement, or to be
-- tried again.
def idle (s : State) (env : Surroundings) (f : Fire) : Bool :=
  match f.jobId with
  | none   => f.state = .entitlementPaused
  | some k => (s.jobs.get k).any fun j => s.exhaustedRetryKind f = none &&
    if !s.connectJobRequiresAutomationEntitlement k && !env.entitled then
      f.state = .entitlementPaused
    else
      j.status.active || ((s.automationFireRetryKind f).isSome && f.state = .entitlementPaused)

-- The fire is to be settled, and it cannot be: the reason that its job has failed for does not fit
-- its row, or the certificate of its job is not the only one or is lost.
def stuck (s : State) (env : Surroundings) (f : Fire) : Bool :=
  f.jobId.any fun k => (s.entry k).any fun (j, d) =>
    (s.connectJobRequiresAutomationEntitlement k || env.entitled) &&
    ((j.status = .failed && s.automationFireRetryKind f = none &&
      128 < j.failureReason.utf8ByteSize) ||
    (j.status = .completed && j.capabilityId = certificateCapabilityId &&
      (1 < (s.certificatesOf k).length || s.undecodable j d (env.reading k))))

omit [Codec] in
theorem automationFireRetryKind_eq (hk : f.jobId = some k) (he : s.entry k = some (j, d)) :
    s.automationFireRetryKind f = automationFailureRetryKind j d := by
  simp [automationFireRetryKind, hk, he]

theorem settleFire_of_idle (hf : s.fires.get id = some f) (hl : f.state.linked)
    (hi : s.idle env f) : s.settleFire env id = .ok s := by
  unfold settleFire
  rw [hf]
  simp only [Option.filter, hl, if_true]
  unfold idle at hi
  cases hk : f.jobId
  case none =>
    rw [hk] at hi
    simp only [decide_eq_true_eq] at hi
    simp only [hi, if_true]
    rfl
  case some k =>
    rw [hk] at hi
    cases hj : s.jobs.get k
    case none => simp [hj] at hi
    case some j =>
      obtain rfl : j.jobId = k := jobId_of_get hj
      simp only [hj, Option.any_some, Bool.and_eq_true, decide_eq_true_eq] at hi
      obtain ⟨hx, hi⟩ := hi
      simp only [hj, settleByJob, hx]
      split at hi
      case isTrue hn =>
        have hi : f.state = .entitlementPaused := by simpa using hi
        rw [if_pos (by simpa using hn)]
        simp only [hi, reduceCtorEq, if_false]
        rfl
      case isFalse hn =>
        rw [if_neg (by simpa using hn)]
        obtain ha | ⟨hr, hp⟩ : j.status.active ∨
            ((s.automationFireRetryKind f).isSome ∧ f.state = .entitlementPaused) := by simpa using hi
        case inl =>
          have hc : j.status ≠ .completed ∧ j.status ≠ .failed := by
            constructor <;> rintro hs <;> simp [hs, JobStatus.active, JobStatus.settled] at ha
          simp only [hc.left, hc.right, if_false, ne_eq, not_false_eq_true, if_true]
          rfl
        case inr =>
          have hs : j.status = .failed := by
            cases hd : s.dispatches.get j.jobId
            case none => simp [automationFireRetryKind, hk, entry, hj, hd] at hr
            case some d =>
              rw [automationFireRetryKind_eq hk (entry_eq_some.mpr ⟨hj, hd⟩)] at hr
              by_contra hs
              simp [automationFailureRetryKind, hs] at hr
          simp only [hs, hr, hp, reduceCtorEq, if_false, if_true, ne_eq, not_true, decide_false,
            Bool.false_and, Bool.false_eq_true]
          rfl

theorem settleFire_of_job (hf : s.fires.get id = some f) (hl : f.state.linked)
    (hk : f.jobId = some k) (hj : s.jobs.get k = some j) :
    s.settleFire env id = s.settleByJob env f j := by
  unfold settleFire
  rw [hf]
  simp only [Option.filter, hl, if_true, hk, hj]

omit [Codec] in
theorem exhaustedRetryKind_of_none (h : s.automationFireRetryKind f = none) :
    s.exhaustedRetryKind f = none := by
  simp [exhaustedRetryKind, h]

-- What `stuck` says of an entry.
theorem stuck_eq_true (hk : f.jobId = some k) (he : s.entry k = some (j, d)) :
    s.stuck env f ↔
      (s.connectJobRequiresAutomationEntitlement k || env.entitled) ∧
      ((j.status = .failed ∧ s.automationFireRetryKind f = none ∧
        128 < j.failureReason.utf8ByteSize) ∨
      (j.status = .completed ∧ j.capabilityId = certificateCapabilityId ∧
        (1 < (s.certificatesOf k).length ∨ s.undecodable j d (env.reading k)))) := by
  simp [stuck, hk, he, and_assoc]

theorem settleFire_of_stuck (hf : s.fires.get id = some f) (hl : f.state.linked)
    (hs : s.stuck env f) : ∃ e, s.settleFire env id = .error e := by
  obtain ⟨k, hk⟩ : ∃ k, f.jobId = some k := by
    cases hk : f.jobId
    case none   => simp [stuck, hk] at hs
    case some k => exact ⟨k, rfl⟩
  obtain ⟨⟨j, d⟩, he⟩ : ∃ x, s.entry k = some x := by
    cases he : s.entry k
    case none   => simp [stuck, hk, he] at hs
    case some x => exact ⟨x, rfl⟩
  obtain ⟨hj, hd⟩ := entry_eq_some.mp he
  obtain rfl : j.jobId = k := jobId_of_get hj
  rw [settleFire_of_job hf hl hk hj]
  obtain ⟨hent, ⟨hst, hnone, hsize⟩ | ⟨hst, hcap, hbad⟩⟩ := (stuck_eq_true hk he).mp hs
  all_goals
    have hn : ¬(!s.connectJobRequiresAutomationEntitlement j.jobId && !env.entitled) = true := by
      simpa [or_iff_not_imp_left] using hent
  case inl =>
    simp only [settleByJob, exhaustedRetryKind_of_none hnone, hn, hst, hnone, reduceCtorEq,
      ne_eq, not_true, if_false, Option.isSome_none, Bool.false_eq_true]
    exact transitionAutomationFire_refuses hsize
  case inr =>
    have hnone : s.automationFireRetryKind f = none := by
      rw [automationFireRetryKind_eq hk he]
      simp [automationFailureRetryKind, hst]
    simp only [settleByJob, exhaustedRetryKind_of_none hnone, hn, hst, hcap, if_true, if_false,
      Bool.false_eq_true]
    obtain ⟨e, hr⟩ := join_raises he hbad
    exact ⟨e, by rw [hr]; rfl⟩

-- A fire that does not wait is settled, unless it is stuck.
theorem settleByJob_settles (hc : Consistent s) (ht : Tied s f)
    (hfresh : ∀ t ∈ s.attempts, t.dispatchRequestId ≠ env.request f.fireId)
    (hf : s.fires.get f.fireId = some f) (hl : f.state.linked) (hk : f.jobId = some j.jobId)
    (he : s.entry j.jobId = some (j, d)) (hi : s.idle env f = false) (hs : s.stuck env f = false) :
    ∃ s', s.settleByJob env f j = .ok s' ∧ Settles f.fireId s s' := by
  obtain ⟨hj, hd⟩ := entry_eq_some.mp he
  have hkind := automationFireRetryKind_eq hk he
  have hs := fun h => Bool.eq_false_iff.mp hs ((stuck_eq_true hk he).mpr h)
  have hdispatch : (s.dispatches.get j.jobId).isSome := by rw [hd]; rfl
  have hpaused : f.state ≠ .submitted → f.state = .entitlementPaused := by
    intro hne
    cases hst : f.state <;> simp_all [FireState.linked]
  simp only [idle, hk, hj, Option.any_some, Bool.and_eq_false_iff, decide_eq_false_iff_not] at hi
  unfold settleByJob
  cases hx : s.exhaustedRetryKind f
  case some kind =>
    exact transitionAutomationFire_releases hf ht.version hl rfl (by cases kind <;> decide)
      (by cases kind <;> decide)
  case none =>
    obtain hi := hi.resolve_left (fun h => h hx)
    dsimp only
    by_cases hn : (!s.connectJobRequiresAutomationEntitlement j.jobId && !env.entitled) = true
    case pos =>
      rw [if_pos hn] at hi
      have hsub : f.state = .submitted := by
        by_contra hne
        simp [hpaused hne] at hi
      rw [if_pos hn, if_pos hsub]
      exact pauseFire_settles hf ht.version hsub hk hdispatch
    case neg =>
      have hent : s.connectJobRequiresAutomationEntitlement j.jobId || env.entitled := by
        simpa [or_iff_not_imp_left] using hn
      rw [if_neg hn, Bool.or_eq_false_iff] at hi
      rw [if_neg hn]
      split
      case isTrue hst =>
        split
        case isTrue hcap =>
          have hone : (s.certificatesOf j.jobId).length ≤ 1 :=
            not_lt.mp fun h => hs ⟨hent, .inr ⟨hst, hcap, .inl h⟩⟩
          have hdec : s.undecodable j d (env.reading j.jobId) = false :=
            Bool.eq_false_iff.mpr fun h => hs ⟨hent, .inr ⟨hst, hcap, .inr h⟩⟩
          obtain ⟨x, hx, hset⟩ := join_settles he (hc.valid he).v2 hcap hst hone hdec hf
            (by simp [Fire.linkedTo, hk, hl])
          exact ⟨x.fst, by rw [hx]; rfl, hset⟩
        case isFalse =>
          exact transitionAutomationFire_releases hf ht.version hl rfl (by decide) (by decide)
      case isFalse hne =>
        have hst : j.status = .failed := by
          cases hst : j.status <;> simp_all [JobStatus.active, JobStatus.settled]
        rw [if_neg (not_not.mpr hst)]
        split
        case isFalse hsome =>
          have hnone : s.automationFireRetryKind f = none := by simpa using hsome
          refine transitionAutomationFire_releases hf ht.version hl rfl j.failureReason_ne ?_
          exact not_lt.mp fun h => hs ⟨hent, .inl ⟨hst, hnone, h⟩⟩
        case isTrue hsome =>
          have hsub : f.state = .submitted := by
            by_contra hne
            simp [hpaused hne, hsome] at hi
          split
          case isTrue => exact pauseFire_settles hf ht.version hsub hk hdispatch
          case isFalse =>
            rw [if_neg (by simp [hsub])]
            obtain ⟨kind, hkind'⟩ := Option.isSome_iff_exists.mp hsome
            have hlt : f.currentAttemptNo < automationFireMaxAttempts := by
              by_contra hle
              simp [exhaustedRetryKind, hkind', Nat.not_lt.mp hle] at hx
            obtain ⟨hno, hsecond⟩ | hno := ht.number
            case inl => exact retry_settles hf hsub hk he (hkind ▸ hkind') hno hsecond hfresh
            case inr =>
              rw [hno] at hlt
              exact absurd hlt (by decide)

namespace Falls

theorem transitionTo {q : FireState} {reason : String} {now : Instant}
    (hf : s.fires.get f.fireId = some f) (hle : q.unsettled ≤ f.state.unsettled)
    (h : s.transitionAutomationFire (f.transitionTo q reason now) = .ok s') : Falls s s' := by
  obtain ⟨_, s₁, _, _, _, _, h₁, h⟩ := transitionAutomationFire_eq_ok h
  generalize hr : f.transitionTo q reason now = r at h h₁
  have hf₁ : s₁.fires = s.fires :=
    (Progress.moveLinkedJob s (.transitionAutomationFire r) h₁).right.left
  have hid : r.fireId = f.fireId := hr ▸ rfl
  have hq : r.nextState = q := hr ▸ rfl
  have hu : Falls s (s₁.updateFire r.fireId r.apply (fireId_transition r)) := by
    refine (of_eq hf₁).trans (update fun g hg hp => ?_)
    have hg' : g.fireId = f.fireId := by simpa [hid] using hp
    rw [hf₁, hg'] at hg
    cases hf.symm.trans hg
    exact show r.nextState.unsettled ≤ _ from hq ▸ hle
  obtain rfl | ⟨_, _, _, h⟩ := h
  case inl => exact hu
  case inr => exact hu.trans (.deleteJobs h)

theorem join {reading : SourceReading}
    (h : s.reconcileCertificateCompletedJoin k reading = .ok (s', j)) : Falls s s' := by
  simp only [reconcileCertificateCompletedJoin, bind_eq_ok, Prod.exists, pure_eq_ok,
    Prod.mk.injEq] at h
  obtain ⟨_, _, _, _, _, s₁, failure, ho, s₂, hok, rfl, _⟩ := h
  exact ((of_eq (joinOutcome_same ho).fires).trans settleByOutcome).trans (.discardSettled hok)

omit [Codec] in
theorem retry {request : String} {version : Nat} {now : Instant}
    (h : s.retryAutomationFireAfterFailure id version request now = .ok s') : Falls s s' := by
  obtain ⟨⟨_, _, _, _, hr⟩, _⟩ := retryAutomationFireAfterFailure_eq_ok h
  intro i g hg
  rw [hr.fires, hg]
  split
  case isTrue  => exact ⟨_, rfl, Nat.zero_le _⟩
  case isFalse => exact ⟨g, rfl, le_rfl⟩

theorem settleByJob (hf : s.fires.get f.fireId = some f) (h : s.settleByJob env f j = .ok s') :
    Falls s s' := by
  unfold State.settleByJob at h
  split at h
  case h_1 => exact transitionTo hf (Nat.zero_le _) h
  case h_2 =>
    split at h
    case isTrue =>
      split at h
      case isTrue hs => exact transitionTo hf (by simp [hs, FireState.unsettled]) h
      case isFalse   => exact of_eq (by rw [pure_eq_ok.mp h])
    case isFalse =>
      split at h
      case isTrue =>
        split at h
        case isTrue =>
          obtain ⟨⟨s₁, j₁⟩, hj, rfl⟩ := map_eq_ok.mp h
          exact join hj
        case isFalse => exact transitionTo hf (Nat.zero_le _) h
      case isFalse =>
        split at h
        case isTrue => exact of_eq (by rw [pure_eq_ok.mp h])
        case isFalse =>
          split at h
          case isFalse => exact transitionTo hf (Nat.zero_le _) h
          case isTrue =>
            split at h
            case isTrue hs =>
              have hs : f.state = .submitted := by simp_all
              exact transitionTo hf (by simp [hs, FireState.unsettled]) h
            case isFalse =>
              split at h
              case isTrue  => exact of_eq (by rw [pure_eq_ok.mp h])
              case isFalse => exact retry h

theorem settleFire (h : s.settleFire env id = .ok s') : Falls s s' := by
  unfold State.settleFire at h
  split at h
  case h_1 => exact of_eq (by rw [pure_eq_ok.mp h])
  case h_2 f hf =>
    have hf : s.fires.get id = some f := (Option.filter_eq_some_iff.mp hf).left
    obtain rfl : f.fireId = id := Table.key_of_get hf
    split at h
    case h_1 =>
      split at h
      case isTrue  => exact of_eq (by rw [pure_eq_ok.mp h])
      case isFalse => cases h
    case h_2 =>
      split at h
      case h_1 => exact transitionTo hf (Nat.zero_le _) h
      case h_2 => exact settleByJob hf h

theorem settleFiresInOrder (s : State) (ids : List String) :
    Falls s (s.settleFiresInOrder env ids).fst := by
  induction ids generalizing s
  case nil => exact refl s
  case cons id ids ih =>
    unfold State.settleFiresInOrder
    split
    case h_1 s₁ h₁ => exact (settleFire h₁).trans (ih s₁)
    case h_2       => exact refl s

end Falls

-- The first of the fires for which there is something to do.
def firstDue (s : State) (env : Surroundings) (ids : List String) : Option Fire :=
  (ids.filterMap s.fires.get).find? fun f => f.state.linked && !s.idle env f

omit [Codec] in
theorem firstDue_eq_some {ids : List String} (h : s.firstDue env ids = some f) :
    s.fires.get f.fireId = some f ∧ f.state.linked ∧ s.idle env f = false := by
  have hp := List.find?_some h
  obtain ⟨id, _, hf⟩ := List.mem_filterMap.mp (List.mem_of_find?_eq_some h)
  obtain rfl : f.fireId = id := Table.key_of_get hf
  exact ⟨hf, by simpa using hp⟩

-- The passes before the first fire that is due leave the store as it is.
theorem settle_firstDue {ids : List String} (h : s.firstDue env ids = some f) :
    ∃ rest, s.settleFiresInOrder env ids =
      s.settleFiresInOrder env (f.fireId :: rest) := by
  induction ids
  case nil => cases h
  case cons id ids ih =>
    have hskip : s.settleFire env id = .ok s → s.firstDue env ids = some f →
        ∃ rest, s.settleFiresInOrder env (id :: ids) =
          s.settleFiresInOrder env (f.fireId :: rest) := by
      intro hs hd
      obtain ⟨rest, hrest⟩ := ih hd
      refine ⟨rest, ?_⟩
      rw [← hrest]
      conv_lhs => unfold settleFiresInOrder
      simp only [hs]
    cases hg : s.fires.get id
    case none =>
      rw [firstDue, List.filterMap_cons_none hg] at h
      refine hskip ?_ h
      unfold settleFire
      rw [hg]
      rfl
    case some g =>
      obtain rfl : g.fireId = id := Table.key_of_get hg
      by_cases hp : (g.state.linked && !s.idle env g) = true
      case pos =>
        simp only [firstDue, List.filterMap_cons_some hg, List.find?_cons, hp] at h
        obtain rfl : g = f := Option.some.inj h
        exact ⟨ids, rfl⟩
      case neg =>
        replace hp := Bool.eq_false_iff.mpr hp
        simp only [firstDue, List.filterMap_cons_some hg, List.find?_cons, hp] at h
        refine hskip ?_ h
        cases hl : g.state.linked
        case false =>
          unfold settleFire
          rw [hg]
          simp only [Option.filter, hl, Bool.false_eq_true, if_false]
          rfl
        case true => exact settleFire_of_idle hg hl (by simpa [hl] using hp)

theorem settle_of_stuck {ids : List String} (h : s.firstDue env ids = some f)
    (hs : s.stuck env f) : (s.settleFiresInOrder env ids).fst = s := by
  obtain ⟨rest, hrest⟩ := settle_firstDue h
  obtain ⟨hf, hl, _⟩ := firstDue_eq_some h
  obtain ⟨e, he⟩ := settleFire_of_stuck hf hl hs
  rw [hrest]
  unfold settleFiresInOrder
  rw [he]

theorem settle_of_not_stuck {ids : List String} (hc : Consistent s) (ht : TiedFires s)
    (hfresh : ∀ id, ∀ t ∈ s.attempts, t.dispatchRequestId ≠ env.request id)
    (h : s.firstDue env ids = some f) (hs : s.stuck env f = false) :
    Settles f.fireId s (s.settleFiresInOrder env ids).fst := by
  obtain ⟨rest, hrest⟩ := settle_firstDue h
  obtain ⟨hf, hl, hi⟩ := firstDue_eq_some h
  have hft := ht.fires _ f hf
  obtain ⟨k, hk⟩ : ∃ k, f.jobId = some k := by
    cases hk : f.jobId
    case some k => exact ⟨k, rfl⟩
    case none =>
      have hp : f.state ≠ .entitlementPaused := by simpa [idle, hk] using hi
      have hsub : f.state ≠ .submitted := fun hsub => hft.submitted hsub hk
      cases hst : f.state <;> simp_all [FireState.linked]
  obtain ⟨⟨j, d⟩, he⟩ := Option.isSome_iff_exists.mp <|
    hft.linked k (by simp [Fire.linkedTo, hk, hl])
  have hj := (entry_eq_some.mp he).left
  obtain rfl : j.jobId = k := jobId_of_get hj
  obtain ⟨s₁, h₁, hset⟩ := settleByJob_settles hc hft (hfresh f.fireId) hf hl hk he hi hs
  rw [hrest]
  unfold settleFiresInOrder
  rw [settleFire_of_job hf hl hk hj, h₁]
  exact hset.after (.settleFiresInOrder s₁ rest)

omit [Codec] in
-- Of the fires that a settlement is due for, one does not wait.
theorem exists_not_idle (env : Surroundings) (ht : TiedFires s) (h : s.automationFireSettlementDue) :
    ∃ f ∈ s.fires, f.state.linked ∧ s.idle env f = false := by
  simp only [automationFireSettlementDue, List.any_eq_true, Bool.and_eq_true] at h
  obtain ⟨f, hf, hl, hjob⟩ := h
  refine ⟨f, hf, hl, ?_⟩
  cases hk : f.jobId
  case none => simp [hk] at hjob
  case some k =>
    obtain ⟨⟨j, d⟩, he⟩ := Option.isSome_iff_exists.mp <|
      (ht.fires _ f (Table.get_of_mem hf)).linked k (by simp [Fire.linkedTo, hk, hl])
    obtain ⟨hj, hd⟩ := entry_eq_some.mp he
    simp only [hk, Option.any_some, hj, hd, Bool.and_eq_true, Bool.or_eq_true,
      decide_eq_true_eq] at hjob
    obtain ⟨hst, hdue⟩ := hjob
    have hactive : j.status.active = false := by simp [hst]
    simp only [idle, hk, hj, Option.any_some, hactive, Bool.false_or]
    by_cases hsub : f.state = .submitted
    case pos => simp [hsub]
    case neg =>
      replace hdue := hdue.resolve_left hsub
      cases hkind : s.automationFireRetryKind f
      case some kind =>
        have hmax : automationFireMaxAttempts ≤ f.currentAttemptNo := by simpa [hkind] using hdue
        simp [exhaustedRetryKind, hkind, hmax]
      case none =>
        have hreq : s.connectJobRequiresAutomationEntitlement k := by
          rw [hkind] at hdue
          simp only [Bool.not_or, Bool.not_not, Bool.and_eq_true] at hdue
          simpa [connectJobRequiresAutomationEntitlement, hd, and_comm] using hdue
        simp [hreq]

end Passes

-- The state of some fire is not what it was.
def Changes (s s' : State) : Prop :=
  ∃ id, (s'.fires.get id).map (·.state) ≠ (s.fires.get id).map (·.state)

theorem Settles.changes (h : Settles id s s') : Changes s s' := by
  obtain ⟨_, f, f', hf, hf', hlt⟩ := h
  refine ⟨id, fun heq => ?_⟩
  rw [hf, hf', Option.map_some, Option.map_some] at heq
  rw [Option.some.inj heq] at hlt
  exact lt_irrefl _ hlt

theorem not_changes (s : State) : ¬Changes s s :=
  fun ⟨_, h⟩ => h rfl

-- `order` are the fires of the store in some order.
def Orders (s : State) (order : List String) : Prop :=
  order.Perm (s.fires.rows.map (·.fireId))

instance (s : State) (order : List String) : Decidable (s.Orders order) :=
  inferInstanceAs (Decidable (List.Perm _ _))

-- The fires that are submitted or paused.
def linkedFires (s : State) : List Fire :=
  s.fires.rows.filter (·.state.linked)

def linkedInOrder (s : State) (order : List String) : List String :=
  order.filter fun id => (s.fires.get id).any (·.state.linked)

theorem FireState.mem_linked {q : FireState} :
    q ∈ [FireState.submitted, .entitlementPaused] ↔ q.linked := by
  cases q <;> decide

theorem Orders.length_linkedInOrder {order : List String} (h : s.Orders order) :
    (s.linkedInOrder order).length = s.linkedFires.length := by
  have hp : (s.linkedInOrder order).Perm ((s.fires.rows.map (·.fireId)).filter _) := h.filter _
  rw [hp.length_eq, List.filter_map, List.length_map, linkedFires]
  refine congrArg List.length (List.filter_congr fun f hf => ?_)
  have hg : s.fires.get f.fireId = some f := Table.get_of_mem hf
  rw [Function.comp_apply, hg, Option.any_some]

theorem Orders.mem_of_mem {order : List String} (h : s.Orders order) (hf : f ∈ s.fires) :
    f.fireId ∈ order :=
  h.mem_iff.mpr (List.mem_map_of_mem hf)

-- A limit that is large enough is no limit, as long as it is allowed.
theorem automationFiresInStates_linked {order : List String} {limit : Int} (h : s.Orders order)
    (h₁ : 1 ≤ limit) (hl : s.linkedFires.length ≤ limit) :
    s.automationFiresInStates order [.submitted, .entitlementPaused] limit =
      if limit ≤ connectQueueMaxJobs then .ok (s.linkedInOrder order)
      else .error (.value "Automation fire query boundary is invalid") := by
  have hsame : (order.filter fun id => (s.fires.get id).any
      (·.state ∈ [FireState.submitted, .entitlementPaused])) = s.linkedInOrder order := by
    simp only [linkedInOrder, FireState.mem_linked, Bool.decide_eq_true]
  have hlen : (s.linkedInOrder order).length ≤ limit.toNat := by
    have := h.length_linkedInOrder
    omega
  unfold automationFiresInStates require
  rw [hsame, List.take_of_length_le hlen]
  by_cases hle : limit ≤ connectQueueMaxJobs <;> simp [h₁, hle, bind, Except.bind, pure, Except.pure]

theorem settleSubmittedAutomationFires_fst [Codec] {env : Surroundings} {order : List String}
    {limit : Int} (h : s.Orders order) (h₁ : 1 ≤ limit) (hl : s.linkedFires.length ≤ limit) :
    (s.settleSubmittedAutomationFires env order limit).fst =
      if limit ≤ connectQueueMaxJobs then (s.settleFiresInOrder env (s.linkedInOrder order)).fst
      else s := by
  unfold settleSubmittedAutomationFires
  rw [automationFiresInStates_linked h h₁ hl]
  by_cases hle : limit ≤ connectQueueMaxJobs
  case pos => rw [if_pos hle, if_pos hle]
  case neg => rw [if_neg hle, if_neg hle]

theorem firstDue_linkedInOrder [Codec] (s : State) (env : Surroundings) (order : List String) :
    s.firstDue env (s.linkedInOrder order) = s.firstDue env order := by
  unfold firstDue linkedInOrder
  induction order
  case nil => rfl
  case cons id order ih =>
    cases hg : s.fires.get id
    case none =>
      rw [List.filter_cons_of_neg (by simp [hg]), List.filterMap_cons_none hg, ih]
    case some g =>
      rw [List.filterMap_cons_some hg]
      cases hl : g.state.linked
      case false => rw [List.filter_cons_of_neg (by simp [hg, hl]), ih, List.find?_cons_of_neg (by simp [hl])]
      case true =>
        rw [List.filter_cons_of_pos (by simp [hg, hl]), List.filterMap_cons_some hg]
        simp only [List.find?_cons, ih]

theorem Orders.firstDue [Codec] {env : Surroundings} {order : List String} (h : s.Orders order)
    (ht : TiedFires s) (hd : s.automationFireSettlementDue) :
    ∃ f, s.firstDue env order = some f := by
  obtain ⟨f, hf, hl, hi⟩ := exists_not_idle env ht hd
  refine Option.isSome_iff_exists.mp (List.find?_isSome.mpr ⟨f, ?_, by simp [hl, hi]⟩)
  exact List.mem_filterMap.mpr ⟨f.fireId, h.mem_of_mem hf, Table.get_of_mem hf⟩

theorem one_le_length_linkedFires (h : s.automationFireSettlementDue) :
    1 ≤ s.linkedFires.length := by
  simp only [automationFireSettlementDue, List.any_eq_true, Bool.and_eq_true] at h
  obtain ⟨f, hf, hl, _⟩ := h
  exact List.length_pos_of_mem (List.mem_filter.mpr ⟨hf, hl⟩)

end State

-- A settlement that is due changes a fire, exactly if its limit is allowed, and the first fire that
-- does not wait can be settled.
theorem settlement_progress [Codec] (as : List Action) (env : Surroundings) (order : List String)
    (limit : Int) (horder : (machine.run ∅ as).Orders order)
    (hlimit : (machine.run ∅ as).linkedFires.length ≤ limit)
    (hfresh : ∀ id, ∀ t ∈ (machine.run ∅ as).attempts, t.dispatchRequestId ≠ env.request id) :
    ((machine.run ∅ as).automationFireSettlementDue →
      Changes (machine.run ∅ as)
        ((machine.run ∅ as).settleSubmittedAutomationFires env order limit).fst) ↔
    ((machine.run ∅ as).automationFireSettlementDue → limit ≤ connectQueueMaxJobs ∧ ∀ f,
      (machine.run ∅ as).firstDue env order = some f →
      (machine.run ∅ as).stuck env f = false) := by
  have ht := run_tied as
  have hc := run_consistent as
  have h₁ : (machine.run ∅ as).automationFireSettlementDue → 1 ≤ limit := by
    intro hd
    have := one_le_length_linkedFires hd
    omega
  constructor
  case mp =>
    intro h hd
    have hchanges := h hd
    rw [settleSubmittedAutomationFires_fst horder (h₁ hd) hlimit] at hchanges
    split at hchanges
    case isFalse => exact absurd hchanges (not_changes _)
    case isTrue hle =>
      refine ⟨hle, fun f hf => ?_⟩
      by_contra hs
      rw [settle_of_stuck (firstDue_linkedInOrder _ env order ▸ hf) (by simpa using hs)] at hchanges
      exact not_changes _ hchanges
  case mpr =>
    intro h hd
    obtain ⟨hle, hs⟩ := h hd
    obtain ⟨f, hf⟩ := horder.firstDue ht hd
    rw [settleSubmittedAutomationFires_fst horder (h₁ hd) hlimit, if_pos hle]
    exact (settle_of_not_stuck hc ht hfresh (firstDue_linkedInOrder _ env order ▸ hf) (hs f hf)).changes

namespace Sample

def surroundings : Surroundings where
  entitled  := true
  reading _ := .withheld
  request _ := secondJobId
  now       := 2 * Instant.second

-- A code of 128 characters that take two bytes each.
def accented : ProviderError where
  code      := some (String.ofList (List.replicate 128 'é'))
  message   := some "The provider failed."
  retryable := false

end Sample

open Sample in
theorem settlement_progress_busy :
    (machine.run ∅ (failed busy)).automationFireSettlementDue ∧
    Changes (machine.run ∅ (failed busy))
      ((machine.run ∅ (failed busy)).settleSubmittedAutomationFires surroundings [fireId] 1).fst := by
  have hdue : (machine.run ∅ (failed busy)).automationFireSettlementDue := by decide +kernel
  refine ⟨hdue, (settlement_progress (failed busy) surroundings [fireId] 1 ?_ ?_ ?_).mpr ?_ hdue⟩
  · decide +kernel
  · decide +kernel
  · have h : ∀ t ∈ (machine.run ∅ (failed busy)).attempts.rows,
        t.dispatchRequestId ≠ secondJobId := by decide +kernel
    exact fun _ t ht => h t ht
  · refine fun _ => ⟨by decide, fun f hf => ?_⟩
    have h : ((machine.run ∅ (failed busy)).firstDue surroundings [fireId]).all fun f =>
        !(machine.run ∅ (failed busy)).stuck surroundings f := by decide +kernel
    rw [hf] at h
    simpa using h

open Sample in
theorem not_settlement_progress_accented :
    (machine.run ∅ (failed accented)).Orders [fireId] ∧
    (machine.run ∅ (failed accented)).linkedFires.length ≤ 1 ∧
    (machine.run ∅ (failed accented)).automationFireSettlementDue ∧
    ¬Changes (machine.run ∅ (failed accented)) ((machine.run ∅ (failed accented)).settleSubmittedAutomationFires
      surroundings [fireId] 1).fst := by
  refine ⟨by decide +kernel, by decide +kernel, by decide +kernel, ?_⟩
  have hs : ((machine.run ∅ (failed accented)).firstDue surroundings [fireId]).any fun f =>
      (machine.run ∅ (failed accented)).stuck surroundings f := by decide +kernel
  have hpass : (machine.run ∅ (failed accented)).automationFiresInStates [fireId]
      [.submitted, .entitlementPaused] 1 = .ok [fireId] := by decide +kernel
  unfold settleSubmittedAutomationFires
  rw [hpass]
  cases hf : (machine.run ∅ (failed accented)).firstDue surroundings [fireId]
  case none => simp [hf] at hs
  case some f =>
    dsimp only
    rw [settle_of_stuck hf (by simpa [hf] using hs)]
    exact not_changes _

end Connect
