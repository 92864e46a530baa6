import EmailWatcher.Library.Stopwatch
import EmailWatcher.Connect.Dispatch

-- The accounting of the time for which the admission deadline of a job is paused.
namespace Connect

open Transaction State Stopwatch

variable {s s' s₁ s₂ s₃ : State} {a : Action} {k id : String} {j j' : Job} {d d' : Dispatch}
variable {now : Instant}

-- The time that a resume adds to the deadline.
def pausedTime (now pausedAt : Instant) : Int :=
  now.elapsedSeconds pausedAt * Instant.second

def Dispatch.clock (d : Dispatch) : Clock Instant Int where
  deadline := d.admissionDeadline
  pausedAt := d.automationPausedAt

namespace State

-- Of the jobs that are left, the clocks have moved as `g` says.
def Clocks (g : String → Clock Instant Int → Clock Instant Int) (s s' : State) : Prop :=
  ∀ k d', s'.dispatches.get k = some d' →
    ∃ d, s.dispatches.get k = some d ∧ d'.clock = g k d.clock

def SameClocks : State → State → Prop :=
  Clocks fun _ c => c

namespace Clocks

variable {g g₁ g₂ : String → Clock Instant Int → Clock Instant Int}

theorem trans (h₁ : Clocks g₁ s₁ s₂) (h₂ : Clocks g₂ s₂ s₃) :
    Clocks (fun k c => g₂ k (g₁ k c)) s₁ s₃ := by
  intro k d₃ hd₃
  obtain ⟨d₂, hd₂, hc₂⟩ := h₂ k d₃ hd₃
  obtain ⟨d₁, hd₁, hc₁⟩ := h₁ k d₂ hd₂
  exact ⟨d₁, hd₁, by rw [hc₂, hc₁]⟩

theorem updateDispatch {f : Dispatch → Dispatch} {hf} {c : Clock Instant Int → Clock Instant Int}
    (h : ∀ d, (f d).clock = c d.clock) :
    Clocks (fun k clock => if k = id then c clock else clock) s (s.updateDispatch id f hf) := by
  intro k d' hd'
  rw [dispatches_updateDispatch] at hd'
  split at hd'
  case isTrue hk =>
    obtain ⟨d, hd, rfl⟩ := Option.map_eq_some_iff.mp hd'
    exact ⟨d, hd, by simp [hk, h]⟩
  case isFalse hk => exact ⟨d', hd', by simp [hk]⟩

end Clocks

namespace SameClocks

theorem of_eq (h : s'.dispatches = s.dispatches) : SameClocks s s' := by
  intro k d hd
  exact ⟨d, h ▸ hd, rfl⟩

theorem refl (s : State) : SameClocks s s :=
  of_eq rfl

theorem trans (h₁ : SameClocks s₁ s₂) (h₂ : SameClocks s₂ s₃) : SameClocks s₁ s₃ :=
  Clocks.trans h₁ h₂

theorem updateDispatch {f : Dispatch → Dispatch} {hf} (h : ∀ d, (f d).clock = d.clock) :
    SameClocks s (s.updateDispatch id f hf) := by
  have hc : Clocks (fun k c => if k = id then c else c) s (s.updateDispatch id f hf) :=
    Clocks.updateDispatch h
  simp only [ite_self] at hc
  exact hc

theorem update_dispatches {p : Dispatch → Bool} {f : Dispatch → Dispatch} {hf}
    (h : ∀ d, (f d).clock = d.clock) :
    SameClocks s { s with dispatches := s.dispatches.update p f hf } := by
  intro k d' hd'
  rw [Table.get_update] at hd'
  obtain ⟨d, hd, rfl⟩ := Option.map_eq_some_iff.mp hd'
  refine ⟨d, hd, ?_⟩
  split
  case isTrue  => exact h d
  case isFalse => rfl

theorem deleteJob {old : Job} (h : s.deleteJob old = .ok s') : SameClocks s s' := by
  intro k d hd
  have hr := row_deleteJob (k := k) h
  split at hr
  case isTrue => simp [row, hd] at hr
  case isFalse => exact ⟨d, (Prod.mk.inj hr).right ▸ hd, rfl⟩

theorem deleteJobs {p : Job → Bool} (h : s.deleteJobs p = .ok s') : SameClocks s s' :=
  foldlM_relation (.refl ·) (fun _ _ _ => trans) (fun _ _ _ _ => deleteJob) h

theorem expireWaitingConnectJobs (s : State) (now : Instant) :
    SameClocks s (s.expireWaitingConnectJobs now) := by
  intro k d' hd'
  rw [State.expireWaitingConnectJobs, dispatches_expireJobs] at hd'
  obtain ⟨d, hd, rfl⟩ := Option.map_eq_some_iff.mp hd'
  refine ⟨d, hd, ?_⟩
  split <;> rfl

theorem invalidateConnectSource {m : String} (h : s.invalidateConnectSource m = .ok s') :
    SameClocks s s' := by
  simp only [State.invalidateConnectSource, bind_eq_ok, pure_eq_ok] at h
  obtain ⟨s₁, h₁, rfl⟩ := h
  exact (deleteJobs h₁).trans <| update_dispatches fun _ => rfl

theorem markSourcesUnavailable {ms : List String} (h : s.markSourcesUnavailable ms = .ok s') :
    SameClocks s s' := by
  refine foldlM_relation (.refl ·) (fun _ _ _ => trans) ?_ h
  intro s m _ s' h
  refine trans ?_ (invalidateConnectSource h)
  exact of_eq rfl

theorem deleteMessage {m : String} (h : s.deleteMessage m = .ok s') : SameClocks s s' := by
  refine trans ?_ (invalidateConnectSource h)
  exact of_eq rfl

theorem settleCertificate {p : Fire → Bool} {failure : Option CertificateFailure}
    (h : s.settleCertificate id p failure = .ok s') : SameClocks s s' := by
  have hs : SameClocks s (s.settleByOutcome p failure) := by cases failure <;> exact of_eq rfl
  obtain rfl | ⟨_, _, _, _, _, h₁, _, rfl⟩ := discardSettledSourceLessCertificateJob_eq_ok h
  case inl => exact hs
  case inr =>
    refine hs.trans <| (deleteJob h₁).trans ?_
    cases failure <;> exact of_eq rfl

variable [Codec]

theorem transitionConnectJob {r : Transition} {target : Bool} {reading : SourceReading}
    (h : s.transitionConnectJob r target reading = .ok (s', j')) : SameClocks s s' := by
  obtain ⟨j, v, s₁, outcome, _, _, ho, h⟩ := transitionConnectJob_eq_ok h
  refine trans (of_eq (certificateOutcome_same ho).dispatches) ?_
  obtain ⟨_, h⟩ | ⟨_, h⟩ := h
  case inl =>
    refine trans ?_ (deleteJob h)
    exact of_eq rfl
  case inr =>
    obtain ⟨_, h⟩ := recordTransition_eq_ok.mp h
    have hw : SameClocks s₁ (s₁.writeTransition r v j.protocolVersion) := by
      unfold writeTransition
      split
      case isTrue =>
        have hj : SameClocks s₁ (s₁.updateJob r.jobId (r.applyJob v)) := of_eq rfl
        exact hj.trans <| updateDispatch fun _ => rfl
      case isFalse => exact of_eq rfl
    refine hw.trans ?_
    cases outcome
    case none => exact pure_eq_ok.mp h ▸ refl _
    case some => exact settleCertificate h

theorem reconcileCertificateCompletedReplay {lane : Lane} {result : String}
    (h : s.reconcileCertificateCompletedReplay id lane result = .ok (s', j')) :
    SameClocks s s' := by
  simp only [State.reconcileCertificateCompletedReplay, bind_eq_ok, Prod.exists] at h
  obtain ⟨j, d, _, _, _, h⟩ := h
  split at h
  case h_1 =>
    obtain ⟨s₁, h₁, h⟩ := bind_eq_ok.mp h
    cases pure_eq_ok.mp h
    simp only [State.replayUnprojected, bind_eq_ok, Prod.exists] at h₁
    obtain ⟨_, _, _, h₁⟩ := h₁
    split at h₁
    case isTrue =>
      refine trans ?_ (settleCertificate h₁)
      exact updateDispatch fun _ => rfl
    case isFalse =>
      obtain ⟨_, _, h₁⟩ := bind_eq_ok.mp h₁
      exact settleCertificate h₁
  case h_2 =>
    obtain ⟨outcome, _, h⟩ := bind_eq_ok.mp h
    cases outcome
    case none =>
      cases pure_eq_ok.mp h
      exact refl _
    case some failure =>
      obtain ⟨s₁, h₁, h⟩ := bind_eq_ok.mp h
      cases pure_eq_ok.mp h
      refine trans ?_ (settleCertificate h₁)
      exact of_eq rfl
  case h_3 => simp at h

theorem reconcileCertificateCompletedJoin {reading : SourceReading}
    (h : s.reconcileCertificateCompletedJoin id reading = .ok (s', j')) : SameClocks s s' := by
  simp only [State.reconcileCertificateCompletedJoin, bind_eq_ok, Prod.exists, pure_eq_ok,
    Prod.mk.injEq] at h
  obtain ⟨j, d, _, _, _, s₁, failure, ho, s₂, hok, rfl, _⟩ := h
  exact trans (of_eq (joinOutcome_same ho).dispatches) (settleCertificate hok)

end SameClocks

-- The statements that pause or resume a clock.
section Clock

theorem clocks_resumeAutomationDispatch (h : s.resumeAutomationDispatch id now = .ok s') :
    Clocks (fun k c => if k = id then c.apply pausedTime (.resumed now) else c) s s' := by
  simp only [resumeAutomationDispatch, bind_eq_ok, find_eq_ok] at h
  obtain ⟨d, hd, h⟩ := h
  intro k d' hd'
  by_cases hk : k = id
  case neg =>
    simp only [hk, if_false]
    split at h <;> simp only [pure_eq_ok] at h <;> subst h
    case h_1 => exact ⟨d', hd', rfl⟩
    case h_2 => exact ⟨d', by simpa [dispatches_updateDispatch, hk] using hd', rfl⟩
  case pos =>
    subst hk
    refine ⟨d, hd, ?_⟩
    simp only [if_true, Clock.apply, Dispatch.clock]
    split at h <;> simp only [pure_eq_ok] at h <;> subst h
    case h_1 hp =>
      cases hd.symm.trans hd'
      simp [hp]
    case h_2 pausedAt hp =>
      simp only [dispatches_updateDispatch, if_true, hd, Option.map_some, Option.some.injEq] at hd'
      subst hd'
      simp [hp, pausedTime]

theorem clocks_pauseDispatch (h : s.pauseDispatch id now = .ok s') :
    Clocks (fun k c =>
      if k = id ∧ s.connectJobRequiresAutomationEntitlement id
      then c.apply pausedTime (.paused now) else c) s s' := by
  simp only [pauseDispatch, bind_eq_ok, find_eq_ok, pure_eq_ok] at h
  obtain ⟨_, _, rfl⟩ := h
  split
  case isTrue hr =>
    simp only [hr, and_true]
    exact Clocks.updateDispatch fun _ => rfl
  case isFalse hr =>
    simp only [hr, Bool.false_eq_true, and_false, if_false]
    exact SameClocks.refl s

theorem clocks_deferDispatch {r : Deferral} (h : s.deferDispatch r = .ok s') :
    Clocks (fun k c =>
      if k = r.jobId ∧ r.pauseAutomationDeadline
      then c.apply pausedTime (.paused r.now) else c) s s' := by
  obtain ⟨j, d, _, _, rfl⟩ := deferDispatch_eq_ok h
  have hf : ∀ d, (r.apply d).clock = if r.pauseAutomationDeadline
      then d.clock.apply pausedTime (.paused r.now) else d.clock := by
    intro d
    simp only [Deferral.apply, Dispatch.clock, Clock.apply]
    split <;> rfl
  have hu : Clocks (fun k c => if k = r.jobId then
      if r.pauseAutomationDeadline then c.apply pausedTime (.paused r.now) else c else c) s
      (s.updateDispatch r.jobId r.apply (jobId_deferred r)) :=
    Clocks.updateDispatch hf
  simp only [← ite_and] at hu
  split <;> exact hu

theorem clocks_deferConnectJob {r : Deferral} (h : s.deferConnectJob r = .ok (s', d)) :
    Clocks (fun k c =>
      if k = r.jobId ∧ r.pauseAutomationDeadline
      then c.apply pausedTime (.paused r.now) else c) s s' := by
  obtain ⟨s₁, h₁, rfl⟩ := deferConnectJob_eq_ok h
  have hd := clocks_deferDispatch h₁
  split
  case isTrue  => exact hd.trans <| SameClocks.expireWaitingConnectJobs s₁ r.now
  case isFalse => exact hd

end Clock

end State

-- The pause or resume that an action asks for, and the job whose deadline it concerns. An action on
-- a job that is authorized interactively does not pause it, and a settled job is not resumed.
def pauseEvent [Codec] (s : State) : Action → Option (String × Event Instant)
  | .transitionAutomationFire r =>
    match r.nextState, (s.fires.get r.fireId).bind r.job with
    | .submitted,         some id => some (id, .resumed r.now)
    | .entitlementPaused, some id =>
      if s.connectJobRequiresAutomationEntitlement id then some (id, .paused r.now) else none
    | _,                  _       => none
  | .deferConnectJob r =>
    if r.pauseAutomationDeadline then some (r.jobId, .paused r.now) else none
  | .authorizeConnectJobInteractively id now =>
    if (s.jobs.get id).any (·.status.active) then some (id, .resumed now) else none
  | .resumeAutomationFireJob fireId _ now =>
    (s.fires.get fireId).bind (·.jobId) |>.map (·, .resumed now)
  | _ => none

def pauseEvents [Codec] (s : State) (a : Action) (k : String) : List (Event Instant) :=
  match pauseEvent s a with
  | some (id, e) => if k = id then [e] else []
  | none         => []

-- A new job starts with a clock that runs.
theorem State.Creates.clock {r : JobRequest} {fingerprint : String} {m : State}
    (h : Creates r fingerprint m s') (hs : SameClocks s m)
    (hn : m.jobs.get r.jobId = none → s.dispatches.get r.jobId = none)
    (hd' : s'.dispatches.get k = some d') :
    (s.dispatches.get k = none ∧ d'.automationPausedAt = none) ∨
    ∃ d, s.dispatches.get k = some d ∧ d'.clock = d.clock := by
  rw [h.dispatches] at hd'
  split at hd'
  case isTrue hk =>
    cases hd'
    exact .inl ⟨hk.right ▸ hn h.fresh, rfl⟩
  case isFalse => exact .inr (hs k d' hd')

theorem Consistent.dispatch_eq_none (hc : Consistent s) (h : s.jobs.get k = none) :
    s.dispatches.get k = none := by
  cases hd : s.dispatches.get k
  case none => rfl
  case some d =>
    obtain ⟨j, he⟩ := hc.owned hd
    simp [(entry_eq_some.mp he).left] at h

section Step

variable [Codec]

-- The clocks have moved by the pause or resume that the action asks for.
def Accounts (s : State) (a : Action) (s' : State) : Prop :=
  Clocks (fun k c => c.after pausedTime (pauseEvents s a k)) s s'

namespace Accounts

theorem of_event {e : Event Instant} (h : pauseEvent s a = some (id, e))
    (hc : Clocks (fun k c => if k = id then c.apply pausedTime e else c) s s') :
    Accounts s a s' := by
  intro k d' hd'
  obtain ⟨d, hd, hc⟩ := hc k d' hd'
  refine ⟨d, hd, hc.trans ?_⟩
  simp only [pauseEvents, h]
  split <;> rfl

theorem of_same (h : pauseEvent s a = none) (hc : SameClocks s s') : Accounts s a s' := by
  intro k d' hd'
  obtain ⟨d, hd, hc⟩ := hc k d' hd'
  exact ⟨d, hd, hc.trans <| by simp [pauseEvents, h, Clock.after]⟩

theorem transitionAutomationFire {r : FireTransition} (h : s.transitionAutomationFire r = .ok s') :
    Accounts s (.transitionAutomationFire r) s' := by
  obtain ⟨f, s₁, _, hf, _, _, h₁, h⟩ := transitionAutomationFire_eq_ok h
  have hs : SameClocks s₁ s' := by
    obtain rfl | ⟨_, _, _, h⟩ := h
    case inl => exact .of_eq rfl
    case inr =>
      refine .trans ?_ (.deleteJobs h)
      exact .of_eq rfl
  have hm : Accounts s (.transitionAutomationFire r) s₁ := by
    unfold State.moveLinkedJob at h₁
    split at h₁
    case h_1 => simp at h₁
    case h_2 id hn hj =>
      obtain ⟨s₂, h₂, h₁⟩ := bind_eq_ok.mp h₁
      obtain ⟨_, _, _, rfl⟩ := bindAttempt_eq_ok h₁
      have hc := (clocks_resumeAutomationDispatch h₂).trans <| SameClocks.of_eq rfl
      exact of_event (by simp [pauseEvent, hf, hn, hj]) hc
    case h_3 hn =>
      obtain ⟨_, _, h₁⟩ := bind_eq_ok.mp h₁
      cases pure_eq_ok.mp h₁
      exact of_same (by simp [pauseEvent, hn]) (.refl _)
    case h_4 id hn hj =>
      have hp := clocks_pauseDispatch h₁
      by_cases hr : s.connectJobRequiresAutomationEntitlement id
      case pos =>
        simp only [hr, and_true] at hp
        exact of_event (by simp [pauseEvent, hf, hn, hj, hr]) hp
      case neg =>
        simp only [hr, Bool.false_eq_true, and_false, if_false] at hp
        exact of_same (by simp [pauseEvent, hf, hn, hj, hr]) hp
    case h_5 h₁' h₂' h₃' h₄' =>
      cases pure_eq_ok.mp h₁
      refine of_same ?_ (.refl _)
      simp only [pauseEvent, hf, Option.bind_some]
  exact hm.trans hs

theorem deferConnectJob {r : Deferral} (h : s.deferConnectJob r = .ok (s', d)) :
    Accounts s (.deferConnectJob r) s' := by
  have hc := clocks_deferConnectJob h
  by_cases hp : r.pauseAutomationDeadline
  case pos =>
    simp only [hp, and_true] at hc
    exact of_event (by simp [pauseEvent, hp]) hc
  case neg =>
    simp only [hp, Bool.false_eq_true, and_false, if_false] at hc
    exact of_same (by simp [pauseEvent, hp]) hc

theorem authorizeConnectJobInteractively
    (h : s.authorizeConnectJobInteractively id now = .ok (s', j')) :
    Accounts s (.authorizeConnectJobInteractively id now) s' := by
  simp only [State.authorizeConnectJobInteractively, bind_eq_ok, find_eq_ok, Prod.exists] at h
  obtain ⟨j, d, he, h⟩ := h
  have hj := (entry_eq_some.mp (Option.filter_eq_some_iff.mp he).left).left
  split at h
  case isTrue hs =>
    cases pure_eq_ok.mp h
    exact of_same (by simp [pauseEvent, hj, hs]) (.refl _)
  case isFalse hs =>
    obtain ⟨s₁, h₁, h⟩ := bind_eq_ok.mp h
    cases pure_eq_ok.mp h
    have hi : SameClocks s (s.updateDispatch id fun d =>
        { d with interactiveAuthorizedAt := d.interactiveAuthorizedAt.or (some now) }) :=
      .updateDispatch fun _ => rfl
    have hc := Clocks.trans hi <| clocks_resumeAutomationDispatch h₁
    exact of_event (by simp [pauseEvent, hj, hs]) hc

theorem resumeAutomationFireJob {version : Nat}
    (h : s.resumeAutomationFireJob id version now = .ok s') :
    Accounts s (.resumeAutomationFireJob id version now) s' := by
  simp only [State.resumeAutomationFireJob, bind_eq_ok, find_eq_ok, pure_eq_ok] at h
  obtain ⟨f, hf, _, _, jobId, hj, s₁, h₁, rfl⟩ := h
  have hc := (clocks_resumeAutomationDispatch h₁).trans <| SameClocks.of_eq rfl
  exact of_event (by simp [pauseEvent, hf, hj]) hc

end Accounts

-- All that an action can do to the clocks of jobs, short of creating one.
theorem step_accounts (h : step s a = .ok s')
    (hn : ∀ r content attachment, a ≠ .createConnectJob r content attachment) :
    Accounts s a s' := by
  cases a <;> simp only [step, map_eq_ok, Except.ok.injEq, Prod.exists, exists_and_right,
    exists_eq_right] at h
  case createConnectJob => exact absurd rfl (hn _ _ _)
  case createAutomationFire =>
    obtain ⟨s₁, h₁, h₂⟩ := bind_eq_ok.mp h
    obtain ⟨_, _, rfl⟩ := insertFire_eq_ok h₁
    obtain ⟨_, _, rfl⟩ := insertAttempt_eq_ok h₂
    exact .of_same rfl (.of_eq rfl)
  case claimConnectLaneHead lane expected content now =>
    refine .of_same rfl ?_
    have he := SameClocks.expireWaitingConnectJobs s now
    cases s.claimConnectLaneHead_cases lane expected content now
    case inl heq => exact h ▸ heq ▸ he
    case inr heq =>
      obtain ⟨j, d, _, heq⟩ := heq
      rw [← h, heq]
      exact he.trans <| .updateDispatch fun _ => rfl
  case deferConnectJob =>
    obtain ⟨d, h⟩ := h
    exact .deferConnectJob h
  case expireWaitingConnectJobs now => exact .of_same rfl (h ▸ .expireWaitingConnectJobs s now)
  case transitionConnectJob =>
    obtain ⟨j, h⟩ := h
    exact .of_same rfl (.transitionConnectJob h)
  case resetConnectJobForResubmission id _ _ _ =>
    obtain ⟨j, h⟩ := h
    refine .of_same rfl ?_
    obtain ⟨j, _, _, ⟨_, rfl⟩ | ⟨_, d, _, _, rfl⟩⟩ := resetConnectJobForResubmission_eq_ok h
    case inl => exact .of_eq rfl
    case inr =>
      have hu : SameClocks s (s.updateDispatch id resetDispatch) := .updateDispatch fun _ => rfl
      exact hu.trans <| .of_eq rfl
  case reconcileCertificateCompletedReplay =>
    obtain ⟨j, h⟩ := h
    exact .of_same rfl (.reconcileCertificateCompletedReplay h)
  case reconcileCertificateCompletedJoin =>
    obtain ⟨j, h⟩ := h
    exact .of_same rfl (.reconcileCertificateCompletedJoin h)
  case transitionAutomationFire => exact .transitionAutomationFire h
  case decideAutomationFire =>
    refine .of_same rfl ?_
    simp only [State.decideAutomationFire, bind_eq_ok] at h
    obtain ⟨_, _, f, _, _, _, h⟩ := h
    split at h
    all_goals
      obtain ⟨_, _, h⟩ := bind_eq_ok.mp h
      cases pure_eq_ok.mp h
      exact .of_eq rfl
  case pauseInteractiveJobAutomationFires =>
    simp only [State.pauseInteractiveJobAutomationFires, bind_eq_ok, pure_eq_ok] at h
    obtain ⟨_, _, _, _, h⟩ := h
    exact .of_same rfl (h ▸ .of_eq rfl)
  case authorizeConnectJobInteractively =>
    obtain ⟨j, h⟩ := h
    exact .authorizeConnectJobInteractively h
  case resumeAutomationFireJob => exact .resumeAutomationFireJob h
  case retryAutomationFireAfterFailure =>
    simp only [State.retryAutomationFireAfterFailure, bind_eq_ok, pure_eq_ok] at h
    obtain ⟨_, _, _, _, _, _, _, _, s₁, h₁, h⟩ := h
    obtain ⟨_, _, rfl⟩ := insertAttempt_eq_ok h₁
    exact .of_same rfl (h ▸ .of_eq rfl)
  case markSourcesUnavailable => exact .of_same rfl (.markSourcesUnavailable h)
  case deleteMessage => exact .of_same rfl (.deleteMessage h)

omit [Codec] in
theorem createConnectJob_clock (hc : Consistent s) {r : JobRequest} {content attachment : Bool}
    (h : s.createConnectJob r content attachment = .ok (s', j))
    (hd' : s'.dispatches.get k = some d') :
    (s.dispatches.get k = none ∧ d'.automationPausedAt = none) ∨
    ∃ d, s.dispatches.get k = some d ∧ d'.clock = d.clock := by
  have hx := SameClocks.expireWaitingConnectJobs s r.now
  obtain ⟨_, fingerprint, hcr⟩ | ⟨_, rfl | ⟨fingerprint, hcr⟩⟩ := createConnectJob_eq_ok h
  case inl => exact hcr.clock (.refl s) hc.dispatch_eq_none hd'
  case inr.inl => exact .inr <| hx k d' hd'
  case inr.inr =>
    refine hcr.clock hx (fun hn => ?_) hd'
    exact hc.dispatch_eq_none <| jobs_expireWaitingConnectJobs_eq_none.mp hn

-- All that an action can do to the clock of a job.
theorem step_clock (hc : Consistent s) (h : step s a = .ok s')
    (hd' : s'.dispatches.get k = some d') :
    (s.dispatches.get k = none ∧ d'.automationPausedAt = none) ∨
    ∃ d, s.dispatches.get k = some d ∧
      d'.clock = d.clock.after pausedTime (pauseEvents s a k) := by
  by_cases ha : ∃ r content attachment, a = .createConnectJob r content attachment
  case neg =>
    refine .inr <| step_accounts h (fun r c t he => ha ⟨r, c, t, he⟩) k d' hd'
  case pos =>
    obtain ⟨r, content, attachment, rfl⟩ := ha
    simp only [step, map_eq_ok, Prod.exists, exists_and_right, exists_eq_right] at h
    obtain ⟨j, h⟩ := h
    exact createConnectJob_clock hc h hd'

-- What an observer writes down about a job: the deadline it has got at first, and all pauses and
-- resumes since then.
structure Ledger where
  initial : Instant
  events  : List (Event Instant)

def Ledger.record (log : String → Option Ledger) (s : State) (a : Action) (s' : State)
    (k : String) : Option Ledger :=
  match s.dispatches.get k, log k with
  | some _, some l => some { l with events := l.events ++ pauseEvents s a k }
  | _,      _      =>
    (s'.dispatches.get k).map fun d => { initial := d.admissionDeadline, events := [] }

def observed : Machine (State × (String → Option Ledger)) Action StoreError :=
  machine.monitor Ledger.record

def ledgers (as : List Action) : String → Option Ledger :=
  (observed.run (∅, fun _ => none) as).snd

-- The store has forgotten nothing that the observer knows of.
structure Tallied (x : State × (String → Option Ledger)) : Prop where
  consistent : Consistent x.fst
  clocks     : ∀ k d, x.fst.dispatches.get k = some d → ∃ l, x.snd k = some l ∧
    d.clock = Clock.after pausedTime { deadline := l.initial, pausedAt := none } l.events

theorem Tallied.step {x x' : State × (String → Option Ledger)} (hx : Tallied x)
    (h : observed.step x a = .ok x') : Tallied x' := by
  obtain ⟨s, log⟩ := x
  simp only [observed, Machine.monitor, machine, map_eq_ok] at h
  obtain ⟨s', h, rfl⟩ := h
  refine ⟨(step_effect h).consistent hx.consistent, fun k d' hd' => ?_⟩
  obtain ⟨hn, hp⟩ | ⟨d, hd, hc⟩ := step_clock hx.consistent h hd'
  case inl =>
    refine ⟨{ initial := d'.admissionDeadline, events := [] }, ?_, ?_⟩
    · simp [Ledger.record, hn, hd']
    · simp [Clock.after, Dispatch.clock, hp]
  case inr =>
    obtain ⟨l, hl, hcl⟩ := hx.clocks k d hd
    simp only at hd hl
    refine ⟨{ l with events := l.events ++ pauseEvents s a k }, ?_, ?_⟩
    · simp [Ledger.record, hd, hl]
    · rw [hc, hcl, Clock.after_append]

theorem run_tallied (as : List Action) :
    Tallied (observed.run (∅, fun _ => none) as) := by
  refine Machine.invariant (fun _ _ _ hx h => hx.step h) ?_ as
  exact ⟨Consistent.empty, fun _ _ h => nomatch h⟩

theorem fst_run_observed (as : List Action) :
    (observed.run (∅, fun _ => none) as).fst = machine.run ∅ as :=
  Machine.fst_run_monitor _ as

omit [Codec] in
theorem pausedTime_nonneg (now pausedAt : Instant) : 0 ≤ pausedTime now pausedAt :=
  Int.mul_nonneg (Int.natCast_nonneg _) (by decide)

omit [Codec] in
theorem sum_pausedTime_nonneg (l : List (Instant × Instant)) :
    0 ≤ (l.map fun (mark, t) => pausedTime t mark).sum := by
  refine List.sum_nonneg fun x hx => ?_
  obtain ⟨y, _, rfl⟩ := List.mem_map.mp hx
  exact pausedTime_nonneg _ _

theorem step_deadline_le (hc : Consistent s) (h : step s a = .ok s')
    (hd : s.dispatches.get k = some d) (hd' : s'.dispatches.get k = some d') :
    d.admissionDeadline ≤ d'.admissionDeadline := by
  obtain ⟨hn, _⟩ | ⟨d₁, hd₁, hcl⟩ := step_clock hc h hd'
  case inl => simp [hd] at hn
  case inr =>
    cases hd.symm.trans hd₁
    have hdl : d'.clock.deadline = d.clock.deadline + _ :=
      (congrArg Clock.deadline hcl).trans Clock.after_deadline
    rw [show d'.admissionDeadline = d.admissionDeadline + _ from hdl]
    exact Int.le_add_of_nonneg_right <| sum_pausedTime_nonneg _

theorem run_deadline_le (hc : Consistent s) {as : List Action}
    (hp : machine.Always (fun s => (s.dispatches.get k).isSome) s as)
    (hd : s.dispatches.get k = some d) :
    ∃ d', (machine.run s as).dispatches.get k = some d' ∧
      d.admissionDeadline ≤ d'.admissionDeadline := by
  let R (s s' : State) : Prop := ∀ d, s.dispatches.get k = some d →
    ∃ d', s'.dispatches.get k = some d' ∧ d.admissionDeadline ≤ d'.admissionDeadline
  have hR : R s (machine.run s as) := by
    refine Machine.relation (I := Consistent) (C := fun _ _ => True) ?_ ?_ ?_ ?_ hc
      Machine.guarded_true hp
    · exact fun s d hd => ⟨d, hd, le_refl _⟩
    · intro s₁ s₂ s₃ h₁ h₂ d hd
      obtain ⟨d₂, hd₂, hle₂⟩ := h₁ d hd
      obtain ⟨d₃, hd₃, hle₃⟩ := h₂ d₂ hd₂
      exact ⟨d₃, hd₃, hle₂.trans hle₃⟩
    · exact fun _ _ _ hc _ h => (step_effect h).consistent hc
    · intro s a s' hc _ _ hp' h d hd
      obtain ⟨d', hd'⟩ := Option.isSome_iff_exists.mp hp'
      exact ⟨d', hd', step_deadline_le hc h hd hd'⟩
  exact hR d hd

-- The admission deadlines after the actions `as`, whatever follows.
structure PausesAccounted (as : List Action) : Prop where
  -- A deadline exceeds its first value by the closed pauses, and a pause is marked as long as it is
  -- open.
  accounted : ∀ k d, (machine.run ∅ as).dispatches.get k = some d →
    ∃ l, ledgers as k = some l ∧ d.automationPausedAt = opened none l.events ∧
      d.admissionDeadline = l.initial +
        ((closed none l.events).map fun (mark, t) =>
          (t.elapsedSeconds mark : Int) * Instant.second).sum
  monotone : ∀ bs k d,
    machine.Always (fun s => (s.dispatches.get k).isSome) (machine.run ∅ as) bs →
    (machine.run ∅ as).dispatches.get k = some d →
    ∃ d', (machine.run (machine.run ∅ as) bs).dispatches.get k = some d' ∧
      d.admissionDeadline ≤ d'.admissionDeadline
  -- A paused job fails by a report of its provider only.
  unexpired : ∀ a s', step (machine.run ∅ as) a = .ok s' → ∀ k j d j',
    (machine.run ∅ as).entry k = some (j, d) → d.automationPausedAt.isSome →
    s'.jobs.get k = some j' → j'.status = .failed → j' ≠ j →
    ∃ r target reading, a = .transitionConnectJob r target reading ∧ r.jobId = k
  unclaimed : ∀ lane expected content now j claimed d,
    ((machine.run ∅ as).claimConnectLaneHead lane expected content now).snd = some (j, claimed) →
    (machine.run ∅ as).dispatches.get j.jobId = some d → d.state = .waiting →
    d.automationPausedAt = none
  -- A pause within a pause changes nothing.
  nested : ∀ a s', step (machine.run ∅ as) a = .ok s' → ∀ k t d d',
    pauseEvent (machine.run ∅ as) a = some (k, .paused t) →
    (machine.run ∅ as).dispatches.get k = some d → d.automationPausedAt.isSome →
    s'.dispatches.get k = some d' →
    d'.automationPausedAt = d.automationPausedAt ∧ d'.admissionDeadline = d.admissionDeadline

omit [Codec] in
-- A job that is paused when an action begins is paused when the action lets jobs expire.
theorem paused_expiry {m : State} (h : Connect.expiry s a = some (m, now))
    (hd : s.dispatches.get k = some d) (hp : d.automationPausedAt.isSome)
    (hd' : m.dispatches.get k = some d') : d'.automationPausedAt.isSome := by
  unfold Connect.expiry at h
  split at h
  case h_4 r =>
    split at h
    case h_1 h₁ =>
      cases Option.some.inj h
      obtain ⟨d₁, hd₁, hc⟩ := clocks_deferDispatch h₁ k d' hd'
      cases hd.symm.trans hd₁
      rw [show d'.automationPausedAt = _ from congrArg Clock.pausedAt hc]
      simp only
      split
      case isTrue  => simp [Clock.apply, Dispatch.clock]
      case isFalse => exact hp
    case h_2 => cases h
  case h_3 =>
    split at h
    case h_1 => cases h
    case h_2 => cases Option.some.inj h; cases hd.symm.trans hd'; exact hp
  case h_5 => cases h
  all_goals cases Option.some.inj h; cases hd.symm.trans hd'; exact hp

omit [Codec] in
theorem unpaused_of_claim {lane : Lane} {expected : Option String} {content : String → Bool}
    (h : (s.claimConnectLaneHead lane expected content now).snd = some (j, d'))
    (hd : s.dispatches.get j.jobId = some d) (hw : d.state = .waiting) :
    d.automationPausedAt = none := by
  obtain ⟨d₁, hl, _⟩ := content_of_claim h
  obtain ⟨he, _, hq⟩ := mem_laneQueue.mp (laneHead_eq_some hl).left
  simp only [queued, Bool.and_eq_true, Bool.or_eq_true, decide_eq_true_eq] at hq
  obtain ⟨⟨_, ht⟩, hp⟩ := hq
  have hr := s.row_expireWaitingConnectJobs now j.jobId
  rw [row_of_entry he] at hr
  cases hr
  case inl hr =>
    cases hd.symm.trans (Prod.mk.inj hr).right.symm
    exact hp.resolve_right (not_not.mpr hw)
  case inr hr =>
    obtain ⟨_, _, _, _, hr⟩ := hr
    rw [Option.some.inj (Prod.mk.inj hr).right] at ht
    simp at ht

theorem pauses_accounted (as : List Action) : PausesAccounted as where
  accounted := by
    intro k d hd
    rw [← fst_run_observed] at hd
    obtain ⟨l, hl, hc⟩ := (run_tallied as).clocks k d hd
    refine ⟨l, hl, ?_, ?_⟩
    · exact (congrArg Clock.pausedAt hc).trans Clock.after_pausedAt
    · exact (congrArg Clock.deadline hc).trans Clock.after_deadline
  monotone := fun _ _ _ hp hd => run_deadline_le (run_consistent as) hp hd
  unexpired := by
    intro a s' h k j d j' he hp hj' hf hne
    obtain ⟨hj, hd⟩ := entry_eq_some.mp he
    cases (step_effect h).failed (run_consistent as) hj' hf
    case inl hj₁ => exact absurd (Option.some.inj (hj₁.symm.trans hj)) hne
    case inr hf =>
      cases hf
      case reported r target reading _ _ ha hk _ _ _ _ => exact ⟨r, target, reading, ha, hk⟩
      case expired m now j₁ d₁ hx he₁ e _ =>
        have := paused_expiry hx hd hp (entry_eq_some.mp he₁).right
        simp [e.running] at this
  unclaimed := fun _ _ _ _ _ _ _ h hd hw => unpaused_of_claim h hd hw
  nested := by
    intro a s' h k t d d' ha hd hp hd'
    obtain ⟨hn, _⟩ | ⟨d₁, hd₁, hc⟩ := step_clock (run_consistent as) h hd'
    case inl => simp [hd] at hn
    case inr =>
      cases hd.symm.trans hd₁
      obtain ⟨mark, hm⟩ := Option.isSome_iff_exists.mp hp
      simp only [pauseEvents, ha, if_true, Clock.after, List.foldl_cons, List.foldl_nil,
        Clock.apply, Dispatch.clock, Clock.mk.injEq, hm, Option.some_or] at hc
      exact ⟨by rw [hc.right, hm], hc.left⟩

end Step

end Connect
