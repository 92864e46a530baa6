import Mathlib.Logic.Relation
import EmailWatcher.Connect.Dispatch

namespace Connect

open Transaction State Relation

namespace State

-- The attempt that a fire is at belongs to the given job.
def Bound (s : State) (f : Fire) (jobId : String) : Prop :=
  ∃ t, s.currentAttempt f = some t ∧ t.jobId = some jobId

end State

-- A result that the store does not accept: the job it is for, what is wrong with it, and the fires
-- that are settled for it.
structure Verdict where
  jobId   : String
  failure : CertificateFailure
  settles : Fire → Bool

-- What the last statement of `_discard_settled_source_less_certificate_job` makes of a fire.
def Verdict.overwrite (v : Verdict) (f : Fire) : Fire :=
  { f with state := .failed, reason := some v.failure.code, pendingSince := none }

section Verdict

variable [Codec]

def replayVerdict (s : State) (jobId result : String) : Except StoreError (Option Verdict) := do
  let (j, d) ← s.completedCertificateJob jobId "replay"
  match s.certificatesOf jobId with
  | [] =>
    let (encoded, _) ← Codec.encodeGenericResult result
    if d.lastErrorCode = some CertificateFailure.conflict.code ∨ j.resultJson ≠ some encoded then
      return some ⟨jobId, .conflict, unsettledBy .conflict jobId⟩
    else
      return some ⟨jobId, .invalid, (·.linkedTo jobId)⟩
  | [parent] =>
    let outcome ← replayOutcome j parent result
    return outcome.map fun failure => ⟨jobId, failure, unsettledBy failure jobId⟩
  | _ => return none

-- The three calls that judge a certificate.
def verdict (s : State) : Action → Except StoreError (Option Verdict)
  | .transitionConnectJob r _ reading => do
    let j ← s.checkTransition r
    let (_, outcome) ← s.certificateOutcome r j reading
    return outcome.join.map fun failure => ⟨r.jobId, failure, (·.linkedTo r.jobId)⟩
  | .reconcileCertificateCompletedReplay jobId _ result =>
    replayVerdict s jobId result
  | .reconcileCertificateCompletedJoin jobId reading => do
    let (j, d) ← s.completedCertificateJob jobId "join"
    let (_, failure) ← s.joinOutcome j d reading
    return failure.map fun failure => ⟨jobId, failure, (·.linkedTo jobId)⟩
  | _ => return none

-- The fires that a call overwrites without having settled them.
structure Overwrites (s : State) (a : Action) (v : Verdict) (f : Fire) : Prop where
  verdict    : verdict s a = .ok (some v)
  sourceLess : (s.dispatches.get v.jobId).any (! ·.sourceAvailable)
  fire       : f ∈ s.fires
  job        : f.jobId = some v.jobId
  unsettled  : ¬v.settles f

end Verdict

section Steps

variable [Codec]

-- The single statements that an action `a` from `s` may execute on a fire. `B` says which job the
-- current attempt of a fire belongs to.
inductive FireStep (s : State) (a : Action) (B : Fire → String → Prop) : Fire → Fire → Prop
  | pause {f : Fire} :
    f.state = .submitted → FireStep s a B f (f.advance .entitlementPaused "entitlement_inactive")
  | settle {f : Fire} {state : FireState} {reason : String} :
    f.state.linked → state = .completed ∨ state = .failed →
    FireStep s a B f (f.advance state reason)
  | fence {f : Fire} {jobId : String} {lane : Lane} {result reason : String} :
    a = .reconcileCertificateCompletedReplay jobId lane result →
    f.state = .completed ∨ f.state = .failed → FireStep s a B f (f.advance .failed reason)
  | unlink {f : Fire} {old : Job} :
    f.linkedTo old.jobId → FireStep s a B f (f.unlink old)
  | transition {f : Fire} {r : FireTransition} :
    a = .transitionAutomationFire r → s.fires.get r.fireId = some f →
    (f.state, r.nextState) ∈ automationFireTransitions →
    (r.nextState = .submitted → ∃ jobId, r.job f = some jobId ∧ B f jobId) →
    FireStep s a B f (r.apply f)
  | decide {f : Fire} {confirmed : Bool} {now : Instant} :
    f.state = .awaitingConfirmation → FireStep s a B f (decideFire confirmed now f)
  | resume {f : Fire} :
    f.state = .entitlementPaused → f.jobId.isSome → FireStep s a B f (resumeFire f)
  | retry {f : Fire} {kind : RetryKind} {now : Instant} :
    f.state = .submitted → f.currentAttemptNo = 1 → FireStep s a B f (retryFire kind now f)
  | bind {f : Fire} {jobId : String} :
    f.state = .pendingDispatch ∨ f.state = .entitlementPaused → B f jobId →
    FireStep s a B f
      { f.advance .submitted "source_removed_after_provider_admission" with jobId := some jobId }
  | overwrite {f : Fire} {v : Verdict} :
    Overwrites s a v f → FireStep s a B f (v.overwrite f)

-- Nothing about an attempt changes but that it gets its job.
structure AttemptStep (t t' : Attempt) : Prop where
  request : t'.dispatchRequestId = t.dispatchRequestId
  job     : ∀ jobId, t.jobId = some jobId → t'.jobId = some jobId

-- What an action `a` from `s₀` does to fires and attempts between two of its statements: every fire
-- has come where it is in single steps, a fire keeps its attempts, and no other attempts appear.
structure Progress (s₀ : State) (a : Action) (s s' : State) : Prop where
  fires : ∀ id f', s'.fires.get id = some f' →
    ∃ f, s.fires.get id = some f ∧ ReflTransGen (FireStep s₀ a s'.Bound) f f'
  kept : ∀ id n t, s.attempts.get (id, n) = some t → (s'.fires.get id).isSome →
    ∃ t', s'.attempts.get (id, n) = some t' ∧ AttemptStep t t'
  attempts : ∀ k t', s'.attempts.get k = some t' →
    ∃ t, s.attempts.get k = some t ∧ AttemptStep t t'

end Steps

variable {s s' s₀ s₁ s₂ s₃ : State} {a : Action} {k : String} {j j' : Job} {d : Dispatch}
variable {f f' : Fire} {t t₁ t₂ t₃ : Attempt} {B B' : Fire → String → Prop}

theorem AttemptStep.refl (t : Attempt) : AttemptStep t t where
  request := rfl
  job _   := id

theorem AttemptStep.trans (h₁ : AttemptStep t₁ t₂) (h₂ : AttemptStep t₂ t₃) : AttemptStep t₁ t₃ where
  request    := h₂.request.trans h₁.request
  job jobId h := h₂.job jobId <| h₁.job jobId h

variable [Codec]

namespace FireStep

theorem fireId (h : FireStep s a B f f') : f'.fireId = f.fireId := by
  cases h
  case unlink => exact Fire.fireId_unlink _ _
  all_goals rfl

theorem mono (hB : ∀ jobId, B f jobId → B' f jobId) (h : FireStep s a B f f') :
    FireStep s a B' f f' := by
  cases h
  case pause h            => exact .pause h
  case settle h₁ h₂       => exact .settle h₁ h₂
  case fence h₁ h₂        => exact .fence h₁ h₂
  case unlink h           => exact .unlink h
  case decide h           => exact .decide h
  case resume h₁ h₂       => exact .resume h₁ h₂
  case retry h₁ h₂        => exact .retry h₁ h₂
  case bind h₁ h₂         => exact .bind h₁ (hB _ h₂)
  case overwrite h        => exact .overwrite h
  case transition ha hf he hs =>
    refine .transition ha hf he fun h => ?_
    obtain ⟨jobId, hj, hb⟩ := hs h
    exact ⟨jobId, hj, hB _ hb⟩

theorem path_fireId (h : ReflTransGen (FireStep s a B) f f') : f'.fireId = f.fireId := by
  induction h
  case refl         => rfl
  case tail _ h ih  => exact h.fireId.trans ih

theorem path_mono (hB : ∀ g : Fire, g.fireId = f.fireId → ∀ jobId, B g jobId → B' g jobId)
    (h : ReflTransGen (FireStep s a B) f f') : ReflTransGen (FireStep s a B') f f' := by
  induction h
  case refl            => exact .refl
  case tail hp h ih => exact ih.tail <| h.mono <| hB _ <| path_fireId hp

end FireStep

omit [Codec] in
theorem fires_updateFire {id : String} (g : Fire → Fire) (hg) :
    (s.updateFire id g hg).fires.get k = if k = id then (s.fires.get k).map g else s.fires.get k :=
  Table.get_update_key hg fun _ => rfl

omit [Codec] in
theorem fires_writeTransition (r : Transition) (v : JobValues) (protocol : Protocol) :
    (s.writeTransition r v protocol).fires = s.fires ∧
    (s.writeTransition r v protocol).attempts = s.attempts := by
  unfold writeTransition
  split <;> exact ⟨rfl, rfl⟩

omit [Codec] in
theorem sourceLess_writeTransition {r : Transition} {v : JobValues} {protocol : Protocol}
    (h : ((s.writeTransition r v protocol).dispatches.get k).any (! ·.sourceAvailable)) :
    (s.dispatches.get k).any (! ·.sourceAvailable) := by
  have hr : (s.writeTransition r v protocol).row k = _ := row_writeTransition
  have hd := congrArg Prod.snd hr
  simp only [row] at hd
  rw [hd] at h
  split at h
  case isFalse => exact h
  case isTrue =>
    simp only at h
    split at h
    case isFalse => exact h
    case isTrue  => simpa [Option.any_map, Transition.applyDispatch] using h

omit [Codec] in
theorem completedCertificateJob_jobId {name : String}
    (h : s.completedCertificateJob k name = .ok (j, d)) : j.jobId = k := by
  simp only [completedCertificateJob, bind_eq_ok, find_eq_ok, pure_eq_ok, Prod.mk.injEq] at h
  obtain ⟨j₁, hj, _, _, _, _, h, _⟩ := h
  exact h ▸ jobId_of_get hj

namespace Progress

-- An action that leaves the fires and their attempts alone.
theorem of_eq (hf : s'.fires = s.fires) (ht : s'.attempts = s.attempts) : Progress s₀ a s s' where
  fires _ f h    := ⟨f, hf ▸ h, .refl⟩
  kept _ _ t h _ := ⟨t, ht ▸ h, .refl t⟩
  attempts _ t h := ⟨t, ht ▸ h, .refl t⟩

theorem refl (s : State) : Progress s₀ a s s :=
  of_eq rfl rfl

theorem bound (h : Progress s₀ a s s') (hf : (s'.fires.get f.fireId).isSome) {jobId : String}
    (hb : s.Bound f jobId) : s'.Bound f jobId := by
  obtain ⟨t, ht, hj⟩ := hb
  obtain ⟨t', ht', hs⟩ := h.kept _ _ t ht hf
  exact ⟨t', ht', hs.job _ hj⟩

theorem trans (h₁ : Progress s₀ a s₁ s₂) (h₂ : Progress s₀ a s₂ s₃) : Progress s₀ a s₁ s₃ where
  fires := by
    intro id f₃ hf₃
    obtain ⟨f₂, hf₂, hp₂⟩ := h₂.fires id f₃ hf₃
    obtain ⟨f₁, hf₁, hp₁⟩ := h₁.fires id f₂ hf₂
    refine ⟨f₁, hf₁, .trans (FireStep.path_mono ?_ hp₁) hp₂⟩
    intro g hg jobId hb
    refine h₂.bound ?_ hb
    have hid : f₁.fireId = id := Table.key_of_get hf₁
    simp [hg, hid, hf₃]
  kept := by
    intro id n t₁ ht₁ hf
    obtain ⟨f₃, hf₃⟩ := Option.isSome_iff_exists.mp hf
    obtain ⟨f₂, hf₂, _⟩ := h₂.fires id f₃ hf₃
    obtain ⟨t₂, ht₂, hs₁⟩ := h₁.kept id n t₁ ht₁ (by simp [hf₂])
    obtain ⟨t₃, ht₃, hs₂⟩ := h₂.kept id n t₂ ht₂ hf
    exact ⟨t₃, ht₃, hs₁.trans hs₂⟩
  attempts := by
    intro k t₃ ht₃
    obtain ⟨t₂, ht₂, hs₂⟩ := h₂.attempts k t₃ ht₃
    obtain ⟨t₁, ht₁, hs₁⟩ := h₁.attempts k t₂ ht₂
    exact ⟨t₁, ht₁, hs₁.trans hs₂⟩

omit [Codec] in
theorem linked_of_linkedTo (h : f.linkedTo k) : f.state.linked := by
  simp only [Fire.linkedTo, Bool.and_eq_true] at h
  exact h.right

theorem update {p : Fire → Bool} {g : Fire → Fire} {hg}
    (h : ∀ f ∈ s.fires, p f → ReflTransGen (FireStep s₀ a s.Bound) f (g f)) :
    Progress s₀ a s { s with fires := s.fires.update p g hg } where
  fires := by
    intro id f' hf'
    simp only [Table.get_update, Option.map_eq_some_iff] at hf'
    obtain ⟨f, hf, heq⟩ := hf'
    refine ⟨f, hf, ?_⟩
    split at heq
    case isTrue hp  => exact heq ▸ h f (Table.mem_of_get hf) hp
    case isFalse hp => exact heq ▸ .refl
  kept _ _ t h _ := ⟨t, h, .refl t⟩
  attempts _ t h := ⟨t, h, .refl t⟩

theorem updateFire {id : String} {g : Fire → Fire} {hg}
    (h : ∀ f, s.fires.get id = some f → FireStep s₀ a s.Bound f (g f)) :
    Progress s₀ a s (s.updateFire id g hg) := by
  refine update fun f hm hp => .single <| h f ?_
  have hk : f.fireId = id := by simpa using hp
  exact Table.get_eq_some.mpr ⟨hm, hk⟩

theorem update_attempts {p : Attempt → Bool} {g : Attempt → Attempt} {hg}
    (h : ∀ t ∈ s.attempts, p t → AttemptStep t (g t)) :
    Progress s₀ a s { s with attempts := s.attempts.update p g hg } := by
  have hs : ∀ k t, s.attempts.get k = some t → AttemptStep t (if p t then g t else t) := by
    intro k t ht
    split
    case isTrue hp => exact h t (Table.mem_of_get ht) hp
    case isFalse   => exact .refl t
  refine { fires := fun _ f h => ⟨f, h, .refl⟩, kept := ?kept, attempts := ?attempts }
  case kept =>
    intro id n t ht _
    exact ⟨_, by simp only [Table.get_update, ht, Option.map_some], hs _ t ht⟩
  case attempts =>
    intro k t' ht'
    simp only [Table.get_update, Option.map_eq_some_iff] at ht'
    obtain ⟨t, ht, heq⟩ := ht'
    exact ⟨t, ht, heq ▸ hs k t ht⟩

theorem deleteJob {old : Job} (h : s.deleteJob old = .ok s') : Progress s₀ a s s' := by
  obtain ⟨_, h⟩ := deleteJob_eq_ok.mp h
  have hu : Progress s₀ a s { s with
      fires := s.fires.update (·.linkedTo old.jobId) (·.unlink old) (Fire.fireId_unlink old)
    } := update fun f _ hp => .single <| .unlink hp
  exact h ▸ hu.trans (.of_eq rfl rfl)

theorem deleteJobs {p : Job → Bool} (h : s.deleteJobs p = .ok s') : Progress s₀ a s s' :=
  foldlM_relation (.refl ·) (fun _ _ _ => trans) (fun _ _ _ _ => deleteJob) h

theorem pauseLinkedAutomationFires (s : State) (id : String) :
    Progress s₀ a s (s.pauseLinkedAutomationFires id) := by
  refine update fun f _ hp => .single <| .pause ?_
  simp only [Bool.and_eq_true, decide_eq_true_eq] at hp
  exact hp.right

section Certificates

theorem settleByOutcome {p : Fire → Bool} {failure : Option CertificateFailure}
    (h : ∀ f ∈ s.fires, p f → ∀ state reason, state = .failed ∨ failure = none ∧ state = .completed →
      FireStep s₀ a s.Bound f (f.advance state reason)) :
    Progress s₀ a s (s.settleByOutcome p failure) := by
  cases failure
  case none   => exact update fun f hm hp => .single <| h f hm hp _ _ <| .inr ⟨rfl, rfl⟩
  case some c => exact update fun f hm hp => .single <| h f hm hp _ _ <| .inl rfl

theorem settle_linked {failure : Option CertificateFailure} {state : FireState} {reason : String}
    (hp : f.linkedTo k) (h : state = .failed ∨ failure = none ∧ state = .completed) :
    FireStep s₀ a B f (f.advance state reason) :=
  .settle (linked_of_linkedTo hp) <| h.symm.imp_left And.right

-- The calls that settle a certificate do so in a state in which the fires and the source are still
-- those of `s₀`.
theorem settleCertificate {id : String} {p : Fire → Bool} {failure : Option CertificateFailure}
    (h : s.settleCertificate id p failure = .ok s')
    (hp : ∀ f ∈ s.fires, p f → ∀ state reason,
      state = .failed ∨ failure = none ∧ state = .completed →
      FireStep s₀ a s.Bound f (f.advance state reason))
    (hv : ∀ c, failure = some c → verdict s₀ a = .ok (some ⟨id, c, p⟩))
    (hf : s.fires = s₀.fires)
    (hd : (s.dispatches.get id).any (! ·.sourceAvailable) →
      (s₀.dispatches.get id).any (! ·.sourceAvailable)) :
    Progress s₀ a s s' := by
  refine (settleByOutcome hp).trans ?_
  obtain rfl | ⟨hs, -, j, s₁, -, h₁, hf₁, rfl⟩ := discardSettledSourceLessCertificateJob_eq_ok h
  case inl => exact .refl _
  case inr =>
    refine trans (deleteJob h₁) ?_
    cases failure
    case none => exact .refl _
    case some c =>
      refine update fun f hm hj => ?_
      have hj : f.jobId = some id := by simpa using hj
      simp only [hf₁, State.settleByOutcome, settleFires, Table.mem_update] at hm
      obtain ⟨f₀, hm₀, heq⟩ := hm
      split at heq
      case isTrue => exact heq ▸ .refl
      case isFalse hn =>
        subst heq
        refine .single <| .overwrite (v := ⟨id, c, p⟩) ?_
        refine ⟨hv c rfl, hd ?_, hf ▸ hm₀, hj, hn⟩
        simpa [State.settleByOutcome, settleFires] using hs

end Certificates

section Jobs

theorem deferConnectJob {r : Deferral} (h : s.deferConnectJob r = .ok (s', d)) :
    Progress s₀ a s s' := by
  obtain ⟨s₁, h₁, h⟩ := deferConnectJob_eq_ok h
  obtain ⟨_, _, _, _, h₁⟩ := deferDispatch_eq_ok h₁
  have hu : Progress s₀ a s (s.updateDispatch r.jobId r.apply) := .of_eq rfl rfl
  have hs : Progress s₀ a s s₁ := by
    subst h₁
    split
    case isTrue  => exact hu.trans <| pauseLinkedAutomationFires _ _
    case isFalse => exact hu
  refine hs.trans ?_
  subst h
  split
  case isFalse => exact .refl _
  case isTrue =>
    exact .of_eq (fires_expireWaitingConnectJobs _ _) (attempts_expireWaitingConnectJobs _ _)

theorem createConnectJob {r : JobRequest} {content attachment : Bool}
    (h : s.createConnectJob r content attachment = .ok (s', j)) : Progress s₀ a s s' := by
  have hf := fires_expireWaitingConnectJobs s r.now
  have ht := attempts_expireWaitingConnectJobs s r.now
  obtain ⟨_, _, hc⟩ | ⟨_, rfl | ⟨_, hc⟩⟩ := createConnectJob_eq_ok h
  · exact .of_eq hc.fires hc.attempts
  · exact .of_eq hf ht
  · exact .of_eq (hc.fires.trans hf) (hc.attempts.trans ht)

theorem claimConnectLaneHead {lane : Lane} {expected : Option String} {content : String → Bool}
    {now : Instant} : Progress s₀ a s (s.claimConnectLaneHead lane expected content now).fst := by
  have hf := fires_expireWaitingConnectJobs s now
  have ht := attempts_expireWaitingConnectJobs s now
  cases s.claimConnectLaneHead_cases lane expected content now
  case inl h => exact h ▸ .of_eq hf ht
  case inr h =>
    obtain ⟨_, _, _, h⟩ := h
    exact h ▸ .of_eq hf ht

theorem resetConnectJobForResubmission {id : String} {expected : JobStatus} {lane : Lane}
    {content : String → Bool}
    (h : s.resetConnectJobForResubmission id expected lane content = .ok (s', j)) :
    Progress s₀ a s s' := by
  obtain ⟨_, _, _, ⟨_, rfl⟩ | ⟨_, _, _, _, rfl⟩⟩ := resetConnectJobForResubmission_eq_ok h
  all_goals exact .of_eq rfl rfl

theorem transitionConnectJob {r : Transition} {target : Bool} {reading : SourceReading}
    (h : s.transitionConnectJob r target reading = .ok (s', j')) :
    Progress s (.transitionConnectJob r target reading) s s' := by
  obtain ⟨j, v, s₁, outcome, hc, _, ho, h⟩ := transitionConnectJob_eq_ok h
  have hs := certificateOutcome_same ho
  refine trans (.of_eq hs.fires hs.attempts) ?_
  obtain ⟨_, h⟩ | ⟨_, h⟩ := h
  case inl =>
    refine trans (update fun f _ hp => .single ?_) (deleteJob h)
    refine .settle (linked_of_linkedTo hp) ?_
    split <;> simp
  case inr =>
    obtain ⟨_, h⟩ := recordTransition_eq_ok.mp h
    have hw := fires_writeTransition (s := s₁) r v j.protocolVersion
    refine trans (.of_eq hw.left hw.right) ?_
    cases outcome
    case none => exact pure_eq_ok.mp h ▸ .refl _
    case some failure =>
      refine settleCertificate h (fun f _ hp _ _ => settle_linked hp) ?_ (hw.left.trans hs.fires) ?_
      · rintro c rfl
        simp [verdict, hc, ho]
      · rw [← hs.dispatches]
        exact sourceLess_writeTransition

end Jobs

section Replay

variable {result : String} {lane : Lane} {reading : SourceReading}

-- A replay also settles fires that have settled before.
theorem settle_unsettled {c c' : CertificateFailure} {state : FireState} {reason : String}
    (hp : unsettledBy c k f) (h : state = .failed ∨ some c' = none ∧ state = .completed) :
    FireStep s₀ (.reconcileCertificateCompletedReplay k lane result) B f
      (f.advance state reason) := by
  simp only [reduceCtorEq, false_and, or_false] at h
  subst h
  by_cases hl : f.state.linked
  case pos => exact .settle hl <| .inr rfl
  case neg =>
    refine .fence rfl ?_
    simp only [unsettledBy, Bool.and_eq_true, Bool.or_eq_true, decide_eq_true_eq] at hp
    cases hs : f.state <;> simp_all [FireState.linked]

theorem reconcileCertificateCompletedReplay
    (h : s.reconcileCertificateCompletedReplay k lane result = .ok (s', j')) :
    Progress s (.reconcileCertificateCompletedReplay k lane result) s s' := by
  simp only [State.reconcileCertificateCompletedReplay, bind_eq_ok, Prod.exists] at h
  obtain ⟨j, d, hc, _, _, h⟩ := h
  have hid : j.jobId = k := completedCertificateJob_jobId hc
  split at h
  case h_3 => simp at h
  case h_1 hcs =>
    obtain ⟨s₁, h₁, h⟩ := bind_eq_ok.mp h
    cases pure_eq_ok.mp h
    simp only [State.replayUnprojected, bind_eq_ok, Prod.exists, hid] at h₁
    obtain ⟨encoded, _, he, h₁⟩ := h₁
    split at h₁
    case isTrue hx =>
      refine trans ?_ <| settleCertificate h₁ (fun f _ hp _ _ => settle_unsettled hp) ?_ rfl ?_
      · exact .of_eq rfl rfl
      · rintro c ⟨⟩
        simp [verdict, replayVerdict, hc, hcs, he, hx]
      · simp only [dispatches_updateDispatch, if_true, Option.any_map]
        exact id
    case isFalse hx =>
      obtain ⟨_, _, h₁⟩ := bind_eq_ok.mp h₁
      refine settleCertificate h₁ (fun f _ hp _ _ => settle_linked hp) ?_ rfl id
      rintro c ⟨⟩
      simp [verdict, replayVerdict, hc, hcs, he, hx]
  case h_2 parent hcs =>
    obtain ⟨outcome, ho, h⟩ := bind_eq_ok.mp h
    cases outcome
    case none =>
      cases pure_eq_ok.mp h
      exact .refl _
    case some failure =>
      obtain ⟨s₁, h₁, h⟩ := bind_eq_ok.mp h
      cases pure_eq_ok.mp h
      refine trans ?_ <| settleCertificate h₁ (fun f _ hp _ _ => settle_unsettled hp) ?_ rfl id
      · exact .of_eq rfl rfl
      · rintro c ⟨⟩
        simp [verdict, replayVerdict, hc, hcs, ho]

theorem reconcileCertificateCompletedJoin
    (h : s.reconcileCertificateCompletedJoin k reading = .ok (s', j')) :
    Progress s (.reconcileCertificateCompletedJoin k reading) s s' := by
  simp only [State.reconcileCertificateCompletedJoin, bind_eq_ok, Prod.exists, pure_eq_ok,
    Prod.mk.injEq] at h
  obtain ⟨j, d, hc, _, _, s₁, failure, ho, s₂, hok, hs, _⟩ := h
  have hr := joinOutcome_same ho
  refine trans (.of_eq hr.fires hr.attempts) <| settleCertificate (hs ▸ hok)
    (fun f _ hp _ _ => settle_linked hp) ?_ hr.fires ?_
  · rintro c rfl
    simp [verdict, hc, ho]
  · rw [hr.dispatches]
    exact id

end Replay

section Automation

omit [Codec] in
theorem resumeAutomationDispatch {id : String} {now : Instant}
    (h : s.resumeAutomationDispatch id now = .ok s') :
    s'.fires = s.fires ∧ s'.attempts = s.attempts := by
  simp only [State.resumeAutomationDispatch, bind_eq_ok, find_eq_ok] at h
  obtain ⟨d, _, h⟩ := h
  split at h <;> cases pure_eq_ok.mp h <;> exact ⟨rfl, rfl⟩

theorem bindAttempt (s₀ : State) (a : Action) {jobId : String}
    (h : s.bindAttempt f jobId = .ok s') :
    Progress s₀ a s s' ∧ s'.fires = s.fires ∧ s'.Bound f jobId := by
  obtain ⟨t, ht, hj, h⟩ := bindAttempt_eq_ok h
  subst h
  refine ⟨update_attempts fun t _ hp => ⟨rfl, ?_⟩, rfl, ?_⟩
  case refine_1 =>
    simp only [Bool.and_eq_true, decide_eq_true_eq] at hp
    simp [hp.right]
  case refine_2 =>
    have hk : (t.fireId, t.attemptNo) = (f.fireId, f.currentAttemptNo) := Table.key_of_get ht
    obtain ⟨hid, hno⟩ := Prod.mk.inj hk
    unfold currentAttempt at ht
    simp only [Bound, currentAttempt, Table.get_update, ht, Option.map_some, hid, hno]
    cases hn : t.jobId <;> simp_all

theorem moveLinkedJob (s₀ : State) (a : Action) {r : FireTransition}
    (h : s.moveLinkedJob r f = .ok s') :
    Progress s₀ a s s' ∧ s'.fires = s.fires ∧
      (r.nextState = .submitted → ∃ jobId, r.job f = some jobId ∧ s'.Bound f jobId) := by
  unfold State.moveLinkedJob at h
  split at h
  case h_1 => simp at h
  case h_2 jobId _ hj =>
    obtain ⟨s₁, h₁, h⟩ := bind_eq_ok.mp h
    obtain ⟨hf₁, ht₁⟩ := resumeAutomationDispatch h₁
    obtain ⟨hp, hf, hb⟩ := bindAttempt s₀ a h
    exact ⟨trans (.of_eq hf₁ ht₁) hp, hf.trans hf₁, fun _ => ⟨jobId, hj, hb⟩⟩
  case h_3 hn =>
    obtain ⟨_, _, h⟩ := bind_eq_ok.mp h
    cases pure_eq_ok.mp h
    exact ⟨.refl _, rfl, by simp [hn]⟩
  case h_4 hn _ =>
    simp only [State.pauseDispatch, bind_eq_ok, find_eq_ok, pure_eq_ok] at h
    obtain ⟨_, _, h⟩ := h
    subst h
    split
    all_goals exact ⟨.of_eq rfl rfl, rfl, by simp [hn]⟩
  case h_5 =>
    cases pure_eq_ok.mp h
    refine ⟨.refl _, rfl, fun hn => ?_⟩
    cases hj : r.job f <;> simp_all

theorem transitionAutomationFire {r : FireTransition} (h : s.transitionAutomationFire r = .ok s') :
    Progress s (.transitionAutomationFire r) s s' := by
  obtain ⟨f, s₁, hc, hf, hs, _, h₁, h⟩ := transitionAutomationFire_eq_ok h
  obtain ⟨hp, hf₁, hb⟩ := moveLinkedJob s (.transitionAutomationFire r) h₁
  have hu : Progress s (.transitionAutomationFire r) s₁ (s₁.updateFire r.fireId r.apply) := by
    refine updateFire fun f' hf' => ?_
    cases hf.symm.trans (hf₁ ▸ hf')
    refine .transition rfl hf ?_ hb
    simp only [FireTransition.check, bind_eq_ok, require_eq_ok] at hc
    obtain ⟨_, he, _⟩ := hc
    rwa [hs]
  refine hp.trans ?_
  obtain rfl | ⟨_, _, _, h⟩ := h
  case inl => exact hu
  case inr => exact hu.trans <| deleteJobs h

theorem decideAutomationFire {id sha : String} {version : Nat} {confirmed : Bool} {now : Instant}
    (h : s.decideAutomationFire id version sha confirmed now = .ok s') : Progress s₀ a s s' := by
  simp only [State.decideAutomationFire, bind_eq_ok, find_eq_ok, require_eq_ok] at h
  obtain ⟨_, _, f, hf, _, ⟨hs, _⟩, h⟩ := h
  split at h
  all_goals
    obtain ⟨c, _, h⟩ := bind_eq_ok.mp h
    cases pure_eq_ok.mp h
    have hc : Progress s₀ a s { s with confirmations := c } := .of_eq rfl rfl
    refine hc.trans <| updateFire fun f' hf' => .decide ?_
    cases hf.symm.trans hf'
    exact hs

theorem pauseInteractiveJobAutomationFires {id : String}
    (h : s.pauseInteractiveJobAutomationFires id = .ok s') : Progress s₀ a s s' := by
  simp only [State.pauseInteractiveJobAutomationFires, bind_eq_ok, pure_eq_ok] at h
  obtain ⟨_, _, _, _, h⟩ := h
  exact h ▸ pauseLinkedAutomationFires _ _

theorem authorizeConnectJobInteractively {id : String} {now : Instant}
    (h : s.authorizeConnectJobInteractively id now = .ok (s', j')) : Progress s₀ a s s' := by
  simp only [State.authorizeConnectJobInteractively, bind_eq_ok, Prod.exists] at h
  obtain ⟨j, d, _, h⟩ := h
  split at h
  case isTrue =>
    cases pure_eq_ok.mp h
    exact .refl _
  case isFalse =>
    obtain ⟨s₁, h₁, h⟩ := bind_eq_ok.mp h
    cases pure_eq_ok.mp h
    obtain ⟨hf, ht⟩ := resumeAutomationDispatch h₁
    exact .of_eq hf ht

theorem resumeAutomationFireJob {id : String} {version : Nat} {now : Instant}
    (h : s.resumeAutomationFireJob id version now = .ok s') : Progress s₀ a s s' := by
  simp only [State.resumeAutomationFireJob, bind_eq_ok, find_eq_ok, require_eq_ok, pure_eq_ok] at h
  obtain ⟨f, hf, _, ⟨hs, _⟩, jobId, hj, s₁, h₁, h⟩ := h
  obtain ⟨hf₁, ht₁⟩ := resumeAutomationDispatch h₁
  refine h ▸ trans (.of_eq hf₁ ht₁) (updateFire fun f' hf' => ?_)
  rw [hf₁] at hf'
  cases hf.symm.trans hf'
  exact .resume hs (by simp [hj])

end Automation

section Sources

theorem bindAutomationSource (s : State) (m : String) :
    Progress s₀ a s (s.bindAutomationSource m) := by
  have hb : Progress s₀ a s (s.bindAdmittedAttempts m) := by
    refine update_attempts fun t _ hp => ⟨rfl, ?_⟩
    simp only [Bool.and_eq_true, decide_eq_true_eq] at hp
    simp [hp.left.left]
  refine hb.trans ?_
  unfold State.bindAutomationSource
  generalize s.bindAdmittedAttempts m = s₁
  refine update fun f _ hp => .single ?_
  simp only [Bool.and_eq_true, decide_eq_true_eq, unsubmitted, List.mem_cons, List.not_mem_nil,
    or_false, Option.any_eq_true, Option.isSome_iff_exists] at hp
  obtain ⟨⟨⟨_, hs⟩, _⟩, t, ht, jobId, hj⟩ := hp
  have hn : (s₁.currentAttempt f).bind (·.jobId) = some jobId := by simp [ht, hj]
  rw [hn]
  exact .bind hs ⟨t, ht, hj⟩

theorem invalidateConnectSource {m : String} (h : s.invalidateConnectSource m = .ok s') :
    Progress s₀ a s s' := by
  simp only [State.invalidateConnectSource, bind_eq_ok, pure_eq_ok] at h
  obtain ⟨s₁, h₁, h₂⟩ := h
  exact h₂ ▸ (deleteJobs h₁).trans (.of_eq rfl rfl)

theorem markSourcesUnavailable {ms : List String} (h : s.markSourcesUnavailable ms = .ok s') :
    Progress s₀ a s s' := by
  refine foldlM_relation (.refl ·) (fun _ _ _ => trans) ?_ h
  exact fun s m _ _ h => (bindAutomationSource s m).trans <| invalidateConnectSource h

-- A fire goes together with its attempts.
theorem removePendingFires (s : State) (m : String) : Progress s₀ a s (s.removePendingFires m) where
  fires := by
    intro id f' hf'
    obtain ⟨hf, _⟩ := Table.get_delete_eq_some.mp hf'
    exact ⟨f', hf, .refl⟩
  kept := by
    intro id n t ht hf
    obtain ⟨f', hf'⟩ := Option.isSome_iff_exists.mp hf
    obtain ⟨hf, hr⟩ := Table.get_delete_eq_some.mp hf'
    have hk : (t.fireId, t.attemptNo) = (id, n) := Table.key_of_get ht
    refine ⟨t, Table.get_delete_eq_some.mpr ⟨ht, ?_⟩, .refl t⟩
    simp [(Prod.mk.inj hk).left, hf, hr]
  attempts := by
    intro k t' ht'
    obtain ⟨ht, _⟩ := Table.get_delete_eq_some.mp ht'
    exact ⟨t', ht, .refl t'⟩

theorem deleteMessage {m : String} (h : s.deleteMessage m = .ok s') : Progress s₀ a s s' :=
  (bindAutomationSource s m).trans <| (removePendingFires _ m).trans <| invalidateConnectSource h

end Sources

end Progress

-- A new fire and its first attempt replace no rows.
structure CreatesFire (r : FireRequest) (s s' : State) : Prop where
  fresh    : s.fires.get r.fireId = none
  first    : s.attempts.get (r.fireId, 1) = none
  fires    : ∀ id, s'.fires.get id = if r.fireId = id then some r.fire else s.fires.get id
  attempts : ∀ k, s'.attempts.get k = if (r.fireId, 1) = k
    then some ⟨r.fireId, 1, r.dispatchRequestId, none⟩ else s.attempts.get k

omit [Codec] in
theorem createAutomationFire_eq_ok {r : FireRequest} (h : s.createAutomationFire r = .ok s') :
    CreatesFire r s s' ∧ s'.jobs = s.jobs ∧ s'.dispatches = s.dispatches := by
  obtain ⟨s₁, h₁, h₂⟩ := bind_eq_ok.mp h
  obtain ⟨fires, hf, rfl⟩ := insertFire_eq_ok h₁
  obtain ⟨attempts, ht, rfl⟩ := insertAttempt_eq_ok h₂
  exact ⟨{
    fresh    := (Table.insert_eq_some.mp hf).left
    first    := (Table.insert_eq_some.mp ht).left
    fires    := Table.get_insert hf
    attempts := Table.get_insert ht
  }, rfl, rfl⟩

-- The second attempt of a fire, with the failed job of the first.
structure Retries (id request : String) (now : Instant) (f : Fire) (j : Job) (d : Dispatch)
    (kind : RetryKind) (s s' : State) : Prop where
  fire      : s.fires.get id = some f
  job       : ∃ jobId, f.jobId = some jobId ∧ s.entry jobId = some (j, d)
  submitted : f.state = .submitted
  first     : f.currentAttemptNo = 1
  proof     : automationFailureRetryKind j d = some kind
  second    : s.attempts.get (id, 2) = none
  fires     : ∀ k, s'.fires.get k =
    if k = id then (s.fires.get k).map (retryFire kind now) else s.fires.get k
  attempts  : ∀ k, s'.attempts.get k =
    if (id, 2) = k then some ⟨id, 2, request, none⟩ else s.attempts.get k

omit [Codec] in
theorem retryAutomationFireAfterFailure_eq_ok {id request : String} {version : Nat} {now : Instant}
    (h : s.retryAutomationFireAfterFailure id version request now = .ok s') :
    (∃ f j d kind, Retries id request now f j d kind s s') ∧ s'.jobs = s.jobs ∧
      s'.dispatches = s.dispatches := by
  simp only [retryAutomationFireAfterFailure, bind_eq_ok, find_eq_ok, require_eq_ok, pure_eq_ok,
    Prod.exists, Option.bind_eq_some_iff] at h
  obtain ⟨f, hf, j, d, ⟨jobId, hj, he⟩, _, ⟨hs, _, hn⟩, kind, hk, s₁, h₁, h⟩ := h
  obtain ⟨attempts, ht, rfl⟩ := insertAttempt_eq_ok h₁
  subst h
  refine ⟨⟨f, j, d, kind, ?_⟩, rfl, rfl⟩
  exact {
    fire      := hf
    job       := ⟨jobId, hj, he⟩
    submitted := hs
    first     := hn
    proof     := hk
    second    := (Table.insert_eq_some.mp ht).left
    fires     := fun _ => fires_updateFire (retryFire kind now) fun _ => rfl
    attempts  := Table.get_insert ht
  }

-- All that an action can do to fires and their attempts.
inductive FireEffect (s : State) (a : Action) (s' : State) : Prop
  | progress : Progress s a s s' → FireEffect s a s'
  | creates {r : FireRequest} :
    a = .createAutomationFire r → CreatesFire r s s' → FireEffect s a s'
  | retries {id request : String} {version : Nat} {now : Instant} {f : Fire} {j : Job} {d : Dispatch}
      {kind : RetryKind} :
    a = .retryAutomationFireAfterFailure id version request now →
    Retries id request now f j d kind s s' → FireEffect s a s'

theorem step_fires (h : step s a = .ok s') : FireEffect s a s' := by
  cases a <;> simp only [step, map_eq_ok, Except.ok.injEq, Prod.exists, exists_and_right,
    exists_eq_right] at h
  case createAutomationFire r =>
    exact .creates rfl (createAutomationFire_eq_ok h).left
  case createConnectJob =>
    obtain ⟨_, h⟩ := h
    exact .progress <| .createConnectJob h
  case claimConnectLaneHead => exact .progress <| h ▸ .claimConnectLaneHead
  case deferConnectJob =>
    obtain ⟨_, h⟩ := h
    exact .progress <| .deferConnectJob h
  case expireWaitingConnectJobs now =>
    exact .progress <| h ▸ .of_eq (fires_expireWaitingConnectJobs s now)
      (attempts_expireWaitingConnectJobs s now)
  case transitionConnectJob =>
    obtain ⟨_, h⟩ := h
    exact .progress <| .transitionConnectJob h
  case resetConnectJobForResubmission =>
    obtain ⟨_, h⟩ := h
    exact .progress <| .resetConnectJobForResubmission h
  case reconcileCertificateCompletedReplay =>
    obtain ⟨_, h⟩ := h
    exact .progress <| .reconcileCertificateCompletedReplay h
  case reconcileCertificateCompletedJoin =>
    obtain ⟨_, h⟩ := h
    exact .progress <| .reconcileCertificateCompletedJoin h
  case transitionAutomationFire => exact .progress <| .transitionAutomationFire h
  case decideAutomationFire => exact .progress <| .decideAutomationFire h
  case pauseInteractiveJobAutomationFires =>
    exact .progress <| .pauseInteractiveJobAutomationFires h
  case authorizeConnectJobInteractively =>
    obtain ⟨_, h⟩ := h
    exact .progress <| .authorizeConnectJobInteractively h
  case resumeAutomationFireJob => exact .progress <| .resumeAutomationFireJob h
  case retryAutomationFireAfterFailure id version request now =>
    obtain ⟨⟨_, _, _, _, hr⟩, _⟩ := retryAutomationFireAfterFailure_eq_ok h
    exact .retries rfl hr
  case markSourcesUnavailable => exact .progress <| .markSourcesUnavailable h
  case deleteMessage => exact .progress <| .deleteMessage h

end Connect
