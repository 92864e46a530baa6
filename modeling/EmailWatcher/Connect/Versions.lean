import EmailWatcher.Connect.Fires

namespace Connect

open State Relation

namespace FireState

-- The states that a fire leaves for another one of `automationFireTransitions`.
def live : FireState → Bool
  | pendingDispatch | entitlementPaused | awaitingConfirmation | submitted => true
  | _                                                                      => false

-- The states that a fire never leaves.
def final : FireState → Bool
  | declined | manualReview | sourceUnavailable => true
  | _                                           => false

theorem live_of_transition {q q' : FireState} (h : (q, q') ∈ automationFireTransitions) :
    q.live := by
  cases q <;> simp_all [automationFireTransitions, live]

end FireState

-- What a client sees of a fire besides its version.
def Fire.content (f : Fire) :
    FireState × Option String × Option String × Option PreparedIdentity × Bool :=
  (f.state, f.reason, f.jobId, f.preparedIdentity, f.confirmed)

section Guard

variable [Codec]

-- Every fire of a job without a source is settled by the call that discards the job, unless it has
-- failed for the same reason before.
def keepsVersions (s : State) (a : Action) : Bool :=
  match verdict s a with
  | .ok (some v) =>
    (s.dispatches.get v.jobId).all (·.sourceAvailable) || s.fires.rows.all fun f =>
      f.jobId ≠ some v.jobId || v.settles f ||
      (f.state = .failed && f.reason = some v.failure.code)
  | _ => true

-- A transition that does not submit or close a fire names no other job than that of its attempt.
def namesBoundJob (s : State) : Action → Bool
  | .transitionAutomationFire r => r.jobId.all fun jobId =>
      r.nextState = .submitted || !r.nextState.live ||
      (s.fires.get r.fireId).all fun f => (s.currentAttempt f).any (·.jobId = some jobId)
  | _ => true

structure Regular (s : State) (a : Action) : Prop where
  versions : keepsVersions s a
  job      : namesBoundJob s a

instance (s : State) (a : Action) : Decidable (Regular s a) :=
  decidable_of_iff (keepsVersions s a ∧ namesBoundJob s a)
    ⟨fun ⟨h₁, h₂⟩ => ⟨h₁, h₂⟩, fun ⟨h₁, h₂⟩ => ⟨h₁, h₂⟩⟩

end Guard

-- The moves that a single statement of `a` may make: along the table of transitions, or by the fence
-- of a replay.
inductive Change (a : Action) (f f' : Fire) : Prop
  | edge :
    f'.stateVersion = f.stateVersion + 1 → (f.state, f'.state) ∈ automationFireTransitions →
    Change a f f'
  | fence {jobId : String} {lane : Lane} {result : String} :
    a = .reconcileCertificateCompletedReplay jobId lane result →
    f'.stateVersion = f.stateVersion + 1 → f.state = .completed ∨ f.state = .failed →
    f'.state = .failed → Change a f f'
  | same :
    f'.stateVersion = f.stateVersion → f'.content = f.content → Change a f f'

-- What a later observation of a fire has to do with an earlier one.
structure Follows (f f' : Fire) : Prop where
  version : f.stateVersion ≤ f'.stateVersion
  content : f'.stateVersion = f.stateVersion → f'.content = f.content
  final   : f.state.final → f'.state = f.state

variable {s s' : State} {a : Action} {id : String} {f f' f₁ f₂ f₃ : Fire}

namespace Follows

theorem refl (f : Fire) : Follows f f :=
  ⟨le_refl _, fun _ => rfl, fun _ => rfl⟩

theorem trans (h₁ : Follows f₁ f₂) (h₂ : Follows f₂ f₃) : Follows f₁ f₃ where
  version := h₁.version.trans h₂.version
  content h := by
    have hv₁ := h₁.version
    have hv₂ := h₂.version
    exact (h₂.content (by omega)).trans <| h₁.content (by omega)
  final h := by
    have h₁ := h₁.final h
    exact (h₂.final (h₁ ▸ h)).trans h₁

end Follows

theorem Change.follows (h : Change a f f') : Follows f f' := by
  cases h
  case edge hv he =>
    refine ⟨by omega, fun h => by omega, fun hf => ?_⟩
    have := FireState.live_of_transition he
    cases hs : f.state <;> simp_all [FireState.live, FireState.final]
  case fence _ hv hs _ =>
    refine ⟨by omega, fun h => by omega, fun hf => ?_⟩
    obtain hs | hs := hs <;> simp [hs, FireState.final] at hf
  case same hv hc =>
    exact ⟨hv.ge, fun _ => hc, fun _ => congrArg Prod.fst hc⟩

theorem Change.path_follows (h : ReflTransGen (Change a) f f') : Follows f f' := by
  induction h
  case refl        => exact .refl _
  case tail _ h ih => exact ih.trans h.follows

section Steps

variable [Codec] {B : Fire → String → Prop}

-- Where the guard holds, the overwritten fires are the ones on which the statement has no effect.
theorem Overwrites.failed {v : Verdict} (h : Overwrites s a v f) (hg : keepsVersions s a) :
    f.state = .failed ∧ f.reason = some v.failure.code := by
  simp only [keepsVersions, h.verdict, Bool.or_eq_true, List.all_eq_true, Bool.and_eq_true,
    decide_eq_true_eq] at hg
  obtain hs | hf := hg
  case inl =>
    have := h.sourceLess
    cases hd : s.dispatches.get v.jobId <;> simp_all
  case inr =>
    obtain (hj | hs) | hf := hf f h.fire
    case inl.inl => exact absurd h.job hj
    case inl.inr => exact absurd hs h.unsettled
    case inr     => exact hf

omit [Codec] in
theorem unlink_edge (old : Job) (h : f.state.linked) :
    (f.unlink old).stateVersion = f.stateVersion + 1 ∧
    (f.state, (f.unlink old).state) ∈ automationFireTransitions := by
  unfold Fire.unlink
  split <;> refine ⟨rfl, ?_⟩ <;> cases hs : f.state <;>
    simp_all [Fire.advance, FireState.linked, automationFireTransitions]

theorem FireStep.change (hg : Regular s a) (h : FireStep s a B f f') : Change a f f' := by
  cases h
  case pause hs => exact .edge rfl <| by simp [hs, Fire.advance, automationFireTransitions]
  case settle hl hs =>
    refine .edge rfl ?_
    obtain rfl | rfl := hs <;> cases hf : f.state <;>
      simp_all [Fire.advance, FireState.linked, automationFireTransitions]
  case fence ha hs => exact .fence ha rfl hs rfl
  case unlink old hl =>
    obtain ⟨hv, he⟩ := unlink_edge old (Progress.linked_of_linkedTo hl)
    exact .edge hv he
  case transition he _ => exact .edge rfl he
  case decide confirmed now hs =>
    refine .edge rfl ?_
    cases confirmed <;> simp [hs, decideFire, automationFireTransitions]
  case resume hs _ => exact .edge rfl <| by simp [hs, resumeFire, automationFireTransitions]
  case retry hs _ => exact .edge rfl <| by simp [hs, retryFire, automationFireTransitions]
  case bind hs _ =>
    refine .edge rfl ?_
    obtain hs | hs := hs <;> simp [hs, Fire.advance, automationFireTransitions]
  case overwrite v ho =>
    obtain ⟨hs, hr⟩ := ho.failed hg.versions
    exact .same rfl <| by simp [Fire.content, Verdict.overwrite, hs, hr]

theorem FireStep.path_change (hg : Regular s a) (h : ReflTransGen (FireStep s a B) f f') :
    ReflTransGen (Change a) f f' :=
  ReflTransGen.mono (fun _ _ => FireStep.change hg) _ _ h

end Steps

-- A live fire that has a job is at an attempt that belongs to it.
structure Linked (s : State) (f : Fire) : Prop where
  bound     : f.state.live → ∀ jobId, f.jobId = some jobId → s.Bound f jobId
  submitted : f.state = .submitted → f.jobId.isSome

theorem Linked.of_not_live (h : f.state.live = false) : Linked s f where
  bound     := by simp [h]
  submitted := by
    intro hs
    simp [hs, FireState.live] at h

section Links

variable [Codec]

theorem FireStep.linked (hg : Regular s a) (hb : ∀ jobId, s.Bound f jobId → s'.Bound f jobId)
    (hl : Linked s' f) (h : FireStep s a s'.Bound f f') : Linked s' f' := by
  cases h
  case pause hs =>
    exact ⟨fun _ => hl.bound (by simp [hs, FireState.live]), by simp [Fire.advance]⟩
  case settle _ hs =>
    refine .of_not_live ?_
    obtain rfl | rfl := hs <;> rfl
  case fence => exact .of_not_live rfl
  case unlink old hf =>
    refine .of_not_live ?_
    unfold Fire.unlink
    split <;> rfl
  case overwrite => exact .of_not_live rfl
  case decide hs =>
    refine ⟨fun _ => hl.bound (by simp [hs, FireState.live]), ?_⟩
    simp only [decideFire]
    split <;> simp
  case resume hs hj => exact ⟨fun _ => hl.bound (by simp [hs, FireState.live]), fun _ => hj⟩
  case retry => exact ⟨by simp [retryFire], by simp [retryFire]⟩
  case bind jobId _ hj =>
    refine ⟨fun _ jobId' hj' => ?_, fun _ => rfl⟩
    cases Option.some.inj hj'
    exact hj
  case transition r ha hf he hs =>
    refine ⟨fun hn jobId hj => ?_, fun hn => ?_⟩
    case refine_2 =>
      obtain ⟨jobId, hj, _⟩ := hs hn
      simp [FireTransition.apply, hj]
    case refine_1 =>
      by_cases hsub : r.nextState = .submitted
      case pos =>
        obtain ⟨jobId', hj', hb'⟩ := hs hsub
        cases hj'.symm.trans hj
        exact hb'
      case neg =>
        have hj : r.jobId.or f.jobId = some jobId := hj
        cases hr : r.jobId
        case none =>
          rw [hr, Option.none_or] at hj
          exact hl.bound (FireState.live_of_transition he) jobId hj
        case some k =>
          have hn : r.nextState.live := hn
          have hg := hg.job
          rw [hr, Option.some_or] at hj
          cases Option.some.inj hj
          simp only [ha, namesBoundJob, hr, Option.all_some, hsub, decide_false, hn, Bool.not_true,
            hf, Bool.false_or, Option.any_eq_true, decide_eq_true_eq] at hg
          exact hb jobId hg

theorem FireStep.path_linked (hg : Regular s a)
    (hb : ∀ g : Fire, g.fireId = f.fireId → ∀ jobId, s.Bound g jobId → s'.Bound g jobId)
    (hl : Linked s' f) (h : ReflTransGen (FireStep s a s'.Bound) f f') : Linked s' f' := by
  induction h
  case refl         => exact hl
  case tail hp h ih => exact h.linked hg (hb _ <| path_fireId hp) ih

end Links

namespace FireEffect

variable [Codec]

-- A fire that is there after an action has been there before, or it is new.
theorem fires (h : FireEffect s a s') (hf : s'.fires.get id = some f') :
    (∃ f, s.fires.get id = some f ∧ ReflTransGen (FireStep s a s'.Bound) f f') ∨
    (s.fires.get id = none ∧ ∃ r : FireRequest, f' = r.fire) := by
  cases h
  case progress hp => exact .inl <| hp.fires id f' hf
  case creates r _ hc =>
    rw [hc.fires] at hf
    split at hf
    case isTrue hid  => exact .inr ⟨hid ▸ hc.fresh, r, (Option.some.inj hf).symm⟩
    case isFalse hid => exact .inl ⟨f', hf, .refl⟩
  case retries f _ _ _ _ hr =>
    rw [hr.fires] at hf
    split at hf
    case isFalse => exact .inl ⟨f', hf, .refl⟩
    case isTrue hid =>
      subst hid
      rw [hr.fire, Option.map_some] at hf
      exact .inl ⟨f, hr.fire, .single <| Option.some.inj hf ▸ .retry hr.submitted hr.first⟩

theorem bound (h : FireEffect s a s') (hf : (s'.fires.get f.fireId).isSome) {jobId : String}
    (hb : s.Bound f jobId) : s'.Bound f jobId := by
  have hb' := hb
  obtain ⟨t, ht, hj⟩ := hb'
  unfold currentAttempt at ht
  cases h
  case progress hp => exact hp.bound hf hb
  case creates hc =>
    refine ⟨t, ?_, hj⟩
    rw [currentAttempt, hc.attempts, if_neg]
    · exact ht
    · intro hk
      simp [← hk, hc.first] at ht
  case retries hr =>
    refine ⟨t, ?_, hj⟩
    rw [currentAttempt, hr.attempts, if_neg]
    · exact ht
    · intro hk
      simp [← hk, hr.second] at ht

end FireEffect

section Runs

variable [Codec]

def LinkedFires (s : State) : Prop :=
  ∀ id f, s.fires.get id = some f → Linked s f

theorem step_linked (h : step s a = .ok s') (hg : Regular s a) (hl : LinkedFires s) :
    LinkedFires s' := by
  intro id f' hf'
  have he := step_fires h
  obtain ⟨f, hf, hp⟩ | ⟨_, r, rfl⟩ := he.fires hf'
  case inr => exact ⟨by simp [FireRequest.fire], by simp [FireRequest.fire]⟩
  case inl =>
    have hid : f.fireId = id := Table.key_of_get hf
    have hb (g : Fire) (hg : g.fireId = f.fireId) (jobId : String) (hb : s.Bound g jobId) :
        s'.Bound g jobId :=
      he.bound (by simp [hg, hid, hf']) hb
    refine FireStep.path_linked hg hb ?_ hp
    exact ⟨fun hs jobId hj => hb f rfl jobId <| (hl id f hf).bound hs jobId hj,
      (hl id f hf).submitted⟩

theorem run_linked {as : List Action} (hg : machine.Guarded Regular ∅ as) :
    LinkedFires (machine.run ∅ as) := by
  refine Machine.guarded_invariant (m := machine) (C := Regular) ?_ ?_ hg
  · exact fun _ _ _ hl hg h => step_linked h hg hl
  · intro _ _ h
    cases h

theorem step_change (h : step s a = .ok s') (hg : Regular s a) (hf : s.fires.get id = some f)
    (hf' : s'.fires.get id = some f') : ReflTransGen (Change a) f f' := by
  obtain ⟨f₁, hf₁, hp⟩ | ⟨hn, _⟩ := (step_fires h).fires hf'
  case inr => simp [hf] at hn
  case inl =>
    cases hf.symm.trans hf₁
    exact FireStep.path_change hg hp

theorem run_follows {as : List Action} (hg : machine.Guarded Regular s as)
    (hp : machine.Always (fun s => (s.fires.get id).isSome) s as) (hf : s.fires.get id = some f) :
    ∃ f', (machine.run s as).fires.get id = some f' ∧ Follows f f' := by
  let R (s s' : State) : Prop := ∀ f, s.fires.get id = some f →
    ∃ f', s'.fires.get id = some f' ∧ Follows f f'
  have hR : R s (machine.run s as) := by
    refine Machine.relation (I := fun _ => True) (C := Regular) ?_ ?_ ?_ ?_ trivial hg hp
    · exact fun s f hf => ⟨f, hf, .refl f⟩
    · intro s₁ s₂ s₃ h₁ h₂ f hf
      obtain ⟨f₂, hf₂, hl₂⟩ := h₁ f hf
      obtain ⟨f₃, hf₃, hl₃⟩ := h₂ f₂ hf₂
      exact ⟨f₃, hf₃, hl₂.trans hl₃⟩
    · exact fun _ _ _ _ _ _ => trivial
    · intro s a s' _ hg _ hp' h f hf
      obtain ⟨f', hf'⟩ := Option.isSome_iff_exists.mp hp'
      exact ⟨f', hf', Change.path_follows <| step_change h hg hf hf'⟩
  exact hR f hf

-- The fires of a state from which any further regular actions may follow.
structure Versioned (s : State) : Prop where
  -- Two observations of a fire with the same version agree, whatever happens in between.
  content : ∀ as, machine.Guarded Regular s as → ∀ id f,
    machine.Always (fun s => (s.fires.get id).isSome) s as → s.fires.get id = some f →
    ∃ f', (machine.run s as).fires.get id = some f' ∧ f.stateVersion ≤ f'.stateVersion ∧
      (f'.stateVersion = f.stateVersion → f'.content = f.content)
  -- Every action moves a fire by single changes.
  changes : ∀ a s', Regular s a → step s a = .ok s' → ∀ id f f',
    s.fires.get id = some f → s'.fires.get id = some f' → ReflTransGen (Change a) f f'
  final : ∀ as, machine.Guarded Regular s as → ∀ id f,
    machine.Always (fun s => (s.fires.get id).isSome) s as → s.fires.get id = some f →
    f.state ∈ [FireState.declined, .manualReview, .sourceUnavailable] →
    ∃ f', (machine.run s as).fires.get id = some f' ∧ f'.state = f.state
  submitted : ∀ id f, s.fires.get id = some f → f.state = .submitted →
    ∃ jobId, f.jobId = some jobId ∧ s.Bound f jobId

theorem fires_versioned (as : List Action) (h : machine.Guarded Regular ∅ as) :
    Versioned (machine.run ∅ as) where
  content := by
    intro bs hg id f hp hf
    obtain ⟨f', hf', hl⟩ := run_follows hg hp hf
    exact ⟨f', hf', hl.version, hl.content⟩
  changes := fun a s' hg h id f f' hf hf' => step_change h hg hf hf'
  final := by
    intro bs hg id f hp hf hs
    obtain ⟨f', hf', hl⟩ := run_follows hg hp hf
    refine ⟨f', hf', hl.final ?_⟩
    cases hs' : f.state <;> simp_all [FireState.final]
  submitted := by
    intro id f hf hs
    have hl := run_linked h id f hf
    obtain ⟨jobId, hj⟩ := Option.isSome_iff_exists.mp (hl.submitted hs)
    exact ⟨jobId, hj, hl.bound (by simp [hs, FireState.live]) jobId hj⟩

end Runs

-- An automation rule that fires on one attachment, and the certificate job that it starts.
namespace Sample

def fireId : String := "5b0f9a52-58d4-4a5c-9d0e-3f5f0f6f1a01"

def jobId : String := "5b0f9a52-58d4-4a5c-9d0e-3f5f0f6f1a02"

def lane : Lane := ("certificate-service", "local")

-- A generic result with one empty text, which is no certificate.
def result : String :=
  "\x7b\"outputs\":[\x7b\"artifact_id\":\"5b0f9a52-58d4-4a5c-9d0e-3f5f0f6f1a03\"," ++
  "\"media_type\":\"text/plain\",\"display_name\":\"note.txt\",\"byte_size\":0,\"sha256\":" ++
  "\"e3b0c44298fc1c149afbf4c8996fb92427ae41e4649b934ca495991b7852b855\"," ++
  "\"payload_base64\":\"\"\x7d]\x7d"

-- The codecs, as far as they are asked about the result above.
scoped instance codec : Codec where
  sha256 _ := "e3b0c44298fc1c149afbf4c8996fb92427ae41e4649b934ca495991b7852b855"
  encodeGenericResult text :=
    if text = result then .ok (text, text)
    else .error <| .value "Completed Connect v2 result is invalid"
  validateGenericResult text :=
    if text = result then .ok [⟨"text/plain", ""⟩]
    else .error <| .value "Completed Connect v2 result is invalid"
  decodeGenericResult text :=
    if text = result then .ok [⟨"text/plain", ""⟩]
    else .error <| .runtime "Completed Connect v2 result is invalid"
  validateCertificateRecord _ _ _ _ := none
  completedSummary _ := .error <| .value "Completed Connect v1 result is invalid"

def fire : FireRequest where
  fireId            := fireId
  ruleId            := "5b0f9a52-58d4-4a5c-9d0e-3f5f0f6f1a04"
  ruleVersion       := 1
  messageId         := "message"
  partId            := "2"
  dispatchRequestId := jobId
  now               := 0

def job : JobRequest where
  jobId                          := jobId
  messageId                      := "message"
  partId                         := "2"
  protocolVersion                := .v2
  capabilityId                   := certificateCapabilityId
  capabilityVersion              := certificateCapabilityVersion
  providerAppId                  := lane.fst
  providerInstanceId             := lane.snd
  invocationFingerprint          := .ok "fingerprint"
  inputByteSize                  := 0
  inputSha256                    := "e3b0c44298fc1c149afbf4c8996fb92427ae41e4649b934ca495991b7852b855"
  inputDisplayName               := some "certificate.pdf"
  capabilityExternalEffects      := false
  capabilityConfirmationRequired := false
  now                            := 0

def submits : FireTransition where
  fireId           := fireId
  expectedState    := .pendingDispatch
  expectedVersion  := 1
  nextState        := .submitted
  reason           := some "connect_admitted"
  jobId            := some jobId
  preparedIdentity := none
  confirmed        := none
  now              := Instant.second

def reviews : FireTransition where
  fireId           := fireId
  expectedState    := .submitted
  expectedVersion  := 2
  nextState        := .manualReview
  reason           := some "manual_review"
  jobId            := none
  preparedIdentity := none
  confirmed        := none
  now              := Instant.second

def completes : Transition where
  jobId         := jobId
  expectedState := .requested
  nextState     := .completed
  lane          := lane
  result        := some result
  error         := none

-- The job is at its provider and the fire is submitted.
def submitted : List Action := [
  .createAutomationFire fire,
  .createConnectJob job true true,
  .claimConnectLaneHead lane none (fun _ => true) Instant.second,
  .transitionAutomationFire submits
]

-- The source goes away while the fire still waits for its job.
def settled : List Action := submitted ++ [
  .markSourcesUnavailable ["message"],
  .transitionConnectJob completes true .withheld
]

-- The source goes away after the fire has been taken out of the job's hands.
def reviewed : List Action := submitted ++ [
  .transitionAutomationFire reviews,
  .markSourcesUnavailable ["message"]
]

end Sample

open Sample in
theorem fires_versioned_settled :
    machine.Guarded Regular ∅ settled ∧ Versioned (machine.run ∅ settled) :=
  have h : machine.Guarded Regular ∅ settled := by decide +kernel
  ⟨h, fires_versioned settled h⟩

-- The completion of the job moves a fire in review to `failed`, at the same version.
open Sample in
theorem not_versioned_reviewed :
    ¬∀ (as bs : List Action) (id : String) (f f' : Fire),
      (machine.run ∅ as).fires.get id = some f →
      machine.Always (fun s => (s.fires.get id).isSome) (machine.run ∅ as) bs →
      (machine.run (machine.run ∅ as) bs).fires.get id = some f' →
      f'.stateVersion = f.stateVersion → f'.content = f.content := by
  intro h
  have hf : ((machine.run ∅ reviewed).fires.get fireId).map (fun f => (f.stateVersion, f.state)) =
      some (3, .manualReview) := by decide +kernel
  have hf' : ((machine.run (machine.run ∅ reviewed)
      [.transitionConnectJob completes true .withheld]).fires.get fireId).map
        (fun f => (f.stateVersion, f.state)) = some (3, .failed) := by decide +kernel
  obtain ⟨f, hf, hs⟩ := Option.map_eq_some_iff.mp hf
  obtain ⟨f', hf', hs'⟩ := Option.map_eq_some_iff.mp hf'
  obtain ⟨hv, hs⟩ := Prod.mk.inj hs
  obtain ⟨hv', hs'⟩ := Prod.mk.inj hs'
  have hc := h _ _ _ f f' hf (by decide +kernel) hf' (hv'.trans hv.symm)
  have hstate : f'.state = f.state := congrArg Prod.fst hc
  simp [hs, hs'] at hstate

end Connect
