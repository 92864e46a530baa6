import EmailWatcher.Connect.Versions

namespace Connect

open State Relation

section Runs

variable [Codec]

-- A provider reports the store's own deadline code for a job that it has not accepted.
def forgesDeadline (s : State) : Action → Bool
  | .transitionConnectJob r _ _ =>
    r.nextState = .failed && (r.error.bind (·.code) = some queueDeadlineExceeded) &&
    (s.dispatches.get r.jobId).any (·.highestProviderState = .requested)
  | _ => false

def Unforged (s : State) (a : Action) : Prop :=
  forgesDeadline s a = false

instance (s : State) (a : Action) : Decidable (Unforged s a) :=
  inferInstanceAs <| Decidable (_ = _)

-- The action lets the job expire, and leaves the row `j'` of it: nobody has been told about the job,
-- and no provider has accepted it.
def FailedByDeadline (k : String) (j' : Job) (s : State) (a : Action) (s' : State) : Prop :=
  ∃ m now j d, expiry s a = some (m, now) ∧ m.entry k = some (j, d) ∧ d.state = .waiting ∧
    d.submissionPossible = false ∧ d.highestProviderState = .requested ∧
    j' = expiredJob j ∧ s'.jobs.get k = some j'

-- The action reports that the provider was busy and the job can be tried again.
def FailedByBusyProvider (k : String) (j' : Job) (_ : State) (a : Action) (s' : State) : Prop :=
  ∃ r target reading e, a = .transitionConnectJob r target reading ∧ r.jobId = k ∧
    r.nextState = .failed ∧ r.error = some e ∧ e.code = some providerResourceBusy ∧ e.retryable ∧
    s'.jobs.get k = some j'

-- Every failed job has failed by what its row says.
def Accounted (as : List Action) (s : State) : Prop :=
  ∀ k j d, s.entry k = some (j, d) → j.status = .failed →
    (j.errorCode = some queueDeadlineExceeded → d.highestProviderState = .requested →
      machine.Occurs (FailedByDeadline k j) ∅ as) ∧
    (j.errorCode = some providerResourceBusy → j.errorRetryable = some true →
      machine.Occurs (FailedByBusyProvider k j) ∅ as)

variable {s s' : State} {a : Action} {as : List Action} {k id : String} {j : Job} {d : Dispatch}

theorem Accounted.concat (h : Accounted as s) (a : Action) : Accounted (as ++ [a]) s := by
  intro k j d he hf
  obtain ⟨hd, hb⟩ := h k j d he hf
  exact ⟨fun hc hr => Machine.Occurs.concat.mpr <| .inl <| hd hc hr,
    fun hc hr => Machine.Occurs.concat.mpr <| .inl <| hb hc hr⟩

-- What a failed transition leaves in the row is what has been reported.
theorem failed_values {r : Transition} {v : JobValues} (h : Transitionable s r j)
    (hf : r.nextState = .failed) (hv : r.values j.protocolVersion = .ok v) :
    ∃ e, r.error = some e ∧ v.errorCode = e.code ∧ v.errorRetryable = some e.retryable := by
  obtain ⟨e, he⟩ := Option.isSome_iff_exists.mp (h.error hf).left
  simp only [Transition.values, hf, he] at hv
  cases Except.ok.inj hv
  exact ⟨e, he, rfl, rfl⟩

theorem step_accounted (hc : Consistent (machine.run ∅ as)) (hp : Accounted as (machine.run ∅ as))
    (hg : Unforged (machine.run ∅ as) a) (h : step (machine.run ∅ as) a = .ok s') :
    Accounted (as ++ [a]) s' := by
  intro k j' d' he' hf
  have hE := step_effect h
  obtain ⟨hj', hd'⟩ := entry_eq_some.mp he'
  have hv' := (hE.consistent hc).valid he'
  cases hE.failed hc hj' hf
  case inl hj =>
    obtain ⟨d, he⟩ := hc.dispatched hj hv'.v2
    have hle := hE.highest_le hc he he'
    obtain ⟨hd, hb⟩ := hp.concat a k j' d he hf
    exact ⟨fun hx hr => hd hx <| ProviderState.requested_of_rank_le hle hr, hb⟩
  case inr hF =>
    cases hF
    case expired m now j d hx he e heq =>
      have hr : d.highestProviderState = .requested := by
        by_contra hn
        exact (((hc.expiry hx).valid he).admitted hn).left e.waiting
      refine ⟨fun _ _ => ?_, ?_⟩
      case refine_1 =>
        refine Machine.Occurs.concat.mpr <| .inr ⟨s', h, ?_⟩
        exact ⟨m, now, j, d, hx, he, e.waiting, e.possible, hr, heq, hj'⟩
      case refine_2 =>
        subst heq
        intro hb
        simp [expiredJob, queueDeadlineExceeded, providerResourceBusy] at hb
    case reported r target reading j v ha hk hn ht hv heq =>
      obtain ⟨e, hre, hec, her⟩ := failed_values ht hn hv
      have hcode : j'.errorCode = e.code := by rw [heq, ← hec]; rfl
      have hretry : j'.errorRetryable = some e.retryable := by rw [heq, ← her]; rfl
      refine ⟨fun hx hr => ?_, fun hb hy => ?_⟩
      case refine_1 =>
        exfalso
        have hv₂ : j.protocolVersion = .v2 := by
          rw [← hv'.v2, heq]
          rfl
        obtain ⟨d, he⟩ := hc.dispatched ht.job hv₂
        have hrd := ProviderState.requested_of_rank_le (hE.highest_le hc (hk ▸ he) he') hr
        have hx : e.code = some queueDeadlineExceeded := hcode ▸ hx
        simp [Unforged, forgesDeadline, ha, hn, hre, hx, (entry_eq_some.mp he).right, hrd] at hg
      case refine_2 =>
        refine Machine.Occurs.concat.mpr <| .inr ⟨s', h, ?_⟩
        refine ⟨r, target, reading, e, ha, hk, hn, hre, hcode ▸ hb, ?_, hj'⟩
        simpa [hretry] using hy

theorem run_accounted (hg : machine.Guarded Unforged ∅ as) : Accounted as (machine.run ∅ as) := by
  refine Machine.history (m := machine) (C := Unforged) ?_ ?_ (fun _ a h => h.concat a) hg
  · intro _ _ _ he
    cases he
  · exact fun as a s' hp hg h => step_accounted (run_consistent as) hp hg h

section Attempts

variable {f f' : Fire} {t : Attempt}

-- The attempts of a fire are numbered one and two.
def NumberedAttempts (s : State) : Prop :=
  ∀ k t, s.attempts.get k = some t → k.snd = 1 ∨ k.snd = 2

theorem step_numbered (h : step s a = .ok s') (hn : NumberedAttempts s) : NumberedAttempts s' := by
  intro k t ht
  cases step_fires h
  case progress hp =>
    obtain ⟨t₀, ht₀, _⟩ := hp.attempts k t ht
    exact hn k t₀ ht₀
  case creates hc =>
    rw [hc.attempts] at ht
    split at ht
    case isTrue hk  => exact hk ▸ .inl rfl
    case isFalse    => exact hn k t ht
  case retries hr =>
    rw [hr.attempts] at ht
    split at ht
    case isTrue hk  => exact hk ▸ .inr rfl
    case isFalse    => exact hn k t ht

theorem run_numbered (as : List Action) : NumberedAttempts (machine.run ∅ as) := by
  refine Machine.invariant (m := machine) (fun _ _ _ hn h => step_numbered h hn) ?_ as
  intro _ _ h
  cases h

omit [Codec] in
theorem NumberedAttempts.length_le (h : NumberedAttempts s) (id : String) :
    (s.attempts.rows.filter (·.fireId = id)).length ≤ 2 := by
  let keys := (s.attempts.rows.filter (·.fireId = id)).map Keyed.key
  have hsub : keys ⊆ [(id, 1), (id, 2)] := by
    intro k hk
    obtain ⟨t, ht, hkey⟩ := List.mem_map.mp hk
    obtain ⟨hm, hid⟩ := List.mem_filter.mp ht
    have hid : t.fireId = id := by simpa using hid
    have hkey : k = (id, t.attemptNo) := by rw [← hkey, ← hid]; rfl
    have := h _ _ (Table.get_of_mem hm)
    obtain hn | hn := this
    · have hn : t.attemptNo = 1 := hn
      simp [hkey, hn]
    · have hn : t.attemptNo = 2 := hn
      simp [hkey, hn]
  have hle := (List.subperm_of_subset (s.attempts.nodup_filter _) hsub).length_le
  simpa [keys] using hle

theorem step_attempt (h : step s a = .ok s') {k : String × Nat} {t t' : Attempt}
    (ht : s.attempts.get k = some t) (ht' : s'.attempts.get k = some t') : AttemptStep t t' := by
  cases step_fires h
  case progress hp =>
    obtain ⟨t₀, ht₀, hs⟩ := hp.attempts k t' ht'
    cases ht.symm.trans ht₀
    exact hs
  case creates hc =>
    rw [hc.attempts, if_neg (by rintro rfl; simp [hc.first] at ht)] at ht'
    cases ht.symm.trans ht'
    exact .refl t
  case retries hr =>
    rw [hr.attempts, if_neg (by rintro rfl; simp [hr.second] at ht)] at ht'
    cases ht.symm.trans ht'
    exact .refl t

theorem run_attempt {k : String × Nat}
    (hp : machine.Always (fun s => (s.attempts.get k).isSome) s as)
    (ht : s.attempts.get k = some t) :
    ∃ t', (machine.run s as).attempts.get k = some t' ∧ AttemptStep t t' := by
  let R (s s' : State) : Prop := ∀ t, s.attempts.get k = some t →
    ∃ t', s'.attempts.get k = some t' ∧ AttemptStep t t'
  have hR : R s (machine.run s as) := by
    refine Machine.relation (I := fun _ => True) (C := fun _ _ => True) ?_ ?_ ?_ ?_ trivial
      Machine.guarded_true hp
    · exact fun s t ht => ⟨t, ht, .refl t⟩
    · intro s₁ s₂ s₃ h₁ h₂ t ht
      obtain ⟨t₂, ht₂, hs₂⟩ := h₁ t ht
      obtain ⟨t₃, ht₃, hs₃⟩ := h₂ t₂ ht₂
      exact ⟨t₃, ht₃, hs₂.trans hs₃⟩
    · exact fun _ _ _ _ _ _ => trivial
    · intro s a s' _ _ _ hp' h t ht
      obtain ⟨t', ht'⟩ := Option.isSome_iff_exists.mp hp'
      exact ⟨t', ht', step_attempt h ht ht'⟩
  exact hR t ht

theorem FireStep.attemptNo {B : Fire → String → Prop} (h : FireStep s a B f f') :
    f.currentAttemptNo = 2 → f'.currentAttemptNo = 2 := by
  cases h
  case unlink =>
    unfold Fire.unlink
    split <;> exact id
  case retry => exact fun _ => rfl
  all_goals exact id

-- No fire gets past its second attempt.
theorem step_second (h : step s a = .ok s') (hf : s.fires.get id = some f)
    (hf' : s'.fires.get id = some f') (hn : f.currentAttemptNo = 2) : f'.currentAttemptNo = 2 := by
  obtain ⟨f₁, hf₁, hp⟩ | ⟨hnone, _⟩ := (step_fires h).fires hf'
  case inr => simp [hf] at hnone
  case inl =>
    cases hf.symm.trans hf₁
    clear hf hf₁ hf'
    induction hp
    case refl        => exact hn
    case tail _ h ih => exact h.attemptNo ih

theorem run_second (hp : machine.Always (fun s => (s.fires.get id).isSome) s as)
    (hf : s.fires.get id = some f) (hn : f.currentAttemptNo = 2) :
    ∃ f', (machine.run s as).fires.get id = some f' ∧ f'.currentAttemptNo = 2 := by
  let R (s s' : State) : Prop := ∀ f, s.fires.get id = some f → f.currentAttemptNo = 2 →
    ∃ f', s'.fires.get id = some f' ∧ f'.currentAttemptNo = 2
  have hR : R s (machine.run s as) := by
    refine Machine.relation (I := fun _ => True) (C := fun _ _ => True) ?_ ?_ ?_ ?_ trivial
      Machine.guarded_true hp
    · exact fun s f hf hn => ⟨f, hf, hn⟩
    · intro s₁ s₂ s₃ h₁ h₂ f hf hn
      obtain ⟨f₂, hf₂, hn₂⟩ := h₁ f hf hn
      exact h₂ f₂ hf₂ hn₂
    · exact fun _ _ _ _ _ _ => trivial
    · intro s a s' _ _ _ hp' h f hf hn
      obtain ⟨f', hf'⟩ := Option.isSome_iff_exists.mp hp'
      exact ⟨f', hf', step_second h hf hf' hn⟩
  exact hR f hf hn

end Attempts

omit [Codec] in
theorem failureRetryKind_eq_deadline {code : Option String}
    (h : code.bind failureRetryKind = some .admissionDeadline) :
    code = some queueDeadlineExceeded := by
  obtain ⟨text, hc, hk⟩ := Option.bind_eq_some_iff.mp h
  unfold failureRetryKind at hk
  split at hk
  case isTrue ht => exact ht ▸ hc
  case isFalse => split at hk <;> cases hk

omit [Codec] in
theorem failureRetryKind_eq_busy {code : Option String}
    (h : code.bind failureRetryKind = some .resourceBusy) : code = some providerResourceBusy := by
  obtain ⟨text, hc, hk⟩ := Option.bind_eq_some_iff.mp h
  unfold failureRetryKind at hk
  split at hk
  case isTrue => cases hk
  case isFalse =>
    split at hk
    case isTrue ht => exact ht ▸ hc
    case isFalse   => cases hk

omit [Codec] in
theorem retryKind_eq_some {kind : RetryKind} (h : automationFailureRetryKind j d = some kind) :
    j.status = .failed ∧
    ((j.errorCode = some queueDeadlineExceeded ∧ d.highestProviderState = .requested) ∨
    (j.errorCode = some providerResourceBusy ∧ j.errorRetryable = some true ∧
      d.capabilityAuthorityKnown ∧ d.capabilityExternalEffects = false)) := by
  unfold automationFailureRetryKind at h
  split at h
  case isTrue => cases h
  case isFalse hs =>
    refine ⟨not_not.mp hs, ?_⟩
    split at h
    case h_3 => cases h
    case h_1 hk =>
      split at h
      case isFalse => cases h
      case isTrue hr => exact .inl ⟨failureRetryKind_eq_deadline hk, hr⟩
    case h_2 hk =>
      split at h
      case isFalse => cases h
      case isTrue hr => exact .inr ⟨failureRetryKind_eq_busy hk, hr.left, hr.right.left, by
        simpa using hr.right.right⟩

-- What the store knows about the attempts of fires after a run.
structure RetrySafe (as : List Action) : Prop where
  -- A second attempt rests on what has happened to the job of the first.
  proof : ∀ id version request now s',
    step (machine.run ∅ as) (.retryAutomationFireAfterFailure id version request now) = .ok s' →
    ∃ f jobId j d, (machine.run ∅ as).fires.get id = some f ∧ f.currentAttemptNo = 1 ∧
      f.jobId = some jobId ∧ (machine.run ∅ as).entry jobId = some (j, d) ∧
      (machine.Occurs (FailedByDeadline jobId j) ∅ as ∨
      (machine.Occurs (FailedByBusyProvider jobId j) ∅ as ∧ d.capabilityAuthorityKnown ∧
        d.capabilityExternalEffects = false))
  count : ∀ id, ((machine.run ∅ as).attempts.rows.filter (·.fireId = id)).length ≤ 2
  -- Whatever happens to an attempt, its request stays, and so does its job once it has one.
  attempts : ∀ bs k t, machine.Always (fun s => (s.attempts.get k).isSome) (machine.run ∅ as) bs →
    (machine.run ∅ as).attempts.get k = some t →
    ∃ t', (machine.run (machine.run ∅ as) bs).attempts.get k = some t' ∧
      t'.dispatchRequestId = t.dispatchRequestId ∧
      ∀ jobId, t.jobId = some jobId → t'.jobId = some jobId
  -- A fire at its second attempt stays there and is not retried.
  second : ∀ bs id f, machine.Always (fun s => (s.fires.get id).isSome) (machine.run ∅ as) bs →
    (machine.run ∅ as).fires.get id = some f → f.currentAttemptNo = 2 →
    (∃ f', (machine.run (machine.run ∅ as) bs).fires.get id = some f' ∧ f'.currentAttemptNo = 2) ∧
    ∀ version request now s',
      step (machine.run (machine.run ∅ as) bs)
        (.retryAutomationFireAfterFailure id version request now) ≠ .ok s'

theorem automation_retry_safe (as : List Action) (h : machine.Guarded Unforged ∅ as) :
    RetrySafe as where
  proof := by
    intro id version request now s' hok
    obtain ⟨⟨f, j, d, kind, hr⟩, _⟩ := retryAutomationFireAfterFailure_eq_ok hok
    obtain ⟨jobId, hj, he⟩ := hr.job
    refine ⟨f, jobId, j, d, hr.fire, hr.first, hj, he, ?_⟩
    obtain ⟨hf, hk⟩ := retryKind_eq_some hr.proof
    obtain ⟨hd, hb⟩ := run_accounted h jobId j d he hf
    obtain ⟨hc, hh⟩ | ⟨hc, hy, ha, hx⟩ := hk
    case inl => exact .inl <| hd hc hh
    case inr => exact .inr ⟨hb hc hy, ha, hx⟩
  count    := (run_numbered as).length_le
  attempts := by
    intro bs k t hp ht
    obtain ⟨t', ht', hs⟩ := run_attempt hp ht
    exact ⟨t', ht', hs.request, hs.job⟩
  second := by
    intro bs id f hp hf hn
    obtain ⟨f', hf', hn'⟩ := run_second hp hf hn
    refine ⟨⟨f', hf', hn'⟩, fun version request now s' hok => ?_⟩
    obtain ⟨⟨f₁, _, _, _, hr⟩, _⟩ := retryAutomationFireAfterFailure_eq_ok hok
    cases hf'.symm.trans hr.fire
    have := hr.first
    omega

end Runs

-- The fire above, for a job whose provider says that it has missed the deadline of the queue.
namespace Sample

def forged : ProviderError where
  code      := some queueDeadlineExceeded
  message   := some "The request expired in the provider's queue."
  retryable := false

def fails (e : ProviderError) : Transition where
  jobId         := jobId
  expectedState := .requested
  nextState     := .failed
  lane          := lane
  result        := none
  error         := some e

def busy : ProviderError where
  code      := some providerResourceBusy
  message   := some "The provider is busy."
  retryable := true

def secondJobId : String := "5b0f9a52-58d4-4a5c-9d0e-3f5f0f6f1a05"

def retries : Action :=
  .retryAutomationFireAfterFailure fireId 2 secondJobId (2 * Instant.second)

def failed (e : ProviderError) : List Action :=
  submitted ++ [.transitionConnectJob (fails e) true .withheld]

end Sample

open Sample in
theorem automation_retry_safe_busy :
    machine.Guarded Unforged ∅ (failed busy) ∧ (step (machine.run ∅ (failed busy)) retries).isOk ∧
      RetrySafe (failed busy) :=
  have h : machine.Guarded Unforged ∅ (failed busy) := by decide +kernel
  ⟨h, by decide +kernel, automation_retry_safe (failed busy) h⟩

-- The code alone is taken for proof that the job has expired.
open Sample in
theorem not_retry_safe_forged : ¬RetrySafe (failed forged) := by
  intro h
  have hok : (step (machine.run ∅ (failed forged)) retries).isOk := by decide +kernel
  have hmessage : ((machine.run ∅ (failed forged)).jobs.get jobId).map (·.errorMessage) =
      some forged.message := by decide +kernel
  have hjob : ((machine.run ∅ (failed forged)).fires.get fireId).map (·.jobId) =
      some (some jobId) := by decide +kernel
  cases hs : step (machine.run ∅ (failed forged)) retries
  case error => simp [hs, Except.isOk, Except.toBool] at hok
  case ok s' =>
    obtain ⟨f, k, j, d, hf, _, hk, he, hp⟩ := h.proof _ _ _ _ s' hs
    rw [hf] at hjob
    have hk : k = jobId := by simpa [hk] using hjob
    subst hk
    rw [(entry_eq_some.mp he).left] at hmessage
    obtain hd | ⟨hb, _⟩ := hp
    case inl =>
      obtain ⟨_, _, _, _, _, _, _, _, _, _, _, _, _, _, heq, _⟩ := hd.exists_mem
      rw [heq] at hmessage
      simp [expiredJob, forged] at hmessage
    case inr =>
      obtain ⟨a, ha, _, _, _, r, target, reading, e, hr, _, hn, hre, hc, _⟩ := hb.exists_mem
      subst hr
      simp [failed, submitted] at ha
      have := ha.left
      subst this
      cases Option.some.inj hre
      simp [forged, queueDeadlineExceeded, providerResourceBusy] at hc

end Connect
