import EmailWatcher.Connect.Rows

namespace Connect

open Transaction State

theorem ProviderState.requested_of_rank_le {p q : ProviderState} (h : p.rank ≤ q.rank)
    (hq : q = .requested) : p = .requested := by
  subst hq
  cases p <;> simp_all [rank]

-- What holds of a v2 job and its dispatch row at any time.
structure Valid (j : Job) (d : Dispatch) : Prop where
  v2       : j.protocolVersion = .v2
  terminal : d.state = .terminal ↔ j.status.settled
  waiting  : d.state = .waiting → d.submissionPossible = false
  admitted : d.highestProviderState ≠ .requested → d.state ≠ .waiting ∧ d.state ≠ .dispatching

-- What a statement may do to a v2 job. Nothing but a claim may send it to its provider, so a claim
-- is the one statement that does not move a job in this sense.
structure Moves (j : Job) (d : Dispatch) (j' : Job) (d' : Dispatch) : Prop where
  lane        : j'.lane = j.lane
  highest     : d.highestProviderState.rank ≤ d'.highestProviderState.rank
  dispatching : d'.state = .dispatching → d.state = .dispatching
  authority   : d'.capabilityAuthorityKnown = d.capabilityAuthorityKnown
  effects     : d'.capabilityExternalEffects = d.capabilityExternalEffects
  valid       : Valid j' d'

namespace Moves

variable {j j' j₁ j₂ j₃ : Job} {d d' d₁ d₂ d₃ : Dispatch}

theorem refl (h : Valid j d) : Moves j d j d where
  lane        := rfl
  highest     := le_refl _
  dispatching := id
  authority   := rfl
  effects     := rfl
  valid       := h

theorem trans (h₁ : Moves j₁ d₁ j₂ d₂) (h₂ : Moves j₂ d₂ j₃ d₃) : Moves j₁ d₁ j₃ d₃ where
  lane        := h₂.lane.trans h₁.lane
  highest     := h₁.highest.trans h₂.highest
  dispatching := fun h => h₁.dispatching <| h₂.dispatching h
  authority   := h₂.authority.trans h₁.authority
  effects     := h₂.effects.trans h₁.effects
  valid       := h₂.valid

end Moves

def RowValid : Option Job × Option Dispatch → Prop
  | (none,   none)   => True
  | (some j, none)   => j.protocolVersion = .v1
  | (some j, some d) => Valid j d
  | (none,   some _) => False

-- The job is not failed by this, unless as `E` says.
def FailsOnly (E : Job → Prop) (j j' : Job) : Prop :=
  j'.status = .failed → j' = j ∨ E j'

inductive RowMoves (E : Job → Prop) :
    Option Job × Option Dispatch → Option Job × Option Dispatch → Prop
  | refl (r) : RowMoves E r r
  | drop (r) : RowMoves E r (none, none)
  | legacy {j j'} :
    j'.protocolVersion = j.protocolVersion → FailsOnly E j j' →
    RowMoves E (some j, none) (some j', none)
  | entry {j d j' d'} :
    Moves j d j' d' → FailsOnly E j j' → RowMoves E (some j, some d) (some j', some d')

theorem FailsOnly.refl {E : Job → Prop} (j : Job) : FailsOnly E j j :=
  fun _ => .inl rfl

theorem FailsOnly.trans {E : Job → Prop} {j₁ j₂ j₃ : Job}
    (h₁ : FailsOnly E j₁ j₂) (h₂ : FailsOnly E j₂ j₃) : FailsOnly E j₁ j₃ := by
  intro hf
  cases h₂ hf
  case inl h => exact h ▸ h₁ (h ▸ hf)
  case inr h => exact .inr h

namespace RowMoves

variable {E : Job → Prop} {r r₁ r₂ r₃ : Option Job × Option Dispatch}

theorem valid (h : RowMoves E r₁ r₂) (hv : RowValid r₁) : RowValid r₂ := by
  cases h
  case refl => exact hv
  case drop => trivial
  case legacy h _ => exact h.trans hv
  case entry h _ => exact h.valid

theorem trans (h₁ : RowMoves E r₁ r₂) (h₂ : RowMoves E r₂ r₃) : RowMoves E r₁ r₃ := by
  cases h₂
  case refl => exact h₁
  case drop => exact .drop _
  case legacy h₂ f₂ =>
    cases h₁
    case refl         => exact .legacy h₂ f₂
    case legacy h₁ f₁ => exact .legacy (h₂.trans h₁) (f₁.trans f₂)
  case entry h₂ f₂ =>
    cases h₁
    case refl        => exact .entry h₂ f₂
    case entry f₁ h₁ => exact .entry (h₁.trans h₂) (f₁.trans f₂)

end RowMoves

namespace State

variable {s s' s₁ s₂ s₃ : State} {k : String} {j j' : Job} {d d' : Dispatch}
variable {E : String → Job → Prop}

theorem row_of_entry (h : s.entry k = some (j, d)) : s.row k = (some j, some d) := by
  obtain ⟨hj, hd⟩ := entry_eq_some.mp h
  simp [row, hj, hd]

theorem entry_iff_row : s.entry k = some (j, d) ↔ s.row k = (some j, some d) := by
  simp [entry_eq_some, row]

-- Each row that is well-formed moves in a way that keeps it so. `E` says which jobs may fail.
def Preserves (E : String → Job → Prop) (s s' : State) : Prop :=
  ∀ k, RowValid (s.row k) → RowMoves (E k) (s.row k) (s'.row k)

namespace Preserves

theorem refl (s : State) : Preserves E s s :=
  fun _ _ => .refl _

theorem trans (h₁ : Preserves E s₁ s₂) (h₂ : Preserves E s₂ s₃) : Preserves E s₁ s₃ :=
  fun k hv => (h₁ k hv).trans <| h₂ k <| (h₁ k hv).valid hv

theorem of_eq (hj : s'.jobs = s.jobs) (hd : s'.dispatches = s.dispatches) : Preserves E s s' := by
  intro k _
  rw [row_of_eq hj hd]
  exact .refl _

theorem updateDispatch {id : String} {g : Dispatch → Dispatch} {hg}
    (h : ∀ j d, s.entry id = some (j, d) → Valid j d → Moves j d j (g d)) :
    Preserves E s (s.updateDispatch id g hg) := by
  intro k hv
  rw [row_updateDispatch]
  split
  case isFalse => exact .refl _
  case isTrue hk =>
    subst hk
    cases hj : s.jobs.get k <;> cases hd : s.dispatches.get k
    all_goals simp only [row, hj, hd, RowValid] at hv ⊢
    case none.none => exact .refl _
    case some.none => exact .refl _
    case some.some => exact .entry (h _ _ (entry_eq_some.mpr ⟨hj, hd⟩) hv) (.refl _)

theorem deleteJob {old : Job} (h : s.deleteJob old = .ok s') : Preserves E s s' := by
  intro k _
  rw [row_deleteJob h]
  split
  case isTrue  => exact .drop _
  case isFalse => exact .refl _

theorem deleteJobs {p : Job → Bool} (h : s.deleteJobs p = .ok s') : Preserves E s s' :=
  foldlM_relation (.refl ·) (fun _ _ _ => trans) (fun _ _ _ _ => deleteJob) h

end Preserves

-- The columns of a dispatch row on which its validity depends.
structure SameCourse (d d' : Dispatch) : Prop where
  state     : d'.state = d.state
  possible  : d'.submissionPossible = d.submissionPossible
  highest   : d'.highestProviderState = d.highestProviderState
  authority : d'.capabilityAuthorityKnown = d.capabilityAuthorityKnown
  effects   : d'.capabilityExternalEffects = d.capabilityExternalEffects

theorem SameCourse.moves (h : SameCourse d d') (hv : Valid j d) : Moves j d j d' where
  lane        := rfl
  highest     := by rw [h.highest]
  dispatching := by rw [h.state]; exact id
  authority   := h.authority
  effects     := h.effects
  valid       := {
    v2       := hv.v2
    terminal := by rw [h.state]; exact hv.terminal
    waiting  := by rw [h.state, h.possible]; exact hv.waiting
    admitted := by rw [h.state, h.highest]; exact hv.admitted
  }

namespace Preserves

theorem update_dispatches {p : Dispatch → Bool} {g : Dispatch → Dispatch} {hg}
    (h : ∀ d, SameCourse d (g d)) :
    Preserves E s { s with dispatches := s.dispatches.update p g hg } := by
  intro k hv
  cases hj : s.jobs.get k <;> cases hd : s.dispatches.get k
  all_goals simp only [row, hj, hd, RowValid, Table.get_update, Option.map_some,
    Option.map_none] at hv ⊢
  case none.none => exact .refl _
  case some.none => exact .refl _
  case some.some j d =>
    refine .entry ?_ (.refl _)
    split
    case isTrue  => exact (h d).moves hv
    case isFalse => exact Moves.refl hv

theorem expireWaitingConnectJobs {now : Instant}
    (hE : ∀ k j d, s.entry k = some (j, d) → Expiring now j d → E k (expiredJob j)) :
    Preserves E s (s.expireWaitingConnectJobs now) := by
  intro k hv
  cases row_expireWaitingConnectJobs s now k
  case inl h => rw [h]; exact .refl _
  case inr h =>
    obtain ⟨j, d, he, e, h⟩ := h
    rw [row_of_entry he] at hv ⊢
    rw [h]
    refine .entry ?_ fun _ => .inr <| hE k j d he e
    refine {
      lane        := rfl
      highest     := le_refl _
      dispatching := by simp
      authority   := rfl
      effects     := rfl
      valid       := ?_
    }
    exact {
      v2       := hv.v2
      terminal := by simp [JobStatus.settled]
      waiting  := by simp
      admitted := by simp
    }

theorem pauseLinkedAutomationFires (s : State) (id : String) :
    Preserves E s (s.pauseLinkedAutomationFires id) :=
  of_eq rfl rfl

theorem settleFires (s : State) (p : Fire → Bool) (state : FireState) (reason : String) :
    Preserves E s (s.settleFires p state reason) :=
  of_eq rfl rfl

theorem resumeAutomationDispatch {id : String} {now : Instant}
    (h : s.resumeAutomationDispatch id now = .ok s') : Preserves E s s' := by
  simp only [State.resumeAutomationDispatch, bind_eq_ok, find_eq_ok] at h
  obtain ⟨d, _, h⟩ := h
  split at h <;> simp only [pure_eq_ok] at h <;> subst h
  case h_1 => exact refl _
  case h_2 =>
    refine updateDispatch fun j d _ hv => SameCourse.moves ?_ hv
    exact ⟨rfl, rfl, rfl, rfl, rfl⟩

theorem bindAutomationSource (s : State) (m : String) : Preserves E s (s.bindAutomationSource m) :=
  of_eq rfl rfl

theorem invalidateConnectSource {m : String} (h : s.invalidateConnectSource m = .ok s') :
    Preserves E s s' := by
  simp only [State.invalidateConnectSource, bind_eq_ok, pure_eq_ok] at h
  obtain ⟨s₁, h₁, h₂⟩ := h
  subst h₂
  exact (deleteJobs h₁).trans <| update_dispatches fun _ => ⟨rfl, rfl, rfl, rfl, rfl⟩

theorem markSourcesUnavailable {ms : List String} (h : s.markSourcesUnavailable ms = .ok s') :
    Preserves E s s' := by
  refine foldlM_relation (.refl ·) (fun _ _ _ => trans) ?_ h
  exact fun s m _ _ h => (bindAutomationSource s m).trans <| invalidateConnectSource h

theorem deleteMessage {m : String} (h : s.deleteMessage m = .ok s') : Preserves E s s' := by
  have hb : Preserves E s ((s.bindAutomationSource m).removePendingFires m) := of_eq rfl rfl
  exact hb.trans <| invalidateConnectSource h

end Preserves

section Defer

variable {r : Deferral}

-- What a deferral has checked when it succeeds.
structure Deferrable (r : Deferral) (j : Job) (d : Dispatch) : Prop where
  expected      : d.state = r.expectedDispatchState
  next          : r.nextDispatchState ∈ [DispatchState.waiting, .reconciling, .providerOwned]
  active        : j.status.active
  waiting       : r.nextDispatchState = .waiting →
    j.status = .requested ∧ d.highestProviderState = .requested

theorem jobId_deferred (r : Deferral) (d : Dispatch) : (r.apply d).jobId = d.jobId :=
  rfl

theorem deferDispatch_eq_ok (h : s.deferDispatch r = .ok s') :
    ∃ j d, s.entry r.jobId = some (j, d) ∧ Deferrable r j d ∧
      s' = if r.pauseLinkedAutomationFires
        then (s.updateDispatch r.jobId r.apply (jobId_deferred r)).pauseLinkedAutomationFires r.jobId
        else s.updateDispatch r.jobId r.apply (jobId_deferred r) := by
  simp only [deferDispatch, bind_eq_ok, require_eq_ok, find_eq_ok, pure_eq_ok, Prod.exists,
    exists_and_left, exists_const] at h
  obtain ⟨_, hn, _, _, _, j, d, he, hx, ha, hw, _, h⟩ := h
  exact ⟨j, d, he, ⟨hx, hn, ha, hw⟩, h.symm⟩

theorem Deferrable.moves (hr : Deferrable r j d) (hv : Valid j d) : Moves j d j (r.apply d) := by
  have hne : (r.apply d).state ≠ .dispatching ∧ (r.apply d).state ≠ .terminal := by
    have := hr.next
    simp only [List.mem_cons, List.not_mem_nil, or_false] at this
    constructor <;> rintro (h : r.nextDispatchState = _) <;> simp [h] at this
  have hw : (r.apply d).state = .waiting → d.highestProviderState = .requested :=
    fun h => (hr.waiting h).right
  exact {
    lane        := rfl
    highest     := le_refl _
    dispatching := fun h => absurd h hne.left
    authority   := rfl
    effects     := rfl
    valid       := {
      v2       := hv.v2
      terminal := ⟨fun h => absurd h hne.right, fun h => by simpa [h] using hr.active⟩
      waiting  := fun (h : r.nextDispatchState = _) => by simp [Deferral.apply, h]
      admitted := fun h => ⟨fun h' => h <| hw h', hne.left⟩
    }
  }

theorem Preserves.deferDispatch (h : s.deferDispatch r = .ok s') : Preserves E s s' := by
  obtain ⟨j, d, he, hr, h⟩ := deferDispatch_eq_ok h
  have hp : Preserves E s (s.updateDispatch r.jobId r.apply) := by
    refine updateDispatch fun j' d' he' hv => ?_
    cases he.symm.trans he'
    exact hr.moves hv
  subst h
  split
  case isTrue  => exact hp.trans <| pauseLinkedAutomationFires _ _
  case isFalse => exact hp

theorem deferConnectJob_eq_ok {d : Dispatch} (h : s.deferConnectJob r = .ok (s', d)) :
    ∃ s₁, s.deferDispatch r = .ok s₁ ∧
      s' = if r.nextDispatchState = .waiting then s₁.expireWaitingConnectJobs r.now else s₁ := by
  simp only [deferConnectJob, bind_eq_ok, find_eq_ok, pure_eq_ok, Prod.mk.injEq] at h
  obtain ⟨s₁, h₁, _, _, h, _⟩ := h
  exact ⟨s₁, h₁, h.symm⟩

theorem Preserves.deferConnectJob {d : Dispatch} (h : s.deferConnectJob r = .ok (s', d))
    (hE : ∀ s₁, s.deferDispatch r = .ok s₁ → r.nextDispatchState = .waiting →
      ∀ k j d, s₁.entry k = some (j, d) → Expiring r.now j d → E k (expiredJob j)) :
    Preserves E s s' := by
  obtain ⟨s₁, h₁, h⟩ := deferConnectJob_eq_ok h
  subst h
  split
  case isTrue hw => exact (deferDispatch h₁).trans <| expireWaitingConnectJobs <| hE _ h₁ hw
  case isFalse => exact deferDispatch h₁

end Defer

section Reset

variable {id : String} {expected : JobStatus} {lane : Lane} {content : String → Bool}

theorem jobId_resetJob (j : Job) : (resetJob j).jobId = j.jobId :=
  rfl

theorem jobId_resetDispatch (d : Dispatch) : (resetDispatch d).jobId = d.jobId :=
  rfl

theorem resetConnectJobForResubmission_eq_ok
    (h : s.resetConnectJobForResubmission id expected lane content = .ok (s', j')) :
    ∃ j, s.jobs.get id = some j ∧ j.status.active ∧
      ((j.protocolVersion = .v1 ∧ s' = s.updateJob id resetJob jobId_resetJob) ∨
      (j.protocolVersion = .v2 ∧ ∃ d, s.dispatches.get id = some d ∧
        d.highestProviderState = .requested ∧
        s' = (s.updateDispatch id resetDispatch jobId_resetDispatch).updateJob id resetJob
          jobId_resetJob)) := by
  simp only [resetConnectJobForResubmission, bind_eq_ok, require_eq_ok, find_eq_ok, pure_eq_ok,
    exists_and_left, exists_const, Prod.mk.injEq] at h
  obtain ⟨ha, j, hj, hs, _, s₁, h₁, _, h, _⟩ := h
  refine ⟨j, hj, hs ▸ ha, ?_⟩
  cases hv : j.protocolVersion <;> rw [hv] at h₁
  case v1 =>
    simp only [resetSubmission, pure_eq_ok] at h₁
    exact .inl ⟨rfl, by rw [← h, h₁]⟩
  case v2 =>
    simp only [resetSubmission, bind_eq_ok, require_eq_ok, find_eq_ok, pure_eq_ok,
      exists_and_left, exists_const] at h₁
    obtain ⟨d, hd, hr, _, h₁⟩ := h₁
    exact .inr ⟨rfl, d, hd, hr, by rw [← h, ← h₁]⟩

theorem Preserves.resetConnectJobForResubmission
    (h : s.resetConnectJobForResubmission id expected lane content = .ok (s', j')) :
    Preserves E s s' := by
  obtain ⟨j, hj, ha, h⟩ := resetConnectJobForResubmission_eq_ok h
  intro k hv
  obtain ⟨h₁, rfl⟩ | ⟨h₂, d, hd, hr, rfl⟩ := h
  case inl =>
    rw [row_updateJob]
    split
    case isFalse => exact .refl _
    case isTrue hk =>
      subst hk
      cases hd : s.dispatches.get k <;> simp only [row, hj, hd, RowValid] at hv ⊢
      case none => exact .legacy rfl fun h => absurd h (by simp [resetJob])
      case some => exact absurd hv.v2 (by simp [h₁])
  case inr =>
    rw [row_updateJob]
    split
    case isFalse hk => rw [row_updateDispatch, if_neg hk]; exact .refl _
    case isTrue hk =>
      subst hk
      simp only [dispatches_updateDispatch, if_true]
      simp only [State.updateDispatch, row, hj, hd, RowValid, Option.map_some] at hv ⊢
      refine .entry ?_ fun h => absurd h (by simp [resetJob])
      refine {
        lane        := rfl
        highest     := le_refl _
        dispatching := by simp [resetDispatch]
        authority   := rfl
        effects     := rfl
        valid       := ?_
      }
      exact {
        v2       := hv.v2
        terminal := by simp [resetDispatch, resetJob, JobStatus.settled]
        waiting  := fun _ => rfl
        admitted := fun h => absurd hr h
      }

end Reset

section Certificates

-- A job is discarded if it has no source and no fire is linked to it, and then the fires do not
-- notice that it is deleted.
theorem discardSettledSourceLessCertificateJob_eq_ok {id : String}
    {failure : Option CertificateFailure}
    (h : s.discardSettledSourceLessCertificateJob id failure = .ok s') :
    s' = s ∨ ((s.dispatches.get id).any (! ·.sourceAvailable) ∧
      (∀ f ∈ s.fires, f.linkedTo id = false) ∧ ∃ j s₁,
      (s.jobs.get id = some j ∧ j.status = .completed) ∧
      s.deleteJob j = .ok s₁ ∧ s₁.fires = s.fires ∧ s' = s₁.overwriteFires id failure) := by
  unfold discardSettledSourceLessCertificateJob at h
  split at h
  case isTrue => exact .inl (pure_eq_ok.mp h).symm
  case isFalse hd =>
    split at h
    case isTrue => exact .inl (pure_eq_ok.mp h).symm
    case isFalse hl =>
      obtain ⟨j, hj, h⟩ := bind_eq_ok.mp h
      obtain ⟨s₁, h₁, h⟩ := bind_eq_ok.mp h
      obtain ⟨hj, hst⟩ := Option.filter_eq_some_iff.mp (find_eq_ok.mp hj)
      have hl : ∀ f ∈ s.fires, f.linkedTo id = false := by
        simpa [Table.mem_rows] using hl
      refine .inr ⟨?_, hl, j, s₁, ⟨hj, by simpa using hst⟩, h₁, ?_, (pure_eq_ok.mp h).symm⟩
      · cases hd' : s.dispatches.get id <;> simp_all
      · obtain ⟨_, h₁⟩ := deleteJob_eq_ok.mp h₁
        subst h₁
        refine Table.update_of_forall_not (Fire.fireId_unlink j) fun f hm => ?_
        rw [jobId_of_get hj]
        exact hl f hm

theorem Preserves.discardSettledSourceLessCertificateJob {id : String}
    {failure : Option CertificateFailure}
    (h : s.discardSettledSourceLessCertificateJob id failure = .ok s') : Preserves E s s' := by
  obtain rfl | ⟨_, _, _, _, _, h₁, _, rfl⟩ := discardSettledSourceLessCertificateJob_eq_ok h
  case inl => exact .refl _
  case inr =>
    refine trans (deleteJob h₁) ?_
    cases failure <;> exact .of_eq rfl rfl

theorem Preserves.settleCertificate {id : String} {p : Fire → Bool}
    {failure : Option CertificateFailure} (h : s.settleCertificate id p failure = .ok s') :
    Preserves E s s' := by
  refine trans ?_ <| discardSettledSourceLessCertificateJob h
  cases failure <;> exact settleFires _ _ _ _

variable [Codec]

-- Validating a certificate writes to no table but that of the certificates.
structure SameRecords (s s' : State) : Prop where
  jobs       : s'.jobs = s.jobs
  dispatches : s'.dispatches = s.dispatches
  fires      : s'.fires = s.fires
  attempts   : s'.attempts = s.attempts

omit [Codec] in
theorem SameRecords.refl (s : State) : SameRecords s s :=
  ⟨rfl, rfl, rfl, rfl⟩

omit [Codec] in
theorem SameRecords.preserves (h : SameRecords s s') : Preserves E s s' :=
  .of_eq h.jobs h.dispatches

omit [Codec] in
theorem persistCertificateProjection_same {e : CertificateEvidence} {reading : SourceReading}
    (h : s.persistCertificateProjection j e reading = .ok s') : SameRecords s s' := by
  simp only [persistCertificateProjection, bind_eq_ok, require_eq_ok, exists_const] at h
  obtain ⟨_, h⟩ := h
  split at h
  case h_1 => simp at h
  case h_2 =>
    simp only [pure_eq_ok] at h
    exact h ▸ .refl _
  case h_3 =>
    split at h
    all_goals
      simp only [bind_eq_ok, require_eq_ok, exists_const, pure_eq_ok] at h
    case h_1 => exact h.right ▸ .refl _
    case h_2 => exact h ▸ ⟨rfl, rfl, rfl, rfl⟩

omit [Codec] in
theorem projectCertificate_same {reading : SourceReading} {outcome : Option CertificateFailure}
    {evidence : Except CertificateFailure CertificateEvidence}
    (h : s.projectCertificate j reading evidence = (s', outcome)) : SameRecords s s' := by
  unfold projectCertificate at h
  split at h
  case h_1 s₁ hp =>
    obtain ⟨e, _, hp⟩ := bind_eq_ok.mp hp
    rw [← (Prod.mk.inj h).left]
    exact persistCertificateProjection_same hp
  case h_2 =>
    rw [← (Prod.mk.inj h).left]
    exact .refl _

theorem certificateOutcome_same {r : Transition} {reading : SourceReading}
    {outcome : Option (Option CertificateFailure)}
    (h : s.certificateOutcome r j reading = .ok (s', outcome)) : SameRecords s s' := by
  unfold certificateOutcome at h
  split at h
  case h_2 =>
    simp only [pure_eq_ok, Prod.mk.injEq] at h
    exact h.left ▸ .refl _
  case h_1 =>
    split at h
    all_goals simp only [bind_eq_ok, pure_eq_ok, Prod.mk.injEq] at h
    case isTrue =>
      obtain ⟨e, _, h, _⟩ := h
      exact h ▸ projectCertificate_same rfl
    case isFalse => exact h.left ▸ .refl _

theorem joinOutcome_same {reading : SourceReading} {outcome : Option CertificateFailure}
    (h : s.joinOutcome j d reading = .ok (s', outcome)) : SameRecords s s' := by
  unfold joinOutcome at h
  split at h
  case h_1 =>
    simp only [pure_eq_ok, Prod.mk.injEq] at h
    exact h.left ▸ .refl _
  case h_2 =>
    split at h
    case isTrue =>
      simp only [pure_eq_ok, Prod.mk.injEq] at h
      exact h.left ▸ .refl _
    case isFalse =>
      split at h
      all_goals simp only [bind_eq_ok, pure_eq_ok, Prod.mk.injEq] at h
      case h_1 => exact h.left ▸ .refl _
      case h_2 => exact h.left ▸ .refl _
      case h_3 =>
        obtain ⟨_, _, h⟩ := h
        exact projectCertificate_same h

end Certificates

section Transition

variable {r : Transition} {v : JobValues}

-- What a transition has checked when it starts to write.
structure Transitionable (s : State) (r : Transition) (j : Job) : Prop where
  allowed  : r.nextState ∈ r.expectedState.allowed
  error    : r.nextState = .failed → r.error.isSome ∧ r.result.isNone
  job      : s.jobs.get r.jobId = some j
  status   : j.status = r.expectedState
  lane     : j.protocolVersion = .v2 → j.lane = r.lane

theorem checkTransition_eq_ok (h : s.checkTransition r = .ok j) : Transitionable s r j := by
  simp only [checkTransition, bind_eq_ok, require_eq_ok, find_eq_ok, pure_eq_ok, exists_and_left,
    exists_const] at h
  obtain ⟨ha, _, hf, _, j', hj, hs, hl, _, h⟩ := h
  subst h
  exact ⟨ha, hf, hj, hs, hl⟩

theorem Transitionable.active (h : Transitionable s r j) : j.status.active := by
  have := h.allowed
  rw [h.status]
  cases hs : r.expectedState <;> simp_all [JobStatus.allowed, JobStatus.settled]

theorem Transitionable.next_ne_requested (h : Transitionable s r j) : r.nextState ≠ .requested := by
  have := h.allowed
  cases hs : r.expectedState <;> intro hn <;> simp_all [JobStatus.allowed]

theorem Transitionable.moves (h : Transitionable s r j) (hv : Valid j d) :
    Moves j d (r.applyJob v j) (r.applyDispatch d) := by
  have hn := h.next_ne_requested
  have ha : d.state ≠ .terminal := by
    rw [Ne, hv.terminal]
    simpa using h.active
  refine {
    lane        := (h.lane hv.v2).symm
    highest     := ?highest
    dispatching := ?dispatching
    authority   := rfl
    effects     := rfl
    valid       := {
      v2       := hv.v2
      terminal := ?terminal
      waiting  := ?waiting
      admitted := ?admitted
    }
  }
  case highest =>
    cases hs : r.nextState <;> cases hd : d.highestProviderState <;>
      simp [Transition.applyDispatch, ProviderState.rank, hs, hd]
  all_goals
    cases hs : r.nextState <;>
      simp_all [Transition.applyDispatch, Transition.applyJob, JobStatus.settled]

theorem Preserves.writeTransition (h : Transitionable s r j)
    (hE : r.nextState = .failed → E r.jobId (r.applyJob v j)) :
    Preserves E s (s.writeTransition r v j.protocolVersion) := by
  intro k hv
  rw [row_writeTransition]
  split
  case isFalse => exact .refl _
  case isTrue hk =>
    subst hk
    cases hd : s.dispatches.get r.jobId
    all_goals simp only [row, h.job, hd, RowValid] at hv ⊢
    case none =>
      rw [if_neg (by simp [hv])]
      exact .legacy rfl fun hf => .inr <| hE hf
    case some d =>
      rw [if_pos hv.v2]
      exact .entry (h.moves hv) fun hf => .inr <| hE hf

theorem Transitionable.same (h : Transitionable s r j) (hs : SameRecords s s₁) :
    Transitionable s₁ r j :=
  { h with job := hs.jobs ▸ h.job }

theorem recordTransition_eq_ok {outcome : Option (Option CertificateFailure)} :
    s.recordTransition r v j outcome = .ok s' ↔
    (r.nextState = .failed → v.errorCode.isSome ∧ v.errorMessage.isSome) ∧
    (s.writeTransition r v j.protocolVersion).settleOutcome r.jobId outcome = .ok s' := by
  simp only [recordTransition, bind_eq_ok, require_eq_ok, exists_const]

theorem Preserves.settleOutcome {id : String} {outcome : Option (Option CertificateFailure)}
    (h : s.settleOutcome id outcome = .ok s') : Preserves E s s' := by
  cases outcome
  case none => exact pure_eq_ok.mp h ▸ .refl _
  case some => exact settleCertificate h

variable [Codec]

theorem transitionConnectJob_eq_ok {target : Bool} {reading : SourceReading}
    (h : s.transitionConnectJob r target reading = .ok (s', j')) :
    ∃ j v s₁ outcome, s.checkTransition r = .ok j ∧ r.values j.protocolVersion = .ok v ∧
      s.certificateOutcome r j reading = .ok (s₁, outcome) ∧
      ((s₁.discardsTerminal r j target ∧ s₁.discardTerminal r j = .ok s') ∨
      (¬s₁.discardsTerminal r j target ∧ s₁.recordTransition r v j outcome = .ok s')) := by
  simp only [transitionConnectJob, bind_eq_ok, Prod.exists] at h
  obtain ⟨j, hc, v, hv, s₁, outcome, ho, h⟩ := h
  refine ⟨j, v, s₁, outcome, hc, hv, ho, ?_⟩
  split at h
  case isTrue hd =>
    obtain ⟨s₂, hok, hs⟩ := bind_eq_ok.mp h
    cases pure_eq_ok.mp hs
    exact .inl ⟨hd, hok⟩
  case isFalse hd =>
    obtain ⟨s₂, hok, hs⟩ := bind_eq_ok.mp h
    cases pure_eq_ok.mp hs
    exact .inr ⟨hd, hok⟩

theorem Preserves.transitionConnectJob {target : Bool} {reading : SourceReading}
    (h : s.transitionConnectJob r target reading = .ok (s', j'))
    (hE : ∀ j v, Transitionable s r j → r.values j.protocolVersion = .ok v →
      r.nextState = .failed → E r.jobId (r.applyJob v j)) : Preserves E s s' := by
  obtain ⟨j, v, s₁, outcome, hc, hv, ho, h⟩ := transitionConnectJob_eq_ok h
  have ht := checkTransition_eq_ok hc
  have hs := certificateOutcome_same ho
  refine hs.preserves.trans ?_
  obtain ⟨_, h⟩ | ⟨_, h⟩ := h
  case inl => exact trans (settleFires _ _ _ _) (deleteJob h)
  case inr =>
    obtain ⟨_, h⟩ := recordTransition_eq_ok.mp h
    exact trans (writeTransition (ht.same hs) <| hE j v ht hv) (settleOutcome h)

end Transition

section Replay

variable [Codec]

theorem Preserves.replayUnprojected {result : String}
    (h : s.replayUnprojected j d result = .ok s') : Preserves E s s' := by
  simp only [State.replayUnprojected, bind_eq_ok, Prod.exists] at h
  obtain ⟨_, _, _, h⟩ := h
  split at h
  case isTrue =>
    refine trans ?_ (settleCertificate h)
    exact updateDispatch fun _ _ _ hv => SameCourse.moves ⟨rfl, rfl, rfl, rfl, rfl⟩ hv
  case isFalse =>
    obtain ⟨_, _, h⟩ := bind_eq_ok.mp h
    exact settleCertificate h

theorem Preserves.reconcileCertificateCompletedReplay {id : String} {lane : Lane}
    {result : String} (h : s.reconcileCertificateCompletedReplay id lane result = .ok (s', j')) :
    Preserves E s s' := by
  simp only [State.reconcileCertificateCompletedReplay, bind_eq_ok, Prod.exists] at h
  obtain ⟨j, d, _, _, _, h⟩ := h
  split at h
  case h_1 =>
    obtain ⟨s₁, h₁, h⟩ := bind_eq_ok.mp h
    cases pure_eq_ok.mp h
    exact replayUnprojected h₁
  case h_2 =>
    obtain ⟨outcome, _, h⟩ := bind_eq_ok.mp h
    cases outcome
    case none =>
      cases pure_eq_ok.mp h
      exact .refl _
    case some failure =>
      obtain ⟨s₁, h₁, h⟩ := bind_eq_ok.mp h
      cases pure_eq_ok.mp h
      refine trans ?_ (settleCertificate h₁)
      exact .of_eq rfl rfl
  case h_3 => simp at h

theorem Preserves.reconcileCertificateCompletedJoin {id : String} {reading : SourceReading}
    (h : s.reconcileCertificateCompletedJoin id reading = .ok (s', j')) : Preserves E s s' := by
  simp only [State.reconcileCertificateCompletedJoin, bind_eq_ok, Prod.exists, pure_eq_ok,
    Prod.mk.injEq] at h
  obtain ⟨j, d, _, _, _, s₁, failure, ho, s₂, hok, hs, _⟩ := h
  exact (joinOutcome_same ho).preserves.trans <| settleCertificate (hs ▸ hok)

end Replay

section Automation

theorem insertFire_eq_ok {f : Fire} (h : s.insertFire f = .ok s') :
    ∃ fires, s.fires.insert f = some fires ∧ s' = { s with fires := fires } := by
  simp only [insertFire, bind_eq_ok, find_eq_ok, pure_eq_ok] at h
  obtain ⟨_, _, fires, hf, h⟩ := h
  exact ⟨fires, hf, h.symm⟩

theorem insertAttempt_eq_ok {a : Attempt} (h : s.insertAttempt a = .ok s') :
    ∃ attempts, s.attempts.insert a = some attempts ∧ s' = { s with attempts := attempts } := by
  simp only [insertAttempt, bind_eq_ok, find_eq_ok, pure_eq_ok] at h
  obtain ⟨_, _, attempts, ha, h⟩ := h
  exact ⟨attempts, ha, h.symm⟩

theorem Preserves.createAutomationFire {r : FireRequest}
    (h : s.createAutomationFire r = .ok s') : Preserves E s s' := by
  obtain ⟨s₁, h₁, h₂⟩ := bind_eq_ok.mp h
  obtain ⟨_, _, rfl⟩ := insertFire_eq_ok h₁
  obtain ⟨_, _, rfl⟩ := insertAttempt_eq_ok h₂
  exact .of_eq rfl rfl

theorem key_boundAttempt (id : String) (a : Attempt) :
    Keyed.key { a with jobId := some id } = Keyed.key a :=
  rfl

theorem bindAttempt_eq_ok {f : Fire} {id : String} (h : s.bindAttempt f id = .ok s') :
    ∃ a, s.currentAttempt f = some a ∧ a.jobId.all (· = id) ∧ s' = { s with
      attempts := s.attempts.update
        (fun a => a.fireId = f.fireId && a.attemptNo = f.currentAttemptNo && a.jobId = none)
        (fun a => { a with jobId := some id }) (key_boundAttempt id)
    } := by
  simp only [bindAttempt, bind_eq_ok, require_eq_ok, find_eq_ok, pure_eq_ok, exists_and_left,
    exists_const] at h
  obtain ⟨a, ha, hj, h⟩ := h
  exact ⟨a, ha, hj, h.symm⟩

theorem Preserves.bindAttempt {f : Fire} {id : String} (h : s.bindAttempt f id = .ok s') :
    Preserves E s s' := by
  obtain ⟨_, _, _, h⟩ := bindAttempt_eq_ok h
  exact h ▸ .of_eq rfl rfl

theorem Preserves.pauseDispatch {id : String} {now : Instant}
    (h : s.pauseDispatch id now = .ok s') : Preserves E s s' := by
  simp only [State.pauseDispatch, bind_eq_ok, find_eq_ok, pure_eq_ok] at h
  obtain ⟨_, _, h⟩ := h
  subst h
  split
  case isTrue => exact updateDispatch fun _ _ _ hv => SameCourse.moves ⟨rfl, rfl, rfl, rfl, rfl⟩ hv
  case isFalse => exact .refl _

variable [Codec]

theorem Preserves.moveLinkedJob {r : FireTransition} {f : Fire}
    (h : s.moveLinkedJob r f = .ok s') : Preserves E s s' := by
  unfold State.moveLinkedJob at h
  split at h
  case h_1 => simp at h
  case h_2 =>
    obtain ⟨s₁, h₁, h⟩ := bind_eq_ok.mp h
    exact (resumeAutomationDispatch h₁).trans <| bindAttempt h
  case h_3 =>
    obtain ⟨_, _, h⟩ := bind_eq_ok.mp h
    exact pure_eq_ok.mp h ▸ .refl _
  case h_4 => exact pauseDispatch h
  case h_5 => exact pure_eq_ok.mp h ▸ .refl _

theorem fireId_transition (r : FireTransition) (f : Fire) : (r.apply f).fireId = f.fireId :=
  rfl

theorem transitionAutomationFire_eq_ok {r : FireTransition}
    (h : s.transitionAutomationFire r = .ok s') :
    ∃ f s₁, r.check = .ok () ∧ s.fires.get r.fireId = some f ∧ f.state = r.expectedState ∧
      f.stateVersion = r.expectedVersion ∧ s.moveLinkedJob r f = .ok s₁ ∧
      (s' = s₁.updateFire r.fireId r.apply (fireId_transition r) ∨
        ∃ id, (r.nextState = .completed ∨ r.nextState = .failed) ∧ r.job f = some id ∧
          (s₁.updateFire r.fireId r.apply (fireId_transition r)).dropSettledJob id = .ok s') := by
  simp only [transitionAutomationFire, bind_eq_ok, require_eq_ok, find_eq_ok] at h
  obtain ⟨_, hc, f, hf, _, ⟨hs, hv⟩, s₁, h₁, h⟩ := h
  refine ⟨f, s₁, hc, hf, hs, hv, h₁, ?_⟩
  split at h
  case h_1 id hn hj => exact .inr ⟨id, .inl hn, hj, h⟩
  case h_2 id hn hj => exact .inr ⟨id, .inr hn, hj, h⟩
  case h_3 => exact .inl (pure_eq_ok.mp h).symm

theorem Preserves.transitionAutomationFire {r : FireTransition}
    (h : s.transitionAutomationFire r = .ok s') : Preserves E s s' := by
  obtain ⟨f, s₁, _, _, _, _, h₁, h⟩ := transitionAutomationFire_eq_ok h
  refine (moveLinkedJob h₁).trans ?_
  have hf : Preserves E s₁ (s₁.updateFire r.fireId r.apply) := .of_eq rfl rfl
  obtain rfl | ⟨_, _, _, h⟩ := h
  case inl => exact hf
  case inr => exact hf.trans <| deleteJobs h

omit [Codec] in
theorem Preserves.decideAutomationFire {id sha : String} {version : Nat} {confirmed : Bool}
    {now : Instant} (h : s.decideAutomationFire id version sha confirmed now = .ok s') :
    Preserves E s s' := by
  simp only [State.decideAutomationFire, bind_eq_ok] at h
  obtain ⟨_, _, f, _, _, _, h⟩ := h
  split at h
  all_goals
    obtain ⟨_, _, h⟩ := bind_eq_ok.mp h
    cases pure_eq_ok.mp h
    exact .of_eq rfl rfl

omit [Codec] in
theorem Preserves.pauseInteractiveJobAutomationFires {id : String}
    (h : s.pauseInteractiveJobAutomationFires id = .ok s') : Preserves E s s' := by
  simp only [State.pauseInteractiveJobAutomationFires, bind_eq_ok, pure_eq_ok] at h
  obtain ⟨_, _, _, _, h⟩ := h
  exact h ▸ .of_eq rfl rfl

omit [Codec] in
theorem Preserves.authorizeConnectJobInteractively {id : String} {now : Instant}
    (h : s.authorizeConnectJobInteractively id now = .ok (s', j')) : Preserves E s s' := by
  simp only [State.authorizeConnectJobInteractively, bind_eq_ok, Prod.exists] at h
  obtain ⟨j, d, _, h⟩ := h
  split at h
  case isTrue =>
    cases pure_eq_ok.mp h
    exact .refl _
  case isFalse =>
    obtain ⟨s₁, h₁, h⟩ := bind_eq_ok.mp h
    cases pure_eq_ok.mp h
    refine trans ?_ (resumeAutomationDispatch h₁)
    exact updateDispatch fun _ _ _ hv => SameCourse.moves ⟨rfl, rfl, rfl, rfl, rfl⟩ hv

omit [Codec] in
theorem Preserves.resumeAutomationFireJob {id : String} {version : Nat} {now : Instant}
    (h : s.resumeAutomationFireJob id version now = .ok s') : Preserves E s s' := by
  simp only [State.resumeAutomationFireJob, bind_eq_ok, pure_eq_ok] at h
  obtain ⟨_, _, _, _, _, _, s₁, h₁, h⟩ := h
  subst h
  exact (resumeAutomationDispatch h₁).trans <| .of_eq rfl rfl

omit [Codec] in
theorem Preserves.retryAutomationFireAfterFailure {id request : String} {version : Nat}
    {now : Instant} (h : s.retryAutomationFireAfterFailure id version request now = .ok s') :
    Preserves E s s' := by
  simp only [State.retryAutomationFireAfterFailure, bind_eq_ok, pure_eq_ok] at h
  obtain ⟨_, _, _, _, _, _, _, _, s₁, h₁, h⟩ := h
  obtain ⟨_, _, rfl⟩ := insertAttempt_eq_ok h₁
  exact h ▸ .of_eq rfl rfl

end Automation

end State
end Connect
