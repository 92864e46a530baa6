import EmailWatcher.Connect.Fires

-- The fence that a replay of a completed certificate job puts up.
namespace Connect

open Transaction State

variable {s s' s₁ : State} {a : Action} {k : String} {j j' : Job} {d : Dispatch} {f f' : Fire}

-- How far the evidence against a certificate has come.
def fenceRank : Option CertificateFailure → Nat
  | none           => 0
  | some .invalid  => 1
  | some .conflict => 2

theorem fenceRank_le_merge (prior outcome : Option CertificateFailure) :
    fenceRank prior ≤ fenceRank (mergeReplayFailure prior outcome) := by
  rcases prior with _ | _ | _ <;> rcases outcome with _ | _ | _ <;> decide

theorem unfenced_of_merge {prior outcome : Option CertificateFailure}
    (h : mergeReplayFailure prior outcome = none) : prior = none := by
  rcases prior with _ | _ | _ <;> rcases outcome with _ | _ | _ <;> simp_all [mergeReplayFailure]

-- The calls that reconcile the completed job `k`.
inductive Reconciles (k : String) : Action → Prop
  | replay {lane : Lane} {result : String} :
    Reconciles k (.reconcileCertificateCompletedReplay k lane result)
  | join {reading : SourceReading} :
    Reconciles k (.reconcileCertificateCompletedJoin k reading)

namespace State

-- A stored projection of the job has been found invalid or in conflict.
def Fenced (k : String) (s : State) : Prop :=
  ∃ c ∈ s.certificates, c.connectJobId = k ∧ c.terminalReplayFailure ≠ none

-- No fire reports the job as completed or still waits for it.
def Settled (k : String) (s : State) : Prop :=
  ∀ f ∈ s.fires, f.jobId = some k →
    f.state ≠ .completed ∧ f.state ≠ .submitted ∧ f.state ≠ .entitlementPaused

-- Certificates stay, and nothing changes about them but that the fence may rise.
def FencesRise (s s' : State) : Prop :=
  ∀ key c, s.certificates.get key = some c →
    ∃ failure, s'.certificates.get key = some { c with terminalReplayFailure := failure } ∧
      fenceRank c.terminalReplayFailure ≤ fenceRank failure

namespace FencesRise

variable {s₂ s₃ : State}

theorem of_eq (h : s'.certificates = s.certificates) : FencesRise s s' :=
  fun _ c hc => ⟨c.terminalReplayFailure, h ▸ hc, le_rfl⟩

theorem trans (h₁ : FencesRise s₁ s₂) (h₂ : FencesRise s₂ s₃) : FencesRise s₁ s₃ := by
  intro key c hc
  obtain ⟨f₂, hc₂, hle₂⟩ := h₁ key c hc
  obtain ⟨f₃, hc₃, hle₃⟩ := h₂ key _ hc₂
  exact ⟨f₃, hc₃, hle₂.trans hle₃⟩

end FencesRise

section Settle

variable {p : Fire → Bool} {failure : Option CertificateFailure}

theorem certificates_deleteJob {old : Job} (h : s.deleteJob old = .ok s') :
    s'.certificates = s.certificates := by
  obtain ⟨_, rfl⟩ := deleteJob_eq_ok.mp h
  rfl

theorem certificates_settleCertificate (h : s.settleCertificate k p failure = .ok s') :
    s'.certificates = s.certificates := by
  have hs : (s.settleByOutcome p failure).certificates = s.certificates := by cases failure <;> rfl
  obtain rfl | ⟨_, _, _, _, _, h₁, _, rfl⟩ := discardSettledSourceLessCertificateJob_eq_ok h
  case inl => exact hs
  case inr =>
    rw [← hs, ← certificates_deleteJob h₁]
    cases failure <;> rfl

-- After a settlement for a failure, each fire of the job has failed or is one that the settlement
-- does not take.
theorem fires_settleCertificate {c : CertificateFailure}
    (h : s.settleCertificate k p (some c) = .ok s') (hf : f' ∈ s'.fires) (hj : f'.jobId = some k) :
    f'.state = .failed ∨ (f' ∈ s.fires ∧ p f' = false) := by
  have hs : ∀ g ∈ (s.settleByOutcome p (some c)).fires,
      g.state = .failed ∨ (g ∈ s.fires ∧ p g = false) := by
    intro g hg
    simp only [State.settleByOutcome, settleFires, Table.mem_update] at hg
    obtain ⟨g₀, hg₀, rfl⟩ := hg
    by_cases hp : p g₀
    case pos => simp [hp, Fire.advance]
    case neg => simpa [hp] using Or.inr hg₀
  obtain rfl | ⟨_, _, _, s₁, _, _, hf₁, rfl⟩ := discardSettledSourceLessCertificateJob_eq_ok h
  case inl => exact hs f' hf
  case inr =>
    simp only [overwriteFires, Table.mem_update] at hf
    obtain ⟨g, hg, rfl⟩ := hf
    by_cases hjg : g.jobId = some k
    case pos => simp [hjg]
    case neg => simp [hjg] at hj

theorem settled_of_unsettledBy {c : CertificateFailure}
    (h : s.settleCertificate k (unsettledBy c k) (some c) = .ok s') : Settled k s' := by
  intro f hf hj
  obtain hs | ⟨_, hp⟩ := fires_settleCertificate h hf hj
  case inl => simp [hs]
  case inr =>
    simp only [unsettledBy, hj, decide_true, Bool.true_and, Bool.or_eq_false_iff,
      decide_eq_false_iff_not, List.mem_cons, List.not_mem_nil, or_false, not_or] at hp
    exact hp.left

end Settle

section Calls

variable [Codec] {lane : Lane} {result : String} {reading : SourceReading}

theorem certificates_replayUnprojected (h : s.replayUnprojected j d result = .ok s') :
    s'.certificates = s.certificates := by
  simp only [replayUnprojected, bind_eq_ok, Prod.exists] at h
  obtain ⟨_, _, _, h⟩ := h
  split at h
  case isTrue =>
    have hc := certificates_settleCertificate h
    exact hc
  case isFalse =>
    obtain ⟨_, _, h⟩ := bind_eq_ok.mp h
    exact certificates_settleCertificate h

theorem replayOutcome_eq_ok {parent : Certificate} {outcome : Option CertificateFailure}
    (h : replayOutcome j parent result = .ok outcome) :
    ∃ found, outcome = mergeReplayFailure parent.terminalReplayFailure found := by
  simp only [replayOutcome, bind_eq_ok, pure_eq_ok] at h
  obtain ⟨_, _, h⟩ := h
  exact ⟨_, h.symm⟩

-- What a replay does to the certificates: nothing, or it raises the fence of the one projection.
theorem replay_cases (h : s.reconcileCertificateCompletedReplay k lane result = .ok (s', j)) :
    (s' = s ∧ ∀ c ∈ s.certificatesOf k, c.terminalReplayFailure = none) ∨
    (s.certificatesOf k = [] ∧ s'.certificates = s.certificates) ∨
    ∃ parent found failure, s.certificatesOf k = [parent] ∧
      mergeReplayFailure parent.terminalReplayFailure found = some failure ∧
      s'.certificates = s.certificates.update (·.connectJobId = k)
        (fun c => { c with terminalReplayFailure := some failure }) (key_fenced failure) ∧
      Settled k s' := by
  simp only [reconcileCertificateCompletedReplay, bind_eq_ok, Prod.exists] at h
  obtain ⟨j, d, _, _, _, h⟩ := h
  split at h
  case h_1 hn =>
    obtain ⟨s₁, h₁, h⟩ := bind_eq_ok.mp h
    cases pure_eq_ok.mp h
    exact .inr <| .inl ⟨hn, certificates_replayUnprojected h₁⟩
  case h_2 parent hp =>
    obtain ⟨outcome, ho, h⟩ := bind_eq_ok.mp h
    cases outcome
    all_goals obtain ⟨found, hm⟩ := replayOutcome_eq_ok ho
    case none =>
      cases pure_eq_ok.mp h
      refine .inl ⟨rfl, fun c hc => ?_⟩
      rw [hp, List.mem_singleton] at hc
      exact hc ▸ unfenced_of_merge hm.symm
    case some failure =>
      obtain ⟨s₁, h₁, h⟩ := bind_eq_ok.mp h
      cases pure_eq_ok.mp h
      refine .inr <| .inr ⟨parent, found, failure, hp, hm.symm, ?_, settled_of_unsettledBy h₁⟩
      exact certificates_settleCertificate h₁
  case h_3 => simp at h

omit [Codec] in
theorem mem_certificatesOf {c : Certificate} :
    c ∈ s.certificatesOf k ↔ c ∈ s.certificates ∧ c.connectJobId = k := by
  simp [certificatesOf, Table.mem_rows]

theorem FencesRise.replay (h : s.reconcileCertificateCompletedReplay k lane result = .ok (s', j)) :
    FencesRise s s' := by
  obtain ⟨rfl, _⟩ | ⟨_, hc⟩ | ⟨parent, found, failure, hp, hm, hc, _⟩ := replay_cases h
  case inl => exact .of_eq rfl
  case inr.inl => exact .of_eq hc
  case inr.inr =>
    intro key c hg
    rw [hc, Table.get_update, hg, Option.map_some]
    by_cases hk : c.connectJobId = k
    case neg => exact ⟨c.terminalReplayFailure, by simp [hk], le_rfl⟩
    case pos =>
      have hmem : c ∈ s.certificatesOf k := mem_certificatesOf.mpr ⟨Table.mem_of_get hg, hk⟩
      rw [hp, List.mem_singleton] at hmem
      refine ⟨some failure, by simp [hk], ?_⟩
      rw [hmem, ← hm]
      exact fenceRank_le_merge _ _

-- Validating a certificate stores it without a fence if it is missing, and touches no other.
structure Projects (s s' : State) : Prop where
  kept  : ∀ key c, s.certificates.get key = some c → s'.certificates.get key = some c
  fresh : ∀ c ∈ s'.certificates, c ∈ s.certificates ∨ c.terminalReplayFailure = none

namespace Projects

omit [Codec] in
theorem refl (s : State) : Projects s s where
  kept  := fun _ _ h => h
  fresh := fun _ h => .inl h

omit [Codec] in
theorem persistCertificateProjection {e : CertificateEvidence}
    (h : s.persistCertificateProjection j e reading = .ok s') : Projects s s' := by
  simp only [State.persistCertificateProjection, bind_eq_ok, require_eq_ok, exists_const] at h
  obtain ⟨_, h⟩ := h
  split at h
  case h_1 => simp at h
  case h_2 =>
    simp only [pure_eq_ok] at h
    exact h ▸ refl s
  case h_3 =>
    split at h
    all_goals
      simp only [bind_eq_ok, require_eq_ok, exists_const, pure_eq_ok] at h
    case h_1 => exact h.right ▸ refl s
    case h_2 hn =>
      subst h
      constructor
      case kept =>
        intro key c hc
        rw [Table.get_insertOrIgnore, hc]
        rfl
      case fresh =>
        intro c hc
        exact ((Table.mem_insert (Table.insertOrIgnore_of_none hn)).mp hc).imp_right (by rintro rfl; rfl)

omit [Codec] in
theorem projectCertificate {failure : Option CertificateFailure}
    {evidence : Except CertificateFailure CertificateEvidence}
    (h : s.projectCertificate j reading evidence = (s', failure)) : Projects s s' := by
  unfold State.projectCertificate at h
  split at h
  case h_1 s₁ hp =>
    obtain ⟨e, _, hp⟩ := bind_eq_ok.mp hp
    rw [← (Prod.mk.inj h).left]
    exact persistCertificateProjection hp
  case h_2 =>
    rw [← (Prod.mk.inj h).left]
    exact refl s

end Projects

-- The outcome of a join: what stands against the job already, or what its result is worth.
theorem joinOutcome_cases {failure : Option CertificateFailure}
    (h : s.joinOutcome j d reading = .ok (s', failure)) :
    (s' = s ∧ s.joinFence j.jobId d = failure ∧ failure ≠ none) ∨
    (s.joinFence j.jobId d = none ∧ Projects s s') := by
  unfold joinOutcome at h
  split at h
  case h_1 hf =>
    simp only [pure_eq_ok, Prod.mk.injEq] at h
    exact .inl ⟨h.left.symm, hf.trans h.right, by simp [← h.right]⟩
  case h_2 hf =>
    refine .inr ⟨hf, ?_⟩
    split at h
    case isTrue =>
      simp only [pure_eq_ok, Prod.mk.injEq] at h
      exact h.left ▸ .refl s
    case isFalse =>
      split at h
      all_goals simp only [bind_eq_ok, pure_eq_ok, Prod.mk.injEq] at h
      case h_1 => exact h.left ▸ .refl s
      case h_2 => exact h.left ▸ .refl s
      case h_3 =>
        obtain ⟨_, _, h⟩ := h
        exact .projectCertificate h

theorem join_eq_ok (h : s.reconcileCertificateCompletedJoin k reading = .ok (s', j)) :
    ∃ d s₁ failure, (s.certificatesOf k).length ≤ 1 ∧ s.jobs.get k = some j ∧
      s.joinOutcome j d reading = .ok (s₁, failure) ∧
      s₁.settleCertificate k (·.linkedTo k) failure = .ok s' := by
  simp only [reconcileCertificateCompletedJoin, bind_eq_ok, Prod.exists, pure_eq_ok, require_eq_ok,
    Prod.mk.injEq] at h
  obtain ⟨j₁, d, hc, _, hl, s₁, failure, ho, s₂, hok, rfl, rfl⟩ := h
  refine ⟨d, s₁, failure, hl, ?_, ho, hok⟩
  simp only [completedCertificateJob, bind_eq_ok, find_eq_ok, pure_eq_ok] at hc
  obtain ⟨j₂, hj, _, _, d₂, _, hj₂⟩ := hc
  rw [hj, (Prod.mk.inj hj₂).left]

theorem FencesRise.join (h : s.reconcileCertificateCompletedJoin k reading = .ok (s', j)) :
    FencesRise s s' := by
  obtain ⟨d, s₁, failure, _, _, ho, hs⟩ := join_eq_ok h
  refine trans ?_ (of_eq (certificates_settleCertificate hs))
  obtain ⟨rfl, _⟩ | ⟨_, hp⟩ := joinOutcome_cases ho
  case inl => exact of_eq rfl
  case inr => exact fun key c hc => ⟨c.terminalReplayFailure, hp.kept key c hc, le_rfl⟩

omit [Codec] in
theorem fenced_iff : Fenced k s ↔ ∃ c ∈ s.certificatesOf k, c.terminalReplayFailure ≠ none := by
  simp [Fenced, mem_certificatesOf, and_assoc]

-- A replay that leaves a fence has settled all fires for it.
theorem settled_of_replay (h : s.reconcileCertificateCompletedReplay k lane result = .ok (s', j))
    (hf : Fenced k s') : Settled k s' := by
  obtain ⟨rfl, hn⟩ | ⟨hn, hc⟩ | ⟨_, _, _, _, _, _, hs⟩ := replay_cases h
  case inl =>
    obtain ⟨c, hc, hne⟩ := fenced_iff.mp hf
    exact absurd (hn c hc) hne
  case inr.inl =>
    obtain ⟨c, hm, hk, _⟩ := hf
    have hmem : c ∈ s.certificatesOf k := mem_certificatesOf.mpr ⟨hc ▸ hm, hk⟩
    simp [hn] at hmem
  case inr.inr => exact hs

-- A join that meets a fence fails the fires that wait for the job and leaves the others alone.
theorem fires_of_join (h : s.reconcileCertificateCompletedJoin k reading = .ok (s', j))
    (hf : Fenced k s') :
    Fenced k s ∧ ∀ f ∈ s'.fires, f.jobId = some k →
      f.state = .failed ∨ (f ∈ s.fires ∧ f.linkedTo k = false) := by
  obtain ⟨d, s₁, failure, hl, hj, ho, hs⟩ := join_eq_ok h
  have hid : j.jobId = k := jobId_of_get hj
  have hc : s'.certificates = s₁.certificates := certificates_settleCertificate hs
  obtain ⟨rfl, hfence, hne⟩ | ⟨hfence, hp⟩ := joinOutcome_cases ho
  case inl =>
    refine ⟨?_, ?_⟩
    · obtain ⟨c, hm, hk, hn⟩ := hf
      exact ⟨c, hc ▸ hm, hk, hn⟩
    · obtain ⟨c, rfl⟩ := Option.ne_none_iff_exists'.mp hne
      exact fun f hm hj => fires_settleCertificate hs hm hj
  case inr =>
    -- Without a fence before, the projection that is stored now has none.
    exfalso
    obtain ⟨c, hm, hk, hn⟩ := hf
    have hm₀ := (hp.fresh c (hc ▸ hm)).resolve_right hn
    have hmem : c ∈ s.certificatesOf k := mem_certificatesOf.mpr ⟨hm₀, hk⟩
    have hone : s.certificatesOf k = [c] := by
      obtain ⟨c', hc'⟩ := List.length_eq_one_iff.mp <| le_antisymm hl (List.length_pos_of_mem hmem)
      rw [hc', List.mem_singleton] at hmem
      rw [hc', hmem]
    simp only [joinFence, hid, hone, List.head?_cons, Option.bind_some] at hfence
    split at hfence
    case h_1 => cases hfence
    case h_2 hnone => exact hn hnone

end Calls

end State

section Sequences

variable [Codec]

theorem Reconciles.fencesRise (h : Reconciles k a) (hs : step s a = .ok s') : FencesRise s s' := by
  cases h
  all_goals
    simp only [step, map_eq_ok, Prod.exists, exists_and_right, exists_eq_right] at hs
    obtain ⟨j, hs⟩ := hs
  case replay => exact .replay hs
  case join   => exact .join hs

-- What a call leaves of the fires once a fence is up.
theorem Reconciles.fires (h : Reconciles k a) (hs : step s a = .ok s') (hf : Fenced k s')
    (hm : f ∈ s'.fires) (hj : f.jobId = some k) :
    f.state ≠ .submitted ∧ f.state ≠ .entitlementPaused ∧
      (f.state = .completed → Fenced k s ∧ f ∈ s.fires) := by
  cases h
  all_goals
    simp only [step, map_eq_ok, Prod.exists, exists_and_right, exists_eq_right] at hs
    obtain ⟨j, hs⟩ := hs
  case replay =>
    obtain ⟨hc, hsub, hp⟩ := settled_of_replay hs hf f hm hj
    exact ⟨hsub, hp, fun h => absurd h hc⟩
  case join =>
    obtain ⟨hf₀, hfires⟩ := fires_of_join hs hf
    obtain hfailed | ⟨hm₀, hl⟩ := hfires f hm hj
    case inl => simp [hfailed]
    case inr =>
      refine ⟨?_, ?_, fun _ => ⟨hf₀, hm₀⟩⟩
      all_goals
        intro h
        simp [Fire.linkedTo, hj, h, FireState.linked] at hl

-- No fire reports the job as completed although there is a fence.
def FenceHolds (k : String) (s : State) : Prop :=
  Fenced k s → ∀ f ∈ s.fires, f.jobId = some k → f.state ≠ .completed

theorem Reconciles.fenceHolds (h : Reconciles k a) (hs : step s a = .ok s')
    (hi : FenceHolds k s) : FenceHolds k s' := by
  intro hf f hm hj hc
  obtain ⟨hf₀, hm₀⟩ := (h.fires hs hf hm hj).right.right hc
  exact hi hf₀ f hm₀ hj hc

theorem run_fenceHolds {as : List Action} (h : ∀ a ∈ as, Reconciles k a) (hi : FenceHolds k s) :
    FenceHolds k (machine.run s as) := by
  induction as generalizing s
  case nil => exact hi
  case cons a as ih =>
    refine ih (fun b hb => h b (by simp [hb])) ?_
    cases machine.next_cases s a
    case inl hok => exact (h a (by simp)).fenceHolds hok hi
    case inr heq => rwa [heq]

theorem run_fencesRise {as : List Action} (h : ∀ a ∈ as, Reconciles k a) :
    FencesRise s (machine.run s as) := by
  induction as generalizing s
  case nil => exact .of_eq rfl
  case cons a as ih =>
    refine .trans ?_ (ih fun b hb => h b (by simp [hb]))
    cases machine.next_cases s a
    case inl hok => exact (h a (by simp)).fencesRise hok
    case inr heq => exact .of_eq (by rw [heq])

-- The calls that reconcile the completed job `k`, from the state `s` on.
structure Fencing (k : String) (s : State) : Prop where
  -- The fence of a certificate only rises: to an invalid result, to a conflict, and never back.
  rises : ∀ as, (∀ a ∈ as, Reconciles k a) → ∀ key c, s.certificates.get key = some c →
    ∃ failure, (machine.run s as).certificates.get key =
        some { c with terminalReplayFailure := failure } ∧
      fenceRank c.terminalReplayFailure ≤ fenceRank failure
  -- A call that returns with a fence up leaves no fire completed, submitted or paused, if no fire
  -- was completed beside a fence when the sequence began.
  settles : ∀ as a s', (∀ b ∈ as, Reconciles k b) → Reconciles k a →
    (Fenced k s → ∀ f ∈ s.fires, f.jobId = some k → f.state ≠ .completed) →
    step (machine.run s as) a = .ok s' → Fenced k s' →
    ∀ f ∈ s'.fires, f.jobId = some k →
      f.state ∉ [FireState.completed, .submitted, .entitlementPaused]
  -- A replay of the result that is stored changes nothing.
  same : ∀ lane result j d c e, s.completedCertificateJob k "replay" = .ok (j, d) →
    j.lane = lane → s.certificatesOf k = [c] → c.terminalReplayFailure = none →
    certificateEvidence j (Codec.validateGenericResult result) = .ok (.ok e) →
    c.resultSha256 = e.sha256 → c.canonicalResultJson = e.canonicalJson →
    s.reconcileCertificateCompletedReplay k lane result = .ok (s, j)
  raises : ∀ a e, Reconciles k a → step s a = .error e → machine.next s a = s

theorem certificate_replay_fencing (k : String) (s : State) : Fencing k s where
  rises := fun _ h => run_fencesRise h
  settles := by
    intro as a s' has ha hi hs hf f hm hj
    have hfires := ha.fires hs hf hm hj
    have hc := (ha.fenceHolds hs (run_fenceHolds has hi)) hf f hm hj
    simp [hc, hfires.left, hfires.right.left]
  same := by
    intro lane result j d c e hj hl hc hn he hsha hjson
    have ho : replayOutcome j c result = .ok none := by
      simp [replayOutcome, he, catchValueError, hsha, hjson, hn, mergeReplayFailure, bind, pure,
        Except.bind, Except.pure]
    simp [reconcileCertificateCompletedReplay, hj, hl, hc, ho, require, bind, pure, Except.bind,
      Except.pure]
  raises := fun _ _ _ h => Machine.next_of_error (m := machine) h

end Sequences

end Connect
