import EmailWatcher.Connect.Fires

-- How fires, their attempts and their jobs hang together at any time.
namespace Connect

open Transaction State

-- The states in which a fire may still be without a job.
def FireState.opened : FireState → Bool
  | pendingDispatch | entitlementPaused | awaitingConfirmation => true
  | _                                                          => false

-- What holds of a fire: the job that it waits for is there, and it has no job exactly as long as its
-- current attempt has none.
structure Tied (s : State) (f : Fire) : Prop where
  linked    : ∀ k, f.linkedTo k → (s.entry k).isSome
  submitted : f.state = .submitted → f.jobId ≠ none
  unbound   : f.state.opened → f.jobId = none → ∀ t, s.currentAttempt f = some t → t.jobId = none
  number    : (f.currentAttemptNo = 1 ∧ s.attempts.get (f.fireId, 2) = none) ∨
    f.currentAttemptNo = 2
  version   : 1 ≤ f.stateVersion

variable {s s' s₁ s₂ s₃ : State} {k id : String} {j j' : Job} {d : Dispatch} {f f' : Fire}

namespace Tied

theorem mono (h : Tied s f) (he : ∀ k, f.linkedTo k → (s.entry k).isSome → (s'.entry k).isSome)
    (ht : ∀ n, s'.attempts.get (f.fireId, n) = s.attempts.get (f.fireId, n)) : Tied s' f where
  linked k hl := he k hl (h.linked k hl)
  submitted   := h.submitted
  unbound     := by
    simp only [currentAttempt, ht]
    exact h.unbound
  number      := by
    rw [ht]
    exact h.number
  version     := h.version

-- A fire that has settled has nothing left to hold on to.
theorem settle (h : Tied s f) (hid : f'.fireId = f.fireId)
    (hno : f'.currentAttemptNo = f.currentAttemptNo) (hv : f.stateVersion ≤ f'.stateVersion)
    (hl : f'.state.linked = false) (ho : f'.state.opened = false) : Tied s f' where
  linked k hk := by simp [Fire.linkedTo, hl] at hk
  submitted hs := by simp [hs, FireState.linked] at hl
  unbound hf := by simp [ho] at hf
  number  := by
    rw [hno, hid]
    exact h.number
  version := h.version.trans hv

theorem advance {state : FireState} {reason : String} (h : Tied s f)
    (hs : state = .completed ∨ state = .failed) : Tied s (f.advance state reason) := by
  refine h.settle rfl rfl (Nat.le_succ _) ?_ ?_
  all_goals obtain rfl | rfl := hs <;> rfl

theorem unlink (h : Tied s f) (old : Job) : Tied s (f.unlink old) := by
  have hv : (f.unlink old).stateVersion = f.stateVersion + 1 ∧
      (f.unlink old).currentAttemptNo = f.currentAttemptNo ∧
      (f.unlink old).state.linked = false ∧ (f.unlink old).state.opened = false := by
    unfold Fire.unlink
    split <;> exact ⟨rfl, rfl, rfl, rfl⟩
  exact h.settle (Fire.fireId_unlink old f) hv.right.left (by omega) hv.right.right.left
    hv.right.right.right

end Tied

namespace State

-- No job gets lost.
def KeepsEntries (s s' : State) : Prop :=
  ∀ k, (s.entry k).isSome → (s'.entry k).isSome

theorem entry_isSome : (s.entry k).isSome ↔ (s.jobs.get k).isSome ∧ (s.dispatches.get k).isSome := by
  unfold entry
  cases s.jobs.get k <;> cases s.dispatches.get k <;> simp

namespace KeepsEntries

theorem refl (s : State) : KeepsEntries s s :=
  fun _ h => h

theorem trans (h₁ : KeepsEntries s₁ s₂) (h₂ : KeepsEntries s₂ s₃) : KeepsEntries s₁ s₃ :=
  fun k h => h₂ k (h₁ k h)

theorem of_eq (hj : s'.jobs = s.jobs) (hd : s'.dispatches = s.dispatches) : KeepsEntries s s' := by
  intro k h
  rwa [entry, hj, hd, ← entry]

theorem updateDispatch {g : Dispatch → Dispatch} {hg} :
    KeepsEntries s (s.updateDispatch id g hg) := by
  intro k h
  rw [entry_isSome] at h ⊢
  refine ⟨h.left, ?_⟩
  rw [dispatches_updateDispatch]
  split <;> simpa using h.right

theorem updateJob {g : Job → Job} {hg} : KeepsEntries s (s.updateJob id g hg) := by
  intro k h
  rw [entry_isSome] at h ⊢
  refine ⟨?_, h.right⟩
  rw [jobs_updateJob]
  split <;> simpa using h.left

theorem update_dispatches {p : Dispatch → Bool} {g : Dispatch → Dispatch} {hg} :
    KeepsEntries s { s with dispatches := s.dispatches.update p g hg } := by
  intro k h
  rw [entry_isSome] at h ⊢
  exact ⟨h.left, by simpa using h.right⟩

theorem writeTransition {r : Transition} {v : JobValues} {protocol : Protocol} :
    KeepsEntries s (s.writeTransition r v protocol) := by
  unfold State.writeTransition
  split
  case isTrue  => exact updateJob.trans updateDispatch
  case isFalse => exact updateJob

theorem expireWaitingConnectJobs (s : State) (now : Instant) :
    KeepsEntries s (s.expireWaitingConnectJobs now) := by
  intro k h
  obtain he | ⟨j, d, _, _, he⟩ := row_expireWaitingConnectJobs s now k
  case inl =>
    obtain ⟨⟨j, d⟩, hs⟩ := Option.isSome_iff_exists.mp h
    rw [row_of_entry hs] at he
    rw [entry_iff_row.mpr he]
    rfl
  case inr =>
    rw [entry_iff_row.mpr he]
    rfl

theorem creates {r : JobRequest} {fingerprint : String} (h : Creates r fingerprint s s') :
    KeepsEntries s s' := by
  intro k hk
  rw [entry_isSome] at hk ⊢
  rw [h.jobs, h.dispatches]
  refine ⟨?_, ?_⟩
  · split
    case isTrue  => rfl
    case isFalse => exact hk.left
  · split
    case isTrue  => rfl
    case isFalse => exact hk.right

end KeepsEntries

end State

-- Every fire is tied, and no attempt has outlived its fire.
structure TiedFires (s : State) : Prop where
  fires    : ∀ id f, s.fires.get id = some f → Tied s f
  attempts : ∀ id n, (s.attempts.get (id, n)).isSome → (s.fires.get id).isSome

namespace TiedFires

theorem empty : TiedFires ∅ where
  fires id f h := by cases h
  attempts id n h := by cases h

-- Only jobs and dispatch rows change.
theorem keep (h : TiedFires s) (he : KeepsEntries s s') (hf : s'.fires = s.fires)
    (ht : s'.attempts = s.attempts) : TiedFires s' where
  fires id f hi    := (h.fires id f (hf ▸ hi)).mono (fun k _ => he k) fun _ => by rw [ht]
  attempts id n hi := by
    rw [ht] at hi
    rw [hf]
    exact h.attempts id n hi

theorem update {p : Fire → Bool} {g : Fire → Fire} {hg} (h : TiedFires s)
    (hs : ∀ f, s.fires.get f.fireId = some f → p f → Tied s f → Tied s (g f)) :
    TiedFires { s with fires := s.fires.update p g hg } where
  fires := by
    intro id f' hf'
    simp only [Table.get_update, Option.map_eq_some_iff] at hf'
    obtain ⟨f, hf, rfl⟩ := hf'
    obtain rfl : f.fireId = id := Table.key_of_get hf
    have hf₁ : Tied s (if p f then g f else f) := by
      split
      case isTrue hp => exact hs f hf hp (h.fires _ f hf)
      case isFalse   => exact h.fires _ f hf
    exact hf₁.mono (fun _ _ he => he) fun _ => rfl
  attempts id n hi := by simpa using h.attempts id n hi

theorem updateFire {g : Fire → Fire} {hg} (h : TiedFires s)
    (hs : ∀ f, s.fires.get id = some f → Tied s f → Tied s (g f)) :
    TiedFires (s.updateFire id g hg) := by
  refine h.update fun f hf hp hi => hs f ?_ hi
  have hid : f.fireId = id := by simpa using hp
  exact hid ▸ hf

theorem settleFires {p : Fire → Bool} {state : FireState} {reason : String} (h : TiedFires s)
    (hs : state = .completed ∨ state = .failed) : TiedFires (s.settleFires p state reason) :=
  h.update fun _ _ _ hi => hi.advance hs

-- A job takes the fires that wait for it with it.
theorem deleteJob {old : Job} (h : TiedFires s) (hd : s.deleteJob old = .ok s') :
    TiedFires s' := by
  have hrow := fun k => row_deleteJob (k := k) hd
  obtain ⟨_, rfl⟩ := deleteJob_eq_ok.mp hd
  have hu : TiedFires { s with
      fires := s.fires.update (·.linkedTo old.jobId) (·.unlink old) (Fire.fireId_unlink old) } :=
    h.update fun _ _ _ hi => hi.unlink old
  refine ⟨fun id f hf => (hu.fires id f hf).mono (fun k hl he => ?_) fun _ => rfl, hu.attempts⟩
  have hk : k ≠ old.jobId := by
    rintro rfl
    simp only [Table.get_update, Option.map_eq_some_iff] at hf
    obtain ⟨f₀, _, rfl⟩ := hf
    split at hl
    case isFalse hn => exact hn hl
    case isTrue =>
      simp only [Fire.linkedTo, Bool.and_eq_true] at hl
      have hn : (f₀.unlink old).state.linked = false := by
        unfold Fire.unlink
        split <;> rfl
      simp [hn] at hl
  obtain ⟨⟨j, d⟩, he⟩ := Option.isSome_iff_exists.mp he
  have hr := row_of_entry he
  have hr' := hrow k
  rw [if_neg hk] at hr'
  have hr : s.row k = (some j, some d) := hr
  rw [entry_iff_row.mpr (hr'.trans hr)]
  rfl

theorem deleteJobs {p : Job → Bool} (h : TiedFires s) (hd : s.deleteJobs p = .ok s') :
    TiedFires s' :=
  foldlM_invariant (fun _ _ _ _ hi h => hi.deleteJob h) h hd

theorem settleCertificate {p : Fire → Bool} {failure : Option CertificateFailure}
    (h : TiedFires s) (hd : s.settleCertificate id p failure = .ok s') : TiedFires s' := by
  have hs : TiedFires (s.settleByOutcome p failure) := by
    cases failure
    case none   => exact h.settleFires (.inl rfl)
    case some c => exact h.settleFires (.inr rfl)
  obtain rfl | ⟨_, _, _, s₁, _, h₁, _, rfl⟩ := discardSettledSourceLessCertificateJob_eq_ok hd
  case inl => exact hs
  case inr =>
    have hs₁ : TiedFires s₁ := hs.deleteJob h₁
    cases failure
    case none => exact hs₁
    case some c => exact hs₁.update fun f _ _ hi => hi.settle rfl rfl le_rfl rfl rfl

theorem pauseLinkedAutomationFires (h : TiedFires s) (k : String) :
    TiedFires (s.pauseLinkedAutomationFires k) := by
  refine h.update fun f _ hp hi => ?_
  simp only [Bool.and_eq_true, decide_eq_true_eq] at hp
  refine ⟨fun k' hl => hi.linked k' ?_, by simp [Fire.advance], fun _ hn => ?_, hi.number,
    Nat.le_add_left _ _⟩
  · simp only [Fire.linkedTo, Bool.and_eq_true] at hl ⊢
    exact ⟨hl.left, by simp [hp.right, FireState.linked]⟩
  · simp [Fire.advance, hp.left] at hn

section Actions

theorem creates {r : FireRequest} (h : TiedFires s) (hc : CreatesFire r s s')
    (he : KeepsEntries s s') : TiedFires s' where
  fires := by
    intro id f hf
    rw [hc.fires] at hf
    split at hf
    case isTrue =>
      cases Option.some.inj hf
      refine ⟨by simp [Fire.linkedTo, FireRequest.fire, FireState.linked], by simp [FireRequest.fire],
        fun _ _ t ht => ?_, .inl ⟨rfl, ?_⟩, le_rfl⟩
      · rw [currentAttempt, hc.attempts, if_pos (by simp [FireRequest.fire])] at ht
        cases Option.some.inj ht
        rfl
      · rw [hc.attempts, if_neg (by simp [FireRequest.fire])]
        by_contra hn
        have hs := h.attempts r.fireId 2 (Option.ne_none_iff_isSome.mp hn)
        simp [hc.fresh] at hs
    case isFalse hn =>
      obtain rfl : f.fireId = id := Table.key_of_get hf
      refine (h.fires _ f hf).mono (fun k _ => he k) fun n => ?_
      rw [hc.attempts, if_neg (by simp [hn])]
  attempts := by
    intro id n hi
    rw [hc.attempts] at hi
    rw [hc.fires]
    split
    case isTrue => rfl
    case isFalse hn =>
      rw [if_neg (by simp [hn])] at hi
      exact h.attempts id n hi

theorem retries {request : String} {now : Instant} {kind : RetryKind} (h : TiedFires s)
    (hr : Retries id request now f j d kind s s') (he : KeepsEntries s s') : TiedFires s' where
  fires := by
    intro i f' hf'
    rw [hr.fires] at hf'
    split at hf'
    case isTrue hi =>
      subst hi
      obtain ⟨f₀, hf₀, rfl⟩ := Option.map_eq_some_iff.mp hf'
      have hid : f₀.fireId = i := Table.key_of_get hf₀
      refine ⟨by simp [Fire.linkedTo, retryFire], by simp [retryFire], fun _ _ t ht => ?_, .inr rfl,
        Nat.le_add_left _ _⟩
      rw [currentAttempt, hr.attempts, if_pos (by simp [retryFire, hid])] at ht
      cases Option.some.inj ht
      rfl
    case isFalse hi =>
      obtain rfl : f'.fireId = i := Table.key_of_get hf'
      refine (h.fires _ f' hf').mono (fun k _ => he k) fun n => ?_
      rw [hr.attempts, if_neg (by simp [Ne.symm hi])]
  attempts := by
    intro i n hi
    rw [hr.attempts] at hi
    rw [hr.fires]
    split
    case isTrue hk =>
      subst hk
      simp [hr.fire]
    case isFalse hk =>
      rw [if_neg (by simp [Ne.symm hk])] at hi
      exact h.attempts i n hi

theorem removePendingFires (h : TiedFires s) (m : String) : TiedFires (s.removePendingFires m) where
  fires := by
    intro id f hf
    obtain ⟨hf, hr⟩ := Table.get_delete_eq_some.mp hf
    obtain rfl : f.fireId = id := Table.key_of_get hf
    refine (h.fires _ f hf).mono (fun _ _ he => he) fun n => ?_
    simp only [State.removePendingFires, Table.get_delete]
    cases ht : s.attempts.get (f.fireId, n)
    case none => rfl
    case some t =>
      have hid : t.fireId = f.fireId := congrArg Prod.fst (Table.key_of_get ht)
      simp [hid, hf, hr, Option.filter]
  attempts := by
    intro id n hi
    simp only [State.removePendingFires, Table.get_delete] at hi ⊢
    cases ht : s.attempts.get (id, n)
    case none => simp [ht] at hi
    case some t =>
      have hid : t.fireId = id := congrArg Prod.fst (Table.key_of_get ht)
      obtain ⟨f, hf⟩ := Option.isSome_iff_exists.mp (h.attempts id n (by simp [ht]))
      cases hr : removedWithMessage m f
      case true  => simp [ht, hid, hf, hr, Option.filter] at hi
      case false => simp [hf, hr, Option.filter]

-- What the binding makes of the current attempt of a fire.
theorem currentAttempt_bind {m : String} {t' : Attempt} (hf : s.fires.get f.fireId = some f)
    (ht' : (s.bindAdmittedAttempts m).currentAttempt f = some t') :
    ∃ t, s.currentAttempt f = some t ∧ (t' = t ∨ (unsubmitted m f ∧
      t'.jobId = some t.dispatchRequestId ∧ (s.entry t.dispatchRequestId).isSome)) := by
  simp only [currentAttempt, bindAdmittedAttempts, Table.get_update, Option.map_eq_some_iff] at ht'
  obtain ⟨t, ht, rfl⟩ := ht'
  refine ⟨t, ht, ?_⟩
  split
  case isFalse => exact .inl rfl
  case isTrue hp =>
    simp only [Bool.and_eq_true, decide_eq_true_eq] at hp
    obtain ⟨⟨_, hu⟩, hadmitted⟩ := hp
    have hid : t.fireId = f.fireId := congrArg Prod.fst (Table.key_of_get ht)
    rw [hid, hf, Option.any_some] at hu
    refine .inr ⟨hu, rfl, ?_⟩
    cases he : s.entry t.dispatchRequestId
    case none => simp [providerAdmitted, he] at hadmitted
    case some => rfl

-- The fires that have no job yet are bound to jobs that are there.
theorem bindAutomationSource (h : TiedFires s) (m : String) :
    TiedFires (s.bindAutomationSource m) := by
  have hnone : ∀ k, (s.bindAdmittedAttempts m).attempts.get k = none ↔ s.attempts.get k = none := by
    simp [bindAdmittedAttempts]
  have hnumber : ∀ f, Tied s f → (f.currentAttemptNo = 1 ∧
      (s.bindAdmittedAttempts m).attempts.get (f.fireId, 2) = none) ∨ f.currentAttemptNo = 2 := by
    intro f hi
    rw [hnone]
    exact hi.number
  refine ⟨fun id f' hf' => ?_, fun id n hi => ?_⟩
  case refine_2 =>
    simp only [State.bindAutomationSource, submitBoundFires, Table.get_update, Option.isSome_map]
    refine h.attempts id n ?_
    rw [← Option.ne_none_iff_isSome] at hi ⊢
    exact (hnone _).not.mp hi
  case refine_1 =>
    simp only [State.bindAutomationSource, submitBoundFires, Table.get_update,
      Option.map_eq_some_iff] at hf'
    obtain ⟨f, hf, rfl⟩ := hf'
    have hf : s.fires.get id = some f := hf
    obtain rfl : f.fireId = id := Table.key_of_get hf
    have hi := h.fires _ f hf
    split
    case isTrue hp =>
      simp only [Bool.and_eq_true, decide_eq_true_eq, Option.any_eq_true] at hp
      obtain ⟨⟨hu, hn⟩, t', ht', hb⟩ := hp
      obtain ⟨t, ht, heq | ⟨_, hj, he⟩⟩ := currentAttempt_bind hf ht'
      case inl =>
        have ho : f.state.opened := by
          simp only [unsubmitted, Bool.and_eq_true, decide_eq_true_eq] at hu
          cases hs : f.state <;> simp_all [FireState.opened]
        simp [heq, hi.unbound ho hn t ht] at hb
      case inr =>
        refine ⟨fun k hl => ?_, fun _ => ?_, by simp [Fire.advance, FireState.opened], hnumber f hi,
          Nat.le_add_left _ _⟩
        · simp only [Fire.linkedTo, Bool.and_eq_true, decide_eq_true_eq, ht', Option.bind_some, hj,
            Option.some.injEq] at hl
          exact hl.left ▸ he
        · simp [ht', hj]
    case isFalse hp =>
      refine ⟨hi.linked, hi.submitted, fun ho hn t' ht' => ?_, hnumber f hi, hi.version⟩
      have ht' : (s.bindAdmittedAttempts m).currentAttempt f = some t' := ht'
      obtain ⟨t, ht, rfl | ⟨hu, hj, _⟩⟩ := currentAttempt_bind hf ht'
      case inl => exact hi.unbound ho hn t' ht
      case inr => simp [hu, hn, ht', hj] at hp

theorem invalidateConnectSource {m : String} (h : TiedFires s)
    (hd : s.invalidateConnectSource m = .ok s') : TiedFires s' := by
  simp only [State.invalidateConnectSource, bind_eq_ok, pure_eq_ok] at hd
  obtain ⟨s₁, h₁, rfl⟩ := hd
  exact (h.deleteJobs h₁).keep .update_dispatches rfl rfl

theorem markSourcesUnavailable {ms : List String} (h : TiedFires s)
    (hd : s.markSourcesUnavailable ms = .ok s') : TiedFires s' :=
  foldlM_invariant (fun _ m _ _ hi h => (hi.bindAutomationSource m).invalidateConnectSource h) h hd

theorem deleteMessage {m : String} (h : TiedFires s) (hd : s.deleteMessage m = .ok s') :
    TiedFires s' :=
  ((h.bindAutomationSource m).removePendingFires m).invalidateConnectSource hd

theorem resumeAutomationDispatch {now : Instant}
    (h : s.resumeAutomationDispatch id now = .ok s') :
    (s.dispatches.get id).isSome ∧ KeepsEntries s s' ∧ s'.fires = s.fires ∧
      s'.attempts = s.attempts := by
  simp only [State.resumeAutomationDispatch, bind_eq_ok, find_eq_ok] at h
  obtain ⟨d, hd, h⟩ := h
  refine ⟨by simp [hd], ?_⟩
  split at h <;> cases pure_eq_ok.mp h
  case h_1 => exact ⟨.refl _, rfl, rfl⟩
  case h_2 => exact ⟨.updateDispatch, rfl, rfl⟩

variable [Codec]

-- What a transition of the fire `f` does before it moves the fire.
structure MovesJob (r : FireTransition) (f : Fire) (s s₁ : State) : Prop where
  entries  : KeepsEntries s s₁
  fires    : s₁.fires = s.fires
  others   : ∀ id n, id ≠ f.fireId → s₁.attempts.get (id, n) = s.attempts.get (id, n)
  absent   : ∀ k, s₁.attempts.get k = none ↔ s.attempts.get k = none
  attempts : r.nextState ≠ .submitted → s₁.attempts = s.attempts
  job      : r.nextState = .submitted → r.job f ≠ none
  linked   : r.nextState.linked → ∀ k, r.job f = some k → (s.entry k).isSome

omit [Codec] in
theorem MovesJob.of_eq {r : FireTransition} (he : KeepsEntries s s₁) (hf : s₁.fires = s.fires)
    (ht : s₁.attempts = s.attempts) (hj : r.nextState = .submitted → r.job f ≠ none)
    (hl : r.nextState.linked → ∀ k, r.job f = some k → (s.entry k).isSome) :
    MovesJob r f s s₁ where
  entries      := he
  fires        := hf
  others _ _ _ := by rw [ht]
  absent _     := by rw [ht]
  attempts _   := ht
  job          := hj
  linked       := hl

omit [Codec] in
theorem entry_of_dispatch (hc : Consistent s) (h : (s.dispatches.get k).isSome) :
    (s.entry k).isSome := by
  obtain ⟨d, hd⟩ := Option.isSome_iff_exists.mp h
  obtain ⟨j, he⟩ := hc.owned hd
  simp [he]

theorem movesJob {r : FireTransition} (hc : Consistent s) (h : s.moveLinkedJob r f = .ok s₁) :
    MovesJob r f s s₁ := by
  unfold moveLinkedJob at h
  split at h
  case h_1 => simp at h
  case h_2 k hn hj =>
    obtain ⟨s₂, h₂, h⟩ := bind_eq_ok.mp h
    obtain ⟨hd, he, hf, ht⟩ := resumeAutomationDispatch h₂
    obtain ⟨t, _, _, rfl⟩ := bindAttempt_eq_ok h
    refine ⟨he.trans (.of_eq rfl rfl), hf, fun id n hid => ?_, fun k => ?_, fun hs => absurd hn hs,
      fun _ => by simp [hj], fun _ k' hk' => ?_⟩
    · simp only [Table.get_update, ht]
      cases ht₀ : s.attempts.get (id, n)
      case none => rfl
      case some t₀ =>
        have hkey : t₀.fireId = id := congrArg Prod.fst (Table.key_of_get ht₀)
        simp [hkey, hid]
    · simp [ht]
    · cases hj.symm.trans hk'
      exact entry_of_dispatch hc hd
  case h_3 hn =>
    obtain ⟨_, _, h⟩ := bind_eq_ok.mp h
    cases pure_eq_ok.mp h
    exact .of_eq (.refl _) rfl rfl (by simp [hn]) (by simp [hn, FireState.linked])
  case h_4 k hn hj =>
    simp only [pauseDispatch, bind_eq_ok, find_eq_ok, pure_eq_ok] at h
    obtain ⟨d, hd, rfl⟩ := h
    have hl : r.nextState.linked → ∀ k, r.job f = some k → (s.entry k).isSome := by
      intro _ k' hk'
      cases hj.symm.trans hk'
      exact entry_of_dispatch hc (by simp [hd])
    split
    case isTrue  => exact .of_eq .updateDispatch rfl rfl (by simp [hn]) hl
    case isFalse => exact .of_eq (.refl _) rfl rfl (by simp [hn]) hl
  case h_5 =>
    cases pure_eq_ok.mp h
    refine .of_eq (.refl _) rfl rfl (fun hn hj => by simp_all) fun hl k hk => ?_
    cases hn : r.nextState <;> simp_all [FireState.linked]

theorem transition {r : FireTransition} (hm : MovesJob r f s s₁) (h : TiedFires s)
    (hf : s.fires.get r.fireId = some f)
    (ha : (f.state, r.nextState) ∈ automationFireTransitions) :
    TiedFires (s₁.updateFire r.fireId r.apply (fireId_transition r)) := by
  have hid : f.fireId = r.fireId := Table.key_of_get hf
  have hi := h.fires _ f hf
  refine ⟨fun i g hg => ?_, fun i n ht => ?_⟩
  case refine_2 =>
    have hs := h.attempts i n <| by
      rw [← Option.ne_none_iff_isSome] at ht ⊢
      exact (hm.absent _).not.mp ht
    rw [fires_updateFire, hm.fires]
    split <;> simpa using hs
  case refine_1 =>
    rw [fires_updateFire, hm.fires] at hg
    split at hg
    case isFalse hn =>
      obtain rfl : g.fireId = i := Table.key_of_get hg
      refine (h.fires _ g hg).mono (fun k _ => hm.entries k) fun n => ?_
      exact hm.others _ n (hid ▸ hn)
    case isTrue hi' =>
      rw [hi', hf, Option.map_some] at hg
      cases Option.some.inj hg
      refine ⟨fun k hl => ?_, fun hs => hm.job hs, fun ho hn t ht => ?_, ?_, Nat.le_add_left _ _⟩
      · simp only [Fire.linkedTo, Bool.and_eq_true, decide_eq_true_eq] at hl
        exact hm.entries k (hm.linked hl.right k hl.left)
      · -- A fire that stays without a job was without one before, and not submitted.
        have hn : r.jobId.or f.jobId = none := hn
        have ho : r.nextState.opened := ho
        have hns : r.nextState ≠ .submitted := by
          intro hs
          simp [hs, FireState.opened] at ho
        have hfj : f.jobId = none := (Option.or_eq_none_iff.mp hn).right
        have hfo : f.state.opened := by
          cases hs : f.state
          case submitted => exact absurd hfj (hi.submitted hs)
          all_goals simp_all [automationFireTransitions, FireState.opened]
        refine hi.unbound hfo hfj t ?_
        rw [currentAttempt, ← hm.attempts hns]
        exact ht
      · have hnum := hi.number
        rw [← hm.absent] at hnum
        exact hnum

theorem transitionAutomationFire {r : FireTransition} (hc : Consistent s) (h : TiedFires s)
    (hs : s.transitionAutomationFire r = .ok s') : TiedFires s' := by
  obtain ⟨f, s₁, hcheck, hf, hst, _, h₁, hs⟩ := transitionAutomationFire_eq_ok hs
  have ha : (f.state, r.nextState) ∈ automationFireTransitions := by
    simp only [FireTransition.check, bind_eq_ok, require_eq_ok] at hcheck
    obtain ⟨_, he, _⟩ := hcheck
    rwa [hst]
  have ht := transition (movesJob hc h₁) h hf ha
  obtain rfl | ⟨_, _, _, hd⟩ := hs
  case inl => exact ht
  case inr => exact ht.deleteJobs hd

omit [Codec] in
theorem resumeAutomationFireJob {version : Nat} {now : Instant} (hc : Consistent s)
    (h : TiedFires s) (hs : s.resumeAutomationFireJob id version now = .ok s') : TiedFires s' := by
  simp only [State.resumeAutomationFireJob, bind_eq_ok, find_eq_ok, require_eq_ok, pure_eq_ok] at hs
  obtain ⟨f, hf, _, _, k, hk, s₁, h₁, rfl⟩ := hs
  obtain ⟨hd, he, hf₁, ht₁⟩ := resumeAutomationDispatch h₁
  refine (h.keep he hf₁ ht₁).updateFire fun g hg hi => ?_
  cases hf.symm.trans (hf₁ ▸ hg)
  refine ⟨fun k' hl => ?_, fun _ => by simp [resumeFire, hk], by simp [resumeFire, FireState.opened],
    hi.number, Nat.le_add_left _ _⟩
  simp only [Fire.linkedTo, resumeFire, Bool.and_eq_true, decide_eq_true_eq, hk,
    Option.some.injEq] at hl
  exact he k' (hl.left ▸ entry_of_dispatch hc hd)

omit [Codec] in
theorem decideAutomationFire {sha : String} {version : Nat} {confirmed : Bool} {now : Instant}
    (h : TiedFires s) (hs : s.decideAutomationFire id version sha confirmed now = .ok s') :
    TiedFires s' := by
  simp only [State.decideAutomationFire, bind_eq_ok, find_eq_ok, require_eq_ok] at hs
  obtain ⟨_, _, f, hf, _, ⟨hst, _⟩, hs⟩ := hs
  have hdecided : ∀ g, s.fires.get id = some g → Tied s g → Tied s (decideFire confirmed now g) := by
    intro g hg hi
    cases hf.symm.trans hg
    refine ⟨fun k hl => ?_, fun hd => ?_, fun _ hn t ht => ?_, hi.number, Nat.le_add_left _ _⟩
    · cases confirmed <;> simp [Fire.linkedTo, decideFire, FireState.linked] at hl
    · cases confirmed <;> simp [decideFire] at hd
    · exact hi.unbound (by simp [hst, FireState.opened]) hn t ht
  split at hs
  all_goals
    obtain ⟨c, _, hs⟩ := bind_eq_ok.mp hs
    cases pure_eq_ok.mp hs
    have hc : TiedFires { s with confirmations := c } := h.keep (.of_eq rfl rfl) rfl rfl
    exact hc.updateFire fun g hg hi => (hdecided g hg (hi.mono (fun _ _ he => he) fun _ => rfl)).mono
      (fun _ _ he => he) fun _ => rfl

theorem transitionConnectJob {r : Transition} {target : Bool} {reading : SourceReading}
    (h : TiedFires s) (hs : s.transitionConnectJob r target reading = .ok (s', j')) :
    TiedFires s' := by
  obtain ⟨j, v, s₁, outcome, _, _, ho, hs⟩ := transitionConnectJob_eq_ok hs
  have hsame := certificateOutcome_same ho
  have h₁ : TiedFires s₁ :=
    h.keep (.of_eq hsame.jobs hsame.dispatches) hsame.fires hsame.attempts
  obtain ⟨_, hs⟩ | ⟨_, hs⟩ := hs
  case inl =>
    refine (h₁.settleFires ?_).deleteJob hs
    split <;> simp
  case inr =>
    obtain ⟨_, hs⟩ := recordTransition_eq_ok.mp hs
    have hw := fires_writeTransition (s := s₁) r v j.protocolVersion
    have h₂ := h₁.keep .writeTransition hw.left hw.right
    cases outcome
    case none => exact pure_eq_ok.mp hs ▸ h₂
    case some => exact h₂.settleCertificate hs

theorem reconcileCertificateCompletedReplay {lane : Lane} {result : String} (h : TiedFires s)
    (hs : s.reconcileCertificateCompletedReplay id lane result = .ok (s', j')) : TiedFires s' := by
  simp only [State.reconcileCertificateCompletedReplay, bind_eq_ok, Prod.exists] at hs
  obtain ⟨j, d, _, _, _, hs⟩ := hs
  split at hs
  case h_1 =>
    obtain ⟨s₁, h₁, hs⟩ := bind_eq_ok.mp hs
    cases pure_eq_ok.mp hs
    simp only [replayUnprojected, bind_eq_ok, Prod.exists] at h₁
    obtain ⟨_, _, _, h₁⟩ := h₁
    split at h₁
    case isTrue =>
      refine settleCertificate ?_ h₁
      exact h.keep .updateDispatch rfl rfl
    case isFalse =>
      obtain ⟨_, _, h₁⟩ := bind_eq_ok.mp h₁
      exact h.settleCertificate h₁
  case h_2 =>
    obtain ⟨outcome, _, hs⟩ := bind_eq_ok.mp hs
    cases outcome
    case none =>
      cases pure_eq_ok.mp hs
      exact h
    case some failure =>
      obtain ⟨s₁, h₁, hs⟩ := bind_eq_ok.mp hs
      cases pure_eq_ok.mp hs
      refine settleCertificate ?_ h₁
      exact h.keep (.of_eq rfl rfl) rfl rfl
  case h_3 => simp at hs

theorem reconcileCertificateCompletedJoin {reading : SourceReading} (h : TiedFires s)
    (hs : s.reconcileCertificateCompletedJoin id reading = .ok (s', j')) : TiedFires s' := by
  simp only [State.reconcileCertificateCompletedJoin, bind_eq_ok, Prod.exists, pure_eq_ok,
    Prod.mk.injEq] at hs
  obtain ⟨j, d, _, _, _, s₁, failure, ho, s₂, hok, rfl, _⟩ := hs
  have hsame := joinOutcome_same ho
  exact (h.keep (.of_eq hsame.jobs hsame.dispatches) hsame.fires hsame.attempts).settleCertificate hok

omit [Codec] in
theorem expireWaitingConnectJobs (h : TiedFires s) (now : Instant) :
    TiedFires (s.expireWaitingConnectJobs now) :=
  h.keep (.expireWaitingConnectJobs s now) (fires_expireWaitingConnectJobs s now)
    (attempts_expireWaitingConnectJobs s now)

omit [Codec] in
theorem createConnectJob {r : JobRequest} {content attachment : Bool} (h : TiedFires s)
    (hs : s.createConnectJob r content attachment = .ok (s', j)) : TiedFires s' := by
  obtain ⟨_, _, hc⟩ | ⟨_, rfl | ⟨_, hc⟩⟩ := createConnectJob_eq_ok hs
  case inl     => exact h.keep (.creates hc) hc.fires hc.attempts
  case inr.inl => exact h.expireWaitingConnectJobs r.now
  case inr.inr => exact (h.expireWaitingConnectJobs r.now).keep (.creates hc) hc.fires hc.attempts

omit [Codec] in
theorem claimConnectLaneHead {lane : Lane} {expected : Option String} {content : String → Bool}
    {now : Instant} (h : TiedFires s) :
    TiedFires (s.claimConnectLaneHead lane expected content now).fst := by
  have hx := h.expireWaitingConnectJobs now
  cases s.claimConnectLaneHead_cases lane expected content now
  case inl heq => exact heq ▸ hx
  case inr heq =>
    obtain ⟨_, _, _, heq⟩ := heq
    exact heq ▸ hx.keep .updateDispatch rfl rfl

omit [Codec] in
theorem deferConnectJob {r : Deferral} (h : TiedFires s) (hs : s.deferConnectJob r = .ok (s', d)) :
    TiedFires s' := by
  obtain ⟨s₁, h₁, rfl⟩ := deferConnectJob_eq_ok hs
  obtain ⟨_, _, _, _, rfl⟩ := deferDispatch_eq_ok h₁
  have hu : TiedFires (s.updateDispatch r.jobId r.apply) := h.keep .updateDispatch rfl rfl
  have hs : TiedFires (if r.pauseLinkedAutomationFires then
      (s.updateDispatch r.jobId r.apply).pauseLinkedAutomationFires r.jobId
      else s.updateDispatch r.jobId r.apply) := by
    split
    case isTrue  => exact hu.pauseLinkedAutomationFires r.jobId
    case isFalse => exact hu
  split
  case isTrue  => exact hs.expireWaitingConnectJobs r.now
  case isFalse => exact hs

theorem step {a : Action} (hc : Consistent s) (h : TiedFires s) (hs : step s a = .ok s') :
    TiedFires s' := by
  cases a <;> simp only [Connect.step, map_eq_ok, Except.ok.injEq, Prod.exists, exists_and_right,
    exists_eq_right] at hs
  case createAutomationFire =>
    obtain ⟨hcr, hj, hd⟩ := createAutomationFire_eq_ok hs
    exact h.creates hcr (.of_eq hj hd)
  case createConnectJob =>
    obtain ⟨_, hs⟩ := hs
    exact h.createConnectJob hs
  case claimConnectLaneHead => exact hs ▸ h.claimConnectLaneHead
  case deferConnectJob =>
    obtain ⟨_, hs⟩ := hs
    exact h.deferConnectJob hs
  case expireWaitingConnectJobs now => exact hs ▸ h.expireWaitingConnectJobs now
  case transitionConnectJob =>
    obtain ⟨_, hs⟩ := hs
    exact h.transitionConnectJob hs
  case resetConnectJobForResubmission =>
    obtain ⟨_, hs⟩ := hs
    obtain ⟨_, _, _, ⟨_, rfl⟩ | ⟨_, _, _, _, rfl⟩⟩ := resetConnectJobForResubmission_eq_ok hs
    case inl => exact h.keep .updateJob rfl rfl
    case inr => exact h.keep (.trans .updateDispatch .updateJob) rfl rfl
  case reconcileCertificateCompletedReplay =>
    obtain ⟨_, hs⟩ := hs
    exact h.reconcileCertificateCompletedReplay hs
  case reconcileCertificateCompletedJoin =>
    obtain ⟨_, hs⟩ := hs
    exact h.reconcileCertificateCompletedJoin hs
  case transitionAutomationFire => exact transitionAutomationFire hc h hs
  case decideAutomationFire => exact h.decideAutomationFire hs
  case pauseInteractiveJobAutomationFires =>
    simp only [State.pauseInteractiveJobAutomationFires, bind_eq_ok, pure_eq_ok] at hs
    obtain ⟨_, _, _, _, rfl⟩ := hs
    exact h.pauseLinkedAutomationFires _
  case authorizeConnectJobInteractively =>
    obtain ⟨_, hs⟩ := hs
    simp only [State.authorizeConnectJobInteractively, bind_eq_ok, Prod.exists] at hs
    obtain ⟨_, _, _, hs⟩ := hs
    split at hs
    case isTrue =>
      cases pure_eq_ok.mp hs
      exact h
    case isFalse =>
      obtain ⟨s₁, h₁, hs⟩ := bind_eq_ok.mp hs
      cases pure_eq_ok.mp hs
      obtain ⟨_, he, hf, ht⟩ := resumeAutomationDispatch h₁
      exact h.keep (.trans .updateDispatch he) hf ht
  case resumeAutomationFireJob => exact resumeAutomationFireJob hc h hs
  case retryAutomationFireAfterFailure =>
    obtain ⟨⟨_, _, _, _, hr⟩, hj, hd⟩ := retryAutomationFireAfterFailure_eq_ok hs
    exact h.retries hr (.of_eq hj hd)
  case markSourcesUnavailable => exact h.markSourcesUnavailable hs
  case deleteMessage => exact h.deleteMessage hs

end Actions

end TiedFires

section Runs

variable [Codec]

theorem run_tied (as : List Action) : TiedFires (machine.run ∅ as) := by
  suffices h : Consistent (machine.run ∅ as) ∧ TiedFires (machine.run ∅ as) from h.right
  refine Machine.invariant (m := machine) (I := fun s => Consistent s ∧ TiedFires s) ?_
    ⟨.empty, .empty⟩ as
  exact fun _ _ _ hi h => ⟨(step_effect h).consistent hi.left, hi.right.step hi.left h⟩

end Runs

end Connect
