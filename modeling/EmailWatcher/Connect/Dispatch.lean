import EmailWatcher.Connect.Lanes

namespace Connect

open Transaction State

variable {s s' s₁ s₂ : State} {a : Action} {k : String} {j j' : Job} {d d' : Dispatch}

namespace State

section Create

variable {r : JobRequest} {content attachment : Bool} {fingerprint : String}

-- A new job replaces no row.
structure Creates (r : JobRequest) (fingerprint : String) (s s' : State) : Prop where
  fresh : s.jobs.get r.jobId = none
  jobs  : ∀ k, s'.jobs.get k = if r.jobId = k then some (r.job fingerprint) else s.jobs.get k
  dispatches : ∀ k, s'.dispatches.get k =
    if r.protocolVersion = .v2 ∧ r.jobId = k then some r.dispatch else s.dispatches.get k
  fires    : s'.fires = s.fires
  attempts : s'.attempts = s.attempts

theorem insertJob_eq_ok (h : s.insertJob j = .ok s') :
    ∃ jobs, s.jobs.insert j = some jobs ∧ s' = { s with jobs := jobs } := by
  simp only [insertJob, bind_eq_ok, find_eq_ok, pure_eq_ok] at h
  obtain ⟨_, _, jobs, hj, h⟩ := h
  exact ⟨jobs, hj, h.symm⟩

theorem insertDispatch_eq_ok (h : s.insertDispatch d = .ok s') :
    ∃ dispatches, s.dispatches.insert d = some dispatches ∧
      s' = { s with dispatches := dispatches } := by
  simp only [insertDispatch, bind_eq_ok, find_eq_ok, pure_eq_ok] at h
  obtain ⟨dispatches, hd, h⟩ := h
  exact ⟨dispatches, hd, h.symm⟩

-- Whoever starts a job has been told that the content of the message may be used.
theorem content_of_createConnectJob {x : State × Job}
    (h : s.createConnectJob r content attachment = .ok x) : content := by
  simp only [createConnectJob, bind_eq_ok, require_eq_ok] at h
  obtain ⟨_, _, _, hc, _⟩ := h
  exact hc

theorem content_of_reset {id : String} {expected : JobStatus} {lane : Lane}
    {content : String → Bool} {x : State × Job}
    (h : s.resetConnectJobForResubmission id expected lane content = .ok x) :
    ∃ j, s.jobs.get id = some j ∧ content j.messageId := by
  simp only [resetConnectJobForResubmission, bind_eq_ok, require_eq_ok, find_eq_ok] at h
  obtain ⟨_, _, j, hj, _, _, _, hc, _⟩ := h
  exact ⟨j, hj, hc⟩

theorem createConnectJob_eq_ok (h : s.createConnectJob r content attachment = .ok (s', j)) :
    (r.protocolVersion = .v1 ∧ ∃ fingerprint, Creates r fingerprint s s') ∨
    (r.protocolVersion = .v2 ∧ (s' = s.expireWaitingConnectJobs r.now ∨
      ∃ fingerprint, Creates r fingerprint (s.expireWaitingConnectJobs r.now) s')) := by
  simp only [createConnectJob, bind_eq_ok] at h
  obtain ⟨fingerprint, _, _, _, _, _, h⟩ := h
  cases hp : r.protocolVersion <;> simp only [hp] at h
  case v1 =>
    obtain ⟨s₁, h₁, h⟩ := bind_eq_ok.mp h
    cases pure_eq_ok.mp h
    obtain ⟨jobs, hj, rfl⟩ := insertJob_eq_ok h₁
    refine .inl ⟨rfl, fingerprint, ?_⟩
    exact {
      fresh      := (Table.insert_eq_some.mp hj).left
      jobs       := Table.get_insert hj
      dispatches := by simp [hp]
      fires      := rfl
      attempts   := rfl
    }
  case v2 =>
    refine .inr ⟨rfl, ?_⟩
    split at h
    case h_1 =>
      obtain ⟨_, _, h⟩ := bind_eq_ok.mp h
      cases pure_eq_ok.mp h
      exact .inl rfl
    case h_2 =>
      obtain ⟨_, _, h⟩ := bind_eq_ok.mp h
      obtain ⟨s₁, h₁, h⟩ := bind_eq_ok.mp h
      obtain ⟨s₂, h₂, h⟩ := bind_eq_ok.mp h
      cases pure_eq_ok.mp h
      obtain ⟨jobs, hj, rfl⟩ := insertJob_eq_ok h₁
      obtain ⟨dispatches, hd, rfl⟩ := insertDispatch_eq_ok h₂
      refine .inr ⟨fingerprint, ?_⟩
      exact {
        fresh      := (Table.insert_eq_some.mp hj).left
        jobs       := Table.get_insert hj
        dispatches := fun k => by simp only [hp, true_and]; exact Table.get_insert hd k
        fires      := rfl
        attempts   := rfl
      }

end Create

section Claim

variable {lane : Lane}

theorem mem_laneQueue :
    (j, d) ∈ s.laneQueue lane ↔ s.entry j.jobId = some (j, d) ∧ j.lane = lane ∧ queued j d := by
  simp only [laneQueue, List.mem_filterMap, Option.bind_eq_some_iff, entry_eq_some]
  constructor
  case mp =>
    rintro ⟨j₁, hm, d₁, hd, h⟩
    split at h
    case isFalse => simp at h
    case isTrue hq =>
      cases Option.some.inj h
      simp only [Bool.and_eq_true, decide_eq_true_eq] at hq
      exact ⟨⟨Table.get_of_mem hm, hd⟩, hq⟩
  case mpr =>
    rintro ⟨⟨hj, hd⟩, hl, hq⟩
    exact ⟨j, Table.mem_of_get hj, d, hd, by simp [hl, hq]⟩

-- Whoever is at the head of a lane has the lowest rank in it.
theorem laneHead_eq_some (h : s.laneHead lane = some (j, d)) :
    (j, d) ∈ s.laneQueue lane ∧
    ∀ j₁ d₁, (j₁, d₁) ∈ s.laneQueue lane → laneRank d.state ≤ laneRank d₁.state := by
  have hm : (j, d) ∈ (s.laneQueue lane).argmin _ := h
  refine ⟨List.argmin_mem hm, fun j₁ d₁ h₁ => ?_⟩
  have hle := List.le_of_mem_argmin h₁ hm
  exact Prod.Lex.monotone_fst _ _ hle

-- The claim of a waiting job, with what the claimant knows about the other jobs of the lane.
theorem laneHead_waiting (h : s.laneHead lane = some (j, d)) (hw : d.state = .waiting)
    (hv : ∀ k, RowValid (s.row k)) {k : String} {j₁ : Job} {d₁ : Dispatch}
    (he : s.entry k = some (j₁, d₁)) (hl : j₁.lane = lane) :
    d₁.state = .waiting ∨ d₁.state = .terminal := by
  obtain ⟨_, hmin⟩ := laneHead_eq_some h
  have hv₁ : Valid j₁ d₁ := by
    have := hv k
    rwa [row_of_entry he] at this
  by_contra hn
  simp only [not_or] at hn
  have hk : j₁.jobId = k := jobId_of_get (entry_eq_some.mp he).left
  have ha : j₁.status.settled = false := by
    simpa [hv₁.terminal] using hn.right
  have hq : queued j₁ d₁ := by simp [queued, hv₁.v2, ha, hn]
  have hle := hmin j₁ d₁ <| mem_laneQueue.mpr ⟨hk ▸ he, hl, hq⟩
  rw [hw] at hle
  cases hs : d₁.state <;> simp_all [laneRank]

-- Without the content, only a job that may already have been submitted is claimed.
theorem content_of_claim {expected : Option String} {content : String → Bool} {now : Instant}
    (h : (s.claimConnectLaneHead lane expected content now).snd = some (j, d')) :
    ∃ d, (s.expireWaitingConnectJobs now).laneHead lane = some (j, d) ∧
      (content j.messageId ∨ d.state ≠ .waiting ∨ d.submissionPossible) := by
  simp only [claimConnectLaneHead] at h
  split at h
  case h_1 => exact absurd h.symm (Option.some_ne_none _)
  case h_2 j₁ d hc =>
    obtain ⟨hl, hc⟩ := Option.filter_eq_some_iff.mp hc
    simp only [Option.some.injEq, Prod.mk.injEq] at h
    rw [← h.left]
    refine ⟨d, hl, ?_⟩
    simp only [Bool.and_eq_true, Bool.or_eq_true, decide_eq_true_eq] at hc
    exact or_assoc.mp hc.right

theorem jobId_claimDispatch (d : Dispatch) : (claimDispatch d).jobId = d.jobId :=
  rfl

theorem claimConnectLaneHead_cases (s : State) (lane : Lane) (expected : Option String)
    (content : String → Bool) (now : Instant) :
    (s.claimConnectLaneHead lane expected content now).fst = s.expireWaitingConnectJobs now ∨
    ∃ j d, (s.expireWaitingConnectJobs now).laneHead lane = some (j, d) ∧
      (s.claimConnectLaneHead lane expected content now).fst =
      (s.expireWaitingConnectJobs now).updateDispatch j.jobId claimDispatch jobId_claimDispatch := by
  simp only [claimConnectLaneHead]
  split
  case h_1 => exact .inl rfl
  case h_2 j d h => exact .inr ⟨j, d, (Option.filter_eq_some_iff.mp h).left, rfl⟩

end Claim

end State

-- The state in which an action lets waiting jobs expire.
def expiry (s : State) : Action → Option (State × Instant)
  | .expireWaitingConnectJobs now   => some (s, now)
  | .claimConnectLaneHead _ _ _ now => some (s, now)
  | .createConnectJob r _ _         =>
    match r.protocolVersion with
    | .v1 => none
    | .v2 => some (s, r.now)
  | .deferConnectJob r =>
    match r.nextDispatchState, s.deferDispatch r with
    | .waiting, .ok s₁ => some (s₁, r.now)
    | _,        _      => none
  | _ => none

-- The ways in which an action fails a job.
inductive Fails [Codec] (s : State) (a : Action) (k : String) (j' : Job) : Prop
  | expired {m : State} {now : Instant} {j : Job} {d : Dispatch} :
    expiry s a = some (m, now) → m.entry k = some (j, d) → Expiring now j d →
    j' = expiredJob j → Fails s a k j'
  | reported {r : Transition} {target : Bool} {reading : SourceReading} {j : Job} {v : JobValues} :
    a = .transitionConnectJob r target reading → r.jobId = k → r.nextState = .failed →
    Transitionable s r j → r.values j.protocolVersion = .ok v → j' = r.applyJob v j →
    Fails s a k j'

-- All that an action can do to the rows of jobs.
inductive Effect [Codec] (s : State) (a : Action) (s' : State) : Prop
  | keeps : Preserves (Fails s a) s s' → Effect s a s'
  | creates {r : JobRequest} {fingerprint : String} {m : State} :
    s.jobs.get r.jobId = none → Preserves (Fails s a) s m → Creates r fingerprint m s' →
    Effect s a s'
  | claims {lane : Lane} {m : State} {j : Job} {d : Dispatch}
      {expected : Option String} {content : String → Bool} {now : Instant} :
    a = .claimConnectLaneHead lane expected content now → m = s.expireWaitingConnectJobs now →
    Preserves (Fails s a) s m → m.laneHead lane = some (j, d) →
    s' = m.updateDispatch j.jobId claimDispatch jobId_claimDispatch → Effect s a s'

section Step

variable [Codec]

theorem preserves_expiry {now : Instant} (h : expiry s a = some (s₁, now)) :
    Preserves (Fails s a) s₁ (s₁.expireWaitingConnectJobs now) :=
  Preserves.expireWaitingConnectJobs fun _ _ _ he e => .expired h he e rfl

theorem step_effect (h : step s a = .ok s') : Effect s a s' := by
  cases a <;> simp only [step, map_eq_ok, Except.ok.injEq, Prod.exists, exists_and_right,
    exists_eq_right] at h
  case createAutomationFire => exact .keeps <| .createAutomationFire h
  case createConnectJob r content attachment =>
    obtain ⟨j, h⟩ := h
    obtain ⟨_, fingerprint, hc⟩ | ⟨hp, rfl | ⟨fingerprint, hc⟩⟩ := createConnectJob_eq_ok h
    case inl => exact .creates hc.fresh (.refl _) hc
    all_goals
      have he : expiry s (.createConnectJob r content attachment) = some (s, r.now) := by
        simp [expiry, hp]
    case inr.inl => exact .keeps <| preserves_expiry he
    case inr.inr =>
      have hn := jobs_expireWaitingConnectJobs_eq_none.mp hc.fresh
      exact .creates hn (preserves_expiry he) hc
  case claimConnectLaneHead lane expected content now =>
    have he : expiry s (.claimConnectLaneHead lane expected content now) = some (s, now) := rfl
    have hp := preserves_expiry he
    cases s.claimConnectLaneHead_cases lane expected content now
    case inl heq => exact .keeps <| h ▸ heq ▸ hp
    case inr heq =>
      obtain ⟨j, d, hl, heq⟩ := heq
      exact .claims rfl rfl hp hl (h ▸ heq)
  case deferConnectJob r =>
    obtain ⟨d, h⟩ := h
    refine .keeps <| .deferConnectJob h fun s₁ h₁ hw k j d he e => .expired ?_ he e rfl
    simp [expiry, hw, h₁]
  case expireWaitingConnectJobs now => exact .keeps <| h ▸ preserves_expiry rfl
  case transitionConnectJob r target reading =>
    obtain ⟨j, h⟩ := h
    refine .keeps <| .transitionConnectJob h fun j v ht hv hf => ?_
    exact .reported rfl rfl hf ht hv rfl
  case resetConnectJobForResubmission =>
    obtain ⟨j, h⟩ := h
    exact .keeps <| .resetConnectJobForResubmission h
  case reconcileCertificateCompletedReplay =>
    obtain ⟨j, h⟩ := h
    exact .keeps <| .reconcileCertificateCompletedReplay h
  case reconcileCertificateCompletedJoin =>
    obtain ⟨j, h⟩ := h
    exact .keeps <| .reconcileCertificateCompletedJoin h
  case transitionAutomationFire => exact .keeps <| .transitionAutomationFire h
  case decideAutomationFire => exact .keeps <| .decideAutomationFire h
  case pauseInteractiveJobAutomationFires =>
    exact .keeps <| .pauseInteractiveJobAutomationFires h
  case authorizeConnectJobInteractively =>
    obtain ⟨j, h⟩ := h
    exact .keeps <| .authorizeConnectJobInteractively h
  case resumeAutomationFireJob => exact .keeps <| .resumeAutomationFireJob h
  case retryAutomationFireAfterFailure => exact .keeps <| .retryAutomationFireAfterFailure h
  case markSourcesUnavailable => exact .keeps <| .markSourcesUnavailable h
  case deleteMessage => exact .keeps <| .deleteMessage h

end Step

-- In every lane at most one job is on its way to the provider.
def LaneExclusive (s : State) : Prop :=
  ∀ k₁ k₂ j₁ d₁ j₂ d₂, s.entry k₁ = some (j₁, d₁) → s.entry k₂ = some (j₂, d₂) →
    d₁.state = .dispatching → d₂.state = .dispatching → j₁.lane = j₂.lane → k₁ = k₂

structure Consistent (s : State) : Prop where
  rows : ∀ k, RowValid (s.row k)
  lane : LaneExclusive s

namespace Consistent

theorem empty : Consistent ∅ where
  rows _ := trivial
  lane   := by intro _ _ _ _ _ _ h; cases h

theorem valid (h : Consistent s) (he : s.entry k = some (j, d)) : Valid j d := by
  have := h.rows k
  rwa [row_of_entry he] at this

-- A v2 job has a dispatch row.
theorem dispatched (h : Consistent s) (hj : s.jobs.get k = some j)
    (hv : j.protocolVersion = .v2) : ∃ d, s.entry k = some (j, d) := by
  have := h.rows k
  cases hd : s.dispatches.get k
  case none => simp [row, hj, hd, RowValid, hv] at this
  case some d => exact ⟨d, entry_eq_some.mpr ⟨hj, hd⟩⟩

-- A dispatch row has a job.
theorem owned (h : Consistent s) (hd : s.dispatches.get k = some d) :
    ∃ j, s.entry k = some (j, d) := by
  have := h.rows k
  cases hj : s.jobs.get k
  case none => simp [row, hj, hd, RowValid] at this
  case some j => exact ⟨j, entry_eq_some.mpr ⟨hj, hd⟩⟩

end Consistent

namespace State.Preserves

variable {E : String → Job → Prop}

theorem rows (h : Preserves E s s') (hv : ∀ k, RowValid (s.row k)) (k : String) :
    RowValid (s'.row k) :=
  (h k (hv k)).valid (hv k)

theorem entry (h : Preserves E s s') (hc : Consistent s) (he : s'.entry k = some (j', d')) :
    ∃ j d, s.entry k = some (j, d) ∧ Moves j d j' d' := by
  have hm := h k (hc.rows k)
  rw [row_of_entry he] at hm
  generalize hr : s.row k = r at hm
  cases hm
  case refl =>
    have he := entry_iff_row.mpr hr
    exact ⟨j', d', he, Moves.refl <| hc.valid he⟩
  case entry j d _ hm => exact ⟨j, d, entry_iff_row.mpr hr, hm⟩

theorem consistent (h : Preserves E s s') (hc : Consistent s) : Consistent s' where
  rows := h.rows hc.rows
  lane := by
    intro k₁ k₂ j₁ d₁ j₂ d₂ he₁ he₂ hd₁ hd₂ hl
    obtain ⟨_, _, he₁, hm₁⟩ := h.entry hc he₁
    obtain ⟨_, _, he₂, hm₂⟩ := h.entry hc he₂
    rw [hm₁.lane, hm₂.lane] at hl
    exact hc.lane _ _ _ _ _ _ he₁ he₂ (hm₁.dispatching hd₁) (hm₂.dispatching hd₂) hl

end State.Preserves

namespace State.Creates

variable {r : JobRequest} {fingerprint : String}

theorem row (h : Creates r fingerprint s s') (hc : Consistent s) (k : String) :
    s'.row k = if r.jobId = k
      then (some (r.job fingerprint), if r.protocolVersion = .v2 then some r.dispatch else none)
      else s.row k := by
  have hd : s.dispatches.get r.jobId = none := by
    have := hc.rows r.jobId
    cases hd : s.dispatches.get r.jobId <;> simp_all [State.row, h.fresh, RowValid]
  simp only [State.row, h.jobs, h.dispatches]
  by_cases hk : r.jobId = k
  case neg => simp [hk]
  case pos =>
    subst hk
    by_cases hp : r.protocolVersion = .v2 <;> simp [hp, hd]

theorem rowValid (r : JobRequest) (fingerprint : String) :
    RowValid (some (r.job fingerprint),
      if r.protocolVersion = .v2 then some r.dispatch else none) := by
  cases hp : r.protocolVersion
  case v1 => exact hp
  case v2 =>
    exact {
      v2       := hp
      terminal := by simp [JobRequest.dispatch, JobRequest.job, JobStatus.settled]
      waiting  := fun _ => rfl
      admitted := fun h => absurd rfl h
    }

theorem entry (h : Creates r fingerprint s s') (hc : Consistent s)
    (he : s'.entry k = some (j', d')) :
    (r.jobId = k ∧ d' = r.dispatch) ∨ s.entry k = some (j', d') := by
  have hr := h.row hc k
  rw [row_of_entry he] at hr
  split at hr
  case isFalse => exact .inr <| entry_iff_row.mpr hr.symm
  case isTrue hk =>
    refine .inl ⟨hk, ?_⟩
    split at hr <;> simp_all

theorem consistent (h : Creates r fingerprint s s') (hc : Consistent s) : Consistent s' where
  rows k := by
    rw [h.row hc k]
    split
    case isTrue  => exact rowValid r fingerprint
    case isFalse => exact hc.rows k
  lane := by
    intro k₁ k₂ j₁ d₁ j₂ d₂ he₁ he₂ hd₁ hd₂ hl
    have hn : r.dispatch.state ≠ .dispatching := by simp [JobRequest.dispatch]
    obtain ⟨_, rfl⟩ | he₁ := h.entry hc he₁
    case inl => exact absurd hd₁ hn
    obtain ⟨_, rfl⟩ | he₂ := h.entry hc he₂
    case inl => exact absurd hd₂ hn
    exact hc.lane _ _ _ _ _ _ he₁ he₂ hd₁ hd₂ hl

end State.Creates

section Claim

variable {lane : Lane}

theorem entry_claim (he : (s.updateDispatch j.jobId claimDispatch jobId_claimDispatch).entry k = some (j', d')) :
    (k = j.jobId ∧ ∃ d, s.entry k = some (j', d) ∧ d' = claimDispatch d) ∨
    (k ≠ j.jobId ∧ s.entry k = some (j', d')) := by
  have hr := row_of_entry he
  rw [row_updateDispatch] at hr
  split at hr
  case isFalse hk => exact .inr ⟨hk, entry_iff_row.mpr hr⟩
  case isTrue hk =>
    simp only [Prod.mk.injEq, Option.map_eq_some_iff] at hr
    obtain ⟨hj, d, hd, heq⟩ := hr
    exact .inl ⟨hk, d, entry_eq_some.mpr ⟨hj, hd⟩, heq.symm⟩

theorem entry_of_laneHead (h : s.laneHead lane = some (j, d)) :
    s.entry j.jobId = some (j, d) ∧ j.lane = lane ∧ d.state ≠ .terminal := by
  obtain ⟨he, hl, hq⟩ := mem_laneQueue.mp (laneHead_eq_some h).left
  refine ⟨he, hl, ?_⟩
  simp only [queued, Bool.and_eq_true, decide_eq_true_eq] at hq
  exact hq.left.right

theorem Valid.claim (hv : Valid j d) (ha : d.state ≠ .terminal) : Valid j (claimDispatch d) where
  v2       := hv.v2
  terminal := by
    rw [← hv.terminal]
    cases hs : d.state <;> simp_all [claimDispatch]
  waiting  := by cases hs : d.state <;> simp [claimDispatch, hs]
  admitted := fun h => by
    have := hv.admitted h
    cases hs : d.state <;> simp_all [claimDispatch]

-- Only a waiting job gets dispatching, and then no other job of its lane is.
theorem Consistent.alone (hc : Consistent s) (h : s.laneHead lane = some (j, d))
    (hd : (claimDispatch d).state = .dispatching) (he : s.entry k = some (j', d'))
    (hl : j'.lane = j.lane) : d'.state = .waiting ∨ d'.state = .terminal := by
  have hw : d.state = .waiting := by
    cases hs : d.state <;> simp_all [claimDispatch]
  exact laneHead_waiting h hw hc.rows he <| hl.trans (entry_of_laneHead h).right.left

theorem Consistent.claim (hc : Consistent s) (h : s.laneHead lane = some (j, d)) :
    Consistent (s.updateDispatch j.jobId claimDispatch jobId_claimDispatch) where
  rows k := by
    obtain ⟨he, _, ht⟩ := entry_of_laneHead h
    rw [row_updateDispatch]
    split
    case isFalse => exact hc.rows k
    case isTrue hk =>
      subst hk
      obtain ⟨hj, hd⟩ := entry_eq_some.mp he
      rw [hj, hd]
      exact (hc.valid he).claim ht
  lane := by
    obtain ⟨he, _, _⟩ := entry_of_laneHead h
    intro k₁ k₂ j₁ d₁ j₂ d₂ he₁ he₂ hd₁ hd₂ hl
    obtain ⟨rfl, _, h₁, rfl⟩ | ⟨_, h₁⟩ := entry_claim he₁ <;>
    obtain ⟨rfl, _, h₂, rfl⟩ | ⟨_, h₂⟩ := entry_claim he₂
    case inl.inl => rfl
    case inl.inr =>
      cases he.symm.trans h₁
      have := hc.alone h hd₁ h₂ hl.symm
      simp [hd₂] at this
    case inr.inl =>
      cases he.symm.trans h₂
      have := hc.alone h hd₂ h₁ hl
      simp [hd₁] at this
    case inr.inr => exact hc.lane _ _ _ _ _ _ h₁ h₂ hd₁ hd₂ hl

end Claim

theorem State.Preserves.failed {E : String → Job → Prop} (h : Preserves E s s')
    (hc : Consistent s) (hj : s'.jobs.get k = some j') (hf : j'.status = .failed) :
    s.jobs.get k = some j' ∨ E k j' := by
  have hm := h k (hc.rows k)
  have hr : (s'.row k).fst = some j' := hj
  have hl : s.jobs.get k = (s.row k).fst := rfl
  rw [hl]
  generalize s.row k = r at hm
  generalize s'.row k = r' at hm hr
  cases hm
  case refl => exact .inl hr
  case drop => simp at hr
  case legacy _ hf' =>
    cases Option.some.inj hr
    simpa [eq_comm] using hf' hf
  case entry _ hf' =>
    cases Option.some.inj hr
    simpa [eq_comm] using hf' hf

namespace Effect

variable [Codec]

theorem consistent (h : Effect s a s') (hc : Consistent s) : Consistent s' := by
  cases h
  case keeps hp => exact hp.consistent hc
  case creates hp hn => exact hn.consistent <| hp.consistent hc
  case claims hp hl heq => exact heq ▸ (hp.consistent hc).claim hl

theorem failed (h : Effect s a s') (hc : Consistent s) (hj : s'.jobs.get k = some j')
    (hf : j'.status = .failed) : s.jobs.get k = some j' ∨ Fails s a k j' := by
  cases h
  case keeps hp => exact hp.failed hc hj hf
  case creates r fingerprint m _ hp hn =>
    rw [hn.jobs] at hj
    split at hj
    case isFalse => exact hp.failed hc hj hf
    case isTrue =>
      cases Option.some.inj hj
      simp [JobRequest.job] at hf
  case claims hp _ heq =>
    subst heq
    exact hp.failed hc hj hf

-- A job that is there before and after an action has moved, or has been claimed.
theorem entry (h : Effect s a s') (hc : Consistent s) (he : s.entry k = some (j, d))
    (he' : s'.entry k = some (j', d')) :
    ∃ j₁ d₁, Moves j d j₁ d₁ ∧ ((j' = j₁ ∧ d' = d₁) ∨ (j' = j₁ ∧ d' = claimDispatch d₁ ∧
      ∃ expected content now,
        a = .claimConnectLaneHead j.lane expected content now ∧
        (s.expireWaitingConnectJobs now).laneHead j.lane = some (j₁, d₁))) := by
  cases h
  case keeps hp =>
    obtain ⟨j₁, d₁, he₁, hm⟩ := hp.entry hc he'
    cases he.symm.trans he₁
    exact ⟨_, _, hm, .inl ⟨rfl, rfl⟩⟩
  case creates hnone hp hn =>
    obtain ⟨rfl, _⟩ | he₁ := hn.entry (hp.consistent hc) he'
    case inl => simp [(entry_eq_some.mp he).left] at hnone
    obtain ⟨_, _, he₂, hm⟩ := hp.entry hc he₁
    cases he.symm.trans he₂
    exact ⟨_, _, hm, .inl ⟨rfl, rfl⟩⟩
  case claims lane m j₀ d₀ expected content now ha hm hp hl heq =>
    subst heq hm
    obtain ⟨he₀, hlane, _⟩ := entry_of_laneHead hl
    obtain ⟨rfl, d₁, he₁, rfl⟩ | ⟨_, he₁⟩ := entry_claim he'
    all_goals
      obtain ⟨_, _, he₂, hm⟩ := hp.entry hc he₁
      cases he.symm.trans he₂
    case inl =>
      cases he₀.symm.trans he₁
      rw [hm.lane] at hlane
      subst hlane
      exact ⟨_, _, hm, .inr ⟨rfl, rfl, expected, content, now, ha, hl⟩⟩
    case inr => exact ⟨_, _, hm, .inl ⟨rfl, rfl⟩⟩

-- A provider's admission is never taken back.
theorem highest_le (h : Effect s a s') (hc : Consistent s) (he : s.entry k = some (j, d))
    (he' : s'.entry k = some (j', d')) :
    d.highestProviderState.rank ≤ d'.highestProviderState.rank := by
  obtain ⟨_, _, hm, ⟨_, rfl⟩ | ⟨_, rfl, _⟩⟩ := h.entry hc he he'
  all_goals exact hm.highest

end Effect

section Runs

variable [Codec]

theorem run_consistent (as : List Action) : Consistent (machine.run ∅ as) := by
  refine Machine.invariant (m := machine) ?_ Consistent.empty as
  exact fun _ _ _ hc h => (step_effect h).consistent hc

-- Whatever happens while a job is there, its provider's admission is never taken back.
theorem run_highest_le (hc : Consistent s) {as : List Action}
    (hp : machine.Always (fun s => (s.dispatches.get k).isSome) s as)
    (hd : s.dispatches.get k = some d) :
    ∃ d', (machine.run s as).dispatches.get k = some d' ∧
      d.highestProviderState.rank ≤ d'.highestProviderState.rank := by
  let R (s s' : State) : Prop := ∀ d, s.dispatches.get k = some d →
    ∃ d', s'.dispatches.get k = some d' ∧
      d.highestProviderState.rank ≤ d'.highestProviderState.rank
  have hR : R s (machine.run s as) := by
    refine Machine.relation (I := Consistent) (C := fun _ _ => True) ?_ ?_ ?_ ?_ hc
      Machine.guarded_true hp
    · exact fun s d hd => ⟨d, hd, le_refl _⟩
    · intro s₁ s₂ s₃ h₁ h₂ d hd
      obtain ⟨d₂, hd₂, hle₂⟩ := h₁ d hd
      obtain ⟨d₃, hd₃, hle₃⟩ := h₂ d₂ hd₂
      exact ⟨d₃, hd₃, hle₂.trans hle₃⟩
    · exact fun _ _ _ hc _ h => (step_effect h).consistent hc
    · intro s a s' hc _ _ hp' h d hd
      obtain ⟨d', hd'⟩ := Option.isSome_iff_exists.mp hp'
      obtain ⟨j, he⟩ := hc.owned hd
      obtain ⟨j', he'⟩ := ((step_effect h).consistent hc).owned hd'
      exact ⟨d', hd', (step_effect h).highest_le hc he he'⟩
  exact hR d hd

-- The dispatch of v2 jobs in a state from which any further actions may follow.
structure DispatchSafe (s : State) : Prop where
  -- In every lane at most one job is dispatching.
  exclusive : LaneExclusive s
  -- A waiting job becomes dispatching by a claim only, while all jobs of its lane are waiting or
  -- terminal.
  claim : ∀ a s', step s a = .ok s' → ∀ k j d j' d',
    s.entry k = some (j, d) → s'.entry k = some (j', d') →
    d.state = .waiting → d'.state = .dispatching →
    (∃ expected content now, a = .claimConnectLaneHead j.lane expected content now) ∧
    ∀ k₁ j₁ d₁, s.entry k₁ = some (j₁, d₁) → j₁.lane = j.lane →
      d₁.state ∉ [DispatchState.dispatching, .reconciling, .providerOwned]
  waiting : ∀ k d, s.dispatches.get k = some d → d.state = .waiting → d.submissionPossible = false
  -- As long as a job is there, its highest provider state does not decrease, and once the provider
  -- has accepted it the job is neither waiting nor dispatching.
  admitted : ∀ as k d, machine.Always (fun s => (s.dispatches.get k).isSome) s as →
    s.dispatches.get k = some d → ∃ d', (machine.run s as).dispatches.get k = some d' ∧
      d.highestProviderState.rank ≤ d'.highestProviderState.rank ∧
      (d.highestProviderState ≠ .requested → d'.state ≠ .waiting ∧ d'.state ≠ .dispatching)
  -- A job that fails for its deadline, other than by a report of its provider, fails in the state
  -- in which the action expires jobs, and there it is waiting, unsubmitted and not admitted.
  expiry : ∀ a s', step s a = .ok s' → ∀ k j', s'.jobs.get k = some j' → j'.status = .failed →
    j'.errorCode = some queueDeadlineExceeded → s.jobs.get k ≠ some j' →
    (∃ r target reading, a = .transitionConnectJob r target reading ∧ r.jobId = k) ∨
    ∃ m now j d, Connect.expiry s a = some (m, now) ∧ m.entry k = some (j, d) ∧
      d.state = .waiting ∧ d.submissionPossible = false ∧ d.highestProviderState = .requested
  terminal : ∀ k j, s.jobs.get k = some j → j.protocolVersion = .v2 →
    ∃ d, s.dispatches.get k = some d ∧
      (d.state = .terminal ↔ j.status = .completed ∨ j.status = .failed)

omit [Codec] in
theorem JobStatus.settled_iff {status : JobStatus} :
    status.settled ↔ status = .completed ∨ status = .failed := by
  cases status <;> simp [JobStatus.settled]

omit [Codec] in
-- Expiry leaves the jobs alone that are not waiting.
theorem entry_expire_of_not_waiting {now : Instant} (he : s.entry k = some (j, d))
    (hw : d.state ≠ .waiting) : (s.expireWaitingConnectJobs now).entry k = some (j, d) := by
  cases row_expireWaitingConnectJobs s now k
  case inl h => exact entry_iff_row.mpr <| h.trans <| row_of_entry he
  case inr h =>
    obtain ⟨_, _, he₁, e, _⟩ := h
    cases he.symm.trans he₁
    exact absurd e.waiting hw

omit [Codec] in
-- The state in which jobs expire is as consistent as the one the action started from.
theorem Consistent.expiry (hc : Consistent s) {m : State} {now : Instant}
    (h : Connect.expiry s a = some (m, now)) : Consistent m := by
  unfold Connect.expiry at h
  split at h
  case h_4 =>
    split at h
    case h_1 h₁ =>
      cases Option.some.inj h
      exact (Preserves.deferDispatch (E := fun _ _ => False) h₁).consistent hc
    case h_2 => cases h
  case h_3 =>
    split at h
    case h_1 => cases h
    case h_2 => cases Option.some.inj h; exact hc
  case h_5 => cases h
  all_goals cases Option.some.inj h; exact hc

theorem dispatch_safe (as : List Action) : DispatchSafe (machine.run ∅ as) where
  exclusive := (run_consistent as).lane
  claim := by
    have hc := run_consistent as
    generalize machine.run ∅ as = s at hc
    intro a s' h k j d j' d' he he' hw hd
    obtain ⟨j₁, d₁, hm, ⟨_, rfl⟩ | ⟨_, rfl, expected, content, now, ha, hl⟩⟩ :=
      (step_effect h).entry hc he he'
    case inl =>
      have := hm.dispatching hd
      simp [hw] at this
    case inr =>
      refine ⟨⟨expected, content, now, ha⟩, fun k₁ j₂ d₂ he₂ hl₂ hs₂ => ?_⟩
      have hcm : Consistent (s.expireWaitingConnectJobs now) :=
        (Preserves.expireWaitingConnectJobs (E := fun _ _ => True)
          fun _ _ _ _ _ => trivial).consistent hc
      have hw₂ : d₂.state ≠ .waiting := by
        intro hw₂
        simp [hw₂] at hs₂
      have := hcm.alone hl hd (entry_expire_of_not_waiting he₂ hw₂) (hl₂.trans hm.lane.symm)
      obtain hs | hs := this <;> simp [hs] at hs₂
  waiting := by
    intro k d hd hw
    obtain ⟨j, he⟩ := (run_consistent as).owned hd
    exact ((run_consistent as).valid he).waiting hw
  admitted := by
    intro bs k d hp hd
    obtain ⟨d', hd', hle⟩ := run_highest_le (run_consistent as) hp hd
    refine ⟨d', hd', hle, fun ha => ?_⟩
    have hc : Consistent (machine.run (machine.run ∅ as) bs) := by
      rw [← Machine.run_append]
      exact run_consistent _
    obtain ⟨j', he'⟩ := hc.owned hd'
    exact (hc.valid he').admitted fun hr => ha <| ProviderState.requested_of_rank_le hle hr
  expiry := by
    have hc := run_consistent as
    generalize machine.run ∅ as = s at hc
    intro a s' h k j' hj hf _ hne
    cases (step_effect h).failed hc hj hf
    case inl h => exact absurd h hne
    case inr h =>
      cases h
      case reported r target reading _ _ ha hk _ _ _ _ =>
        exact .inl ⟨r, target, reading, ha, hk⟩
      case expired m now j d hx he e _ =>
        refine .inr ⟨m, now, j, d, hx, he, e.waiting, e.possible, ?_⟩
        by_contra hn
        exact (((hc.expiry hx).valid he).admitted hn).left e.waiting
  terminal := by
    intro k j hj hv
    obtain ⟨d, he⟩ := (run_consistent as).dispatched hj hv
    refine ⟨d, (entry_eq_some.mp he).right, ?_⟩
    rw [((run_consistent as).valid he).terminal, JobStatus.settled_iff]

end Runs

end Connect
