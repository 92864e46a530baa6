import Mathlib.Data.Fin.VecNotation
import Mathlib.Logic.Function.Basic
import EmailWatcher.Connect.Versions
import EmailWatcher.Connect.Replay

-- How the status that a provider reports gets into the store.
namespace Connect

open Transaction State

-- A report of the provider on one of its jobs. `generic` says that it speaks the second protocol.
structure JobUpdate where
  jobId   : String
  status  : JobStatus
  lane    : Lane
  result  : Option String
  error   : Option ProviderError
  generic : Bool

-- The two loops that write to the store: `_apply_connect_update`, and `_mark_connect_failed` for a
-- job that the engine itself gives up.
inductive Report
  | update  (u : JobUpdate)
  | failure (jobId : String) (lane : Lane) (error : ProviderError)

inductive ReportError
  | store   (e : StoreError)
  | connect (code message : String)
  deriving DecidableEq

-- Where a loop stands: before it reads the job, with the number of passes it has left, or between
-- what it has read and what it asks of the store.
inductive Phase
  | read (left : Nat)
  | write (current : JobStatus) (left : Nat)
  | replay
  | returned
  | raised (e : ReportError)
  deriving DecidableEq

def Phase.finished : Phase → Bool
  | returned | raised _ => true
  | _                   => false

namespace JobStatus

-- The order in which a job makes progress.
def rank : JobStatus → Nat
  | requested          => 0
  | accepted           => 1
  | processing         => 2
  | completed | failed => 3

def higher (q q' : JobStatus) : JobStatus :=
  if q.rank < q'.rank then q' else q

-- What a job comes to by some reports, in whatever order.
def merge (q : JobStatus) (qs : List JobStatus) : JobStatus :=
  qs.foldl higher q

end JobStatus

namespace JobUpdate

def transition (u : JobUpdate) (expected : JobStatus) : Transition where
  jobId         := u.jobId
  expectedState := expected
  nextState     := u.status
  lane          := u.lane
  result        := u.result
  error         := u.error

-- One pass of the loop, up to what it asks of the store.
def read (u : JobUpdate) (current : Job) (left : Nat) : Phase :=
  if current.status = u.status then
    if current.status = .completed ∧ current.capabilityId = certificateCapabilityId ∧ u.generic ∧
        u.result.isSome then
      .replay
    else
      .returned
  else if u.status.active ∧ (current.status.settled ∨ u.status.rank < current.status.rank) then
    .returned
  else if u.status ∉ current.status.allowed then
    .raised <| .connect "JOB_STATE_INVALID"
      "The local capability provider returned an invalid job transition."
  else
    .write current.status left

end JobUpdate

namespace Report

def jobId : Report → String
  | update u          => u.jobId
  | failure jobId _ _ => jobId

def status : Report → JobStatus
  | update u      => u.status
  | failure _ _ _ => .failed

def lane : Report → Lane
  | update u         => u.lane
  | failure _ lane _ => lane

def transition (r : Report) (expected : JobStatus) : Transition :=
  match r with
  | update u                 => u.transition expected
  | failure jobId lane error => {
      jobId         := jobId
      expectedState := expected
      nextState     := .failed
      lane          := lane
      result        := none
      error         := some error
    }

def exhausted : Report → StoreError
  | update _ =>
    .runtime "Connect job status could not be persisted after concurrent updates"
  | failure _ _ _ =>
    .runtime "Connect failure could not be persisted after concurrent updates"

-- `store.connect_job(job_id)` and what follows from it.
def read (r : Report) (current : Option Job) (left : Nat) : Phase :=
  match r, current with
  | update u, some j => u.read j left
  | update _, none   =>
    .raised <| .store <| .runtime "Connect job disappeared before its status could persist"
  | failure _ _ _, some j => if j.status.active then .write j.status left else .returned
  | failure _ _ _, none   => .returned

variable [Codec]

-- `except RuntimeError: continue`
def persist (r : Report) (s : State) (current : JobStatus) (left : Nat) (targetAvailable : Bool)
    (reading : SourceReading) : State × Phase :=
  match s.transitionConnectJob (r.transition current) targetAvailable reading with
  | .ok (s', _)         => (s', .returned)
  | .error (.runtime _) => (s, .read left)
  | .error e            => (s, .raised <| .store e)

def replay (r : Report) (s : State) : State × Phase :=
  match r with
  | failure _ _ _ => (s, .returned)
  | update u      =>
    match s.reconcileCertificateCompletedReplay u.jobId u.lane (u.result.getD "") with
    | .ok (s', _) => (s', .returned)
    | .error e    => (s, .raised <| .store e)

-- The next access to the store. Anybody else may have been there since the one before.
def next (r : Report) (s : State) (targetAvailable : Bool) (reading : SourceReading) :
    Phase → State × Phase
  | .read 0             => (s, .raised <| .store r.exhausted)
  | .read (left + 1)    => (s, r.read (s.jobs.get r.jobId) left)
  | .write current left => r.persist s current left targetAvailable reading
  | .replay             => r.replay s
  | phase               => (s, phase)

end Report

-- One of the appliers has its turn, with what the store finds out about the source then.
structure Turn (n : Nat) where
  applier         : Fin n
  targetAvailable : Bool
  reading         : SourceReading

section Appliers

variable [Codec] {n : Nat}

-- Any number of reports that are written to one store, each by a loop of its own.
def appliers (reports : Fin n → Report) : Machine (State × (Fin n → Phase)) (Turn n) StoreError where
  step x t :=
    let (s, phase) := (reports t.applier).next x.fst t.targetAvailable t.reading (x.snd t.applier)
    .ok (s, Function.update x.snd t.applier phase)

-- The store and the loops after the given turns. Every order in which the reports may be applied, one
-- after the other or at the same time, is a list of turns.
def applied (reports : Fin n → Report) (s : State) (ts : List (Turn n)) :
    State × (Fin n → Phase) :=
  (appliers reports).run (s, fun _ => .read 4) ts

end Appliers

namespace JobStatus

variable {q q' : JobStatus}

theorem rank_le (q : JobStatus) : q.rank ≤ 3 := by
  cases q <;> decide

theorem settled_iff_rank : q.settled ↔ q.rank = 3 := by
  cases q <;> decide

theorem active_iff_rank : q.active ↔ q.rank < 3 := by
  cases q <;> decide

theorem rank_lt_of_allowed (h : q' ∈ q.allowed) : q.rank < q'.rank := by
  cases q <;> cases q' <;> revert h <;> decide

theorem allowed_of_rank_lt (h : q.rank < q'.rank) : q' ∈ q.allowed := by
  cases q <;> cases q' <;> revert h <;> decide

theorem eq_of_rank_eq (h : q.rank = q'.rank) (ha : q.active) : q = q' := by
  cases q <;> cases q' <;> revert h ha <;> decide

theorem rank_higher : (q.higher q').rank = max q.rank q'.rank := by
  unfold higher
  split <;> omega

variable {qs : List JobStatus}

theorem rank_le_merge : q.rank ≤ (q.merge qs).rank := by
  induction qs generalizing q
  case nil => exact le_rfl
  case cons q' qs ih =>
    refine le_trans ?_ (ih (q := q.higher q'))
    rw [rank_higher]
    exact le_max_left _ _

theorem rank_le_merge_of_mem (h : q' ∈ qs) : q'.rank ≤ (q.merge qs).rank := by
  induction qs generalizing q
  case nil => cases h
  case cons p qs ih =>
    cases h
    case tail h => exact ih h
    case head =>
      have hle : (q.higher q').rank ≤ ((q.higher q').merge qs).rank := rank_le_merge
      refine le_trans ?_ hle
      rw [rank_higher]
      exact le_max_right _ _

theorem merge_mem (q : JobStatus) (qs : List JobStatus) : q.merge qs = q ∨ q.merge qs ∈ qs := by
  induction qs generalizing q
  case nil => exact .inl rfl
  case cons q' qs ih =>
    obtain h | h := ih (q.higher q')
    case inr => exact .inr (.tail _ h)
    case inl =>
      have hm : q.merge (q' :: qs) = q.higher q' := h
      rw [hm]
      unfold higher
      split
      case isTrue  => exact .inr (.head _)
      case isFalse => exact .inl rfl

theorem merge_of_settled (h : q.settled) : q.merge qs = q := by
  induction qs
  case nil => rfl
  case cons q' qs ih =>
    have hh : q.higher q' = q := by
      have := rank_le q'
      rw [higher, if_neg (by rw [settled_iff_rank.mp h]; omega)]
    exact (congrArg (fun q => q.merge qs) hh).trans ih

-- The merged status is the only one that has been reported, or was there, and that is not below any
-- of these.
theorem eq_merge {p : JobStatus} (hq : q.rank ≤ p.rank) (hqs : ∀ q' ∈ qs, q'.rank ≤ p.rank)
    (hfound : p = q ∨ p ∈ qs) (hset : q.settled → p = q)
    (hone : ∀ q₁ ∈ qs, ∀ q₂ ∈ qs, q₁.settled → q₂.settled → q₁ = q₂) : p = q.merge qs := by
  by_cases hs : q.settled
  case pos => rw [hset hs, merge_of_settled hs]
  case neg =>
    have hle : (q.merge qs).rank ≤ p.rank := by
      obtain h | h := merge_mem q qs
      case inl => rw [h]; exact hq
      case inr => exact hqs _ h
    have hge : p.rank ≤ (q.merge qs).rank := by
      obtain rfl | h := hfound
      case inl => exact rank_le_merge
      case inr => exact rank_le_merge_of_mem h
    have heq : p.rank = (q.merge qs).rank := le_antisymm hge hle
    by_cases ha : p.rank < 3
    case pos => exact eq_of_rank_eq heq (active_iff_rank.mpr ha)
    case neg =>
      have hp : p.settled := settled_iff_rank.mpr (le_antisymm (rank_le p) (not_lt.mp ha))
      have hm : (q.merge qs).settled := by
        rw [settled_iff_rank, ← heq]
        exact settled_iff_rank.mp hp
      have hpq : p ∈ qs := hfound.resolve_left fun h => hs (h ▸ hp)
      have hmq : q.merge qs ∈ qs := (merge_mem q qs).resolve_left fun h => hs (h ▸ hm)
      exact hone _ hpq _ hmq hp hm

end JobStatus

variable {s s' s₁ s₂ s₃ : State} {k : String} {j j' : Job} {d : Dispatch}

namespace State

-- Jobs only make progress, they do not come back, and a settled one stays as it is.
def StatusRises (s s' : State) : Prop :=
  ∀ k j', s'.jobs.get k = some j' → ∃ j, s.jobs.get k = some j ∧
    j.status.rank ≤ j'.status.rank ∧ (j.status.settled → j'.status = j.status)

namespace StatusRises

theorem refl (s : State) : StatusRises s s :=
  fun _ j hj => ⟨j, hj, le_rfl, fun _ => rfl⟩

theorem trans (h₁ : StatusRises s₁ s₂) (h₂ : StatusRises s₂ s₃) : StatusRises s₁ s₃ := by
  intro k j₃ hj₃
  obtain ⟨j₂, hj₂, hle₂, hs₂⟩ := h₂ k j₃ hj₃
  obtain ⟨j₁, hj₁, hle₁, hs₁⟩ := h₁ k j₂ hj₂
  refine ⟨j₁, hj₁, hle₁.trans hle₂, fun hs => ?_⟩
  have he := hs₁ hs
  rw [hs₂ (he ▸ hs), he]

end StatusRises

def sourceOf (s : State) (k : String) : Option Bool :=
  (s.dispatches.get k).map (·.sourceAvailable)

-- What a call leaves of the job `id`: `g` of it, or nothing if it settles without a mail source.
def Leaves (id : String) (g : Job → Job) (s s' : State) : Prop :=
  ∀ k, (s'.jobs.get k = (if k = id then (s.jobs.get k).map g else s.jobs.get k) ∧
      s'.sourceOf k = s.sourceOf k) ∨
    (k = id ∧ s.sourceOf k = some false ∧ s'.jobs.get k = none ∧
      ∀ j, s.jobs.get k = some j → (g j).status.settled)

namespace Leaves

variable {id : String} {g : Job → Job}

theorem of_eq (hj : s'.jobs = s.jobs) (hd : s'.dispatches = s.dispatches) :
    Leaves id (fun j => j) s s' := by
  intro k
  refine .inl ⟨?_, by rw [sourceOf, hd, ← sourceOf]⟩
  rw [hj]
  split <;> simp

theorem before (hj : s₂.jobs = s₁.jobs) (hd : s₂.dispatches = s₁.dispatches)
    (h : Leaves id g s₂ s₃) : Leaves id g s₁ s₃ := by
  simpa only [Leaves, sourceOf, hj, hd] using h

theorem after (h₁ : Leaves id g s₁ s₂) (h₂ : Leaves id (fun j => j) s₂ s₃) :
    Leaves id g s₁ s₃ := by
  intro k
  obtain ⟨hj₁, hs₁⟩ | ⟨hk, hl, hj₁, hset⟩ := h₁ k
  case inl =>
    obtain ⟨hj₂, hs₂⟩ | ⟨hk, hl, hj₂, hset⟩ := h₂ k
    case inl =>
      refine .inl ⟨?_, hs₂.trans hs₁⟩
      rw [hj₂, hj₁]
      split <;> simp [Function.comp_def]
    case inr =>
      refine .inr ⟨hk, hs₁ ▸ hl, hj₂, fun j hj => hset _ ?_⟩
      rw [hj₁, if_pos hk, hj, Option.map_some]
  case inr =>
    refine .inr ⟨hk, hl, ?_, hset⟩
    obtain ⟨hj₂, _⟩ | ⟨_, _, hj₂, _⟩ := h₂ k
    case inl => rw [hj₂, hj₁, Option.map_none, ite_self]
    case inr => exact hj₂

theorem updateDispatch {f : Dispatch → Dispatch} {hf} {i : String}
    (h : ∀ d, (f d).sourceAvailable = d.sourceAvailable) :
    Leaves id (fun j => j) s (s.updateDispatch i f hf) := by
  intro k
  refine .inl ⟨by simp [State.updateDispatch], ?_⟩
  simp only [sourceOf, dispatches_updateDispatch]
  split <;> simp [Function.comp_def, h]

theorem updateJob {f : Job → Job} {hf} : Leaves id f s (s.updateJob id f hf) :=
  fun _ => .inl ⟨jobs_updateJob, rfl⟩

theorem deleteJob (h : s.deleteJob j = .ok s') (hj : s.jobs.get id = some j)
    (hs : s.sourceOf id = some false) (hset : (g j).status.settled) : Leaves id g s s' := by
  intro k
  have hr := row_deleteJob (k := k) h
  rw [jobId_of_get hj] at hr
  split at hr
  case isTrue hk =>
    refine .inr ⟨hk, hk ▸ hs, (Prod.mk.inj hr).left, fun j' hj' => ?_⟩
    cases (hk ▸ hj').symm.trans hj
    exact hset
  case isFalse hk =>
    refine .inl ⟨by simpa [hk] using (Prod.mk.inj hr).left, ?_⟩
    rw [sourceOf, show s'.dispatches.get k = _ from (Prod.mk.inj hr).right, sourceOf]

theorem sourceOf_of_any {p : Dispatch → Bool} (h : (s.dispatches.get k).any p)
    (hp : ∀ d, p d → d.sourceAvailable = false) : s.sourceOf k = some false := by
  cases hd : s.dispatches.get k
  case none => simp [hd] at h
  case some d =>
    rw [hd, Option.any_some] at h
    simp [sourceOf, hd, hp d h]

theorem settleCertificate {p : Fire → Bool} {failure : Option CertificateFailure}
    (h : s.settleCertificate id p failure = .ok s') : Leaves id (fun j => j) s s' := by
  have hj : (s.settleByOutcome p failure).jobs = s.jobs := by cases failure <;> rfl
  have hd : (s.settleByOutcome p failure).dispatches = s.dispatches := by cases failure <;> rfl
  obtain rfl | ⟨hl, _, j, s₁, ⟨hg, hst⟩, h₁, _, rfl⟩ :=
    discardSettledSourceLessCertificateJob_eq_ok h
  case inl => exact of_eq hj hd
  case inr =>
    refine before hj hd <| after (deleteJob h₁ hg ?_ ?_) ?_
    · exact sourceOf_of_any hl fun d hd => by simpa using hd
    · rw [hst]
      rfl
    · cases failure <;> exact of_eq rfl rfl

theorem stored (h : Leaves id g s s') (hj' : s'.jobs.get k = some j') :
    ∃ j, s.jobs.get k = some j ∧ (j' = j ∨ k = id ∧ j' = g j) := by
  obtain ⟨hj, _⟩ | ⟨_, _, hn, _⟩ := h k
  case inr => simp [hj'] at hn
  case inl =>
    rw [hj'] at hj
    split at hj
    case isFalse => exact ⟨j', hj.symm, .inl rfl⟩
    case isTrue hk =>
      obtain ⟨j, hj₀, rfl⟩ := Option.map_eq_some_iff.mp hj.symm
      exact ⟨j, hj₀, .inr ⟨hk, rfl⟩⟩

theorem gone (h : Leaves id g s s') (hj : s.jobs.get k = some j) (hn : s'.jobs.get k = none) :
    s.sourceOf k = some false ∧ (g j).status.settled := by
  obtain ⟨hj', _⟩ | ⟨_, hl, _, hset⟩ := h k
  case inl =>
    rw [hn, hj] at hj'
    split at hj' <;> simp at hj'
  case inr => exact ⟨hl, hset j hj⟩

theorem rises (h : Leaves id g s s')
    (hg : ∀ j, s.jobs.get id = some j → j.status.rank ≤ (g j).status.rank ∧
      (j.status.settled → (g j).status = j.status)) : StatusRises s s' := by
  intro k j' hj'
  obtain ⟨j, hj, rfl | ⟨rfl, rfl⟩⟩ := h.stored hj'
  case inl => exact ⟨j', hj, le_rfl, fun _ => rfl⟩
  case inr => exact ⟨j, hj, hg j hj⟩

variable [Codec] {lane : Lane} {result : String} {r : Transition} {target : Bool}
variable {reading : SourceReading}

theorem replay (h : s.reconcileCertificateCompletedReplay id lane result = .ok (s', j')) :
    Leaves id (fun j => j) s s' := by
  simp only [reconcileCertificateCompletedReplay, bind_eq_ok, Prod.exists] at h
  obtain ⟨j, d, hc, _, _, h⟩ := h
  have hid : j.jobId = id := completedCertificateJob_jobId hc
  split at h
  case h_1 =>
    obtain ⟨s₁, h₁, h⟩ := bind_eq_ok.mp h
    cases pure_eq_ok.mp h
    simp only [replayUnprojected, bind_eq_ok, Prod.exists, hid] at h₁
    obtain ⟨_, _, _, h₁⟩ := h₁
    split at h₁
    case isTrue =>
      refine after ?_ (settleCertificate h₁)
      exact updateDispatch fun _ => rfl
    case isFalse =>
      obtain ⟨_, _, h₁⟩ := bind_eq_ok.mp h₁
      exact settleCertificate h₁
  case h_2 =>
    obtain ⟨outcome, _, h⟩ := bind_eq_ok.mp h
    cases outcome
    case none =>
      cases pure_eq_ok.mp h
      exact of_eq rfl rfl
    case some failure =>
      obtain ⟨s₁, h₁, h⟩ := bind_eq_ok.mp h
      cases pure_eq_ok.mp h
      refine after ?_ (settleCertificate h₁)
      exact of_eq rfl rfl
  case h_3 => simp at h

-- A transition takes the job to the next status.
theorem transition (h : s.transitionConnectJob r target reading = .ok (s', j')) :
    ∃ j v, Transitionable s r j ∧ Leaves r.jobId (r.applyJob v) s s' := by
  obtain ⟨j, v, s₁, outcome, hc, _, ho, h⟩ := transitionConnectJob_eq_ok h
  have ht := checkTransition_eq_ok hc
  have hs := certificateOutcome_same ho
  refine ⟨j, v, ht, before hs.jobs hs.dispatches ?_⟩
  obtain ⟨hl, h⟩ | ⟨_, h⟩ := h
  case inl =>
    simp only [discardsTerminal, Bool.and_eq_true] at hl
    have hs₁ : s₁.sourceOf r.jobId = some false :=
      sourceOf_of_any hl.right fun d hd => by simpa using (Bool.and_eq_true_iff.mp hd).left
    have hj : s₁.jobs.get r.jobId = some j := hs.jobs ▸ ht.job
    -- The fires are settled before the job is deleted.
    simp only [discardTerminal] at h
    have hd := deleteJob (g := r.applyJob v) h hj hs₁ hl.left.left.left
    exact hd.before rfl rfl
  case inr =>
    obtain ⟨_, h⟩ := recordTransition_eq_ok.mp h
    have hw : Leaves r.jobId (r.applyJob v) s₁ (s₁.writeTransition r v j.protocolVersion) := by
      unfold writeTransition
      have hj : Leaves r.jobId (r.applyJob v) s₁ (s₁.updateJob r.jobId (r.applyJob v)) := updateJob
      split
      case isTrue  => exact hj.after <| updateDispatch fun _ => rfl
      case isFalse => exact hj
    refine hw.after ?_
    cases outcome
    case none => exact pure_eq_ok.mp h ▸ of_eq rfl rfl
    case some => exact settleCertificate h

end Leaves

end State

section Accepted

variable [Codec]

-- The codecs take the result.
def Accepts : Protocol → String → Prop
  | .v1, result => (Codec.completedSummary result).isOk
  | .v2, result =>
    (Codec.encodeGenericResult result).isOk ∧ (Codec.validateGenericResult result).isOk

-- The shape of what the provider's client hands over: it concerns the provider of the job, and it
-- has a result or an error if it is the last word and neither if it is not.
structure WellFormed (protocol : Protocol) (lane : Lane) (r : Transition) : Prop where
  lane      : protocol = .v2 → lane = r.lane
  active    : r.nextState.active → r.result = none ∧ r.error = none
  completed : r.nextState = .completed → r.error = none ∧
    ∃ result, r.result = some result ∧ Accepts protocol result
  failed    : r.nextState = .failed → r.result = none ∧
    ∃ code message retryable, r.error = some ⟨some code, some message, retryable⟩

namespace WellFormed

variable {r : Transition} {lane : Lane} {target : Bool} {reading : SourceReading}

-- The checks of a transition that do not read the store.
theorem checks {protocol : Protocol} (hw : WellFormed protocol lane r) :
    (r.nextState = .completed → r.result.isSome ∧ r.error.isNone) ∧
    (r.nextState = .failed → r.error.isSome ∧ r.result.isNone) ∧
    (r.nextState.active → r.result.isNone ∧ r.error.isNone) := by
  refine ⟨fun h => ?_, fun h => ?_, fun h => ?_⟩
  · obtain ⟨he, result, hr, _⟩ := hw.completed h
    simp [he, hr]
  · obtain ⟨hr, code, message, retryable, he⟩ := hw.failed h
    simp [he, hr]
  · obtain ⟨hr, he⟩ := hw.active h
    simp [he, hr]

theorem checkTransition (hw : WellFormed j.protocolVersion j.lane r)
    (hj : s.jobs.get r.jobId = some j) (hs : j.status = r.expectedState)
    (ha : r.nextState ∈ r.expectedState.allowed)
    (hd : j.protocolVersion = .v2 → (s.dispatches.get r.jobId).isSome) :
    s.checkTransition r = .ok j := by
  obtain ⟨hc, hf, hact⟩ := hw.checks
  simp only [State.checkTransition, bind_eq_ok, require_eq_ok, find_eq_ok, pure_eq_ok,
    exists_and_left, exists_const]
  exact ⟨ha, hc, hf, hact, j, hj, hs, hw.lane, hd, rfl⟩

theorem values {protocol : Protocol} (hw : WellFormed protocol lane r) :
    ∃ v, r.values protocol = .ok v ∧
      (r.nextState = .failed → v.errorCode.isSome ∧ v.errorMessage.isSome) := by
  cases hn : r.nextState
  case completed =>
    obtain ⟨_, result, hr, hacc⟩ := hw.completed hn
    cases protocol
    case v1 =>
      obtain ⟨summary, hs⟩ := exists_ok_of_isOk hacc
      exact ⟨{ summary := some summary }, by simp [Transition.values, hn, hr, hs], by simp⟩
    case v2 =>
      obtain ⟨⟨json, metadata⟩, hs⟩ := exists_ok_of_isOk hacc.left
      refine ⟨{ resultJson := some json, resultMetadataJson := some metadata }, ?_, by simp⟩
      simp [Transition.values, hn, hr, hs]
  case failed =>
    obtain ⟨_, code, message, retryable, he⟩ := hw.failed hn
    refine ⟨{
      errorCode      := some code
      errorMessage   := some message
      errorRetryable := some retryable
    }, ?_, by simp⟩
    simp [Transition.values, hn, he]
  all_goals exact ⟨{}, by simp [Transition.values, hn], by simp⟩

theorem certificateOutcome (hw : WellFormed j.protocolVersion lane r) :
    ∃ s' outcome, s.certificateOutcome r j reading = .ok (s', outcome) ∧
      (outcome ≠ none → r.nextState = .completed) := by
  unfold State.certificateOutcome
  split
  case h_2 => exact ⟨s, none, rfl, by simp⟩
  case h_1 result hn hr =>
    split
    case isFalse => exact ⟨s, none, rfl, by simp⟩
    case isTrue hcert =>
      obtain ⟨_, result', hr', hacc⟩ := hw.completed hn
      cases hr.symm.trans hr'
      have hv : j.protocolVersion = .v2 := by
        simp only [Job.isCertificate, Bool.and_eq_true, decide_eq_true_eq] at hcert
        exact hcert.left
      rw [hv] at hacc
      obtain ⟨outputs, ho⟩ := exists_ok_of_isOk hacc.right
      obtain ⟨evidence, he⟩ : ∃ e, certificateEvidence j (.ok outputs) = .ok e := by
        unfold certificateEvidence
        split
        case isTrue => exact ⟨_, rfl⟩
        case isFalse =>
          simp only [bind, Except.bind]
          split
          case h_1 => split <;> exact ⟨_, rfl⟩
          case h_2 => exact ⟨_, rfl⟩
      exact ⟨_, _, by simp [ho, he]; exact ⟨rfl, rfl⟩, fun _ => hn⟩

omit [Codec] in
theorem deleteJob_of_unlinked {old : Job} (h : ∀ f ∈ s.fires, f.linkedTo old.jobId = false) :
    ∃ s', s.deleteJob old = .ok s' := by
  refine ⟨_, deleteJob_eq_ok.mpr ⟨fun f hf hl => ?_, rfl⟩⟩
  simp [h f hf] at hl

omit [Codec] in
theorem discardTerminal (hid : j.jobId = r.jobId) : ∃ s', s.discardTerminal r j = .ok s' := by
  refine deleteJob_of_unlinked fun f hf => ?_
  simp only [settleFires, Table.mem_update] at hf
  obtain ⟨g, _, rfl⟩ := hf
  rw [hid]
  split
  case isFalse h => simpa using h
  case isTrue h =>
    simp only [Fire.linkedTo, Fire.advance]
    split <;> simp [FireState.linked]

omit [Codec] in
theorem settleCertificate {p : Fire → Bool} {failure : Option CertificateFailure}
    (hj : s.jobs.get k = some j) (hs : j.status = .completed) :
    ∃ s', s.settleCertificate k p failure = .ok s' := by
  have hj' : (s.settleByOutcome p failure).jobs.get k = some j := by cases failure <;> exact hj
  simp only [State.settleCertificate, discardSettledSourceLessCertificateJob]
  split
  case isTrue => exact ⟨_, rfl⟩
  case isFalse =>
    split
    case isTrue => exact ⟨_, rfl⟩
    case isFalse hl =>
      have hun : ∀ f ∈ (s.settleByOutcome p failure).fires, f.linkedTo j.jobId = false := by
        rw [jobId_of_get hj]
        simpa [Table.mem_rows] using hl
      obtain ⟨s₁, h₁⟩ := deleteJob_of_unlinked hun
      refine ⟨s₁.overwriteFires k failure, ?_⟩
      simp [hj', hs, h₁]

-- A report that comes at the right time is stored.
theorem transitionConnectJob (hw : WellFormed j.protocolVersion j.lane r)
    (hj : s.jobs.get r.jobId = some j) (hs : j.status = r.expectedState)
    (ha : r.nextState ∈ r.expectedState.allowed)
    (hd : j.protocolVersion = .v2 → (s.dispatches.get r.jobId).isSome) :
    ∃ x, s.transitionConnectJob r target reading = .ok x := by
  obtain ⟨v, hv, hcode⟩ := hw.values
  obtain ⟨s₁, outcome, ho, hcomp⟩ : ∃ s₁ outcome,
      s.certificateOutcome r j reading = .ok (s₁, outcome) ∧ _ := hw.certificateOutcome
  have hsame := certificateOutcome_same ho
  simp only [State.transitionConnectJob, hw.checkTransition hj hs ha hd, hv, ho, bind, Except.bind]
  split
  case isTrue =>
    obtain ⟨s', h'⟩ := discardTerminal (s := s₁) (jobId_of_get hj)
    exact ⟨(s', r.applyJob v j), by rw [h']; rfl⟩
  case isFalse =>
    obtain ⟨s', h'⟩ : ∃ s', s₁.recordTransition r v j outcome = .ok s' := by
      simp only [recordTransition_eq_ok]
      refine exists_and_left.mpr ⟨hcode, ?_⟩
      cases outcome
      case none => exact ⟨_, rfl⟩
      case some failure =>
        have hjobs : (s₁.writeTransition r v j.protocolVersion).jobs.get r.jobId =
            some (r.applyJob v j) := by
          have hrow : (s₁.writeTransition r v j.protocolVersion).row r.jobId = _ :=
            row_writeTransition
          rw [if_pos rfl] at hrow
          exact (Prod.mk.inj hrow).left.trans <| by rw [hsame.jobs, hj, Option.map_some]
        exact settleCertificate hjobs (hcomp (by simp))
    exact ⟨(s', r.applyJob v j), by rw [h']; rfl⟩

-- A report that comes too late is told so.
theorem transitionConnectJob_late {protocol : Protocol} (hw : WellFormed protocol lane r)
    (ha : r.nextState ∈ r.expectedState.allowed)
    (hj : ∀ j, s.jobs.get r.jobId = some j → j.status ≠ r.expectedState) :
    ∃ message, s.transitionConnectJob r target reading = .error (.runtime message) := by
  obtain ⟨hc, hf, hact⟩ := hw.checks
  refine ⟨"Connect job transition lost its expected-state race", ?_⟩
  simp only [State.transitionConnectJob, State.checkTransition, require, if_pos ha, if_pos hc,
    if_pos hf, if_pos hact, bind, Except.bind]
  cases hg : s.jobs.get r.jobId
  case none => rfl
  case some j => simp [find, hj j hg]

end WellFormed

end Accepted

section Turns

variable [Codec] {r : Report} {target : Bool} {reading : SourceReading} {phase phase' : Phase}

theorem State.StatusRises.transition {t : Transition}
    (h : s.transitionConnectJob t target reading = .ok (s', j')) : StatusRises s s' := by
  obtain ⟨j, v, ht, hl⟩ := Leaves.transition h
  refine hl.rises fun j₁ hj₁ => ?_
  cases hj₁.symm.trans ht.job
  refine ⟨?_, fun hs => ?_⟩
  · rw [ht.status]
    exact (JobStatus.rank_lt_of_allowed ht.allowed).le
  · have := ht.active
    simp [hs] at this

theorem State.StatusRises.replay {lane : Lane} {id result : String}
    (h : s.reconcileCertificateCompletedReplay id lane result = .ok (s', j')) :
    StatusRises s s' :=
  (Leaves.replay h).rises fun _ _ => ⟨le_rfl, fun _ => rfl⟩

-- What a turn does to the store is a transition, a replay, or nothing.
theorem Report.next_cases (h : r.next s target reading phase = (s', phase')) :
    s' = s ∨
    (∃ q j, s.transitionConnectJob (r.transition q) target reading = .ok (s', j)) ∨
    ∃ id lane result j, s.reconcileCertificateCompletedReplay id lane result = .ok (s', j) := by
  unfold Report.next at h
  split at h
  case h_3 =>
    unfold Report.persist at h
    split at h
    case h_1 s₁ j hok =>
      cases h
      exact .inr <| .inl ⟨_, _, hok⟩
    all_goals exact .inl (Prod.mk.inj h).left.symm
  case h_4 =>
    unfold Report.replay at h
    split at h
    case h_1 => exact .inl (Prod.mk.inj h).left.symm
    case h_2 =>
      split at h
      case h_1 s₁ j hok =>
        cases h
        exact .inr <| .inr ⟨_, _, _, _, hok⟩
      case h_2 => exact .inl (Prod.mk.inj h).left.symm
  all_goals exact .inl (Prod.mk.inj h).left.symm

theorem Report.next_rises (h : r.next s target reading phase = (s', phase')) :
    StatusRises s s' := by
  obtain rfl | ⟨q, j, ht⟩ | ⟨id, lane, result, j, hr⟩ := Report.next_cases h
  case inl     => exact .refl _
  case inr.inl => exact .transition ht
  case inr.inr => exact .replay hr

theorem Report.next_consistent (h : r.next s target reading phase = (s', phase'))
    (hc : Consistent s) : Consistent s' := by
  obtain rfl | ⟨q, j, ht⟩ | ⟨id, lane, result, j, hr⟩ := Report.next_cases h
  case inl => exact hc
  case inr.inl =>
    have hs : step s (.transitionConnectJob (r.transition q) target reading) = .ok s' := by
      simp [step, ht]
    exact (step_effect hs).consistent hc
  case inr.inr =>
    have hs : step s (.reconcileCertificateCompletedReplay id lane result) = .ok s' := by
      simp [step, hr]
    exact (step_effect hs).consistent hc

omit [Codec] in
-- A job with a mail source stays.
theorem State.Leaves.stays {id : String} {g : Job → Job} (h : Leaves id g s s')
    (hs : s.sourceOf k ≠ some false) (hj : (s.jobs.get k).isSome) :
    s'.sourceOf k ≠ some false ∧ (s'.jobs.get k).isSome := by
  obtain ⟨hj', hs'⟩ | ⟨_, hl, _⟩ := h k
  case inl =>
    refine ⟨hs' ▸ hs, ?_⟩
    rw [hj']
    split <;> simpa using hj
  case inr => exact absurd hl hs

theorem Report.next_stays (h : r.next s target reading phase = (s', phase'))
    (hs : s.sourceOf k ≠ some false) (hj : (s.jobs.get k).isSome) :
    s'.sourceOf k ≠ some false ∧ (s'.jobs.get k).isSome := by
  obtain rfl | ⟨q, j, ht⟩ | ⟨id, lane, result, j, hr⟩ := Report.next_cases h
  case inl => exact ⟨hs, hj⟩
  case inr.inl =>
    obtain ⟨_, _, _, hl⟩ := Leaves.transition ht
    exact hl.stays hs hj
  case inr.inr => exact (Leaves.replay hr).stays hs hj

end Turns

section Merge

-- What a loop may rely on in its phase, whoever else writes to the store.
def Phase.Sound (k : String) (r : Report) (s : State) : Phase → Prop
  | .read left => 1 ≤ left ∧ ∀ j, s.jobs.get k = some j → 4 ≤ j.status.rank + left
  | .write current left => r.status ∈ current.allowed ∧ 3 ≤ current.rank + left ∧
    ∀ j, s.jobs.get k = some j → current.rank ≤ j.status.rank
  | .replay => r.status = .completed ∧ ∀ j, s.jobs.get k = some j → j.status = .completed
  | .returned => ∀ j, s.jobs.get k = some j → r.status.rank ≤ j.status.rank
  | .raised _ => (∀ j, s.jobs.get k = some j → r.status.rank ≤ j.status.rank) ∧
    (r.status.active → s.jobs.get k = none)

variable {r : Report} {phase phase' : Phase}

theorem Phase.Sound.mono (h : phase.Sound k r s) (hs : StatusRises s s') : phase.Sound k r s' := by
  have hrank : ∀ n, (∀ j, s.jobs.get k = some j → n ≤ j.status.rank) →
      ∀ j, s'.jobs.get k = some j → n ≤ j.status.rank := by
    intro n hn j' hj'
    obtain ⟨j, hj, hle, _⟩ := hs k j' hj'
    exact (hn j hj).trans hle
  cases phase
  case read left =>
    refine ⟨h.left, fun j' hj' => ?_⟩
    obtain ⟨j, hj, hle, _⟩ := hs k j' hj'
    have := h.right j hj
    omega
  case write current left => exact ⟨h.left, h.right.left, hrank _ h.right.right⟩
  case replay =>
    refine ⟨h.left, fun j' hj' => ?_⟩
    obtain ⟨j, hj, _, hset⟩ := hs k j' hj'
    have hc := h.right j hj
    rw [hset (by rw [hc]; rfl), hc]
  case returned => exact hrank _ h
  case raised e =>
    refine ⟨hrank _ h.left, fun ha => ?_⟩
    cases hj' : s'.jobs.get k
    case none => rfl
    case some j' =>
      obtain ⟨j, hj, _⟩ := hs k j' hj'
      simp [h.right ha] at hj

theorem JobUpdate.read_sound {u : JobUpdate} {left : Nat} (hj : s.jobs.get k = some j)
    (h : (Phase.read (left + 1)).Sound k (.update u) s) :
    (u.read j left).Sound k (.update u) s := by
  have huniq : ∀ j', s.jobs.get k = some j' → j' = j :=
    fun j' hj' => Option.some.inj (hj'.symm.trans hj)
  unfold JobUpdate.read
  split
  case isTrue heq =>
    split
    case isTrue hc =>
      exact ⟨heq.symm.trans hc.left, fun j' hj' => huniq j' hj' ▸ hc.left⟩
    case isFalse => exact fun j' hj' => by rw [huniq j' hj', heq]; rfl
  case isFalse hne =>
    split
    case isTrue ha =>
      intro j' hj'
      rw [huniq j' hj']
      obtain hs | hlt := ha.right
      case inl => exact (JobStatus.settled_iff_rank.mp hs) ▸ JobStatus.rank_le _
      case inr => exact hlt.le
    case isFalse hn =>
      split
      case isTrue hna =>
        have hle : u.status.rank ≤ j.status.rank :=
          not_lt.mp fun hlt => hna (JobStatus.allowed_of_rank_lt hlt)
        refine ⟨fun j' hj' => huniq j' hj' ▸ hle, fun ha => ?_⟩
        -- An update that is neither stale nor the stored one is allowed.
        exfalso
        have ha : u.status.active := ha
        refine hn ⟨ha, .inr <| lt_of_le_of_ne hle fun he => hne ?_⟩
        exact (JobStatus.eq_of_rank_eq he ha).symm
      case isFalse ha =>
        refine ⟨not_not.mp ha, ?_, fun j' hj' => by rw [huniq j' hj']⟩
        have := h.right j hj
        omega

@[simp]
theorem Report.transition_jobId (r : Report) (q : JobStatus) : (r.transition q).jobId = r.jobId := by
  cases r <;> rfl

@[simp]
theorem Report.transition_nextState (r : Report) (q : JobStatus) :
    (r.transition q).nextState = r.status := by
  cases r <;> rfl

@[simp]
theorem Report.transition_expectedState (r : Report) (q : JobStatus) :
    (r.transition q).expectedState = q := by
  cases r <;> rfl

theorem Report.read_sound {left : Nat} (h : (Phase.read (left + 1)).Sound k r s) :
    (r.read (s.jobs.get k) left).Sound k r s := by
  cases hj : s.jobs.get k
  case none =>
    cases r
    case update  => exact ⟨fun j hj' => by simp [hj] at hj', fun _ => hj⟩
    case failure => exact fun j hj' => by simp [hj] at hj'
  case some j =>
    cases r
    case update u => exact JobUpdate.read_sound hj h
    case failure id lane error =>
      have huniq : ∀ j', s.jobs.get k = some j' → j' = j :=
        fun j' hj' => Option.some.inj (hj'.symm.trans hj)
      simp only [Report.read]
      split
      case isTrue ha =>
        refine ⟨JobStatus.allowed_of_rank_lt (JobStatus.active_iff_rank.mp ha), ?_, ?_⟩
        · have := h.right j hj
          omega
        · exact fun j' hj' => by rw [huniq j' hj']
      case isFalse ha =>
        intro j' hj'
        rw [huniq j' hj']
        exact not_lt.mp fun hlt => ha (JobStatus.active_iff_rank.mpr hlt)

-- The job `j₀` after some of the reports, whose statuses are `given`.
structure Merged (given : JobStatus → Prop) (j₀ j : Job) : Prop where
  protocol : j.protocolVersion = j₀.protocolVersion
  lane     : j₀.protocolVersion = .v2 → j.lane = j₀.lane
  rank     : j₀.status.rank ≤ j.status.rank
  settled  : j₀.status.settled → j.status = j₀.status
  found    : j.status = j₀.status ∨ given j.status

variable [Codec] {given : JobStatus → Prop} {j₀ : Job} {target : Bool} {reading : SourceReading}

theorem WellFormed.of_merged {t : Transition} (hw : WellFormed j₀.protocolVersion j₀.lane t)
    (hm : Merged given j₀ j) : WellFormed j.protocolVersion j.lane t := by
  rw [hm.protocol]
  exact { hw with lane := fun hv => (hm.lane hv).trans (hw.lane hv) }

theorem Report.next_merged (h : r.next s target reading phase = (s', phase'))
    (hw : ∀ q, WellFormed j₀.protocolVersion j₀.lane (r.transition q)) (hg : given r.status)
    (hm : ∀ j, s.jobs.get k = some j → Merged given j₀ j) (hj' : s'.jobs.get k = some j') :
    Merged given j₀ j' := by
  obtain ⟨j, hj, hle, hset⟩ := Report.next_rises h k j' hj'
  have hj₀ := hm j hj
  have hrank : j₀.status.rank ≤ j'.status.rank := hj₀.rank.trans hle
  have hsettled : j₀.status.settled → j'.status = j₀.status := by
    intro hs
    have he := hj₀.settled hs
    rw [hset (he ▸ hs), he]
  -- Everything else is either as before or as the report says.
  suffices hcase : j' = j ∨ ∃ q v, j' = (r.transition q).applyJob v j by
    obtain rfl | ⟨q, v, rfl⟩ := hcase
    case inl => exact hj₀
    case inr =>
      refine ⟨hj₀.protocol, fun hv => ((hw q).lane hv).symm, hrank, hsettled, .inr ?_⟩
      exact show given (r.transition q).nextState from (Report.transition_nextState r q) ▸ hg
  obtain rfl | ⟨q, _, ht⟩ | ⟨id, lane, result, _, hr⟩ := Report.next_cases h
  case inl => exact .inl (Option.some.inj (hj'.symm.trans hj))
  case inr.inl =>
    obtain ⟨_, v, _, hl⟩ := Leaves.transition ht
    obtain ⟨j₁, hj₁, hcase⟩ := hl.stored hj'
    cases hj₁.symm.trans hj
    exact hcase.imp_right fun he => ⟨q, v, he.right⟩
  case inr.inr =>
    obtain ⟨j₁, hj₁, hcase⟩ := (Leaves.replay hr).stored hj'
    cases hj₁.symm.trans hj
    exact .inl <| hcase.elim (·) (·.right)

-- A job is only deleted when it settles.
theorem Report.next_gone (h : r.next s target reading phase = (s', phase'))
    (hj : s.jobs.get k = some j) (hn : s'.jobs.get k = none) :
    r.status.settled ∨ j.status.settled := by
  obtain rfl | ⟨q, _, ht⟩ | ⟨id, lane, result, _, hr⟩ := Report.next_cases h
  case inl => simp [hj] at hn
  case inr.inl =>
    obtain ⟨_, v, _, hl⟩ := Leaves.transition ht
    have hset : (r.transition q).nextState.settled := (hl.gone hj hn).right
    exact .inl <| by rwa [Report.transition_nextState] at hset
  case inr.inr => exact .inr ((Leaves.replay hr).gone hj hn).right

-- The store and the loop read the same tables: a report that fits the status that was read is either
-- stored, or the job has made progress in between.
theorem Report.persist_sound {current : JobStatus} {left : Nat}
    (h : r.persist s current left target reading = (s', phase')) (hid : r.jobId = k)
    (hw : ∀ q, WellFormed j₀.protocolVersion j₀.lane (r.transition q)) (hc : Consistent s)
    (hm : ∀ j, s.jobs.get k = some j → Merged given j₀ j)
    (hs : (Phase.write current left).Sound k r s) : phase'.Sound k r s' := by
  obtain ⟨ha, hleft, hle⟩ := hs
  have hact : current.rank < 3 :=
    (JobStatus.rank_lt_of_allowed ha).trans_le (JobStatus.rank_le _)
  by_cases hcur : ∃ j, s.jobs.get k = some j ∧ j.status = current
  case pos =>
    obtain ⟨j, hj, hst⟩ := hcur
    obtain ⟨⟨s₁, j₁⟩, hok⟩ : ∃ x, s.transitionConnectJob (r.transition current) target reading =
        .ok x := by
      refine ((hw current).of_merged (hm j hj)).transitionConnectJob ?_ ?_ ?_ ?_
      · rw [Report.transition_jobId, hid, hj]
      · rw [Report.transition_expectedState, hst]
      · rw [Report.transition_expectedState, Report.transition_nextState]
        exact ha
      · intro hv
        obtain ⟨d, he⟩ := hc.dispatched hj hv
        rw [Report.transition_jobId, hid, (entry_eq_some.mp he).right]
        rfl
    simp only [Report.persist, hok, Prod.mk.injEq] at h
    obtain ⟨rfl, rfl⟩ := h
    intro j' hj'
    obtain ⟨_, v, _, hl⟩ := Leaves.transition hok
    obtain ⟨hj₁, _⟩ | ⟨_, _, hn, _⟩ := hl k
    case inr => simp [hj'] at hn
    case inl =>
      rw [if_pos (by rw [Report.transition_jobId, hid]), hj, hj', Option.map_some] at hj₁
      cases hj₁
      exact le_of_eq (congrArg JobStatus.rank (Report.transition_nextState r current).symm)
  case neg =>
    obtain ⟨message, herr⟩ : ∃ message,
        s.transitionConnectJob (r.transition current) target reading = .error (.runtime message) := by
      refine (hw current).transitionConnectJob_late ?_ ?_
      · rw [Report.transition_expectedState, Report.transition_nextState]
        exact ha
      · rw [Report.transition_jobId, Report.transition_expectedState, hid]
        exact fun j hj hst => hcur ⟨j, hj, hst⟩
    simp only [Report.persist, herr, Prod.mk.injEq] at h
    obtain ⟨rfl, rfl⟩ := h
    refine ⟨by omega, fun j hj => ?_⟩
    have hlt : current.rank < j.status.rank := by
      refine lt_of_le_of_ne (hle j hj) fun he => hcur ⟨j, hj, ?_⟩
      exact (JobStatus.eq_of_rank_eq he (JobStatus.active_iff_rank.mpr hact)).symm
    omega

theorem Report.next_sound (h : r.next s target reading phase = (s', phase')) (hid : r.jobId = k)
    (hw : ∀ q, WellFormed j₀.protocolVersion j₀.lane (r.transition q)) (hc : Consistent s)
    (hm : ∀ j, s.jobs.get k = some j → Merged given j₀ j) (hs : phase.Sound k r s) :
    phase'.Sound k r s' := by
  cases phase
  case read left =>
    cases left
    case zero => exact absurd hs.left (by decide)
    case succ left =>
      simp only [Report.next, hid, Prod.mk.injEq] at h
      obtain ⟨rfl, rfl⟩ := h
      exact Report.read_sound hs
  case write current left => exact Report.persist_sound h hid hw hc hm hs
  case replay =>
    obtain ⟨hstatus, hjobs⟩ : (Phase.replay).Sound k r s' := hs.mono (Report.next_rises h)
    have hret : ∀ j, s'.jobs.get k = some j → r.status.rank ≤ j.status.rank :=
      fun j hj => by rw [hstatus, hjobs j hj]
    have hphase : phase' = .returned ∨ ∃ e, phase' = .raised e := by
      simp only [Report.next, Report.replay] at h
      split at h
      case h_1 => exact .inl (Prod.mk.inj h).right.symm
      case h_2 =>
        split at h
        case h_1 => exact .inl (Prod.mk.inj h).right.symm
        case h_2 e _ => exact .inr ⟨_, (Prod.mk.inj h).right.symm⟩
    obtain rfl | ⟨e, rfl⟩ := hphase
    case inl => exact hret
    case inr => exact ⟨hret, fun ha => by simp [hstatus, JobStatus.active, JobStatus.settled] at ha⟩
  case returned =>
    cases h
    exact hs
  case raised =>
    cases h
    exact hs

end Merge

section Runs

variable [Codec] {n : Nat} {reports : Fin n → Report} {j₀ : Job}

variable {x x' : State × (Fin n → Phase)} {t : Turn n}

theorem appliers_step (h : (appliers reports).step x t = .ok x') :
    ∃ phase', (reports t.applier).next x.fst t.targetAvailable t.reading (x.snd t.applier) =
      (x'.fst, phase') ∧ x'.snd = Function.update x.snd t.applier phase' := by
  cases h
  exact ⟨_, rfl, rfl⟩

-- What holds between any two turns of appliers that report on the job `k`.
structure Merging (reports : Fin n → Report) (k : String) (j₀ : Job)
    (x : State × (Fin n → Phase)) : Prop where
  consistent : Consistent x.fst
  job        : ∀ j, x.fst.jobs.get k = some j → Merged (fun q => ∃ i, (reports i).status = q) j₀ j
  gone       : x.fst.jobs.get k = none →
    j₀.status.settled ∨ ∃ i, (reports i).status.settled
  sound      : ∀ i, (x.snd i).Sound k (reports i) x.fst

-- The report concerns the job, and the store can take it.
def Report.Concerns (j : Job) (r : Report) : Prop :=
  r.jobId = j.jobId ∧ ∀ q, WellFormed j.protocolVersion j.lane (r.transition q)

omit [Codec] in
theorem Merging.start (hc : Consistent s) (hj : s.jobs.get k = some j₀) :
    Merging reports k j₀ (s, fun _ => .read 4) where
  consistent := hc
  job j hj' := by
    cases hj'.symm.trans hj
    exact ⟨rfl, fun _ => rfl, le_rfl, fun _ => rfl, .inl rfl⟩
  gone hn := by simp [hj] at hn
  sound _ := ⟨by decide, fun _ _ => Nat.le_add_left _ _⟩

theorem Merging.step (hk : j₀.jobId = k)
    (hr : ∀ i, (reports i).Concerns j₀) (hm : Merging reports k j₀ x)
    (h : (appliers reports).step x t = .ok x') : Merging reports k j₀ x' := by
  obtain ⟨phase', hnext, hsnd⟩ := appliers_step h
  obtain ⟨hid, hw⟩ := hr t.applier
  refine ⟨Report.next_consistent hnext hm.consistent, fun j hj => ?_, fun hn => ?_, fun i => ?_⟩
  · exact Report.next_merged hnext hw ⟨_, rfl⟩ hm.job hj
  · cases hj : x.fst.jobs.get k
    case none => exact hm.gone hj
    case some j =>
      obtain hs | hs := Report.next_gone hnext hj hn
      case inl => exact .inr ⟨_, hs⟩
      case inr =>
        obtain he | ⟨i, he⟩ := (hm.job j hj).found
        case inl => exact .inl (he ▸ hs)
        case inr => exact .inr ⟨i, he ▸ hs⟩
  · by_cases hi : i = t.applier
    case pos =>
      subst hi
      rw [hsnd, Function.update_self]
      exact Report.next_sound hnext (hid.trans hk) hw hm.consistent hm.job (hm.sound _)
    case neg =>
      rw [hsnd, Function.update_of_ne hi]
      exact (hm.sound i).mono (Report.next_rises hnext)

theorem Merging.applied (hr : ∀ i, (reports i).Concerns j₀) (hc : Consistent s)
    (hj : s.jobs.get k = some j₀) (ts : List (Turn n)) :
    Merging reports k j₀ (applied reports s ts) := by
  refine Machine.invariant (m := appliers reports) ?_ (.start hc hj) ts
  exact fun _ _ _ hm h => hm.step (jobId_of_get hj) hr h

theorem appliers_rises (x : State × (Fin n → Phase)) (ts : List (Turn n)) :
    StatusRises x.fst ((appliers reports).run x ts).fst := by
  refine Machine.invariant (m := appliers reports) (I := fun y => StatusRises x.fst y.fst)
    ?_ (.refl _) ts
  intro y t y' hy h
  obtain ⟨_, hnext, _⟩ := appliers_step h
  exact hy.trans (Report.next_rises hnext)

theorem appliers_stays (hs : s.sourceOf k ≠ some false) (hj : (s.jobs.get k).isSome)
    (ts : List (Turn n)) : ((applied reports s ts).fst.jobs.get k).isSome := by
  refine (Machine.invariant (m := appliers reports)
    (I := fun y => y.fst.sourceOf k ≠ some false ∧ (y.fst.jobs.get k).isSome) ?_ ⟨hs, hj⟩ ts).right
  intro y t y' hy h
  obtain ⟨_, hnext, _⟩ := appliers_step h
  exact Report.next_stays hnext hy.left hy.right

-- The number of turns that a loop has left at most.
def Phase.turns : Phase → Nat
  | .read left    => 2 * left + 1
  | .write _ left => 2 * left + 2
  | .replay       => 1
  | _             => 0

omit [Codec] in
theorem Phase.finished_of_turns {phase : Phase} (h : phase.turns = 0) : phase.finished := by
  cases phase <;> simp_all [Phase.turns, Phase.finished]

omit [Codec] in
theorem JobUpdate.turns_read (u : JobUpdate) (j : Job) (left : Nat) :
    (u.read j left).turns ≤ 2 * left + 2 := by
  unfold JobUpdate.read
  split
  case isTrue => split <;> simp [Phase.turns]
  case isFalse => split <;> [skip; split] <;> simp [Phase.turns]

omit [Codec] in
theorem Report.turns_read (r : Report) (current : Option Job) (left : Nat) :
    (r.read current left).turns ≤ 2 * left + 2 := by
  unfold Report.read
  split
  case h_1 => exact JobUpdate.turns_read _ _ _
  case h_3 => split <;> simp [Phase.turns]
  all_goals simp [Phase.turns]

-- Every turn takes a loop on.
theorem Report.turns_next {r : Report} {target : Bool} {reading : SourceReading}
    {phase phase' : Phase} (h : r.next s target reading phase = (s', phase')) :
    phase'.turns ≤ phase.turns - 1 := by
  cases phase
  case read left =>
    cases left
    case zero =>
      cases h
      exact le_rfl
    case succ left =>
      rw [← (Prod.mk.inj h).right]
      exact Report.turns_read _ _ _
  case write =>
    simp only [Report.next, Report.persist] at h
    split at h <;> cases h <;> simp [Phase.turns]
  case replay =>
    simp only [Report.next, Report.replay] at h
    split at h
    case h_1 =>
      cases h
      exact le_rfl
    case h_2 => split at h <;> cases h <;> exact le_rfl
  all_goals
    cases h
    exact le_rfl

-- A loop that had nine turns is through.
theorem appliers_finish (reports : Fin n → Report) (s : State) (ts : List (Turn n)) (i : Fin n)
    (h : 9 ≤ ts.countP (·.applier = i)) : ((applied reports s ts).snd i).finished := by
  suffices hrun : ∀ x : State × (Fin n → Phase),
      (((appliers reports).run x ts).snd i).turns ≤ (x.snd i).turns - ts.countP (·.applier = i) by
    apply Phase.finished_of_turns
    have hle := hrun (s, fun _ => .read 4)
    have h9 : (Phase.read 4).turns = 9 := rfl
    rw [h9] at hle
    exact Nat.le_zero.mp (hle.trans (by omega))
  clear h
  induction ts
  case nil => exact fun x => le_rfl
  case cons t ts ih =>
    intro x
    have hstep : (appliers reports).step x t = .ok ((appliers reports).next x t) := rfl
    obtain ⟨phase', hnext, hsnd⟩ := appliers_step hstep
    refine (ih _).trans ?_
    have hphase : (((appliers reports).next x t).snd i).turns ≤
        (x.snd i).turns - (if t.applier = i then 1 else 0) := by
      rw [hsnd]
      split
      case isTrue hi =>
        subst hi
        rw [Function.update_self]
        exact Report.turns_next hnext
      case isFalse hi => rw [Function.update_of_ne (Ne.symm hi)]; exact le_rfl
    rw [List.countP_cons]
    simp only [decide_eq_true_eq]
    omega

-- The reports on a job can be applied in any order.
theorem updates_merge (as : List Action) (reports : Fin n → Report) (ts : List (Turn n)) :
    let s := machine.run ∅ as
    let x := applied reports s ts
    (∀ us vs, ts = us ++ vs → StatusRises (applied reports s us).fst x.fst) ∧
    (∀ i, 9 ≤ ts.countP (·.applier = i) → (x.snd i).finished) ∧
    ∀ k j₀, s.jobs.get k = some j₀ → (∀ i, (reports i).Concerns j₀) →
      (∀ i i', (reports i).status.settled → (reports i').status.settled →
        (reports i).status = (reports i').status) →
      (∀ i, (x.snd i).finished) →
      let merged := j₀.status.merge (List.ofFn fun i => (reports i).status)
      (∀ j, x.fst.jobs.get k = some j →
        j.status = merged ∧ ∀ i, (reports i).status.active → x.snd i = .returned) ∧
      (x.fst.jobs.get k = none → s.sourceOf k = some false ∧ merged.settled) := by
  intro s x
  refine ⟨?_, fun i => appliers_finish reports s ts i, ?_⟩
  case refine_1 =>
    rintro us vs rfl
    have hx : x = (appliers reports).run (applied reports s us) vs := Machine.run_append
    rw [hx]
    exact appliers_rises _ _
  case refine_2 =>
    intro k j₀ hj hr hone hfin merged
    have hm : Merging reports k j₀ x := .applied hr (run_consistent as) hj ts
    refine ⟨fun j hj' => ⟨?_, fun i ha => ?_⟩, fun hn => ⟨?_, ?_⟩⟩
    · have hmerged := hm.job j hj'
      refine JobStatus.eq_merge hmerged.rank ?_ ?_ hmerged.settled ?_
      · intro q hq
        obtain ⟨i, rfl⟩ := (List.mem_ofFn' _ _).mp hq
        have hs := hm.sound i
        have hf := hfin i
        generalize x.snd i = phase at hs hf
        cases phase
        case returned => exact hs j hj'
        case raised   => exact hs.left j hj'
        all_goals simp [Phase.finished] at hf
      · exact hmerged.found.imp_right (List.mem_ofFn' _ _).mpr
      · intro q₁ h₁ q₂ h₂
        obtain ⟨i₁, rfl⟩ := (List.mem_ofFn' _ _).mp h₁
        obtain ⟨i₂, rfl⟩ := (List.mem_ofFn' _ _).mp h₂
        exact hone i₁ i₂
    · have hs := hm.sound i
      have hf := hfin i
      generalize x.snd i = phase at hs hf
      cases phase
      case returned => rfl
      case raised   => simp [hs.right ha] at hj'
      all_goals simp [Phase.finished] at hf
    · by_contra hs
      have hsome : ((applied reports s ts).fst.jobs.get k).isSome :=
        appliers_stays hs (by simp [hj]) ts
      simp [show (applied reports s ts).fst.jobs.get k = none from hn] at hsome
    · rw [JobStatus.settled_iff_rank]
      refine le_antisymm (JobStatus.rank_le _) ?_
      obtain hs | ⟨i, hs⟩ := hm.gone hn
      case inl =>
        rw [← JobStatus.settled_iff_rank.mp hs]
        exact JobStatus.rank_le_merge
      case inr =>
        rw [← JobStatus.settled_iff_rank.mp hs]
        exact JobStatus.rank_le_merge_of_mem ((List.mem_ofFn' _ _).mpr ⟨i, rfl⟩)

end Runs

namespace Sample

def reports (status : JobStatus) (result : Option String) : Report :=
  .update {
    jobId   := jobId
    status  := status
    lane    := lane
    result  := result
    error   := none
    generic := true
  }

-- The completion arrives first, and one of the stale reports after it.
def unordered : Fin 3 → Report :=
  ![reports .completed (some result), reports .accepted none, reports .processing none]

def turn (i : Fin 3) : Turn 3 where
  applier         := i
  targetAvailable := true
  reading         := .withheld

-- The completion is written between the two accesses of the last report.
def interleaved : List (Turn 3) :=
  [turn 2, turn 0, turn 0, turn 2, turn 1, turn 2]

theorem concerns_active {j : Job} {q : JobStatus} (hid : j.jobId = jobId) (hl : j.lane = lane)
    (hq : q.active) : (reports q none).Concerns j := by
  refine ⟨hid.symm, fun _ => ⟨fun _ => hl, fun _ => ⟨rfl, rfl⟩, ?_, ?_⟩⟩
  all_goals
    intro h
    have h : q = _ := h
    subst h
    cases hq

theorem concerns_completed {j : Job} (hid : j.jobId = jobId) (hl : j.lane = lane)
    (hp : j.protocolVersion = .v2) : (reports .completed (some result)).Concerns j := by
  refine ⟨hid.symm, fun _ => ⟨fun _ => hl, ?_, fun _ => ⟨rfl, result, rfl, ?_⟩, ?_⟩⟩
  · exact fun h => by cases h
  · rw [hp]
    exact ⟨by decide +kernel, by decide +kernel⟩
  · exact fun h => by cases h

theorem concerns_unordered {j : Job} (hid : j.jobId = jobId) (hl : j.lane = lane)
    (hp : j.protocolVersion = .v2) : ∀ i, (unordered i).Concerns j
  | 0 => concerns_completed hid hl hp
  | 1 => concerns_active hid hl rfl
  | 2 => concerns_active hid hl rfl

theorem settled_unordered (i i' : Fin 3) (h : (unordered i).status.settled)
    (h' : (unordered i').status.settled) : (unordered i).status = (unordered i').status := by
  revert i i'
  decide +kernel

end Sample

open Sample in
theorem updates_merge_interleaved :
    ((applied unordered (machine.run ∅ submitted) interleaved).fst.jobs.get jobId).map (·.status) =
      some .completed ∧
    (applied unordered (machine.run ∅ submitted) interleaved).snd 1 = .returned ∧
    (applied unordered (machine.run ∅ submitted) interleaved).snd 2 = .returned := by
  obtain ⟨j₀, hj₀, hst⟩ : ∃ j₀, (machine.run ∅ submitted).jobs.get jobId = some j₀ ∧
      (j₀.jobId, j₀.lane, j₀.protocolVersion, j₀.status) = (jobId, lane, .v2, .requested) :=
    Option.map_eq_some_iff.mp (by decide +kernel)
  simp only [Prod.mk.injEq] at hst
  obtain ⟨hid, hl, hp, hq⟩ := hst
  have hfin : ∀ i, ((applied unordered (machine.run ∅ submitted) interleaved).snd i).finished := by
    decide +kernel
  obtain ⟨j, hj⟩ : ∃ j,
      (applied unordered (machine.run ∅ submitted) interleaved).fst.jobs.get jobId = some j :=
    Option.isSome_iff_exists.mp (by decide +kernel)
  obtain ⟨hs, hret⟩ := ((updates_merge submitted unordered interleaved).right.right jobId j₀ hj₀
    (concerns_unordered hid hl hp) settled_unordered hfin).left j hj
  refine ⟨?_, hret 1 rfl, hret 2 rfl⟩
  rw [hj, Option.map_some, hs, hq]
  decide +kernel

namespace Sample

-- The job of the completion has lost its mail source.
def orphaned : List Action := [
  .createConnectJob { job with capabilityId := "document.summarize" } true true,
  .claimConnectLaneHead lane none (fun _ => true) Instant.second,
  .markSourcesUnavailable ["message"]
]

end Sample

-- The completion takes the job away, and a report that comes after it is not stale but lost.
open Sample in
theorem not_merge_orphaned :
    ¬∀ (as : List Action) (reports : Fin 3 → Report) (ts : List (Turn 3)) (k : String) (j₀ : Job),
      (machine.run ∅ as).jobs.get k = some j₀ → (∀ i, (reports i).Concerns j₀) →
      (∀ i i', (reports i).status.settled → (reports i').status.settled →
        (reports i).status = (reports i').status) →
      (∀ i, ((applied reports (machine.run ∅ as) ts).snd i).finished) →
      (∃ j, (applied reports (machine.run ∅ as) ts).fst.jobs.get k = some j ∧
        j.status = j₀.status.merge (List.ofFn fun i => (reports i).status)) ∧
      ∀ i, (reports i).status.active →
        (applied reports (machine.run ∅ as) ts).snd i = .returned := by
  intro h
  obtain ⟨j₀, hj₀, hst⟩ : ∃ j₀, (machine.run ∅ orphaned).jobs.get jobId = some j₀ ∧
      (j₀.jobId, j₀.lane, j₀.protocolVersion) = (jobId, lane, .v2) :=
    Option.map_eq_some_iff.mp (by decide +kernel)
  simp only [Prod.mk.injEq] at hst
  obtain ⟨hid, hl, hp⟩ := hst
  have hfin : ∀ i, ((applied unordered (machine.run ∅ orphaned) interleaved).snd i).finished := by
    decide +kernel
  obtain ⟨_, hret⟩ := h orphaned unordered interleaved jobId j₀ hj₀
    (concerns_unordered hid hl hp) settled_unordered hfin
  have hraised : (applied unordered (machine.run ∅ orphaned) interleaved).snd 1 =
      .raised (.store <| .runtime "Connect job disappeared before its status could persist") := by
    decide +kernel
  have hret₁ := hret 1 rfl
  simp [hraised] at hret₁

end Connect
