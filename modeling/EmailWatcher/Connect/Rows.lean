import EmailWatcher.Connect.Actions

-- How the statements of the store change the rows of single jobs.
namespace Connect.State

open Transaction

variable {s s' s₁ s₂ s₃ : State} {k : String} {j : Job} {d : Dispatch}

theorem entry_eq_some :
    s.entry k = some (j, d) ↔ s.jobs.get k = some j ∧ s.dispatches.get k = some d := by
  unfold entry
  split <;> simp_all

theorem jobId_of_get (h : s.jobs.get k = some j) : j.jobId = k :=
  Table.key_of_get h

theorem dispatch_jobId_of_get (h : s.dispatches.get k = some d) : d.jobId = k :=
  Table.key_of_get h

-- The rows of a job: v1 jobs have no dispatch row.
def row (s : State) (k : String) : Option Job × Option Dispatch :=
  (s.jobs.get k, s.dispatches.get k)

theorem row_of_eq (hj : s'.jobs = s.jobs) (hd : s'.dispatches = s.dispatches) :
    s'.row k = s.row k := by
  simp [row, hj, hd]

section Get

theorem jobs_updateJob {id : String} {f : Job → Job} {hf} :
    (s.updateJob id f hf).jobs.get k = if k = id then (s.jobs.get k).map f else s.jobs.get k :=
  Table.get_update_key hf fun _ => rfl

theorem dispatches_updateDispatch {id : String} {g : Dispatch → Dispatch} {hg} :
    (s.updateDispatch id g hg).dispatches.get k =
    if k = id then (s.dispatches.get k).map g else s.dispatches.get k :=
  Table.get_update_key hg fun _ => rfl

theorem row_updateJob {id : String} {f : Job → Job} {hf} :
    (s.updateJob id f hf).row k =
    if k = id then ((s.jobs.get k).map f, s.dispatches.get k) else s.row k := by
  simp only [row, jobs_updateJob]
  split <;> rfl

theorem row_updateDispatch {id : String} {g : Dispatch → Dispatch} {hg} :
    (s.updateDispatch id g hg).row k =
    if k = id then (s.jobs.get k, (s.dispatches.get k).map g) else s.row k := by
  simp only [row, dispatches_updateDispatch]
  split <;> rfl

theorem row_writeTransition {r : Transition} {v : JobValues} {protocol : Protocol} :
    (s.writeTransition r v protocol).row k =
    if k = r.jobId then
      ((s.jobs.get k).map (r.applyJob v),
        if protocol = .v2 then (s.dispatches.get k).map r.applyDispatch else s.dispatches.get k)
    else
      s.row k := by
  unfold writeTransition
  by_cases hk : k = r.jobId
  case neg => split <;> simp only [row_updateDispatch, row_updateJob, if_neg hk]
  case pos =>
    split <;> simp only [row_updateDispatch, row_updateJob, if_pos hk, jobs_updateJob]
    rfl

theorem deleteJob_eq_ok {old : Job} :
    s.deleteJob old = .ok s' ↔
    (∀ f ∈ s.fires, f.linkedTo old.jobId → (f.unlink old).reason ≠ some "") ∧
    s' = { s with
      jobs       := s.jobs.delete (·.jobId = old.jobId)
      dispatches := s.dispatches.delete (·.jobId = old.jobId)
      fires      := s.fires.update (·.linkedTo old.jobId) (·.unlink old) (Fire.fireId_unlink old)
    } := by
  simp only [deleteJob, bind_eq_ok, require_eq_ok, pure_eq_ok, Table.mem_rows, eq_comm (b := s')]
  simp

theorem row_deleteJob {old : Job} (h : s.deleteJob old = .ok s') :
    s'.row k = if k = old.jobId then (none, none) else s.row k := by
  obtain ⟨_, h⟩ := deleteJob_eq_ok.mp h
  have hj : s'.jobs.get k = if k = old.jobId then none else s.jobs.get k := by
    subst h
    exact Table.get_delete_key fun _ => rfl
  have hd : s'.dispatches.get k = if k = old.jobId then none else s.dispatches.get k := by
    subst h
    exact Table.get_delete_key fun _ => rfl
  rw [row, hj, hd]
  split <;> rfl

end Get

section Expiry

theorem mem_expiringJobs {now : Instant} :
    k ∈ s.expiringJobs now ↔ ∃ d, s.dispatches.get k = some d ∧ s.expires now d := by
  simp only [expiringJobs, List.mem_map, List.mem_insertionSort, List.mem_filter, Table.mem_rows]
  constructor
  case mp =>
    rintro ⟨d, ⟨hm, he⟩, rfl⟩
    exact ⟨d, Table.get_of_mem hm, he⟩
  case mpr =>
    rintro ⟨d, hd, he⟩
    exact ⟨d, ⟨Table.mem_of_get hd, he⟩, Table.key_of_get hd⟩

-- What makes a job expire: nobody has been told about it, and its time is up.
structure Expiring (now : Instant) (j : Job) (d : Dispatch) : Prop where
  v2        : j.protocolVersion = .v2
  requested : j.status = .requested
  waiting   : d.state = .waiting
  possible  : d.submissionPossible = false
  running   : d.automationPausedAt = none
  due       : d.admissionDeadline ≤ now

theorem mem_expiringJobs_iff_expiring {now : Instant} :
    k ∈ s.expiringJobs now ↔ ∃ j d, s.entry k = some (j, d) ∧ Expiring now j d := by
  simp only [mem_expiringJobs, entry_eq_some]
  constructor
  case mp =>
    rintro ⟨d, hd, he⟩
    simp only [expires, dispatch_jobId_of_get hd, Option.any_eq_true, Bool.and_eq_true,
      decide_eq_true_eq, Bool.not_eq_true'] at he
    obtain ⟨⟨⟨⟨⟨j, hj, hv, hr⟩, hw⟩, hp⟩, hn⟩, ht⟩ := he
    exact ⟨j, d, ⟨hj, hd⟩, hv, hr, hw, hp, hn, ht⟩
  case mpr =>
    rintro ⟨j, d, ⟨hj, hd⟩, e⟩
    refine ⟨d, hd, ?_⟩
    simp [expires, dispatch_jobId_of_get hd, hj, e.v2, e.requested, e.waiting, e.possible,
      e.running, e.due]

@[simp]
theorem expiredJob_status : (expiredJob j).status = .failed :=
  rfl

@[simp]
theorem expiredDispatch_state : (expiredDispatch d).state = .terminal :=
  rfl

theorem jobs_expireJob {id : String} :
    (s.expireJob id).jobs.get k =
    (s.jobs.get k).map fun j => if k = id ∧ j.status = .requested then expiredJob j else j := by
  have h := Table.get_update_key_and (t := s.jobs) (f := expiredJob) (i := id) (k := k)
    (q := (·.status = .requested)) (fun _ => rfl) fun _ => rfl
  simp only [decide_eq_true_eq] at h
  exact h

theorem dispatches_expireJob {id : String} :
    (s.expireJob id).dispatches.get k =
    (s.dispatches.get k).map fun d =>
      if k = id ∧ d.state = .waiting ∧ d.submissionPossible = false then expiredDispatch d else d := by
  have h := Table.get_update_key_and (t := s.dispatches) (f := expiredDispatch) (i := id) (k := k)
    (q := fun d => d.state = .waiting && !d.submissionPossible) (fun _ => rfl) fun _ => rfl
  simp only [Bool.and_eq_true, decide_eq_true_eq, Bool.not_eq_true'] at h
  exact h

theorem jobs_expireJobs (ids : List String) :
    (ids.foldl expireJob s).jobs.get k =
    (s.jobs.get k).map fun j => if k ∈ ids ∧ j.status = .requested then expiredJob j else j := by
  induction ids generalizing s
  case nil => simp
  case cons id ids ih =>
    simp only [List.foldl_cons, ih, jobs_expireJob, List.mem_cons]
    cases s.jobs.get k
    case none => rfl
    case some j =>
      by_cases hr : j.status = .requested
      case neg => simp [hr]
      case pos => by_cases hk : k = id <;> simp [hr, hk]

theorem dispatches_expireJobs (ids : List String) :
    (ids.foldl expireJob s).dispatches.get k =
    (s.dispatches.get k).map fun d =>
      if k ∈ ids ∧ d.state = .waiting ∧ d.submissionPossible = false then expiredDispatch d
      else d := by
  induction ids generalizing s
  case nil => simp
  case cons id ids ih =>
    simp only [List.foldl_cons, ih, dispatches_expireJob, List.mem_cons]
    cases s.dispatches.get k
    case none => rfl
    case some d =>
      by_cases hw : d.state = .waiting ∧ d.submissionPossible = false
      case neg => simp [hw]
      case pos => by_cases hk : k = id <;> simp [hw, hk]

-- Expiry fails the jobs that expire and leaves all others alone.
theorem row_expireWaitingConnectJobs (s : State) (now : Instant) (k : String) :
    (s.expireWaitingConnectJobs now).row k = s.row k ∨
    ∃ j d, s.entry k = some (j, d) ∧ Expiring now j d ∧
      (s.expireWaitingConnectJobs now).row k = (some (expiredJob j), some (expiredDispatch d)) := by
  simp only [row, expireWaitingConnectJobs, jobs_expireJobs, dispatches_expireJobs]
  by_cases hk : k ∈ s.expiringJobs now
  case pos =>
    obtain ⟨j, d, he, e⟩ := mem_expiringJobs_iff_expiring.mp hk
    obtain ⟨hj, hd⟩ := entry_eq_some.mp he
    refine .inr ⟨j, d, he, e, ?_⟩
    simp [hk, hj, hd, e.requested, e.waiting, e.possible]
  case neg => simp [hk]

theorem jobs_expireWaitingConnectJobs_eq_none {now : Instant} :
    (s.expireWaitingConnectJobs now).jobs.get k = none ↔ s.jobs.get k = none := by
  simp [expireWaitingConnectJobs, jobs_expireJobs]

theorem fires_expireWaitingConnectJobs (s : State) (now : Instant) :
    (s.expireWaitingConnectJobs now).fires = s.fires := by
  unfold expireWaitingConnectJobs
  generalize s.expiringJobs now = ids
  induction ids generalizing s
  case nil => rfl
  case cons id ids ih => rw [List.foldl_cons, ih]; rfl

theorem attempts_expireWaitingConnectJobs (s : State) (now : Instant) :
    (s.expireWaitingConnectJobs now).attempts = s.attempts := by
  unfold expireWaitingConnectJobs
  generalize s.expiringJobs now = ids
  induction ids generalizing s
  case nil => rfl
  case cons id ids ih => rw [List.foldl_cons, ih]; rfl

end Expiry

end Connect.State
