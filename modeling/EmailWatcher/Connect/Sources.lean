import EmailWatcher.Connect.Retry

-- What becomes of jobs and fires when the mail that they come from is gone.
namespace Connect

open Transaction State

variable {s s' s₁ s₂ : State} {m k : String} {j : Job} {d : Dispatch} {f f' : Fire}

-- What the deletion of some jobs makes of a fire: it is linked to one of them at most.
def Fire.unlinkFrom (l : List Job) (f : Fire) : Fire :=
  match l.find? (f.linkedTo ·.jobId) with
  | some j => f.unlink j
  | none   => f

namespace Fire

theorem linked_unlink (old : Job) (f : Fire) : (f.unlink old).state.linked = false := by
  unfold unlink
  split <;> rfl

theorem linkedTo_unlink (old : Job) (f : Fire) (k : String) : (f.unlink old).linkedTo k = false := by
  simp [linkedTo, linked_unlink]

theorem unlinkFrom_of_not_linked {l : List Job} (h : ∀ j ∈ l, f.linkedTo j.jobId = false) :
    f.unlinkFrom l = f := by
  have hn : l.find? (f.linkedTo ·.jobId) = none := List.find?_eq_none.mpr <| by simpa using h
  simp [unlinkFrom, hn]

theorem unlinkFrom_cons {l : List Job} :
    f.unlinkFrom (j :: l) = (if f.linkedTo j.jobId then f.unlink j else f).unlinkFrom l := by
  by_cases hl : f.linkedTo j.jobId
  case pos =>
    have hn : (f.unlink j).unlinkFrom l = f.unlink j :=
      unlinkFrom_of_not_linked fun i _ => linkedTo_unlink j f i.jobId
    rw [if_pos hl, hn]
    simp [unlinkFrom, hl]
  case neg => simp [hl, unlinkFrom]

theorem unlinkFrom_of_linked {l : List Job} (hj : j ∈ l) (hl : f.linkedTo j.jobId)
    (huniq : ∀ i ∈ l, i.jobId = j.jobId → i = j) : f.unlinkFrom l = f.unlink j := by
  cases hi : l.find? (f.linkedTo ·.jobId)
  case none =>
    have hn := List.find?_eq_none.mp hi j hj
    simp [hl] at hn
  case some i =>
    have hli := List.find?_some hi
    simp only [linkedTo, Bool.and_eq_true, decide_eq_true_eq] at hl hli
    have hij : i.jobId = j.jobId := Option.some.inj (hli.left.symm.trans hl.left)
    simp [unlinkFrom, hi, huniq i (List.mem_of_find?_eq_some hi) hij]

theorem unlinkFrom_cases (f : Fire) (l : List Job) :
    f.unlinkFrom l = f ∨ ∃ j ∈ l, f.linkedTo j.jobId ∧ f.unlinkFrom l = f.unlink j := by
  cases hl : l.find? (f.linkedTo ·.jobId)
  case none => exact .inl <| by simp [unlinkFrom, hl]
  case some j =>
    have hj := List.find?_some hl
    refine .inr ⟨j, List.mem_of_find?_eq_some hl, hj, ?_⟩
    simp [unlinkFrom, hl]

end Fire

namespace State

-- The given jobs are gone.
structure Discards (l : List Job) (s s' : State) : Prop where
  row           : ∀ k, s'.row k = if k ∈ l.map (·.jobId) then (none, none) else s.row k
  fires         : ∀ id, s'.fires.get id = (s.fires.get id).map (·.unlinkFrom l)
  attempts      : s'.attempts = s.attempts
  confirmations : s'.confirmations = s.confirmations

namespace Discards

variable {l : List Job}

theorem of_foldlM (h : l.foldlM deleteJob s = .ok s') : Discards l s s' := by
  induction l generalizing s
  case nil =>
    cases pure_eq_ok.mp h
    refine ⟨fun _ => rfl, fun id => ?_, rfl, rfl⟩
    cases hf : s'.fires.get id <;> rfl
  case cons j l ih =>
    simp only [List.foldlM_cons, bind_eq_ok] at h
    obtain ⟨s₁, h₁, h⟩ := h
    have hl := ih h
    refine ⟨fun k => ?_, fun id => ?_, ?_, ?_⟩
    · rw [hl.row, row_deleteJob h₁]
      by_cases hk : k = j.jobId <;> simp [hk]
    all_goals obtain ⟨_, rfl⟩ := deleteJob_eq_ok.mp h₁
    · rw [hl.fires]
      simp only [Table.get_update, Option.map_map]
      congr 1
      funext f
      simp only [Function.comp_apply, Fire.unlinkFrom_cons]
    · exact hl.attempts
    · exact hl.confirmations

theorem jobs (h : Discards l s s') (k : String) :
    s'.jobs.get k = if k ∈ l.map (·.jobId) then none else s.jobs.get k := by
  have hr := congrArg Prod.fst (h.row k)
  split <;> simpa [State.row, *] using hr

theorem dispatches (h : Discards l s s') (k : String) :
    s'.dispatches.get k = if k ∈ l.map (·.jobId) then none else s.dispatches.get k := by
  have hr := congrArg Prod.snd (h.row k)
  split <;> simpa [State.row, *] using hr

end Discards

-- The identifiers of the jobs that a condition selects.
theorem mem_selected {p : Job → Bool} :
    k ∈ (s.jobs.rows.filter p).map (·.jobId) ↔ (s.jobs.get k).any p := by
  simp only [List.mem_map, List.mem_filter, Table.mem_rows]
  constructor
  case mp =>
    rintro ⟨j, ⟨hj, hp⟩, rfl⟩
    have hg : s.jobs.get j.jobId = some j := Table.get_of_mem hj
    simp [hg, hp]
  case mpr =>
    intro h
    cases hj : s.jobs.get k
    case none => simp [hj] at h
    case some j => exact ⟨j, ⟨Table.mem_of_get hj, by simpa [hj] using h⟩, jobId_of_get hj⟩

def loseSource (d : Dispatch) : Dispatch :=
  { d with sourceAvailable := false }

theorem jobId_loseSource (d : Dispatch) : (loseSource d).jobId = d.jobId :=
  rfl

-- The jobs of the message that do not survive it.
def invalidated (s : State) (m : String) : List Job :=
  s.jobs.rows.filter (s.invalidatedJob m)

theorem mem_invalidated : k ∈ (s.invalidated m).map (·.jobId) ↔
    (s.jobs.get k).any (s.invalidatedJob m) :=
  mem_selected

-- What the loss of a message leaves: some jobs are deleted, and the others are marked.
structure Invalidates (m : String) (s s' : State) : Prop where
  jobs          : ∀ k, s'.jobs.get k = (s.jobs.get k).filter (! s.invalidatedJob m ·)
  dispatches    : ∀ k, s'.dispatches.get k =
    if (s.jobs.get k).any (s.invalidatedJob m) then none
    else if (s.jobs.get k).any (·.messageId = m) then (s.dispatches.get k).map loseSource
    else s.dispatches.get k
  fires         : ∀ id, s'.fires.get id = (s.fires.get id).map (·.unlinkFrom (s.invalidated m))
  attempts      : s'.attempts = s.attempts
  confirmations : s'.confirmations = s.confirmations

theorem invalidateConnectSource_eq_ok (h : s.invalidateConnectSource m = .ok s') :
    Invalidates m s s' := by
  simp only [invalidateConnectSource, bind_eq_ok, pure_eq_ok] at h
  obtain ⟨s₁, h₁, rfl⟩ := h
  have hd : Discards (s.invalidated m) s s₁ := .of_foldlM h₁
  have hj : ∀ k, s₁.jobs.get k = (s.jobs.get k).filter (! s.invalidatedJob m ·) := by
    intro k
    rw [hd.jobs]
    simp only [mem_invalidated]
    cases hk : s.jobs.get k
    case none => simp
    case some j => cases hp : s.invalidatedJob m j <;> simp [hp, Option.filter]
  refine ⟨hj, fun k => ?_, hd.fires, hd.attempts, hd.confirmations⟩
  simp only [Table.get_update]
  rw [hd.dispatches]
  simp only [mem_invalidated]
  split
  case isTrue => rfl
  case isFalse hn =>
    cases hk : s.dispatches.get k
    case none => simp
    case some d =>
      obtain rfl : d.jobId = k := dispatch_jobId_of_get hk
      have hsame : s₁.jobs.get d.jobId = s.jobs.get d.jobId := by
        rw [hd.jobs, if_neg (mem_invalidated.not.mpr hn)]
      rw [Option.map_some, hsame]
      split <;> rfl

section Binding

variable {t : Attempt} {id : String}

-- The job that an attempt is for.
def jobOf (t : Attempt) : String :=
  t.jobId.getD t.dispatchRequestId

-- There is nothing left to bind for the message.
structure SourceBound (m : String) (s : State) : Prop where
  attempts : ∀ t ∈ s.attempts, t.jobId = none → (s.fires.get t.fireId).any (unsubmitted m) →
    s.providerAdmitted t.dispatchRequestId = false
  fires    : ∀ f ∈ s.fires, unsubmitted m f → f.jobId = none →
    ∀ t, s.currentAttempt f = some t → t.jobId = none

theorem SourceBound.bind_eq (h : SourceBound m s) : s.bindAutomationSource m = s := by
  have ha : s.bindAdmittedAttempts m = s := by
    unfold bindAdmittedAttempts
    rw [Table.update_of_forall_not _ fun t ht => ?_]
    by_cases hn : t.jobId = none
    case neg => simp [hn]
    case pos =>
      cases hu : (s.fires.get t.fireId).any (unsubmitted m)
      case false => simp
      case true  => simp [h.attempts t ht hn hu]
  have hf : s.submitBoundFires m = s := by
    unfold submitBoundFires
    rw [Table.update_of_forall_not _ fun f hf => ?_]
    cases hu : unsubmitted m f
    case false => simp
    case true =>
      by_cases hn : f.jobId = none
      case neg => simp [hn]
      case pos =>
        cases ht : s.currentAttempt f
        case none => simp
        case some t => simp [h.fires f hf hu hn t ht]
  rw [bindAutomationSource, ha, hf]

-- What a fire has become by the binding.
theorem fires_bindAutomationSource (h : (s.bindAutomationSource m).fires.get id = some f') :
    ∃ f, s.fires.get id = some f ∧
      (f' = f ∧ (unsubmitted m f → f.jobId = none →
          ∀ t, (s.bindAutomationSource m).currentAttempt f = some t → t.jobId = none) ∨
        unsubmitted m f ∧ f'.state = .submitted) := by
  simp only [bindAutomationSource, submitBoundFires, Table.get_update, Option.map_eq_some_iff] at h
  obtain ⟨f, hf, h⟩ := h
  refine ⟨f, hf, ?_⟩
  split at h
  case isTrue hp =>
    simp only [Bool.and_eq_true] at hp
    exact .inr ⟨hp.left.left, h ▸ rfl⟩
  case isFalse hp =>
    refine .inl ⟨h.symm, fun hu hn t ht => ?_⟩
    have ht : (s.bindAdmittedAttempts m).currentAttempt f = some t := ht
    simpa [hu, hn, ht] using hp

theorem SourceBound.bind (s : State) (m : String) : SourceBound m (s.bindAutomationSource m) where
  attempts := by
    intro t ht hn hu
    have ht : t ∈ (s.bindAdmittedAttempts m).attempts := ht
    simp only [bindAdmittedAttempts, Table.mem_update] at ht
    obtain ⟨t₀, _, heq⟩ := ht
    split at heq
    case isTrue =>
      subst heq
      cases hn
    case isFalse hp =>
      subst heq
      cases hf' : (s.bindAutomationSource m).fires.get t₀.fireId
      case none => simp [hf'] at hu
      case some f' =>
        obtain ⟨f, hf, ⟨rfl, _⟩ | ⟨_, hs⟩⟩ := fires_bindAutomationSource hf'
        case inr => simp [hf', unsubmitted, hs] at hu
        case inl =>
          rw [hf', Option.any_some] at hu
          have hp : s.providerAdmitted t₀.dispatchRequestId = false := by
            simpa [hn, hf, hu] using hp
          exact hp
  fires := by
    intro f' hf' hu hn t ht
    obtain ⟨f, hf, ⟨rfl, h⟩ | ⟨_, hs⟩⟩ := fires_bindAutomationSource (Table.get_of_mem hf')
    case inl => exact h hu hn t ht
    case inr => simp [unsubmitted, hs] at hu

-- A fire whose job may be known to a provider is submitted with it.
theorem fires_bind_of_admitted (hf : s.fires.get id = some f) (hu : unsubmitted m f)
    (hn : f.jobId = none) (ht : s.currentAttempt f = some t) (hp : s.providerAdmitted (jobOf t)) :
    (s.bindAutomationSource m).fires.get id = some
      { f.advance .submitted "source_removed_after_provider_admission" with
        jobId := some (jobOf t) } := by
  obtain ⟨t', ht', hj⟩ : ∃ t', (s.bindAdmittedAttempts m).currentAttempt f = some t' ∧
      t'.jobId = some (jobOf t) := by
    simp only [currentAttempt, bindAdmittedAttempts, Table.get_update]
    rw [show s.attempts.get _ = some t from ht, Option.map_some]
    refine ⟨_, rfl, ?_⟩
    cases hj : t.jobId
    case some k => simp [jobOf, hj]
    case none =>
      have hid : t.fireId = id := by
        rw [show t.fireId = f.fireId from congrArg Prod.fst (Table.key_of_get ht)]
        exact Table.key_of_get hf
      have hp : s.providerAdmitted t.dispatchRequestId := by simpa [jobOf, hj] using hp
      simp [jobOf, hj, hid, hf, hu, hp]
  simp only [bindAutomationSource, submitBoundFires, Table.get_update]
  rw [show (s.bindAdmittedAttempts m).fires.get id = some f from hf, Option.map_some]
  simp [hu, hn, ht', hj]

end Binding

section Invalidation

theorem unsubmitted_unlink : unsubmitted m (f.unlink j) = false := by
  have h := Fire.linked_unlink j f
  have hp : (f.unlink j).state ≠ .pendingDispatch := by
    unfold Fire.unlink
    split <;> simp [Fire.advance]
  cases hs : (f.unlink j).state <;> simp_all [unsubmitted, FireState.linked]

theorem unsubmitted_unlinkFrom {l : List Job} (h : unsubmitted m (f.unlinkFrom l)) :
    f.unlinkFrom l = f := by
  obtain h' | ⟨j, _, _, h'⟩ := f.unlinkFrom_cases l
  case inl => exact h'
  case inr => simp [h', unsubmitted_unlink] at h

namespace Invalidates

variable {id : String} {d' : Dispatch}

theorem entry (h : Invalidates m s s') (he : s'.entry k = some (j, d')) :
    ∃ d, s.entry k = some (j, d) ∧ s.invalidatedJob m j = false ∧
      d' = if j.messageId = m then loseSource d else d := by
  obtain ⟨hj, hd⟩ := entry_eq_some.mp he
  rw [h.jobs, Option.filter_eq_some_iff] at hj
  obtain ⟨hj, hn⟩ := hj
  have hn : s.invalidatedJob m j = false := by simpa using hn
  rw [h.dispatches, hj] at hd
  simp only [Option.any_some, hn, Bool.false_eq_true, if_false, decide_eq_true_eq] at hd
  split at hd
  case isTrue hm =>
    obtain ⟨d, hd₀, rfl⟩ := Option.map_eq_some_iff.mp hd
    exact ⟨d, entry_eq_some.mpr ⟨hj, hd₀⟩, hn, by simp [hm]⟩
  case isFalse hm => exact ⟨d', entry_eq_some.mpr ⟨hj, hd⟩, hn, by simp [hm]⟩

theorem entry_of_kept (h : Invalidates m s s') (he : s.entry k = some (j, d))
    (hn : s.invalidatedJob m j = false) :
    s'.entry k = some (j, if j.messageId = m then loseSource d else d) := by
  obtain ⟨hj, hd⟩ := entry_eq_some.mp he
  refine entry_eq_some.mpr ⟨by simp [h.jobs, hj, hn], ?_⟩
  rw [h.dispatches, hj, hd]
  simp only [Option.any_some, hn, Bool.false_eq_true, if_false, decide_eq_true_eq, Option.map_some]
  split <;> rfl

theorem providerAdmitted (h : Invalidates m s s') (hp : s'.providerAdmitted k) :
    s.providerAdmitted k := by
  cases he' : s'.entry k
  case none => simp [State.providerAdmitted, he'] at hp
  case some e =>
    obtain ⟨d, he, _, hd⟩ := h.entry he'
    simp only [State.providerAdmitted, he', he, Option.any_some, hd] at hp ⊢
    split at hp <;> exact hp

theorem sourceBound (h : Invalidates m s s') (hb : SourceBound m s) : SourceBound m s' where
  attempts := by
    intro t ht hn hu
    rw [h.attempts] at ht
    rw [h.fires] at hu
    cases hf : s.fires.get t.fireId
    case none => simp [hf] at hu
    case some f =>
      rw [hf, Option.map_some, Option.any_some] at hu
      have hu : (s.fires.get t.fireId).any (unsubmitted m) := by
        rw [hf, Option.any_some, ← unsubmitted_unlinkFrom hu]
        exact hu
      have hp := hb.attempts t ht hn hu
      cases hp' : s'.providerAdmitted t.dispatchRequestId
      case false => rfl
      case true  => simp [h.providerAdmitted hp'] at hp
  fires := by
    intro f' hf' hu hn t ht
    have hg := Table.get_of_mem hf'
    rw [h.fires] at hg
    obtain ⟨f, hf, rfl⟩ := Option.map_eq_some_iff.mp hg
    have he := unsubmitted_unlinkFrom hu
    rw [he] at hu hn ht
    rw [currentAttempt, h.attempts] at ht
    exact hb.fires f (Table.mem_of_get hf) hu hn t ht

-- A fire stays linked to a job that is kept.
theorem linked (h : Invalidates m s s') (hj : s.jobs.get k = some j)
    (hn : s.invalidatedJob m j = false) (hf : s.fires.get id = some f) (hl : f.linkedTo k) :
    s'.fires.get id = some f := by
  rw [h.fires, hf, Option.map_some]
  obtain he | ⟨i, hi, hli, _⟩ := f.unlinkFrom_cases (s.invalidated m)
  case inl => rw [he]
  case inr =>
    simp only [Fire.linkedTo, Bool.and_eq_true, decide_eq_true_eq] at hl hli
    have hik : i.jobId = k := Option.some.inj (hli.left.symm.trans hl.left)
    simp only [invalidated, List.mem_filter, Table.mem_rows] at hi
    have hij : s.jobs.get i.jobId = some i := Table.get_of_mem hi.left
    rw [hik] at hij
    cases hij.symm.trans hj
    simp [hn] at hi

end Invalidates

end Invalidation

section Removal

-- A settled job that a paused fire waits for, and that was requested by fires which go with the
-- message. Whether it looks like a job that was started interactively depends on who looks first.
def detached (s : State) (m : String) (j : Job) : Bool :=
  j.messageId = m && j.protocolVersion = .v2 && j.status.settled &&
  j.capabilityId ≠ "certificate.extract" &&
  s.fires.rows.any (fun f => f.jobId = some j.jobId && f.state = .entitlementPaused) &&
  !(s.dispatches.get j.jobId).any (·.interactiveAuthorizedAt.isSome) &&
  s.attempts.rows.any (·.dispatchRequestId = j.jobId) &&
  s.attempts.rows.all fun t =>
    t.dispatchRequestId ≠ j.jobId || (s.fires.get t.fireId).any (removedWithMessage m)

theorem not_removed_of_linked (hl : f.state.linked) (hj : f.jobId ≠ none) :
    removedWithMessage m f = false := by
  cases hs : f.state <;> simp_all [removedWithMessage, FireState.linked]

-- The fires that are linked to a job do not go with the message.
theorem any_removePendingFires {q : Fire → Bool}
    (h : ∀ f, q f → f.state.linked ∧ f.jobId ≠ none) :
    (s.removePendingFires m).fires.rows.any q = s.fires.rows.any q := by
  have hq : ∀ f, (!removedWithMessage m f && q f) = q f := by
    intro f
    cases hf : q f
    case false => simp
    case true  => simp [not_removed_of_linked (h f hf).left (h f hf).right]
  simp only [removePendingFires, Table.delete, List.any_filter, hq]

theorem any_attempts_removePendingFires :
    (s.removePendingFires m).attempts.rows.any (·.dispatchRequestId = k) =
      s.attempts.rows.any fun t => t.dispatchRequestId = k &&
        !(s.fires.get t.fireId).any (removedWithMessage m) := by
  simp only [removePendingFires, Table.delete, List.any_filter, Bool.and_comm]

theorem invalidatedJob_removePendingFires (hn : s.detached m j = false) :
    (s.removePendingFires m).invalidatedJob m j = s.invalidatedJob m j := by
  have hpaused : (s.removePendingFires m).fires.rows.any
      (fun f => f.jobId = some j.jobId && f.state = .entitlementPaused) =
      s.fires.rows.any (fun f => f.jobId = some j.jobId && f.state = .entitlementPaused) := by
    refine any_removePendingFires fun f hf => ?_
    simp only [Bool.and_eq_true, decide_eq_true_eq] at hf
    simp [hf, FireState.linked]
  have hlinked : (s.removePendingFires m).fires.rows.any (·.linkedTo j.jobId) =
      s.fires.rows.any (·.linkedTo j.jobId) := by
    refine any_removePendingFires fun f hf => ?_
    simp only [Fire.linkedTo, Bool.and_eq_true, decide_eq_true_eq] at hf
    simp [hf]
  have hall : (s.attempts.rows.all fun t => t.dispatchRequestId ≠ j.jobId ||
      (s.fires.get t.fireId).any (removedWithMessage m)) =
      !(s.removePendingFires m).attempts.rows.any (·.dispatchRequestId = j.jobId) := by
    rw [any_attempts_removePendingFires, List.not_any_eq_all_not]
    simp
  have hany : (s.removePendingFires m).attempts.rows.any (·.dispatchRequestId = j.jobId) →
      s.attempts.rows.any (·.dispatchRequestId = j.jobId) := by
    rw [any_attempts_removePendingFires]
    simp only [List.any_eq_true, Bool.and_eq_true]
    rintro ⟨t, ht, hk, _⟩
    exact ⟨t, ht, hk⟩
  have hpl : s.fires.rows.any (fun f => f.jobId = some j.jobId && f.state = .entitlementPaused) →
      s.fires.rows.any (·.linkedTo j.jobId) := by
    simp only [List.any_eq_true, Bool.and_eq_true, decide_eq_true_eq]
    rintro ⟨f, hf, hj, hs⟩
    exact ⟨f, hf, by simp [Fire.linkedTo, hj, hs, FireState.linked]⟩
  unfold detached at hn
  rw [hall] at hn
  unfold invalidatedJob
  rw [hpaused, hlinked, show (s.removePendingFires m).dispatches = s.dispatches from rfl]
  clear hpaused hlinked hall
  revert hn hany hpl
  -- What is left is a matter of truth values.
  generalize (s.removePendingFires m).attempts.rows.any (·.dispatchRequestId = j.jobId) = a'
  generalize s.attempts.rows.any (·.dispatchRequestId = j.jobId) = a
  generalize s.fires.rows.any (fun f => f.jobId = some j.jobId && f.state = .entitlementPaused) = p
  generalize s.fires.rows.any (·.linkedTo j.jobId) = l
  generalize (s.dispatches.get j.jobId).any (·.interactiveAuthorizedAt.isSome) = i
  cases a <;> cases a' <;> cases p <;> cases l <;> cases i <;> simp
  cases j.protocolVersion <;> by_cases hm : j.messageId = m <;>
    cases hs : j.status.settled <;> simp_all

theorem removed_unlink (f : Fire) :
    removedWithMessage m (if f.linkedTo k then f.unlink j else f) = removedWithMessage m f := by
  split
  case isFalse => rfl
  case isTrue hl =>
    simp only [Fire.linkedTo, Bool.and_eq_true, decide_eq_true_eq] at hl
    rw [not_removed_of_linked hl.right (by simp [hl.left])]
    unfold Fire.unlink
    split <;> simp [removedWithMessage, Fire.advance]

theorem deleteJob_removePendingFires (s : State) (m : String) (old : Job) :
    (s.removePendingFires m).deleteJob old = (·.removePendingFires m) <$> s.deleteJob old := by
  have hcheck : (∀ f ∈ (s.removePendingFires m).fires.rows,
      f.linkedTo old.jobId → (f.unlink old).reason ≠ some "") ↔
      ∀ f ∈ s.fires.rows, f.linkedTo old.jobId → (f.unlink old).reason ≠ some "" := by
    simp only [Table.mem_rows, removePendingFires, Table.mem_delete]
    refine ⟨fun h f hf hl => h f ⟨hf, ?_⟩ hl, fun h f hf hl => h f hf.left hl⟩
    simp only [Fire.linkedTo, Bool.and_eq_true, decide_eq_true_eq] at hl
    exact not_removed_of_linked hl.right (by simp [hl.left])
  have hremoved : ∀ id, ((s.fires.update (·.linkedTo old.jobId) (·.unlink old)
      (Fire.fireId_unlink old)).get id).any (removedWithMessage m) =
      (s.fires.get id).any (removedWithMessage m) := by
    intro id
    rw [Table.get_update, Option.any_map]
    congr 1
    funext f
    exact removed_unlink f
  unfold deleteJob
  simp only [hcheck, map_bind, map_pure]
  congr 1
  funext _
  congr 1
  ext1
  case jobs         => rfl
  case dispatches   => rfl
  case certificates => rfl
  case fires => exact Table.update_delete_comm (Fire.fireId_unlink old) removed_unlink
  all_goals
    simp only [removePendingFires]
    congr 1
    funext r
    exact (hremoved _).symm

-- The one thing that the deletion of a message does besides the deferred invalidation.
theorem deleteMessage_eq_map
    (hn : ∀ j ∈ s.jobs, (s.bindAutomationSource m).detached m j = false) :
    s.deleteMessage m = (·.removePendingFires m) <$> s.markSourcesUnavailable [m] := by
  have hinv : ((s.bindAutomationSource m).removePendingFires m).invalidated m =
      (s.bindAutomationSource m).invalidated m := by
    refine List.filter_congr fun j hj => ?_
    exact invalidatedJob_removePendingFires (hn j hj)
  have hfold := foldlM_commute (l := (s.bindAutomationSource m).invalidated m) (f := deleteJob)
    (fun s j _ => deleteJob_removePendingFires s m j) (s.bindAutomationSource m)
  simp only [deleteMessage, markSourcesUnavailable, List.foldlM_cons, List.foldlM_nil, bind_pure,
    invalidateConnectSource, deleteJobs]
  simp only [invalidated] at hinv hfold
  rw [hinv, hfold]
  simp only [bind_map_left, map_bind, map_pure]
  rfl

-- A fire that a job is kept for is still there.
theorem Invalidates.any_fires (h : Invalidates m s s') (hj : s.jobs.get j.jobId = some j)
    (hn : s.invalidatedJob m j = false) {q : Fire → Bool} (hq : ∀ f, q f → f.linkedTo j.jobId)
    (hany : s.fires.rows.any q) : (s'.removePendingFires m).fires.rows.any q := by
  have hlinked : ∀ f, q f → f.state.linked ∧ f.jobId ≠ none := by
    intro f hf
    have hl := hq f hf
    simp only [Fire.linkedTo, Bool.and_eq_true, decide_eq_true_eq] at hl
    simp [hl]
  rw [any_removePendingFires hlinked]
  obtain ⟨f, hf, hqf⟩ := List.any_eq_true.mp hany
  have hf' := h.linked hj hn (Table.get_of_mem hf) (hq f hqf)
  exact List.any_eq_true.mpr ⟨f, Table.mem_of_get hf', hqf⟩

theorem Invalidates.not_invalidated (h : Invalidates m s s') (hj : s'.jobs.get j.jobId = some j) :
    (s'.removePendingFires m).invalidatedJob m j = false := by
  rw [h.jobs, Option.filter_eq_some_iff] at hj
  obtain ⟨hj, hn⟩ := hj
  have hn : s.invalidatedJob m j = false := by simpa using hn
  by_cases hm : j.messageId = m
  case neg => simp [invalidatedJob, hm]
  case pos =>
    have hd : ∀ q : Dispatch → Bool, (∀ d, q (loseSource d) = q d) →
        (s'.dispatches.get j.jobId).any q = (s.dispatches.get j.jobId).any q := by
      intro q hq
      rw [h.dispatches, hj]
      simp only [Option.any_some, hn, Bool.false_eq_true, if_false, hm, decide_true, if_true,
        Option.any_map]
      congr 1
      funext d
      exact hq d
    have hp := h.any_fires hj hn (q := fun f => f.jobId = some j.jobId && f.state = .entitlementPaused)
      fun f hf => by
        simp only [Bool.and_eq_true, decide_eq_true_eq] at hf
        simp [Fire.linkedTo, hf, FireState.linked]
    have hl := h.any_fires hj hn (q := (·.linkedTo j.jobId)) fun f hf => hf
    have ha : (s'.removePendingFires m).attempts.rows.any (·.dispatchRequestId = j.jobId) →
        s.attempts.rows.any (·.dispatchRequestId = j.jobId) := by
      rw [any_attempts_removePendingFires, h.attempts]
      simp only [List.any_eq_true, Bool.and_eq_true]
      rintro ⟨t, ht, hk, _⟩
      exact ⟨t, ht, hk⟩
    have hi := hd (·.interactiveAuthorizedAt.isSome) fun _ => rfl
    have hw := hd (fun d => d.state = .waiting && !d.submissionPossible) fun _ => rfl
    unfold invalidatedJob at hn ⊢
    rw [show (s'.removePendingFires m).dispatches = s'.dispatches from rfl, hi, hw]
    clear hi hw hd h
    -- Every reason to keep the job is still there.
    grind

-- Nothing is left to do for a message whose sources are marked.
theorem Invalidates.invalidate_eq (h : Invalidates m s s') :
    (s'.removePendingFires m).invalidateConnectSource m = .ok (s'.removePendingFires m) := by
  have hnone : s'.jobs.rows.filter ((s'.removePendingFires m).invalidatedJob m) = [] := by
    refine List.filter_eq_nil_iff.mpr fun j hj => ?_
    simp [h.not_invalidated (Table.get_of_mem hj)]
  have hmarked : s'.dispatches.update (fun d => (s'.jobs.get d.jobId).any (·.messageId = m))
      loseSource jobId_loseSource = s'.dispatches := by
    refine Table.update_of_forall_eq (f := loseSource) jobId_loseSource fun d hd hm => ?_
    have hd : s'.dispatches.get d.jobId = some d := Table.get_of_mem hd
    cases hj : s'.jobs.get d.jobId
    case none => simp [hj] at hm
    case some j =>
      obtain ⟨d₀, _, _, hd₀⟩ := h.entry (entry_eq_some.mpr ⟨hj, hd⟩)
      rw [if_pos (by simpa [hj] using hm)] at hd₀
      rw [hd₀]
      rfl
  simp only [invalidateConnectSource, deleteJobs]
  rw [show (s'.removePendingFires m).jobs = s'.jobs from rfl, hnone]
  simp only [List.foldlM_nil, pure_bind]
  refine congrArg Except.ok ?_
  ext1
  case dispatches => exact hmarked
  all_goals rfl

end Removal

section Lost

theorem markSourcesUnavailable_eq_ok (h : s.markSourcesUnavailable [m] = .ok s') :
    Invalidates m (s.bindAutomationSource m) s' := by
  simp only [markSourcesUnavailable, List.foldlM_cons, List.foldlM_nil, bind_pure] at h
  exact invalidateConnectSource_eq_ok h

theorem deleteMessage_eq_ok (h : s.deleteMessage m = .ok s') :
    Invalidates m ((s.bindAutomationSource m).removePendingFires m) s' :=
  invalidateConnectSource_eq_ok h

-- To lose the source twice is to lose it once.
theorem markSourcesUnavailable_bind_deleteMessage
    (hn : ∀ j ∈ s.jobs, (s.bindAutomationSource m).detached m j = false) :
    (s.markSourcesUnavailable [m] >>= (·.deleteMessage m)) = s.deleteMessage m := by
  rw [deleteMessage_eq_map hn]
  cases h : s.markSourcesUnavailable [m]
  case error => rfl
  case ok s₁ =>
    have hi := markSourcesUnavailable_eq_ok h
    have hb : SourceBound m s₁ := hi.sourceBound (.bind s m)
    change s₁.deleteMessage m = .ok (s₁.removePendingFires m)
    rw [deleteMessage, hb.bind_eq]
    exact hi.invalidate_eq

-- The provider has not been told about the job.
def unsent (d : Dispatch) : Bool :=
  d.state = .waiting && !d.submissionPossible

-- What the loss of a message means for the jobs and fires that come from it.
structure SourceLost (m : String) (s s' : State) : Prop where
  remaining : ∀ k j, s'.jobs.get k = some j → j.messageId = m →
    j.protocolVersion = .v2 ∧ ∃ d, s'.dispatches.get k = some d ∧ unsent d = false ∧
      d.sourceAvailable = false
  active    : ∀ k j d, s.entry k = some (j, d) → j.messageId = m → j.status.active →
    unsent d = false → s'.entry k = some (j, { d with sourceAvailable := false })
  admitted  : ∀ id f t j d, s.fires.get id = some f → f.messageId = m →
    f.state = .pendingDispatch ∨ f.state = .entitlementPaused → f.jobId = none →
    s.currentAttempt f = some t → s.entry (jobOf t) = some (j, d) → unsent d = false →
    ∃ f', s'.fires.get id = some f' ∧ f'.jobId = some (jobOf t) ∧
      ((s'.jobs.get (jobOf t) = some j ∧ f'.state = .submitted) ∨
      (s'.jobs.get (jobOf t) = none ∧ j.status = .completed ∧ f'.state = .completed) ∨
      (s'.jobs.get (jobOf t) = none ∧ j.status = .failed ∧ f'.state = .failed))

theorem invalidatedJob_of_active (hv : j.protocolVersion = .v2) (ha : j.status.active)
    (hd : s.dispatches.get j.jobId = some d) (hw : unsent d = false) :
    s.invalidatedJob m j = false := by
  have hs : j.status.settled = false := by simpa [JobStatus.active] using ha
  simp only [unsent] at hw
  simp [invalidatedJob, hv, hs, hd, hw]

theorem not_invalidatedJob (hm : j.messageId = m) (h : s.invalidatedJob m j = false) :
    j.protocolVersion = .v2 ∧ (s.dispatches.get j.jobId).any unsent = false := by
  simp only [invalidatedJob, hm, decide_true, Bool.true_and, Bool.or_eq_false_iff] at h
  refine ⟨?_, h.right⟩
  cases hv : j.protocolVersion
  case v1 => simp [hv] at h
  case v2 => rfl

-- What becomes of a fire that has been submitted for a job that a provider may know of.
theorem Invalidates.fire {id : String} (h : Invalidates m s s') (he : s.entry k = some (j, d))
    (hv : j.protocolVersion = .v2) (hw : unsent d = false) (hf : s.fires.get id = some f)
    (hk : f.jobId = some k) (hs : f.state = .submitted) :
    ∃ f', s'.fires.get id = some f' ∧ f'.jobId = some k ∧
      ((s'.jobs.get k = some j ∧ f'.state = .submitted) ∨
      (s'.jobs.get k = none ∧ j.status = .completed ∧ f'.state = .completed) ∨
      (s'.jobs.get k = none ∧ j.status = .failed ∧ f'.state = .failed)) := by
  obtain ⟨hj, hd⟩ := entry_eq_some.mp he
  obtain rfl : j.jobId = k := jobId_of_get hj
  have hl : f.linkedTo j.jobId := by simp [Fire.linkedTo, hk, hs, FireState.linked]
  cases hi : s.invalidatedJob m j
  case false => exact ⟨f, h.linked hj hi hf hl, hk, .inl ⟨by simp [h.jobs, hj, hi], hs⟩⟩
  case true =>
    have hset : j.status.settled := by
      simp only [unsent] at hw
      simp only [invalidatedJob, hv, hd, Option.any_some, hw] at hi
      simp_all
    have hnone : s'.jobs.get j.jobId = none := by simp [h.jobs, hj, hi]
    have hmem : j ∈ s.invalidated m := List.mem_filter.mpr ⟨Table.mem_of_get hj, hi⟩
    have hun : f.unlinkFrom (s.invalidated m) = f.unlink j := by
      refine Fire.unlinkFrom_of_linked hmem hl fun i hi' hij => ?_
      exact Table.eq_of_key_eq (List.mem_filter.mp hi').left (Table.mem_of_get hj) hij
    refine ⟨f.unlink j, by rw [h.fires, hf, Option.map_some, hun], ?_⟩
    cases hst : j.status <;> simp_all [JobStatus.settled, Fire.unlink, Fire.advance]

-- The part that does not depend on when the fires are removed.
theorem SourceLost.of_invalidates (h : Invalidates m s₁ s') (hc : Consistent s)
    (hauth : ∀ k j d, s.entry k = some (j, d) → d.capabilityAuthorityKnown)
    (hj : s₁.jobs = s.jobs) (hd : s₁.dispatches = s.dispatches)
    (hfires : ∀ id f, (s.bindAutomationSource m).fires.get id = some f → f.state = .submitted →
      s₁.fires.get id = some f) : SourceLost m s s' where
  remaining := by
    intro k j hjk hm
    rw [h.jobs, hj, Option.filter_eq_some_iff] at hjk
    obtain ⟨hjk, hn⟩ := hjk
    obtain rfl : j.jobId = k := jobId_of_get hjk
    obtain ⟨hv, hw⟩ := not_invalidatedJob hm (by simpa using hn)
    obtain ⟨d, he⟩ := hc.dispatched hjk hv
    obtain ⟨_, hdk⟩ := entry_eq_some.mp he
    have he₁ : s₁.entry j.jobId = some (j, d) := by
      rw [entry_eq_some, hj, hd]
      exact ⟨hjk, hdk⟩
    have he' := h.entry_of_kept he₁ (by simpa using hn)
    rw [if_pos hm] at he'
    refine ⟨hv, _, (entry_eq_some.mp he').right, ?_, rfl⟩
    rw [hd, hdk] at hw
    exact hw
  active := by
    intro k j d he hm ha hw
    obtain ⟨hjk, hdk⟩ := entry_eq_some.mp he
    obtain rfl : j.jobId = k := jobId_of_get hjk
    have he₁ : s₁.entry j.jobId = some (j, d) := by
      rw [entry_eq_some, hj, hd]
      exact ⟨hjk, hdk⟩
    have hn := invalidatedJob_of_active (s := s₁) (m := m) (hc.valid he).v2 ha (hd ▸ hdk) hw
    have he' := h.entry_of_kept he₁ hn
    rwa [if_pos hm] at he'
  admitted := by
    intro id f t j d hf hm hs hn ht he hw
    have hv := (hc.valid he).v2
    have hu : unsubmitted m f := by
      obtain hs | hs := hs <;> simp [unsubmitted, hm, hs]
    have hp : s.providerAdmitted (jobOf t) := by
      simp only [providerAdmitted, he, Option.any_some, hv, hauth _ _ _ he, decide_true,
        Bool.true_and]
      simpa only [unsent, Bool.not_eq_true'] using hw
    have hb := fires_bind_of_admitted hf hu hn ht hp
    obtain ⟨hjk, hdk⟩ := entry_eq_some.mp he
    have he₁ : s₁.entry (jobOf t) = some (j, d) := by
      rw [entry_eq_some, hj, hd]
      exact ⟨hjk, hdk⟩
    exact h.fire he₁ hv hw (hfires id _ hb rfl) rfl rfl

-- The fires that had not been admitted anywhere are gone without a trace.
structure FiresRemoved (m : String) (s s' : State) : Prop where
  remaining : ∀ id f, s'.fires.get id = some f → f.messageId = m →
    f.state ≠ .pendingDispatch ∧ f.state ≠ .awaitingConfirmation ∧
    (f.state = .entitlementPaused → f.jobId ≠ none)
  removed   : ∀ id, (s.fires.get id).isSome → s'.fires.get id = none →
    (∀ n, s'.attempts.get (id, n) = none) ∧ s'.confirmations.get id = none

theorem FiresRemoved.of_deleteMessage (h : s.deleteMessage m = .ok s') : FiresRemoved m s s' where
  remaining := by
    intro id f' hf' hm
    have hi := deleteMessage_eq_ok h
    rw [hi.fires] at hf'
    obtain ⟨f, hf, hf'⟩ := Option.map_eq_some_iff.mp hf'
    simp only [removePendingFires, Table.get_delete, Option.filter_eq_some_iff,
      Bool.not_eq_true'] at hf
    obtain ⟨_, hr⟩ := hf
    obtain he | ⟨j, _, _, he⟩ := f.unlinkFrom_cases
      (((s.bindAutomationSource m).removePendingFires m).invalidated m)
    case inl =>
      rw [he] at hf'
      subst hf'
      simp only [removedWithMessage, hm, decide_true, Bool.true_and] at hr
      simp_all
    case inr =>
      rw [he] at hf'
      subst hf'
      unfold Fire.unlink
      split <;> simp [Fire.advance]
  removed := by
    intro id hs hn
    have hi := deleteMessage_eq_ok h
    rw [hi.fires, Option.map_eq_none_iff] at hn
    have hr : ((s.bindAutomationSource m).fires.get id).any (removedWithMessage m) := by
      cases hf : (s.bindAutomationSource m).fires.get id
      case none =>
        simp only [bindAutomationSource, submitBoundFires, Table.get_update,
          Option.map_eq_none_iff] at hf
        have hf : s.fires.get id = none := hf
        simp [hf] at hs
      case some f => simpa [removePendingFires, hf, Option.filter] using hn
    refine ⟨fun n => ?_, ?_⟩
    · rw [hi.attempts]
      simp only [removePendingFires, Table.get_delete]
      cases ht : (s.bindAutomationSource m).attempts.get (id, n)
      case none => rfl
      case some t =>
        have hid : t.fireId = id := congrArg Prod.fst (Table.key_of_get ht)
        simp [hid, hr]
    · rw [hi.confirmations]
      simp only [removePendingFires, Table.get_delete]
      cases hc : (s.bindAutomationSource m).confirmations.get id
      case none => rfl
      case some c =>
        have hid : c.fireId = id := Table.key_of_get hc
        simp [hid, hr]

end Lost

end State

section Runs

variable [Codec]

-- The store knows the capability of every job that it has created itself.
theorem run_authority (as : List Action) :
    ∀ k j d, (machine.run ∅ as).entry k = some (j, d) → d.capabilityAuthorityKnown := by
  suffices h : Consistent (machine.run ∅ as) ∧ ∀ k j d,
      (machine.run ∅ as).entry k = some (j, d) → d.capabilityAuthorityKnown from h.right
  refine Machine.invariant (m := machine)
    (I := fun s => Consistent s ∧ ∀ k j d, s.entry k = some (j, d) → d.capabilityAuthorityKnown)
    ?_ ⟨.empty, fun k j d he => by cases he⟩ as
  rintro s a s' ⟨hc, hi⟩ h
  have hE := step_effect h
  refine ⟨hE.consistent hc, fun k j' d' he' => ?_⟩
  have hkeeps : ∀ {s₁ : State}, Preserves (Fails s a) s s₁ → ∀ k j d, s₁.entry k = some (j, d) →
      d.capabilityAuthorityKnown := by
    intro s₁ hp k j d he
    obtain ⟨j₀, d₀, he₀, hm⟩ := hp.entry hc he
    exact hm.authority ▸ hi k j₀ d₀ he₀
  cases hE
  case keeps hp => exact hkeeps hp k j' d' he'
  case creates hn hp hcr =>
    obtain ⟨_, rfl⟩ | he := hcr.entry (hp.consistent hc) he'
    case inl => rfl
    case inr => exact hkeeps hp k j' d' he
  case claims hp _ heq =>
    subst heq
    obtain ⟨_, d, he, rfl⟩ | ⟨_, he⟩ := entry_claim he'
    case inl => exact hkeeps hp k j' d he
    case inr => exact hkeeps hp k j' d' he

-- The loss of a message is the same whether it is found out before the message is deleted or not.
theorem sources_lost (as : List Action) (m : String) :
    let s := machine.run ∅ as
    (∀ s', s.markSourcesUnavailable [m] = .ok s' → SourceLost m s s') ∧
    (∀ s', s.deleteMessage m = .ok s' → SourceLost m s s' ∧ FiresRemoved m s s') ∧
    ((∀ j ∈ s.jobs, (s.bindAutomationSource m).detached m j = false) →
      (s.markSourcesUnavailable [m] >>= (·.deleteMessage m)) = s.deleteMessage m) := by
  intro s
  have hc : Consistent s := run_consistent as
  have hauth := run_authority as
  refine ⟨fun s' h => ?_, fun s' h => ⟨?_, .of_deleteMessage h⟩,
    markSourcesUnavailable_bind_deleteMessage⟩
  · exact .of_invalidates (markSourcesUnavailable_eq_ok h) hc hauth rfl rfl fun _ _ hf _ => hf
  · refine .of_invalidates (deleteMessage_eq_ok h) hc hauth rfl rfl fun id f hf hs => ?_
    simp only [removePendingFires, Table.get_delete]
    rw [hf]
    simp [removedWithMessage, hs]

end Runs

namespace Sample

def summary : JobRequest :=
  { job with capabilityId := "document.summarize", capabilityVersion := "1.0" }

-- The job is at its provider, but the fire has not been told.
def unbound : List Action := [
  .createAutomationFire fire,
  .createConnectJob summary true true,
  .claimConnectLaneHead lane none (fun _ => true) Instant.second
]

-- The job fails before the fire hears of it.
def refused : List Action :=
  unbound ++ [.transitionConnectJob (fails busy) true .withheld]

def joinerId : String := "5b0f9a52-58d4-4a5c-9d0e-3f5f0f6f1a06"

-- Another rule for the same attachment.
def joiner : FireRequest := { fire with
  fireId            := joinerId
  ruleId            := "5b0f9a52-58d4-4a5c-9d0e-3f5f0f6f1a07"
  dispatchRequestId := "5b0f9a52-58d4-4a5c-9d0e-3f5f0f6f1a08"
}

def pauses : FireTransition where
  fireId           := joinerId
  expectedState    := .submitted
  expectedVersion  := 2
  nextState        := .entitlementPaused
  reason           := some "entitlement_inactive"
  jobId            := none
  preparedIdentity := none
  confirmed        := none
  now              := Instant.second

-- One fire is at its second attempt, the other one is paused with the job of the first.
def severed : List Action := unbound ++ [
  .createAutomationFire joiner,
  .transitionAutomationFire submits,
  .transitionAutomationFire { submits with fireId := joinerId },
  .transitionAutomationFire pauses,
  .transitionConnectJob (fails busy) true .withheld,
  retries
]

end Sample

open Sample in
theorem sources_lost_unbound :
    (∃ s', (machine.run ∅ unbound).markSourcesUnavailable ["message"] = .ok s' ∧
      SourceLost "message" (machine.run ∅ unbound) s') ∧
    (∃ s', (machine.run ∅ unbound).deleteMessage "message" = .ok s' ∧
      FiresRemoved "message" (machine.run ∅ unbound) s') ∧
    ((machine.run ∅ unbound).markSourcesUnavailable ["message"] >>= (·.deleteMessage "message")) =
      (machine.run ∅ unbound).deleteMessage "message" := by
  obtain ⟨hmarked, hdeleted, htwice⟩ := sources_lost unbound "message"
  have hm : ((machine.run ∅ unbound).markSourcesUnavailable ["message"]).isOk := by decide +kernel
  have hd : ((machine.run ∅ unbound).deleteMessage "message").isOk := by decide +kernel
  refine ⟨?_, ?_, htwice (by decide +kernel)⟩
  · cases h : (machine.run ∅ unbound).markSourcesUnavailable ["message"]
    case error => simp [h, Except.isOk, Except.toBool] at hm
    case ok s' => exact ⟨s', rfl, hmarked s' h⟩
  · cases h : (machine.run ∅ unbound).deleteMessage "message"
    case error => simp [h, Except.isOk, Except.toBool] at hd
    case ok s' => exact ⟨s', rfl, (hdeleted s' h).right⟩

-- A fire takes over the outcome of a job that is settled. And a job that has lost the fires that
-- requested it passes for an interactive one, which is not deleted.
open Sample in
theorem not_sources_lost_severed :
    (¬∀ (as : List Action) (m : String) (s' : State) (id : String) (f : Fire) (t : Attempt)
        (j : Job) (d : Dispatch),
      (machine.run ∅ as).markSourcesUnavailable [m] = .ok s' →
      (machine.run ∅ as).fires.get id = some f → f.messageId = m →
      f.state = .pendingDispatch ∨ f.state = .entitlementPaused → f.jobId = none →
      (machine.run ∅ as).currentAttempt f = some t →
      (machine.run ∅ as).entry (jobOf t) = some (j, d) → unsent d = false →
      (s'.fires.get id).map (fun f => (f.state, f.jobId)) = some (.submitted, some (jobOf t))) ∧
    ¬∀ (as : List Action) (m : String),
      ((machine.run ∅ as).markSourcesUnavailable [m] >>= (·.deleteMessage m)) =
        (machine.run ∅ as).deleteMessage m := by
  refine ⟨fun h => ?_, fun h => ?_⟩
  case refine_1 =>
    have hstate : ((machine.run ∅ refused).markSourcesUnavailable ["message"]).toOption.bind
        (fun s' => (s'.fires.get fireId).map (·.state)) = some .failed := by decide +kernel
    obtain ⟨f, hf, hs⟩ : ∃ f, (machine.run ∅ refused).fires.get fireId = some f ∧
        (f.currentAttemptNo, f.messageId, f.state, f.jobId) =
          (1, "message", .pendingDispatch, none) :=
      Option.map_eq_some_iff.mp (by decide +kernel)
    simp only [Prod.mk.injEq] at hs
    obtain ⟨hno, hm, hs, hn⟩ := hs
    obtain ⟨t, ht, htj⟩ : ∃ t, (machine.run ∅ refused).attempts.get (fireId, 1) = some t ∧
        jobOf t = jobId :=
      Option.map_eq_some_iff.mp (by decide +kernel)
    obtain ⟨⟨j, d⟩, he, hw⟩ : ∃ e, (machine.run ∅ refused).entry jobId = some e ∧
        unsent e.snd = false :=
      Option.map_eq_some_iff.mp (by decide +kernel)
    have hcur : (machine.run ∅ refused).currentAttempt f = some t := by
      rw [currentAttempt, show f.fireId = fireId from Table.key_of_get hf, hno]
      exact ht
    cases hr : (machine.run ∅ refused).markSourcesUnavailable ["message"]
    case error => simp [hr, Except.toOption] at hstate
    case ok s' =>
      have hsub := h refused "message" s' fireId f t j d hr hf hm (.inl hs) hn hcur
        (by rw [htj]; exact he) hw
      rw [hr] at hstate
      have hstate : (s'.fires.get fireId).map (·.state) = some .failed := hstate
      obtain ⟨f', hf', hpair⟩ := Option.map_eq_some_iff.mp hsub
      simp only [Prod.mk.injEq] at hpair
      simp [hf', hpair.left] at hstate
  case refine_2 =>
    have heq := congrArg (fun r => r.toOption.bind fun s' => (s'.jobs.get jobId).map (·.status))
      (h severed "message")
    revert heq
    decide +kernel

end Connect
