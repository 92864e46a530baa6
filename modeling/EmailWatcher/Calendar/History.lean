import EmailWatcher.Calendar.Runs

-- The events of a run are a faithful log of it.
namespace Calendar

open Session

variable {s s' s₁ s₂ s₃ : Store} {u : Unit}

structure FaithfulLogs (s : Store) : Prop where
  logs  : ∀ id r, s.runs.get id = some r → Journal.Faithful (s.log id) r.state r.stateVersion
  owned : ∀ e ∈ s.events, (s.runs.get e.runId).isSome

namespace Store

theorem log_eq_nil_of_get (h : FaithfulLogs s) {id : String} (hn : s.runs.get id = none) :
    s.log id = [] := by
  rw [log, List.filter_eq_nil_iff]
  intro e he hid
  have hsome := h.owned e he
  rw [show e.runId = id by simpa using hid, hn] at hsome
  cases hsome

-- One more event at the end of the table.
theorem log_append {e : Event} (h : s'.events.rows = s.events.rows ++ [e]) (id : String) :
    s'.log id = s.log id ++ if e.runId = id then [e] else [] := by
  simp only [log, h, List.filter_append, List.filter_cons, List.filter_nil, decide_eq_true_eq]

end Store

-- Statements that touch neither the runs nor their events.
structure SameHistory (s s' : Store) : Prop where
  runs   : s'.runs = s.runs
  events : s'.events = s.events

namespace SameHistory

theorem refl (s : Store) : SameHistory s s :=
  ⟨rfl, rfl⟩

theorem trans (h₁ : SameHistory s₁ s₂) (h₂ : SameHistory s₂ s₃) : SameHistory s₁ s₃ :=
  ⟨h₂.runs.trans h₁.runs, h₂.events.trans h₁.events⟩

theorem faithful (h : SameHistory s s') (hf : FaithfulLogs s) : FaithfulLogs s' where
  logs id r hr := by
    rw [h.runs] at hr
    rw [Store.log, h.events]
    exact hf.logs id r hr
  owned e he := by
    rw [h.runs]
    exact hf.owned e (h.events ▸ he)

theorem updateExtraction {p : Extraction → Bool} {g : Extraction → Extraction} {lost : RunError} {hg}
    (h : (updateExtraction p g lost hg).Returns s u s') : SameHistory s s' := by
  simp only [Calendar.updateExtraction, returns_bind, returns_query, returns_require,
    returns_write] at h
  obtain ⟨_, _, ⟨_, rfl⟩, _, _, ⟨_, rfl⟩, _, _, rfl, _, rfl⟩ := h
  exact ⟨rfl, rfl⟩

theorem updateWrite {p : CalendarWrite → Bool} {g : CalendarWrite → CalendarWrite} {lost : RunError}
    {hg} (h : (updateWrite p g lost hg).Returns s u s') : SameHistory s s' := by
  simp only [Calendar.updateWrite, returns_bind, returns_query, returns_require, returns_write] at h
  obtain ⟨_, _, ⟨_, rfl⟩, _, _, ⟨_, rfl⟩, _, _, rfl, _, rfl⟩ := h
  exact ⟨rfl, rfl⟩

theorem insertExtraction {x : Extraction} (h : (insertExtraction x).Returns s u s') :
    SameHistory s s' := by
  simp only [Calendar.insertExtraction, returns_bind, returns_query, returns_require, returns_find,
    returns_write] at h
  obtain ⟨_, _, ⟨rfl, rfl⟩, _, _, ⟨_, rfl⟩, _, _, ⟨_, rfl⟩, _, _, ⟨_, rfl⟩, rfl⟩ := h
  exact ⟨rfl, rfl⟩

theorem insertProposal {p : Proposal} (h : (insertProposal p).Returns s u s') :
    SameHistory s s' := by
  simp only [Calendar.insertProposal, returns_bind, returns_query, returns_require, returns_find,
    returns_write] at h
  obtain ⟨_, _, ⟨rfl, rfl⟩, _, _, ⟨_, rfl⟩, _, _, ⟨_, rfl⟩, _, _, ⟨_, rfl⟩, rfl⟩ := h
  exact ⟨rfl, rfl⟩

theorem insertWrite {w : CalendarWrite} (h : (insertWrite w).Returns s u s') : SameHistory s s' := by
  simp only [Calendar.insertWrite, returns_bind, returns_query, returns_require, returns_find,
    returns_write] at h
  obtain ⟨_, _, ⟨rfl, rfl⟩, _, _, ⟨_, rfl⟩, _, _, ⟨_, rfl⟩, _, _, ⟨_, rfl⟩, rfl⟩ := h
  exact ⟨rfl, rfl⟩

theorem deletePayloads {id : String} (h : (deletePayloads id).Returns s u s') : SameHistory s s' := by
  simp only [Calendar.deletePayloads, returns_bind, returns_write] at h
  obtain ⟨_, _, rfl, rfl⟩ := h
  exact ⟨rfl, rfl⟩

theorem cancelAuthorizedWrite {row : Run} {cause : Cause}
    (h : (cancelAuthorizedWrite row cause).Returns s u s') : SameHistory s s' := by
  unfold Calendar.cancelAuthorizedWrite at h
  split at h
  case isTrue => exact updateWrite h
  case isFalse =>
    simp only [returns_pure] at h
    exact h.right ▸ refl s

end SameHistory

theorem updateRun_returns {p : Run → Bool} {g : Run → Run} {lost : RunError} {hg}
    (h : (updateRun p g lost hg).Returns s u s') :
    (∃ r, s.runs.rows.filter p = [r]) ∧ s' = { s with runs := s.runs.update p g hg } := by
  simp only [updateRun, returns_bind, returns_query, returns_require, returns_write] at h
  obtain ⟨_, _, ⟨rfl, rfl⟩, _, _, ⟨_, rfl⟩, _, _, rfl, hl, rfl⟩ := h
  exact ⟨List.length_eq_one_iff.mp hl, rfl⟩

theorem appendAutomationEvent_returns {e : Event}
    (h : (appendAutomationEvent e).Returns s u s') :
    s'.runs = s.runs ∧ s'.events.rows = s.events.rows ++ [e] := by
  simp only [appendAutomationEvent, returns_bind, returns_query, returns_require, returns_find,
    returns_write] at h
  obtain ⟨_, _, ⟨rfl, rfl⟩, _, _, ⟨_, rfl⟩, _, _, ⟨_, rfl⟩, _, _, ⟨hi, rfl⟩, rfl⟩ := h
  exact ⟨rfl, (Table.insert_eq_some.mp hi).right⟩

namespace FaithfulLogs

-- An update of a run and the event that reports it.
theorem advance {p : Run → Bool} {g : Run → Run} {lost : RunError} {hg} {row : Run}
    {x : EventFields} {u' : Unit} (h : FaithfulLogs s) (previous : RunState)
    (hu : (updateRun p g lost hg).Returns s u s₁)
    (ha : (appendAutomationEvent (row.event x)).Returns s₁ u' s')
    (hp : ∀ r, p r → r.runId = row.runId ∧ r.state = previous ∧ r.stateVersion + 1 = x.nextVersion)
    (hx : x.previousState = some previous)
    (hn : ∀ r, (g r).state = x.nextState ∧ (g r).stateVersion = x.nextVersion) :
    FaithfulLogs s' := by
  obtain ⟨⟨r, hr⟩, rfl⟩ := updateRun_returns hu
  obtain ⟨hruns, hevents⟩ := appendAutomationEvent_returns ha
  obtain ⟨hmem, hpr⟩ : r ∈ s.runs ∧ p r := List.mem_filter.mp (hr ▸ List.mem_singleton_self r)
  obtain ⟨hid, hstate, hversion⟩ := hp r hpr
  have hget : s.runs.get row.runId = some r := hid ▸ Table.get_of_mem hmem
  refine ⟨fun id r' hr' => ?_, fun e he => ?_⟩
  · rw [hruns, Table.get_update, Option.map_eq_some_iff] at hr'
    obtain ⟨r₀, hr₀, rfl⟩ := hr'
    have hlog := h.logs id r₀ hr₀
    have happ : s'.log id = s.log id ++ if row.runId = id then [row.event x] else [] :=
      Store.log_append hevents id
    rw [happ]
    by_cases hrow : row.runId = id
    case pos =>
      obtain rfl : r = r₀ := Option.some.inj (hget.symm.trans (hrow ▸ hr₀))
      rw [if_pos hrow, if_pos hpr, (hn r).left, (hn r).right, ← hversion]
      refine hlog.append ?_ hversion.symm (hstate ▸ hx)
      exact show x.nextVersion - 1 = _ by omega
    case neg =>
      have hnp : ¬p r₀ := by
        intro hp₀
        have hid₀ : r₀.runId = id := Table.key_of_get hr₀
        exact hrow ((hp r₀ hp₀).left.symm.trans hid₀)
      rw [if_neg hrow, if_neg hnp, List.append_nil]
      exact hlog
  · rw [hruns, Table.get_update, Option.isSome_map]
    rw [← Table.mem_rows, hevents, List.mem_append, List.mem_singleton] at he
    obtain he | rfl := he
    case inl => exact h.owned e he
    case inr => exact show (s.runs.get row.runId).isSome by rw [hget]; rfl

theorem empty : FaithfulLogs ∅ where
  logs id r h  := by cases h
  owned e he   := absurd he (Table.not_mem_empty e)

theorem admitSchedulingAutomation {r : Admission} (h : FaithfulLogs s)
    (hs : (admitSchedulingAutomation r).Returns s u s') : FaithfulLogs s' := by
  simp only [Calendar.admitSchedulingAutomation, returns_bind, returns_query] at hs
  obtain ⟨_, _, ⟨rfl, rfl⟩, hs⟩ := hs
  split at hs
  case isTrue =>
    simp only [returns_pure] at hs
    exact hs.right ▸ h
  case isFalse =>
    simp only [returns_bind, insertRun, returns_query, returns_require, returns_find,
      returns_write] at hs
    obtain ⟨_, s₁, ⟨_, _, ⟨rfl, rfl⟩, _, _, ⟨_, rfl⟩, runs, _, ⟨hi, rfl⟩, rfl⟩, ha⟩ := hs
    generalize he : r.run.event _ = e at ha
    have hid : e.runId = r.runId := he ▸ rfl
    obtain ⟨hruns, hevents⟩ := appendAutomationEvent_returns ha
    have hlog : ∀ id, s'.log id = s.log id ++ if e.runId = id then [e] else [] :=
      Store.log_append hevents
    have hnone : s.runs.get r.runId = none := (Table.insert_eq_some.mp hi).left
    refine ⟨fun id r' hr' => ?_, fun e' he' => ?_⟩
    · rw [hruns, Table.get_insert hi] at hr'
      rw [hlog, hid]
      split at hr'
      case isTrue hk =>
        obtain rfl : r.runId = id := hk
        cases Option.some.inj hr'
        rw [if_pos rfl, Store.log_eq_nil_of_get h hnone, List.nil_append, ← he]
        exact .single rfl rfl rfl
      case isFalse hk =>
        rw [if_neg (show ¬r.runId = id from hk), List.append_nil]
        exact h.logs id r' hr'
    · rw [hruns, Table.get_insert hi]
      split
      case isTrue => rfl
      case isFalse hk =>
        rw [← Table.mem_rows, hevents, List.mem_append, List.mem_singleton] at he'
        obtain he' | rfl := he'
        case inl => exact h.owned e' he'
        case inr => exact absurd hid.symm hk

-- A run goes together with all of its events.
theorem delete (h : FaithfulLogs s) (p : String → Bool)
    (hr : s'.runs = s.runs.delete (p ·.runId)) (he : s'.events = s.events.delete (p ·.runId)) :
    FaithfulLogs s' := by
  have hget : ∀ id, s'.runs.get id = if p id then none else s.runs.get id := by
    intro id
    rw [hr, Table.get_delete]
    cases hs : s.runs.get id
    case none => simp
    case some r =>
      obtain rfl : r.runId = id := Table.key_of_get hs
      cases hp : p r.runId <;> simp [hp]
  refine ⟨fun id r hs => ?_, fun e hs => ?_⟩
  · rw [hget] at hs
    split at hs
    case isTrue => cases hs
    case isFalse hp =>
      have hlog : s'.log id = s.log id := by
        rw [Store.log, he, Store.log, Table.delete, List.filter_filter]
        refine List.filter_congr fun e _ => ?_
        by_cases hid : e.runId = id <;> simp [hid, hp]
      rw [hlog]
      exact h.logs id r hs
  · rw [he, Table.mem_delete] at hs
    rw [hget, if_neg (by simp [hs.right])]
    exact h.owned e hs.left

theorem purgeExpiredAutomationTombstones {now : Instant} (h : FaithfulLogs s)
    (hs : (purgeExpiredAutomationTombstones now).Returns s u s') : FaithfulLogs s' := by
  simp only [Calendar.purgeExpiredAutomationTombstones, returns_bind, returns_query,
    returns_write] at hs
  obtain ⟨_, _, ⟨rfl, rfl⟩, _, _, rfl, rfl⟩ := hs
  exact h.delete (s.expired now) rfl rfl

theorem cancelAutomationSource {row : Run} {transactionId : Option String} {cause : Cause}
    {eventId : String} {updatedAt : Instant} {b : Bool} (h : FaithfulLogs s)
    (hs : (cancelAutomationSource row transactionId cause eventId updatedAt).Returns s b s') :
    FaithfulLogs s' := by
  simp only [Calendar.cancelAutomationSource, returns_bind] at hs
  obtain ⟨_, s₁, h₁, hs⟩ := hs
  have hf := (SameHistory.deletePayloads h₁).faithful h
  split at hs
  case isTrue =>
    simp only [returns_pure] at hs
    exact hs.right ▸ hf
  case isFalse =>
    simp only [returns_bind, returns_pure] at hs
    obtain ⟨_, s₂, h₂, _, s₃, h₃, _, s₄, h₄, _, rfl⟩ := hs
    have hf₂ := (SameHistory.cancelAuthorizedWrite h₂).faithful hf
    refine hf₂.advance row.state h₃ h₄ ?_ rfl fun _ => ⟨rfl, rfl⟩
    intro r hp
    simp only [Bool.and_eq_true, decide_eq_true_eq] at hp
    exact ⟨hp.left.left, hp.left.right, by rw [hp.right]⟩

theorem cancelRows {rows : List (Run × Option String)} {cause : Cause}
    {eventId : String → String} {updatedAt : Instant} (h : FaithfulLogs s)
    (hs : (rows.forM fun x => do
      let _ ← Calendar.cancelAutomationSource x.fst x.snd cause (eventId x.fst.runId) updatedAt
      : Statement Unit).Returns s u s') : FaithfulLogs s' := by
  refine forM_relation (R := fun s s' => FaithfulLogs s → FaithfulLogs s') (fun _ h => h)
    (fun _ _ _ h₁ h₂ h => h₂ (h₁ h)) ?_ hs h
  intro s₁ x _ _ s₂ hs hf
  simp only [returns_bind, returns_pure] at hs
  obtain ⟨_, s₃, hs, _, rfl⟩ := hs
  exact hf.cancelAutomationSource hs

theorem markAutomationSourcesUnavailable {chunks : List (List String)} {cause : Cause}
    {eventId : String → String} {updatedAt : Instant} (h : FaithfulLogs s)
    (hs : (markAutomationSourcesUnavailable chunks cause eventId updatedAt).Returns s u s') :
    FaithfulLogs s' := by
  refine forM_relation (R := fun s s' => FaithfulLogs s → FaithfulLogs s') (fun _ h => h)
    (fun _ _ _ h₁ h₂ h => h₂ (h₁ h)) ?_ hs h
  intro s₁ ids _ _ s₂ hs hf
  simp only [cancelChunk, returns_bind, returns_query] at hs
  obtain ⟨_, _, ⟨rfl, rfl⟩, hs⟩ := hs
  exact hf.cancelRows hs

theorem cancelUnfollowed {ids : List String} {eventId : String → String} {updatedAt : Instant}
    (h : FaithfulLogs s) (hs : (cancelUnfollowed ids eventId updatedAt).Returns s u s') :
    FaithfulLogs s' := by
  simp only [Calendar.cancelUnfollowed, returns_bind, returns_query] at hs
  obtain ⟨_, _, ⟨rfl, rfl⟩, hs⟩ := hs
  exact h.cancelRows hs

end FaithfulLogs

section Reads

variable {runId : String} {row row' : Run}

theorem availableRun_returns {available : Bool}
    (h : (availableRun runId available).Returns s row s') :
    s' = s ∧ s.runs.get runId = some row ∧ row.runId = runId := by
  simp only [availableRun, returns_bind, returns_query, returns_find, returns_require,
    returns_pure] at h
  obtain ⟨_, _, ⟨rfl, rfl⟩, _, _, ⟨hr, rfl⟩, _, _, ⟨_, rfl⟩, rfl, rfl⟩ := h
  exact ⟨rfl, hr, Table.key_of_get hr⟩

theorem readRun_returns {unreadable : String} (h : (readRun runId unreadable).Returns s row s') :
    s' = s := by
  simp only [readRun, returns_bind, returns_query, returns_find] at h
  obtain ⟨_, _, ⟨_, rfl⟩, _, rfl⟩ := h
  rfl

theorem cancelledCalendarAdmission_returns {version : Nat} {sha : Option String}
    {proposal : Option Nat} {o : Option Outcome}
    (h : (cancelledCalendarAdmission row version sha proposal).Returns s o s') : s' = s := by
  simp only [cancelledCalendarAdmission, returns_bind, returns_query] at h
  obtain ⟨_, _, ⟨rfl, rfl⟩, h⟩ := h
  split at h
  case h_1 => exact (returns_pure.mp h).right.symm
  case h_2 =>
    split at h
    case isTrue =>
      simp only [returns_bind, returns_find, returns_require, returns_pure] at h
      obtain ⟨_, _, ⟨_, rfl⟩, _, _, ⟨_, rfl⟩, _, rfl⟩ := h
      rfl
    case isFalse => exact (returns_pure.mp h).right.symm

end Reads

namespace FaithfulLogs

theorem reserveAttempt {r : Reservation} {row : Run} {n : Nat} {x : Extraction}
    (h : FaithfulLogs s) (hid : row.runId = r.runId)
    (hs : (reserveAttempt r row n).Returns s x s') : FaithfulLogs s' := by
  simp only [Calendar.reserveAttempt, returns_bind, returns_pure] at hs
  obtain ⟨_, s₁, h₁, _, s₂, h₂, _, s₃, h₃, _, rfl⟩ := hs
  have hf := (SameHistory.insertExtraction h₁).faithful h
  refine hf.advance row.state h₂ h₃ (fun x hp => ?_) rfl fun _ => ⟨rfl, rfl⟩
  simp only [Bool.and_eq_true, decide_eq_true_eq] at hp
  exact ⟨hp.left.left.trans hid.symm, hp.left.right, by rw [hp.right]⟩

theorem reserveAutomationExtraction {r : Reservation} {available followed : Bool} {x : Extraction}
    (h : FaithfulLogs s)
    (hs : (reserveAutomationExtraction r available followed).Returns s x s') : FaithfulLogs s' := by
  simp only [Calendar.reserveAutomationExtraction, Reservation.check, returns_bind, returns_require,
    returns_query] at hs
  obtain ⟨_, _, ⟨_, _, ⟨_, rfl⟩, _, rfl⟩, row, _, hrow, _, _, ⟨rfl, rfl⟩, _, _, ⟨_, rfl⟩, _, _,
    ⟨_, rfl⟩, _, _, ⟨_, rfl⟩, hs⟩ := hs
  obtain ⟨rfl, _, hid⟩ := availableRun_returns hrow
  split at hs
  case h_1 =>
    simp only [returns_bind, returns_require, returns_pure] at hs
    obtain ⟨_, _, ⟨_, rfl⟩, _, rfl⟩ := hs
    exact h
  case h_2 =>
    simp only [returns_bind, returns_require] at hs
    obtain ⟨_, _, ⟨_, rfl⟩, _, _, ⟨_, rfl⟩, _, _, ⟨_, rfl⟩, hs⟩ := hs
    exact h.reserveAttempt hid hs

section Codecs

variable [Codec]

theorem recordAutomationExtractionFailure {r : ExtractionFailure} {available : Bool} {row' : Run}
    (h : FaithfulLogs s)
    (hs : (recordAutomationExtractionFailure r available).Returns s row' s') : FaithfulLogs s' := by
  simp only [Calendar.recordAutomationExtractionFailure, ExtractionFailure.check, returns_bind,
    returns_require, returns_query, returns_find] at hs
  obtain ⟨_, _, ⟨_, _, ⟨_, rfl⟩, _, _, ⟨_, rfl⟩, _, rfl⟩, row, _, hrow, _, _, ⟨_, rfl⟩, _, _,
    ⟨_, rfl⟩, _, _, ⟨_, rfl⟩, _, s₁, h₁, _, s₂, h₂, _, s₃, h₃, h₄⟩ := hs
  obtain ⟨rfl, _, hid⟩ := availableRun_returns hrow
  have hf := (SameHistory.updateExtraction h₁).faithful h
  rw [readRun_returns h₄]
  refine hf.advance .extracting h₂ h₃ (fun x hp => ?_) rfl fun _ => ⟨rfl, rfl⟩
  simp only [Bool.and_eq_true, decide_eq_true_eq] at hp
  exact ⟨hp.left.left.left.trans hid.symm, hp.left.left.right, by rw [hp.left.right]⟩

theorem recordAutomationExtraction {r : ExtractionResult} {available : Bool} {row' : Run}
    (h : FaithfulLogs s) (hs : (recordAutomationExtraction r available).Returns s row' s') :
    FaithfulLogs s' := by
  simp only [Calendar.recordAutomationExtraction, ExtractionResult.check, returns_bind,
    returns_require, returns_query, returns_find] at hs
  obtain ⟨_, _, ⟨_, _, ⟨_, rfl⟩, _, _, ⟨_, rfl⟩, _, _, ⟨_, rfl⟩, _, rfl⟩, row, _, hrow, _, _,
    ⟨_, rfl⟩, _, _, ⟨_, rfl⟩, _, _, ⟨_, rfl⟩, _, s₁, h₁, _, s₂, h₂, _, s₃, h₃, h₄⟩ := hs
  obtain ⟨rfl, _, hid⟩ := availableRun_returns hrow
  have hf := (SameHistory.updateExtraction h₁).faithful h
  rw [readRun_returns h₄]
  refine hf.advance .extracting h₂ h₃ (fun x hp => ?_) rfl fun _ => ⟨rfl, rfl⟩
  simp only [Bool.and_eq_true, decide_eq_true_eq] at hp
  exact ⟨hp.left.left.left.trans hid.symm, hp.left.left.right, by rw [hp.left.right]⟩

theorem check_returns {r : ProposalRequest} {x : List String × Option Instant}
    (h : r.check.Returns s x s') : s' = s := by
  simp only [ProposalRequest.check, returns_bind, returns_require, returns_find] at h
  obtain ⟨_, _, ⟨_, rfl⟩, _, _, ⟨_, rfl⟩, _, _, ⟨_, rfl⟩, _, _, ⟨_, rfl⟩, _, _, ⟨_, rfl⟩, h⟩ := h
  split at h
  case isTrue =>
    simp only [returns_bind, returns_find, returns_pure] at h
    obtain ⟨_, _, ⟨_, rfl⟩, _, rfl⟩ := h
    rfl
  case isFalse => exact (returns_pure.mp h).right.symm

theorem recordAutomationProposal {r : ProposalRequest} {available : Bool} {row' : Run}
    (h : FaithfulLogs s) (hs : (recordAutomationProposal r available).Returns s row' s') :
    FaithfulLogs s' := by
  simp only [Calendar.recordAutomationProposal, returns_bind, returns_require, returns_query,
    returns_find] at hs
  obtain ⟨_, _, hc, row, _, hrow, _, _, ⟨_, rfl⟩, _, _, ⟨_, rfl⟩, _, _, ⟨_, rfl⟩, _, _, ⟨_, rfl⟩,
    _, s₁, h₁, _, s₂, h₂, _, s₃, h₃, h₄⟩ := hs
  obtain rfl := check_returns hc
  obtain ⟨rfl, _, hid⟩ := availableRun_returns hrow
  have hf := (SameHistory.insertProposal h₁).faithful h
  rw [readRun_returns h₄]
  refine hf.advance .proposing h₂ h₃ (fun x hp => ?_) rfl fun _ => ⟨rfl, rfl⟩
  simp only [Bool.and_eq_true, decide_eq_true_eq] at hp
  exact ⟨hp.left.left.trans hid.symm, hp.left.right, by rw [hp.right]⟩

end Codecs

end FaithfulLogs

namespace ProposalDecision

variable [Codec] {r : ProposalDecision} {row : Run} {p : Proposal} {existing : Option CalendarWrite}
  {v : Verdict} {b : Bool} {o : Outcome}

omit [Codec] in
theorem expired_same (h : r.expired.Returns s v s') : SameHistory s s' := by
  simp only [expired, returns_bind, returns_query, returns_find, returns_pure] at h
  obtain ⟨_, _, ⟨rfl, rfl⟩, _, _, ⟨_, rfl⟩, _, _, ⟨_, rfl⟩, _, rfl⟩ := h
  exact .refl _

omit [Codec] in
theorem deleteCancelledWrite_same (h : (r.deleteCancelledWrite existing).Returns s u s') :
    SameHistory s s' := by
  unfold deleteCancelledWrite at h
  split at h
  case h_1 => exact (returns_pure.mp h).right ▸ .refl s
  case h_2 =>
    simp only [returns_bind, returns_query, returns_write, returns_require] at h
    obtain ⟨_, _, ⟨_, rfl⟩, _, _, rfl, _, rfl⟩ := h
    exact ⟨rfl, rfl⟩

omit [Codec] in
theorem authorize_same {start stop timezone : String}
    (h : (r.authorize row p start stop timezone existing).Returns s v s') : SameHistory s s' := by
  simp only [authorize, returns_bind, returns_require, returns_pure] at h
  obtain ⟨_, _, ⟨_, rfl⟩, _, s₁, h₁, _, s₂, h₂, _, rfl⟩ := h
  exact (deleteCancelledWrite_same h₁).trans (.insertWrite h₂)

theorem verdict_same (h : (r.verdict row p existing).Returns s v s') : SameHistory s s' := by
  unfold verdict at h
  split at h
  case h_1 => exact (returns_pure.mp h).right ▸ .refl s
  case h_2 =>
    simp only [confirmed, returns_bind, returns_find] at h
    obtain ⟨_, _, ⟨_, rfl⟩, _, _, ⟨_, rfl⟩, _, _, ⟨_, rfl⟩, _, _, ⟨_, rfl⟩, _, _, ⟨_, rfl⟩, h⟩ := h
    split at h
    case isTrue  => exact expired_same h
    case isFalse => exact authorize_same h

omit [Codec] in
theorem repeated_returns (h : (r.repeated row existing).Returns s b s') : s' = s := by
  unfold repeated at h
  split at h
  case h_1 => exact (returns_pure.mp h).right.symm
  case h_2 => exact (returns_pure.mp h).right.symm
  case h_3 =>
    split at h
    all_goals
      simp only [returns_bind, returns_require, returns_pure] at h
      obtain ⟨_, _, ⟨_, rfl⟩, _, rfl⟩ := h
      rfl

omit [Codec] in
theorem replay_returns {o : Option Outcome} (h : (r.replay row).Returns s o s') : s' = s := by
  unfold replay at h
  split at h
  case h_1 => exact (returns_pure.mp h).right.symm
  case h_2 => exact cancelledCalendarAdmission_returns h

theorem decide_faithful (h : FaithfulLogs s) (hid : row.runId = r.runId)
    (hs : (r.decide row p existing).Returns s o s') : FaithfulLogs s' := by
  simp only [decide, returns_bind, returns_require, returns_pure] at hs
  obtain ⟨_, _, ⟨_, rfl⟩, v, s₁, h₁, _, s₂, h₂, _, s₃, h₃, _, s₄, h₄, _, rfl⟩ := hs
  have hf := (verdict_same h₁).faithful h
  rw [readRun_returns h₄]
  refine hf.advance .awaitingConfirmation h₂ h₃ (fun x hp => ?_) rfl fun _ => ⟨rfl, rfl⟩
  simp only [Bool.and_eq_true, decide_eq_true_eq] at hp
  obtain ⟨⟨⟨⟨hx, hstate⟩, hversion⟩, _⟩, _⟩ := hp
  exact ⟨hx.trans hid.symm, hstate, by rw [hversion]⟩

end ProposalDecision

namespace FaithfulLogs

theorem decideAutomationProposal [Codec] {r : ProposalDecision} {o : Outcome} (h : FaithfulLogs s)
    (hs : (decideAutomationProposal r).Returns s o s') : FaithfulLogs s' := by
  simp only [Calendar.decideAutomationProposal, ProposalDecision.check, returns_bind,
    returns_require, returns_query, returns_find] at hs
  obtain ⟨_, _, ⟨_, rfl⟩, _, _, ⟨rfl, rfl⟩, row, _, ⟨hrow, rfl⟩, _, s₁, h₁, hs⟩ := hs
  obtain rfl := ProposalDecision.replay_returns h₁
  split at hs
  case h_1 => exact (returns_pure.mp hs).right ▸ h
  case h_2 =>
    simp only [returns_bind, returns_find] at hs
    obtain ⟨p, _, ⟨_, rfl⟩, b, s₂, h₂, hs⟩ := hs
    obtain rfl := ProposalDecision.repeated_returns h₂
    split at hs
    case isTrue  => exact (returns_pure.mp hs).right ▸ h
    case isFalse => exact ProposalDecision.decide_faithful h (Table.key_of_get hrow) hs

section Writes

variable {r : Handoff} {row : Run} {w : CalendarWrite} {o : Outcome}

theorem handOff (h : FaithfulLogs s) (hid : row.runId = r.runId)
    (hs : (handOff r row w).Returns s o s') : FaithfulLogs s' := by
  simp only [Calendar.handOff, returns_bind, returns_pure] at hs
  obtain ⟨_, s₁, h₁, _, s₂, h₂, _, s₃, h₃, _, s₄, h₄, _, rfl⟩ := hs
  have hf := (SameHistory.updateWrite h₁).faithful h
  rw [readRun_returns h₄]
  refine hf.advance .writeAuthorized h₂ h₃ (fun x hp => ?_) rfl fun _ => ⟨rfl, rfl⟩
  simp only [Bool.and_eq_true, decide_eq_true_eq] at hp
  exact ⟨hp.left.left.trans hid.symm, hp.left.right, by rw [hp.right]⟩

theorem cancelHandoff (h : FaithfulLogs s) (hs : (cancelHandoff r row w).Returns s o s') :
    FaithfulLogs s' := by
  simp only [Calendar.cancelHandoff, returns_bind, returns_find] at hs
  obtain ⟨_, s₁, h₁, _, s₂, h₂, _, rfl⟩ := hs
  obtain rfl := cancelledCalendarAdmission_returns h₂
  exact h.cancelAutomationSource h₁

theorem beginAutomationCalendarWrite {sourceExists : Bool} (h : FaithfulLogs s)
    (hs : (beginAutomationCalendarWrite r sourceExists).Returns s o s') : FaithfulLogs s' := by
  simp only [Calendar.beginAutomationCalendarWrite, returns_bind, returns_require, returns_query,
    returns_find] at hs
  obtain ⟨_, _, ⟨_, rfl⟩, _, _, ⟨rfl, rfl⟩, row, _, ⟨hrow, rfl⟩, _, s₁, h₁, hs⟩ := hs
  obtain rfl := cancelledCalendarAdmission_returns h₁
  split at hs
  case h_1 => exact (returns_pure.mp hs).right ▸ h
  case h_2 =>
    simp only [returns_bind, returns_find, returns_require] at hs
    obtain ⟨w, _, ⟨_, rfl⟩, _, _, ⟨_, rfl⟩, _, _, ⟨_, rfl⟩, hs⟩ := hs
    split at hs
    case isTrue  => exact h.handOff (Table.key_of_get hrow) hs
    case isFalse => exact h.cancelHandoff hs

theorem storedFailure_returns {r : WriteTransition} {x : Option String}
    (h : r.storedFailure.Returns s x s') : s' = s := by
  unfold WriteTransition.storedFailure at h
  split at h
  case isTrue =>
    simp only [returns_bind, returns_require, returns_pure] at h
    obtain ⟨_, _, ⟨_, rfl⟩, _, rfl⟩ := h
    rfl
  case isFalse =>
    simp only [returns_bind, returns_require] at h
    obtain ⟨_, _, ⟨_, rfl⟩, h⟩ := h
    split at h
    case isTrue =>
      simp only [returns_bind, returns_require, returns_pure] at h
      obtain ⟨_, _, ⟨_, rfl⟩, _, rfl⟩ := h
      rfl
    case isFalse => exact (returns_pure.mp h).right.symm

theorem transitionAutomationCalendarWrite {r : WriteTransition} {row' : Run} (h : FaithfulLogs s)
    (hs : (transitionAutomationCalendarWrite r).Returns s row' s') : FaithfulLogs s' := by
  simp only [Calendar.transitionAutomationCalendarWrite, returns_bind, returns_require,
    returns_query, returns_find] at hs
  obtain ⟨_, _, ⟨rfl, rfl⟩, row, _, ⟨hrow, rfl⟩, w, _, ⟨_, rfl⟩, _, _, ⟨_, rfl⟩, _, s₀, h₀, _, s₁,
    h₁, _, s₂, h₂, _, s₃, h₃, h₄⟩ := hs
  obtain rfl := storedFailure_returns h₀
  have hid : row.runId = r.runId := Table.key_of_get hrow
  have hf := (SameHistory.updateWrite h₁).faithful h
  rw [readRun_returns h₄]
  refine hf.advance row.state h₂ h₃ (fun x hp => ?_) rfl fun _ => ⟨rfl, rfl⟩
  simp only [Bool.and_eq_true, decide_eq_true_eq] at hp
  exact ⟨hp.left.left.trans hid.symm, hp.left.right, by rw [hp.right]⟩

end Writes

theorem deleteLostExtractions_same {r : ReviewTransition}
    (h : (deleteLostExtractions r).Returns s u s') : SameHistory s s' := by
  unfold deleteLostExtractions at h
  split at h
  case isTrue =>
    obtain rfl := returns_write.mp h
    exact ⟨rfl, rfl⟩
  case isFalse => exact (returns_pure.mp h).right ▸ .refl s

theorem transitionAutomationToReview {r : ReviewTransition} {row' : Run} (h : FaithfulLogs s)
    (hs : (transitionAutomationToReview r).Returns s row' s') : FaithfulLogs s' := by
  simp only [Calendar.transitionAutomationToReview, returns_bind, returns_require, returns_query,
    returns_find] at hs
  obtain ⟨_, _, ⟨_, rfl⟩, _, _, ⟨rfl, rfl⟩, row, _, ⟨hrow, rfl⟩, _, _, ⟨_, rfl⟩, _, s₁, h₁, _, s₂,
    h₂, _, s₃, h₃, h₄⟩ := hs
  have hid : row.runId = r.runId := Table.key_of_get hrow
  have hf := (deleteLostExtractions_same h₁).faithful h
  rw [readRun_returns h₄]
  refine hf.advance row.state h₂ h₃ (fun x hp => ?_) rfl fun _ => ⟨rfl, rfl⟩
  simp only [Bool.and_eq_true, decide_eq_true_eq] at hp
  exact ⟨hp.left.left.trans hid.symm, hp.left.right, by rw [hp.right]⟩

theorem transact [Codec] (h : FaithfulLogs s) (a : Action) : FaithfulLogs (transact s a).snd := by
  cases hc : Calendar.transact s a with | mk result s' =>
  cases result
  case error e =>
    have hs : (Calendar.transact s a).snd = s := snd_commit_of_error (e := e) (by rw [← Calendar.transact, hc])
    rw [hc] at hs
    exact hs ▸ h
  case ok u =>
    have hs : a.statements.Returns s u s' := commit_eq_ok.mp hc
    cases a
    case admitSchedulingAutomation => exact h.admitSchedulingAutomation hs
    case markAutomationSourcesUnavailable => exact h.markAutomationSourcesUnavailable hs
    case cancelUnfollowed => exact h.cancelUnfollowed hs
    case purgeExpiredAutomationTombstones => exact h.purgeExpiredAutomationTombstones hs
    all_goals obtain ⟨_, hs⟩ := returns_discard.mp hs
    case reserveAutomationExtraction => exact h.reserveAutomationExtraction hs
    case recordAutomationExtractionFailure => exact h.recordAutomationExtractionFailure hs
    case recordAutomationExtraction => exact h.recordAutomationExtraction hs
    case recordAutomationProposal => exact h.recordAutomationProposal hs
    case decideAutomationProposal => exact h.decideAutomationProposal hs
    case beginAutomationCalendarWrite => exact h.beginAutomationCalendarWrite hs
    case transitionAutomationCalendarWrite => exact h.transitionAutomationCalendarWrite hs
    case transitionAutomationToReview => exact h.transitionAutomationToReview hs

end FaithfulLogs

-- The history of every run is a faithful log, and a transaction that raises changes nothing.
structure LinearHistory [Codec] (s : Store) : Prop where
  faithful : ∀ id r, s.runs.get id = some r →
    Journal.Faithful (s.log id) r.state r.stateVersion
  atomic   : ∀ a e, (transact s a).fst = .error e → (transact s a).snd = s

theorem run_linear_history [Codec] (as : List Action) : LinearHistory (run ∅ as) where
  faithful := by
    suffices h : FaithfulLogs (run ∅ as) from h.logs
    unfold run
    generalize hs : (∅ : Store) = s
    have h : FaithfulLogs s := hs ▸ .empty
    clear hs
    induction as generalizing s
    case nil          => exact h
    case cons a as ih => exact ih _ (h.transact a)
  atomic _ _ h := snd_commit_of_error h

end Calendar
