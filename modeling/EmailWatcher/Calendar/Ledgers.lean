import EmailWatcher.Calendar.History
import EmailWatcher.Library.Machine
import Mathlib.Logic.Relation

-- What a transaction may do to that which belongs to one run.
namespace Calendar

open Session

@[ext]
structure Ledger where
  run       : Option Run
  log       : List Event
  proposals : List Proposal
  write     : Option CalendarWrite

def Ledger.empty : Ledger where
  run       := none
  log       := []
  proposals := []
  write     := none

namespace Store

def proposalsOf (s : Store) (runId : String) : List Proposal :=
  s.proposals.rows.filter (·.runId = runId)

def ledger (s : Store) (runId : String) : Ledger where
  run       := s.runs.get runId
  log       := s.log runId
  proposals := s.proposalsOf runId
  write     := s.writes.get runId

end Store

section Generations

-- An event with which a proposal has been made, or given up for a review.
def Event.proposes (e : Event) : Bool :=
  e.previousState = some .proposing && e.nextState ∈ [.awaitingConfirmation, .manualReview]

def Ledger.generation (l : Ledger) (before : Option Nat) : Nat :=
  l.log.countP fun e => e.proposes && before.all (e.stateVersion < ·)

-- The latest version that a stored proposal or the stored write has.
def Ledger.latestVersion (l : Ledger) : Nat :=
  max ((l.proposals.map (·.proposalVersion)).foldl max 0) (l.write.elim 0 (·.proposalVersion))

theorem Store.calendarProposalGeneration_eq (s : Store) (id : String) (before : Option Nat) :
    s.calendarProposalGeneration id before = (s.ledger id).generation before := by
  rw [calendarProposalGeneration, Ledger.generation, ledger, log, List.countP_filter]
  refine congrFun (congrArg _ ?_) _
  funext e
  simp only [Event.proposes, Bool.and_assoc]
  rw [Bool.and_comm (decide (e.runId = id))]
  simp only [Bool.and_assoc]

theorem Store.latestProposalVersion_eq (s : Store) (id : String) :
    s.latestProposalVersion id = (s.ledger id).latestVersion :=
  rfl

end Generations

variable {s s' s₁ s₂ s₃ : Store} {u : Unit} {i : String} {l l' l₁ l₂ : Ledger}

-- `s'` is `s` with another ledger of the run `i`.
structure Replaced (i : String) (l : Ledger) (s s' : Store) : Prop where
  here      : s'.ledger i = l
  elsewhere : ∀ id, id ≠ i → s'.ledger id = s.ledger id

namespace Replaced

theorem trans (h₁ : Replaced i l₁ s₁ s₂) (h₂ : Replaced i l₂ s₂ s₃) : Replaced i l₂ s₁ s₃ where
  here           := h₂.here
  elsewhere id h := (h₂.elsewhere id h).trans (h₁.elsewhere id h)

theorem updateRun {p : Run → Bool} {g : Run → Run} {lost : RunError} {hg}
    (h : (updateRun p g lost hg).Returns s u s') (hp : ∀ r, p r → r.runId = i) :
    ∃ r, (s.ledger i).run = some r ∧ p r ∧ Replaced i { s.ledger i with run := some (g r) } s s' := by
  obtain ⟨⟨r, hr⟩, rfl⟩ := updateRun_returns h
  obtain ⟨hmem, hpr⟩ : r ∈ s.runs ∧ p r := List.mem_filter.mp (hr ▸ List.mem_singleton_self r)
  have hget : s.runs.get i = some r := hp r hpr ▸ Table.get_of_mem hmem
  refine ⟨r, hget, hpr, ?_, fun id hid => ?_⟩
  · refine Ledger.ext ?_ rfl rfl rfl
    simp [Store.ledger, Table.get_update, hget, hpr]
  · refine Ledger.ext ?_ rfl rfl rfl
    simp only [Store.ledger, Table.get_update]
    cases hr' : s.runs.get id
    case none => rfl
    case some r' =>
      have hnp : ¬p r' := by
        intro hp'
        have hid' : r'.runId = id := Table.key_of_get hr'
        exact hid (hid'.symm.trans (hp r' hp'))
      simp [hnp]

theorem updateWrite {p : CalendarWrite → Bool} {g : CalendarWrite → CalendarWrite}
    {lost : RunError} {hg} (h : (updateWrite p g lost hg).Returns s u s')
    (hp : ∀ w, p w → w.runId = i) :
    ∃ w, (s.ledger i).write = some w ∧ p w ∧
      Replaced i { s.ledger i with write := some (g w) } s s' := by
  simp only [Calendar.updateWrite, returns_bind, returns_query, returns_require, returns_write] at h
  obtain ⟨_, _, ⟨rfl, rfl⟩, _, _, ⟨_, rfl⟩, _, _, rfl, hl, rfl⟩ := h
  obtain ⟨w, hw⟩ := List.length_eq_one_iff.mp hl
  obtain ⟨hmem, hpw⟩ : w ∈ s.writes ∧ p w := List.mem_filter.mp (hw ▸ List.mem_singleton_self w)
  have hget : s.writes.get i = some w := hp w hpw ▸ Table.get_of_mem hmem
  refine ⟨w, hget, hpw, ?_, fun id hid => ?_⟩
  · refine Ledger.ext rfl rfl rfl ?_
    simp [Store.ledger, Table.get_update, hget, hpw]
  · refine Ledger.ext rfl rfl rfl ?_
    simp only [Store.ledger, Table.get_update]
    cases hw' : s.writes.get id
    case none => rfl
    case some w' =>
      have hnp : ¬p w' := by
        intro hp'
        have hid' : w'.runId = id := Table.key_of_get hw'
        exact hid (hid'.symm.trans (hp w' hp'))
      simp [hnp]

theorem appendAutomationEvent {e : Event} (h : Replaced i l s s₁) (hid : e.runId = i)
    (ha : (appendAutomationEvent e).Returns s₁ u s') :
    Replaced i { l with log := l.log ++ [e] } s s' := by
  simp only [Calendar.appendAutomationEvent, returns_bind, returns_query, returns_require,
    returns_find, returns_write] at ha
  obtain ⟨_, _, ⟨rfl, rfl⟩, _, _, ⟨_, rfl⟩, _, _, ⟨_, rfl⟩, events, _, ⟨hi, rfl⟩, rfl⟩ := ha
  have hlog : ∀ k, Store.log { s₁ with events := events } k = s₁.log k ++ if e.runId = k then [e] else [] :=
    Store.log_append (Table.insert_eq_some.mp hi).right
  refine h.trans ⟨?_, fun k hk => ?_⟩
  · rw [← h.here]
    refine Ledger.ext rfl ?_ rfl rfl
    simpa [Store.ledger, hid] using hlog i
  · refine Ledger.ext rfl ?_ rfl rfl
    simpa [Store.ledger, hid, Ne.symm hk] using hlog k

theorem insertProposal {p : Proposal} (hi : p.runId = i) (h : (insertProposal p).Returns s u s') :
    (∀ p' ∈ s.proposalsOf i, p'.payloadId ≠ p.payloadId) ∧
    Replaced i { s.ledger i with proposals := s.proposalsOf i ++ [p] } s s' := by
  simp only [Calendar.insertProposal, returns_bind, returns_query, returns_require, returns_find,
    returns_write] at h
  obtain ⟨_, _, ⟨rfl, rfl⟩, _, _, ⟨_, rfl⟩, _, _, ⟨_, rfl⟩, t, _, ⟨ht, rfl⟩, rfl⟩ := h
  obtain ⟨hnone, hrows⟩ := Table.insert_eq_some.mp ht
  refine ⟨?_, ?_, fun id hid => ?_⟩
  · intro p' hp' heq
    have hget : s.proposals.get p'.payloadId = some p' :=
      Table.get_of_mem (List.mem_of_mem_filter hp')
    exact absurd (heq ▸ hget) (by rw [show s.proposals.get p.payloadId = none from hnone]; simp)
  · refine Ledger.ext rfl rfl ?_ rfl
    simp [Store.ledger, Store.proposalsOf, hrows, hi]
  · refine Ledger.ext rfl rfl ?_ rfl
    simp [Store.ledger, Store.proposalsOf, hrows, hi, Ne.symm hid]

theorem insertWrite {w : CalendarWrite} (h : (insertWrite w).Returns s u s') :
    (s.ledger w.runId).write = none ∧
    Replaced w.runId { s.ledger w.runId with write := some w } s s' := by
  simp only [Calendar.insertWrite, returns_bind, returns_query, returns_require, returns_find,
    returns_write] at h
  obtain ⟨_, _, ⟨rfl, rfl⟩, _, _, ⟨_, rfl⟩, _, _, ⟨_, rfl⟩, t, _, ⟨hi, rfl⟩, rfl⟩ := h
  refine ⟨(Table.insert_eq_some.mp hi).left, ?_, fun id hid => ?_⟩
  · refine Ledger.ext rfl rfl rfl ?_
    exact (Table.get_insert hi w.runId).trans (if_pos rfl)
  · refine Ledger.ext rfl rfl rfl ?_
    exact (Table.get_insert hi id).trans (if_neg (Ne.symm hid))

theorem deletePayloads (h : (deletePayloads i).Returns s u s') :
    Replaced i { s.ledger i with proposals := [] } s s' := by
  simp only [Calendar.deletePayloads, returns_bind, returns_write] at h
  obtain ⟨_, _, rfl, rfl⟩ := h
  refine ⟨?_, fun id hid => ?_⟩
  · refine Ledger.ext rfl rfl ?_ rfl
    simp [Store.ledger, Store.proposalsOf, Table.delete]
  · refine Ledger.ext rfl rfl ?_ rfl
    simp only [Store.ledger, Store.proposalsOf, Table.delete, List.filter_filter]
    refine List.filter_congr fun p _ => ?_
    by_cases hp : p.runId = id <;> simp [hp, hid]

theorem insertRun {r : Run} (h : (insertRun r).Returns s u s') :
    (s.ledger r.runId).run = none ∧
    Replaced r.runId { s.ledger r.runId with run := some r } s s' := by
  simp only [Calendar.insertRun, returns_bind, returns_query, returns_require, returns_find,
    returns_write] at h
  obtain ⟨_, _, ⟨rfl, rfl⟩, _, _, ⟨_, rfl⟩, t, _, ⟨hi, rfl⟩, rfl⟩ := h
  refine ⟨(Table.insert_eq_some.mp hi).left, ?_, fun id hid => ?_⟩
  · refine Ledger.ext ?_ rfl rfl rfl
    exact (Table.get_insert hi r.runId).trans (if_pos rfl)
  · refine Ledger.ext ?_ rfl rfl rfl
    exact (Table.get_insert hi id).trans (if_neg (Ne.symm hid))

theorem deleteCancelledWrite [Codec] {r : ProposalDecision}
    (h : (r.deleteCancelledWrite (s.writes.get r.runId)).Returns s u s') :
    (∀ w, (s.ledger r.runId).write = some w → w.status = .cancelled) ∧
    Replaced r.runId { s.ledger r.runId with write := none } s s' := by
  unfold ProposalDecision.deleteCancelledWrite at h
  cases hw : s.writes.get r.runId
  case none =>
    simp only [hw, returns_pure] at h
    obtain ⟨_, rfl⟩ := h
    refine ⟨?_, Ledger.ext rfl rfl rfl hw, fun _ _ => rfl⟩
    intro w h
    exact absurd (hw.symm.trans h) (by simp)
  case some w₀ =>
    simp only [hw, returns_bind, returns_query, returns_write, returns_require] at h
    obtain ⟨_, _, ⟨rfl, rfl⟩, _, _, rfl, hl, rfl⟩ := h
    obtain ⟨w, hrows⟩ := List.length_eq_one_iff.mp hl
    have hm : w ∈ s.writes.rows.filter fun w => w.runId = r.runId && w.status = .cancelled :=
      hrows ▸ List.mem_singleton_self w
    simp only [List.mem_filter, Bool.and_eq_true, decide_eq_true_eq] at hm
    have hget : s.writes.get r.runId = some w := hm.right.left ▸ Table.get_of_mem hm.left
    refine ⟨?_, ?_, fun id hid => ?_⟩
    · intro w' hw'
      rw [← Option.some.inj (hget.symm.trans hw')]
      exact hm.right.right
    · refine Ledger.ext rfl rfl rfl ?_
      simp [Store.ledger, Table.get_delete, hget, hm.right]
    · refine Ledger.ext rfl rfl rfl ?_
      simp only [Store.ledger, Table.get_delete]
      cases hw' : s.writes.get id
      case none => rfl
      case some w' =>
        have hid' : w'.runId = id := Table.key_of_get hw'
        simp [hid', hid]

end Replaced

-- Statements that leave the ledgers alone.
def SameLedgers (s s' : Store) : Prop :=
  ∀ id, s'.ledger id = s.ledger id

theorem updateExtraction_ledger {p : Extraction → Bool} {g : Extraction → Extraction}
    {lost : RunError} {hg} (h : (updateExtraction p g lost hg).Returns s u s') :
    SameLedgers s s' := by
  simp only [updateExtraction, returns_bind, returns_query, returns_require, returns_write] at h
  obtain ⟨_, _, ⟨_, rfl⟩, _, _, ⟨_, rfl⟩, _, _, rfl, _, rfl⟩ := h
  exact fun _ => rfl

theorem insertExtraction_ledger {x : Extraction} (h : (insertExtraction x).Returns s u s') :
    SameLedgers s s' := by
  simp only [insertExtraction, returns_bind, returns_query, returns_require, returns_find,
    returns_write] at h
  obtain ⟨_, _, ⟨rfl, rfl⟩, _, _, ⟨_, rfl⟩, _, _, ⟨_, rfl⟩, _, _, ⟨_, rfl⟩, rfl⟩ := h
  exact fun _ => rfl

section Moves

-- A run goes on to its next version, and an event tells it.
structure Advance (l l' : Ledger) (r r' : Run) (e : Event) : Prop where
  before   : l.run = some r
  after    : l'.run = some r'
  logged   : l'.log = l.log ++ [e]
  version  : r'.stateVersion = r.stateVersion + 1
  sequence : e.sequenceNo = r.stateVersion
  numbered : e.stateVersion = r.stateVersion + 1
  previous : e.previousState = some r.state
  next     : e.nextState = r'.state
  kind     : e.transitionKind = r'.state

-- The states in which a run has no proposal that may be decided.
def preparationStates : List RunState :=
  [.detected, .extracting, .proposing, .sourceUnavailable]

-- The moves that neither make a proposal nor confirm one.
inductive Quiet (l l' : Ledger) : Prop
  | idle (h : l' = l)
  | admitted {r : Run} {e : Event} (absent : l.run = none)
      (after : l' = { l with run := some r, log := l.log ++ [e] }) (state : r.state = .detected)
      (version : r.stateVersion = 1) (sequence : e.sequenceNo = 0) (numbered : e.stateVersion = 1)
      (previous : e.previousState = none) (next : e.nextState = .detected)
      (decision : e.decision = none) (transaction : e.transactionId = none)
  | cleared (h : l' = { l with proposals := [] })
  -- No decision is due, or the one that is made is no confirmation.
  | prepared {r r' : Run} {e : Event} (advance : Advance l l' r r' e)
      (step : r.state ∈ preparationStates ∧
          r'.state ∈ [.extracting, .proposing, .ambiguous, .manualReview, .sourceUnavailable] ∨
        r.state = .awaitingConfirmation ∧ r'.state ∈ [.declined, .proposing])
      (decision : e.decision ≠ some .confirmed) (transaction : e.transactionId = none)
      (proposals : l'.proposals = l.proposals) (write : l'.write = l.write)
  | cancelled {r r' : Run} {e : Event} (advance : Advance l l' r r' e)
      (step : r.state ∈ calendarPendingStates ∨ r.state ∈ calendarReviewStates)
      (next : r'.state = .sourceUnavailable)
      (decision : e.decision = none) (transaction : e.transactionId = none)
      (proposals : l'.proposals = []) (write : l'.write = l.write)
  | revoked {r r' : Run} {e : Event} {w : CalendarWrite} (advance : Advance l l' r r' e)
      (cause : Cause) (state : r.state = .writeAuthorized) (next : r'.state = .sourceUnavailable)
      (decision : e.decision = none) (failure : e.failureCode = some cause.text)
      (before : l.write = some w) (authorized : w.status = .authorized)
      (after : l'.write = some { w with status := .cancelled, failureCode := some cause.text })
      (transaction : e.transactionId = some w.transactionId) (proposals : l'.proposals = [])
  | handedOff {r r' : Run} {e : Event} {w : CalendarWrite} (advance : Advance l l' r r' e)
      (now : Instant) (state : r.state = .writeAuthorized) (next : r'.state = .writing)
      (decision : e.decision = none) (transaction : e.transactionId = some w.transactionId)
      (before : l.write = some w) (authorized : w.status = .authorized)
      (after : l'.write =
        some { w with status := .writing, submittedAt := some now, failureCode := none })
      (proposals : l'.proposals = l.proposals)
  | settled {r r' : Run} {e : Event} {w w' : CalendarWrite} (advance : Advance l l' r r' e)
      (step : (r.state, r'.state) ∈ calendarWriteTransitions) (decision : e.decision = none)
      (before : l.write = some w) (after : l'.write = some w')
      (status : w'.status = WriteTransition.writeStatus r'.state)
      (transaction : w'.transactionId = w.transactionId)
      (proposal : w'.proposalVersion = w.proposalVersion ∧ w'.proposalSha256 = w.proposalSha256)
      (proposals : l'.proposals = l.proposals)

abbrev Quietly : Ledger → Ledger → Prop :=
  Relation.ReflTransGen Quiet

-- A proposal is made for a run.
structure Proposed (p : Proposal) (l l' : Ledger) : Prop where
  advance     : ∃ r r' e, Advance l l' r r' e ∧ r.state = .proposing ∧
    r'.state ∈ [.awaitingConfirmation, .manualReview] ∧ r'.currentPayloadId = some p.payloadId ∧
    e.decision = none ∧ e.transactionId = none
  version     : p.proposalVersion = max l.latestVersion (l.generation none) + 1
  fresh       : ∀ p' ∈ l.proposals, p'.payloadId ≠ p.payloadId
  proposals   : l'.proposals = l.proposals ++ [p]
  write       : l'.write = l.write

-- A request that has confirmed a proposal, with the run as it was then.
structure Confirmation where
  request  : ProposalDecision
  run      : Run
  proposal : Proposal

namespace Confirmation

-- The request confirms the current proposal of the run, before it expires and before it starts.
structure Sound [Codec] (x : Confirmation) : Prop where
  checked   : 1 ≤ x.request.expectedStateVersion ∧ 1 ≤ x.request.proposalVersion ∧
    x.request.proposalSha256.toList.length = 64
  confirm   : x.request.decision = .confirm
  state     : x.run.state = .awaitingConfirmation
  version   : x.run.stateVersion = x.request.expectedStateVersion
  current   : x.run.currentPayloadId = some x.proposal.payloadId
  accepted  : x.proposal.status = .accepted
  proposal  : x.proposal.proposalVersion = x.request.proposalVersion
  sha256    : x.proposal.proposalSha256 = x.request.proposalSha256
  live      : x.request.now < x.run.expiresAt
  unexpired : ∃ t, x.proposal.expiresAt = some t ∧ x.request.now < t
  ahead     : ∃ t, x.proposal.start.bind Codec.fromIsoFormat = some t ∧ x.request.now < t.utc

end Confirmation

-- A proposal is confirmed, and the write of its event is authorized.
structure Confirmed [Codec] (x : Confirmation) (l l' : Ledger) : Prop where
  sound     : x.Sound
  advance   : ∃ r' e, Advance l l' x.run r' e ∧ r'.state = .writeAuthorized ∧
    e.decision = some .confirmed ∧ e.transactionId = some x.request.transactionId ∧
    e.payloadId = some x.proposal.payloadId ∧ e.payloadSha256 = some x.request.proposalSha256
  stored    : x.proposal ∈ l.proposals
  proposals : l'.proposals = l.proposals
  vacant    : ∀ w, l.write = some w → w.status = .cancelled
  write     : ∃ w, l'.write = some w ∧ w.status = .authorized ∧
    w.transactionId = x.request.transactionId ∧ w.proposalVersion = x.request.proposalVersion ∧
    w.proposalSha256 = x.request.proposalSha256 ∧ w.submittedAt = none

end Moves

theorem Advance.mem_log {r r' : Run} {e e' : Event} (h : Advance l l' r r' e) :
    e' ∈ l'.log ↔ e' ∈ l.log ∨ e' = e := by
  rw [h.logged, List.mem_append, List.mem_singleton]

-- The statements before an advance leave the run and its log alone.
theorem Advance.after_same {r r' : Run} {e : Event} (h : Advance l₁ l' r r' e) (hr : l₁.run = l.run)
    (hl : l₁.log = l.log) : Advance l l' r r' e where
  before   := hr ▸ h.before
  after    := h.after
  logged   := hl ▸ h.logged
  version  := h.version
  sequence := h.sequence
  numbered := h.numbered
  previous := h.previous
  next     := h.next
  kind     := h.kind

namespace Replaced

-- An update of a run and the event that reports it.
theorem advance {p : Run → Bool} {g : Run → Run} {lost : RunError} {hg} {row : Run}
    {x : EventFields} {u' : Unit} {q : RunState}
    (hu : (Calendar.updateRun p g lost hg).Returns s u s₁)
    (ha : (Calendar.appendAutomationEvent (row.event x)).Returns s₁ u' s')
    (hp : ∀ r, p r → r.runId = row.runId ∧ r.state = q ∧ r.stateVersion + 1 = x.nextVersion)
    (hx : x.previousState = some q)
    (hn : ∀ r, (g r).state = x.nextState ∧ (g r).stateVersion = x.nextVersion) :
    ∃ r, p r ∧ Advance (s.ledger row.runId) (s'.ledger row.runId) r (g r) (row.event x) ∧
      Replaced row.runId
        { s.ledger row.runId with run := some (g r), log := s.log row.runId ++ [row.event x] } s s' := by
  obtain ⟨r, hr, hpr, hs₁⟩ := updateRun hu fun r hr => (hp r hr).left
  have hs := hs₁.appendAutomationEvent rfl ha
  obtain ⟨_, hstate, hversion⟩ := hp r hpr
  refine ⟨r, hpr, ?_, hs⟩
  constructor
  case before   => exact hr
  case after    => rw [hs.here]
  case logged   => rw [hs.here]
  case version  => rw [(hn r).right, hversion]
  case sequence => exact show x.nextVersion - 1 = _ by omega
  case numbered => exact hversion.symm
  case previous => exact hstate ▸ hx
  case next     => exact (hn r).left.symm
  case kind     => exact (hn r).left.symm

end Replaced

-- What the statements of a transaction do to all ledgers: every one of them moves on its own.
def Quietens (s s' : Store) : Prop :=
  ∀ id, Quietly (s.ledger id) (s'.ledger id)

namespace Quietens

theorem refl (s : Store) : Quietens s s :=
  fun _ => .refl

theorem trans (h₁ : Quietens s₁ s₂) (h₂ : Quietens s₂ s₃) : Quietens s₁ s₃ :=
  fun id => (h₁ id).trans (h₂ id)

-- One ledger moves, and the others stay as they are.
theorem of_replaced (h : Replaced i l s s') (hq : Quiet (s.ledger i) l) : Quietens s s' := by
  intro id
  by_cases hid : id = i
  case pos =>
    subst hid
    exact .single (h.here ▸ hq)
  case neg =>
    rw [h.elsewhere id hid]

theorem of_same (h : SameLedgers s s') : Quietens s s' := by
  intro id
  rw [h id]

end Quietens

section Statements

theorem admitSchedulingAutomation_quiet {r : Admission}
    (h : (admitSchedulingAutomation r).Returns s u s') : Quietens s s' := by
  simp only [admitSchedulingAutomation, returns_bind, returns_query] at h
  obtain ⟨_, _, ⟨rfl, rfl⟩, h⟩ := h
  split at h
  case isTrue =>
    simp only [returns_pure] at h
    exact h.right ▸ .refl s
  case isFalse =>
    simp only [returns_bind] at h
    obtain ⟨_, s₁, h₁, h₂⟩ := h
    obtain ⟨habsent, hs₁⟩ := Replaced.insertRun h₁
    have hs := hs₁.appendAutomationEvent rfl h₂
    exact .of_replaced hs <| .admitted habsent rfl rfl rfl rfl rfl rfl rfl rfl rfl

section Cancellation

variable {row : Run} {transactionId : Option String} {cause : Cause} {eventId : String}
  {updatedAt : Instant} {b : Bool}

-- The transaction of a write outlasts a cancellation.
structure Cancels (s s' : Store) : Prop where
  quiet        : Quietens s s'
  transactions : ∀ id, (s'.ledger id).write.map (·.transactionId) =
    (s.ledger id).write.map (·.transactionId)

namespace Cancels

theorem refl (s : Store) : Cancels s s :=
  ⟨.refl s, fun _ => rfl⟩

theorem trans (h₁ : Cancels s₁ s₂) (h₂ : Cancels s₂ s₃) : Cancels s₁ s₃ :=
  ⟨h₁.quiet.trans h₂.quiet, fun id => (h₂.transactions id).trans (h₁.transactions id)⟩

theorem of_replaced (h : Replaced i l s s') (hq : Quiet (s.ledger i) l)
    (ht : l.write.map (·.transactionId) = (s.ledger i).write.map (·.transactionId)) :
    Cancels s s' where
  quiet           := .of_replaced h hq
  transactions id := by
    by_cases hid : id = i
    case pos =>
      subst hid
      rw [h.here, ht]
    case neg => rw [h.elsewhere id hid]

end Cancels

theorem cancelAutomationSource_cancels
    (ht : (s.ledger row.runId).write.map (·.transactionId) = transactionId)
    (h : (cancelAutomationSource row transactionId cause eventId updatedAt).Returns s b s') :
    Cancels s s' := by
  simp only [cancelAutomationSource, returns_bind] at h
  obtain ⟨_, s₁, h₁, h⟩ := h
  have hs₁ := Replaced.deletePayloads h₁
  split at h
  case isTrue =>
    simp only [returns_pure] at h
    exact h.right ▸ .of_replaced hs₁ (.cleared rfl) rfl
  case isFalse hc =>
    simp only [returns_bind, returns_pure] at h
    obtain ⟨_, s₂, h₂, _, s₃, h₃, _, s₄, h₄, _, rfl⟩ := h
    obtain ⟨r, hp, ha, hs⟩ := Replaced.advance (q := row.state) h₃ h₄
      (fun x hp => by
        simp only [Bool.and_eq_true, decide_eq_true_eq] at hp
        exact ⟨hp.left.left, hp.left.right, by rw [hp.right]⟩)
      rfl fun _ => ⟨rfl, rfl⟩
    simp only [Bool.and_eq_true, decide_eq_true_eq] at hp
    unfold cancelAuthorizedWrite at h₂
    split at h₂
    case isTrue hw =>
      obtain ⟨w, hwrite, hpw, hs₂⟩ := Replaced.updateWrite (i := row.runId) h₂ (fun w hw => by
        simp only [Bool.and_eq_true, decide_eq_true_eq] at hw
        exact hw.left)
      simp only [Bool.and_eq_true, decide_eq_true_eq] at hpw
      rw [hs₁.here] at hwrite hs₂
      have hl := hs₁.trans hs₂ |>.trans hs
      rw [hl.here] at ha
      have htw : transactionId = some w.transactionId := by
        rw [← ht]
        exact congrArg _ hwrite
      refine .of_replaced hl (.revoked (ha.after_same ?_ ?_) cause ?_ rfl rfl rfl hwrite hpw.right
        ?_ ?_ ?_) ?_
      · rw [hs₂.here]
      · rw [hs₂.here]
      · exact hp.left.right.trans hw
      · rw [hs₂.here]
      · exact (if_pos hw).trans htw
      · rw [hs₂.here]
      · rw [hs₂.here, hwrite]
        rfl
    case isFalse hw =>
      obtain ⟨_, rfl⟩ := returns_pure.mp h₂
      have hl := hs₁.trans hs
      rw [hl.here] at ha
      refine .of_replaced hl (.cancelled (ha.after_same ?_ ?_) ?_ rfl rfl (if_neg hw) ?_ ?_) ?_
      · rw [hs₁.here]
      · rw [hs₁.here]
      · simp only [cancellable, Bool.not_eq_true', Bool.not_eq_false, Bool.or_eq_true,
          Bool.and_eq_true, decide_eq_true_eq] at hc
        rw [hp.left.right]
        tauto
      · rw [hs₁.here]
      · rw [hs₁.here]
      · rw [hs₁.here]

theorem cancelRows_cancels {rows : List (Run × Option String)} {eventId : String → String}
    (ht : ∀ x ∈ rows, (s.ledger x.fst.runId).write.map (·.transactionId) = x.snd)
    (h : (rows.forM fun x => do
      let _ ← cancelAutomationSource x.fst x.snd cause (eventId x.fst.runId) updatedAt
      : Statement Unit).Returns s u s') : Cancels s s' := by
  induction rows generalizing s
  case nil =>
    simp only [List.forM, returns_pure] at h
    exact h.right ▸ .refl s
  case cons x rows ih =>
    simp only [List.forM, returns_bind, returns_pure] at h
    obtain ⟨_, s₁, ⟨_, _, h₁, _, rfl⟩, h₂⟩ := h
    have hc := cancelAutomationSource_cancels (ht x (by simp)) h₁
    refine hc.trans (ih ?_ h₂)
    intro y hy
    rw [hc.transactions]
    exact ht y (by simp [hy])

theorem transaction_of_mem_admissions {ids : List String} {x : Run × Option String}
    (h : x ∈ s.admissions ids) :
    (s.ledger x.fst.runId).write.map (·.transactionId) = x.snd := by
  simp only [Store.admissions, List.mem_filterMap, Option.map_eq_some_iff] at h
  obtain ⟨id, _, r, hr, rfl⟩ := h
  have hid : r.runId = id := Table.key_of_get hr
  exact hid ▸ rfl

theorem markAutomationSourcesUnavailable_quiet {chunks : List (List String)}
    {eventId : String → String}
    (h : (markAutomationSourcesUnavailable chunks cause eventId updatedAt).Returns s u s') :
    Quietens s s' := by
  refine forM_relation .refl (fun _ _ _ => .trans) ?_ h
  intro s₁ ids _ _ s₂ h
  simp only [cancelChunk, returns_bind, returns_query] at h
  obtain ⟨_, _, ⟨rfl, rfl⟩, h⟩ := h
  exact (cancelRows_cancels (fun _ => transaction_of_mem_admissions) h).quiet

theorem cancelUnfollowed_quiet {ids : List String} {eventId : String → String}
    (h : (cancelUnfollowed ids eventId updatedAt).Returns s u s') : Quietens s s' := by
  simp only [cancelUnfollowed, returns_bind, returns_query] at h
  obtain ⟨_, _, ⟨rfl, rfl⟩, h⟩ := h
  exact (cancelRows_cancels
    (fun _ hx => transaction_of_mem_admissions (List.mem_of_mem_filter hx)) h).quiet

-- A run that is purged leaves nothing behind; every other one keeps its ledger.
theorem purgeExpiredAutomationTombstones_ledger {now : Instant} (id : String)
    (h : (purgeExpiredAutomationTombstones now).Returns s u s') :
    s'.ledger id = .empty ∨ s'.ledger id = s.ledger id := by
  simp only [purgeExpiredAutomationTombstones, returns_bind, returns_query, returns_write] at h
  obtain ⟨_, _, ⟨rfl, rfl⟩, _, _, rfl, rfl⟩ := h
  have hrun : (s.runs.delete (s.expired now ·.runId)).get id =
      if s.expired now id then none else s.runs.get id :=
    Table.get_delete_of_key fun _ => rfl
  have hwrite : (s.writes.delete (s.expired now ·.runId)).get id =
      if s.expired now id then none else s.writes.get id :=
    Table.get_delete_of_key fun _ => rfl
  cases he : s.expired now id
  case true =>
    rw [he, if_pos rfl] at hrun hwrite
    refine .inl <| Ledger.ext hrun ?_ ?_ hwrite
    · simp only [Store.ledger, Store.log, Table.delete, Ledger.empty, List.filter_filter,
        List.filter_eq_nil_iff]
      intro e _
      by_cases hid : e.runId = id <;> simp [hid, he]
    · simp only [Store.ledger, Store.proposalsOf, Table.delete, Ledger.empty, List.filter_filter,
        List.filter_eq_nil_iff]
      intro p _
      by_cases hid : p.runId = id <;> simp [hid, he]
  case false =>
    rw [he, if_neg Bool.false_ne_true] at hrun hwrite
    refine .inr <| Ledger.ext hrun ?_ ?_ hwrite
    · simp only [Store.ledger, Store.log, Table.delete, List.filter_filter]
      refine List.filter_congr fun e _ => ?_
      by_cases hid : e.runId = id <;> simp [hid, he]
    · simp only [Store.ledger, Store.proposalsOf, Table.delete, List.filter_filter]
      refine List.filter_congr fun p _ => ?_
      by_cases hid : p.runId = id <;> simp [hid, he]

end Cancellation

section Preparation

theorem Store.preparationAvailable_state {row : Run} {followed : Bool}
    (h : s.preparationAvailable row followed) :
    row.state ∈ [.detected, .extracting, .sourceUnavailable] := by
  simp only [Store.preparationAvailable, Bool.or_eq_true, Bool.and_eq_true, decide_eq_true_eq,
    List.mem_cons, List.not_mem_nil, or_false] at h ⊢
  tauto

theorem reserveAutomationExtraction_quiet {r : Reservation} {available followed : Bool}
    {x : Extraction} (h : (reserveAutomationExtraction r available followed).Returns s x s') :
    Quietens s s' := by
  simp only [reserveAutomationExtraction, Reservation.check, returns_bind, returns_require,
    returns_query] at h
  obtain ⟨_, _, ⟨_, _, ⟨_, rfl⟩, _, rfl⟩, row, _, hrow, _, _, ⟨rfl, rfl⟩, _, _, ⟨hs, rfl⟩, _, _,
    ⟨_, rfl⟩, _, _, ⟨_, rfl⟩, h⟩ := h
  obtain ⟨rfl, _, hid⟩ := availableRun_returns hrow
  split at h
  case h_1 =>
    simp only [returns_bind, returns_require, returns_pure] at h
    obtain ⟨_, _, ⟨_, rfl⟩, _, rfl⟩ := h
    exact .refl _
  case h_2 =>
    simp only [returns_bind, returns_require, reserveAttempt, returns_pure] at h
    obtain ⟨_, _, ⟨_, rfl⟩, _, _, ⟨_, rfl⟩, _, _, ⟨_, rfl⟩, _, s₁, h₁, _, s₂, h₂, _, s₃, h₃, _,
      rfl⟩ := h
    refine (Quietens.of_same <| insertExtraction_ledger h₁).trans ?_
    obtain ⟨r', hp, ha, hr⟩ := Replaced.advance (q := row.state) h₂ h₃
      (fun x hp => by
        simp only [Bool.and_eq_true, decide_eq_true_eq] at hp
        exact ⟨hp.left.left.trans hid.symm, hp.left.right, by rw [hp.right]⟩)
      rfl fun _ => ⟨rfl, rfl⟩
    simp only [Bool.and_eq_true, decide_eq_true_eq] at hp
    rw [hr.here] at ha
    refine .of_replaced hr (.prepared ha (.inl ⟨?_, by simp⟩) (by simp [Run.event]) rfl rfl rfl)
    rw [hp.left.right]
    have := Store.preparationAvailable_state hs.left
    simp only [preparationStates, List.mem_cons, List.not_mem_nil, or_false] at this ⊢
    tauto

theorem transitionAutomationToReview_quiet {r : ReviewTransition} {row' : Run}
    (h : (transitionAutomationToReview r).Returns s row' s') : Quietens s s' := by
  simp only [transitionAutomationToReview, returns_bind, returns_require, returns_query,
    returns_find] at h
  obtain ⟨_, _, ⟨hn, rfl⟩, _, _, ⟨rfl, rfl⟩, row, _, ⟨hrow, rfl⟩, _, _, ⟨hs, rfl⟩, _, s₁, h₁, _,
    s₂, h₂, _, s₃, h₃, h₄⟩ := h
  have hid : row.runId = r.runId := Table.key_of_get hrow
  obtain rfl := readRun_returns h₄
  have hsame : SameLedgers s s₁ := by
    unfold deleteLostExtractions at h₁
    split at h₁
    case isTrue =>
      obtain rfl := returns_write.mp h₁
      exact fun _ => rfl
    case isFalse => exact (returns_pure.mp h₁).right ▸ fun _ => rfl
  refine (Quietens.of_same hsame).trans ?_
  obtain ⟨r', hp, ha, hr⟩ := Replaced.advance (q := row.state) h₂ h₃
    (fun x hp => by
      simp only [Bool.and_eq_true, decide_eq_true_eq] at hp
      exact ⟨hp.left.left.trans hid.symm, hp.left.right, by rw [hp.right]⟩)
    rfl fun _ => ⟨rfl, rfl⟩
  simp only [Bool.and_eq_true, decide_eq_true_eq] at hp
  rw [hr.here] at ha
  refine .of_replaced hr (.prepared ha (.inl ⟨?_, ?_⟩) (by simp [Run.event]) rfl rfl rfl)
  · rw [hp.left.right]
    have := hs.left
    simp only [preparationStates, List.mem_cons, List.not_mem_nil, or_false] at this ⊢
    tauto
  · simp only [List.mem_cons, List.not_mem_nil, or_false] at hn ⊢
    tauto

variable [Codec] {available : Bool} {row' : Run}

theorem recordAutomationExtractionFailure_quiet {r : ExtractionFailure}
    (h : (recordAutomationExtractionFailure r available).Returns s row' s') : Quietens s s' := by
  simp only [recordAutomationExtractionFailure, ExtractionFailure.check, returns_bind,
    returns_require, returns_query, returns_find] at h
  obtain ⟨_, _, ⟨_, _, ⟨_, rfl⟩, _, _, ⟨_, rfl⟩, _, rfl⟩, row, _, hrow, _, _, ⟨_, rfl⟩, _, _,
    ⟨_, rfl⟩, _, _, ⟨_, rfl⟩, _, s₁, h₁, _, s₂, h₂, _, s₃, h₃, h₄⟩ := h
  obtain ⟨rfl, _, hid⟩ := availableRun_returns hrow
  obtain rfl := readRun_returns h₄
  refine (Quietens.of_same <| updateExtraction_ledger h₁).trans ?_
  obtain ⟨r', hp, ha, hr⟩ := Replaced.advance (q := .extracting) h₂ h₃
    (fun x hp => by
      simp only [Bool.and_eq_true, decide_eq_true_eq] at hp
      exact ⟨hp.left.left.left.trans hid.symm, hp.left.left.right, by rw [hp.left.right]⟩)
    rfl fun _ => ⟨rfl, rfl⟩
  simp only [Bool.and_eq_true, decide_eq_true_eq] at hp
  rw [hr.here] at ha
  refine .of_replaced hr (.prepared ha (.inl ⟨?_, ?_⟩) (by simp [Run.event]) rfl rfl rfl)
  · rw [hp.left.left.right]
    decide
  · simp only [ExtractionFailure.nextState]
    split <;> decide

theorem recordAutomationExtraction_quiet {r : ExtractionResult}
    (h : (recordAutomationExtraction r available).Returns s row' s') : Quietens s s' := by
  simp only [recordAutomationExtraction, ExtractionResult.check, returns_bind, returns_require,
    returns_query, returns_find] at h
  obtain ⟨_, _, ⟨_, _, ⟨_, rfl⟩, _, _, ⟨_, rfl⟩, _, _, ⟨_, rfl⟩, hc, rfl⟩, row, _, hrow, x, _,
    ⟨_, rfl⟩, _, _, ⟨_, rfl⟩, _, _, ⟨_, rfl⟩, _, s₁, h₁, _, s₂, h₂, _, s₃, h₃, h₄⟩ := h
  obtain ⟨rfl, _, hid⟩ := availableRun_returns hrow
  obtain rfl := readRun_returns h₄
  refine (Quietens.of_same <| updateExtraction_ledger h₁).trans ?_
  obtain ⟨r', hp, ha, hr⟩ := Replaced.advance (q := .extracting) h₂ h₃
    (fun x hp => by
      simp only [Bool.and_eq_true, decide_eq_true_eq] at hp
      exact ⟨hp.left.left.left.trans hid.symm, hp.left.left.right, by rw [hp.left.right]⟩)
    rfl fun _ => ⟨rfl, rfl⟩
  simp only [Bool.and_eq_true, decide_eq_true_eq] at hp
  rw [hr.here] at ha
  refine .of_replaced hr (.prepared ha (.inl ⟨?_, ?_⟩) (by simp [Run.event]) rfl rfl rfl)
  · rw [hp.left.left.right]
    decide
  · simp only [ExtractionResult.outcome]
    split
    case h_1 state hstate =>
      rw [hstate] at hc
      simp only [Option.all_some, decide_eq_true_eq, List.mem_cons, List.not_mem_nil,
        or_false] at hc ⊢
      tauto
    case h_2 =>
      split <;> decide

end Preparation

section Writes

variable {r : Handoff} {row : Run} {w : CalendarWrite} {o : Outcome}

theorem handOff_quiet (hrow : s.runs.get r.runId = some row) (hw : s.writes.get r.runId = some w)
    (h : (handOff r row w).Returns s o s') : Quietens s s' := by
  simp only [handOff, returns_bind, returns_pure] at h
  obtain ⟨_, s₁, h₁, _, s₂, h₂, _, s₃, h₃, _, s₄, h₄, _, rfl⟩ := h
  obtain rfl := readRun_returns h₄
  have hid : row.runId = r.runId := Table.key_of_get hrow
  obtain ⟨w', hwrite, hpw, hs₁⟩ := Replaced.updateWrite (i := row.runId) h₁ (fun x hx => by
    simp only [Bool.and_eq_true, decide_eq_true_eq] at hx
    exact hx.left.trans hid.symm)
  simp only [Bool.and_eq_true, decide_eq_true_eq] at hpw
  obtain ⟨r', hp, ha, hr⟩ := Replaced.advance (q := .writeAuthorized) h₂ h₃
    (fun x hp => by
      simp only [Bool.and_eq_true, decide_eq_true_eq] at hp
      exact ⟨hp.left.left.trans hid.symm, hp.left.right, by rw [hp.right]⟩)
    rfl fun _ => ⟨rfl, rfl⟩
  simp only [Bool.and_eq_true, decide_eq_true_eq] at hp
  have hl := hs₁.trans hr
  rw [hl.here] at ha
  obtain rfl : w' = w := Option.some.inj (hwrite.symm.trans (hid ▸ hw))
  refine .of_replaced hl (.handedOff (ha.after_same ?_ ?_) r.now hp.left.right rfl rfl rfl hwrite
    hpw.right ?_ ?_)
  all_goals rw [hs₁.here]

theorem beginAutomationCalendarWrite_quiet {sourceExists : Bool}
    (h : (beginAutomationCalendarWrite r sourceExists).Returns s o s') : Quietens s s' := by
  simp only [beginAutomationCalendarWrite, returns_bind, returns_require, returns_query,
    returns_find] at h
  obtain ⟨_, _, ⟨_, rfl⟩, _, _, ⟨rfl, rfl⟩, row, _, ⟨hrow, rfl⟩, _, s₁, h₁, h⟩ := h
  obtain rfl := cancelledCalendarAdmission_returns h₁
  split at h
  case h_1 => exact (returns_pure.mp h).right ▸ .refl _
  case h_2 =>
    simp only [returns_bind, returns_find, returns_require] at h
    obtain ⟨w, _, ⟨hw, rfl⟩, _, _, ⟨_, rfl⟩, _, _, ⟨_, rfl⟩, h⟩ := h
    split at h
    case isTrue  => exact handOff_quiet hrow hw h
    case isFalse =>
      simp only [cancelHandoff, returns_bind, returns_find] at h
      obtain ⟨_, s₁, h₁, _, s₂, h₂, _, rfl⟩ := h
      obtain rfl := cancelledCalendarAdmission_returns h₂
      have hid : row.runId = r.runId := Table.key_of_get hrow
      exact (cancelAutomationSource_cancels (hid ▸ congrArg _ hw) h₁).quiet

theorem transitionAutomationCalendarWrite_quiet {r : WriteTransition} {row' : Run}
    (h : (transitionAutomationCalendarWrite r).Returns s row' s') : Quietens s s' := by
  simp only [transitionAutomationCalendarWrite, returns_bind, returns_require, returns_query,
    returns_find] at h
  obtain ⟨_, _, ⟨rfl, rfl⟩, row, _, ⟨hrow, rfl⟩, w, _, ⟨_, rfl⟩, _, _, ⟨hs, rfl⟩, _, s₀, h₀, _, s₁,
    h₁, _, s₂, h₂, _, s₃, h₃, h₄⟩ := h
  obtain rfl := FaithfulLogs.storedFailure_returns h₀
  obtain rfl := readRun_returns h₄
  have hid : row.runId = r.runId := Table.key_of_get hrow
  obtain ⟨w', hwrite, hpw, hs₁⟩ := Replaced.updateWrite (i := row.runId) h₁ (fun x hx => by
    simp only [Bool.and_eq_true, decide_eq_true_eq] at hx
    exact hx.left.trans hid.symm)
  simp only [Bool.and_eq_true, decide_eq_true_eq] at hpw
  obtain ⟨r', hp, ha, hr⟩ := Replaced.advance (q := row.state) h₂ h₃
    (fun x hp => by
      simp only [Bool.and_eq_true, decide_eq_true_eq] at hp
      exact ⟨hp.left.left.trans hid.symm, hp.left.right, by rw [hp.right]⟩)
    rfl fun _ => ⟨rfl, rfl⟩
  simp only [Bool.and_eq_true, decide_eq_true_eq] at hp
  have hl := hs₁.trans hr
  rw [hl.here] at ha
  have hwrite' : ∃ w'', some w'' = (s₁.ledger row.runId).write ∧
      w''.status = WriteTransition.writeStatus r.nextState ∧
      w''.transactionId = w'.transactionId ∧ w''.proposalVersion = w'.proposalVersion ∧
      w''.proposalSha256 = w'.proposalSha256 := by
    rw [hs₁.here]
    exact ⟨_, rfl, rfl, rfl, rfl, rfl⟩
  obtain ⟨w'', hw'', hstatus, ht, hproposal⟩ := hwrite'
  refine .of_replaced hl (.settled (ha.after_same ?_ ?_) ?_ rfl hwrite hw''.symm hstatus ht hproposal
    ?_)
  · rw [hs₁.here]
  · rw [hs₁.here]
  · rw [hp.left.right]
    exact hs.left
  · rw [hs₁.here]

end Writes

section Proposals

variable [Codec]

theorem recordAutomationProposal_proposed {r : ProposalRequest} {available : Bool} {row' : Run}
    (h : (recordAutomationProposal r available).Returns s row' s') :
    ∃ p l, p.payloadId = r.payloadId ∧ Proposed p (s.ledger r.runId) l ∧
      Replaced r.runId l s s' := by
  simp only [recordAutomationProposal, returns_bind, returns_require, returns_query,
    returns_find] at h
  obtain ⟨⟨attendees, expiresAt⟩, _, hc, row, _, hrow, _, _, ⟨rfl, rfl⟩, _, _, ⟨_, rfl⟩, _, _,
    ⟨_, rfl⟩, _, _, ⟨_, rfl⟩, _, s₁, h₁, _, s₂, h₂, _, s₃, h₃, h₄⟩ := h
  obtain rfl := FaithfulLogs.check_returns hc
  obtain ⟨rfl, _, hid⟩ := availableRun_returns hrow
  obtain rfl := readRun_returns h₄
  generalize hversion : max (Store.latestProposalVersion _ _) _ + 1 = version at h₁ h₂ h₃
  obtain ⟨hfresh, hs₁⟩ := Replaced.insertProposal (i := r.runId) rfl h₁
  obtain ⟨r', hp, ha, hr⟩ := Replaced.advance (q := .proposing) h₂ h₃
    (fun x hp => by
      simp only [Bool.and_eq_true, decide_eq_true_eq] at hp
      exact ⟨hp.left.left.trans hid.symm, hp.left.right, by rw [hp.right]⟩)
    rfl fun _ => ⟨rfl, rfl⟩
  simp only [Bool.and_eq_true, decide_eq_true_eq] at hp
  rw [hid] at ha hr
  have hl := hs₁.trans hr
  rw [hl.here] at ha
  refine ⟨r.proposal attendees row version expiresAt, _, rfl, ?_, hl⟩
  constructor
  case advance   =>
    refine ⟨_, _, _, ha.after_same ?_ ?_, hp.left.right, ?_, rfl, rfl, rfl⟩
    · rw [hs₁.here]
    · rw [hs₁.here]
    · simp only [ProposalRequest.nextState]
      split <;> decide
  case version   =>
    rw [← Store.latestProposalVersion_eq, ← Store.calendarProposalGeneration_eq]
    exact hversion.symm
  case fresh     => exact hfresh
  case proposals =>
    rw [hs₁.here]
    rfl
  case write     => rw [hs₁.here]

end Proposals

section Decisions

variable [Codec] {r : ProposalDecision} {row : Run} {p : Proposal} {v : Verdict} {o : Outcome}

-- A decision that is no confirmation leaves the store to its transition.
inductive VerdictReturns (r : ProposalDecision) (row : Run) (p : Proposal) (s : Store) (v : Verdict) :
    Store → Prop
  | refused (next : v.nextState ∈ [.declined, .proposing]) (decision : v.eventDecision ≠ some .confirmed)
      (transaction : v.transactionId = none) : VerdictReturns r row p s v s
  | confirmed {s' : Store} {w : CalendarWrite} (decision : r.decision = .confirm)
      (live : r.now < row.expiresAt) (unexpired : ∃ t, p.expiresAt = some t ∧ r.now < t)
      (ahead : ∃ t, p.start.bind Codec.fromIsoFormat = some t ∧ r.now < t.utc)
      (next : v.nextState = .writeAuthorized) (confirms : v.eventDecision = some .confirmed)
      (transaction : v.transactionId = some r.transactionId)
      (vacant : ∀ w, (s.ledger r.runId).write = some w → w.status = .cancelled)
      (write : Replaced r.runId { s.ledger r.runId with write := some w } s s')
      (status : w.status = .authorized) (identity : w.transactionId = r.transactionId)
      (proposal : w.proposalVersion = r.proposalVersion ∧ w.proposalSha256 = r.proposalSha256)
      (submitted : w.submittedAt = none) : VerdictReturns r row p s v s'

theorem verdict_returns (h : (r.verdict row p (s.writes.get r.runId)).Returns s v s') :
    VerdictReturns r row p s v s' := by
  unfold ProposalDecision.verdict at h
  split at h
  case h_1 =>
    obtain ⟨rfl, rfl⟩ := returns_pure.mp h
    exact .refused (by simp [ProposalDecision.declined]) (by simp [ProposalDecision.declined]) rfl
  case h_2 hd =>
    simp only [ProposalDecision.confirmed, returns_bind, returns_find] at h
    obtain ⟨start, _, ⟨hstart, rfl⟩, _, _, ⟨_, rfl⟩, _, _, ⟨_, rfl⟩, expiresAt, _, ⟨hexpires, rfl⟩,
      startTime, _, ⟨htime, rfl⟩, h⟩ := h
    split at h
    case isTrue =>
      simp only [ProposalDecision.expired, returns_bind, returns_query, returns_find,
        returns_pure] at h
      obtain ⟨_, _, ⟨rfl, rfl⟩, _, _, ⟨_, rfl⟩, _, _, ⟨_, rfl⟩, rfl, rfl⟩ := h
      exact .refused (by simp) (by simp) rfl
    case isFalse hnow =>
      simp only [ProposalDecision.authorize, returns_bind, returns_require, returns_pure] at h
      obtain ⟨_, _, ⟨_, rfl⟩, _, s₁, h₁, _, s₂, h₂, rfl, rfl⟩ := h
      obtain ⟨hvacant, hs₁⟩ := Replaced.deleteCancelledWrite h₁
      obtain ⟨_, hs₂⟩ := Replaced.insertWrite h₂
      have hl := hs₁.trans hs₂
      rw [hs₁.here] at hl
      simp only [not_or, not_le] at hnow
      refine .confirmed hd hnow.left ⟨_, hexpires, hnow.right.left⟩ ⟨startTime, ?_, hnow.right.right⟩
        rfl rfl rfl hvacant hl rfl rfl ⟨rfl, rfl⟩ rfl
      rw [(Option.filter_eq_some_iff.mp hstart).left, Option.bind_some]
      exact htime

-- What a decision that has been made for the first time does to its run.
inductive Decided (r : ProposalDecision) (row : Run) (p : Proposal) (l l' : Ledger) : Prop
  | refused (h : Quiet l l') (state : ∀ r', l'.run = some r' → r'.state ≠ .writeAuthorized)
  | confirmed (h : Confirmed ⟨r, row, p⟩ l l')

theorem decide_decided (hrow : s.runs.get r.runId = some row)
    (hc : 1 ≤ r.expectedStateVersion ∧ 1 ≤ r.proposalVersion ∧ r.proposalSha256.toList.length = 64)
    (hp : s.proposals.rows.find? (fun p => p.runId = r.runId &&
      p.proposalVersion = r.proposalVersion && p.proposalSha256 = r.proposalSha256) = some p)
    (h : (r.decide row p (s.writes.get r.runId)).Returns s o s') :
    ∃ l, Decided r row p (s.ledger r.runId) l ∧ Replaced r.runId l s s' := by
  simp only [ProposalDecision.decide, returns_bind, returns_require, returns_pure] at h
  obtain ⟨_, _, ⟨⟨hstate, hversion, hcurrent, hsha, hstatus⟩, rfl⟩, v, s₁, h₁, _, s₂, h₂, _, s₃, h₃,
    _, s₄, h₄, _, rfl⟩ := h
  obtain rfl := readRun_returns h₄
  have hid : row.runId = r.runId := Table.key_of_get hrow
  obtain ⟨r', hr', ha, hr⟩ := Replaced.advance (q := .awaitingConfirmation) h₂ h₃
    (fun x hx => by
      simp only [Bool.and_eq_true, decide_eq_true_eq] at hx
      exact ⟨hx.left.left.left.left.trans hid.symm, hx.left.left.left.right, by rw [hx.left.left.right]⟩)
    rfl fun _ => ⟨rfl, rfl⟩
  simp only [Bool.and_eq_true, decide_eq_true_eq] at hr'
  rw [hid] at ha hr
  cases verdict_returns h₁
  case refused hnext hdecision htransaction =>
    rw [hr.here] at ha
    refine ⟨_, .refused ?_ ?_, hr⟩
    · exact .prepared ha (.inr ⟨hr'.left.left.left.right, hnext⟩) hdecision htransaction rfl rfl
    · intro r₁ h₁ hn
      obtain rfl := Option.some.inj h₁
      change v.nextState = _ at hn
      rw [hn] at hnext
      exact absurd hnext (by decide)
  case confirmed w hdecision hlive hunexpired hahead hnext hconfirms htransaction hvacant hauthorized
      hidentity hproposal hsubmitted hwrite =>
    have hl := hwrite.trans hr
    rw [hl.here] at ha
    have ha' := ha.after_same (l := s.ledger r.runId) (by rw [hwrite.here]) (by rw [hwrite.here])
    have hsame : r' = row := by
      have hget := ha'.before.symm.trans hrow
      exact Option.some.inj hget
    subst hsame
    have hfound := List.find?_some hp
    simp only [Bool.and_eq_true, decide_eq_true_eq] at hfound
    refine ⟨_, .confirmed ?_, hl⟩
    constructor
    case sound     =>
      exact ⟨hc, hdecision, hstate, hversion, hcurrent, hstatus, hfound.left.right, hfound.right,
        hlive, hunexpired, hahead⟩
    case advance   =>
      exact ⟨_, _, ha', hnext, hconfirms, htransaction, rfl, rfl⟩
    case stored    =>
      exact List.mem_filter.mpr ⟨List.mem_of_find?_eq_some hp, by simp [hfound]⟩
    case proposals => rw [hwrite.here]
    case vacant    => exact hvacant
    case write     =>
      rw [hwrite.here]
      exact ⟨w, rfl, hauthorized, hidentity, hproposal.left, hproposal.right, hsubmitted⟩

end Decisions

end Statements

end Calendar
