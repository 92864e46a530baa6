import EmailWatcher.Calendar.Ledgers

-- The proposals of a run and the confirmations that it has got, as an observer of the transactions notes
-- them.
namespace Calendar

open Session

structure Chronicle where
  proposals     : List Proposal
  confirmations : List Confirmation

namespace Chronicle

def empty : Chronicle where
  proposals     := []
  confirmations := []

end Chronicle

namespace Action

-- The proposal that an action has made for a run.
def proposal (a : Action) (runId : String) (l' : Ledger) : Option Proposal :=
  match a with
  | .recordAutomationProposal r _ =>
    if r.runId = runId then l'.proposals.find? (·.payloadId = r.payloadId) else none
  | _                             => none

-- The confirmation that an action has made for a run: with it, the run has passed from the decision to
-- the authorized write.
def confirmation (a : Action) (runId : String) (l l' : Ledger) : Option Confirmation :=
  match a with
  | .decideAutomationProposal r => do
    let row ← l.run
    let row' ← l'.run
    let p ← l.proposals.find? (row.currentPayloadId = some ·.payloadId)
    if r.runId = runId ∧ row.state = .awaitingConfirmation ∧ row'.state = .writeAuthorized then
      some { request := r, run := row, proposal := p }
    else
      none
  | _                           => none

end Action

-- A run that is gone leaves no notes behind.
def Chronicle.note (runId : String) (c : Chronicle) (s : Store) (a : Action) (s' : Store) :
    Chronicle :=
  if (s'.runs.get runId).isNone then
    .empty
  else {
    proposals     := c.proposals ++ (a.proposal runId (s'.ledger runId)).toList
    confirmations := c.confirmations ++
      (a.confirmation runId (s.ledger runId) (s'.ledger runId)).toList
  }

variable [Codec] {s s' : Store} {a : Action} {id : String}

def machine : Machine Store Action RunError where
  step s a :=
    match transact s a with
    | (.ok _, s')   => .ok s'
    | (.error e, _) => .error e

-- The transactions together with the notes on one run.
def observed (runId : String) : Machine (Store × Chronicle) Action RunError :=
  machine.monitor (Chronicle.note runId)

theorem step_eq_ok (h : machine.step s a = .ok s') : ∃ u, a.statements.Returns s u s' := by
  simp only [machine] at h
  split at h
  case h_1 u s₁ hc =>
    obtain rfl := Except.ok.inj h
    exact ⟨u, commit_eq_ok.mp hc⟩
  case h_2 => cases h

-- The observer watches the very runs of the transactions.
theorem machine_next (s : Store) (a : Action) : machine.next s a = (transact s a).snd := by
  cases h : transact s a with | mk result s' =>
  cases result
  case ok u    => exact Machine.next_of_ok (by simp [machine, h])
  case error e =>
    rw [Machine.next_of_error (e := e) (by simp [machine, h])]
    have hs : (transact s a).snd = s := snd_commit_of_error (e := e) (by rw [← transact, h])
    rw [h] at hs
    exact hs.symm

theorem machine_run (s : Store) (as : List Action) : machine.run s as = run s as := by
  induction as generalizing s
  case nil          => rfl
  case cons a as ih =>
    rw [Machine.run_cons, ih, machine_next]
    rfl

theorem observed_run (id : String) (as : List Action) : ((observed id).run (∅, .empty) as).fst = run ∅ as :=
  (Machine.fst_run_monitor _ as).trans (machine_run ∅ as)

-- What an action that commits does to the ledger of a run, and what is noted of it.
inductive Turn (s : Store) (a : Action) (s' : Store) (id : String) : Prop
  | quiet (h : Quietly (s.ledger id) (s'.ledger id)) (proposal : a.proposal id (s'.ledger id) = none)
      (confirmation : a.confirmation id (s.ledger id) (s'.ledger id) = none)
  | proposed {p : Proposal} (h : Proposed p (s.ledger id) (s'.ledger id))
      (proposal : a.proposal id (s'.ledger id) = some p)
      (confirmation : a.confirmation id (s.ledger id) (s'.ledger id) = none)
  | confirmed {x : Confirmation} (h : Confirmed x (s.ledger id) (s'.ledger id))
      (proposal : a.proposal id (s'.ledger id) = none)
      (confirmation : a.confirmation id (s.ledger id) (s'.ledger id) = some x)
  | erased (h : s'.ledger id = .empty)

namespace Turn

theorem recordAutomationProposal {r : ProposalRequest} {available : Bool} {row' : Run}
    (h : (recordAutomationProposal r available).Returns s row' s') (id : String) :
    Turn s (.recordAutomationProposal r available) s' id := by
  obtain ⟨p, l, hp, hm, hl⟩ := recordAutomationProposal_proposed h
  by_cases hid : r.runId = id
  case neg =>
    refine .quiet ?_ (if_neg hid) rfl
    rw [hl.elsewhere id (Ne.symm hid)]
  case pos =>
    subst hid
    refine .proposed (hl.here ▸ hm) ?_ rfl
    have hnone : (s.ledger r.runId).proposals.find? (·.payloadId = r.payloadId) = none := by
      rw [List.find?_eq_none]
      intro p' hp'
      simpa [hp] using hm.fresh p' hp'
    simp only [Action.proposal, hl.here, hm.proposals, List.find?_append, hnone]
    simp [hp]

-- The payload that a confirmed run points to is the proposal that has been confirmed.
theorem find_current {x : Confirmation} (hs : x.Sound) (hp : x.proposal ∈ (s.ledger id).proposals) :
    (s.ledger id).proposals.find? (x.run.currentPayloadId = some ·.payloadId) = some x.proposal := by
  obtain ⟨q, hq⟩ : ∃ q, (s.ledger id).proposals.find? (x.run.currentPayloadId = some ·.payloadId) =
      some q := by
    refine Option.isSome_iff_exists.mp <| List.find?_isSome.mpr ⟨x.proposal, hp, ?_⟩
    exact decide_eq_true hs.current
  rw [hq]
  have hkey := List.find?_some hq
  rw [hs.current, decide_eq_true_eq, Option.some.injEq] at hkey
  have hget : ∀ p ∈ (s.ledger id).proposals, s.proposals.get p.payloadId = some p :=
    fun p hp => Table.get_of_mem (List.mem_of_mem_filter hp)
  have hq' := hget q (List.mem_of_find?_eq_some hq)
  rw [← hkey, hget _ hp] at hq'
  exact hq'.symm

theorem decideAutomationProposal {r : ProposalDecision} {o : Outcome}
    (h : (decideAutomationProposal r).Returns s o s') (id : String) :
    Turn s (.decideAutomationProposal r) s' id := by
  -- A decision that is not new changes nothing.
  have hsame : s' = s → Turn s (.decideAutomationProposal r) s' id := by
    rintro rfl
    refine .quiet .refl rfl ?_
    simp only [Action.confirmation, Option.bind_eq_bind, Option.bind_eq_none_iff]
    intro row hrow row' hrow' p _
    obtain rfl : row = row' := Option.some.inj (hrow.symm.trans hrow')
    refine if_neg ?_
    rintro ⟨_, hstate, hstate'⟩
    rw [hstate] at hstate'
    cases hstate'
  simp only [Calendar.decideAutomationProposal, ProposalDecision.check, returns_bind,
    returns_require, returns_query, returns_find, id_eq] at h
  obtain ⟨_, _, ⟨hc, rfl⟩, _, _, ⟨rfl, rfl⟩, row, _, ⟨hrow, rfl⟩, _, s₁, h₁, h⟩ := h
  obtain rfl := ProposalDecision.replay_returns h₁
  split at h
  case h_1 => exact hsame (returns_pure.mp h).right.symm
  case h_2 =>
    simp only [returns_bind, returns_find] at h
    obtain ⟨p, _, ⟨hp, rfl⟩, b, s₂, h₂, h⟩ := h
    obtain rfl := ProposalDecision.repeated_returns h₂
    split at h
    case isTrue  => exact hsame (returns_pure.mp h).right.symm
    case isFalse =>
      obtain ⟨l, hd, hl⟩ := decide_decided hrow hc hp h
      by_cases hid : r.runId = id
      case neg =>
        have hc : (Action.decideAutomationProposal r).confirmation id (s₂.ledger id)
            (s'.ledger id) = none := by
          simp [Action.confirmation, hid]
        refine .quiet ?_ rfl hc
        rw [hl.elsewhere id (Ne.symm hid)]
      case pos =>
        subst hid
        rw [← hl.here] at hd
        cases hd
        case refused hq hstate =>
          refine .quiet (.single hq) rfl ?_
          simp only [Action.confirmation, Option.bind_eq_bind, Option.bind_eq_none_iff]
          intro _ _ row' hrow' _ _
          exact if_neg fun h => hstate row' hrow' h.right.right
        case confirmed hm =>
          refine .confirmed hm rfl ?_
          obtain ⟨r', e, ha, hstate, _⟩ := hm.advance
          have hfind := find_current hm.sound hm.stored
          simp only [Action.confirmation, ha.before, ha.after, Option.bind_eq_bind, Option.bind_some,
            hfind, hstate]
          exact if_pos ⟨trivial, hm.sound.state, trivial⟩

theorem of_quiet (h : Quietens s s') (id : String)
    (hp : ∀ r b, a ≠ .recordAutomationProposal r b) (hd : ∀ r, a ≠ .decideAutomationProposal r) :
    Turn s a s' id := by
  refine .quiet (h id) ?_ ?_
  · unfold Action.proposal
    split
    case h_1 => exact absurd rfl (hp _ _)
    case h_2 => rfl
  · unfold Action.confirmation
    split
    case h_1 => exact absurd rfl (hd _)
    case h_2 => rfl

end Turn

theorem step_turn (h : machine.step s a = .ok s') (id : String) : Turn s a s' id := by
  obtain ⟨u, h⟩ := step_eq_ok h
  cases a
  case recordAutomationProposal =>
    obtain ⟨_, h⟩ := returns_discard.mp h
    exact .recordAutomationProposal h id
  case decideAutomationProposal =>
    obtain ⟨_, h⟩ := returns_discard.mp h
    exact .decideAutomationProposal h id
  case purgeExpiredAutomationTombstones =>
    obtain he | hs := purgeExpiredAutomationTombstones_ledger id h
    case inl => exact .erased he
    case inr => exact .quiet (hs ▸ .refl) rfl rfl
  all_goals refine .of_quiet ?_ id (by simp) (by simp)
  case admitSchedulingAutomation => exact admitSchedulingAutomation_quiet h
  case markAutomationSourcesUnavailable => exact markAutomationSourcesUnavailable_quiet h
  case cancelUnfollowed => exact cancelUnfollowed_quiet h
  all_goals obtain ⟨_, h⟩ := returns_discard.mp h
  case reserveAutomationExtraction => exact reserveAutomationExtraction_quiet h
  case recordAutomationExtractionFailure => exact recordAutomationExtractionFailure_quiet h
  case recordAutomationExtraction => exact recordAutomationExtraction_quiet h
  case beginAutomationCalendarWrite => exact beginAutomationCalendarWrite_quiet h
  case transitionAutomationCalendarWrite => exact transitionAutomationCalendarWrite_quiet h
  case transitionAutomationToReview => exact transitionAutomationToReview_quiet h

end Calendar
