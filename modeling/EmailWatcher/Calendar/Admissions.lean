import EmailWatcher.Calendar.Versions

-- One confirmation hands at most one event over to the calendar, and no stale one.
namespace Calendar

open Session

-- The identifier that an action draws for a calendar transaction.
def Action.drawn : Action → Option String
  | .decideAutomationProposal r => some r.transactionId
  | _                           => none

-- No event bears the identifier that is drawn.
def Fresh (s : Store) (a : Action) : Prop :=
  ∀ t ∈ a.drawn, ∀ e ∈ s.events.rows, e.transactionId ≠ some t

instance (s : Store) (a : Action) : Decidable (Fresh s a) :=
  inferInstanceAs <| Decidable (∀ t ∈ a.drawn, ∀ e ∈ s.events.rows, e.transactionId ≠ some t)

theorem Action.confirmation_eq_some {a : Action} {id : String} {l l' : Ledger} {x : Confirmation}
    (h : a.confirmation id l l' = some x) :
    a = .decideAutomationProposal x.request ∧ x.request.runId = id := by
  unfold Action.confirmation at h
  split at h
  case h_2 => cases h
  case h_1 r =>
    simp only [Option.bind_eq_bind, Option.bind_eq_some_iff] at h
    obtain ⟨_, _, _, _, _, _, h⟩ := h
    split at h
    case isFalse => cases h
    case isTrue hc =>
      obtain rfl := Option.some.inj h
      exact ⟨rfl, hc.left⟩

-- The status of the write of a run.
def RunState.writeStatus : RunState → WriteStatus
  | .writeAuthorized => .authorized
  | .writing         => .writing
  | .unresolved      => .unresolved
  | .reconciling     => .reconciling
  | .completed       => .completed
  | .failed          => .failed
  | _                => .cancelled

-- The write has been handed over.
def WriteStatus.submitted (status : WriteStatus) : Bool :=
  status ∉ [.authorized, .cancelled]

namespace Confirmation

variable (x : Confirmation)

def transactionId : String :=
  x.request.transactionId

-- The event with which a confirmation enters the log.
structure Logged (e : Event) : Prop where
  version     : e.stateVersion = x.run.stateVersion + 1
  decision    : e.decision = some .confirmed
  previous    : e.previousState = some .awaitingConfirmation
  next        : e.nextState = .writeAuthorized
  kind        : e.transitionKind = .writeAuthorized
  sha256      : e.payloadSha256 = some x.request.proposalSha256
  transaction : e.transactionId = some x.transactionId

-- An event with which an admission is lost.
structure Lost (e : Event) : Prop where
  transaction : e.transactionId = some x.transactionId
  next        : e.nextState = .sourceUnavailable

-- The event with which a confirmed admission is revoked, right after its confirmation.
structure Revoked (e : Event) : Prop extends x.Lost e where
  version  : e.stateVersion = x.run.stateVersion + 2
  previous : e.previousState = some .writeAuthorized
  kind     : e.transitionKind = .sourceUnavailable
  failure  : e.failureCode ∈ [some "source_unavailable", some "thread_unfollowed"]

-- No event hands the admission over.
def Unsent (log : List Event) : Prop :=
  ∀ e ∈ log, e.transactionId = some x.transactionId → e.nextState ≠ .writing

end Confirmation

-- The write of a run stems from its last confirmation.
structure Current (l : Ledger) (w : CalendarWrite) (x : Confirmation) : Prop where
  transaction : w.transactionId = x.transactionId
  proposal    : w.proposalVersion = x.request.proposalVersion
  sha256      : w.proposalSha256 = x.request.proposalSha256
  status      : ∀ r, l.run = some r → w.status = r.state.writeStatus
  authorized  : ∀ r, l.run = some r → r.state = .writeAuthorized →
    r.stateVersion = x.run.stateVersion + 1
  unsent      : ¬w.status.submitted → w.submittedAt = none ∧ x.Unsent l.log
  cancelled   : w.status = .cancelled → ∃ e ∈ l.log, x.Revoked e ∧ w.failureCode = e.failureCode
  standing    : w.status ≠ .cancelled → ∀ e ∈ l.log, ¬x.Lost e

structure Admissions [Codec] (l : Ledger) (c : Chronicle) : Prop where
  sound      : ∀ x ∈ c.confirmations, x.Sound
  logged     : ∀ x ∈ c.confirmations, ∃ e ∈ l.log, x.Logged e
  distinct   : (c.confirmations.map (·.transactionId)).Nodup
  adjacent   : ∀ x ∈ c.confirmations, ∀ e ∈ l.log, x.Lost e → x.Revoked e
  superseded : ∀ x ∈ c.confirmations.dropLast, (∃ e ∈ l.log, x.Revoked e) ∧ x.Unsent l.log
  unwritten  : l.write = none → c.confirmations = []
  current    : ∀ w, l.write = some w → ∃ x, c.confirmations.getLast? = some x ∧ Current l w x
  needed     : ∀ r, l.run = some r → r.state.writeStatus ≠ .cancelled → l.write.isSome

namespace Admissions

variable [Codec] {l l' : Ledger} {c : Chronicle} {r r' : Run} {e : Event} {x y : Confirmation}

theorem empty : Admissions .empty .empty where
  sound _ h      := by cases h
  logged _ h     := by cases h
  distinct       := .nil
  adjacent _ h   := by cases h
  superseded _ h := by cases h
  unwritten _    := rfl
  current _ h    := by cases h
  needed _ h     := by cases h

theorem eq_of_transactionId (h : Admissions l c) (hx : x ∈ c.confirmations)
    (hy : y ∈ c.confirmations) (ht : x.transactionId = y.transactionId) : x = y :=
  List.inj_on_of_nodup_map h.distinct hx hy ht

-- Once the write of a run is cancelled, everything that has been confirmed has been revoked.
theorem revoked_of_vacant (h : Admissions l c) (hvacant : ∀ w, l.write = some w → w.status = .cancelled)
    (hy : y ∈ c.confirmations) : (∃ e ∈ l.log, y.Revoked e) ∧ y.Unsent l.log := by
  cases hwrite : l.write
  case none =>
    rw [h.unwritten hwrite] at hy
    cases hy
  case some w =>
    obtain ⟨z, hz, hc⟩ := h.current w hwrite
    rw [← List.dropLast_append_getLast? z hz, List.mem_append, List.mem_singleton] at hy
    obtain hy | rfl := hy
    case inl => exact h.superseded y hy
    case inr =>
      have hcancelled := hvacant w hwrite
      obtain ⟨e, he, hr, _⟩ := hc.cancelled hcancelled
      exact ⟨⟨e, he, hr⟩, (hc.unsent (by rw [hcancelled]; decide)).right⟩

-- Every confirmation but the last has been followed by another one, whose transaction is its own.
theorem transactionId_ne (h : Admissions l c) (hx : x ∈ c.confirmations.dropLast)
    (hy : c.confirmations.getLast? = some y) : x.transactionId ≠ y.transactionId := by
  intro ht
  have hd := h.distinct
  rw [← List.dropLast_append_getLast? y hy, List.map_append, List.nodup_append] at hd
  exact hd.right.right _ (List.mem_map_of_mem hx) _ (by simp) ht

omit [Codec] in
theorem unsent_append (ha : Advance l l' r r' e) (hx : x.Unsent l.log) (hnext : e.nextState ≠ .writing) :
    x.Unsent l'.log := by
  intro e' he' ht
  obtain he' | rfl := ha.mem_log.mp he'
  case inl => exact hx e' he' ht
  case inr => exact hnext

-- An event leaves the past of a run as it is.
theorem log_append (h : Admissions l c) (hl : l'.log = l.log ++ [e])
    (hlost : ∀ x ∈ c.confirmations, x.Lost e → x.Revoked e)
    (hsent : ∀ x ∈ c.confirmations.dropLast, e.transactionId = some x.transactionId →
      e.nextState ≠ .writing)
    (hunwritten : l'.write = none → c.confirmations = [])
    (hcurrent : ∀ w, l'.write = some w → ∃ x, c.confirmations.getLast? = some x ∧ Current l' w x)
    (hneeded : ∀ r, l'.run = some r → r.state.writeStatus ≠ .cancelled → l'.write.isSome) :
    Admissions l' c where
  sound        := h.sound
  logged x hx  := by
    obtain ⟨e', he', hlogged⟩ := h.logged x hx
    exact ⟨e', hl ▸ List.mem_append_left _ he', hlogged⟩
  distinct     := h.distinct
  adjacent     := by
    intro x hx e' he' hx'
    rw [hl, List.mem_append, List.mem_singleton] at he'
    obtain he' | rfl := he'
    case inl => exact h.adjacent x hx e' he' hx'
    case inr => exact hlost x hx hx'
  superseded   := by
    intro x hx
    obtain ⟨⟨e₀, he₀, hrevoked⟩, hunsent⟩ := h.superseded x hx
    refine ⟨⟨e₀, hl ▸ List.mem_append_left _ he₀, hrevoked⟩, ?_⟩
    intro e' he'
    rw [hl, List.mem_append, List.mem_singleton] at he'
    obtain he' | rfl := he'
    case inl => exact hunsent e' he'
    case inr => exact hsent x hx
  unwritten    := hunwritten
  current      := hcurrent
  needed       := hneeded

-- A run that has no write, or only a cancelled one, goes on without a new one.
theorem advance (h : Admissions l c) (ha : Advance l l' r r' e)
    (hs : r.state.writeStatus = .cancelled) (hs' : r'.state.writeStatus = .cancelled)
    (he : e.transactionId = none) (hw : l'.write = l.write) : Admissions l' c := by
  refine h.log_append ha.logged ?_ ?_ ?_ ?_ ?_
  · exact fun x _ hx => absurd (hx.transaction.symm.trans he) (by simp)
  · exact fun x _ hx => absurd (hx.symm.trans he) (by simp)
  · exact fun hn => h.unwritten (hw ▸ hn)
  · intro w hw'
    obtain ⟨x, hx, hc⟩ := h.current w (hw ▸ hw')
    have hstatus : w.status = .cancelled := (hc.status r ha.before).trans hs
    refine ⟨x, hx, { hc with status := ?_, authorized := ?_, unsent := ?_, cancelled := ?_, standing := ?_ }⟩
    · intro r₁ h₁
      obtain rfl := Option.some.inj (ha.after.symm.trans h₁)
      exact hstatus.trans hs'.symm
    · intro r₁ h₁ hstate
      obtain rfl := Option.some.inj (ha.after.symm.trans h₁)
      rw [hstate] at hs'
      cases hs'
    · intro hn
      refine ⟨(hc.unsent hn).left, fun e' he' ht => ?_⟩
      obtain he' | rfl := ha.mem_log.mp he'
      case inl => exact (hc.unsent hn).right e' he' ht
      case inr => exact absurd (ht.symm.trans he) (by simp)
    · intro _
      obtain ⟨e', he', hrevoked⟩ := hc.cancelled hstatus
      exact ⟨e', ha.logged ▸ List.mem_append_left _ he', hrevoked⟩
    · exact fun hn => absurd hstatus hn
  · intro r₁ h₁ hn
    obtain rfl := Option.some.inj (ha.after.symm.trans h₁)
    exact absurd hs' hn

-- The write of a run is handed over, or reports what has become of it.
theorem submit {w w' : CalendarWrite} (h : Admissions l c) (ha : Advance l l' r r' e)
    (hbefore : l.write = some w) (hafter : l'.write = some w') (hw : w.status ≠ .cancelled)
    (ht : w'.transactionId = w.transactionId) (hp : w'.proposalVersion = w.proposalVersion)
    (hd : w'.proposalSha256 = w.proposalSha256) (hs : w'.status = r'.state.writeStatus)
    (hs' : w'.status.submitted) (hnext : e.nextState ≠ .sourceUnavailable)
    (hsent : e.nextState = .writing → e.transactionId = some w.transactionId) : Admissions l' c := by
  obtain ⟨x, hx, hc⟩ := h.current w hbefore
  refine h.log_append ha.logged ?_ ?_ ?_ ?_ ?_
  · exact fun y _ hy => absurd hy.next hnext
  · intro y hy hte hwriting
    refine h.transactionId_ne hy hx ?_
    rw [← hc.transaction]
    exact Option.some.inj (hte.symm.trans (hsent hwriting))
  · exact fun hn => absurd (hn.symm.trans hafter) (by simp)
  · intro w₁ h₁
    obtain rfl := Option.some.inj (hafter.symm.trans h₁)
    refine ⟨x, hx, ?_⟩
    constructor
    case transaction => exact ht.trans hc.transaction
    case proposal    => exact hp.trans hc.proposal
    case sha256      => exact hd.trans hc.sha256
    case status      =>
      intro r₁ h₁
      obtain rfl := Option.some.inj (ha.after.symm.trans h₁)
      exact hs
    case authorized  =>
      intro r₁ h₁ hstate
      obtain rfl := Option.some.inj (ha.after.symm.trans h₁)
      rw [hs, hstate] at hs'
      cases hs'
    case unsent      => exact fun hn => absurd hs' hn
    case cancelled   =>
      intro hn
      rw [hn] at hs'
      cases hs'
    case standing    =>
      intro _ e' he'
      obtain he' | rfl := ha.mem_log.mp he'
      case inl => exact hc.standing hw e' he'
      case inr => exact fun hlost => hnext hlost.next
  · intro _ _ _
    rw [hafter]
    rfl

theorem revoke {w : CalendarWrite} {cause : Cause} (h : Admissions l c) (ha : Advance l l' r r' e)
    (hstate : r.state = .writeAuthorized) (hnext : r'.state = .sourceUnavailable)
    (hfailure : e.failureCode = some cause.text) (hbefore : l.write = some w)
    (hauthorized : w.status = .authorized)
    (hafter : l'.write = some { w with status := .cancelled, failureCode := some cause.text })
    (ht : e.transactionId = some w.transactionId) : Admissions l' c := by
  obtain ⟨x, hx, hc⟩ := h.current w hbefore
  have hrevoked : x.Revoked e := {
    transaction := by rw [ht, hc.transaction]
    next        := by rw [ha.next, hnext]
    version     := by rw [ha.numbered, hc.authorized r ha.before hstate]
    previous    := by rw [ha.previous, hstate]
    kind        := by rw [ha.kind, hnext]
    failure     := by rw [hfailure]; cases cause <;> decide
  }
  have hunsent := hc.unsent (by rw [hauthorized]; decide)
  refine h.log_append ha.logged ?_ ?_ ?_ ?_ ?_
  · intro y hy hlost
    have heq := Option.some.inj (hlost.transaction.symm.trans hrevoked.transaction)
    rw [h.eq_of_transactionId hy (List.mem_of_getLast? hx) heq]
    exact hrevoked
  · intro _ _ _
    rw [hrevoked.next]
    decide
  · exact fun hn => absurd (hn.symm.trans hafter) (by simp)
  · intro w₁ h₁
    obtain rfl := Option.some.inj (hafter.symm.trans h₁)
    refine ⟨x, hx, ?_⟩
    constructor
    case transaction => exact hc.transaction
    case proposal    => exact hc.proposal
    case sha256      => exact hc.sha256
    case status      =>
      intro r₁ h₁
      obtain rfl := Option.some.inj (ha.after.symm.trans h₁)
      rw [hnext]
      rfl
    case authorized  =>
      intro r₁ h₁ hstate'
      obtain rfl := Option.some.inj (ha.after.symm.trans h₁)
      rw [hnext] at hstate'
      cases hstate'
    case unsent      =>
      refine fun _ => ⟨hunsent.left, unsent_append ha hunsent.right ?_⟩
      rw [hrevoked.next]
      decide
    case cancelled   =>
      refine fun _ => ⟨e, ?_, hrevoked, hfailure.symm⟩
      exact ha.mem_log.mpr (.inr rfl)
    case standing    => exact fun hn => absurd rfl hn
  · intro _ _ _
    rw [hafter]
    rfl

omit [Codec] in
theorem transition_states {a b : RunState} (h : (a, b) ∈ calendarWriteTransitions) :
    WriteTransition.writeStatus b = b.writeStatus ∧ b.writeStatus.submitted ∧
      a.writeStatus ≠ .cancelled ∧ b ≠ .sourceUnavailable ∧ b ≠ .writing := by
  revert h
  cases a <;> cases b <;> decide

theorem quiet (h : Admissions l c) (hv : Versioned l c) (hq : Quiet l l') : Admissions l' c := by
  cases hq
  case idle hl => exact hl ▸ h
  case cleared hl =>
    subst hl
    refine { h with current := fun w hw => ?_ }
    obtain ⟨x, hx, hc⟩ := h.current w hw
    exact ⟨x, hx, { hc with }⟩
  case admitted r e habsent hl hstate hversion hsequence hnumbered hprevious hnext hdecision ht =>
    have hnone : l.write = none := congrArg Ledger.write (hv.absent habsent)
    subst hl
    refine h.log_append rfl ?_ ?_ h.unwritten ?_ ?_
    · exact fun x _ hx => absurd (hx.transaction.symm.trans ht) (by simp)
    · exact fun x _ hx => absurd (hx.symm.trans ht) (by simp)
    · exact fun w hw => absurd (hnone.symm.trans hw) (by simp)
    · intro r₁ h₁ hn
      obtain rfl := Option.some.inj h₁
      rw [hstate] at hn
      exact absurd rfl hn
  case prepared r r' e ha hstep hdecision ht hproposals hwrite =>
    refine h.advance ha ?_ ?_ ht hwrite
    · obtain ⟨hs, _⟩ | ⟨hs, _⟩ := hstep
      case inl =>
        revert hs
        cases r.state <;> decide
      case inr => rw [hs]; rfl
    · obtain ⟨_, hs⟩ | ⟨_, hs⟩ := hstep
      all_goals
        revert hs
        cases r'.state <;> decide
  case cancelled r r' e ha hstep hnext hdecision ht hproposals hwrite =>
    refine h.advance ha ?_ (by rw [hnext]; rfl) ht hwrite
    obtain hs | hs := hstep
    all_goals
      revert hs
      cases r.state <;> decide
  case revoked r r' e w ha cause hstate hnext hdecision hfailure hbefore hauthorized hafter ht _ =>
    exact h.revoke ha hstate hnext hfailure hbefore hauthorized hafter ht
  case handedOff r r' e w ha now hstate hnext hdecision ht hbefore hauthorized hafter hproposals =>
    refine h.submit ha hbefore hafter (by simp [hauthorized]) rfl rfl rfl ?_ rfl ?_ fun _ => ht
    · rw [hnext]
      rfl
    · rw [ha.next, hnext]
      decide
  case settled r r' e w w' ha hstep hdecision hbefore hafter hstatus ht hproposal hproposals =>
    obtain ⟨hsame, hsubmitted, hlive, hlost, hwriting⟩ := transition_states hstep
    obtain ⟨x, _, hc⟩ := h.current w hbefore
    rw [hsame] at hstatus
    refine h.submit ha hbefore hafter ?_ ht hproposal.left hproposal.right hstatus ?_ ?_ ?_
    · rw [hc.status r ha.before]
      exact hlive
    · rw [hstatus]
      exact hsubmitted
    · rw [ha.next]
      exact hlost
    · rw [ha.next]
      exact fun hn => absurd hn hwriting

theorem quietly (h : Admissions l c) (hv : Versioned l c) (hq : Quietly l l') : Admissions l' c := by
  induction hq
  case refl              => exact h
  case tail hqs hq ih    => exact ih.quiet (hv.quietly hqs) hq

theorem proposed {p : Proposal} (h : Admissions l c) (hp : Proposed p l l') :
    Admissions l' { c with proposals := c.proposals ++ [p] } := by
  obtain ⟨r, r', e, ha, hs, hs', _, _, ht⟩ := hp.advance
  have h' : Admissions l' c := by
    refine h.advance ha (by rw [hs]; rfl) ?_ ht hp.write
    revert hs'
    cases r'.state <;> decide
  exact { h' with }

theorem logged_of_confirmed (hx : Confirmed x l l') :
    ∃ r' e, Advance l l' x.run r' e ∧ r'.state = .writeAuthorized ∧ x.Logged e := by
  obtain ⟨r', e, ha, hs, hdecision, ht, hpayload, hsha⟩ := hx.advance
  refine ⟨r', e, ha, hs, ?_⟩
  constructor
  case version     => exact ha.numbered
  case decision    => exact hdecision
  case previous    => rw [ha.previous, hx.sound.state]
  case next        => exact ha.next.trans hs
  case kind        => rw [ha.kind, hs]
  case sha256      => exact hsha
  case transaction => exact ht

-- The write that a confirmation authorizes stems from it; no event has borne its transaction before.
theorem current_of_confirmed (hx : Confirmed x l l')
    (hf : ∀ e ∈ l.log, e.transactionId ≠ some x.transactionId) {w : CalendarWrite} (hw : l'.write = some w) :
    Current l' w x := by
  obtain ⟨r', e, ha, hs, hlogged⟩ := logged_of_confirmed hx
  obtain ⟨w', hw', hstatus, ht, hp, hd, hsubmitted⟩ := hx.write
  obtain rfl := Option.some.inj (hw'.symm.trans hw)
  constructor
  case transaction => exact ht
  case proposal    => exact hp
  case sha256      => exact hd
  case status      =>
    intro r₁ h₁
    obtain rfl := Option.some.inj (ha.after.symm.trans h₁)
    rw [hstatus, hs]
    rfl
  case authorized  =>
    intro r₁ h₁ _
    obtain rfl := Option.some.inj (ha.after.symm.trans h₁)
    exact ha.version
  case unsent      =>
    refine fun _ => ⟨hsubmitted, unsent_append ha (fun e' he' ht' => absurd ht' (hf e' he')) ?_⟩
    rw [hlogged.next]
    decide
  case cancelled   => exact fun hn => absurd (hstatus.symm.trans hn) (by decide)
  case standing    =>
    intro _ e' he' hlost
    obtain he' | rfl := ha.mem_log.mp he'
    case inl => exact hf e' he' hlost.transaction
    case inr => exact absurd (hlost.next.symm.trans hlogged.next) (by decide)

theorem confirmedBy (h : Admissions l c) (hx : Confirmed x l l')
    (hf : ∀ e ∈ l.log, e.transactionId ≠ some x.transactionId) :
    Admissions l' { c with confirmations := c.confirmations ++ [x] } := by
  obtain ⟨r', e, ha, _, hlogged⟩ := logged_of_confirmed hx
  obtain ⟨w, hw, _⟩ := hx.write
  constructor
  case sound      =>
    intro y hy
    obtain hy | hy := List.mem_append.mp hy
    case inl => exact h.sound y hy
    case inr => exact List.mem_singleton.mp hy ▸ hx.sound
  case logged     =>
    intro y hy
    obtain hy | hy := List.mem_append.mp hy
    case inl =>
      obtain ⟨e', he', hy'⟩ := h.logged y hy
      exact ⟨e', ha.mem_log.mpr (.inl he'), hy'⟩
    case inr => exact ⟨e, ha.mem_log.mpr (.inr rfl), List.mem_singleton.mp hy ▸ hlogged⟩
  case distinct   =>
    rw [List.map_append, List.nodup_append]
    refine ⟨h.distinct, by simp, ?_⟩
    intro t ht' t' ht'' heq
    obtain ⟨y, hy, rfl⟩ := List.mem_map.mp ht'
    obtain rfl : t' = x.transactionId := by simpa using ht''
    obtain ⟨e', he', hy'⟩ := h.logged y hy
    exact hf e' he' (heq ▸ hy'.transaction)
  case adjacent   =>
    intro y hy e' he' hlost
    obtain he' | rfl := ha.mem_log.mp he'
    case inr => exact absurd (hlost.next.symm.trans hlogged.next) (by decide)
    case inl =>
      obtain hy | hy := List.mem_append.mp hy
      case inl => exact h.adjacent y hy e' he' hlost
      case inr => exact absurd hlost.transaction (List.mem_singleton.mp hy ▸ hf e' he')
  case superseded =>
    rw [List.dropLast_concat]
    intro y hy
    obtain ⟨⟨e', he', hr⟩, hunsent⟩ := h.revoked_of_vacant hx.vacant hy
    refine ⟨⟨e', ha.mem_log.mpr (.inl he'), hr⟩, unsent_append ha hunsent ?_⟩
    rw [hlogged.next]
    decide
  case unwritten  => exact fun hn => absurd (hn.symm.trans hw) (by simp)
  case current    => exact fun w₁ h₁ => ⟨x, List.getLast?_concat, current_of_confirmed hx hf h₁⟩
  case needed     =>
    intro _ _ _
    rw [hw]
    rfl

theorem note {s s' : Store} {a : Action} {id : String} (h : Admissions (s.ledger id) c)
    (hv : Versioned (s.ledger id) c) (hf : Fresh s a) (ht : Turn s a s' id) :
    Admissions (s'.ledger id) (c.note id s a s') := by
  have hv' := hv.note ht
  unfold Chronicle.note at hv' ⊢
  split
  case isTrue hn =>
    rw [if_pos hn] at hv'
    rw [hv'.absent (Option.isNone_iff_eq_none.mp hn)]
    exact .empty
  case isFalse hn =>
    cases ht
    case quiet hq hp hc =>
      simpa [hp, hc] using h.quietly hv hq
    case proposed p hm hp hc =>
      simpa [hp, hc] using h.proposed hm
    case confirmed x hm hp hc =>
      have hfresh : ∀ e ∈ (s.ledger id).log, e.transactionId ≠ some x.transactionId := by
        intro e he
        refine hf _ ?_ e (List.mem_of_mem_filter he)
        rw [(Action.confirmation_eq_some hc).left]
        rfl
      simpa [hp, hc] using h.confirmedBy hm hfresh
    case erased he => exact absurd (congrArg (·.run.isNone) he) hn

end Admissions

section Replay

variable [Codec] {s : Store} {id : String} {c : Chronicle} {x : Confirmation} {r : ProposalDecision}
  {row : Run}

-- The request is made once more; only the transaction, the event and the time are its own.
structure ProposalDecision.Repeats (r : ProposalDecision) (x : Confirmation) : Prop where
  decision : r.decision = x.request.decision
  version  : r.expectedStateVersion = x.request.expectedStateVersion
  proposal : r.proposalVersion = x.request.proposalVersion
  sha256   : r.proposalSha256 = x.request.proposalSha256

omit [Codec] in
theorem mem_log {e : Event} : e ∈ (s.ledger id).log ↔ e ∈ s.events.rows ∧ e.runId = id := by
  simp [Store.ledger, Store.log]

-- The confirmation that the generation before an event stands for is the one that the event logs.
theorem Admissions.confirms (h : Admissions (s.ledger id) c) (hv : Versioned (s.ledger id) c)
    (hrow : s.runs.get id = some row) (hx : x ∈ c.confirmations) {e : Event}
    (he : e ∈ (s.ledger id).log) (hl : x.Logged e) : Confirms (s.ledger id) c e x := by
  obtain ⟨y, hy⟩ := hv.confirmed e he hl.decision
  obtain ⟨e', he', hl'⟩ := h.logged y hy.noted
  obtain rfl : e' = e := by
    refine (hv.faithful row hrow).eq_of_stateVersion he' he ?_
    exact hl'.version.trans hy.version.symm
  have ht : x.transactionId = y.transactionId :=
    Option.some.inj (hl.transaction.symm.trans hl'.transaction)
  rwa [h.eq_of_transactionId hx hy.noted ht]

omit [Codec] in
theorem Store.cancellation_inv {v : Nat} {sha : Option String} {e : Event}
    (h : s.cancellation id v sha = some e) :
    ∃ a ∈ (s.ledger id).log, a.stateVersion = v ∧ e ∈ (s.ledger id).log ∧ e.stateVersion = v + 1 ∧
      e.transactionId = a.transactionId ∧ e.nextState = .sourceUnavailable := by
  obtain ⟨a, ha, hf⟩ := List.exists_of_findSome?_eq_some h
  split at hf
  case isFalse => cases hf
  case isTrue hc =>
    have he := List.find?_some hf
    simp only [Bool.and_eq_true, decide_eq_true_eq] at hc he
    obtain ⟨⟨⟨⟨⟨⟨hid, hversion⟩, _⟩, _⟩, _⟩, _⟩, _⟩ := hc
    obtain ⟨⟨⟨⟨⟨⟨⟨heid, heversion⟩, _⟩, ht⟩, _⟩, hnext⟩, _⟩, _⟩ := he
    exact ⟨a, mem_log.mpr ⟨ha, hid⟩, hversion,
      mem_log.mpr ⟨List.mem_of_find?_eq_some hf, heid.trans hid⟩, hversion ▸ heversion, ht, hnext⟩

-- The cancellation of an admission is found by the version of its confirmation.
theorem Admissions.cancellation_eq_some (h : Admissions (s.ledger id) c)
    (hv : Versioned (s.ledger id) c) (hrow : s.runs.get id = some row) (hx : x ∈ c.confirmations)
    {e : Event} (he : e ∈ (s.ledger id).log) (hr : x.Revoked e) :
    s.cancellation id (x.run.stateVersion + 1) (some x.request.proposalSha256) = some e := by
  obtain ⟨a, ha, hl⟩ := h.logged x hx
  have hsome : (s.cancellation id (x.run.stateVersion + 1)
      (some x.request.proposalSha256)).isSome := by
    refine List.findSome?_isSome_iff.mpr ⟨a, (mem_log.mp ha).left, ?_⟩
    rw [if_pos (by simp [(mem_log.mp ha).right, hl.version, hl.decision, hl.previous, hl.next, hl.kind,
      hl.sha256])]
    refine List.find?_isSome.mpr ⟨e, (mem_log.mp he).left, ?_⟩
    have hfailure := hr.failure
    simp only [List.mem_cons, List.not_mem_nil, or_false] at hfailure
    simp [(mem_log.mp ha).right, (mem_log.mp he).right, hl.version, hl.transaction, hr.version,
      hr.transaction, hr.previous, hr.next, hr.kind, hfailure]
  obtain ⟨e', he'⟩ := Option.isSome_iff_exists.mp hsome
  obtain ⟨_, _, _, hmem, hversion, _⟩ := Store.cancellation_inv he'
  rw [he', (hv.faithful row hrow).eq_of_stateVersion hmem he (hversion.trans hr.version.symm)]

theorem Admissions.cancellation_eq_none (h : Admissions (s.ledger id) c)
    (hv : Versioned (s.ledger id) c) (hrow : s.runs.get id = some row) (hx : x ∈ c.confirmations)
    (hn : ∀ e ∈ (s.ledger id).log, ¬x.Lost e) (sha : Option String) :
    s.cancellation id (x.run.stateVersion + 1) sha = none := by
  refine Option.eq_none_iff_forall_ne_some.mpr fun e he => ?_
  obtain ⟨a, ha, hversion, hmem, _, ht, hnext⟩ := Store.cancellation_inv he
  obtain ⟨a', ha', hl⟩ := h.logged x hx
  obtain rfl : a = a' :=
    (hv.faithful row hrow).eq_of_stateVersion ha ha' (hversion.trans hl.version.symm)
  exact hn e hmem ⟨ht.trans hl.transaction, hnext⟩

theorem Admissions.replay_cancelled (h : Admissions (s.ledger id) c)
    (hv : Versioned (s.ledger id) c) (hrow : s.runs.get id = some row) (hx : x ∈ c.confirmations)
    {e : Event} (he : e ∈ (s.ledger id).log) (hlost : x.Lost e) (hid : r.runId = id)
    (hr : r.Repeats x) :
    (decideAutomationProposal r).Returns s (.cancelled (row.cancelledBy e) e) s := by
  have hrevoked := h.adjacent x hx e he hlost
  have hs := h.sound x hx
  have hrow' : row.runId = id := Table.key_of_get hrow
  have hversion : r.expectedStateVersion + 1 = x.run.stateVersion + 1 := by
    rw [hr.version, hs.version]
  have hc : s.cancellation row.runId (r.expectedStateVersion + 1) (some r.proposalSha256) = some e := by
    rw [hrow', hversion, hr.sha256]
    exact h.cancellation_eq_some hv hrow hx he hrevoked
  obtain ⟨a, ha, hl⟩ := h.logged x hx
  have hgeneration : r.proposalVersion =
      s.calendarProposalGeneration row.runId (some (r.expectedStateVersion + 1)) := by
    rw [Store.calendarProposalGeneration_eq, hrow', hversion, ← hl.version,
      (h.confirms hv hrow hx ha hl).generation, hs.proposal, hr.proposal]
  -- There is a write, and if it is the one of the cancelled admission, then it says so.
  obtain ⟨w, hw⟩ : ∃ w, s.writes.get id = some w := by
    refine Option.ne_none_iff_exists'.mp fun hn => ?_
    rw [h.unwritten hn] at hx
    cases hx
  obtain ⟨z, hz, hcurrent⟩ := h.current w hw
  have hledger : some w.transactionId = e.transactionId →
      w.status = .cancelled ∧ w.failureCode = e.failureCode := by
    intro ht
    obtain rfl : z = x := by
      refine h.eq_of_transactionId (List.mem_of_getLast? hz) hx ?_
      rw [← hcurrent.transaction]
      exact Option.some.inj (ht.trans hlost.transaction)
    have hcancelled : w.status = .cancelled := by
      by_contra hn
      exact hcurrent.standing hn e he hlost
    obtain ⟨e', he', hr', hfailure⟩ := hcurrent.cancelled hcancelled
    obtain rfl : e' = e :=
      (hv.faithful row hrow).eq_of_stateVersion he' he (hr'.version.trans hrevoked.version.symm)
    exact ⟨hcancelled, hfailure⟩
  have hadmission : (cancelledCalendarAdmission row (r.expectedStateVersion + 1)
      (some r.proposalSha256) (some r.proposalVersion)).Returns s
        (some (.cancelled (row.cancelledBy e) e)) s := by
    simp only [cancelledCalendarAdmission, returns_bind, returns_query]
    refine ⟨_, _, ⟨rfl, rfl⟩, ?_⟩
    simp only [id_eq, hc]
    rw [if_pos (by simpa using hgeneration)]
    simp only [returns_bind, returns_find, returns_require, returns_pure]
    exact ⟨w, s, ⟨hrow' ▸ hw, rfl⟩, (), s, ⟨hledger, rfl⟩, trivial, rfl⟩
  have hchecked := hs.checked
  rw [← hr.version, ← hr.proposal, ← hr.sha256] at hchecked
  have hconfirm : r.decision = .confirm := hr.decision.trans hs.confirm
  simp only [decideAutomationProposal, ProposalDecision.check, returns_bind, returns_require,
    returns_query, returns_find]
  refine ⟨(), s, ⟨hchecked, rfl⟩, s, s, ⟨rfl, rfl⟩, row, s, ⟨hid ▸ hrow, rfl⟩,
    some (.cancelled (row.cancelledBy e) e), s, ?_, ?_⟩
  · simp only [ProposalDecision.replay, hconfirm]
    exact hadmission
  · simp only [returns_pure, and_self]

-- A confirmation that stands is told by its write, as long as its proposal is stored.
theorem Admissions.replay_standing (h : Admissions (s.ledger id) c)
    (hv : Versioned (s.ledger id) c) (hrow : s.runs.get id = some row) (hx : x ∈ c.confirmations)
    (hn : ∀ e ∈ (s.ledger id).log, ¬x.Lost e) (hid : r.runId = id) (hr : r.Repeats x) :
    if s.proposals.rows.any fun p => p.runId = id && p.proposalVersion = r.proposalVersion &&
        p.proposalSha256 = r.proposalSha256 then
      (decideAutomationProposal r).Returns s (.run row) s
    else
      (decideAutomationProposal r).Raises s (.missing id) := by
  subst hid
  have hs := h.sound x hx
  have hchecked := hs.checked
  rw [← hr.version, ← hr.proposal, ← hr.sha256] at hchecked
  have hconfirm : r.decision = .confirm := hr.decision.trans hs.confirm
  have hreplay : (r.replay row).Returns s none s := by
    have hrow' : row.runId = r.runId := Table.key_of_get hrow
    have hversion : r.expectedStateVersion + 1 = x.run.stateVersion + 1 := by
      rw [hr.version, hs.version]
    simp only [ProposalDecision.replay, hconfirm, cancelledCalendarAdmission, returns_bind,
      returns_query]
    refine ⟨_, _, ⟨rfl, rfl⟩, ?_⟩
    simp only [id_eq, hrow', hversion, h.cancellation_eq_none hv hrow hx hn, returns_pure, and_self]
  split
  case isTrue hp =>
    obtain ⟨p, hp⟩ := Option.isSome_iff_exists.mp <| List.find?_isSome.mpr <| List.any_eq_true.mp hp
    -- The write is the one of the confirmation, which is the last one.
    obtain ⟨w, hw⟩ : ∃ w, s.writes.get r.runId = some w := by
      refine Option.ne_none_iff_exists'.mp fun hn => ?_
      rw [h.unwritten hn] at hx
      cases hx
    obtain ⟨z, hz, hcurrent⟩ := h.current w hw
    obtain rfl : z = x := by
      rw [← List.dropLast_append_getLast? z hz, List.mem_append, List.mem_singleton] at hx
      obtain hx | hx := hx
      case inl =>
        obtain ⟨⟨e, he, hrevoked⟩, _⟩ := h.superseded x hx
        exact absurd hrevoked.toLost (hn e he)
      case inr => exact hx.symm
    have hlive : w.status ≠ .cancelled := by
      intro hcancelled
      obtain ⟨e, he, hrevoked, _⟩ := hcurrent.cancelled hcancelled
      exact hn e he hrevoked.toLost
    have hrepeated : (r.repeated row (some w)).Returns s true s := by
      simp only [ProposalDecision.repeated, hconfirm]
      rw [if_pos ⟨hcurrent.proposal.trans hr.proposal.symm, hcurrent.sha256.trans hr.sha256.symm⟩]
      simp only [returns_bind, returns_require, returns_pure]
      exact ⟨(), s, ⟨hlive, rfl⟩, trivial, rfl⟩
    simp only [decideAutomationProposal, ProposalDecision.check, returns_bind, returns_require,
      returns_query, returns_find]
    refine ⟨(), s, ⟨hchecked, rfl⟩, s, s, ⟨rfl, rfl⟩, row, s, ⟨hrow, rfl⟩, none, s, hreplay, ?_⟩
    simp only [returns_bind, returns_find]
    exact ⟨p, s, ⟨hp, rfl⟩, true, s, hw ▸ hrepeated, returns_pure.mpr ⟨rfl, rfl⟩⟩
  case isFalse hp =>
    have hnone : s.proposals.rows.find? (fun p => p.runId = r.runId &&
        p.proposalVersion = r.proposalVersion && p.proposalSha256 = r.proposalSha256) = none := by
      rw [List.find?_eq_none]
      intro p hmem hfound
      exact hp (List.any_eq_true.mpr ⟨p, hmem, hfound⟩)
    refine raises_bind (a := ()) (returns_require.mpr ⟨hchecked, rfl⟩) ?_
    refine raises_bind (returns_query.mpr ⟨rfl, rfl⟩) ?_
    refine raises_bind (returns_find.mpr ⟨hrow, rfl⟩) ?_
    refine raises_bind hreplay ?_
    simp only [id_eq, hnone]
    exact raises_find_none

end Replay

section Writes

-- What may become of a write that no confirmation replaces.
structure Follows (w w' : CalendarWrite) : Prop where
  transaction : w'.transactionId = w.transactionId
  submitted   : w.status.submitted → w'.status.submitted

namespace Follows

variable {l l' : Ledger} {w w' : CalendarWrite}

theorem refl (w : CalendarWrite) : Follows w w :=
  ⟨rfl, id⟩

theorem refl_write (l : Ledger) : Option.Rel Follows l.write l.write := by
  cases l.write
  case none   => exact .none
  case some w => exact .some (.refl w)

theorem quiet (h : Quiet l l') : Option.Rel Follows l.write l'.write := by
  cases h
  case idle hl => exact hl ▸ refl_write l
  case admitted hl _ _ _ _ _ _ _ _ => exact hl ▸ refl_write l
  case cleared hl => exact hl ▸ refl_write l
  case prepared hw => exact hw ▸ refl_write l
  case cancelled hw => exact hw ▸ refl_write l
  case revoked w _ _ _ _ _ _ hbefore hauthorized hafter _ _ =>
    rw [hbefore, hafter]
    refine .some ⟨rfl, fun hs => ?_⟩
    rw [hauthorized] at hs
    cases hs
  case handedOff hbefore _ hafter _ =>
    rw [hbefore, hafter]
    exact .some ⟨rfl, fun _ => rfl⟩
  case settled hstep _ hbefore hafter hstatus ht _ _ =>
    obtain ⟨hsame, hsubmitted, _⟩ := Admissions.transition_states hstep
    rw [hbefore, hafter]
    exact .some ⟨ht, fun _ => by rw [hstatus, hsame]; exact hsubmitted⟩

theorem trans {o₁ o₂ o₃ : Option CalendarWrite} (h₁ : Option.Rel Follows o₁ o₂)
    (h₂ : Option.Rel Follows o₂ o₃) : Option.Rel Follows o₁ o₃ := by
  cases h₁
  case none =>
    exact h₂
  case some h =>
    cases h₂
    case some h' => exact .some ⟨h'.transaction.trans h.transaction, fun hs => h'.submitted (h.submitted hs)⟩

theorem quietly (h : Quietly l l') : Option.Rel Follows l.write l'.write := by
  induction h
  case refl           => exact refl_write l
  case tail _ hq ih   => exact trans ih (quiet hq)

end Follows

variable [Codec] {s s' : Store} {a : Action} {id : String} {w w' : CalendarWrite}

-- A transaction keeps the write of a run that goes on, or replaces a cancelled one by a new one.
theorem Turn.write (h : Turn s a s' id) (hr : (s'.runs.get id).isSome) :
    Option.Rel Follows (s.writes.get id) (s'.writes.get id) ∨
    (∀ w, s.writes.get id = some w → w.status = .cancelled) ∧
      ∃ w', s'.writes.get id = some w' ∧ w'.status = .authorized := by
  cases h
  case quiet hq _ _     => exact .inl (Follows.quietly hq)
  case proposed hp _ _  =>
    refine .inl ?_
    rw [show s'.writes.get id = s.writes.get id from hp.write]
    exact Follows.refl_write (s.ledger id)
  case confirmed x hx _ _ =>
    obtain ⟨w', hw', hstatus, _⟩ := hx.write
    exact .inr ⟨hx.vacant, w', hw', hstatus⟩
  case erased he =>
    have hnone : s'.runs.get id = none := congrArg Ledger.run he
    rw [hnone] at hr
    cases hr

theorem Turn.submitted (h : Turn s a s' id) (hr : (s'.runs.get id).isSome)
    (hw : s.writes.get id = some w) (hs : w.status.submitted) :
    ∃ w', s'.writes.get id = some w' ∧ w'.status.submitted ∧
      w'.transactionId = w.transactionId := by
  obtain hf | ⟨hv, _⟩ := h.write hr
  case inl =>
    rw [hw] at hf
    cases hf' : s'.writes.get id
    case none    =>
      rw [hf'] at hf
      cases hf
    case some w' =>
      rw [hf'] at hf
      cases hf
      case some hf => exact ⟨w', rfl, hf.submitted hs, hf.transaction⟩
  case inr =>
    rw [hv w hw] at hs
    cases hs

theorem run_submitted (hw : s.writes.get id = some w) (hs : w.status.submitted) {bs : List Action}
    (ha : machine.Always (fun s => (s.runs.get id).isSome) s bs) :
    ∃ w', (run s bs).writes.get id = some w' ∧ w'.status.submitted ∧
      w'.transactionId = w.transactionId := by
  rw [← machine_run]
  refine Machine.relation (I := fun _ => True) (C := fun _ _ => True)
    (R := fun s s' => ∀ w, s.writes.get id = some w → w.status.submitted →
      ∃ w', s'.writes.get id = some w' ∧ w'.status.submitted ∧ w'.transactionId = w.transactionId)
    ?_ ?_ ?_ ?_ trivial Machine.guarded_true ha w hw hs
  · exact fun _ w hw hs => ⟨w, hw, hs, rfl⟩
  · intro s₁ s₂ s₃ h₁ h₂ w hw hs
    obtain ⟨w₂, hw₂, hs₂, ht₂⟩ := h₁ w hw hs
    obtain ⟨w₃, hw₃, hs₃, ht₃⟩ := h₂ w₂ hw₂ hs₂
    exact ⟨w₃, hw₃, hs₃, ht₃.trans ht₂⟩
  · exact fun _ _ _ _ _ _ => trivial
  · exact fun _ _ _ _ _ _ hr hstep w hw hs => (step_turn hstep id).submitted hr hw hs

-- A write is cancelled only before it is handed over.
theorem Turn.cancelled (h : Turn s a s' id) (hr : (s'.runs.get id).isSome)
    (hw : s'.writes.get id = some w') (hs : w'.status = .cancelled) :
    ∃ w, s.writes.get id = some w ∧ ¬w.status.submitted ∧ w'.transactionId = w.transactionId := by
  obtain hf | ⟨_, w₁, hw₁, hs₁⟩ := h.write hr
  case inl =>
    rw [hw] at hf
    cases hf' : s.writes.get id
    case none   =>
      rw [hf'] at hf
      cases hf
    case some w =>
      rw [hf'] at hf
      cases hf
      case some hf =>
        refine ⟨w, rfl, fun hn => ?_, hf.transaction⟩
        have hn' := hf.submitted hn
        rw [hs] at hn'
        cases hn'
  case inr =>
    obtain rfl := Option.some.inj (hw.symm.trans hw₁)
    rw [hs] at hs₁
    cases hs₁

theorem Turn.transaction (h : Turn s a s' id) (hr : (s'.runs.get id).isSome)
    (hw : s.writes.get id = some w) :
    ∃ w', s'.writes.get id = some w' ∧
      (w'.transactionId = w.transactionId ∨ w.status = .cancelled ∧ w'.status = .authorized) := by
  obtain hf | ⟨hv, w', hw', hs'⟩ := h.write hr
  case inl =>
    rw [hw] at hf
    cases hf' : s'.writes.get id
    case none    =>
      rw [hf'] at hf
      cases hf
    case some w' =>
      rw [hf'] at hf
      cases hf
      case some hf => exact ⟨w', rfl, .inl hf.transaction⟩
  case inr => exact ⟨w', hw', .inr ⟨hv w hw, hs'⟩⟩

end Writes

section HandOff

variable [Codec]

-- A confirmation hands over at most one event, and never a stale one; a cancelled one hands over none,
-- however often it is repeated.
structure OneHandOff (id : String) (s : Store) (c : Chronicle) : Prop where
  -- A write stems from a confirmation of what was then the current proposal of the run.
  confirmed   : ∀ w, s.writes.get id = some w → ∃ x ∈ c.confirmations, x.Sound ∧
    x.proposal ∈ c.proposals ∧ w.transactionId = x.transactionId ∧
    w.proposalVersion = x.proposal.proposalVersion ∧ w.proposalSha256 = x.proposal.proposalSha256
  kept        : ∀ w bs, s.writes.get id = some w → w.status.submitted →
    machine.Always (fun s => (s.runs.get id).isSome) s bs →
    ∃ w', (run s bs).writes.get id = some w' ∧ w'.status.submitted ∧
      w'.transactionId = w.transactionId
  replaced    : ∀ a s' w, machine.step s a = .ok s' → (s'.runs.get id).isSome →
    s.writes.get id = some w → ∃ w', s'.writes.get id = some w' ∧
      (w'.transactionId = w.transactionId ∨ w.status = .cancelled ∧ w'.status = .authorized)
  cancelled   : ∀ a s' w', machine.step s a = .ok s' → (s'.runs.get id).isSome →
    s'.writes.get id = some w' → w'.status = .cancelled →
    ∃ w, s.writes.get id = some w ∧ ¬w.status.submitted ∧ w'.transactionId = w.transactionId
  unsubmitted : ∀ w, s.writes.get id = some w → w.status = .cancelled → w.submittedAt = none
  unsent      : ∀ x ∈ c.confirmations, (∃ e ∈ s.log id, x.Lost e) → x.Unsent (s.log id)
  replayed    : ∀ x ∈ c.confirmations, ∀ row, s.runs.get id = some row →
    ∀ e ∈ s.log id, x.Lost e → ∀ r : ProposalDecision, r.runId = id → r.Repeats x →
      (decideAutomationProposal r).Returns s (.cancelled (row.cancelledBy e) e) s
  repeated    : ∀ x ∈ c.confirmations, ∀ row, s.runs.get id = some row →
    (∀ e ∈ s.log id, ¬x.Lost e) → ∀ r : ProposalDecision, r.runId = id → r.Repeats x →
      if s.proposals.rows.any fun p => p.runId = id && p.proposalVersion = r.proposalVersion &&
          p.proposalSha256 = r.proposalSha256 then
        (decideAutomationProposal r).Returns s (.run row) s
      else
        (decideAutomationProposal r).Raises s (.missing id)

theorem Admissions.oneHandOff {s : Store} {id : String} {c : Chronicle}
    (h : Admissions (s.ledger id) c) (hv : Versioned (s.ledger id) c) : OneHandOff id s c where
  confirmed w hw             := by
    obtain ⟨x, hx, hc⟩ := h.current w hw
    have hmem := List.mem_of_getLast? hx
    have hs := h.sound x hmem
    obtain ⟨e, he, hl⟩ := h.logged x hmem
    obtain ⟨row, hrow⟩ : ∃ row, s.runs.get id = some row := by
      refine Option.ne_none_iff_exists'.mp fun hn => ?_
      rw [hv.absent hn] at he
      cases he
    exact ⟨x, hmem, hs, (h.confirms hv hrow hmem he hl).recorded, hc.transaction,
      hc.proposal.trans hs.proposal.symm, hc.sha256.trans hs.sha256.symm⟩
  kept _ _ hw hs ha          := run_submitted hw hs ha
  replaced _ _ _ hstep hr    := (step_turn hstep id).transaction hr
  cancelled _ _ _ hstep hr   := (step_turn hstep id).cancelled hr
  unsubmitted w hw hs        := by
    obtain ⟨x, _, hc⟩ := h.current w hw
    exact (hc.unsent (by rw [hs]; decide)).left
  unsent x hx                := by
    rintro ⟨e, he, hlost⟩
    cases hw : s.writes.get id
    case none =>
      rw [h.unwritten hw] at hx
      cases hx
    case some w =>
      obtain ⟨z, hz, hc⟩ := h.current w hw
      rw [← List.dropLast_append_getLast? z hz, List.mem_append, List.mem_singleton] at hx
      obtain hx | rfl := hx
      case inl => exact (h.superseded x hx).right
      case inr =>
        have hcancelled : w.status = .cancelled := by
          by_contra hn
          exact hc.standing hn e he hlost
        exact (hc.unsent (by rw [hcancelled]; decide)).right
  replayed x hx row hrow e he hlost r hid hr := h.replay_cancelled hv hrow hx he hlost hid hr
  repeated x hx row hrow hn r hid hr         := h.replay_standing hv hrow hx hn hid hr

-- The identifiers of the calendar transactions are drawn afresh.
theorem one_hand_off (id : String) (as : List Action) (hf : machine.Guarded Fresh ∅ as) :
    OneHandOff id (run ∅ as) ((observed id).run (∅, .empty) as).snd := by
  rw [← observed_run id]
  have h : Versioned (((observed id).run (∅, .empty) as).fst.ledger id)
        ((observed id).run (∅, .empty) as).snd ∧
      Admissions (((observed id).run (∅, .empty) as).fst.ledger id)
        ((observed id).run (∅, .empty) as).snd := by
    refine Machine.guarded_invariant (m := observed id) (s := (∅, .empty))
      (I := fun x => Versioned (x.fst.ledger id) x.snd ∧ Admissions (x.fst.ledger id) x.snd)
      (C := fun x a => Fresh x.fst a) ?_ ⟨.empty, .empty⟩ (Machine.guarded_monitor.mpr hf)
    intro x a x' h hfresh hstep
    obtain ⟨hstep, hc⟩ := Machine.monitor_step_eq_ok hstep
    have ht := step_turn hstep id
    exact hc ▸ ⟨h.left.note ht, h.right.note h.left hfresh ht⟩
  exact h.right.oneHandOff h.left

end HandOff

namespace Sample

-- Identifiers of 36 characters and digests of 64.
def identity (c : Char) : String :=
  String.ofList (List.replicate 36 c)

def hash : String :=
  String.ofList (List.replicate 64 '0')

@[reducible]
def meeting : Codec where
  sha256 _                  := hash
  normalizeValidatedAddress := some
  encodeAttendees _         := "[]"
  encodeProposal _          := "{}"
  encodeViolations _        := "[]"
  lowercaseCode _           := true
  fromIsoFormat text        :=
    if text = "10:00" then some ⟨36000 * Instant.second, some 0⟩
    else if text = "10:30" then some ⟨37800 * Instant.second, some 0⟩
    else none
  zoneInfo _                := some fun _ => 0

def runId : String :=
  identity 'r'

-- The request of the person who is asked.
def confirms (transaction event : Char) : ProposalDecision where
  runId                := runId
  expectedStateVersion := 4
  proposalVersion      := 1
  proposalSha256       := hash
  decision             := .confirm
  writeAuthorized      := true
  transactionId        := identity transaction
  eventId              := identity event
  now                  := Instant.second

def admits : List Action := [
  .admitSchedulingAutomation {
    runId                := runId
    eventId              := identity '1'
    provider             := "microsoft365"
    accountId            := "work"
    calendarPrincipalKey := hash
    sourceMessageKey     := hash
    createdAt            := 0
    expiresAt            := 86400 * Instant.second
  },
  .reserveAutomationExtraction {
    runId                := runId
    expectedStateVersion := 1
    sourceContentSha256  := hash
    contextAt            := "now"
    timezone             := "UTC"
    bodyCharLimit        := 1000
    organizerAddress     := "owner@example.com"
    payloadId            := identity 'x'
    requestId            := identity 'q'
    eventId              := identity '2'
    now                  := 0
  } true true
]

def proposes : List Action := [
  .recordAutomationExtraction {
    runId                := runId
    expectedStateVersion := 2
    payloadId            := identity 'x'
    resultSha256         := hash
    resultJson           := "{}"
    violations           := []
    acceptedState        := some .proposing
    acceptedCode         := none
    eventId              := identity '3'
    now                  := 0
  } true,
  .recordAutomationProposal {
    runId                := runId
    expectedStateVersion := 3
    extractionPayloadId  := identity 'x'
    requestSha256        := hash
    subject              := "Meeting"
    attendees            := []
    start                := some "10:00"
    stop                 := some "10:30"
    timezone             := some "UTC"
    suggestionReason     := some "free"
    emptyReason          := none
    observedAt           := 0
    payloadId            := identity 'p'
    eventId              := identity '4'
  } true
]

-- The proposal is confirmed and its event is handed over; then the mail of the run is removed.
def handsOver : List Action :=
  admits ++ proposes ++ [
    .decideAutomationProposal (confirms 't' '5'),
    .beginAutomationCalendarWrite {
      runId                := runId
      expectedStateVersion := 5
      eventId              := identity '6'
      now                  := Instant.second
    } true,
    .markAutomationSourcesUnavailable [[runId]] .sourceUnavailable (fun _ => identity '7')
      Instant.second
  ]

-- One run of the observer answers what is asked of the hand over.
theorem observed_handsOver :
    letI := meeting
    (observed runId).Guarded (fun x a => Fresh x.fst a) (∅, .empty) handsOver ∧
    ((observed runId).run (∅, .empty) handsOver).snd.confirmations.map (·.transactionId) =
      [identity 't'] ∧
    (((observed runId).run (∅, .empty) handsOver).fst.writes.get runId).map (·.status) = some .writing ∧
    (∀ e ∈ ((observed runId).run (∅, .empty) handsOver).fst.events.rows, e.nextState ≠ .sourceUnavailable) ∧
    (transact ((observed runId).run (∅, .empty) handsOver).fst (.decideAutomationProposal (confirms 'u' '8'))).fst =
      .error (.missing runId) := by
  decide +kernel

theorem one_hand_off_meeting :
    letI := meeting
    machine.Guarded Fresh ∅ handsOver ∧
    OneHandOff runId (run ∅ handsOver) ((observed runId).run (∅, .empty) handsOver).snd :=
  letI := meeting
  have h : machine.Guarded Fresh ∅ handsOver := Machine.guarded_monitor.mp observed_handsOver.left
  ⟨h, one_hand_off runId handsOver h⟩

-- The confirmation stands, and its event is being written; but the proposal is gone, and the request
-- is not recognized any more.
theorem confirmation_forgotten :
    letI := meeting
    machine.Guarded Fresh ∅ handsOver ∧
    ((observed runId).run (∅, .empty) handsOver).snd.confirmations.map (·.transactionId) =
      [identity 't'] ∧
    ((run ∅ handsOver).writes.get runId).map (·.status) = some .writing ∧
    (∀ e ∈ (run ∅ handsOver).events.rows, e.nextState ≠ .sourceUnavailable) ∧
    (transact (run ∅ handsOver) (.decideAutomationProposal (confirms 'u' '8'))).fst =
      .error (.missing runId) := by
  rw [← @observed_run meeting runId]
  exact ⟨Machine.guarded_monitor.mp observed_handsOver.left, observed_handsOver.right⟩

end Sample

end Calendar
