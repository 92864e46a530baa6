import EmailWatcher.Calendar.Chronicles

-- No two proposals of a run have the same version.
namespace Calendar

namespace Ledger

variable {l l' : Ledger} {e : Event} {b : Option Nat}

theorem generation_append (h : l'.log = l.log ++ [e]) (b : Option Nat) :
    l'.generation b =
      l.generation b + if e.proposes && b.all (e.stateVersion < ·) then 1 else 0 := by
  simp only [generation, h, List.countP_append, List.countP_singleton]

theorem generation_le (h : l'.log = l.log ++ [e]) : l.generation b ≤ l'.generation b := by
  rw [generation_append h]
  omega

-- An event has no part in what lies before it.
theorem generation_before (h : l'.log = l.log ++ [e]) {v : Nat} (hv : v ≤ e.stateVersion) :
    l'.generation (some v) = l.generation (some v) := by
  rw [generation_append h, if_neg, Nat.add_zero]
  simp [hv]

-- All proposals of a log lie before the next version.
theorem generation_next {r : Run} (h : Journal.Faithful l.log r.state r.stateVersion) :
    l.generation (some (r.stateVersion + 1)) = l.generation none := by
  refine List.countP_congr fun e he => ?_
  have hle : e.stateVersion ≤ r.stateVersion := h.stateVersion_le he
  simp [Nat.lt_succ_iff.mpr hle]

end Ledger

namespace Advance

variable {l l' : Ledger} {r r' : Run} {e : Event}

theorem faithful (h : Advance l l' r r' e) (hf : Journal.Faithful l.log r.state r.stateVersion) :
    Journal.Faithful l'.log r'.state r'.stateVersion := by
  rw [h.logged, h.version, ← h.next]
  exact hf.append h.sequence h.numbered h.previous

end Advance

-- A confirmation is for the proposal that the generation before it stands for.
structure Confirms (l : Ledger) (c : Chronicle) (e : Event) (x : Confirmation) : Prop where
  noted      : x ∈ c.confirmations
  recorded   : x.proposal ∈ c.proposals
  version    : e.stateVersion = x.run.stateVersion + 1
  payload    : e.payloadId = some x.proposal.payloadId
  generation : l.generation (some e.stateVersion) = x.proposal.proposalVersion

structure Versioned (l : Ledger) (c : Chronicle) : Prop where
  absent     : l.run = none → l = .empty
  faithful   : ∀ r, l.run = some r → Journal.Faithful l.log r.state r.stateVersion
  increasing : c.proposals.Pairwise (·.proposalVersion < ·.proposalVersion)
  bounded    : ∀ p ∈ c.proposals, p.proposalVersion ≤ l.generation none
  noted      : ∀ p ∈ l.proposals, p ∈ c.proposals
  written    : ∀ w, l.write = some w → w.proposalVersion ≤ l.generation none
  current    : ∀ r, l.run = some r → r.state = .awaitingConfirmation →
    ∀ p ∈ l.proposals, r.currentPayloadId = some p.payloadId → p.proposalVersion = l.generation none
  confirmed  : ∀ e ∈ l.log, e.decision = some .confirmed → ∃ x, Confirms l c e x

namespace Versioned

variable {l l' : Ledger} {c : Chronicle} {r r' : Run} {e : Event}

theorem empty : Versioned .empty .empty where
  absent _       := rfl
  faithful _ h   := by cases h
  increasing     := .nil
  bounded _ h    := by cases h
  noted _ h      := by cases h
  written _ h    := by cases h
  current _ h    := by cases h
  confirmed _ h  := by cases h

theorem log_le (h : Versioned l c) (hr : l.run = some r) (he : e ∈ l.log) :
    e.stateVersion ≤ r.stateVersion :=
  (h.faithful r hr).stateVersion_le he

-- The confirmations of a log stand when an event is appended that is none.
theorem confirmed_append (h : Versioned l c) (ha : Advance l l' r r' e)
    (he : e.decision ≠ some .confirmed) {e' : Event} (hm : e' ∈ l'.log)
    (hd : e'.decision = some .confirmed) : ∃ x, Confirms l' c e' x := by
  obtain hm | rfl := ha.mem_log.mp hm
  case inr => exact absurd hd he
  case inl =>
    obtain ⟨x, hx⟩ := h.confirmed e' hm hd
    refine ⟨x, { hx with generation := ?_ }⟩
    rw [Ledger.generation_before ha.logged, hx.generation]
    rw [ha.numbered]
    exact (h.log_le ha.before hm).trans (Nat.le_succ _)

-- The version that a new proposal is given.
theorem latestVersion_le (h : Versioned l c) : l.latestVersion ≤ l.generation none := by
  refine max_le ?_ ?_
  · rw [List.foldl_max]
    refine max_le (Nat.zero_le _) ?_
    cases hm : (l.proposals.map (·.proposalVersion)).max?
    case none   => exact Nat.zero_le _
    case some n =>
      obtain ⟨p, hp, rfl⟩ := List.mem_map.mp (List.max?_mem hm)
      exact h.bounded p (h.noted p hp)
  · cases hw : l.write
    case none   => exact Nat.zero_le _
    case some w => exact h.written w hw

-- An advance that makes no proposal and confirms none.
theorem advance (h : Versioned l c) (ha : Advance l l' r r' e)
    (hs : r'.state ≠ .awaitingConfirmation) (he : e.decision ≠ some .confirmed)
    (hp : ∀ p ∈ l'.proposals, p ∈ l.proposals)
    (hw : ∀ w', l'.write = some w' → ∃ w, l.write = some w ∧
      w'.proposalVersion = w.proposalVersion) : Versioned l' c := by
  have hle := Ledger.generation_le (b := none) ha.logged
  constructor
  case absent     => exact fun hn => absurd (hn.symm.trans ha.after) (by simp)
  case faithful   =>
    intro r₁ h₁
    obtain rfl := Option.some.inj (ha.after.symm.trans h₁)
    exact ha.faithful (h.faithful r ha.before)
  case increasing => exact h.increasing
  case bounded    => exact fun p hp => (h.bounded p hp).trans hle
  case noted      => exact fun p hp' => h.noted p (hp p hp')
  case written    =>
    intro w' hw'
    obtain ⟨w, hw, hv⟩ := hw w' hw'
    exact hv ▸ (h.written w hw).trans hle
  case current    =>
    intro r₁ h₁ hstate
    obtain rfl := Option.some.inj (ha.after.symm.trans h₁)
    exact absurd hstate hs
  case confirmed  => exact fun _ => h.confirmed_append ha he

theorem quiet (h : Versioned l c) (hq : Quiet l l') : Versioned l' c := by
  cases hq
  case idle hl => exact hl ▸ h
  case cleared hl =>
    subst hl
    constructor
    case absent     =>
      intro hn
      rw [h.absent hn]
      rfl
    case faithful   => exact h.faithful
    case increasing => exact h.increasing
    case bounded    => exact h.bounded
    case noted      => exact fun p hp => absurd hp List.not_mem_nil
    case written    => exact h.written
    case current    => exact fun _ _ _ p hp => absurd hp List.not_mem_nil
    case confirmed  =>
      intro e he hd
      obtain ⟨x, hx⟩ := h.confirmed e he hd
      exact ⟨x, hx.noted, hx.recorded, hx.version, hx.payload, hx.generation⟩
  case admitted r e habsent hl hstate hversion hsequence hnumbered hprevious hnext hdecision _ =>
    have hempty := h.absent habsent
    subst hl
    have hle : l.generation none ≤
        Ledger.generation { l with run := some r, log := l.log ++ [e] } none :=
      Ledger.generation_le rfl
    constructor
    case absent     => exact fun hn => by cases hn
    case faithful   =>
      intro r₁ h₁
      obtain rfl := Option.some.inj h₁
      rw [hempty, hstate, hversion, ← hnext]
      exact .single hsequence hnumbered hprevious
    case increasing => exact h.increasing
    case bounded    => exact fun p hp => (h.bounded p hp).trans hle
    case noted      => exact h.noted
    case written    => exact fun w hw => (h.written w hw).trans hle
    case current    =>
      intro r₁ h₁ hs
      obtain rfl := Option.some.inj h₁
      rw [hstate] at hs
      cases hs
    case confirmed  =>
      intro e₁ h₁ hd
      rw [hempty] at h₁
      obtain rfl := List.mem_singleton.mp h₁
      rw [hdecision] at hd
      cases hd
  case prepared r r' e ha hstep hdecision htransaction hproposals hwrite =>
    refine h.advance ha ?_ hdecision (fun p hp => hproposals ▸ hp) fun w hw => ⟨w, hwrite ▸ hw, rfl⟩
    intro hs
    rw [hs] at hstep
    obtain ⟨_, hstep⟩ | ⟨_, hstep⟩ := hstep <;> exact absurd hstep (by decide)
  case cancelled r r' e ha hstep hnext hdecision htransaction hproposals hwrite =>
    refine h.advance ha (by simp [hnext]) (by simp [hdecision]) (by simp [hproposals]) ?_
    exact fun w hw => ⟨w, hwrite ▸ hw, rfl⟩
  case revoked r r' e w ha cause hstate hnext hdecision hfailure hbefore hauthorized hafter _ hproposals =>
    refine h.advance ha (by simp [hnext]) (by simp [hdecision]) (by simp [hproposals]) ?_
    intro w' hw'
    obtain rfl := Option.some.inj (hafter.symm.trans hw')
    exact ⟨w, hbefore, rfl⟩
  case handedOff r r' e w ha now hstate hnext hdecision _ hbefore hauthorized hafter hproposals =>
    refine h.advance ha (by simp [hnext]) (by simp [hdecision]) (fun p hp => hproposals ▸ hp) ?_
    intro w' hw'
    obtain rfl := Option.some.inj (hafter.symm.trans hw')
    exact ⟨w, hbefore, rfl⟩
  case settled r r' e w w' ha hstep hdecision hbefore hafter hstatus htransaction hproposal hproposals =>
    refine h.advance ha ?_ (by simp [hdecision]) (fun p hp => hproposals ▸ hp) ?_
    · intro hs
      rw [hs] at hstep
      exact absurd hstep (by cases r.state <;> decide)
    · intro w₁ h₁
      obtain rfl := Option.some.inj (hafter.symm.trans h₁)
      exact ⟨w, hbefore, hproposal.left⟩

theorem quietly (h : Versioned l c) (hq : Quietly l l') : Versioned l' c := by
  induction hq
  case refl           => exact h
  case tail _ hq ih   => exact ih.quiet hq

theorem proposed {p : Proposal} (h : Versioned l c) (hp : Proposed p l l') :
    Versioned l' { c with proposals := c.proposals ++ [p] } := by
  obtain ⟨r, r', e, ha, hs, hs', hcurrent, hdecision, _⟩ := hp.advance
  have hversion : p.proposalVersion = l.generation none + 1 := by
    rw [hp.version, max_eq_right h.latestVersion_le]
  have hproposes : e.proposes := by
    simp only [Event.proposes, ha.previous, hs, ha.next, Bool.and_eq_true, decide_eq_true_eq]
    exact ⟨trivial, hs'⟩
  have hgeneration : l'.generation none = l.generation none + 1 := by
    rw [Ledger.generation_append ha.logged, hproposes]
    rfl
  constructor
  case absent     => exact fun hn => absurd (hn.symm.trans ha.after) (by simp)
  case faithful   =>
    intro r₁ h₁
    obtain rfl := Option.some.inj (ha.after.symm.trans h₁)
    exact ha.faithful (h.faithful r ha.before)
  case increasing =>
    refine List.pairwise_append.mpr ⟨h.increasing, List.pairwise_singleton .., ?_⟩
    intro q hq p' hp'
    obtain rfl := List.mem_singleton.mp hp'
    rw [hversion]
    exact Nat.lt_succ_of_le (h.bounded q hq)
  case bounded    =>
    intro q hq
    rw [hgeneration]
    obtain hq | hq := List.mem_append.mp hq
    case inl => exact (h.bounded q hq).trans (Nat.le_succ _)
    case inr =>
      obtain rfl := List.mem_singleton.mp hq
      exact hversion.le
  case noted      =>
    intro q hq
    rw [hp.proposals] at hq
    obtain hq | hq := List.mem_append.mp hq
    case inl => exact List.mem_append_left _ (h.noted q hq)
    case inr => exact List.mem_append_right _ hq
  case written    =>
    intro w hw
    rw [hgeneration]
    exact (h.written w (hp.write ▸ hw)).trans (Nat.le_succ _)
  case current    =>
    intro r₁ h₁ _ q hq hid
    obtain rfl := Option.some.inj (ha.after.symm.trans h₁)
    rw [hcurrent, Option.some.injEq] at hid
    rw [hp.proposals] at hq
    obtain hq | hq := List.mem_append.mp hq
    case inl => exact absurd hid.symm (hp.fresh q hq)
    case inr =>
      obtain rfl := List.mem_singleton.mp hq
      rw [hversion, hgeneration]
  case confirmed  =>
    intro e' hm hd
    obtain ⟨x, hx⟩ := h.confirmed_append ha (by simp [hdecision]) hm hd
    exact ⟨x, { hx with recorded := List.mem_append_left _ hx.recorded }⟩

theorem confirmedBy [Codec] {x : Confirmation} (h : Versioned l c) (hx : Confirmed x l l') :
    Versioned l' { c with confirmations := c.confirmations ++ [x] } := by
  obtain ⟨r', e, ha, hs, hdecision, _, hpayload, _⟩ := hx.advance
  have hle := Ledger.generation_le (b := none) ha.logged
  have hversion : x.proposal.proposalVersion = l.generation none :=
    h.current x.run ha.before hx.sound.state _ hx.stored hx.sound.current
  constructor
  case absent     => exact fun hn => absurd (hn.symm.trans ha.after) (by simp)
  case faithful   =>
    intro r₁ h₁
    obtain rfl := Option.some.inj (ha.after.symm.trans h₁)
    exact ha.faithful (h.faithful x.run ha.before)
  case increasing => exact h.increasing
  case bounded    => exact fun p hp => (h.bounded p hp).trans hle
  case noted      => exact fun p hp => h.noted p (hx.proposals ▸ hp)
  case written    =>
    intro w hw
    obtain ⟨w', hw', _, _, hv, _⟩ := hx.write
    obtain rfl := Option.some.inj (hw'.symm.trans hw)
    rw [hv, ← hx.sound.proposal, hversion]
    exact hle
  case current    =>
    intro r₁ h₁ hstate
    obtain rfl := Option.some.inj (ha.after.symm.trans h₁)
    rw [hs] at hstate
    cases hstate
  case confirmed  =>
    intro e' hm hd
    obtain hm | rfl := ha.mem_log.mp hm
    case inl =>
      obtain ⟨y, hy⟩ := h.confirmed e' hm hd
      refine ⟨y, List.mem_append_left _ hy.noted, hy.recorded, hy.version, hy.payload, ?_⟩
      rw [Ledger.generation_before ha.logged, hy.generation]
      rw [ha.numbered]
      exact (h.log_le ha.before hm).trans (Nat.le_succ _)
    case inr =>
      refine ⟨x, List.mem_append_right _ (List.mem_singleton_self x), h.noted _ hx.stored, ha.numbered,
        hpayload, ?_⟩
      rw [Ledger.generation_before ha.logged le_rfl, ha.numbered,
        Ledger.generation_next (h.faithful x.run ha.before), hversion]

theorem note [Codec] {s s' : Store} {a : Action} {id : String} (h : Versioned (s.ledger id) c)
    (ht : Turn s a s' id) : Versioned (s'.ledger id) (c.note id s a s') := by
  unfold Chronicle.note
  split
  case isTrue hn =>
    -- Whatever the action has done, nothing is left of the run.
    have hempty : s'.ledger id = .empty := by
      rw [Option.isNone_iff_eq_none] at hn
      cases ht
      case quiet hq _ _      => exact (h.quietly hq).absent hn
      case proposed hp _ _   => exact (h.proposed hp).absent hn
      case confirmed hx _ _  => exact (h.confirmedBy hx).absent hn
      case erased he         => exact he
    exact hempty ▸ .empty
  case isFalse hn =>
    cases ht
    case quiet hq hp hc =>
      simpa [hp, hc] using h.quietly hq
    case proposed p hm hp hc =>
      simpa [hp, hc] using h.proposed hm
    case confirmed x hm hp hc =>
      simpa [hp, hc] using h.confirmedBy hm
    case erased he => exact absurd (congrArg (·.run.isNone) he) hn

end Versioned

-- The proposals of a run have ever greater versions, and a confirmation can be told by the number of
-- proposals before it.
structure VersionsNeverRepeat (id : String) (s : Store) (c : Chronicle) : Prop where
  increasing : c.proposals.Pairwise (·.proposalVersion < ·.proposalVersion)
  stored     : ∀ p ∈ s.proposals, p.runId = id → p ∈ c.proposals
  confirmed  : ∀ e ∈ s.events, e.runId = id → e.decision = some .confirmed →
    ∃ x ∈ c.confirmations, x.proposal ∈ c.proposals ∧ e.stateVersion = x.run.stateVersion + 1 ∧
      e.payloadId = some x.proposal.payloadId ∧
      s.calendarProposalGeneration id (some e.stateVersion) = x.proposal.proposalVersion

theorem versions_never_repeat [Codec] (id : String) (as : List Action) :
    VersionsNeverRepeat id (run ∅ as) ((observed id).run (∅, .empty) as).snd := by
  have h : Versioned ((run ∅ as).ledger id) ((observed id).run (∅, .empty) as).snd := by
    rw [← observed_run id]
    refine Machine.invariant (m := observed id) (s := (∅, .empty))
      (I := fun x => Versioned (x.fst.ledger id) x.snd) ?_ .empty as
    intro x a x' h hstep
    obtain ⟨hstep, hc⟩ := Machine.monitor_step_eq_ok hstep
    exact hc ▸ h.note (step_turn hstep id)
  constructor
  case increasing => exact h.increasing
  case stored     => exact fun p hp hid => h.noted p (List.mem_filter.mpr ⟨hp, by simp [hid]⟩)
  case confirmed  =>
    intro e he hid hd
    obtain ⟨x, hx⟩ := h.confirmed e (List.mem_filter.mpr ⟨he, by simp [hid]⟩) hd
    refine ⟨x, hx.noted, hx.recorded, hx.version, hx.payload, ?_⟩
    rw [Store.calendarProposalGeneration_eq]
    exact hx.generation

end Calendar
