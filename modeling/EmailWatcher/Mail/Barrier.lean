import EmailWatcher.Connect.Dispatch
import EmailWatcher.Mail.Units

-- What an accepted removal keeps from being read, recorded and captured, and for how long.
namespace Mail

open Transaction Store Relation

variable {s s' : Store} {t t' : Target} {i i' : Intent} {c : Candidate} {m m' : Message}

-- The removal of the target has been accepted, and it is yet to be completed.
structure Barred (s : Store) (t : Target) (i : Intent) : Prop where
  target  : t ∈ s.targets
  pending : t.state = .pending
  intent  : s.intents.get t.intentId = some i
  removes : i.kind ≠ .unfollow

section Available

variable {e : Eligibility} {id : String}

theorem available_iff :
    s.available e c ↔ ∀ t ∈ s.targets, ∀ i ∈ s.intents, ¬withholds e c t i := by
  simp [available, Table.mem_rows]

theorem Barred.not_available (hb : Barred s t i) (h : Sound s) (hc : t.holds i c)
    (e : Eligibility) : ¬s.available e c := by
  intro ha
  refine available_iff.mp ha t hb.target i (Table.mem_of_get hb.intent) ?_
  have hk : i.intentId = t.intentId := Table.key_of_get hb.intent
  have hs := h.pending hb.target hb.pending hb.intent
  have he : e.covers i.kind := by
    have := hb.removes
    cases hk : i.kind <;> simp_all [Eligibility.covers]
  simp [withholds, hk, hs, hb.pending, he, hc]

theorem messageAvailable_of_mem (hm : m ∈ s.messages) :
    s.messageAvailable e m.messageId = s.available e m.candidate := by
  have hg : s.messages.get m.messageId = some m := Table.get_of_mem hm
  simp [messageAvailable, hg]

end Available

section Withheld

variable [Codec]

-- Nobody gets to see the message or to do anything with it.
structure Hidden (s : Store) (m : Message) : Prop where
  view  : m ∉ s.logicalMessages
  body  : ∀ body fetchedAt, s.recordBody m.messageId body fetchedAt = s
  job   : ∀ (q : Connect.State) r attachment x, r.messageId = m.messageId →
    q.createConnectJob r (s.messageAvailable CONTENT r.messageId) attachment ≠ .ok x
  reset : ∀ (q : Connect.State) id j expected lane x, q.jobs.get id = some j →
    j.messageId = m.messageId →
    q.resetConnectJobForResubmission id expected lane (s.messageAvailable CONTENT) ≠ .ok x
  -- A job is claimed only to find out what became of its submission.
  claim : ∀ (q : Connect.State) lane expected now j d, j.messageId = m.messageId →
    (q.claimConnectLaneHead lane expected (s.messageAvailable CONTENT) now).snd = some (j, d) →
    ∃ d₀, (q.expireWaitingConnectJobs now).laneHead lane = some (j, d₀) ∧
      (d₀.state ≠ .waiting ∨ d₀.submissionPossible)

-- A capture of the source ends without a write.
def Refuses (s : Store) (c : Capture) : Prop :=
  ∀ s' b, s.capture c = .ok (s', b) → s' = s ∧ b = false

-- What belongs to the logical message that the target was frozen from is withheld.
structure Withheld (s : Store) (t : Target) (i : Intent) : Prop where
  hidden  : ∀ m ∈ s.messages, t.holds i m.candidate → Hidden s m
  refused : ∀ c identity, c.mailboxIdentityKey = some identity →
    t.holds i (c.candidate identity) → Refuses s c

omit [Codec] in
theorem Hidden.of_not_available (hm : m ∈ s.messages) (h : ∀ e, ¬s.available e m.candidate) :
    Hidden s m := by
  have hc : ¬s.messageAvailable CONTENT m.messageId := by
    rw [messageAvailable_of_mem hm]
    exact h CONTENT
  constructor
  case view =>
    intro hv
    obtain ⟨_, hv⟩ := List.mem_filter.mp hv
    simp only [Bool.and_eq_true] at hv
    exact h RECORD hv.right
  case body =>
    intro body fetchedAt
    unfold Store.recordBody
    rw [if_neg fun ha => hc ha.left]
  case job =>
    intro q r attachment x hr hok
    exact hc <| hr ▸ Connect.State.content_of_createConnectJob hok
  case reset =>
    intro q id j expected lane x hj hjm hok
    obtain ⟨j', hj', ha⟩ := Connect.State.content_of_reset hok
    rw [hj] at hj'
    cases hj'
    exact hc <| hjm ▸ ha
  case claim =>
    intro q lane expected now j d hjm hok
    obtain ⟨d₀, hl, ha⟩ := Connect.State.content_of_claim hok
    refine ⟨d₀, hl, ha.resolve_left ?_⟩
    rw [hjm]
    exact hc

theorem Refuses.of_not_available {c : Capture} {identity : String}
    (hi : c.mailboxIdentityKey = some identity) (h : ¬s.available RECORD (c.candidate identity)) :
    Refuses s c := by
  have hadm : ∀ {k a}, ¬Admitted s c k a := by
    intro k a ha
    have hk : identity = k := Option.some.inj <| hi.symm.trans ha.named
    exact h <| hk ▸ ha.available
  intro s' b hok
  cases captured hok
  case refused   => exact ⟨rfl, rfl⟩
  case copy ha _ _ => exact absurd ha hadm
  case row ha _ _  => exact absurd ha hadm

theorem Barred.withheld (hb : Barred s t i) (h : Sound s) : Withheld s t i where
  hidden _ hm hh    := .of_not_available hm fun e => hb.not_available h hh e
  refused _ _ hi hh := .of_not_available hi <| hb.not_available h hh RECORD

omit [Codec] in
theorem Intent.kind_congr (h : i'.frozen = i.frozen) : i'.kind = i.kind := by
  have hk : i'.frozen.kind = i.frozen.kind := by rw [h]
  exact hk

-- Membership depends on what acceptance has frozen only.
omit [Codec] in
theorem Target.holds_congr (ht : t'.frozen = t.frozen) (hi : i'.frozen = i.frozen) :
    t'.holds i' c = t.holds i c := by
  have h : t'.frozen.holds i'.frozen c = t.frozen.holds i.frozen c := by rw [ht, hi]
  exact h

theorem Withheld.congr (ht : t'.frozen = t.frozen) (hi : i'.frozen = i.frozen)
    (h : Withheld s t' i') : Withheld s t i where
  hidden m hm hh := h.hidden m hm <| Target.holds_congr ht hi ▸ hh
  refused c k hk hh := h.refused c k hk <| Target.holds_congr ht hi ▸ hh

end Withheld

section Moved

variable {t₁ t₂ : Table Message} {k : String}

-- The row is where it was, unless it was a legacy row that has got its identity.
structure Moved (m m' : Message) : Prop where
  id       : m'.messageId = m.messageId
  provider : m'.provider = m.provider
  account  : m'.accountId = m.accountId
  source   : m'.providerMessageId = m.providerMessageId
  identity : m'.mailboxIdentityKey = m.mailboxIdentityKey ∨ m.mailboxIdentityKey = none

theorem Moved.of_candidate (h : m'.candidate = m.candidate) : Moved m m' := by
  simp only [Message.candidate, Candidate.mk.injEq, Option.some.injEq] at h
  exact ⟨h.left, h.right.left, h.right.right.left, h.right.right.right.right,
    .inl h.right.right.right.left⟩

theorem Moved.trans {m₁ m₂ m₃ : Message} (h₁ : Moved m₁ m₂) (h₂ : Moved m₂ m₃) : Moved m₁ m₃ where
  id       := h₂.id.trans h₁.id
  provider := h₂.provider.trans h₁.provider
  account  := h₂.account.trans h₁.account
  source   := h₂.source.trans h₁.source
  identity := by
    cases h₁.identity
    case inl h => exact h₂.identity.imp (·.trans h) (h ▸ ·)
    case inr h => exact .inr h

theorem Moved.candidate (h : Moved m m') :
    m'.candidate = m.candidate ∨ m.mailboxIdentityKey = none ∧ m'.mailboxIdentityKey ≠ none := by
  by_cases he : m'.mailboxIdentityKey = m.mailboxIdentityKey
  case pos => exact .inl <| by simp [Message.candidate, h.id, h.provider, h.account, h.source, he]
  case neg =>
    have hn := h.identity.resolve_left he
    exact .inr ⟨hn, hn ▸ he⟩

-- The row with the id stays in the table.
def Stays (k : String) (t₁ t₂ : Table Message) : Prop :=
  ∀ m, t₁.get k = some m → ∃ m', t₂.get k = some m' ∧ Moved m m'

theorem Stays.refl (k : String) (t : Table Message) : Stays k t t :=
  fun m hm => ⟨m, hm, .of_candidate rfl⟩

theorem Stays.trans {t₁ t₂ t₃ : Table Message} (h₁ : Stays k t₁ t₂) (h₂ : Stays k t₂ t₃) :
    Stays k t₁ t₃ := by
  intro m hm
  obtain ⟨m₂, hm₂, hv₂⟩ := h₁ m hm
  obtain ⟨m₃, hm₃, hv₃⟩ := h₂ m₂ hm₂
  exact ⟨m₃, hm₃, hv₂.trans hv₃⟩

theorem Stays.of_mem (h : ∀ m ∈ t₁, m.messageId = k → ∃ m' ∈ t₂, Moved m m') :
    Stays k t₁ t₂ := by
  intro m hm
  have hk : m.messageId = k := Table.key_of_get hm
  obtain ⟨m', hm', hv⟩ := h m (Table.mem_of_get hm) hk
  exact ⟨m', Table.get_eq_some.mpr ⟨hm', hv.id.trans hk⟩, hv⟩

theorem Stays.rowStep (h : RowStep t₁ t₂) : Stays k t₁ t₂ := by
  refine .of_mem fun m hm _ => ?_
  cases h
  case touch hp =>
    refine ⟨_, Table.mem_update.mpr ⟨m, hm, rfl⟩, .of_candidate ?_⟩
    split
    case isFalse => rfl
    case isTrue =>
      have := hp m
      simp only [Message.place, Place.mk.injEq] at this
      simp [Message.candidate, this]
  case identify hu =>
    refine ⟨_, Units.mem_setIdentity.mpr ⟨m, hm, rfl⟩, ?_⟩
    split
    case isFalse => exact .of_candidate rfl
    case isTrue hk =>
      have hm' := Table.mem_of_get hu.row
      rw [Table.eq_of_key_eq hm hm' <| hk.trans (Table.key_of_get hu.row).symm]
      exact ⟨rfl, rfl, rfl, rfl, .inr hu.identity⟩
  case promote => exact ⟨_, mem_promote.mpr ⟨m, hm, rfl⟩, .of_candidate <| candidate_promoted ..⟩
  case insert r _ _ hn =>
    exact ⟨m, Table.mem_put.mpr <| .inr ⟨hm, Table.get_eq_none.mp hn m hm⟩, .of_candidate rfl⟩

theorem Stays.rowSteps (h : ReflTransGen RowStep t₁ t₂) : Stays k t₁ t₂ := by
  induction h
  case refl          => exact .refl k t₁
  case tail _ hr ih  => exact ih.trans <| .rowStep hr

-- A row that is stored before and after a transaction is the same row.
theorem Stays.of_sub (h : ∀ m ∈ t₂, m ∈ t₁) (hp : (t₂.get k).isSome) : Stays k t₁ t₂ := by
  intro m hm
  obtain ⟨m', hm'⟩ := Option.isSome_iff_exists.mp hp
  have hmem := h m' <| Table.mem_of_get hm'
  have he := Table.eq_of_key_eq (Table.mem_of_get hm) hmem <|
    (Table.key_of_get hm).trans (Table.key_of_get hm').symm
  exact ⟨m', hm', .of_candidate <| by rw [he]⟩

variable [Codec]

theorem Stays.effect (h : Units s.messages s.targets) (he : Effect s s')
    (hp : (s'.messages.get k).isSome) : Stays k s.messages s'.messages := by
  cases he
  case mail h' => exact .rowSteps h'.messages
  case tick    => exact .refl k s.messages
  case accept r ha =>
    obtain ⟨requests, _, _, _, hf⟩ := ha.frozen
    have hm := (Units.freeze (s := { s with requests := requests }) h hf).right
    rw [hm]
    exact .refl k s.messages
  case resume hr => exact .of_sub (h.resume hr).right.messages hp
  case retire hr =>
    refine foldlM_relation (R := fun s s' => Stays k s.messages s'.messages)
      (fun s => .refl k s.messages) (fun _ _ _ => .trans) ?_ hr
    intro s₁ r _ s₂ hp
    cases retireRequest_ok hp
    case inl hs => exact hs ▸ .refl k _
    case inr hs => exact hs.left ▸ .refl k _
  case purgeMessages   => exact .of_sub (fun m hm => (mem_deleteMessages.mp hm).left) hp
  case purgeSuppressed => exact .refl k s.messages

end Moved

section Suppressed

variable [Codec] {x : Source} {k : Provider × String × String} {q : Suppressed → Prop}
  {now : Instant} {unit : String × String} {chunk : List (String × String)}

-- The key of the tombstone of a source.
def Source.tombstone (x : Source) : Provider × String × String :=
  (x.provider, x.accountId,
    messageSuppressionKey x.provider x.accountId x.providerMessageId x.mailboxIdentityKey)

-- There is a tombstone with the key, and it meets `q`.
def Tombstoned (k : Provider × String × String) (q : Suppressed → Prop) (s : Store) : Prop :=
  ∃ e, s.suppressed.get k = some e ∧ q e

-- The tombstone was set up at the given time.
def Suppressed.setAt (now : Instant) (e : Suppressed) : Prop :=
  ∃ receivedAt, e.expiresAt = suppressionExpiry receivedAt now

namespace Tombstoned

variable (hq : ∀ e, e.setAt now → q e)

include hq

theorem suppressSource_self (s : Store) (x : Source) :
    Tombstoned x.tombstone q (suppressSource now s x) := by
  simp only [Tombstoned, Store.suppressSource, Table.get_put]
  exact ⟨_, if_pos rfl, hq _ ⟨x.receivedAt, rfl⟩⟩

theorem suppressSource (h : Tombstoned k q s) (x : Source) :
    Tombstoned k q (suppressSource now s x) := by
  obtain ⟨e, he, hqe⟩ := h
  by_cases hk : x.tombstone = k
  case pos => exact hk ▸ suppressSource_self hq s x
  case neg =>
    refine ⟨e, ?_, hqe⟩
    simp only [Store.suppressSource, Table.get_put]
    rw [← he]
    exact if_neg hk

theorem suppressSources (h : Tombstoned k q s) (l : List Source) :
    Tombstoned k q (l.foldl (Store.suppressSource now) s) := by
  induction l generalizing s
  case nil         => exact h
  case cons x l ih => exact ih <| h.suppressSource hq x

theorem suppressSources_of_mem {l : List Source} (hx : x ∈ l) :
    Tombstoned x.tombstone q (l.foldl (Store.suppressSource now) s) := by
  induction l generalizing s
  case nil => simp at hx
  case cons y l ih =>
    cases List.mem_cons.mp hx
    case inl hx => exact hx ▸ suppressSources hq (suppressSource_self hq s x) l
    case inr hx => exact ih hx

omit [Codec] hq in
theorem congr (h : Tombstoned k q s) (he : s'.suppressed = s.suppressed) : Tombstoned k q s' := by
  rwa [Tombstoned, he]

omit [Codec] hq in
theorem suppressed_removeTargets (kind : Kind) (s : Store) (ts : List Target) :
    (ts.foldl (Store.removeTarget kind) s).suppressed = s.suppressed := by
  induction ts generalizing s
  case nil => rfl
  case cons t ts ih =>
    rw [List.foldl_cons, ih]
    unfold Store.removeTarget
    split
    case h_1 => rfl
    case h_2 =>
      split
      case h_1 => rfl
      case h_2 => exact (Deletes.deleteMessages ..).suppressed

theorem removed (h : Tombstoned k q s) (i : Intent) (unit : String × String) :
    Tombstoned k q (s.removed i unit now) := by
  refine congr ?_ <| suppressed_removeTargets ..
  split
  case isTrue  => exact h
  case isFalse => exact suppressSources hq h _

theorem removed_of_mem (ht : t ∈ s.pendingTargets unit) (hi : i.kind ≠ .unfollow)
    (hx : x ∈ t.sourceIdentities) : Tombstoned x.tombstone q (s.removed i unit now) := by
  refine congr ?_ <| suppressed_removeTargets ..
  rw [if_neg hi]
  refine suppressSources_of_mem hq <| List.mem_flatten.mpr ⟨_, ?_, hx⟩
  exact List.mem_eraseDups.mpr <| List.mem_map_of_mem ht

theorem completeUnit (h : Tombstoned k q s) (hc : s.completeUnit unit now = .ok s') :
    Tombstoned k q s' := by
  cases completeUnit_ok hc
  case inl hs => exact hs.right ▸ h
  case inr hs =>
    obtain ⟨i, _, hs⟩ := hs
    exact (h.removed hq i unit).congr <| by rw [hs]; rfl

theorem resume (h : Tombstoned k q s) (hr : s.resume chunk now = .ok s') : Tombstoned k q s' :=
  foldlM_invariant (fun _ _ _ _ h hc => h.completeUnit hq hc) h hr

end Tombstoned

-- A unit that is completed leaves tombstones for all the sources that were frozen with it.
structure Entombed (t : Target) (now : Instant) (s : Store) : Prop where
  completed  : ∃ t' ∈ s.targets, t'.frozen = t.frozen ∧ t'.state = .completed
  tombstones : ∀ x ∈ t.sourceIdentities, Tombstoned x.tombstone (·.setAt now) s

theorem Entombed.completeUnit (h : Entombed t now s) (hc : s.completeUnit unit now = .ok s') :
    Entombed t now s' where
  completed := by
    obtain ⟨t', ht', hf, hs⟩ := h.completed
    cases completeUnit_ok hc
    case inl he => exact he.right ▸ ⟨t', ht', hf, hs⟩
    case inr he =>
      obtain ⟨i, _, he⟩ := he
      have hr := SameReceipts.removed s i unit now
      refine ⟨settled unit now t', ?_, by rw [frozen_settled, hf], state_settled hs⟩
      subst he
      exact mem_settleTargets.mpr ⟨t', hr.targets ▸ ht', rfl⟩
  tombstones x hx := (h.tombstones x hx).completeUnit (fun _ => id) hc

theorem Barred.completeUnit (hb : Barred s t i)
    (hc : s.completeUnit (t.intentId, t.logicalTargetId) now = .ok s') : Entombed t now s' := by
  have ht : t ∈ s.pendingTargets (t.intentId, t.logicalTargetId) :=
    mem_pendingTargets.mpr ⟨hb.target, rfl, rfl, hb.pending⟩
  cases completeUnit_ok hc
  case inl he => simp [he.left] at ht
  case inr he =>
    obtain ⟨j, hj, he⟩ := he
    have hij : j = i := Option.some.inj <| hj.symm.trans hb.intent
    have hr := SameReceipts.removed s j (t.intentId, t.logicalTargetId) now
    subst he hij
    constructor
    case completed =>
      refine ⟨settled (t.intentId, t.logicalTargetId) now t, ?_, frozen_settled t, ?_⟩
      · exact mem_settleTargets.mpr ⟨t, hr.targets ▸ hb.target, rfl⟩
      · simp [settled, hb.pending]
    case tombstones =>
      intro x hx
      exact Tombstoned.congr (.removed_of_mem (fun _ => id) ht hb.removes hx) rfl

-- The targets of other units stay as they are.
theorem mem_targets_completeUnit (ht : t ∈ s.targets) (hu : (t.intentId, t.logicalTargetId) ≠ unit)
    (hc : s.completeUnit unit now = .ok s') : t ∈ s'.targets := by
  cases completeUnit_ok hc
  case inl he => exact he.right ▸ ht
  case inr he =>
    obtain ⟨j, _, he⟩ := he
    have hr := SameReceipts.removed s j unit now
    subst he
    refine mem_settleTargets.mpr ⟨t, hr.targets ▸ ht, ?_⟩
    refine if_neg fun hn => hu ?_
    simp only [Bool.and_eq_true, decide_eq_true_eq] at hn
    exact Prod.ext hn.left.left hn.left.right

theorem mem_targets_resume (ht : t ∈ s.targets) (hu : (t.intentId, t.logicalTargetId) ∉ chunk)
    (hr : s.resume chunk now = .ok s') : t ∈ s'.targets := by
  refine foldlM_invariant (I := fun s => t ∈ s.targets) ?_ ht hr
  intro s₁ u hm s₂ ht hc
  exact mem_targets_completeUnit ht (fun he => hu <| he ▸ hm) hc

theorem Barred.resume (h : Sound s) (hb : Barred s t i) (hu : (t.intentId, t.logicalTargetId) ∈ chunk)
    (hr : s.resume chunk now = .ok s') : Entombed t now s' := by
  unfold Store.resume at hr
  induction chunk generalizing s i
  case nil => simp at hu
  case cons u us ih =>
    simp only [List.foldlM_cons, bind_eq_ok] at hr
    obtain ⟨s₁, h₁, h₂⟩ := hr
    by_cases he : (t.intentId, t.logicalTargetId) = u
    case pos =>
      subst he
      exact foldlM_invariant (fun _ _ _ _ h hc => h.completeUnit hc) (hb.completeUnit h₁) h₂
    case neg =>
      -- The target waits for its own unit.
      have ht := mem_targets_completeUnit hb.target he h₁
      obtain ⟨i', hi', ha⟩ := Survives.completeUnit (k := t.intentId) h h₁ i hb.intent
      have hk : i'.kind ≠ .unfollow := Intent.kind_congr ha.frozen ▸ hb.removes
      exact ih (h.completeUnit h₁) ⟨ht, hb.pending, hi', hk⟩ ((List.mem_cons.mp hu).resolve_left he) h₂

omit [Codec] in
theorem Target.eq_of_frozen_eq {ts : Table Target} (ht : t ∈ ts) (ht' : t' ∈ ts)
    (hf : t'.frozen = t.frozen) : t' = t := by
  refine Table.eq_of_key_eq ht' ht ?_
  have hk : Keyed.key t'.frozen = Keyed.key t.frozen := by rw [hf]
  exact hk

omit [Codec] in
theorem mem_targets_freeze {key : Key} {kind : Kind} {ids : List String} {accepted : Instant}
    {uuid : Nat → String} (hf : s.freeze key kind ids accepted uuid = .ok s') :
    ∀ t ∈ s.targets, t ∈ s'.targets := by
  refine foldlM_relation (R := fun s s' => ∀ t ∈ s.targets, t ∈ s'.targets) ?_ ?_ ?_ hf
  · exact fun _ _ ht => ht
  · exact fun _ _ _ h₁ h₂ t ht => h₂ t <| h₁ t ht
  · intro s g _ s' hg t ht
    obtain ⟨is, ts, _, hs, hts⟩ := freezeGroup_ok hg
    subst hs
    rw [← Table.mem_rows, hts]
    exact List.mem_append_left _ ht

-- It is a completion of its unit that completes a target.
theorem Effect.completes (he : Effect s s') (hb : Barred s t i) (ht' : t' ∈ s'.targets)
    (hf : t'.frozen = t.frozen) (hs : t'.state = .completed) :
    ∃ chunk now, s.resume chunk now = .ok s' ∧ (t.intentId, t.logicalTargetId) ∈ chunk := by
  -- A target that is still there is still pending.
  have hkept : t ∉ s'.targets := by
    intro ht
    rw [Target.eq_of_frozen_eq ht ht' hf, hb.pending] at hs
    cases hs
  have hold : t' ∉ s.targets := by
    intro ht
    rw [Target.eq_of_frozen_eq hb.target ht hf, hb.pending] at hs
    cases hs
  cases he
  case mail h' => exact absurd (h'.targets ▸ ht') hold
  case tick    => exact absurd ht' hold
  case accept r ha =>
    obtain ⟨_, _, _, _, hf⟩ := ha.frozen
    exact absurd (mem_targets_freeze hf t hb.target) hkept
  case resume chunk now hr =>
    refine ⟨chunk, now, hr, ?_⟩
    by_contra hu
    exact hkept <| mem_targets_resume hb.target hu hr
  case retire hr =>
    refine absurd ?_ hold
    refine foldlM_relation (R := fun s s' => t' ∈ s'.targets → t' ∈ s.targets) ?_ ?_ ?_ hr ht'
    · exact fun _ h => h
    · exact fun _ _ _ h₁ h₂ h => h₁ <| h₂ h
    · intro s₁ r _ s₂ hp h
      cases retireRequest_ok hp
      case inl hs => exact hs ▸ h
      case inr hs =>
        rw [hs.left] at h
        exact (Table.mem_delete.mp h).left
  case purgeMessages   => exact absurd ((Deletes.deleteMessages ..).targets ▸ ht') hold
  case purgeSuppressed => exact absurd ht' hold

-- The tombstone with the key has not expired.
def Unexpired (k : Provider × String × String) (s : Store) : Prop :=
  ∀ e, s.suppressed.get k = some e → s.clock ≤ e.expiresAt

omit [Codec] in
theorem julianday_mono {t₁ t₂ : Instant} (h : t₁ ≤ t₂) : julianday t₁ ≤ julianday t₂ :=
  Int.ediv_le_ediv (by decide) <| Int.add_le_add_right h _

omit [Codec] in
theorem suppressed_freeze {key : Key} {kind : Kind} {ids : List String} {accepted : Instant}
    {uuid : Nat → String} (hf : s.freeze key kind ids accepted uuid = .ok s') :
    s'.suppressed = s.suppressed := by
  refine foldlM_relation (R := fun s s' => s'.suppressed = s.suppressed) (fun _ => rfl) ?_ ?_ hf
  · exact fun _ _ _ h₁ h₂ => h₂.trans h₁
  · intro s g _ s' hg
    obtain ⟨_, _, _, hs, _⟩ := freezeGroup_ok hg
    rw [hs]

-- A tombstone stays until it has expired.
theorem Tombstoned.effect (h : Tombstoned k (fun _ => True) s) (hx : Unexpired k s)
    (he : Effect s s') : Tombstoned k (fun _ => True) s' := by
  cases he
  case mail h' => exact h.congr h'.suppressed
  case tick    => exact h.congr rfl
  case accept r ha =>
    obtain ⟨_, _, _, _, hf⟩ := ha.frozen
    exact h.congr <| by rw [suppressed_freeze hf]
  case resume hr => exact h.resume (fun _ _ => trivial) hr
  case retire hr =>
    refine foldlM_invariant (I := Tombstoned k fun _ => True) ?_ h hr
    intro s₁ r _ s₂ h₁ hp
    cases retireRequest_ok hp
    case inl hs => exact hs ▸ h₁
    case inr hs => exact h₁.congr <| by rw [hs.left]; rfl
  case purgeMessages => exact h.congr (Deletes.deleteMessages ..).suppressed
  case purgeSuppressed =>
    obtain ⟨e, he, _⟩ := h
    refine ⟨e, Table.get_delete_eq_some.mpr ⟨he, ?_⟩, trivial⟩
    have hle := julianday_mono <| hx e he
    simp only [Bool.and_eq_false_iff, decide_eq_false_iff_not]
    exact .inl <| not_lt.mpr hle

theorem Tombstoned.run {as : List Action} (h : Tombstoned k (fun _ => True) s)
    (hx : machine.Always (Unexpired k) s as) :
    Tombstoned k (fun _ => True) (machine.run s as) := by
  refine Machine.relation (I := fun _ => True) (C := fun _ _ => True)
    (R := fun s s' => Tombstoned k (fun _ => True) s → Tombstoned k (fun _ => True) s')
    (fun _ h => h) (fun _ _ _ h₁ h₂ h => h₂ (h₁ h)) ?_ ?_ trivial Machine.guarded_true hx h
  · exact fun _ _ _ _ _ _ => trivial
  · exact fun s a s' _ _ hp _ hok h => h.effect hp <| step_effect hok

-- The capture is of the source. A source without an identity is one of the mailbox whose continuity
-- has been proven.
structure Recaptures (s : Store) (x : Source) (c : Capture) (identity : String) : Prop where
  named    : c.mailboxIdentityKey = some identity
  provider : c.provider = x.provider
  account  : c.accountId = x.accountId
  source   : c.source = x.providerMessageId
  identity : x.mailboxIdentityKey = some identity ∨ x.mailboxIdentityKey = none ∧
    ∃ a, s.accounts.get (c.provider, c.accountId) = some a ∧
      a.legacyIdentityStatus = .continuityProven ∧ a.legacyIdentityKey = some identity

theorem Recaptures.mem_suppressionKeys {c : Capture} {identity : String} {a : Account}
    (h : Recaptures s x c identity) (ha : Admitted s c identity a) :
    messageSuppressionKey x.provider x.accountId x.providerMessageId x.mailboxIdentityKey ∈
    suppressionKeys a (c.scope identity) c.source := by
  rw [← h.provider, ← h.account, ← h.source]
  cases h.identity
  case inl hi =>
    rw [hi]
    exact List.mem_cons_self
  case inr hi =>
    obtain ⟨hi, a', ha', hs, hk⟩ := hi
    have he : a' = a := Option.some.inj <| ha'.symm.trans ha.connected
    rw [hi]
    refine List.mem_cons_of_mem _ ?_
    rw [if_pos ⟨he ▸ hs, he ▸ hk⟩]
    exact List.mem_cons_self

theorem Tombstoned.refuses {c : Capture} {identity : String}
    (h : Tombstoned x.tombstone (fun _ => True) s) (hx : Recaptures s x c identity) :
    Refuses s c := by
  have hadm : ∀ {k a}, ¬Admitted s c k a := by
    intro k a ha
    have hk : identity = k := Option.some.inj <| hx.named.symm.trans ha.named
    subst hk
    refine ha.suppressed <| List.any_eq_true.mpr ⟨_, hx.mem_suppressionKeys ha, ?_⟩
    obtain ⟨e, he, _⟩ := h
    rw [hx.provider, hx.account]
    exact Option.isSome_iff_exists.mpr ⟨e, he⟩
  intro s' b hok
  cases captured hok
  case refused     => exact ⟨rfl, rfl⟩
  case copy ha _ _ => exact absurd ha hadm
  case row ha _ _  => exact absurd ha hadm

end Suppressed

section Barrier

variable [Codec]

-- The target is still to be completed.
def Pending (t : Target) (s : Store) : Prop :=
  ∃ t' ∈ s.targets, t'.frozen = t.frozen ∧ t'.state = .pending

-- The receipts are sound, and units are kept together.
structure Kept (s : Store) : Prop where
  sound : Sound s
  units : Units s.messages s.targets

theorem Kept.step {a : Action} (h : Kept s) (hok : step s a = .ok s') : Kept s' where
  sound := (h.sound.step (k := "") <| step_effect hok).left
  units := h.units.step <| step_effect hok

theorem Kept.run (h : Kept s) (as : List Action) : Kept (machine.run s as) :=
  Machine.invariant (fun _ _ _ h hok => h.step hok) h as

theorem Kept.withheld (h : Kept s) {as : List Action} (hb : Barred s t i)
    (hp : machine.Always (Pending t) s as) : Withheld (machine.run s as) t i := by
  -- As long as the target is pending, its intent is there.
  have hi : machine.Always (fun s => (s.intents.get t.intentId).isSome) s as := by
    refine Machine.Always.imp (I := Kept) (fun _ _ _ h hok => h.step hok) ?_ h hp
    rintro s hs ⟨t', ht', hf, _⟩
    obtain ⟨i', hi'⟩ := hs.sound.known t' ht'
    have hk : t'.frozen.intentId = t.frozen.intentId := by rw [hf]
    exact Option.isSome_iff_exists.mpr ⟨i', hk ▸ hi'⟩
  obtain ⟨i', hi', ha⟩ := h.sound.kept hi i hb.intent
  obtain ⟨t', ht', hf, hs⟩ := hp.last
  have hk : t'.frozen.intentId = t.frozen.intentId := by rw [hf]
  have hb' : Barred (machine.run s as) t' i' :=
    ⟨ht', hs, by rwa [show t'.intentId = t.intentId from hk],
      Intent.kind_congr ha.frozen ▸ hb.removes⟩
  exact (hb'.withheld (h.run as).sound).congr hf ha.frozen

theorem Kept.moved (h : Kept s) {as : List Action} (hm : m ∈ s.messages)
    (hp : machine.Always (fun s => (s.messages.get m.messageId).isSome) s as)
    (hm' : (machine.run s as).messages.get m.messageId = some m') : Moved m m' := by
  have hs : Stays m.messageId s.messages (machine.run s as).messages := by
    refine Machine.relation (I := Kept) (C := fun _ _ => True)
      (R := fun s s' => Stays m.messageId s.messages s'.messages)
      (fun s => .refl _ s.messages) (fun _ _ _ => .trans) ?_ ?_ h Machine.guarded_true hp
    · exact fun _ _ _ h _ hok => h.step hok
    · exact fun _ _ _ h _ _ hp' hok => .effect h.units (step_effect hok) hp'
  obtain ⟨m₁, hm₁, hv⟩ := hs m <| Table.get_of_mem hm
  rw [hm'] at hm₁
  cases hm₁
  exact hv

end Barrier

namespace Sample

def root : Message where
  messageId          := "letter"
  provider           := .gmail
  accountId          := "account"
  mailboxIdentityKey := none
  providerMessageId  := "letter"
  threadKey          := some "thread"
  rfcMessageId       := some "<letter@sender>"
  logicalOf          := none
  sender             := "sender"
  receivedAt         := ""
  status             := .analyzed
  notified           := true

def copy : Message := { root with
  messageId          := "copy"
  mailboxIdentityKey := some "mailbox"
  providerMessageId  := "copy"
  logicalOf          := some "letter"
}

def accepted : List Action :=
  [.accept key .delete (.messageId "letter") fun _ => "intent"]

end Sample

end Mail
