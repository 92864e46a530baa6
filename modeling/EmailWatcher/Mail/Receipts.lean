import Mathlib.Data.Finset.Card
import EmailWatcher.Mail.Steps

-- The receipts of a removal say what has been removed, and no request is accepted twice.
namespace Mail

open Transaction Store

-- What acceptance has frozen of a target.
def Target.frozen (t : Target) : Target :=
  { t with state := .pending, settledAt := none }

def Intent.frozen (i : Intent) : Intent :=
  { i with state := .pending, completedCount := 0, settledAt := none }

namespace Store

def targetsOf (s : Store) (intentId : String) : List Target :=
  s.targets.rows.filter (·.intentId = intentId)

-- The logical messages that an intent is to remove.
def logicalTargets (s : Store) (intentId : String) : Finset String :=
  ((s.targetsOf intentId).map (·.logicalTargetId)).toFinset

-- The logical messages that an intent has removed: all of their targets are completed.
def removedTargets (s : Store) (intentId : String) : Finset String :=
  (s.logicalTargets intentId).filter fun id =>
    ∀ t ∈ s.targetsOf intentId, t.logicalTargetId = id → t.state = .completed

def frozenTargets (s : Store) (intentId : String) : List Target :=
  (s.targetsOf intentId).map Target.frozen

-- The rows that freezing a unit adds.
def unitTargets (s : Store) (i : Intent) (unit : String × LogicalUnit) : List Target :=
  unit.snd.rows.filterMap fun id =>
    (s.messages.get id).map (frozenTarget i unit.fst unit.snd.sources)

end Store

variable {s s' s₁ s₂ s₃ : Store} {i j : Intent} {k : String}

section Freeze

theorem freezeRows_ok {c : String} {sources : List Source} {ids : List String}
    (h : ids.foldlM (fun s id => s.freezeRow i c sources id) s = .ok s') :
    ∃ ts, s' = { s with targets := ts } ∧
      ts.rows = s.targets.rows ++ ids.filterMap fun id =>
        (s.messages.get id).map (frozenTarget i c sources) := by
  induction ids generalizing s
  case nil =>
    cases pure_eq_ok.mp h
    exact ⟨_, rfl, by simp⟩
  case cons id ids ih =>
    simp only [List.foldlM_cons, bind_eq_ok] at h
    obtain ⟨s₁, h₁, h₂⟩ := h
    simp only [freezeRow, bind_eq_ok, find_eq_ok, pure_eq_ok] at h₁
    obtain ⟨row, hr, _, _, ts₁, ht₁, hs₁⟩ := h₁
    subst hs₁
    obtain ⟨ts, hs, ht⟩ := ih h₂
    refine ⟨ts, hs, ?_⟩
    rw [ht, (Table.insert_eq_some.mp ht₁).right]
    simp [hr]

theorem freezeUnits_ok {units : List (String × LogicalUnit)}
    (h : units.foldlM (freezeUnit i) s = .ok s') :
    ∃ ts, s' = { s with targets := ts } ∧
      ts.rows = s.targets.rows ++ units.flatMap (s.unitTargets i) := by
  induction units generalizing s
  case nil =>
    cases pure_eq_ok.mp h
    exact ⟨_, rfl, by simp⟩
  case cons u us ih =>
    simp only [List.foldlM_cons, bind_eq_ok] at h
    obtain ⟨s₁, h₁, h₂⟩ := h
    obtain ⟨ts₁, hs₁, ht₁⟩ := freezeRows_ok h₁
    subst hs₁
    obtain ⟨ts, hs, ht⟩ := ih h₂
    refine ⟨ts, hs, ?_⟩
    rw [ht, ht₁, List.append_assoc]
    rfl

theorem freezeGroup_ok {units : Table (String × LogicalUnit)}
    (h : s.freezeGroup i units = .ok s') :
    ∃ is ts, s.intents.insert i = some is ∧ s' = { s with intents := is, targets := ts } ∧
      ts.rows = s.targets.rows ++ units.rows.flatMap (s.unitTargets i) := by
  simp only [freezeGroup, bind_eq_ok, find_eq_ok] at h
  obtain ⟨is, hi, h⟩ := h
  obtain ⟨ts, hs, ht⟩ := freezeUnits_ok h
  exact ⟨is, ts, hi, hs, ht⟩

theorem mem_members {c : String} {m : Message} :
    m ∈ s.members c ↔ m ∈ s.messages ∧ (m.messageId = c ∨ m.logicalOf = some c) := by
  simp [members, Table.mem_rows]

theorem mem_members_canonical {m : Message} (h : m ∈ s.messages) : m ∈ s.members m.canonical := by
  refine mem_members.mpr ⟨h, ?_⟩
  unfold Message.canonical
  cases m.logicalOf <;> simp

-- The message itself is a row of its unit.
theorem mem_rows_logicalUnit {id : String} {u : LogicalUnit} (h : s.logicalUnit id = some u) :
    id ∈ u.rows := by
  simp only [logicalUnit, Option.map_eq_some_iff] at h
  obtain ⟨m, hm, hu⟩ := h
  rw [← hu]
  exact List.mem_map.mpr ⟨m, mem_members_canonical <| Table.mem_of_get hm, Table.key_of_get hm⟩

-- A group is made of the units of stored messages.
structure GroupOf (s : Store) (g : Binding × Table (String × LogicalUnit)) : Prop where
  nonempty : ∃ u, u ∈ g.snd
  units    : ∀ u ∈ g.snd, ∃ m ∈ s.messages, s.logicalUnit m.messageId = some u.snd

theorem GroupOf.groupUnit {groups : Table (Binding × Table (String × LogicalUnit))} {id : String}
    (h : ∀ g ∈ groups, GroupOf s g) : ∀ g ∈ s.groupUnit groups id, GroupOf s g := by
  unfold Store.groupUnit
  split
  case h_2 => exact h
  case h_1 row unit hr hu =>
    intro g hg
    cases Table.mem_put.mp hg
    case inr hg => exact h g hg.left
    case inl hg =>
      subst hg
      constructor
      case nonempty => exact ⟨_, Table.mem_put.mpr <| .inl rfl⟩
      case units =>
        intro u hm
        cases Table.mem_put.mp hm
        case inl hm =>
          have hid : row.messageId = id := Table.key_of_get hr
          exact ⟨row, Table.mem_of_get hr, by rw [hid, hu, hm]⟩
        case inr hm =>
          -- The unit was in the group of the binding before, if there was one.
          cases hb : groups.get (row.provider, row.accountId, s.effectiveIdentity row)
          case none => simp [hb] at hm
          case some b =>
            simp only [hb, Option.map_some, Option.getD_some] at hm
            exact (h b <| Table.mem_of_get hb).units u hm.left

theorem GroupOf.foldl_groupUnit {groups : Table (Binding × Table (String × LogicalUnit))}
    (ids : List String) (h : ∀ g ∈ groups, GroupOf s g) :
    ∀ g ∈ ids.foldl s.groupUnit groups, GroupOf s g := by
  induction ids generalizing groups
  case nil            => exact h
  case cons id ids ih => exact ih <| GroupOf.groupUnit h

theorem GroupOf.of_mem {ids : List String} {g : Binding × Table (String × LogicalUnit)}
    (hg : g ∈ s.removalGroups ids) : GroupOf s g :=
  GroupOf.foldl_groupUnit ids (by simp) g hg

theorem unitTargets_ne_nil {u : String × LogicalUnit} {m : Message} (hm : m ∈ s.messages)
    (h : s.logicalUnit m.messageId = some u.snd) : s.unitTargets i u ≠ [] := by
  refine List.ne_nil_of_mem (a := frozenTarget i u.fst u.snd.sources m) ?_
  have hg : s.messages.get m.messageId = some m := Table.get_of_mem hm
  exact List.mem_filterMap.mpr ⟨m.messageId, mem_rows_logicalUnit h, by simp [hg]⟩

theorem mem_unitTargets {u : String × LogicalUnit} {t : Target} (h : t ∈ s.unitTargets i u) :
    ∃ m ∈ s.messages, m.messageId ∈ u.snd.rows ∧ t = frozenTarget i u.fst u.snd.sources m := by
  obtain ⟨id, hid, h⟩ := List.mem_filterMap.mp h
  obtain ⟨m, hm, ht⟩ := Option.map_eq_some_iff.mp h
  have hk : m.messageId = id := Table.key_of_get hm
  exact ⟨m, Table.mem_of_get hm, hk ▸ hid, ht.symm⟩

end Freeze

section Sound

-- The counts of an intent are those of its targets.
structure Exact (s : Store) (i : Intent) : Prop where
  positive  : 0 < i.requestedCount
  requested : i.requestedCount = (s.logicalTargets i.intentId).card
  completed : i.completedCount = (s.completedTargets i.intentId).length
  state     : i.state = .completed ↔ i.completedCount = i.requestedCount

structure Sound (s : Store) : Prop where
  known   : ∀ t ∈ s.targets, ∃ i, s.intents.get t.intentId = some i
  uniform : ∀ t ∈ s.targets, ∀ t' ∈ s.targets, t.intentId = t'.intentId →
    t.logicalTargetId = t'.logicalTargetId → t.state = t'.state
  exact   : ∀ k i, s.intents.get k = some i → Exact s i

theorem mem_targetsOf {t : Target} : t ∈ s.targetsOf k ↔ t ∈ s.targets ∧ t.intentId = k := by
  simp [targetsOf, Table.mem_rows]

theorem mem_completedTargets {c : String} :
    c ∈ s.completedTargets k ↔
    ∃ t ∈ s.targetsOf k, t.state = .completed ∧ t.logicalTargetId = c := by
  simp only [completedTargets, List.mem_dedup, List.mem_map, List.mem_filter, Bool.and_eq_true,
    decide_eq_true_eq, mem_targetsOf, Table.mem_rows]
  constructor
  · rintro ⟨t, ⟨ht, hk, hs⟩, hc⟩
    exact ⟨t, ⟨ht, hk⟩, hs, hc⟩
  · rintro ⟨t, ⟨ht, hk⟩, hs, hc⟩
    exact ⟨t, ⟨ht, hk, hs⟩, hc⟩

theorem mem_logicalTargets {c : String} :
    c ∈ s.logicalTargets k ↔ ∃ t ∈ s.targetsOf k, t.logicalTargetId = c := by
  simp [logicalTargets]

theorem card_completedTargets (s : Store) (k : String) :
    (s.completedTargets k).toFinset.card = (s.completedTargets k).length :=
  List.toFinset_card_of_nodup <| List.nodup_dedup _

-- With the targets of a unit in one state, the count of completed targets counts units.
theorem Sound.removedTargets (h : Sound s) (k : String) :
    (s.removedTargets k).card = (s.completedTargets k).length := by
  rw [← card_completedTargets]
  congr 1
  ext c
  simp only [Store.removedTargets, Finset.mem_filter, List.mem_toFinset, mem_completedTargets,
    mem_logicalTargets]
  constructor
  · rintro ⟨⟨t, ht, hc⟩, hall⟩
    exact ⟨t, ht, hall t ht hc, hc⟩
  · rintro ⟨t, ht, hs, hc⟩
    refine ⟨⟨t, ht, hc⟩, ?_⟩
    intro t' ht' hc'
    obtain ⟨hm, hk⟩ := mem_targetsOf.mp ht
    obtain ⟨hm', hk'⟩ := mem_targetsOf.mp ht'
    rw [← h.uniform t hm t' hm' (hk.trans hk'.symm) (hc.trans hc'.symm), hs]

theorem completedTargets_subset (s : Store) (k : String) :
    (s.completedTargets k).toFinset ⊆ s.logicalTargets k := by
  intro c hc
  obtain ⟨t, ht, _, hc⟩ := mem_completedTargets.mp <| List.mem_toFinset.mp hc
  exact mem_logicalTargets.mpr ⟨t, ht, hc⟩

theorem completedTargets_le (s : Store) (k : String) :
    (s.completedTargets k).length ≤ (s.logicalTargets k).card := by
  rw [← card_completedTargets]
  exact Finset.card_le_card <| completedTargets_subset s k

-- A removal is pending as long as one of its targets is.
theorem Sound.pending (h : Sound s) {t : Target} (ht : t ∈ s.targets) (hs : t.state = .pending)
    (hi : s.intents.get t.intentId = some i) : i.state = .pending := by
  have hk : i.intentId = t.intentId := Table.key_of_get hi
  have he := h.exact _ _ hi
  cases hst : i.state
  case pending   => rfl
  case completed =>
    -- All logical targets would be among the completed ones, and with them this one.
    have hcard : (s.logicalTargets i.intentId).card ≤ (s.completedTargets i.intentId).toFinset.card := by
      rw [card_completedTargets, ← he.completed, ← he.requested, he.state.mp hst]
    have heq := Finset.eq_of_subset_of_card_le (completedTargets_subset s i.intentId) hcard
    have hmem : t.logicalTargetId ∈ (s.completedTargets i.intentId).toFinset := by
      rw [heq]
      exact mem_logicalTargets.mpr ⟨t, mem_targetsOf.mpr ⟨ht, hk.symm⟩, rfl⟩
    obtain ⟨t', ht', hs', hl'⟩ := mem_completedTargets.mp <| List.mem_toFinset.mp hmem
    obtain ⟨ht', hk'⟩ := mem_targetsOf.mp ht'
    have hu := h.uniform t ht t' ht' (hk ▸ hk'.symm) hl'.symm
    simp [hs, hs'] at hu

theorem Exact.le (h : Exact s i) : i.completedCount ≤ i.requestedCount := by
  rw [h.requested, h.completed]
  exact completedTargets_le s i.intentId

theorem completedTargets_eq (s : Store) (k : String) :
    s.completedTargets k =
    (((s.targetsOf k).filter (·.state = .completed)).map (·.logicalTargetId)).dedup := by
  simp [completedTargets, targetsOf, List.filter_filter, Bool.and_comm]

theorem Exact.congr (ht : s'.targetsOf i.intentId = s.targetsOf i.intentId) (h : Exact s i) :
    Exact s' i where
  positive  := h.positive
  requested := by rw [h.requested, logicalTargets, logicalTargets, ht]
  completed := by rw [h.completed, completedTargets_eq, completedTargets_eq, ht]
  state     := h.state

theorem Sound.congr (hi : s'.intents = s.intents) (ht : s'.targets = s.targets) (h : Sound s) :
    Sound s' where
  known     := by simpa [hi, ht] using h.known
  uniform   := by simpa [ht] using h.uniform
  exact k i hk := by
    refine Exact.congr ?_ (h.exact k i (hi ▸ hk))
    simp [targetsOf, ht]

theorem Sound.empty (s : Store) (hi : s.intents = ∅) (ht : s.targets = ∅) : Sound s where
  known         := by simp [ht]
  uniform       := by simp [ht]
  exact k i hk  := by simp [hi] at hk

end Sound

section FreezeGroup

variable {units : Table (String × LogicalUnit)}

-- A fresh intent, about to be frozen with its units.
structure Fresh (s : Store) (i : Intent) (units : Table (String × LogicalUnit)) : Prop where
  state     : i.state = .pending
  completed : i.completedCount = 0
  requested : i.requestedCount = units.rows.length
  nonempty  : ∃ u, u ∈ units
  targets   : ∀ u ∈ units, s.unitTargets i u ≠ []

theorem mem_newTargets {t : Target} (h : t ∈ units.rows.flatMap (s.unitTargets i)) :
    t.intentId = i.intentId ∧ t.state = .pending ∧ ∃ u ∈ units, t.logicalTargetId = u.fst := by
  obtain ⟨u, hu, ht⟩ := List.mem_flatMap.mp h
  obtain ⟨m, _, _, ht⟩ := mem_unitTargets ht
  subst ht
  exact ⟨rfl, rfl, u, hu, rfl⟩

theorem targetsOf_freezeGroup (h : Sound s) (hf : s.freezeGroup i units = .ok s') :
    s'.targetsOf k =
    if k = i.intentId then units.rows.flatMap (s.unitTargets i) else s.targetsOf k := by
  obtain ⟨is, ts, hi, hs, ht⟩ := freezeGroup_ok hf
  have hn := (Table.insert_eq_some.mp hi).left
  subst hs
  simp only [targetsOf, ht, List.filter_append]
  split
  case isTrue hk =>
    subst hk
    have ho : s.targets.rows.filter (·.intentId = i.intentId) = [] := by
      rw [List.filter_eq_nil_iff]
      intro t hm ht
      obtain ⟨j, hj⟩ := h.known t hm
      rw [show t.intentId = i.intentId by simpa using ht] at hj
      exact Option.some_ne_none _ (hj.symm.trans hn)
    rw [ho, List.nil_append, List.filter_eq_self]
    intro t hm
    simp [(mem_newTargets hm).left]
  case isFalse hk =>
    rw [List.append_right_eq_self, List.filter_eq_nil_iff]
    intro t hm ht
    rw [(mem_newTargets hm).left] at ht
    exact hk <| by simpa [eq_comm] using ht

theorem Fresh.logicalTargets (hn : Fresh s i units)
    (ht : s'.targetsOf i.intentId = units.rows.flatMap (s.unitTargets i)) :
    s'.logicalTargets i.intentId = (units.rows.map Prod.fst).toFinset := by
  ext c
  simp only [mem_logicalTargets, ht, List.mem_toFinset, List.mem_map]
  constructor
  · rintro ⟨t, hm, hc⟩
    obtain ⟨_, _, u, hu, hl⟩ := mem_newTargets hm
    exact ⟨u, hu, by rw [← hl, hc]⟩
  · rintro ⟨u, hu, hc⟩
    obtain ⟨t, hm⟩ := List.exists_mem_of_ne_nil _ <| hn.targets u hu
    obtain ⟨_, _, _, he⟩ := mem_unitTargets hm
    refine ⟨t, List.mem_flatMap.mpr ⟨u, hu, hm⟩, ?_⟩
    rw [he, ← hc]
    rfl

theorem Fresh.exact (hn : Fresh s i units)
    (ht : s'.targetsOf i.intentId = units.rows.flatMap (s.unitTargets i)) : Exact s' i := by
  have hpos : 0 < i.requestedCount := by
    obtain ⟨u, hu⟩ := hn.nonempty
    rw [hn.requested]
    exact List.length_pos_of_mem hu
  refine ⟨hpos, ?_, ?_, ?_⟩
  · have hd : (units.rows.map Prod.fst).Nodup := units.nodup
    rw [hn.logicalTargets ht, List.toFinset_card_of_nodup hd, hn.requested, List.length_map]
  · have he : (s'.targetsOf i.intentId).filter (·.state = .completed) = [] := by
      rw [List.filter_eq_nil_iff, ht]
      intro t hm
      simp [(mem_newTargets hm).right.left]
    rw [hn.completed, completedTargets_eq, he]
    rfl
  · simp [hn.state, hn.completed, hpos.ne]

theorem Sound.freezeGroup (h : Sound s) (hn : Fresh s i units)
    (hf : s.freezeGroup i units = .ok s') : Sound s' := by
  have ht := fun k => targetsOf_freezeGroup (k := k) h hf
  obtain ⟨is, ts, hi, hs, _⟩ := freezeGroup_ok hf
  have hg : ∀ k, s'.intents.get k = if i.intentId = k then some i else s.intents.get k := by
    subst hs
    exact Table.get_insert hi
  have hm : ∀ t ∈ s'.targets, t ∈ s'.targetsOf t.intentId := fun t hm =>
    mem_targetsOf.mpr ⟨hm, rfl⟩
  constructor
  case known =>
    intro t hm'
    have := hm t hm'
    rw [ht] at this
    rw [hg]
    split at this
    case isTrue hk => exact ⟨i, by simp [hk]⟩
    case isFalse hk =>
      obtain ⟨j, hj⟩ := h.known t (mem_targetsOf.mp this).left
      exact ⟨j, by simp [Ne.symm hk, hj]⟩
  case uniform =>
    intro t hm₁ t' hm₂ hk hl
    have h₁ := hm t hm₁
    have h₂ := hm t' hm₂
    rw [ht] at h₁ h₂
    rw [← hk] at h₂
    split at h₁
    case isTrue hi =>
      rw [if_pos hi] at h₂
      rw [(mem_newTargets h₁).right.left, (mem_newTargets h₂).right.left]
    case isFalse hi =>
      rw [if_neg hi] at h₂
      exact h.uniform t (mem_targetsOf.mp h₁).left t' (mem_targetsOf.mp h₂).left hk hl
  case exact =>
    intro k j hj
    rw [hg] at hj
    split at hj
    case isTrue hk =>
      cases hj
      exact hn.exact <| by rw [ht, if_pos rfl]
    case isFalse hk =>
      have hjk : j.intentId = k := Table.key_of_get hj
      refine Exact.congr ?_ <| h.exact k j hj
      rw [ht, if_neg (hjk ▸ Ne.symm hk)]

end FreezeGroup

-- What leaves the receipts and the clock as they are.
structure SameReceipts (s s' : Store) : Prop where
  clock    : s'.clock = s.clock
  requests : s'.requests = s.requests
  intents  : s'.intents = s.intents
  targets  : s'.targets = s.targets

namespace SameReceipts

theorem refl (s : Store) : SameReceipts s s :=
  ⟨rfl, rfl, rfl, rfl⟩

theorem trans (h₁ : SameReceipts s₁ s₂) (h₂ : SameReceipts s₂ s₃) : SameReceipts s₁ s₃ where
  clock    := h₂.clock.trans h₁.clock
  requests := h₂.requests.trans h₁.requests
  intents  := h₂.intents.trans h₁.intents
  targets  := h₂.targets.trans h₁.targets

theorem of_mail (h : MailStep s s') : SameReceipts s s' :=
  ⟨h.clock, h.requests, h.intents, h.targets⟩

theorem of_deletes (h : Deletes s s') : SameReceipts s s' :=
  ⟨h.clock, h.requests, h.intents, h.targets⟩

theorem foldl {α : Type} {f : Store → α → Store} (h : ∀ s a, SameReceipts s (f s a)) (l : List α)
    (s : Store) : SameReceipts s (l.foldl f s) := by
  induction l generalizing s
  case nil         => exact refl s
  case cons a l ih => exact (h s a).trans <| ih _

theorem suppressTargets [Codec] (s : Store) (targets : List Target) (now : Instant) :
    SameReceipts s (s.suppressTargets targets now) := by
  refine foldl ?_ _ s
  exact fun _ _ => ⟨rfl, rfl, rfl, rfl⟩

theorem removeTarget (kind : Kind) (s : Store) (t : Target) :
    SameReceipts s (s.removeTarget kind t) := by
  unfold Store.removeTarget
  split
  case h_1 => exact refl s
  case h_2 =>
    split
    case h_1 => exact ⟨rfl, rfl, rfl, rfl⟩
    case h_2 => exact of_deletes <| .deleteMessages ..

end SameReceipts

section Completion

variable [Codec] {unit : String × String} {now : Instant}

-- The store when the targets of a unit have been removed but are not settled yet.
def Store.removed (s : Store) (i : Intent) (unit : String × String) (now : Instant) : Store :=
  (s.pendingTargets unit).foldl (Store.removeTarget i.kind) <|
    if i.kind = .unfollow then s else s.suppressTargets (s.pendingTargets unit) now

theorem completeUnit_ok (h : s.completeUnit unit now = .ok s') :
    s.pendingTargets unit = [] ∧ s' = s ∨ ∃ i, s.intents.get unit.fst = some i ∧
      s' = ((s.removed i unit now).settleTargets unit now).settleIntent i now := by
  simp only [completeUnit] at h
  split at h
  case isTrue hn =>
    cases pure_eq_ok.mp h
    exact .inl ⟨hn, rfl⟩
  case isFalse =>
    simp only [bind_eq_ok, find_eq_ok, pure_eq_ok] at h
    obtain ⟨i, hi, hs⟩ := h
    exact .inr ⟨i, hi, hs.symm⟩

theorem SameReceipts.removed (s : Store) (i : Intent) (unit : String × String) (now : Instant) :
    SameReceipts s (s.removed i unit now) := by
  refine trans ?_ <| foldl (SameReceipts.removeTarget i.kind) _ _
  split
  case isTrue  => exact refl s
  case isFalse => exact suppressTargets ..

-- What settling a unit makes of a target.
def settled (unit : String × String) (now : Instant) (t : Target) : Target :=
  if t.intentId = unit.fst && t.logicalTargetId = unit.snd && t.state = .pending then
    { t with state := .completed, settledAt := some now }
  else
    t

omit [Codec] in
@[simp]
theorem intentId_settled (t : Target) : (settled unit now t).intentId = t.intentId := by
  unfold settled
  split <;> rfl

omit [Codec] in
@[simp]
theorem logicalTargetId_settled (t : Target) :
    (settled unit now t).logicalTargetId = t.logicalTargetId := by
  unfold settled
  split <;> rfl

omit [Codec] in
@[simp]
theorem frozen_settled (t : Target) : (settled unit now t).frozen = t.frozen := by
  unfold settled
  split <;> rfl

omit [Codec] in
theorem state_settled {t : Target} (h : t.state = .completed) :
    (settled unit now t).state = .completed := by
  simp [settled, h]

omit [Codec] in
theorem rows_settleTargets (s : Store) (unit : String × String) (now : Instant) :
    (s.settleTargets unit now).targets.rows = s.targets.rows.map (settled unit now) :=
  rfl

omit [Codec] in
theorem mem_settleTargets {t : Target} :
    t ∈ (s.settleTargets unit now).targets ↔ ∃ t' ∈ s.targets, settled unit now t' = t := by
  rw [← Table.mem_rows, rows_settleTargets, List.mem_map]
  rfl

omit [Codec] in
theorem targetsOf_settleTargets :
    (s.settleTargets unit now).targetsOf k = (s.targetsOf k).map (settled unit now) := by
  rw [targetsOf, rows_settleTargets, List.filter_map, targetsOf]
  congr 2
  funext t
  simp

omit [Codec] in
theorem logicalTargets_settleTargets :
    (s.settleTargets unit now).logicalTargets k = s.logicalTargets k := by
  simp [logicalTargets, targetsOf_settleTargets, List.map_map, Function.comp_def]

omit [Codec] in
theorem completedTargets_settleTargets :
    (s.completedTargets k).length ≤ ((s.settleTargets unit now).completedTargets k).length := by
  refine (List.Nodup.subperm (List.nodup_dedup _) ?_).length_le
  intro c hc
  obtain ⟨t, ht, hs, hl⟩ := mem_completedTargets.mp hc
  refine mem_completedTargets.mpr ⟨settled unit now t, ?_, state_settled hs, by simpa using hl⟩
  rw [targetsOf_settleTargets]
  exact List.mem_map_of_mem ht

omit [Codec] in
theorem targetsOf_settleTargets_of_ne (h : k ≠ unit.fst) :
    (s.settleTargets unit now).targetsOf k = s.targetsOf k := by
  rw [targetsOf_settleTargets]
  refine (List.map_congr_left ?_).trans (List.map_id _)
  intro t ht
  have hk := (mem_targetsOf.mp ht).right
  simp [settled, hk, h]

-- The row of an intent after the targets in `s` have been counted.
def Store.counted (s : Store) (now : Instant) (i : Intent) : Intent :=
  let completed := (s.completedTargets i.intentId).length
  { i with
    completedCount := completed
    state          := if completed = i.requestedCount then .completed else .pending
    settledAt      := if completed = i.requestedCount then some now else none
  }

omit [Codec] in
theorem get_settleIntent (now : Instant) (k : String) (h : s.intents.get i.intentId = some i) :
    (s.settleIntent i now).intents.get k =
    if k = i.intentId then some (s.counted now i) else s.intents.get k := by
  simp only [settleIntent, Table.get_update]
  by_cases hk : k = i.intentId
  case pos =>
    rw [hk, h]
    simp [Store.counted]
  case neg =>
    rw [if_neg hk]
    cases hg : s.intents.get k
    case none => rfl
    case some j =>
      have hj : j.intentId = k := Table.key_of_get hg
      simp [hj, hk]

omit [Codec] in
theorem Sound.settle (h : Sound s) (hi : s.intents.get unit.fst = some i) :
    Sound ((s.settleTargets unit now).settleIntent i now) := by
  have hk : i.intentId = unit.fst := Table.key_of_get hi
  have hg := fun k => get_settleIntent (s := s.settleTargets unit now) now k (hk ▸ hi)
  constructor
  case known =>
    intro t ht
    obtain ⟨t', ht', he⟩ := mem_settleTargets.mp ht
    obtain ⟨j, hj⟩ := h.known t' ht'
    rw [hg, ← he, intentId_settled]
    split
    case isTrue  => exact ⟨_, rfl⟩
    case isFalse => exact ⟨j, hj⟩
  case uniform =>
    intro t₁ ht₁ t₂ ht₂ hik hl
    obtain ⟨t₁', ht₁', he₁⟩ := mem_settleTargets.mp ht₁
    obtain ⟨t₂', ht₂', he₂⟩ := mem_settleTargets.mp ht₂
    subst he₁ he₂
    simp only [intentId_settled, logicalTargetId_settled] at hik hl
    have hs := h.uniform t₁' ht₁' t₂' ht₂' hik hl
    simp only [settled, hik, hl, hs]
    split <;> simp_all
  case exact =>
    intro k j hj
    rw [hg] at hj
    split at hj
    case isTrue =>
      cases hj
      have he := h.exact _ _ hi
      refine ⟨he.positive, ?_, rfl, ?_⟩
      · rw [show (Store.counted _ now i).requestedCount = i.requestedCount from rfl, he.requested]
        exact congrArg Finset.card logicalTargets_settleTargets.symm
      · simp [Store.counted]
    case isFalse hne =>
      have hjk : j.intentId = k := Table.key_of_get hj
      refine Exact.congr ?_ <| h.exact k j hj
      exact targetsOf_settleTargets_of_ne (hjk ▸ hk ▸ hne)

theorem Sound.completeUnit (h : Sound s) (hc : s.completeUnit unit now = .ok s') : Sound s' := by
  cases completeUnit_ok hc
  case inl hs => exact hs.right ▸ h
  case inr hs =>
    obtain ⟨i, hi, hs⟩ := hs
    have hr := SameReceipts.removed s i unit now
    rw [hs]
    exact Sound.settle (h.congr hr.intents hr.targets) (hr.intents ▸ hi)

end Completion

section Retirement

variable {key : Key}

theorem targetsOf_dropRequest (hj : (s.dropRequest key).intents.get k = some j) :
    (s.dropRequest key).targetsOf k = s.targetsOf k := by
  obtain ⟨hj, hn⟩ := Table.get_delete_eq_some.mp hj
  simp only [targetsOf, dropRequest, Table.delete, List.filter_filter]
  refine List.filter_congr ?_
  intro t _
  by_cases hk : t.intentId = k
  case neg => simp [hk]
  case pos => simpa [hk, hj] using hn

theorem Sound.dropRequest (h : Sound s) : Sound (s.dropRequest key) := by
  have hm : ∀ t ∈ (s.dropRequest key).targets, t ∈ s.targets := fun t ht =>
    (Table.mem_delete.mp ht).left
  constructor
  case known =>
    intro t ht
    obtain ⟨ht, hn⟩ := Table.mem_delete.mp ht
    obtain ⟨i, hi⟩ := h.known t ht
    exact ⟨i, Table.get_delete_eq_some.mpr ⟨hi, by simpa [hi] using hn⟩⟩
  case uniform => exact fun t ht t' ht' => h.uniform t (hm t ht) t' (hm t' ht')
  case exact =>
    intro k j hj
    have hjk : j.intentId = k := Table.key_of_get hj
    refine Exact.congr ?_ <| h.exact k j (Table.get_delete_eq_some.mp hj).left
    exact hjk ▸ targetsOf_dropRequest hj

variable [Codec]

-- A request that goes has expired.
theorem retireRequest_ok {cutoff : Instant} {r : Request} (h : retireRequest cutoff s r = .ok s') :
    s' = s ∨ s' = s.dropRequest r.requestId ∧ r.requestId.expiry ≤ s.clock := by
  simp only [retireRequest, retirable, parseKey, bind_eq_ok, pure_eq_ok] at h
  obtain ⟨b, ⟨_, ⟨_, _, he⟩, hb⟩, hs⟩ := h
  subst he hb hs
  split
  case isFalse => exact .inl rfl
  case isTrue hr =>
    simp only [Bool.and_eq_true, decide_eq_true_eq] at hr
    exact .inr ⟨rfl, hr.left.left⟩

end Retirement

section Runs

variable [Codec]

omit [Codec] in
theorem Fresh.of_group (key : Key) (kind : Kind) (accepted : Instant) (id : String)
    {g : Binding × Table (String × LogicalUnit)} (h : GroupOf s g) :
    Fresh s (newIntent key kind accepted id g) g.snd where
  state     := rfl
  completed := rfl
  requested := rfl
  nonempty  := h.nonempty
  targets u hu :=
    have ⟨_, hm, hl⟩ := h.units u hu
    unitTargets_ne_nil hm hl

-- An intent keeps what it has frozen, and its count only grows.
structure Advances (k : String) (s s' : Store) (i i' : Intent) : Prop where
  frozen    : i'.frozen = i.frozen
  targets   : s'.frozenTargets k = s.frozenTargets k
  completed : i.completedCount ≤ i'.completedCount

omit [Codec] in
theorem Advances.refl (k : String) (s : Store) (i : Intent) : Advances k s s i i :=
  ⟨rfl, rfl, le_rfl⟩

omit [Codec] in
theorem Advances.trans {i₁ i₂ i₃ : Intent} (h₁ : Advances k s₁ s₂ i₁ i₂)
    (h₂ : Advances k s₂ s₃ i₂ i₃) : Advances k s₁ s₃ i₁ i₃ :=
  ⟨h₂.frozen.trans h₁.frozen, h₂.targets.trans h₁.targets, h₁.completed.trans h₂.completed⟩

-- The intent outlives the transaction.
def Survives (k : String) (s s' : Store) : Prop :=
  ∀ i, s.intents.get k = some i → ∃ i', s'.intents.get k = some i' ∧ Advances k s s' i i'

-- The intent is older than the transaction.
def Descends (k : String) (s s' : Store) : Prop :=
  ∀ i', s'.intents.get k = some i' → ∃ i, s.intents.get k = some i ∧ Advances k s s' i i'

omit [Codec] in
theorem Survives.of_same (h : SameReceipts s s') : Survives k s s' := by
  intro i hi
  refine ⟨i, h.intents ▸ hi, rfl, ?_, le_rfl⟩
  simp [frozenTargets, targetsOf, h.targets]

omit [Codec] in
theorem Survives.trans (h₁ : Survives k s₁ s₂) (h₂ : Survives k s₂ s₃) : Survives k s₁ s₃ := by
  intro i hi
  obtain ⟨i₂, hi₂, ha₂⟩ := h₁ i hi
  obtain ⟨i₃, hi₃, ha₃⟩ := h₂ i₂ hi₂
  exact ⟨i₃, hi₃, ha₂.trans ha₃⟩

omit [Codec] in
theorem Survives.freezeGroup {units : Table (String × LogicalUnit)} (h : Sound s)
    (hf : s.freezeGroup i units = .ok s') : Survives k s s' := by
  intro j hj
  have ht := targetsOf_freezeGroup (k := k) h hf
  obtain ⟨is, ts, hi, hs, _⟩ := freezeGroup_ok hf
  have hn : k ≠ i.intentId := by
    intro hk
    have hnone : s.intents.get i.intentId = none := (Table.insert_eq_some.mp hi).left
    rw [← hk, hj] at hnone
    exact Option.some_ne_none _ hnone
  rw [if_neg hn] at ht
  subst hs
  refine ⟨j, ?_, rfl, ?_, le_rfl⟩
  · rw [Table.get_insert hi, if_neg (Ne.symm hn : Keyed.key i ≠ k), hj]
  · rw [frozenTargets, frozenTargets, ht]

theorem Survives.completeUnit {unit : String × String} {now : Instant} (h : Sound s)
    (hc : s.completeUnit unit now = .ok s') : Survives k s s' := by
  cases completeUnit_ok hc
  case inl hs =>
    rw [hs.right]
    exact .of_same (.refl s)
  case inr hs =>
    obtain ⟨i, hi, hs⟩ := hs
    have hr := SameReceipts.removed s i unit now
    have hk : i.intentId = unit.fst := Table.key_of_get hi
    refine Survives.trans (.of_same hr) ?_
    rw [hs]
    rw [← hr.intents] at hi
    have h' : Sound (s.removed i unit now) := h.congr hr.intents hr.targets
    generalize s.removed i unit now = s₁ at hi h'
    have hg := get_settleIntent (s := s₁.settleTargets unit now) now k (hk ▸ hi)
    have hf : ((s₁.settleTargets unit now).settleIntent i now).frozenTargets k =
        s₁.frozenTargets k := by
      have ht : ((s₁.settleTargets unit now).settleIntent i now).targetsOf k =
        (s₁.targetsOf k).map (settled unit now) := targetsOf_settleTargets
      simp [frozenTargets, ht, List.map_map, Function.comp_def]
    intro j hj
    rw [hg]
    split
    case isFalse => exact ⟨j, hj, rfl, hf, le_rfl⟩
    case isTrue hki =>
      have hji : j = i := by
        rw [hki, hk, hi] at hj
        exact (Option.some.inj hj).symm
      rw [hji]
      refine ⟨_, rfl, rfl, hf, ?_⟩
      rw [(h'.exact _ _ hi).completed]
      exact completedTargets_settleTargets

omit [Codec] in
theorem Descends.dropRequest {key : Key} : Descends k s (s.dropRequest key) := by
  intro j hj
  refine ⟨j, (Table.get_delete_eq_some.mp hj).left, rfl, ?_, le_rfl⟩
  rw [frozenTargets, frozenTargets, targetsOf_dropRequest hj]

omit [Codec] in
theorem Descends.trans (h₁ : Descends k s₁ s₂) (h₂ : Descends k s₂ s₃) : Descends k s₁ s₃ := by
  intro i₃ hi₃
  obtain ⟨i₂, hi₂, ha₃⟩ := h₂ i₃ hi₃
  obtain ⟨i, hi, ha₂⟩ := h₁ i₂ hi₂
  exact ⟨i, hi, ha₂.trans ha₃⟩

omit [Codec] in
theorem Survives.refl (k : String) (s : Store) : Survives k s s :=
  .of_same (.refl s)

omit [Codec] in
theorem Descends.refl (k : String) (s : Store) : Descends k s s :=
  fun i hi => ⟨i, hi, .refl k s i⟩

omit [Codec] in
theorem Sound.freeze {key : Key} {kind : Kind} {ids : List String} {accepted : Instant}
    {uuid : Nat → String} (h : Sound s) (hf : s.freeze key kind ids accepted uuid = .ok s') :
    Sound s' ∧ Survives k s s' := by
  -- The passes leave the messages that the groups were made of alone.
  have hi : (Sound s' ∧ s'.messages = s.messages) ∧ Survives k s s' := by
    refine foldlM_guarded (I := fun s' => Sound s' ∧ s'.messages = s.messages)
      (Survives.refl k) (fun _ _ _ => .trans) ?_ ⟨h, rfl⟩ hf
    rintro s₁ ⟨g, n⟩ hm s₂ ⟨hs, he⟩ hg
    have hfr := Fresh.of_group key kind accepted (uuid n) <|
      GroupOf.of_mem <| List.fst_mem_of_mem_zipIdx hm
    have hfr : Fresh s₁ (newIntent key kind accepted (uuid n) g) g.snd :=
      { hfr with targets := by simpa [unitTargets, he] using hfr.targets }
    obtain ⟨_, _, _, hs₂, _⟩ := freezeGroup_ok hg
    exact ⟨⟨hs.freezeGroup hfr hg, by rw [hs₂, ← he]⟩, .freezeGroup hs hg⟩
  exact ⟨hi.left.left, hi.right⟩

-- Every transaction keeps the receipts sound. It takes an intent along or drops it; no transaction
-- replaces one.
theorem Sound.step (h : Sound s) (he : Effect s s') :
    Sound s' ∧ (Survives k s s' ∨ Descends k s s') := by
  have hsame : SameReceipts s s' → Sound s' ∧ (Survives k s s' ∨ Descends k s s') := fun hs =>
    ⟨h.congr hs.intents hs.targets, .inl <| .of_same hs⟩
  cases he
  case mail h' => exact hsame <| .of_mail h'
  case tick =>
    exact ⟨Sound.congr (s := s) rfl rfl h, .inl fun i hi => ⟨i, hi, rfl, rfl, le_rfl⟩⟩
  case accept r ha =>
    obtain ⟨requests, _, _, _, hf⟩ := ha.frozen
    have h' : Sound { s with requests := requests } := Sound.congr (s := s) rfl rfl h
    obtain ⟨hs, hv⟩ := h'.freeze (k := k) hf
    have hr : Survives k s { s with requests := requests } := fun i hi => ⟨i, hi, rfl, rfl, le_rfl⟩
    exact ⟨hs, .inl <| hr.trans hv⟩
  case resume hr =>
    obtain ⟨hs, hv⟩ := foldlM_guarded (Survives.refl k) (fun _ _ _ => .trans)
      (fun _ _ _ _ h hc => ⟨h.completeUnit hc, .completeUnit h hc⟩) h hr
    exact ⟨hs, .inl hv⟩
  case retire hr =>
    have hd : Sound s' ∧ Descends k s s' := by
      refine foldlM_guarded (Descends.refl k) (fun _ _ _ => .trans) ?_ h hr
      intro s₁ r _ s₂ h hp
      cases retireRequest_ok hp
      case inl hs =>
        subst hs
        exact ⟨h, .refl k _⟩
      case inr hs =>
        rw [hs.left]
        exact ⟨h.dropRequest, .dropRequest⟩
    exact ⟨hd.left, .inr hd.right⟩
  case purgeMessages   => exact hsame <| .of_deletes <| .deleteMessages ..
  case purgeSuppressed => exact hsame ⟨rfl, rfl, rfl, rfl⟩

end Runs

section Keys

variable [Codec]

-- The requests that a transaction has accepted.
def newKeys (s s' : Store) : List Key :=
  (s'.requests.rows.filter fun r => (s.requests.get r.requestId).isNone).map (·.requestId)

-- The store with an observer, who notes every request that is accepted.
def observed : Machine (Store × List Key) Action StoreError :=
  machine.monitor fun log s _ s' => log ++ newKeys s s'

-- A key that has been accepted is on record or has expired.
structure Spent (s : Store) (log : List Key) : Prop where
  nodup : log.Nodup
  spent : ∀ key ∈ log, (s.requests.get key).isSome ∨ key.expiry ≤ s.clock

-- Requests come one at a time, with a key that is valid, and go when they have expired.
inductive KeyStep (s s' : Store) : Prop
  | accept (r : Request) (unused : s.requests.get r.requestId = none)
    (valid : s.clock < r.requestId.expiry) (clock : s'.clock = s.clock)
    (requests : s'.requests.rows = s.requests.rows ++ [r])
  | retire (clock : s.clock ≤ s'.clock) (old : ∀ r ∈ s'.requests, r ∈ s.requests)
    (expired : ∀ r ∈ s.requests, r ∈ s'.requests ∨ r.requestId.expiry ≤ s.clock)

omit [Codec] in
theorem KeyStep.of_eq (hc : s.clock ≤ s'.clock) (hr : s'.requests = s.requests) : KeyStep s s' :=
  .retire hc (fun _ h => hr ▸ h) fun _ h => .inl <| hr ▸ h

structure SameRequests (s s' : Store) : Prop where
  clock    : s'.clock = s.clock
  requests : s'.requests = s.requests

omit [Codec] in
theorem SameRequests.refl (s : Store) : SameRequests s s :=
  ⟨rfl, rfl⟩

omit [Codec] in
theorem SameRequests.trans (h₁ : SameRequests s₁ s₂) (h₂ : SameRequests s₂ s₃) :
    SameRequests s₁ s₃ :=
  ⟨h₂.clock.trans h₁.clock, h₂.requests.trans h₁.requests⟩

omit [Codec] in
theorem SameRequests.freeze {key : Key} {kind : Kind} {ids : List String} {accepted : Instant}
    {uuid : Nat → String} (hf : s.freeze key kind ids accepted uuid = .ok s') :
    SameRequests s s' := by
  refine foldlM_relation .refl (fun _ _ _ => .trans) ?_ hf
  intro s g _ s' hg
  obtain ⟨_, _, _, hs, _⟩ := freezeGroup_ok hg
  subst hs
  exact ⟨rfl, rfl⟩

theorem SameRequests.completeUnit {unit : String × String} {now : Instant}
    (h : s.completeUnit unit now = .ok s') : SameRequests s s' := by
  cases completeUnit_ok h
  case inl hs => exact hs.right ▸ .refl _
  case inr hs =>
    obtain ⟨i, _, hs⟩ := hs
    have hr := SameReceipts.removed s i unit now
    subst hs
    exact ⟨hr.clock, hr.requests⟩

theorem Effect.keys (he : Effect s s') : KeyStep s s' := by
  cases he
  case mail h  => exact .of_eq h.clock.ge h.requests
  case tick n  => exact .of_eq (Int.le_add_of_nonneg_right <| Int.natCast_nonneg n) rfl
  case accept r ha =>
    obtain ⟨requests, _, _, hi, hf⟩ := ha.frozen
    have hr := SameRequests.freeze hf
    refine .accept r ha.unused ha.valid hr.clock ?_
    rw [hr.requests, (Table.insert_eq_some.mp hi).right]
  case resume hr =>
    have h := foldlM_relation (R := SameRequests) .refl (fun _ _ _ => .trans)
      (fun _ _ _ _ h => .completeUnit h) hr
    exact .of_eq h.clock.ge h.requests
  case retire hr =>
    have h := foldlM_relation (R := fun s s' => s'.clock = s.clock ∧
        (∀ r ∈ s'.requests, r ∈ s.requests) ∧
        ∀ r ∈ s.requests, r ∈ s'.requests ∨ r.requestId.expiry ≤ s.clock)
      (fun _ => ⟨rfl, fun _ => id, fun _ => .inl⟩) ?_ ?_ hr
    · exact .retire h.left.ge h.right.left h.right.right
    · rintro s₁ s₂ s₃ ⟨hc₁, ho₁, he₁⟩ ⟨hc₂, ho₂, he₂⟩
      refine ⟨hc₂.trans hc₁, fun r h => ho₁ r <| ho₂ r h, fun r h => ?_⟩
      cases he₁ r h
      case inl h => exact (he₂ r h).imp_right fun h => hc₁ ▸ h
      case inr h => exact .inr h
    · intro s r hm s' hp
      cases retireRequest_ok hp
      case inl hs => exact hs ▸ ⟨rfl, fun _ => id, fun _ => .inl⟩
      case inr hs =>
        rw [hs.left]
        refine ⟨rfl, fun x hx => (Table.mem_delete.mp hx).left, fun x hx => ?_⟩
        by_cases hk : x.requestId = r.requestId
        case pos => exact .inr <| hk ▸ hs.right
        case neg => exact .inl <| Table.mem_delete.mpr ⟨hx, by simpa using hk⟩
  case purgeMessages chunk expired =>
    have hd : Deletes s (s.purgeMessages chunk expired) := .deleteMessages ..
    exact .of_eq hd.clock.ge hd.requests
  case purgeSuppressed => exact .of_eq (le_refl s.clock) rfl

omit [Codec] in
theorem Spent.step {log : List Key} (h : Spent s log) (hk : KeyStep s s') :
    Spent s' (log ++ newKeys s s') := by
  cases hk
  case accept r hu hv hc hr =>
    have hn : newKeys s s' = [r.requestId] := by
      have ho : s.requests.rows.filter (fun r => (s.requests.get r.requestId).isNone) = [] := by
        rw [List.filter_eq_nil_iff]
        intro x hx
        have hg : s.requests.get x.requestId = some x := Table.get_of_mem hx
        simp [hg]
      simp [newKeys, hr, ho, hu]
    have hm : ∀ x, x ∈ s'.requests ↔ x ∈ s.requests ∨ x = r := by
      simp [← Table.mem_rows, hr]
    have hs : ∀ x ∈ s'.requests, (s'.requests.get x.requestId).isSome := by
      intro x hx
      have hg : s'.requests.get x.requestId = some x := Table.get_of_mem hx
      simp [hg]
    rw [hn]
    constructor
    case nodup =>
      refine List.Nodup.append h.nodup (List.nodup_singleton _) ?_
      simp only [List.disjoint_singleton]
      intro hl
      cases h.spent _ hl
      case inl h => simp [hu] at h
      case inr h => exact absurd h (not_le.mpr hv)
    case spent =>
      intro key hkey
      simp only [List.mem_append, List.mem_singleton] at hkey
      cases hkey
      case inr hk => exact .inl <| hk ▸ hs r ((hm r).mpr <| .inr rfl)
      case inl hl =>
        cases h.spent key hl
        case inr h => exact .inr <| hc ▸ h
        case inl h =>
          obtain ⟨x, hx⟩ := Option.isSome_iff_exists.mp h
          have hxk : x.requestId = key := Table.key_of_get hx
          exact .inl <| hxk ▸ hs x ((hm x).mpr <| .inl <| Table.mem_of_get hx)
  case retire hc ho he =>
    have hn : newKeys s s' = [] := by
      rw [newKeys, List.map_eq_nil_iff, List.filter_eq_nil_iff]
      intro x hx
      have hg : s.requests.get x.requestId = some x := Table.get_of_mem (ho x hx)
      simp [hg]
    rw [hn, List.append_nil]
    refine ⟨h.nodup, fun key hkey => ?_⟩
    cases h.spent key hkey
    case inr h => exact .inr <| h.trans hc
    case inl h =>
      obtain ⟨x, hx⟩ := Option.isSome_iff_exists.mp h
      have hxk : x.requestId = key := Table.key_of_get hx
      cases he x (Table.mem_of_get hx)
      case inr h => exact .inr <| hxk ▸ h.trans hc
      case inl h =>
        have hg : s'.requests.get key = some x := hxk ▸ Table.get_of_mem h
        exact .inl <| by simp [hg]

end Keys

section Receipts

variable [Codec]

-- The mail of a store to which no removal has been made yet.
def Store.withoutRemovals (s : Store) : Store :=
  { s with requests := ∅, intents := ∅, targets := ∅ }

-- What holds for the receipts in `s`, and for what becomes of them.
structure Receipts (s : Store) : Prop where
  counts : ∀ i ∈ s.intents,
    i.completedCount = (s.removedTargets i.intentId).card ∧
    i.completedCount ≤ i.requestedCount ∧
    (i.state = .completed ↔ i.completedCount = i.requestedCount)
  kept : ∀ k as, machine.Always (fun s => (s.intents.get k).isSome) s as →
    ∀ i i', s.intents.get k = some i → (machine.run s as).intents.get k = some i' →
    i.completedCount ≤ i'.completedCount ∧ (machine.run s as).frozenTargets k = s.frozenTargets k
  repeated : ∀ key kind parameters uuid complete r, s.requests.get key = some r → r.kind = kind →
    r.parametersSha256 = Codec.requestHash kind parameters →
    s.accept key kind parameters uuid complete = .ok (s, some (s.receipt r))

omit [Codec] in
theorem Sound.counts (h : Sound s) (hi : i ∈ s.intents) :
    i.completedCount = (s.removedTargets i.intentId).card ∧
    i.completedCount ≤ i.requestedCount ∧
    (i.state = .completed ↔ i.completedCount = i.requestedCount) := by
  have he := h.exact _ _ <| Table.get_of_mem hi
  exact ⟨by rw [h.removedTargets, he.completed], he.le, he.state⟩

theorem Sound.kept (h : Sound s) {as : List Action}
    (ha : machine.Always (fun s => (s.intents.get k).isSome) s as) : Survives k s (machine.run s as) := by
  refine Machine.relation (I := Sound) (C := fun _ _ => True) (.refl k) (fun _ _ _ => .trans) ?_ ?_ h
    Machine.guarded_true ha
  · exact fun s a s' hs _ hok => (hs.step (k := k) <| step_effect hok).left
  · intro s a s' hs _ _ hp' hok
    cases (hs.step (k := k) <| step_effect hok).right
    case inl hv => exact hv
    case inr hd =>
      intro i hi
      obtain ⟨i', hi'⟩ := Option.isSome_iff_exists.mp hp'
      obtain ⟨j, hj, ha⟩ := hd i' hi'
      rw [hi] at hj
      cases hj
      exact ⟨i', hi', ha⟩

theorem accept_repeated {key : Key} {kind : Kind} {parameters : Parameters} {uuid : Nat → String}
    {complete : Store → Except StoreError Store} {r : Request} (hr : s.requests.get key = some r)
    (hk : r.kind = kind) (hp : r.parametersSha256 = Codec.requestHash kind parameters) :
    s.accept key kind parameters uuid complete = .ok (s, some (s.receipt r)) := by
  have ho : s.outcome key (some (kind, Codec.requestHash kind parameters)) =
      .ok (some (s.receipt r)) := by
    simp [outcome, hr, hk, hp, pure, Except.pure]
  simp [accept, acceptInTransaction, ho, pure, Except.pure]

theorem Sound.receipts (h : Sound s) : Receipts s where
  counts i hi := h.counts hi
  kept k as ha i i' hi hi' := by
    obtain ⟨j, hj, hv⟩ := h.kept ha i hi
    rw [hi'] at hj
    cases hj
    exact ⟨hv.completed, hv.targets⟩
  repeated key kind parameters uuid complete r hr hk hp := accept_repeated hr hk hp

-- In every run the receipts are exact, and no key is accepted twice.
theorem removal_receipts_exact (s : Store) (as : List Action) :
    Receipts (machine.run s.withoutRemovals as) ∧
    (observed.run (s.withoutRemovals, []) as).snd.Nodup := by
  constructor
  case left =>
    refine Sound.receipts ?_
    refine Machine.invariant ?_ (Sound.empty _ rfl rfl) as
    exact fun s a s' h hok => (h.step (k := "") <| step_effect hok).left
  case right =>
    have h : Spent (observed.run (s.withoutRemovals, []) as).fst
        (observed.run (s.withoutRemovals, []) as).snd := by
      refine Machine.invariant (I := fun x : Store × List Key => Spent x.fst x.snd) ?_ ⟨List.nodup_nil, by simp⟩ as
      rintro ⟨s, log⟩ a x h hok
      obtain ⟨s', hs, hx⟩ := map_eq_ok.mp hok
      subst hx
      exact h.step (step_effect hs).keys
    exact h.nodup

end Receipts

namespace Sample

-- Hashes that keep apart what the examples hash.
scoped instance codec : Codec where
  requestHash _ parameters :=
    match parameters with
    | .messageId id   => "message " ++ id
    | .messageIds ids => "messages " ++ " ".intercalate ids
    | .other json     => json
  signature _ nonce _ fingerprint := nonce ++ " " ++ fingerprint
  sha256 text        := text
  fromIsoFormat _    := none
  isPrintable c      := '!' ≤ c && c ≤ '~'
  isSpace c          := c = ' '

def account : Account where
  provider             := .gmail
  accountId            := "account"
  mailboxIdentityKey   := "mailbox"
  legacyIdentityStatus := .unresolved
  legacyIdentityKey    := none

def mail : Store where
  clock       := 0
  accounts    := Table.put ∅ account
  messages    := ∅
  locations   := ∅
  threadIds   := ∅
  aliases     := ∅
  follows     := ∅
  watermarks  := ∅
  catchup     := ∅
  suppressed  := ∅
  bodies      := ∅
  unavailable := ∅
  requests    := ∅
  intents     := ∅
  targets     := ∅

def letter : Capture where
  messageId          := "letter"
  threadId           := "thread"
  sender             := "sender"
  receivedAt         := ""
  provider           := .gmail
  accountId          := "account"
  providerMessageId  := none
  mailboxIdentityKey := "mailbox"
  rfcMessageId       := none
  replyIds           := []
  locations          := [.inbox]
  provenance         := .ok ()
  granted            := true
  fresh              := "fresh"

-- A key for the deletion of the letter, issued for one day.
def key : Key where
  expires   := 86400
  nonce     := "nonce"
  signature := "nonce message letter"

def deletion : List Action := [
  .capture letter,
  .accept key .delete (.messageId "letter") fun _ => "intent",
  .resume [("intent", "letter")] 0
]

-- The same request once more, after its receipt has been retired.
def replay : List Action := deletion ++ [
  .tick (2 * 86400 * 1000000),
  .retire 1,
  .accept key .delete (.messageId "letter") fun _ => "intent"
]

example : (machine.run mail deletion).intents.rows.map
    (fun i => (i.requestedCount, i.completedCount)) = [(1, 1)] := by
  decide +kernel

example : (machine.run mail replay).requests.rows = [] := by
  decide +kernel

example : (observed.run (mail, []) replay).snd = [key] := by
  decide +kernel

end Sample

end Mail
