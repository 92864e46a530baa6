import EmailWatcher.Rules.Store

-- Every change of a rule is one more version of it and one more revision of the rule set.
namespace Rules

open Session

variable {s s' : Store} {u : Unit}

def Rule.live (r : Rule) : Bool :=
  !r.deleted

def liveRules (t : Table Rule) : Nat :=
  t.rows.countP Rule.live

-- What becomes of the table of rules when `row` is stored: a new rule is created, or a live one goes
-- on to its next version.
inductive RuleChange (t t' : Table Rule) (row : Rule) : Prop
  | created :
    t.insert row = some t' → row.currentVersion = 1 → liveRules t < maxAutomationRules →
    RuleChange t t' row
  | advanced {o : Rule} :
    t.get row.ruleId = some o → o.deleted = false →
    row.currentVersion = o.currentVersion + 1 →
    (∀ k, t'.get k = if k = row.ruleId then some row else t.get k) →
    liveRules t' ≤ liveRules t → RuleChange t t' row

-- A change of the rule set: the row of the rule that it leaves, the version that it stores with it,
-- and the revision before it.
structure Change (s s' : Store) (row : Rule) (v : Version) (n : Nat) : Prop where
  rule      : RuleChange s.rules s'.rules row
  version   : s.versions.insert v = some s'.versions
  ruleId    : v.ruleId = row.ruleId
  current   : v.version = row.currentVersion
  enabled   : v.enabled = row.enabled
  before    : s.revision = some n
  after     : s'.revision = some (n + 1)
  stamped   : v.globalRevision = n + 1

section Statements

theorem nextAutomationRulesRevision_returns {n : Nat}
    (h : nextAutomationRulesRevision.Returns s n s') :
    ∃ m, s.revision = some m ∧ n = m + 1 ∧ s' = { s with revision := some (m + 1) } := by
  simp only [nextAutomationRulesRevision, returns_bind, returns_query, returns_find, returns_write,
    returns_pure, id_eq] at h
  obtain ⟨_, _, ⟨rfl, rfl⟩, m, _, ⟨hm, rfl⟩, _, _, rfl, rfl, rfl⟩ := h
  exact ⟨m, hm, rfl, rfl⟩

theorem insertRule_returns {r : Rule} (h : (insertRule r).Returns s u s') :
    ∃ t, s.rules.insert r = some t ∧ s' = { s with rules := t } := by
  simp only [insertRule, returns_bind, returns_query, returns_require, returns_find, returns_write,
    id_eq] at h
  obtain ⟨_, _, ⟨rfl, rfl⟩, _, _, ⟨_, rfl⟩, t, _, ⟨ht, rfl⟩, rfl⟩ := h
  exact ⟨t, ht, rfl⟩

theorem insertVersion_returns {v : Version} (h : (insertVersion v).Returns s u s') :
    ∃ t, s.versions.insert v = some t ∧ s' = { s with versions := t } := by
  simp only [insertVersion, returns_bind, returns_query, returns_require, returns_find,
    returns_write, id_eq] at h
  obtain ⟨_, _, ⟨rfl, rfl⟩, _, _, ⟨_, rfl⟩, _, _, ⟨_, rfl⟩, t, _, ⟨ht, rfl⟩, rfl⟩ := h
  exact ⟨t, ht, rfl⟩

theorem insertSelection_returns {x : Selection} (h : (insertSelection x).Returns s u s') :
    ∃ t, s.selections.insert x = some t ∧ s' = { s with selections := t } := by
  simp only [insertSelection, returns_bind, returns_query, returns_require, returns_find,
    returns_write, id_eq] at h
  obtain ⟨_, _, ⟨rfl, rfl⟩, _, _, ⟨_, rfl⟩, t, _, ⟨ht, rfl⟩, rfl⟩ := h
  exact ⟨t, ht, rfl⟩

-- No update of a rule that keeps its row brings a deleted rule back.
theorem liveRules_update {t : Table Rule} {p : Rule → Bool} {g : Rule → Rule} {hg}
    (hl : ∀ r ∈ t, p r → (g r).live → r.live) : liveRules (t.update p g hg) ≤ liveRules t := by
  simp only [liveRules, Table.update, List.countP_map]
  refine List.countP_mono_left ?_
  intro r hr h
  simp only [Function.comp_apply] at h
  split at h
  case isTrue hp  => exact hl r hr hp h
  case isFalse hp => exact h

theorem updateRule_returns {old : Rule} {g : Rule → Rule} {hg}
    (h : (updateRule old.ruleId old.currentVersion g hg).Returns s u s')
    (ho : s.rules.get old.ruleId = some old) (hd : old.deleted = false)
    (hv : (g old).currentVersion = old.currentVersion + 1) :
    ∃ t, RuleChange s.rules t (g old) ∧ s' = { s with rules := t } := by
  simp only [updateRule, returns_bind, returns_query, returns_write, returns_require] at h
  obtain ⟨_, _, ⟨rfl, rfl⟩, _, _, rfl, _, rfl⟩ := h
  refine ⟨_, .advanced (o := old) ?_ hd hv ?_ ?_, rfl⟩
  · rwa [hg]
  · intro k
    rw [Table.get_update, hg]
    split
    case isTrue hk => simp [hk, ho, hd]
    case isFalse hk =>
      cases hr : s.rules.get k
      case none => rfl
      case some r =>
        have hid : r.ruleId = k := Table.key_of_get hr
        simp [hid, hk]
  · refine liveRules_update ?_
    intro r _ hp _
    simp only [Bool.and_eq_true] at hp
    exact hp.right

end Statements

section Operations

variable [Codec]

-- Every selection that is stored later is encoded from a capability or was there before.
def Copies (s s' : Store) : Prop :=
  ∀ x ∈ s'.selections, (∃ c, x.selectionJson = Codec.encodeSelection c) ∨
    ∃ y ∈ s.selections, y.selectionJson = x.selectionJson

omit [Codec] in
theorem copies_of_insert [Codec] {x : Selection} {t : Table Selection}
    (hi : s.selections.insert x = some t) (ht : s'.selections = t)
    (hx : (∃ c, x.selectionJson = Codec.encodeSelection c) ∨
      ∃ y ∈ s.selections, y.selectionJson = x.selectionJson) : Copies s s' := by
  intro y hy
  rw [ht, Table.mem_insert hi] at hy
  cases hy
  case inl hy => exact .inr ⟨y, hy, rfl⟩
  case inr he => exact he ▸ hx

omit [Codec] in
theorem copies_of_eq [Codec] (h : s'.selections = s.selections) : Copies s s' :=
  fun y hy => .inr ⟨y, h ▸ hy, rfl⟩

theorem admitVersion_returns {r : PutRequest} {version revision : Nat} {enabled : Bool}
    (h : (admitVersion r (s.rules.get r.identity)).Returns s (version, enabled, revision) s') :
    ∃ row n t, RuleChange s.rules t row ∧ row.ruleId = r.identity ∧ row.deleted = false ∧
      version = row.currentVersion ∧ enabled = row.enabled ∧ s.revision = some n ∧
      revision = n + 1 ∧ s' = { s with rules := t, revision := some (n + 1) } := by
  unfold admitVersion at h
  split at h
  case h_1 hn =>
    simp only [returns_bind, returns_query, returns_require, returns_pure, id_eq] at h
    obtain ⟨_, _, ⟨_, rfl⟩, _, _, ⟨rfl, rfl⟩, _, _, ⟨hc, rfl⟩, _, s₁, h₁, _, s₂, h₂, he, rfl⟩ := h
    obtain ⟨m, hm, rfl, rfl⟩ := nextAutomationRulesRevision_returns h₁
    obtain ⟨t, ht, rfl⟩ := insertRule_returns h₂
    cases he
    refine ⟨_, m, t, .created ht rfl ?_, rfl, rfl, rfl, rfl, hm, rfl, rfl⟩
    rw [liveRules, List.countP_eq_length_filter]
    exact hc
  case h_2 old ho =>
    have hid : old.ruleId = r.identity := Table.key_of_get ho
    simp only [returns_bind, returns_require, returns_pure] at h
    obtain ⟨_, _, ⟨hd, rfl⟩, _, _, ⟨_, rfl⟩, _, _, ⟨_, rfl⟩, _, s₁, h₁, _, s₂, h₂, he, rfl⟩ := h
    obtain ⟨m, hm, rfl, rfl⟩ := nextAutomationRulesRevision_returns h₁
    rw [← hid] at h₂ ho
    have hd : old.deleted = false := by simpa using hd
    obtain ⟨t, ht, rfl⟩ := updateRule_returns h₂ ho hd rfl
    cases he
    exact ⟨_, m, t, ht, hid, hd, rfl, rfl, hm, rfl, rfl⟩

theorem automationRuleScopeIdentity_returns {r : PutRequest} {d : RuleDefinition}
    {scope : Option String} (h : (automationRuleScopeIdentity r d).Returns s scope s') : s' = s := by
  unfold automationRuleScopeIdentity at h
  split at h
  case h_1 =>
    simp only [returns_bind, returns_require, returns_pure] at h
    obtain ⟨_, _, ⟨_, rfl⟩, _, rfl⟩ := h
    rfl
  case h_2 =>
    simp only [returns_bind, returns_require, returns_find, returns_pure] at h
    obtain ⟨_, _, ⟨_, rfl⟩, _, _, ⟨_, rfl⟩, _, rfl⟩ := h
    rfl

theorem put_returns {r : PutRequest} (h : (putStatements r).Returns s u s') :
    ∃ row v n, Change s s' row v n ∧ row.ruleId = r.identity ∧ row.deleted = false ∧
      Copies s s' := by
  simp only [putStatements, returns_bind, returns_require, returns_query, returns_lift] at h
  obtain ⟨d, _, ⟨_, rfl⟩, text, _, ⟨_, rfl⟩, _, _, ⟨_, rfl⟩, _, _, ⟨rfl, rfl⟩, scope, s₁, h₁,
    ⟨version, enabled, revision⟩, s₂, h₂, _, s₃, h₃, h₄⟩ := h
  obtain rfl := automationRuleScopeIdentity_returns h₁
  obtain ⟨row, n, t, hrow, hid, hd, rfl, rfl, hn, rfl, rfl⟩ := admitVersion_returns h₂
  obtain ⟨vs, hv, rfl⟩ := insertVersion_returns h₃
  split at h₄
  case h_1 =>
    obtain ⟨_, rfl⟩ := returns_pure.mp h₄
    exact ⟨row, _, n, ⟨hrow, hv, hid.symm, rfl, rfl, hn, rfl, rfl⟩, hid, hd, copies_of_eq rfl⟩
  case h_2 c _ =>
    simp only [returns_bind, returns_require] at h₄
    obtain ⟨_, _, ⟨_, rfl⟩, h₄⟩ := h₄
    obtain ⟨xs, hx, rfl⟩ := insertSelection_returns h₄
    refine ⟨row, _, n, ⟨hrow, hv, hid.symm, rfl, rfl, hn, rfl, rfl⟩, hid, hd, ?_⟩
    exact copies_of_insert hx rfl <| .inl ⟨c, rfl⟩

omit [Codec] in
theorem requireCurrent_returns {id : String} {version : Nat} {row : Option Rule} {r : Rule}
    (h : (requireCurrent id version row).Returns s r s') :
    row = some r ∧ r.deleted = false ∧ s' = s := by
  simp only [requireCurrent, returns_bind, returns_find, returns_require, returns_pure] at h
  obtain ⟨_, _, ⟨hr, rfl⟩, _, _, ⟨_, rfl⟩, _, _, ⟨_, rfl⟩, rfl, rfl⟩ := h
  obtain ⟨hr, hd⟩ := Option.filter_eq_some_iff.mp hr
  exact ⟨hr, by simpa using hd, rfl⟩

theorem setEnabled_returns {id : String} {version : Nat} {enabled b : Bool}
    (h : (setEnabledStatements id version enabled).Returns s b s') :
    (s' = s ∧ ∃ r v, s.rules.get id = some r ∧ r.deleted = false ∧ s.currentVersion r = some v) ∨
    ∃ row v n, Change s s' row v n ∧ row.ruleId = id ∧ row.deleted = false ∧ Copies s s' := by
  simp only [setEnabledStatements, returns_bind, returns_query, returns_find, returns_require,
    returns_lift, id_eq] at h
  obtain ⟨_, _, ⟨rfl, rfl⟩, r, _, h₁, v, _, ⟨hv, rfl⟩, _, _, ⟨_, rfl⟩, _, _, ⟨_, rfl⟩, h⟩ := h
  obtain ⟨hr, hd, he⟩ := requireCurrent_returns h₁
  subst he
  have hr := (Option.filter_eq_some_iff.mp hr).left
  have hid : r.ruleId = id := Table.key_of_get hr
  have hk : v.ruleId = r.ruleId := (Prod.mk.inj <| Table.key_of_get hv).left
  split at h
  case isTrue =>
    obtain ⟨_, rfl⟩ := returns_pure.mp h
    exact .inl ⟨rfl, r, v, hr, hd, hv⟩
  case isFalse =>
    right
    simp only [returns_bind] at h
    obtain ⟨_, s₁, h₁, _, s₂, h₂, _, s₃, h₃, h₄⟩ := h
    obtain ⟨n, hn, rfl, rfl⟩ := nextAutomationRulesRevision_returns h₁
    rw [← hid] at h₂ hr
    obtain ⟨t, ht, rfl⟩ := updateRule_returns h₂ hr hd rfl
    obtain ⟨vs, hvs, rfl⟩ := insertVersion_returns h₃
    split at h₄
    case h_1 =>
      obtain ⟨_, rfl⟩ := returns_pure.mp h₄
      exact ⟨_, _, n, ⟨ht, hvs, hk, rfl, rfl, hn, rfl, rfl⟩, hid, hd, copies_of_eq rfl⟩
    case h_2 x hx =>
      simp only [returns_bind, returns_pure] at h₄
      obtain ⟨_, _, h₄, _, rfl⟩ := h₄
      obtain ⟨xs, hxs, rfl⟩ := insertSelection_returns h₄
      refine ⟨_, _, n, ⟨ht, hvs, hk, rfl, rfl, hn, rfl, rfl⟩, hid, hd, ?_⟩
      exact copies_of_insert hxs rfl <| .inr ⟨x, Table.mem_of_get hx, rfl⟩

omit [Codec] in
theorem delete_returns {id : String} {version n' : Nat}
    (h : (deleteStatements id version).Returns s n' s') :
    ∃ row v n, Change s s' row v n ∧ s'.selections = s.selections := by
  simp only [deleteStatements, returns_bind, returns_query, returns_pure] at h
  obtain ⟨_, _, ⟨rfl, rfl⟩, r, _, h₁, _, s₁, h₂, _, s₂, h₃, _, s₃, h₄, _, rfl⟩ := h
  obtain ⟨hr, hd, rfl⟩ := requireCurrent_returns h₁
  have hid : r.ruleId = id := Table.key_of_get hr
  obtain ⟨n, hn, rfl, rfl⟩ := nextAutomationRulesRevision_returns h₂
  rw [← hid] at h₃ hr
  obtain ⟨t, ht, rfl⟩ := updateRule_returns h₃ hr hd rfl
  obtain ⟨vs, hvs, rfl⟩ := insertVersion_returns h₄
  exact ⟨_, _, n, ⟨ht, hvs, hid.symm, rfl, rfl, hn, rfl, rfl⟩, rfl⟩

end Operations

namespace RuleChange

variable {t t' : Table Rule} {row : Rule}

theorem get (h : RuleChange t t' row) (k : String) :
    t'.get k = if k = row.ruleId then some row else t.get k := by
  cases h
  case created hi _ _ =>
    rw [Table.get_insert hi]
    exact if_congr eq_comm rfl rfl
  case advanced hg _ => exact hg k

theorem mem (h : RuleChange t t' row) {r : Rule} (hr : r ∈ t') :
    r = row ∨ (r ∈ t ∧ r.ruleId ≠ row.ruleId) := by
  have hr := h.get r.ruleId ▸ Table.get_of_mem hr
  split at hr
  case isTrue     => exact .inl (Option.some.inj hr).symm
  case isFalse hn => exact .inr ⟨Table.mem_of_get hr, hn⟩

-- The row continues the count of its versions.
theorem currentVersion (h : RuleChange t t' row) :
    row.currentVersion = (t.get row.ruleId).elim 0 (·.currentVersion) + 1 := by
  cases h
  case created hi hv _ =>
    have hn := (Table.insert_eq_some.mp hi).left
    change t.get row.ruleId = none at hn
    rw [hn, hv, Option.elim_none]
  case advanced ho _ hv _ _ => rw [ho, hv, Option.elim_some]

theorem liveRules_le (h : RuleChange t t' row) (hl : liveRules t ≤ maxAutomationRules) :
    liveRules t' ≤ maxAutomationRules := by
  cases h
  case created hi _ hc =>
    have hr := (Table.insert_eq_some.mp hi).right
    have hone : List.countP Rule.live [row] ≤ 1 := List.countP_le_length
    simp only [liveRules, hr, List.countP_append] at hc ⊢
    omega
  case advanced hle => exact hle.trans hl

end RuleChange

-- The versions of every rule are numbered without a gap up to its current one, the revisions of the
-- rule set are those of its versions, and no more rules are live than the limit allows.
structure History (s : Store) : Prop where
  numbered  : ∀ r ∈ s.rules,
    (s.versionsOf r.ruleId).map (·.version) = List.range' 1 r.currentVersion
  owned     : ∀ v ∈ s.versions, (s.rules.get v.ruleId).isSome
  revisions : ∃ n, s.revision = some n ∧ s.versions.rows.map (·.globalRevision) = List.range' 1 n
  flags     : ∀ r ∈ s.rules, (s.currentVersion r).map (·.enabled) = some r.enabled
  capped    : liveRules s.rules ≤ maxAutomationRules

namespace History

variable {row : Rule} {v : Version} {n : Nat}

theorem empty : History ∅ where
  numbered  := fun r hr => absurd hr (Table.not_mem_empty r)
  owned     := fun v hv => absurd hv (Table.not_mem_empty v)
  revisions := ⟨0, rfl, rfl⟩
  flags     := fun r hr => absurd hr (Table.not_mem_empty r)
  capped    := Nat.zero_le _

-- A rule that is not there has no versions.
theorem versionsOf_eq_nil (h : History s) {id : String} (hn : s.rules.get id = none) :
    s.versionsOf id = [] := by
  refine List.filter_eq_nil_iff.mpr ?_
  intro v hv
  have := h.owned v hv
  by_contra hid
  simp_all

theorem versionsOf_change (hc : Change s s' row v n) (id : String) :
    s'.versionsOf id = s.versionsOf id ++ if row.ruleId = id then [v] else [] := by
  have hrows := (Table.insert_eq_some.mp hc.version).right
  simp only [Store.versionsOf, hrows, List.filter_append, ← hc.ruleId]
  congr 1
  split <;> simp_all

theorem change (h : History s) (hc : Change s s' row v n) : History s' where
  numbered := by
    intro r hr
    rw [versionsOf_change hc, List.map_append]
    obtain rfl | ⟨hr, hne⟩ := hc.rule.mem hr
    case inl =>
      rw [if_pos rfl, hc.rule.currentVersion, List.range'_concat, List.map_singleton, hc.current]
      congr 1
      · cases ho : s.rules.get r.ruleId
        case none     => simp [h.versionsOf_eq_nil ho]
        case some old =>
          have hid : old.ruleId = r.ruleId := Table.key_of_get ho
          simpa [hid] using h.numbered old (Table.mem_of_get ho)
      · rw [hc.rule.currentVersion]
        simp [Nat.add_comm]
    case inr =>
      rw [if_neg (Ne.symm hne), List.map_nil, List.append_nil]
      exact h.numbered r hr
  owned := by
    intro x hx
    rw [hc.rule.get]
    split
    case isTrue     => rfl
    case isFalse hn =>
      obtain hx | rfl := (Table.mem_insert hc.version).mp hx
      case inl => exact h.owned x hx
      case inr => exact absurd hc.ruleId hn
  revisions := by
    obtain ⟨m, hm, hr⟩ := h.revisions
    obtain rfl : m = n := by simpa [hc.before] using hm.symm
    have hrows := (Table.insert_eq_some.mp hc.version).right
    refine ⟨m + 1, hc.after, ?_⟩
    rw [hrows, List.map_append, hr, List.range'_concat, List.map_singleton, hc.stamped]
    simp [Nat.add_comm]
  flags := by
    intro r hr
    have hk : Keyed.key v = (row.ruleId, row.currentVersion) := Prod.ext hc.ruleId hc.current
    rw [Store.currentVersion, Table.get_insert hc.version, hk]
    obtain rfl | ⟨hr, hne⟩ := hc.rule.mem hr
    case inl => simp [hc.enabled]
    case inr =>
      rw [if_neg fun he => hne (Prod.mk.inj he).left.symm]
      exact h.flags r hr
  capped := hc.rule.liveRules_le h.capped

end History

section Run

variable [Codec]

-- Every stored selection can be read.
def Readable (s : Store) : Prop :=
  ∀ x ∈ s.selections, (Codec.decodeSelection x.selectionJson).isSome

-- What a transaction does, and what its action can read back after it.
inductive Effect (s s' : Store) (returned : Option String) : Prop
  | none : s' = s → (∀ id ∈ returned, ∃ r v, s.rules.get id = some r ∧ r.deleted = false ∧
      s.currentVersion r = some v) → Effect s s' returned
  | change {row : Rule} {v : Version} {n : Nat} : Change s s' row v n → Copies s s' →
    (∀ id ∈ returned, row.ruleId = id ∧ row.deleted = false) → Effect s s' returned

theorem statements_effect {a : Action} (h : a.statements.Returns s u s') :
    Effect s s' a.returned := by
  cases a
  case putAutomationRule r =>
    obtain ⟨row, v, n, hc, hid, hd, hx⟩ := put_returns h
    exact .change hc hx <| by simp [Action.returned, hid, hd]
  case setAutomationRuleEnabled id version enabled =>
    obtain ⟨b, h⟩ := returns_discard.mp h
    obtain ⟨rfl, r, v, hr, hd, hv⟩ | ⟨row, v, n, hc, hid, hd, hx⟩ := setEnabled_returns h
    case inl => exact .none rfl <| by simp [Action.returned, hr, hd, hv]
    case inr => exact .change hc hx <| by simp [Action.returned, hid, hd]
  case deleteAutomationRule id version =>
    obtain ⟨b, h⟩ := returns_discard.mp h
    obtain ⟨row, v, n, hc, hx⟩ := delete_returns h
    exact .change hc (copies_of_eq hx) <| by simp [Action.returned]

theorem snd_transact (s : Store) (a : Action) :
    (transact s a).snd = (a.statements.commit s).snd := by
  unfold transact
  split
  case h_1 h => rw [h]
  case h_2 h => split <;> rw [h]

-- Every transaction leaves the store as it is, or has one of the effects.
theorem transact_cases (s : Store) (a : Action) :
    (transact s a).snd = s ∨ Effect s (transact s a).snd a.returned := by
  rw [snd_transact]
  cases h : (a.statements.commit s).fst
  case error => exact .inl <| snd_commit_of_error h
  case ok    => exact .inr <| statements_effect <| commit_eq_ok.mp <| Prod.ext h rfl

theorem History.transact (h : History s) (a : Action) : History (transact s a).snd := by
  cases transact_cases s a
  case inl he => rwa [he]
  case inr he =>
    cases he
    case none he _     => rwa [he]
    case change hc _ _ => exact h.change hc

theorem Readable.copies (hd : ∀ c, (Codec.decodeSelection (Codec.encodeSelection c)).isSome)
    (h : Readable s) (hc : Copies s s') : Readable s' := by
  intro x hx
  obtain ⟨c, he⟩ | ⟨y, hy, he⟩ := hc x hx
  case inl => rw [he, hd]
  case inr => rw [← he, h y hy]

theorem Readable.transact (hd : ∀ c, (Codec.decodeSelection (Codec.encodeSelection c)).isSome)
    (h : Readable s) (a : Action) : Readable (transact s a).snd := by
  cases transact_cases s a
  case inl he => rwa [he]
  case inr he =>
    cases he
    case none he _     => rwa [he]
    case change _ hx _ => exact h.copies hd hx

-- A live rule whose current version is there can be read.
theorem automationRule_ok (h : Readable s) {id : String} {r : Rule} {v : Version}
    (hr : s.rules.get id = some r) (hl : r.deleted = false) (hv : s.currentVersion r = some v) :
    ∃ detail, s.automationRule id = .ok detail := by
  have hr' : (s.rules.get id).filter (! ·.deleted) = some r := by simp [hr, hl]
  have hx : ∃ c, readSelection (s.currentSelection r) = .ok c := by
    cases hx : s.currentSelection r
    case none => exact ⟨none, rfl⟩
    case some x =>
      obtain ⟨c, hc⟩ := Option.isSome_iff_exists.mp <| h x <| Table.mem_of_get hx
      exact ⟨some c, by simp [readSelection, hc]⟩
  obtain ⟨c, hc⟩ := hx
  simp only [Store.automationRule, hr', hv, automationRuleDetail, hc]
  exact ⟨_, rfl⟩

-- What an action reads back is there.
theorem Effect.readable {returned : Option String} (he : Effect s s' returned)
    (hs : Readable s') : ∀ id ∈ returned, ∃ detail, s'.automationRule id = .ok detail := by
  intro id hid
  cases he
  case none he h =>
    obtain ⟨r, v, hr, hl, hv⟩ := h id hid
    subst he
    exact automationRule_ok hs hr hl hv
  case change row v n hc _ h =>
    obtain ⟨rfl, hl⟩ := h id hid
    have hr : s'.rules.get row.ruleId = some row := by rw [hc.rule.get, if_pos rfl]
    have hk : Keyed.key v = (row.ruleId, row.currentVersion) := Prod.ext hc.ruleId hc.current
    have hv : s'.currentVersion row = some v := by
      rw [Store.currentVersion, Table.get_insert hc.version, if_pos hk]
    exact automationRule_ok hs hr hl hv

-- An action that raises has written nothing.
theorem transact_error (hd : ∀ c, (Codec.decodeSelection (Codec.encodeSelection c)).isSome)
    (h : Readable s) {a : Action} {e : RuleError} (he : (transact s a).fst = .error e) :
    (transact s a).snd = s := by
  cases hc : a.statements.commit s
  case mk x s' =>
    cases x
    case error =>
      rw [snd_transact]
      exact snd_commit_of_error (congrArg Prod.fst hc)
    case ok =>
      have hs' : Readable s' := by
        have := h.transact hd a
        rwa [snd_transact, hc] at this
      have hback := (statements_effect (commit_eq_ok.mp hc)).readable hs'
      simp only [transact, hc] at he
      split at he
      case h_1 => cases he
      case h_2 id hid =>
        obtain ⟨detail, hok⟩ := hback id hid
        rw [hok] at he
        cases he

-- Nothing is stored for a rule once it is deleted.
theorem transact_deleted {r : Rule} (hr : r ∈ s.rules) (hd : r.deleted) (a : Action) :
    r ∈ (transact s a).snd.rules ∧
    (transact s a).snd.versionsOf r.ruleId = s.versionsOf r.ruleId := by
  cases transact_cases s a
  case inl he => simp [he, hr]
  case inr he =>
    cases he
    case none he _ => simp [he, hr]
    case change row v n hc _ _ =>
      have hg := Table.get_of_mem hr
      have hne : row.ruleId ≠ r.ruleId := by
        intro hid
        cases hc.rule
        case created hi _ _ =>
          have hn : s.rules.get row.ruleId = none := (Table.insert_eq_some.mp hi).left
          rw [hid] at hn
          exact absurd (hg.symm.trans hn) (by simp)
        case advanced ho hl _ _ _ =>
          rw [hid] at ho
          cases hg.symm.trans ho
          simp [hl] at hd
      refine ⟨Table.mem_of_get (k := r.ruleId) ?_, ?_⟩
      · rw [hc.rule.get, if_neg (Ne.symm hne)]
        exact hg
      · rw [History.versionsOf_change hc, if_neg hne, List.append_nil]

theorem run_deleted {r : Rule} (hr : r ∈ s.rules) (hd : r.deleted) (as : List Action) :
    r ∈ (run s as).rules ∧ (run s as).versionsOf r.ruleId = s.versionsOf r.ruleId := by
  induction as generalizing s
  case nil => exact ⟨hr, rfl⟩
  case cons a as ih =>
    obtain ⟨hm, hv⟩ := transact_deleted hr hd a
    obtain ⟨hm', hv'⟩ := ih hm
    exact ⟨hm', hv'.trans hv⟩

theorem run_history (h : History s) (as : List Action) : History (run s as) := by
  induction as generalizing s
  case nil          => exact h
  case cons a as ih => exact ih (h.transact a)

theorem run_readable (hd : ∀ c, (Codec.decodeSelection (Codec.encodeSelection c)).isSome)
    (h : Readable s) (as : List Action) : Readable (run s as) := by
  induction as generalizing s
  case nil          => exact h
  case cons a as ih => exact ih (h.transact hd a)

-- What has become of the rules after some actions, whatever comes next.
structure CompleteHistory (as : List Action) : Prop where
  history : History (run ∅ as)
  failed  : ∀ a e, (transact (run ∅ as) a).fst = .error e →
    (transact (run ∅ as) a).snd = run ∅ as
  deleted : ∀ bs, ∀ r ∈ (run ∅ as).rules, r.deleted → r ∈ (run ∅ (as ++ bs)).rules ∧
    (run ∅ (as ++ bs)).versionsOf r.ruleId = (run ∅ as).versionsOf r.ruleId

-- The shared client reads back every capability that it encodes.
theorem complete_history (hd : ∀ c, (Codec.decodeSelection (Codec.encodeSelection c)).isSome)
    (as : List Action) : CompleteHistory as where
  history := run_history .empty as
  failed  := by
    intro a e
    refine transact_error hd (run_readable hd ?_ as)
    exact fun x hx => absurd hx (Table.not_mem_empty x)
  deleted := by
    intro bs r hr hd
    have hrun : run ∅ (as ++ bs) = run (run ∅ as) bs := List.foldl_append
    rw [hrun]
    exact run_deleted hr hd bs

end Run

section Sample

def invoices : RuleDefinition where
  name        := "Invoices"
  scope       := { provider := none, accountId := none }
  conditions  := [.mediaTypeEquals "application/pdf"]
  action      := {
    capability := { id := "certificate.extract", version := "1.0" }
    provider   := { appId := "reader", version := "1.0.0", instanceId := "" }
    parameters := []
  }
  confirmEach := false

-- A client that knows one definition and one capability.
@[reducible]
def invoicesOnly : Codec where
  sha256 _                      := String.ofList <| List.replicate 64 '0'
  parseRuleDefinition _         := .ok invoices
  encodeRuleDefinition _        := "{}"
  Capability                    := Unit
  encodeSelection _             := "{}"
  decodeSelection json          := if json = "{}" then some () else none
  validCapabilityParameters _ _ := true

def invoicesId : String :=
  "00000000-0000-4000-8000-000000000000"

def putInvoices : @Action invoicesOnly :=
  letI := invoicesOnly
  .putAutomationRule {
    definition              := "{}"
    ruleId                  := none
    expectedVersion         := none
    expectedAccountIdentity := none
    selection               := some ()
    uuid                    := invoicesId
    mailboxIdentity         := fun _ _ => none
    now                     := 0
  }

theorem complete_history_invoices :
    @CompleteHistory invoicesOnly [
      putInvoices,
      @Action.setAutomationRuleEnabled invoicesOnly invoicesId 1 false,
      @Action.deleteAutomationRule invoicesOnly invoicesId 2
    ] :=
  @complete_history invoicesOnly (fun _ => rfl) _

-- The three versions of the rule that these actions store.
example :
    (@run invoicesOnly ∅ [
      putInvoices,
      @Action.setAutomationRuleEnabled invoicesOnly invoicesId 1 false,
      @Action.deleteAutomationRule invoicesOnly invoicesId 2
    ]).versions.rows.map (fun v => (v.version, v.globalRevision, v.enabled)) =
    [(1, 1, true), (2, 2, false), (3, 3, false)] := by
  decide +kernel

end Sample

end Rules
