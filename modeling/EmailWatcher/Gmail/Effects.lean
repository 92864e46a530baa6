import EmailWatcher.Gmail.Recovery

namespace Gmail

open Session RecoveryError

variable [Codec] {s s' : Store} {r r' : Recovery} {accountId mailboxIdentityKey : String}

section Decoding

-- What `_gmail_recovery_state` asks of a row.
structure Recovery.Valid (r : Recovery) : Prop where
  page            : validPage r.currentPageIds
  unloaded        : r.pageLoaded = false → r.currentPageIds = [] ∧ r.nextIndex = 0
  index           : r.nextIndex ≤ r.currentPageIds.length
  token           : r.pageToken.all (·.utf8ByteSize ≤ maxGmailRecoveryPageTokenBytes)
  senderBytes     : senderSnapshotBytes r.senderSnapshot ≤ maxGmailRecoverySnapshotBytes
  senders         : r.senderSnapshot.all validSender ∧ (r.senderSnapshot.map Prod.fst).Nodup
  senderOrder     : r.senderSnapshot.Pairwise (senderOrder · ≤ senderOrder ·)
  selectorBytes   : selectorSnapshotBytes r.selectorSnapshot ≤ maxGmailRecoverySnapshotBytes ∧
    r.selectorSnapshot.length ≤ maxGmailLabelSelectors
  selectors       : r.selectorSnapshot.all validSelector ∧
    (r.selectorSnapshot.map (·.selectorId)).Nodup
  selectorOrder   : r.selectorSnapshot.Pairwise (·.selectorId ≤ ·.selectorId)

theorem gmailRecoveryState_eq_ok : gmailRecoveryState r = .ok r' ↔ r.Valid ∧ r = r' := by
  simp only [gmailRecoveryState, decodeGmailSenderSnapshot, decodeGmailSelectorSnapshot,
    Transaction.bind_eq_ok, Transaction.require_eq_ok, Transaction.pure_eq_ok, exists_const]
  constructor
  · rintro ⟨hp, ⟨hu, hi⟩, ht, _, ⟨hsb, hs, hso, rfl⟩, _, ⟨hlb, hl, hlo, rfl⟩, rfl⟩
    exact ⟨⟨hp, hu, hi, ht, hsb, hs, hso, hlb, hl, hlo⟩, rfl⟩
  · rintro ⟨h, rfl⟩
    exact ⟨h.page, ⟨h.unloaded, h.index⟩, h.token, _, ⟨h.senderBytes, h.senders, h.senderOrder, rfl⟩,
      _, ⟨h.selectorBytes, h.selectors, h.selectorOrder, rfl⟩, rfl⟩

omit [Codec] in
theorem validPage_nil : validPage [] := by
  decide

omit [Codec] in
theorem encodeGmailRecoveryPage_eq_ok {ids page : List String}
    (h : encodeGmailRecoveryPage ids = .ok page) : validPage ids ∧ ids = page := by
  unfold encodeGmailRecoveryPage at h
  split at h
  · exact ⟨‹_›, by simpa using h⟩
  · cases h

end Decoding

section Encoding

variable {senders items : List (String × Option String)} {selectors frozen : List SelectorSnapshot}
  {seen out : List String}

theorem addSender_eq_ok {x : String × Option String} (h : addSender seen x = .ok out) :
    validSender x ∧ x.fst ∉ seen ∧ out = seen ++ [x.fst] := by
  simp only [addSender, Transaction.bind_eq_ok, Transaction.require_eq_ok,
    Transaction.pure_eq_ok, exists_const] at h
  obtain ⟨email, he, ⟨rfl, hn⟩, hv, rfl⟩ := h
  refine ⟨?_, hn, rfl⟩
  cases ha : Codec.normalizeValidatedAddress x.fst <;> rw [ha] at he <;> cases he
  simp [validSender, ha, hv, Except.toOption]

omit [Codec] in
theorem addSelector_eq_ok {x : SelectorSnapshot} (h : addSelector seen x = .ok out) :
    validSelector x ∧ x.selectorId ∉ seen ∧ out = seen ++ [x.selectorId] := by
  simp only [addSelector, requireBoundedText, Transaction.bind_eq_ok, Transaction.require_eq_ok,
    Transaction.pure_eq_ok, exists_const] at h
  obtain ⟨⟨hu, hn⟩, hl, hd, rfl⟩ := h
  exact ⟨by simp [validSelector, hu, hl, hd], hn, rfl⟩

omit [Codec] in
-- A loop that collects the names of the items and refuses those it has met collects no name twice.
theorem collect_eq_ok {α : Type} {add : List String → α → Except RecoveryError (List String)}
    {valid : α → Bool} {name : α → String} {xs : List α}
    (ha : ∀ seen x out, add seen x = .ok out → valid x ∧ name x ∉ seen ∧ out = seen ++ [name x])
    (hs : seen.Nodup) (h : xs.foldlM add seen = .ok out) :
    xs.all valid ∧ (seen ++ xs.map name).Nodup := by
  induction xs generalizing seen
  case nil => simpa using hs
  case cons x xs ih =>
    simp only [List.foldlM_cons, Transaction.bind_eq_ok] at h
    obtain ⟨seen', hx, hxs⟩ := h
    obtain ⟨hv, hn, rfl⟩ := ha _ _ _ hx
    have hs' : (seen ++ [name x]).Nodup := by
      simpa [List.nodup_append] using ⟨hs, fun y hy he => hn (he ▸ hy)⟩
    obtain ⟨hall, hnodup⟩ := ih hs' hxs
    exact ⟨by simp [hv, hall], by simpa using hnodup⟩

theorem encodeGmailSenderSnapshot_eq_ok (h : encodeGmailSenderSnapshot senders = .ok items) :
    decodeGmailSenderSnapshot items = .ok items := by
  simp only [encodeGmailSenderSnapshot, Transaction.bind_eq_ok, Transaction.require_eq_ok,
    Transaction.pure_eq_ok, exists_const] at h
  obtain ⟨_, hloop, hb, rfl⟩ := h
  obtain ⟨hv, hn⟩ := collect_eq_ok (fun _ _ _ h => addSender_eq_ok h) List.nodup_nil hloop
  have hp : (Ranking.ordered senderOrder senders).Perm senders := Ranking.ordered_perm
  simp only [decodeGmailSenderSnapshot, Transaction.bind_eq_ok, Transaction.require_eq_ok,
    Transaction.pure_eq_ok, exists_const]
  refine ⟨hb, ⟨?_, ?_⟩, ?_, trivial⟩
  · simpa [hp.mem_iff] using hv
  · exact (hp.map Prod.fst).nodup_iff.mpr (by simpa using hn)
  · exact Ranking.ordered_pairwise

omit [Codec] in
theorem encodeGmailSelectorSnapshot_eq_ok (h : encodeGmailSelectorSnapshot selectors = .ok frozen) :
    decodeGmailSelectorSnapshot frozen = .ok frozen := by
  simp only [encodeGmailSelectorSnapshot, Transaction.bind_eq_ok, Transaction.require_eq_ok,
    Transaction.pure_eq_ok, exists_const] at h
  obtain ⟨hl, _, hloop, hb, rfl⟩ := h
  obtain ⟨hv, hn⟩ := collect_eq_ok (fun _ _ _ h => addSelector_eq_ok h) List.nodup_nil hloop
  have hp : (Ranking.ordered (·.selectorId) selectors).Perm selectors := Ranking.ordered_perm
  simp only [decodeGmailSelectorSnapshot, Transaction.bind_eq_ok, Transaction.require_eq_ok,
    Transaction.pure_eq_ok, exists_const]
  refine ⟨⟨hb, ?_⟩, ⟨?_, ?_⟩, ?_, trivial⟩
  · rwa [hp.length_eq]
  · simpa [hp.mem_iff] using hv
  · exact (hp.map (·.selectorId)).nodup_iff.mpr (by simpa using hn)
  · exact Ranking.ordered_pairwise

end Encoding

section Rows

namespace Recovery.Valid

theorem load {ids : List String} {token : Option String} (h : r.Valid) (hp : validPage ids)
    (ht : token.all (boundedText maxGmailRecoveryPageTokenBytes)) : (r.load ids token).Valid where
  page          := hp
  unloaded      := by simp [Recovery.load]
  index         := by simp [Recovery.load]
  token         := by
    cases token
    case none   => rfl
    case some t =>
      simp only [Option.all_some, boundedText, Bool.and_eq_true] at ht
      simpa [Recovery.load] using ht.left.right
  senderBytes   := h.senderBytes
  senders       := h.senders
  senderOrder   := h.senderOrder
  selectorBytes := h.selectorBytes
  selectors     := h.selectors
  selectorOrder := h.selectorOrder

-- A row with no page on it is read as long as its snapshots are.
theorem of_unloaded (hp : r.currentPageIds = []) (hn : r.nextIndex = 0) (ht : r.pageToken = none)
    (hs : decodeGmailSenderSnapshot r.senderSnapshot = .ok r.senderSnapshot)
    (hd : decodeGmailSelectorSnapshot r.selectorSnapshot = .ok r.selectorSnapshot) : r.Valid := by
  suffices h : gmailRecoveryState r = .ok r from (gmailRecoveryState_eq_ok.mp h).left
  simp only [gmailRecoveryState, Transaction.bind_eq_ok, Transaction.require_eq_ok,
    Transaction.pure_eq_ok, exists_const]
  refine ⟨hp ▸ validPage_nil, ⟨fun _ => ⟨hp, hn⟩, ?_⟩, ?_, _, hs, _, hd, trivial⟩
  · simp [hn]
  · simp [ht]

theorem restart (h : r.Valid) : r.restart.Valid where
  page          := validPage_nil
  unloaded      := fun _ => ⟨rfl, rfl⟩
  index         := Nat.zero_le _
  token         := rfl
  senderBytes   := h.senderBytes
  senders       := h.senders
  senderOrder   := h.senderOrder
  selectorBytes := h.selectorBytes
  selectors     := h.selectors
  selectorOrder := h.selectorOrder

-- The other columns are not looked at.
theorem congr (h : r.Valid) (hp : r'.currentPageIds = r.currentPageIds)
    (hl : r'.pageLoaded = r.pageLoaded) (hn : r'.nextIndex = r.nextIndex)
    (ht : r'.pageToken = r.pageToken) (hs : r'.senderSnapshot = r.senderSnapshot)
    (hd : r'.selectorSnapshot = r.selectorSnapshot) : r'.Valid := by
  obtain ⟨h₁, h₂, h₃, h₄, h₅, h₆, h₇, h₈, h₉, h₁₀⟩ := h
  rw [← hp] at h₁ h₂ h₃
  rw [← hl, ← hn] at h₂
  rw [← hn] at h₃
  rw [← ht] at h₄
  rw [← hs] at h₅ h₆ h₇
  rw [← hd] at h₈ h₉ h₁₀
  exact ⟨h₁, h₂, h₃, h₄, h₅, h₆, h₇, h₈, h₉, h₁₀⟩

end Recovery.Valid

end Rows

section Statements

omit [Codec] in
theorem requireCurrentGmailSelectorSet_returns {x : SelectorSet}
    (h : (requireCurrentGmailSelectorSet accountId mailboxIdentityKey).Returns s x s') : s = s' := by
  simp only [requireCurrentGmailSelectorSet, returns_query_bind, returns_find] at h
  exact h.right

omit [Codec] in
theorem requireActive_returns {u : Unit} (h : (requireActive accountId).Returns s u s') : s = s' := by
  simp only [requireActive, returns_query_bind, returns_require] at h
  exact h.right

theorem requireCurrentGmailRecovery_returns
    (h : (requireCurrentGmailRecovery accountId mailboxIdentityKey).Returns s r s') :
    s.recoveries.get accountId = some r ∧ r.Valid ∧ r.mailboxIdentityKey = mailboxIdentityKey ∧
    s = s' := by
  rw [requireCurrentGmailRecovery, returns_bind] at h
  simp only [returns_discard, returns_query_bind, returns_find_bind, returns_lift_bind,
    returns_require_bind, gmailRecoveryState_eq_ok, id_eq] at h
  obtain ⟨_, s₁, ⟨_, hset⟩, row, hget, _, ⟨hv, rfl⟩, hid, h⟩ := h
  simp only [returns_bind, returns_pure] at h
  obtain ⟨_, _, hactive, rfl, rfl⟩ := h
  obtain rfl := requireCurrentGmailSelectorSet_returns hset
  obtain rfl := requireActive_returns hactive
  exact ⟨hget, hv, hid, rfl⟩

-- The row of an account is rewritten, and no other row.
structure Rewrites (s s' : Store) (accountId : String) (r r' : Recovery) : Prop where
  found     : s.recoveries.get accountId = some r
  valid     : r.Valid
  written   : ∀ id, s'.recoveries.get id = if id = accountId then some r' else s.recoveries.get id
  mailboxes : s'.mailboxes = s.mailboxes

omit [Codec] in
theorem updateRecovery_returns {p : Recovery → Bool} {g : Recovery → Recovery} {hg} {n : Nat}
    (h : (updateRecovery p g hg).Returns s n s') :
    n = (s.recoveries.rows.filter p).length ∧
    s' = { s with recoveries := s.recoveries.update p g hg } := by
  simp only [updateRecovery, returns_bind, returns_query, returns_require, returns_write,
    returns_pure] at h
  grind

omit [Codec] in
theorem get_updated {p : Recovery → Bool} {g : Recovery → Recovery} (hg) {id : String}
    (hf : s.recoveries.get accountId = some r) (hp : ∀ x, p x → x.accountId = accountId)
    (hr : p r) :
    (s.recoveries.update p g hg).get id =
    if id = accountId then some (g r) else s.recoveries.get id := by
  rw [Table.get_update]
  split
  case isTrue he  => simp [he, hf, hr]
  case isFalse hn =>
    cases hx : s.recoveries.get id
    case none   => rfl
    case some x =>
      have hk : x.accountId = id := Table.key_of_get hx
      have : p x = false := by
        by_contra hc
        exact hn <| hk ▸ hp x (by simpa using hc)
      simp [this]

-- An `UPDATE` of the row of the account, read back in the same transaction.
theorem Rewrites.of_update {g : Recovery → Recovery} {hg} {n : Nat}
    (hf : s.recoveries.get accountId = some r) (hv : r.Valid)
    (h : (updateRecovery (·.accountId = accountId) g hg).Returns s n s') :
    Rewrites s s' accountId r (g r) := by
  obtain ⟨-, rfl⟩ := updateRecovery_returns h
  refine ⟨hf, hv, fun id => ?_, rfl⟩
  have hk : r.accountId = accountId := Table.key_of_get hf
  exact get_updated hg hf (by simp) (by simp [hk])

omit [Codec] in
theorem readRecovery_returns {row : Recovery} (h : (readRecovery accountId).Returns s row s') :
    s.recoveries.get accountId = some row ∧ s = s' := by
  simp only [readRecovery, returns_bind, returns_query, returns_find] at h
  grind

theorem Rewrites.read {row : Recovery} {s'' : Store} (h : Rewrites s s' accountId r r')
    (hr : (readRecovery accountId).Returns s' row s'') : Rewrites s s'' accountId r r' ∧ row = r' := by
  obtain ⟨hg, rfl⟩ := readRecovery_returns hr
  have := h.written accountId
  simp only [reduceIte, hg, Option.some.injEq] at this
  exact ⟨h, this⟩

end Statements

section Calls

theorem createGmailRecoveryState_returns {q : CreateRequest} {row : Recovery}
    (h : (createGmailRecoveryState q).Returns s row s') :
    (∃ cutoff senders selectors, row = q.row cutoff senders selectors) ∧ row.Valid ∧
    s.recoveries.get q.accountId = none ∧
    (∀ id, s'.recoveries.get id = if id = q.accountId then some row else s.recoveries.get id) ∧
    s'.mailboxes = s.mailboxes := by
  simp only [createGmailRecoveryState, returns_lift_bind, returns_require_bind] at h
  obtain ⟨_, -, _, -, -, _, -, cutoff, -, senders, hsend, selectors, hsel, h⟩ := h
  obtain ⟨_, s₁, hset, h⟩ := returns_bind.mp h
  obtain ⟨_, s₂, hactive, h⟩ := returns_bind.mp h
  obtain rfl := requireCurrentGmailSelectorSet_returns hset
  obtain rfl := requireActive_returns hactive
  simp only [returns_require_bind, returns_lift_bind, returns_query_bind, returns_find_bind,
    returns_write_bind, id_eq] at h
  obtain ⟨-, _, -, -, -, recoveries, hins, hread⟩ := h
  obtain ⟨hget, rfl⟩ := readRecovery_returns hread
  have hnew : s.recoveries.get q.accountId = none := (Table.insert_eq_some.mp hins).left
  have hall := fun id => Table.get_insert hins id
  have hrow : row = q.row cutoff senders selectors := by
    have := (hall q.accountId).symm.trans hget
    simpa [Keyed.key, CreateRequest.row, eq_comm] using this
  subst hrow
  refine ⟨⟨_, _, _, rfl⟩, ?_, hnew, fun id => ?_, rfl⟩
  · exact Recovery.Valid.of_unloaded rfl rfl rfl (encodeGmailSenderSnapshot_eq_ok hsend)
      (encodeGmailSelectorSnapshot_eq_ok hsel)
  · rw [hall id]
    simp only [Keyed.key, CreateRequest.row, eq_comm]

theorem storeGmailRecoveryPage_returns {ids : List String} {token : Option String} {row : Recovery}
    (h : (storeGmailRecoveryPage accountId mailboxIdentityKey ids token).Returns s row s') :
    ∃ r, Rewrites s s' accountId r (r.load ids token) ∧ r.pageLoaded = false ∧ validPage ids ∧
    row = r.load ids token ∧ row.Valid := by
  simp only [storeGmailRecoveryPage, returns_bind, returns_discard, returns_lift, returns_require] at h
  obtain ⟨_, _, ⟨-, rfl⟩, page, _, ⟨hpage, rfl⟩, _, _, ⟨htoken, rfl⟩, r, _, hcur, _, _, ⟨hload, rfl⟩,
    _, _, ⟨-, rfl⟩, _, _, ⟨_, hupd⟩, hread⟩ := h
  obtain ⟨hget, hv, -, rfl⟩ := requireCurrentGmailRecovery_returns hcur
  obtain ⟨hvalid, rfl⟩ := encodeGmailRecoveryPage_eq_ok hpage
  obtain ⟨hrw, rfl⟩ := (Rewrites.of_update hget hv hupd).read hread
  exact ⟨r, hrw, hload, hvalid, rfl, hv.load hvalid htoken⟩

-- A page that is ready stays as it is; any other drained page is put away.
theorem finishGmailRecoveryPage_returns {ready : Bool}
    (h : (finishGmailRecoveryPage accountId mailboxIdentityKey).Returns s ready s') :
    s' = s ∨ ∃ r, Rewrites s s' accountId r r.unload ∧ r.pageLoaded ∧
      r.nextIndex = r.currentPageIds.length ∧ r.pageToken.isSome := by
  simp only [finishGmailRecoveryPage, returns_bind, returns_lift, returns_require] at h
  obtain ⟨_, _, ⟨-, rfl⟩, r, _, hcur, _, _, ⟨⟨hload, hdrained⟩, rfl⟩, h⟩ := h
  obtain ⟨hget, hv, -, rfl⟩ := requireCurrentGmailRecovery_returns hcur
  split at h
  case isTrue =>
    rw [returns_pure] at h
    exact .inl h.right.symm
  case isFalse ht =>
    simp only [returns_bind, returns_discard, returns_pure] at h
    obtain ⟨_, _, ⟨_, hupd⟩, -, rfl⟩ := h
    exact .inr ⟨r, .of_update hget hv hupd, hload, hdrained, Option.isSome_iff_ne_none.mpr ht⟩

theorem recordGmailRecoveryBackoff_returns {code retryAt : String} {degraded : Bool} {row : Recovery}
    (h : (recordGmailRecoveryBackoff accountId mailboxIdentityKey code retryAt degraded).Returns
      s row s') :
    ∃ r phase, Rewrites s s' accountId r row ∧ row.Valid ∧
    row = r.backOff (min 31 (r.consecutiveRetryCount + 1)) phase code retryAt := by
  simp only [recordGmailRecoveryBackoff, returns_bind, returns_discard, returns_lift,
    returns_require] at h
  obtain ⟨_, _, ⟨-, rfl⟩, _, _, ⟨-, rfl⟩, _, _, ⟨-, rfl⟩, r, _, hcur, _, _, ⟨_, hupd⟩, hread⟩ := h
  obtain ⟨hget, hv, -, rfl⟩ := requireCurrentGmailRecovery_returns hcur
  obtain ⟨hrw, rfl⟩ := (Rewrites.of_update hget hv hupd).read hread
  exact ⟨r, _, hrw, hv.congr rfl rfl rfl rfl rfl rfl, rfl⟩

theorem recordGmailRecoveryInvalidPageToken_returns {retryAt : String} {row : Recovery}
    (h : (recordGmailRecoveryInvalidPageToken accountId mailboxIdentityKey retryAt).Returns s row s') :
    ∃ r phase, Rewrites s s' accountId r row ∧ row.Valid ∧
    row = { r.restart.backOff (min 31 (r.consecutiveRetryCount + 1)) phase
      "gmail_recovery_page_token_invalid" retryAt with
      invalidPageTokenCount := r.invalidPageTokenCount + 1 } := by
  simp only [recordGmailRecoveryInvalidPageToken, returns_bind, returns_discard, returns_lift,
    returns_require] at h
  obtain ⟨_, _, ⟨-, rfl⟩, _, _, ⟨-, rfl⟩, r, _, hcur, _, _, ⟨-, rfl⟩, _, _, ⟨_, hupd⟩, hread⟩ := h
  obtain ⟨hget, hv, -, rfl⟩ := requireCurrentGmailRecovery_returns hcur
  obtain ⟨hrw, rfl⟩ := (Rewrites.of_update hget hv hupd).read hread
  exact ⟨r, _, hrw, hv.restart.congr rfl rfl rfl rfl rfl rfl, rfl⟩

theorem clearGmailRecoveryBackoff_returns {row : Recovery}
    (h : (clearGmailRecoveryBackoff accountId mailboxIdentityKey).Returns s row s') :
    ∃ r, Rewrites s s' accountId r row ∧ row.Valid ∧ row = r.clear := by
  simp only [clearGmailRecoveryBackoff, returns_bind, returns_discard, returns_lift] at h
  obtain ⟨_, _, ⟨-, rfl⟩, _, _, ⟨r, hcur⟩, _, _, ⟨_, hupd⟩, hread⟩ := h
  obtain ⟨hget, hv, -, rfl⟩ := requireCurrentGmailRecovery_returns hcur
  obtain ⟨hrw, rfl⟩ := (Rewrites.of_update hget hv hupd).read hread
  exact ⟨r, hrw, hv.congr rfl rfl rfl rfl rfl rfl, rfl⟩

theorem restartGmailRecoveryPage_returns {scope : String} {row : Recovery}
    (h : (restartGmailRecoveryPage accountId mailboxIdentityKey scope).Returns s row s') :
    ∃ r, Rewrites s s' accountId r row ∧ row.Valid ∧ row = { r.restart with queryScope := scope } := by
  simp only [restartGmailRecoveryPage, returns_bind, returns_discard, returns_lift] at h
  obtain ⟨_, _, ⟨-, rfl⟩, _, _, ⟨r, hcur⟩, _, _, ⟨_, hupd⟩, hread⟩ := h
  obtain ⟨hget, hv, -, rfl⟩ := requireCurrentGmailRecovery_returns hcur
  obtain ⟨hrw, rfl⟩ := (Rewrites.of_update hget hv hupd).read hread
  exact ⟨r, hrw, hv.restart.congr rfl rfl rfl rfl rfl rfl, rfl⟩

theorem admitCandidate_returns {c : Candidate} {inserted : Bool}
    (h : (admitCandidate c r).Returns s inserted s') : ∃ mail, s' = { s with mail := mail } := by
  unfold admitCandidate at h
  split at h
  · simp only [returns_bind, returns_query, returns_lift, returns_require, returns_write,
      returns_pure] at h
    grind
  · exact ⟨s.mail, (returns_pure.mp h).right.symm⟩

omit [Codec] in
theorem recomputeDerived_returns {recompute : Mail.Store → Except StoreError Mail.Store} {u : Unit}
    (h : (recomputeDerived recompute).Returns s u s') : ∃ mail, s' = { s with mail := mail } := by
  simp only [recomputeDerived, returns_bind, returns_query, returns_lift, returns_write] at h
  grind

theorem finishGmailRecoveryCandidate_returns {c : Candidate}
    {recompute : Mail.Store → Except StoreError Mail.Store} {inserted : Bool}
    (h : (finishGmailRecoveryCandidate c recompute).Returns s inserted s') :
    ∃ r, Rewrites s s' c.accountId r r.advance ∧ r.pageLoaded ∧
    r.currentPageIds[r.nextIndex]? = some c.providerMessageId := by
  simp only [finishGmailRecoveryCandidate, returns_lift_bind, returns_require_bind] at h
  obtain ⟨_, -, _, -, -, -, h⟩ := h
  obtain ⟨r, _, hcur, h⟩ := returns_bind.mp h
  obtain ⟨hget, hv, hid, rfl⟩ := requireCurrentGmailRecovery_returns hcur
  simp only [returns_require_bind] at h
  obtain ⟨⟨hload, hnext⟩, -, h⟩ := h
  obtain ⟨_, _, hadmit, h⟩ := returns_bind.mp h
  obtain ⟨n, _, hupd, h⟩ := returns_bind.mp h
  obtain ⟨-, h⟩ := returns_require_bind.mp h
  obtain ⟨_, _, hrec, h⟩ := returns_bind.mp h
  obtain ⟨-, rfl⟩ := returns_pure.mp h
  obtain ⟨mail, rfl⟩ := admitCandidate_returns hadmit
  obtain ⟨-, rfl⟩ := updateRecovery_returns hupd
  obtain ⟨_, rfl⟩ := recomputeDerived_returns hrec
  have hk : r.accountId = c.accountId := Table.key_of_get hget
  refine ⟨r, ⟨hget, hv, fun id => ?_, rfl⟩, hload, hnext⟩
  refine get_updated (s := s) (g := Recovery.advance) (fun _ => rfl) hget ?_ ?_
  · simp +contextual
  · simp [hk, hid]

theorem completeGmailRecovery_returns {recompute : Mail.Store → Except StoreError Mail.Store}
    {cursor : String}
    (h : (completeGmailRecovery accountId mailboxIdentityKey recompute).Returns s cursor s') :
    ∃ r, s.recoveries.get accountId = some r ∧ r.Valid ∧ r.pageLoaded ∧ r.pageToken = none ∧
    r.nextIndex = r.currentPageIds.length ∧ cursor = r.replacementHistoryCursor ∧
    (∀ id, s'.recoveries.get id = if id = accountId then none else s.recoveries.get id) ∧
    s'.mailboxes = s.mailboxes.put ⟨accountId, cursor, r.createdAt⟩ := by
  obtain ⟨_, -, h⟩ := returns_lift_bind.mp h
  obtain ⟨r, _, hcur, h⟩ := returns_bind.mp h
  obtain ⟨hget, hv, hid, rfl⟩ := requireCurrentGmailRecovery_returns hcur
  simp only [returns_require_bind, returns_write_bind, returns_query_bind] at h
  obtain ⟨⟨hload, htoken, hdrained⟩, -, h⟩ := h
  obtain ⟨_, _, hrec, h⟩ := returns_bind.mp h
  obtain ⟨rfl, rfl⟩ := returns_pure.mp h
  obtain ⟨_, rfl⟩ := recomputeDerived_returns hrec
  refine ⟨r, hget, hv, hload, htoken, hdrained, rfl, fun id => ?_, rfl⟩
  have hk : r.accountId = accountId := Table.key_of_get hget
  simp only [Table.get_delete]
  split
  case isTrue he  => simp [he, hget, hk, hid]
  case isFalse hn =>
    cases hx : s.recoveries.get id
    case none   => rfl
    case some x =>
      have hkx : x.accountId = id := Table.key_of_get hx
      simp [hkx, hn]

-- What a call does to the recoveries and to the cursors, if it succeeds.
inductive Effect (s : Store) : Call → Store → Prop
  | create {q : CreateRequest} {row : Recovery} {cutoff : Instant}
      {senders : List (String × Option String)} {selectors : List SelectorSnapshot} {s' : Store}
      (row_eq : row = q.row cutoff senders selectors) (new : s.recoveries.get q.accountId = none)
      (written : ∀ id,
        s'.recoveries.get id = if id = q.accountId then some row else s.recoveries.get id)
      (mailboxes : s'.mailboxes = s.mailboxes) : Effect s (.create q) s'
  | storePage {accountId key : String} {ids : List String} {token : Option String} {r : Recovery}
      {s' : Store} (rewrites : Rewrites s s' accountId r (r.load ids token))
      (unloaded : r.pageLoaded = false) (page : validPage ids) :
      Effect s (.storePage accountId key ids token) s'
  | ready {accountId key : String} : Effect s (.finishPage accountId key) s
  | finishPage {accountId key : String} {r : Recovery} {s' : Store}
      (rewrites : Rewrites s s' accountId r r.unload) (loaded : r.pageLoaded)
      (drained : r.nextIndex = r.currentPageIds.length) (token : r.pageToken.isSome) :
      Effect s (.finishPage accountId key) s'
  | backoff {accountId key code retryAt : String} {degraded : Bool} {r : Recovery} {phase : Phase}
      {s' : Store} (rewrites : Rewrites s s' accountId r <|
        r.backOff (min 31 (r.consecutiveRetryCount + 1)) phase code retryAt) :
      Effect s (.backoff accountId key code retryAt degraded) s'
  | invalidPageToken {accountId key retryAt : String} {r : Recovery} {phase : Phase} {s' : Store}
      (rewrites : Rewrites s s' accountId r { r.restart.backOff
        (min 31 (r.consecutiveRetryCount + 1)) phase "gmail_recovery_page_token_invalid" retryAt with
        invalidPageTokenCount := r.invalidPageTokenCount + 1 }) :
      Effect s (.invalidPageToken accountId key retryAt) s'
  | clearBackoff {accountId key : String} {r : Recovery} {s' : Store}
      (rewrites : Rewrites s s' accountId r r.clear) : Effect s (.clearBackoff accountId key) s'
  | restartPage {accountId key scope : String} {r : Recovery} {s' : Store}
      (rewrites : Rewrites s s' accountId r { r.restart with queryScope := scope }) :
      Effect s (.restartPage accountId key scope) s'
  | finishCandidate {c : Candidate} {recompute : Mail.Store → Except StoreError Mail.Store}
      {r : Recovery} {s' : Store} (rewrites : Rewrites s s' c.accountId r r.advance)
      (loaded : r.pageLoaded) (next : r.currentPageIds[r.nextIndex]? = some c.providerMessageId) :
      Effect s (.finishCandidate c recompute) s'
  | complete {accountId key : String} {recompute : Mail.Store → Except StoreError Mail.Store}
      {r : Recovery} {s' : Store} (found : s.recoveries.get accountId = some r) (valid : r.Valid)
      (loaded : r.pageLoaded) (token : r.pageToken = none)
      (drained : r.nextIndex = r.currentPageIds.length)
      (written : ∀ id, s'.recoveries.get id = if id = accountId then none else s.recoveries.get id)
      (mailboxes : s'.mailboxes =
        s.mailboxes.put ⟨accountId, r.replacementHistoryCursor, r.createdAt⟩) :
      Effect s (.complete accountId key recompute) s'

theorem readBack_eq_ok {x : Statement Recovery} (h : readBack x s = (.ok r, s')) :
    x.Returns s r s' := by
  unfold readBack at h
  split at h
  case h_1 row s₁ hc =>
    obtain ⟨hd, rfl⟩ := Prod.mk.inj h
    obtain ⟨-, rfl⟩ := gmailRecoveryState_eq_ok.mp hd
    exact commit_eq_ok.mp hc
  case h_2 => cases h

-- Reading the row back after the commit never is what makes a call fail.
theorem readBack_error {x : Statement Recovery} {e : RecoveryError}
    (hx : ∀ row s', x.Returns s row s' → row.Valid) (h : (readBack x s).fst = .error e) :
    (readBack x s).snd = s := by
  unfold readBack at h ⊢
  split at h
  case h_1 row s₁ hc =>
    have hv := hx _ _ (commit_eq_ok.mp hc)
    rw [gmailRecoveryState_eq_ok.mpr ⟨hv, rfl⟩] at h
    cases h
  case h_2 e' s₁ hc =>
    have := snd_commit_of_error (x := x) (s := s) (e := e') (by rw [hc])
    rwa [hc] at this

omit [Codec] in
theorem answer_eq_ok {α : Type} {x : Except RecoveryError α × Store}
    (h : Call.perform.answer x = (.ok (), s')) : ∃ a, x = (.ok a, s') := by
  obtain ⟨y, s₁⟩ := x
  obtain ⟨hy, rfl⟩ := Prod.mk.inj h
  cases y
  case ok a    => exact ⟨a, rfl⟩
  case error e => cases hy

omit [Codec] in
theorem answer_error {α : Type} {x : Except RecoveryError α × Store} {e : RecoveryError}
    (h : (Call.perform.answer x).fst = .error e) : x.fst = .error e := by
  obtain ⟨y, s₁⟩ := x
  cases y
  case ok a     => cases h
  case error e' =>
    cases h
    rfl

theorem perform_eq_ok {c : Call} (h : c.perform s = (.ok (), s')) : Effect s c s' := by
  cases c <;> simp only [Call.perform] at h <;> obtain ⟨a, h⟩ := answer_eq_ok h
  case create =>
    obtain ⟨⟨_, _, _, hrow⟩, -, hnew, hall, hm⟩ := createGmailRecoveryState_returns (readBack_eq_ok h)
    exact .create hrow hnew hall hm
  case storePage =>
    obtain ⟨_, hrw, hu, hp, -, -⟩ := storeGmailRecoveryPage_returns (readBack_eq_ok h)
    exact .storePage hrw hu hp
  case finishPage =>
    obtain rfl | ⟨_, hrw, hl, hd, ht⟩ := finishGmailRecoveryPage_returns (commit_eq_ok.mp h)
    · exact .ready
    · exact .finishPage hrw hl hd ht
  case backoff =>
    obtain ⟨_, _, hrw, -, rfl⟩ := recordGmailRecoveryBackoff_returns (readBack_eq_ok h)
    exact .backoff hrw
  case invalidPageToken =>
    obtain ⟨_, _, hrw, -, rfl⟩ := recordGmailRecoveryInvalidPageToken_returns (readBack_eq_ok h)
    exact .invalidPageToken hrw
  case clearBackoff =>
    obtain ⟨_, hrw, -, rfl⟩ := clearGmailRecoveryBackoff_returns (readBack_eq_ok h)
    exact .clearBackoff hrw
  case restartPage =>
    obtain ⟨_, hrw, -, rfl⟩ := restartGmailRecoveryPage_returns (readBack_eq_ok h)
    exact .restartPage hrw
  case finishCandidate =>
    obtain ⟨_, hrw, hl, hn⟩ := finishGmailRecoveryCandidate_returns (commit_eq_ok.mp h)
    exact .finishCandidate hrw hl hn
  case complete =>
    obtain ⟨_, hg, hv, hl, ht, hd, rfl, hall, hm⟩ := completeGmailRecovery_returns (commit_eq_ok.mp h)
    exact .complete hg hv hl ht hd hall hm

theorem perform_error {c : Call} {e : RecoveryError} (h : (c.perform s).fst = .error e) :
    (c.perform s).snd = s := by
  cases c <;> simp only [Call.perform] at h ⊢ <;> replace h := answer_error h
  case finishPage       => exact snd_commit_of_error h
  case finishCandidate  => exact snd_commit_of_error h
  case complete         => exact snd_commit_of_error h
  case create           =>
    refine readBack_error (fun _ _ hr => ?_) h
    exact (createGmailRecoveryState_returns hr).right.left
  case storePage        =>
    refine readBack_error (fun _ _ hr => ?_) h
    obtain ⟨_, -, -, -, -, hv⟩ := storeGmailRecoveryPage_returns hr
    exact hv
  case backoff          =>
    refine readBack_error (fun _ _ hr => ?_) h
    obtain ⟨_, _, -, hv, -⟩ := recordGmailRecoveryBackoff_returns hr
    exact hv
  case invalidPageToken =>
    refine readBack_error (fun _ _ hr => ?_) h
    obtain ⟨_, _, -, hv, -⟩ := recordGmailRecoveryInvalidPageToken_returns hr
    exact hv
  case clearBackoff     =>
    refine readBack_error (fun _ _ hr => ?_) h
    obtain ⟨_, -, hv, -⟩ := clearGmailRecoveryBackoff_returns hr
    exact hv
  case restartPage      =>
    refine readBack_error (fun _ _ hr => ?_) h
    obtain ⟨_, -, hv, -⟩ := restartGmailRecoveryPage_returns hr
    exact hv

end Calls

end Gmail
