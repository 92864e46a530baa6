import EmailWatcher.Mail.Components
import EmailWatcher.Mail.Receipts

-- What the operations of the store do to the threads of IMAP messages.
namespace Mail

open Transaction Store

section Quiet

variable {s s' s₁ s₂ : Store} {scope : Scope} {messageId : String} {drawn : List String} {c : Components Node}

theorem Still.of_tables (hm : s'.messages = s.messages) (ht : s'.threadIds = s.threadIds) (ha : s'.aliases = s.aliases)
    (hl : s'.locations = s.locations) : Still s s' where
  seat      := by unfold Store.seat; rw [hm]
  threadIds := ht
  aliases   := ha
  locations := hl

theorem Still.update {p : Message → Bool} {f : Message → Message} (hf) (h : ∀ m, (f m).seat = m.seat) (s : Store) :
    Still s { s with messages := s.messages.update p f hf } where
  seat      := by
    funext id
    simp only [Store.seat, Table.get_update, Option.map_map]
    congr 1
    funext m
    simp only [Function.comp_apply]
    split
    · exact h m
    · rfl
  threadIds := rfl
  aliases   := rfl
  locations := rfl

theorem still_requeue (s : Store) (messageId : String) : Still s (s.requeue messageId) := by
  refine .update ?_ ?_ s
  all_goals exact fun _ => rfl

theorem still_process (s : Store) (messageId : String) (status : Status) (notified : Bool) :
    Still s (s.process messageId status notified) := by
  refine .update ?_ ?_ s
  all_goals exact fun _ => rfl

theorem still_recordBody (s : Store) (messageId : String) (body : (String × Nat) ⊕ UnavailableReason)
    (fetchedAt : Instant) : Still s (s.recordBody messageId body fetchedAt) := by
  unfold Store.recordBody
  split
  case isTrue  =>
    split
    case h_1 => exact .of_tables rfl rfl rfl rfl
    case h_2 => exact .of_tables rfl rfl rfl rfl
  case isFalse => exact .refl s

theorem Threaded.still (h : Threaded drawn c s) (hs : Still s s') : Threaded drawn c s' :=
  h.quiet hs.toQuiet (hs.locations ▸ h.located)

-- There are no legacy rows to bind.
theorem bindPendingLegacyIdentity_eq {provider : Provider} {accountId : String} {id : Option String}
    (hc : ∀ messageId x, s.seat messageId = some x → x.mailboxIdentityKey.isSome)
    (h : s.bindPendingLegacyIdentity provider accountId id = .ok s') : s' = s := by
  have hnil : s.bindable provider accountId id = [] := by
    refine List.filter_eq_nil_iff.mpr fun m hm => ?_
    have hsome : m.mailboxIdentityKey.isSome := hc _ _ (seat_of_mem hm)
    have hne : m.mailboxIdentityKey ≠ none := Option.isSome_iff_ne_none.mp hsome
    simp [hne]
  unfold Store.bindPendingLegacyIdentity at h
  split at h
  case h_1 => exact (pure_eq_ok.mp h).symm
  case h_2 =>
    rw [hnil] at h
    exact (pure_eq_ok.mp h).symm

theorem Threaded.still_requeueIfSkipped (h : Threaded drawn c s) (hr : s.requeueIfSkipped messageId = .ok s') :
    Still s s' := by
  unfold Store.requeueIfSkipped at hr
  split at hr
  case h_1 =>
    cases pure_eq_ok.mp hr
    exact .refl s
  case h_2 =>
    split at hr
    case isTrue  =>
      have hquiet := still_requeue s messageId
      rw [bindPendingLegacyIdentity_eq (fun _ _ hx => ((h.still hquiet).captured _ _ hx).right) hr]
      exact hquiet
    case isFalse =>
      cases pure_eq_ok.mp hr
      exact .refl s

theorem Threaded.still_reconcileMailboxIdentity {provider : Provider} {accountId key : String}
    {legacyStatus : Option LegacyStatus} (h : Threaded drawn c s)
    (hr : s.reconcileMailboxIdentity provider accountId key legacyStatus = .ok s') : Still s s' := by
  simp only [Store.reconcileMailboxIdentity, bind_eq_ok, require_eq_ok, find_eq_ok] at hr
  obtain ⟨_, _, a, _, hr⟩ := hr
  split at hr
  case isTrue  =>
    refine bindPendingLegacyIdentity_eq ?_ hr ▸ .of_tables rfl rfl rfl rfl
    exact fun _ _ hx => (h.captured _ _ hx).right
  case isFalse =>
    cases pure_eq_ok.mp hr
    exact .of_tables rfl rfl rfl rfl

theorem still_freeze {key : Key} {kind : Kind} {ids : List String} {acceptedAt : Instant} {uuid : Nat → String}
    (h : s.freeze key kind ids acceptedAt uuid = .ok s') : Still s s' := by
  refine foldlM_relation .refl (fun _ _ _ => .trans) ?_ h
  intro s g _ s' hg
  obtain ⟨_, _, _, rfl, _⟩ := freezeGroup_ok hg
  exact .of_tables rfl rfl rfl rfl

theorem still_acceptInTransaction [Codec] {key : Key} {kind : Kind} {parameters : Parameters}
    {ids : Option (List String)} {uuid : Nat → String} {o : Option Outcome} {b : Bool}
    (h : s.acceptInTransaction key kind parameters ids uuid = .ok (s', o, b)) : Still s s' := by
  simp only [Store.acceptInTransaction, bind_eq_ok] at h
  obtain ⟨previous, -, h⟩ := h
  split at h
  case h_1 =>
    cases pure_eq_ok.mp h
    exact .refl s
  case h_2 =>
    simp only [bind_eq_ok, pure_eq_ok, Prod.mk.injEq] at h
    obtain ⟨_, _, _, _, requests, _, s₁, hf, _, _, rfl, -⟩ := h
    have haccept : Still s { s with requests := requests } := .of_tables rfl rfl rfl rfl
    exact haccept.trans (still_freeze hf)

theorem still_acceptUnfollowUnits [Codec] {candidates : List String} {authority : Bool} {nonce : String}
    {uuid : Nat → String} {key : Option Key}
    (h : s.acceptUnfollowUnits candidates authority nonce uuid = .ok (s', key)) : Still s s' := by
  simp only [Store.acceptUnfollowUnits] at h
  split at h
  case isTrue  =>
    cases pure_eq_ok.mp h
    exact .refl s
  case isFalse =>
    simp only [bind_eq_ok, pure_eq_ok, Prod.mk.injEq] at h
    obtain ⟨_, _, _, _, _, ha, rfl, -⟩ := h
    exact still_acceptInTransaction ha

theorem still_retire [Codec] {retentionDays : Int} (h : s.retire retentionDays = .ok s') : Still s s' := by
  refine foldlM_relation .refl (fun _ _ _ => .trans) ?_ h
  intro s r _ s' hr
  obtain heq | ⟨heq, -⟩ := retireRequest_ok hr
  · exact heq ▸ .refl s
  · exact heq ▸ .of_tables rfl rfl rfl rfl

-- Places are recorded of one message.
structure Locates (messageId : String) (scope : Scope) (s s' : Store) : Prop extends Quiet s s' where
  locations : ∀ l ∈ s'.locations,
    l.messageId = messageId ∧ l.provider = scope.provider ∧ l.accountId = scope.accountId ∨
    ∃ l₀ ∈ s.locations, l₀.messageId = l.messageId ∧ l₀.provider = l.provider ∧ l₀.accountId = l.accountId

theorem locates_recordLocations {source : String} {ls : List Folder} {b : Bool} {receivedAt : Option String}
    (h : s.recordLocations messageId scope source ls b receivedAt = .ok s') : Locates messageId scope s s' := by
  simp only [Store.recordLocations, bind_eq_ok, pure_eq_ok] at h
  obtain ⟨_, _, rfl⟩ := h
  refine ⟨⟨rfl, rfl, rfl⟩, fun l hl => ?_⟩
  obtain ⟨l₀, hl₀, hl⟩ := List.mem_map.mp (Table.mem_rows.mpr hl)
  have hsame : l₀.messageId = l.messageId ∧ l₀.provider = l.provider ∧ l₀.accountId = l.accountId := by
    rw [← hl]
    split <;> exact ⟨rfl, rfl, rfl⟩
  have hfold : ∀ (ls : List Folder) (t : Table Location), l₀ ∈ ls.foldl (fun t location => t.insertOrIgnore {
      messageId          := messageId
      provider           := scope.provider
      accountId          := scope.accountId
      mailboxIdentityKey := scope.mailboxIdentityKey
      providerMessageId  := source
      location           := location
      receivedAt         := receivedAt }) t →
      (l₀.messageId = messageId ∧ l₀.provider = scope.provider ∧ l₀.accountId = scope.accountId) ∨ l₀ ∈ t := by
    intro ls
    induction ls
    case nil            => exact fun t ht => .inr ht
    case cons f fs ih =>
      intro t ht
      obtain hnew | ht := ih _ ht
      · exact .inl hnew
      · have hget := Table.get_of_mem ht
        rw [Table.get_insertOrIgnore, Option.or_eq_some_iff] at hget
        obtain hget | ⟨-, hget⟩ := hget
        · exact .inr (Table.mem_of_get hget)
        · rw [Option.ite_none_right_eq_some] at hget
          obtain rfl := Option.some.inj hget.right
          exact .inl ⟨rfl, rfl, rfl⟩
  obtain ⟨hm, hp, ha⟩ | ht := hfold ls _ hl₀
  · exact .inl ⟨hsame.left ▸ hm, hsame.right.left ▸ hp, hsame.right.right ▸ ha⟩
  · exact .inr ⟨l₀, ht, hsame⟩

theorem Threaded.locates (h : Threaded drawn c s) (hl : Locates messageId scope s s')
    (hx : ∃ x, s.seat messageId = some x ∧ x.provider = scope.provider ∧ x.accountId = scope.accountId) :
    Threaded drawn c s' := by
  refine h.quiet hl.toQuiet fun l hmem => ?_
  obtain ⟨rfl, hp, ha⟩ | ⟨l₀, hl₀, hm, hp, ha⟩ := hl.locations l hmem
  · obtain ⟨x, hx, hxp, hxa⟩ := hx
    exact ⟨x, hx, hxp.trans hp.symm, hxa.trans ha.symm⟩
  · obtain ⟨x, hx, hxp, hxa⟩ := h.located l₀ hl₀
    exact ⟨x, hm ▸ hx, hxp.trans hp, hxa.trans ha⟩

-- The message that a source is known by.
theorem Threaded.seat_of_membership {source : String} (h : Threaded drawn c s)
    (hm : (s.storedSourceMembership scope source).head? = some messageId) :
    ∃ x, s.seat messageId = some x ∧ x.provider = scope.provider ∧ x.accountId = scope.accountId := by
  have hmem := List.mem_of_mem_head? hm
  simp only [Store.storedSourceMembership, List.mem_append, List.mem_map] at hmem
  obtain ⟨m, hrow | hrow, rfl⟩ | ⟨l, hl, rfl⟩ := hmem
  · obtain ⟨hmem, hp⟩ := List.mem_filter.mp hrow
    simp only [Bool.and_eq_true, decide_eq_true_eq] at hp
    have hlogical : m.logicalOf = none := (h.captured _ _ (seat_of_mem hmem)).left
    refine ⟨m.seat, ?_, hp.right.left.left.left, hp.right.left.left.right⟩
    rw [Message.canonical, hlogical]
    exact seat_of_mem hmem
  · obtain ⟨hmem, hp⟩ := List.mem_filter.mp hrow
    simp only [Bool.and_eq_true, decide_eq_true_eq] at hp
    have hlogical : m.logicalOf = none := (h.captured _ _ (seat_of_mem hmem)).left
    refine ⟨m.seat, ?_, hp.right.left.left.left, hp.right.left.left.right⟩
    rw [Message.canonical, hlogical]
    exact seat_of_mem hmem
  · obtain ⟨hmem, hp⟩ := List.mem_filter.mp hl
    simp only [Bool.and_eq_true, decide_eq_true_eq] at hp
    obtain ⟨x, hx, hxp, hxa⟩ := h.located l hmem
    exact ⟨x, hx, hxp.trans hp.left.left.left, hxa.trans hp.left.left.right⟩

end Quiet

section Advance

variable {drawn more merged ids : List String} {c : Components Node} {s s₁ s₂ : Store} {scope : Scope}
  {messageId old key fresh k : String}

-- The key is that of a thread, or leads to it.
def Store.Leads (s : Store) (old key : String) : Prop :=
  key = old ∨ s.aliases.get old = some ⟨old, key⟩

-- The messages stay, and what has led to the key of one still does.
def Follows (s s' : Store) : Prop :=
  ∀ id x key old, s.seat id = some x → x.Carries key → s.Leads old key →
    ∃ y key', s'.seat id = some y ∧ y.Carries key' ∧ s'.Leads old key'

theorem Follows.trans (h₁ : Follows s s₁) (h₂ : Follows s₁ s₂) : Follows s s₂ := by
  intro id x key old hx hc hl
  obtain ⟨y, key', hy, hc', hl'⟩ := h₁ id x key old hx hc hl
  exact h₂ id y key' old hy hc' hl'

theorem Follows.of_seats (hs : ∀ id x, s.seat id = some x → s₁.seat id = some x) (ha : s₁.aliases = s.aliases) :
    Follows s s₁ := by
  intro id x key old hx hc hl
  refine ⟨x, key, hs id x hx, hc, ?_⟩
  unfold Store.Leads
  rwa [ha]

theorem Quiet.follows (h : Quiet s s₁) : Follows s s₁ :=
  .of_seats (fun id x hx => by rw [h.seat, hx]) h.aliases

theorem Unites.follows (h : Threaded drawn c s) (hf : fresh ∉ drawn)
    (u : Unites scope k fresh merged ids messageId s s₁) : Follows s s₁ := by
  intro id x key old hx hc hl
  refine ⟨_, moved k merged key, u.seat id x hx, u.carries_rekey h hf hx hc, ?_⟩
  obtain rfl | hl := hl
  · unfold moved
    split
    case isTrue hm  => exact .inr (by rw [u.aliases, if_pos hm])
    case isFalse    => exact .inl rfl
  · have hold : old ∉ merged := by
      intro hm
      obtain hcarried | ⟨-, hnil⟩ := u.carried h (List.mem_cons_of_mem k hm)
      · exact (h.retired _ (Table.mem_of_get hl)).right.right hcarried
      · exact absurd (hnil ▸ hm) List.not_mem_nil
    refine .inr ?_
    rw [u.aliases, if_neg hold, hl, Option.map_some, Alias.rekey, moved]
    split <;> rfl

-- A transaction that removes no message.
structure Advance (drawn : List String) (c : Components Node) (s s' : Store) : Prop where
  threaded : Threaded drawn c s'
  follows  : Follows s s'

namespace Advance

theorem start (h : Threaded drawn c s) : Advance drawn c s s :=
  ⟨h, .of_seats (fun _ _ hx => hx) rfl⟩

theorem mono (h : Advance drawn c s s₁) (hs : drawn ⊆ more) : Advance more c s s₁ :=
  ⟨h.threaded.mono hs, h.follows⟩

theorem still (h : Advance drawn c s s₁) (hs : Still s₁ s₂) : Advance drawn c s s₂ :=
  ⟨h.threaded.still hs, h.follows.trans hs.toQuiet.follows⟩

theorem locates (h : Advance drawn c s s₁) (hl : Locates messageId scope s₁ s₂)
    (hx : ∃ x, s₁.seat messageId = some x ∧ x.provider = scope.provider ∧ x.accountId = scope.accountId) :
    Advance drawn c s s₂ :=
  ⟨h.threaded.locates hl hx, h.follows.trans hl.toQuiet.follows⟩

theorem unites (h : Advance drawn c s s₁) (hf : fresh ∉ drawn)
    (u : Unites scope k fresh merged ids messageId s₁ s₂) :
    Advance (drawn ++ [fresh]) (c.unite (headers messageId scope ids)) s s₂ :=
  ⟨h.threaded.unites hf u, h.follows.trans (u.follows h.threaded hf)⟩

theorem requeueIfSkipped (h : Advance drawn c s s₁) (hr : s₁.requeueIfSkipped messageId = .ok s₂) :
    Advance drawn c s s₂ :=
  h.still (h.threaded.still_requeueIfSkipped hr)

end Advance

end Advance

section Prune

variable {s s' s₁ s₂ : Store} {drawn : List String} {c : Components Node} {key id : String}

-- Messages go, and with the last one of a thread all that is known of the thread.
structure Pruned (s s' : Store) : Prop where
  seat      : ∀ id x, s'.seat id = some x → s.seat id = some x
  threadIds : ∀ t, t ∈ s'.threadIds ↔ t ∈ s.threadIds ∧ s'.Carries t.threadKey
  aliases   : ∀ a, a ∈ s'.aliases ↔ a ∈ s.aliases ∧ s'.Carries a.survivorKey
  locations : ∀ l, l ∈ s'.locations → l ∈ s.locations ∧ (s'.seat l.messageId).isSome

theorem Pruned.carries (h : Pruned s s') (hc : s'.Carries key) : s.Carries key := by
  obtain ⟨id, x, hx, hc⟩ := hc
  exact ⟨id, x, h.seat id x hx, hc⟩

theorem Pruned.trans (h₁ : Pruned s s₁) (h₂ : Pruned s₁ s₂) : Pruned s s₂ where
  seat id x hx  := h₁.seat id x (h₂.seat id x hx)
  threadIds t   := by
    rw [h₂.threadIds, h₁.threadIds, and_assoc]
    exact and_congr_right fun _ => and_iff_right_of_imp h₂.carries
  aliases a     := by
    rw [h₂.aliases, h₁.aliases, and_assoc]
    exact and_congr_right fun _ => and_iff_right_of_imp h₂.carries
  locations l hl := by
    obtain ⟨hl, hs⟩ := h₂.locations l hl
    exact ⟨(h₁.locations l hl).left, hs⟩

theorem Pruned.still (h : Pruned s s₁) (hs : Still s₁ s₂) : Pruned s s₂ where
  seat          := hs.seat ▸ h.seat
  threadIds t   := by rw [hs.threadIds, hs.toQuiet.carries, h.threadIds]
  aliases a     := by rw [hs.aliases, hs.toQuiet.carries, h.aliases]
  locations     := by rw [hs.locations, hs.seat]; exact h.locations

theorem Threaded.carries_threadId (h : Threaded drawn c s) {t : ThreadId} (ht : t ∈ s.threadIds) :
    s.Carries t.threadKey := by
  obtain ⟨-, id, x, hx, hc, -⟩ := h.anchored t ht
  exact ⟨id, x, hx, hc⟩

theorem Threaded.prune_self (h : Threaded drawn c s) : Pruned s s where
  seat _ _ hx    := hx
  threadIds t    := (and_iff_left_of_imp h.carries_threadId).symm
  aliases a      := (and_iff_left_of_imp fun ha => (h.retired a ha).right.left).symm
  locations l hl := by
    obtain ⟨x, hx, -⟩ := h.located l hl
    exact ⟨hl, by rw [hx, Option.isSome_some]⟩

theorem Pruned.seat_mono (h : Pruned s s') (hx : s.seat id = some x) (hs : (s'.messages.get id).isSome) :
    s'.seat id = some x := by
  obtain ⟨m, hm⟩ := Option.isSome_iff_exists.mp hs
  have hseat : s'.seat id = some m.seat := by rw [Store.seat, hm, Option.map_some]
  rw [hseat, ← hx, h.seat id _ hseat]

theorem Threaded.prune (h : Threaded drawn c s) (hp : Pruned s s') :
    Threaded drawn (c.keep s'.stays s'.rows) s' where
  captured id x hx      := h.captured id x (hp.seat id x hx)
  located l hl          := by
    obtain ⟨hl, hs⟩ := hp.locations l hl
    obtain ⟨x, hx, hrest⟩ := h.located l hl
    obtain ⟨y, hy⟩ := Option.isSome_iff_exists.mp hs
    obtain rfl := Option.some.inj (hx.symm.trans (hp.seat _ y hy))
    exact ⟨x, hy, hrest⟩
  keyed id x hx         := h.keyed id x (hp.seat id x hx)
  account id₁ x₁ id₂ x₂ key h₁ h₂ :=
    h.account id₁ x₁ id₂ x₂ key (hp.seat id₁ x₁ h₁) (hp.seat id₂ x₂ h₂)
  anchored t ht         := by
    obtain ⟨ht, id, x, hx, hc⟩ := (hp.threadIds t).mp ht
    obtain ⟨hpr, id', y, hy, hcy, ha⟩ := h.anchored t ht
    exact ⟨hpr, id, x, hx, hc, (h.account id x id' y _ (hp.seat id x hx) hy hc hcy).trans ha⟩
  registered id x hx hpr identity rfcId hi hr := by
    obtain ⟨t, ht, hs, hid, hk⟩ := h.registered id x (hp.seat id x hx) hpr identity rfcId hi hr
    exact ⟨t, (hp.threadIds t).mpr ⟨ht, id, x, hx, hpr, hk⟩, hs, hid, hk⟩
  retired a ha          := by
    obtain ⟨ha, hc⟩ := (hp.aliases a).mp ha
    obtain ⟨hd, -, hn⟩ := h.retired a ha
    exact ⟨hd, hc, fun ho => hn (hp.carries ho)⟩
  together              := by
    refine h.together.keep fun x key => ⟨?_, ?_⟩
    · intro hl
      cases x
      case row id       =>
        obtain ⟨y, hy, hc⟩ := label_row_eq_some.mp hl
        have hstored := stored_of_seat hy
        have hlabel := label_row_eq_some.mpr ⟨y, hp.seat id y hy, hc⟩
        refine ⟨hlabel, ?_, _, ⟨id, rfl, hstored⟩, hlabel⟩
        rintro _ ⟨⟩
        exact hstored
      case id sc rfcId =>
        obtain ⟨t, ht, rfl, rfl, rfl⟩ := label_id_eq_some.mp hl
        obtain ⟨ht, id, y, hy, hc⟩ := (hp.threadIds t).mp ht
        exact ⟨label_id_eq_some.mpr ⟨t, ht, rfl, rfl, rfl⟩, nofun, _, ⟨id, rfl, stored_of_seat hy⟩,
          label_row_eq_some.mpr ⟨y, hp.seat id y hy, hc⟩⟩
    · rintro ⟨hl, hstays, _, ⟨ida, rfl, hs⟩, hla⟩
      obtain ⟨z, hz, hcz⟩ := label_row_eq_some.mp hla
      have hcarries : s'.Carries key := ⟨ida, z, Pruned.seat_mono hp hz hs, hcz⟩
      cases x
      case row id       =>
        obtain ⟨y, hy, hc⟩ := label_row_eq_some.mp hl
        exact label_row_eq_some.mpr ⟨y, Pruned.seat_mono hp hy (hstays id rfl), hc⟩
      case id sc rfcId =>
        obtain ⟨t, ht, rfl, rfl, rfl⟩ := label_id_eq_some.mp hl
        exact label_id_eq_some.mpr ⟨t, (hp.threadIds t).mpr ⟨ht, hcarries⟩, rfl, rfl, rfl⟩

-- Another message is in the thread.
def Store.Shared (s : Store) (old : Message) (key : String) : Prop :=
  ∃ m ∈ s.messages, m.provider = old.provider ∧ m.accountId = old.accountId ∧ m.threadKey = some key

-- What is known of a thread is released with its last message.
theorem releaseImapComponent_cases (s : Store) (old : Message) :
    s.releaseImapComponent old = s ∧
      (old.provider = .imap → ∀ key, old.threadKey = some key → s.Shared old key) ∨
    ∃ key, old.provider = .imap ∧ old.threadKey = some key ∧ ¬s.Shared old key ∧
      s.releaseImapComponent old = { s with
        threadIds := s.threadIds.delete fun t =>
          t.scope.provider = old.provider && t.scope.accountId = old.accountId && t.threadKey = key
        aliases := s.aliases.delete (·.survivorKey = key)
      } := by
  unfold releaseImapComponent
  cases hk : old.threadKey
  case none     => exact .inl ⟨rfl, fun _ _ h => nomatch h⟩
  case some key =>
    have hshared : (s.messages.rows.any fun m =>
        m.provider = old.provider && m.accountId = old.accountId && m.threadKey = some key) = true ↔
        s.Shared old key := by
      simp [Store.Shared, Table.mem_rows, and_assoc]
    dsimp only
    split
    case isTrue h  =>
      obtain ⟨hp, hn⟩ := h
      rw [Bool.not_eq_true', ← Bool.not_eq_true, hshared] at hn
      exact .inr ⟨key, hp, rfl, hn, rfl⟩
    case isFalse h =>
      refine .inl ⟨rfl, fun hp key' hk' => ?_⟩
      obtain rfl := Option.some.inj hk'
      by_contra hn
      refine h ⟨hp, ?_⟩
      rwa [Bool.not_eq_true', ← Bool.not_eq_true, hshared]

theorem Store.seat_delete {i : String} (s : Store) : ({ s with
      messages    := s.messages.delete (·.messageId = i)
      locations   := s.locations.delete (·.messageId = i)
      bodies      := s.bodies.delete (·.messageId = i)
      unavailable := s.unavailable.delete (·.messageId = i) } : Store).seat id =
    if id = i then none else s.seat id := by
  have hget : (s.messages.delete (·.messageId = i)).get id = if id = i then none else s.messages.get id :=
    Table.get_delete_key fun _ => rfl
  rw [Store.seat, hget]
  split <;> rfl

theorem Threaded.prune_deleteRow (h : Threaded drawn c s) (i : String) : Pruned s (s.deleteRow i) := by
  unfold deleteRow
  cases hget : s.messages.get i
  case none     => exact h.prune_self
  case some old =>
    dsimp only
    generalize hs : ({ s with
      messages    := s.messages.delete (·.messageId = i)
      locations   := s.locations.delete (·.messageId = i)
      bodies      := s.bodies.delete (·.messageId = i)
      unavailable := s.unavailable.delete (·.messageId = i) } : Store) = s₁
    have hseat : ∀ id, s₁.seat id = if id = i then none else s.seat id := fun id => hs ▸ s.seat_delete
    have hids : s₁.threadIds = s.threadIds := by rw [← hs]
    have haliases : s₁.aliases = s.aliases := by rw [← hs]
    have hlocations : ∀ l, l ∈ s₁.locations → l ∈ s.locations ∧ l.messageId ≠ i := by
      rw [← hs]
      intro l hl
      obtain ⟨hl, hi⟩ := Table.mem_delete.mp hl
      exact ⟨hl, of_decide_eq_false hi⟩
    have hold : s.seat i = some old.seat := by rw [Store.seat, hget, Option.map_some]
    have hsub : ∀ id x, s₁.seat id = some x → s.seat id = some x := by
      intro id x hx
      rw [hseat, Option.ite_none_left_eq_some] at hx
      exact hx.right
    have hkept : ∀ l, l ∈ s₁.locations → l ∈ s.locations ∧ (s₁.seat l.messageId).isSome := by
      intro l hl
      obtain ⟨hl, hne⟩ := hlocations l hl
      obtain ⟨x, hx, -⟩ := h.located l hl
      exact ⟨hl, by rw [hseat, if_neg hne, hx, Option.isSome_some]⟩
    have hshared : ∀ key, old.provider = .imap → s₁.Shared old key → s₁.Carries key := by
      rintro key hp ⟨m, hm, hmp, -, hmk⟩
      exact ⟨m.messageId, m.seat, seat_of_mem hm, hmp.trans hp, hmk⟩
    have hother : ∀ key, s.Carries key → s₁.Carries key ∨ old.seat.Carries key := by
      rintro key ⟨id, x, hx, hc⟩
      by_cases hid : id = i
      case pos =>
        obtain rfl := Option.some.inj ((hid ▸ hx).symm.trans hold)
        exact .inr hc
      case neg => exact .inl ⟨id, x, by rw [hseat, if_neg hid, hx], hc⟩
    obtain ⟨heq, hall⟩ | ⟨key, hp, hkey, hnot, heq⟩ := releaseImapComponent_cases s₁ old
    · have hcarries : ∀ key, s.Carries key → s₁.Carries key := by
        intro key hc
        obtain hc | ⟨hp, hk⟩ := hother key hc
        · exact hc
        · exact hshared key hp (hall hp key hk)
      rw [heq]
      constructor
      case seat      => exact hsub
      case threadIds =>
        intro t
        rw [hids]
        exact (and_iff_left_of_imp fun ht => hcarries _ (h.carries_threadId ht)).symm
      case aliases   =>
        intro a
        rw [haliases]
        exact (and_iff_left_of_imp fun ha => hcarries _ (h.retired a ha).right.left).symm
      case locations => exact hkept
    · have hgone : ¬s₁.Carries key := by
        rintro ⟨id, x, hx, hc⟩
        obtain ⟨m, hm, -, rfl⟩ := exists_mem_of_seat hx
        have ha := h.account id _ i _ key (hsub id _ hx) hold hc ⟨hp, hkey⟩
        exact hnot ⟨m, hm, hc.left.trans hp.symm, ha, hc.right⟩
      have hcarries : ∀ key', s.Carries key' → key' ≠ key → s₁.Carries key' := by
        intro key' hc hne
        refine (hother key' hc).resolve_right fun hc => hne ?_
        exact Option.some.inj (hc.right.symm.trans hkey)
      rw [heq]
      constructor
      case seat      => exact hsub
      case threadIds =>
        intro t
        change t ∈ s₁.threadIds.delete _ ↔ t ∈ s.threadIds ∧ s₁.Carries t.threadKey
        rw [Table.mem_delete, hids]
        refine and_congr_right fun ht => ?_
        constructor
        case mp  =>
          intro hn
          refine hcarries _ (h.carries_threadId ht) fun hk => ?_
          obtain ⟨htp, id, x, hx, hc, ha⟩ := h.anchored t ht
          have hacc := h.account id x i _ key hx hold (hk ▸ hc) ⟨hp, hkey⟩
          simp [htp, hp, hk, ← ha, hacc, Message.seat] at hn
        case mpr =>
          intro hc
          have hne : t.threadKey ≠ key := fun hk => hgone (hk ▸ hc)
          simp [hne]
      case aliases   =>
        intro a
        change a ∈ s₁.aliases.delete _ ↔ a ∈ s.aliases ∧ s₁.Carries a.survivorKey
        rw [Table.mem_delete, haliases]
        refine and_congr_right fun ha => ?_
        constructor
        case mp  => exact fun hn => hcarries _ (h.retired a ha).right.left (of_decide_eq_false hn)
        case mpr => exact fun hc => decide_eq_false fun hk => hgone (hk ▸ hc)
      case locations => exact hkept

-- A transaction that removes messages.
def Prunes (s s' : Store) : Prop :=
  ∀ drawn c, Threaded drawn c s → Pruned s s'

theorem Prunes.trans (h₁ : Prunes s s₁) (h₂ : Prunes s₁ s₂) : Prunes s s₂ :=
  fun drawn c h => (h₁ drawn c h).trans (h₂ drawn _ (h.prune (h₁ drawn c h)))

theorem Prunes.of_still (h : Still s s') : Prunes s s' :=
  fun _ _ ht => ht.prune_self.still h

theorem prunes_foldl {α : Type} {f : Store → α → Store} (hf : ∀ s a, Prunes s (f s a)) (l : List α) (s : Store) :
    Prunes s (l.foldl f s) := by
  induction l generalizing s
  case nil         => exact .of_still (.refl s)
  case cons a l ih => exact .trans (hf s a) (ih _)

theorem prunes_deleteMessages (s : Store) (ids : List String) : Prunes s (s.deleteMessages ids) :=
  prunes_foldl (fun _ i _ _ h => h.prune_deleteRow i) _ s

theorem prunes_removeTarget (kind : Kind) (s : Store) (t : Target) : Prunes s (s.removeTarget kind t) := by
  unfold Store.removeTarget
  split
  case h_1 => exact .of_still (.refl s)
  case h_2 =>
    split
    case h_1 => exact .of_still (.of_tables rfl rfl rfl rfl)
    case h_2 => exact prunes_deleteMessages s _

theorem still_suppressTargets [Codec] (s : Store) (targets : List Target) (now : Instant) :
    Still s (s.suppressTargets targets now) := by
  unfold Store.suppressTargets
  induction (targets.map (·.sourceIdentities)).eraseDups.flatten generalizing s
  case nil          => exact .refl s
  case cons x xs ih =>
    have hone : Still s (suppressSource now s x) := .of_tables rfl rfl rfl rfl
    exact hone.trans (ih _)

theorem prunes_resume [Codec] {chunk : List (String × String)} {now : Instant} (h : s.resume chunk now = .ok s') :
    Prunes s s' := by
  refine foldlM_relation (fun s => .of_still (.refl s)) (fun _ _ _ => .trans) ?_ h
  intro s unit _ s' hu
  obtain ⟨-, heq⟩ | ⟨i, -, heq⟩ := completeUnit_ok hu
  · rw [heq]
    exact .of_still (.refl s)
  · have hsuppress : Prunes s (if i.kind = .unfollow then s else s.suppressTargets (s.pendingTargets unit) now) := by
      split
      case isTrue  => exact .of_still (.refl s)
      case isFalse => exact .of_still (still_suppressTargets s _ now)
    have hremove : Prunes s (s.removed i unit now) :=
      hsuppress.trans (prunes_foldl (prunes_removeTarget i.kind) _ _)
    exact heq ▸ hremove.trans (.of_still (.of_tables rfl rfl rfl rfl))

end Prune

section Ids

variable [Codec] {c : Capture} {rfcId : String}

theorem admissible_of_normal {value : String} (h : normalizeMessageId value = some rfcId) : admissibleId rfcId := by
  simp only [normalizeMessageId, Option.ite_none_right_eq_some, Option.some.injEq] at h
  obtain ⟨hw, rfl⟩ := h
  simp only [wellFormedId, Bool.and_eq_true, decide_eq_true_eq] at hw
  obtain ⟨⟨hlen, hsep⟩, -⟩ := hw
  have hne : String.ofList (unbracket (strip value.toList)) ≠ "" := by
    intro he
    have hnil : unbracket (strip value.toList) = [] := by
      rw [← String.toList_ofList (l := unbracket (strip value.toList)), he]
      rfl
    rw [hnil] at hsep
    cases hsep
  simp [admissibleId, hne, hlen]

theorem admissible_ids (h : rfcId ∈ c.ids) : admissibleId rfcId := by
  have hmem := List.mem_filterMap.mp (List.mem_eraseDups.mp h)
  obtain ⟨value, -, hv⟩ := hmem
  exact admissible_of_normal hv

theorem rfcId_mem_ids (h : c.rfcId = some rfcId) : rfcId ∈ c.ids := by
  obtain ⟨value, -, hv⟩ := Option.bind_eq_some_iff.mp h
  refine List.mem_eraseDups.mpr (List.mem_filterMap.mpr ⟨rfcId, ?_, normalize_idempotent hv⟩)
  rw [h]
  exact List.mem_cons_self

theorem Metadata.admissible_ids {m : Metadata} (h : rfcId ∈ m.ids) : admissibleId rfcId :=
  admissible_of_normal (m.normal rfcId (List.mem_eraseDups.mp h))

end Ids

section Actions

variable [Codec] {s s' : Store} {scope : Scope} {capture : Capture} {messageId : String} {drawn : List String}
  {c : Components Node} {b : Bool}

omit [Codec] in
theorem chosen_fst_snd (s : Store) (scope : Scope) (ids : List String) (existing : Option String) (fresh : String) :
    Chosen s scope ids existing fresh (s.imapThreadKey scope ids existing fresh).fst
      (s.imapThreadKey scope ids existing fresh).snd :=
  chosen_imapThreadKey rfl

omit [Codec] in
theorem unites_of_joined {existing : Option String} {fresh k : String} {merged ids : List String} {x : Seat}
    (hp : scope.provider = .imap) (hc : Chosen s scope ids existing fresh k merged)
    (hj : Joined scope k merged ids s s') (hx : s.seat messageId = some x) (hxp : x.provider = scope.provider)
    (hxa : x.accountId = scope.accountId) (hown : ∃ key ∈ k :: merged, x.threadKey = some key)
    (hexisting : ∀ key, existing = some key → x.threadKey = some key) :
    Unites scope k fresh merged ids messageId s s' where
  imap            := hp
  apart           := hc.apart
  found           := hc.found
  source key hkey := by
    obtain ht | he | ⟨hfresh, -, hnil⟩ := hc.source key hkey
    · exact .inl ht
    · exact .inr (.inl ⟨x, hx, hexisting key he⟩)
    · exact .inr (.inr ⟨hfresh, hnil⟩)
  own y hy        := by
    obtain rfl := Option.some.inj (hx.symm.trans hy)
    exact ⟨hxp.trans hp, hxa, hown⟩
  inserted hn     := nomatch hn.symm.trans hx
  seat id y hy    := by rw [hj.seat, hy, Option.map_some]
  others id y hy  := by
    rw [hj.seat] at hy
    obtain ⟨z, hz, -⟩ := Option.map_eq_some_iff.mp hy
    exact .inr ⟨z, hz⟩
  threadIds       := hj.threadIds
  aliases         := hj.aliases
  locations       := hj.locations

omit [Codec] in
theorem seat_put (row : Message) (id : String) :
    ({ s with messages := s.messages.put row } : Store).seat id =
      if row.messageId = id then some row.seat else s.seat id := by
  have hget : (s.messages.put row).get id = if row.messageId = id then some row else s.messages.get id :=
    Table.get_put s.messages row id
  rw [Store.seat, hget]
  split <;> rfl

theorem unites_of_inserted {k : String} {merged : List String} (hp : scope.provider = .imap)
    (hc : Chosen s scope capture.ids none capture.fresh k merged)
    (hj : Joined scope k merged capture.ids { s with messages := s.messages.put (capturedRow scope capture k) } s')
    (hn : s.messages.get capture.messageId = none) :
    Unites scope k capture.fresh merged capture.ids capture.messageId s s' := by
  have hnone : s.seat capture.messageId = none := by rw [Store.seat, hn, Option.map_none]
  constructor
  case imap      => exact hp
  case apart     => exact hc.apart
  case found     => exact hc.found
  case source    =>
    intro key hkey
    obtain ht | he | ⟨hfresh, -, hnil⟩ := hc.source key hkey
    · exact .inl ht
    · cases he
    · exact .inr (.inr ⟨hfresh, hnil⟩)
  case own       =>
    intro x hx
    cases hnone.symm.trans hx
  case inserted  =>
    intro
    refine ⟨capture.rfcId, ?_, fun id => rfcId_mem_ids⟩
    have hno : ¬∃ old ∈ merged, (capturedRow scope capture k).seat.threadKey = some old := by
      rintro ⟨old, hold, hk⟩
      obtain rfl := Option.some.inj hk
      exact hc.apart hold
    have hput : ({ s with messages := s.messages.put (capturedRow scope capture k) } : Store).seat capture.messageId =
        some (capturedRow scope capture k).seat := by
      rw [seat_put]
      exact if_pos rfl
    rw [hj.seat, hput, Option.map_some, Seat.rekey, if_neg fun hall => hno hall.right.right, ← hp]
    rfl
  case seat      =>
    intro id x hx
    have hne : (capturedRow scope capture k).messageId ≠ id := by
      rintro rfl
      cases hnone.symm.trans hx
    rw [hj.seat, seat_put, if_neg hne, hx, Option.map_some]
  case others    =>
    intro id x' hx
    rw [hj.seat, seat_put] at hx
    by_cases hid : (capturedRow scope capture k).messageId = id
    case pos => exact .inl hid.symm
    case neg =>
      rw [if_neg hid] at hx
      obtain ⟨z, hz, -⟩ := Option.map_eq_some_iff.mp hx
      exact .inr ⟨z, hz⟩
  case threadIds => exact hj.threadIds
  case aliases   => exact hj.aliases
  case locations => exact hj.locations

omit [Codec] in
-- The message that a source is a copy of.
theorem row_of_copied {rfcId : String} (hc : s.logicalMessageId scope rfcId capture.source = some messageId) :
    ∃ m ∈ s.messages, m.messageId = messageId ∧ m.provider = scope.provider ∧ m.accountId = scope.accountId ∧
      m.rfcMessageId = some rfcId ∧ s.effectiveIdentity m = some scope.mailboxIdentityKey := by
  obtain ⟨m, hm, rfl⟩ := Option.map_eq_some_iff.mp hc
  have happ := List.argmin_mem hm
  rw [List.mem_append, List.mem_filter, List.mem_filter] at happ
  simp only [Bool.and_eq_true, decide_eq_true_eq] at happ
  obtain ⟨hmem, -, ⟨⟨⟨⟨hp, ha⟩, hr⟩, -⟩, -⟩, hi⟩ | ⟨hmem, -, ⟨⟨⟨⟨hp, ha⟩, hr⟩, -⟩, -⟩, hi⟩ := happ
  · exact ⟨m, hmem, rfl, hp, ha, hr, hi⟩
  · exact ⟨m, hmem, rfl, hp, ha, hr, hi⟩

omit [Codec] in
-- The message is in the thread that its id is registered for.
theorem Threaded.registered_of_row {m : Message} {rfcId : String} (h : Threaded drawn c s) (hp : scope.provider = .imap)
    (hmem : m ∈ s.messages) (hmp : m.provider = scope.provider) (hma : m.accountId = scope.accountId)
    (hmr : m.rfcMessageId = some rfcId) (hmi : s.effectiveIdentity m = some scope.mailboxIdentityKey) :
    ∃ t ∈ s.threadIds, t.scope = scope ∧ t.rfcId = rfcId ∧ m.threadKey = some t.threadKey := by
  have hseat := seat_of_mem hmem
  obtain ⟨identity, hi⟩ := Option.isSome_iff_exists.mp (h.captured _ _ hseat).right
  have hscope : (⟨.imap, m.accountId, identity⟩ : Scope) = scope := by
    change m.mailboxIdentityKey = some identity at hi
    rw [effectiveIdentity, hi, Option.some_or] at hmi
    rw [hma, Option.some.inj hmi, ← hp]
  obtain ⟨t, ht, hs, hid, hk⟩ := h.registered _ _ hseat (hmp.trans hp) identity rfcId hi hmr
  exact ⟨t, ht, hs.trans hscope, hid, hk⟩

-- A copy of a stored message joins the threads of its headers.
theorem Threaded.captureCopy (h : Threaded drawn c s) (hf : capture.fresh ∉ drawn)
    (hc : capture.rfcId.bind (s.logicalMessageId scope · capture.source) = some messageId)
    (hp : scope.provider = .imap) (he : capture.provider = .imap)
    (hs : s.captureCopy scope capture messageId = .ok s') :
    Advance (drawn ++ [capture.fresh]) (c.unite (headers messageId scope capture.ids)) s s' := by
  simp only [Store.captureCopy, bind_eq_ok] at hs
  obtain ⟨s₁, h₁, s₂, h₂, h₃⟩ := hs
  obtain ⟨rfcId, hrfc, hlogical⟩ := Option.bind_eq_some_iff.mp hc
  obtain ⟨m, hmem, rfl, hmp, hma, hmr, hmi⟩ := row_of_copied hlogical
  obtain ⟨t, ht, hts, htid, htk⟩ := h.registered_of_row hp hmem hmp hma hmr hmi
  have hl := locates_recordLocations h₁
  have ht₁ := (Advance.start h).locates hl ⟨m.seat, seat_of_mem hmem, hmp, hma⟩
  have hstill := ht₁.threaded.still_requeueIfSkipped h₂
  have hquiet : s₂.threadIds = s.threadIds := hstill.threadIds.trans hl.threadIds
  have hseat : s₂.seat = s.seat := hstill.seat.trans hl.seat
  rw [captureThread, if_pos he, joinComponent, if_pos hp] at h₃
  have hchosen := chosen_fst_snd s scope capture.ids none capture.fresh
  have hjoined := joined_applyImapComponent hchosen.apart (fun _ => admissible_ids) h₃
  have hchosen₂ : Chosen s₂ scope capture.ids none capture.fresh _ _ :=
    ⟨hchosen.apart, hquiet ▸ hchosen.found, hchosen.own, hquiet ▸ hchosen.source⟩
  have hown := hchosen.found t ht hts (htid ▸ rfcId_mem_ids hrfc)
  exact (ht₁.still hstill).unites hf
    (unites_of_joined hp hchosen₂ hjoined (hseat ▸ seat_of_mem hmem) hmp hma ⟨t.threadKey, hown, htk⟩ nofun)

theorem Threaded.captureCopy_other (h : Threaded drawn c s)
    (hc : capture.rfcId.bind (s.logicalMessageId scope · capture.source) = some messageId)
    (hp : scope.provider ≠ .imap) (hs : s.captureCopy scope capture messageId = .ok s') : Advance drawn c s s' := by
  simp only [Store.captureCopy, joinComponent, if_neg hp, bind_eq_ok, pure_eq_ok] at hs
  obtain ⟨s₁, h₁, s₂, h₂, rfl⟩ := hs
  obtain ⟨rfcId, -, hlogical⟩ := Option.bind_eq_some_iff.mp hc
  obtain ⟨m, hmem, rfl, hmp, hma, -⟩ := row_of_copied hlogical
  have ht₁ := (Advance.start h).locates (locates_recordLocations h₁) ⟨m.seat, seat_of_mem hmem, hmp, hma⟩
  exact ht₁.requeueIfSkipped h₂

-- A message that is stored joins the threads of its headers.
theorem Threaded.captureRow (h : Threaded drawn c s) (hf : capture.fresh ∉ drawn) (hp : scope.provider = .imap)
    (he : capture.provider = .imap) (hs : s.captureRow scope capture = .ok (s', true)) :
    Advance (drawn ++ [capture.fresh]) (c.unite (headers capture.messageId scope capture.ids)) s s' := by
  simp only [Store.captureRow, bind_eq_ok] at hs
  obtain ⟨_, _, hs⟩ := hs
  split at hs
  case isFalse =>
    cases pure_eq_ok.mp hs
  case isTrue hi =>
    simp only [bind_eq_ok, pure_eq_ok, Prod.mk.injEq] at hs
    obtain ⟨s₁, h₁, s₂, h₂, rfl, _⟩ := hs
    simp only [insertable, Bool.and_eq_true, Option.isNone_iff_eq_none] at hi
    rw [captureThread, if_pos he, joinComponent, if_pos hp] at h₁
    have hchosen := chosen_fst_snd s scope capture.ids none capture.fresh
    have hjoined := joined_applyImapComponent hchosen.apart (fun _ => admissible_ids) h₁
    have hunites := unites_of_inserted hp hchosen hjoined hi.left
    obtain ⟨x, hx, hc, ha⟩ := hunites.carries_own h hf
    exact ((Advance.start h).unites hf hunites).locates (locates_recordLocations h₂) ⟨x, hx, hc.left.trans hp.symm, ha⟩

omit [Codec] in
theorem Threaded.insert_other {row : Message} (h : Threaded drawn c s) (hn : s.messages.get row.messageId = none)
    (hp : row.provider ≠ .imap) (hl : row.logicalOf = none) (hi : row.mailboxIdentityKey.isSome) :
    Advance drawn c s { s with messages := s.messages.put row } := by
  have hnone : s.seat row.messageId = none := by rw [Store.seat, hn, Option.map_none]
  have hold : ∀ {id x}, s.seat id = some x → ({ s with messages := s.messages.put row } : Store).seat id = some x := by
    intro id x hx
    have hne : row.messageId ≠ id := by
      rintro rfl
      cases hnone.symm.trans hx
    rw [seat_put, if_neg hne, hx]
  have hnew : ∀ {id x}, ({ s with messages := s.messages.put row } : Store).seat id = some x → x.provider = .imap →
      s.seat id = some x := by
    intro id x hx hxp
    rw [seat_put] at hx
    split at hx
    case isTrue  =>
      obtain rfl := Option.some.inj hx
      exact absurd hxp hp
    case isFalse => exact hx
  have hcarries : ∀ key, ({ s with messages := s.messages.put row } : Store).Carries key ↔ s.Carries key := by
    intro key
    constructor
    case mp  =>
      rintro ⟨id, x, hx, hc⟩
      exact ⟨id, x, hnew hx hc.left, hc⟩
    case mpr =>
      rintro ⟨id, x, hx, hc⟩
      exact ⟨id, x, hold hx, hc⟩
  refine ⟨?_, .of_seats (fun _ _ => hold) rfl⟩
  constructor
  case captured   =>
    intro id x hx
    rw [seat_put] at hx
    split at hx
    case isTrue  =>
      obtain rfl := Option.some.inj hx
      exact ⟨hl, hi⟩
    case isFalse => exact h.captured id x hx
  case located    =>
    intro l hmem
    obtain ⟨x, hx, hrest⟩ := h.located l hmem
    exact ⟨x, hold hx, hrest⟩
  case keyed      => exact fun id x hx hxp => h.keyed id x (hnew hx hxp) hxp
  case account    =>
    intro id₁ x₁ id₂ x₂ key h₁ h₂ hc₁ hc₂
    exact h.account id₁ x₁ id₂ x₂ key (hnew h₁ hc₁.left) (hnew h₂ hc₂.left) hc₁ hc₂
  case anchored   =>
    intro t ht
    obtain ⟨htp, id, x, hx, hrest⟩ := h.anchored t ht
    exact ⟨htp, id, x, hold hx, hrest⟩
  case registered => exact fun id x hx hxp => h.registered id x (hnew hx hxp) hxp
  case retired    =>
    intro a ha
    rw [hcarries, hcarries]
    exact h.retired a ha
  case together   =>
    have hlabel : ({ s with messages := s.messages.put row } : Store).label = s.label := by
      funext x
      cases x
      case id sc rfcId => rfl
      case row id      =>
        apply Option.ext
        intro key
        rw [label_row_eq_some, label_row_eq_some]
        constructor
        case mp  =>
          rintro ⟨x, hx, hc⟩
          exact ⟨x, hnew hx hc.left, hc⟩
        case mpr =>
          rintro ⟨x, hx, hc⟩
          exact ⟨x, hold hx, hc⟩
    rw [hlabel]
    exact h.together

-- A message of another provider is in no thread of IMAP.
theorem Threaded.captureRow_other (h : Threaded drawn c s) (hp : scope.provider ≠ .imap)
    (hs : s.captureRow scope capture = .ok (s', b)) : Advance drawn c s s' := by
  simp only [Store.captureRow, bind_eq_ok] at hs
  obtain ⟨_, _, hs⟩ := hs
  split at hs
  case isFalse =>
    cases pure_eq_ok.mp hs
    exact .start h
  case isTrue hi =>
    simp only [bind_eq_ok, pure_eq_ok, Prod.mk.injEq] at hs
    obtain ⟨s₁, h₁, s₂, h₂, rfl, _⟩ := hs
    simp only [insertable, Bool.and_eq_true, Option.isNone_iff_eq_none] at hi
    rw [joinComponent, if_neg hp] at h₁
    cases pure_eq_ok.mp h₁
    have hinsert : Advance drawn c s { s with
        messages := s.messages.put (capturedRow scope capture (s.captureThread scope capture).fst) } :=
      h.insert_other hi.left hp rfl rfl
    refine hinsert.locates (locates_recordLocations h₂)
      ⟨(capturedRow scope capture (s.captureThread scope capture).fst).seat, ?_, rfl, rfl⟩
    rw [seat_put]
    exact if_pos rfl

-- What is found of a message has its headers read.
theorem Threaded.recordReconcileHeaders {m : Metadata} {row : Message} {ls : List Folder} {fresh : String}
    (h : Threaded drawn c s) (hf : fresh ∉ drawn) (hp : scope.provider = .imap)
    (hm : (s.storedSourceMembership scope m.messageId).head? = some messageId)
    (hrow : s.messages.get messageId = some row) (hv : s.available RECORD row.candidate)
    (hs : s.recordReconcileHeaders scope m ls fresh = .ok s') :
    Advance (drawn ++ [fresh]) (c.unite (headers messageId scope m.ids)) s s' := by
  unfold Store.recordReconcileHeaders at hs
  simp only [hm, hrow, Option.filter_some, hv, if_true, bind_eq_ok] at hs
  obtain ⟨s₁, h₁, s₂, h₂, h₃⟩ := hs
  obtain ⟨x, hx, hxp, hxa⟩ := h.seat_of_membership hm
  have hxrow : x = row.seat := by
    rw [Store.seat, hrow, Option.map_some] at hx
    exact (Option.some.inj hx).symm
  have hl := locates_recordLocations h₁
  have ht₁ := (Advance.start h).locates hl ⟨x, hx, hxp, hxa⟩
  rw [joinComponent, if_pos hp] at h₂
  have hchosen := chosen_fst_snd s₁ scope m.ids row.threadKey fresh
  have hjoined := joined_applyImapComponent hchosen.apart (fun _ => m.admissible_ids) h₂
  obtain ⟨key, -, hkey⟩ := h.keyed messageId x hx (hxp.trans hp)
  have hrowkey : row.seat.threadKey = some key := hxrow ▸ hkey
  have hunites := unites_of_joined hp hchosen hjoined (hl.seat ▸ hx) hxp hxa
    ⟨key, hchosen.own key hrowkey, hkey⟩ (fun key' hk => by rw [hxrow]; exact hk)
  exact (ht₁.unites hf hunites).requeueIfSkipped h₃

-- What is read of other providers changes no thread of IMAP.
theorem Threaded.recordReconcileHeaders_other {m : Metadata} {ls : List Folder} {fresh : String}
    (h : Threaded drawn c s) (hp : scope.provider ≠ .imap)
    (hs : s.recordReconcileHeaders scope m ls fresh = .ok s') : Advance drawn c s s' := by
  unfold Store.recordReconcileHeaders at hs
  cases hm : (s.storedSourceMembership scope m.messageId).head? <;> simp only [hm] at hs
  case none       =>
    cases pure_eq_ok.mp hs
    exact .start h
  case some id =>
    split at hs
    case h_1 =>
      cases pure_eq_ok.mp hs
      exact .start h
    case h_2 =>
      simp only [joinComponent, if_neg hp, bind_eq_ok, pure_eq_ok] at hs
      obtain ⟨s₁, h₁, s₂, rfl, h₃⟩ := hs
      exact ((Advance.start h).locates (locates_recordLocations h₁) (h.seat_of_membership hm)).requeueIfSkipped h₃

omit [Codec] in
theorem Threaded.recordMessageLocation {source : String} {ls : List Folder} (h : Threaded drawn c s)
    (hs : s.recordMessageLocation scope source ls b = .ok s') : Advance drawn c s s' := by
  unfold Store.recordMessageLocation at hs
  cases hm : (s.storedSourceMembership scope source).head? <;> simp only [hm] at hs
  case none    =>
    cases pure_eq_ok.mp hs
    exact .start h
  case some id =>
    split at hs
    case isFalse =>
      cases pure_eq_ok.mp hs
      exact .start h
    case isTrue  =>
      simp only [bind_eq_ok] at hs
      obtain ⟨s₁, h₁, h₂⟩ := hs
      have ht₁ := (Advance.start h).locates (locates_recordLocations h₁) (h.seat_of_membership hm)
      split at h₂
      case isTrue  =>
        cases pure_eq_ok.mp h₂
        exact ht₁
      case isFalse => exact ht₁.requeueIfSkipped h₂

-- A capture that may copy a message does so if it does not raise.
theorem captureCopy_of_copied {identity : String} {account : Account} (ha : Admitted s capture identity account)
    (hc : s.copied capture identity = some messageId) (hv : s.messageAvailable RECORD messageId)
    (hs : s.capture capture = .ok (s', b)) :
    s.captureCopy (capture.scope identity) capture messageId = .ok s' ∧ b = false := by
  simp only [Store.capture, bind_eq_ok, find_eq_ok] at hs
  obtain ⟨identity', hi, _, _, _, _, hs⟩ := hs
  obtain rfl := Option.some.inj (ha.named.symm.trans hi)
  have hlogical : capture.rfcId.bind
      (s.logicalMessageId ⟨capture.provider, capture.accountId, identity⟩ · capture.source) = some messageId := hc
  simp only [ha.available, hlogical, Option.any_some, hv, Bool.not_true, Bool.false_eq_true, if_false, bind_eq_ok] at hs
  obtain ⟨_, _, _, _, hs⟩ := hs
  split at hs
  case isTrue hsuppressed =>
    obtain ⟨account', hget, hsuppressed⟩ : ∃ account', (s.accounts.get (capture.provider, capture.accountId)).filter
        (·.mailboxIdentityKey = some identity) = some account' ∧ s.isSuppressed capture.provider capture.accountId
          (suppressionKeys account' (capture.scope identity) capture.source) := ⟨_, ‹_›, hsuppressed⟩
    obtain rfl := Option.some.inj (ha.connected.symm.trans (Option.filter_eq_some_iff.mp hget).left)
    exact absurd hsuppressed ha.suppressed
  case isFalse            =>
    simp only [map_eq_ok, Prod.mk.injEq] at hs
    obtain ⟨_, hcopy, rfl, rfl⟩ := hs
    exact ⟨hcopy, rfl⟩

end Actions

section Steps

variable [Codec] {s s' : Store} {a : Action} {drawn : List String} {c : Components Node} {nodes : Set Node}

omit [Codec] in
theorem Threaded.unite_empty (h : Threaded drawn c s) : Threaded drawn (c.unite ∅) s :=
  { h with together := h.together.unite_empty }

-- What a transaction does to the threads.
structure Stepped (drawn : List String) (c : Components Node) (s s' : Store) : Prop where
  threaded : Threaded drawn c s'
  keys     : Follows s s' ∨ Pruned s s'

theorem Stepped.joins_none (hn : ∀ nodes, ¬Joins s s' a nodes) (h : Advance drawn c s s') :
    Stepped drawn (threadsAfter c s a s') s s' := by
  have hempty : {x | ∃ nodes, Joins s s' a nodes ∧ x ∈ nodes} = (∅ : Set Node) := by
    ext x
    exact iff_of_false (fun ⟨nodes, hj, _⟩ => hn nodes hj) (Set.notMem_empty x)
  have hunite : Threaded drawn (c.unite ∅) s' := h.threaded.unite_empty
  rw [threadsAfter, hempty]
  exact ⟨{ hunite with together := hunite.keep_self }, .inl h.follows⟩

theorem Stepped.joins_some (hj : Joins s s' a nodes) (hu : ∀ nodes', Joins s s' a nodes' → nodes' = nodes)
    (h : Advance drawn (c.unite nodes) s s') : Stepped drawn (threadsAfter c s a s') s s' := by
  have hnodes : {x | ∃ nodes, Joins s s' a nodes ∧ x ∈ nodes} = nodes := by
    ext x
    constructor
    case mp  =>
      rintro ⟨nodes', hj', hx⟩
      exact hu nodes' hj' ▸ hx
    case mpr => exact fun hx => ⟨nodes, hj, hx⟩
  rw [threadsAfter, hnodes]
  exact ⟨{ h.threaded with together := h.threaded.keep_self }, .inl h.follows⟩

theorem Stepped.prunes (hn : ∀ nodes, ¬Joins s s' a nodes) (h : Threaded drawn c s) (hp : Prunes s s') :
    Stepped drawn (threadsAfter c s a s') s s' := by
  have hempty : {x | ∃ nodes, Joins s s' a nodes ∧ x ∈ nodes} = (∅ : Set Node) := by
    ext x
    exact iff_of_false (fun ⟨nodes, hj, _⟩ => hn nodes hj) (Set.notMem_empty x)
  rw [threadsAfter, hempty]
  exact ⟨h.unite_empty.prune (hp drawn c h), .inr (hp drawn c h)⟩

theorem joins_capture {capture : Capture} (hj : Joins s s' (.capture capture) nodes) : capture.provider = .imap ∧
    ((∃ identity, capture.mailboxIdentityKey = some identity ∧ s.capture capture = .ok (s', true) ∧
      nodes = headers capture.messageId (capture.scope identity) capture.ids) ∨
    ∃ identity messageId account, Admitted s capture identity account ∧ s.copied capture identity = some messageId ∧
      s.messageAvailable RECORD messageId ∧ s.capture capture = .ok (s', false) ∧
      nodes = headers messageId (capture.scope identity) capture.ids) := by
  cases hj
  case captured => exact ⟨‹_›, .inl ⟨_, ‹_›, ‹_›, rfl⟩⟩
  case copied   => exact ⟨‹_›, .inr ⟨_, _, _, ‹_›, ‹_›, ‹_›, ‹_›, rfl⟩⟩

theorem captureRow_false {scope : Scope} {capture : Capture} (hs : s.captureRow scope capture = .ok (s', false)) :
    s' = s := by
  simp only [Store.captureRow, bind_eq_ok] at hs
  obtain ⟨_, _, hs⟩ := hs
  split at hs
  case isFalse =>
    cases pure_eq_ok.mp hs
    rfl
  case isTrue  =>
    simp only [bind_eq_ok, pure_eq_ok, Prod.mk.injEq, Bool.true_eq_false, and_false, exists_false] at hs

theorem Threaded.capture {capture : Capture} {b : Bool} (h : Threaded drawn c s) (hf : capture.fresh ∉ drawn)
    (hs : s.capture capture = .ok (s', b)) :
    Stepped (drawn ++ [capture.fresh]) (threadsAfter c s (.capture capture) s') s s' := by
  have hmono : drawn ⊆ drawn ++ [capture.fresh] := List.subset_append_left _ _
  by_cases hcopied : ∃ identity account messageId, Admitted s capture identity account ∧
      s.copied capture identity = some messageId ∧ s.messageAvailable RECORD messageId
  case pos =>
    obtain ⟨identity, account, messageId, ha, hc, hv⟩ := hcopied
    obtain ⟨hcopy, rfl⟩ := captureCopy_of_copied ha hc hv hs
    by_cases hp : capture.provider = .imap
    case pos =>
      refine .joins_some (.copied hp ha hc hv hs) (fun nodes' hj => ?_) (h.captureCopy hf hc hp hp hcopy)
      obtain ⟨-, ⟨_, -, hs', -⟩ | ⟨identity', messageId', account', ha', hc', -, -, rfl⟩⟩ := joins_capture hj
      · cases hs.symm.trans hs'
      · obtain rfl := Option.some.inj (ha.named.symm.trans ha'.named)
        obtain rfl := Option.some.inj (hc.symm.trans hc')
        rfl
    case neg =>
      refine .joins_none (fun nodes hj => hp (joins_capture hj).left) ?_
      exact (h.captureCopy_other hc hp hcopy).mono hmono
  case neg =>
    have hnone : b = false → ∀ nodes, ¬Joins s s' (.capture capture) nodes := by
      rintro rfl nodes hj
      obtain ⟨-, ⟨_, -, hs', -⟩ | ⟨identity, messageId, account, ha, hc, hv, -⟩⟩ := joins_capture hj
      · cases hs.symm.trans hs'
      · exact hcopied ⟨identity, account, messageId, ha, hc, hv⟩
    have hcaptured := Mail.captured hs
    cases hcaptured
    case refused => exact .joins_none (hnone rfl) (.start (h.mono hmono))
    case copy    => exact absurd ⟨_, _, _, ‹_›, ‹_›⟩ hcopied
    case row identity account ha hc hrow =>
      by_cases hp : capture.provider = .imap
      case neg =>
        refine .joins_none (fun nodes hj => hp (joins_capture hj).left) ?_
        exact (h.captureRow_other hp hrow).mono hmono
      case pos =>
        cases b
        case false =>
          rw [captureRow_false hrow] at hnone ⊢
          exact .joins_none (hnone rfl) (.start (h.mono hmono))
        case true  =>
          refine .joins_some (.captured hp ha.named hs) (fun nodes' hj => ?_) (h.captureRow hf hp hp hrow)
          obtain ⟨-, ⟨identity', hi, -, rfl⟩ | ⟨_, _, _, -, -, -, hs', -⟩⟩ := joins_capture hj
          · obtain rfl := Option.some.inj (ha.named.symm.trans hi)
            rfl
          · cases hs.symm.trans hs'

theorem joins_read {scope : Scope} {m : Metadata} {ls : List Folder} {fresh : String}
    (hj : Joins s s' (.recordReconcileHeaders scope m ls fresh) nodes) : scope.provider = .imap ∧
      ∃ messageId row, (s.storedSourceMembership scope m.messageId).head? = some messageId ∧
        s.messages.get messageId = some row ∧ s.available RECORD row.candidate ∧
        nodes = headers messageId scope m.ids := by
  cases hj
  exact ⟨‹_›, _, _, ‹_›, ‹_›, ‹_›, rfl⟩

theorem Threaded.readHeaders {scope : Scope} {m : Metadata} {ls : List Folder} {fresh : String} (h : Threaded drawn c s)
    (hf : fresh ∉ drawn) (hs : s.recordReconcileHeaders scope m ls fresh = .ok s') :
    Stepped (drawn ++ [fresh]) (threadsAfter c s (.recordReconcileHeaders scope m ls fresh) s') s s' := by
  have hmono : drawn ⊆ drawn ++ [fresh] := List.subset_append_left _ _
  by_cases hp : scope.provider = .imap
  case neg =>
    refine .joins_none (fun nodes hj => hp (joins_read hj).left) ?_
    exact (h.recordReconcileHeaders_other hp hs).mono hmono
  case pos =>
    by_cases hrow : ∃ messageId row, (s.storedSourceMembership scope m.messageId).head? = some messageId ∧
        s.messages.get messageId = some row ∧ s.available RECORD row.candidate
    case pos =>
      obtain ⟨messageId, row, hm, hget, hv⟩ := hrow
      refine .joins_some (.read hp hm hget hv hs) (fun nodes' hj => ?_) (h.recordReconcileHeaders hf hp hm hget hv hs)
      obtain ⟨-, messageId', row', hm', -, -, rfl⟩ := joins_read hj
      obtain rfl := Option.some.inj (hm.symm.trans hm')
      rfl
    case neg =>
      have hnone : ∀ nodes, ¬Joins s s' (.recordReconcileHeaders scope m ls fresh) nodes := by
        intro nodes hj
        obtain ⟨-, messageId, row, hm, hget, hv, -⟩ := joins_read hj
        exact hrow ⟨messageId, row, hm, hget, hv⟩
      have heq : s' = s := by
        unfold Store.recordReconcileHeaders at hs
        cases hm : (s.storedSourceMembership scope m.messageId).head? <;> simp only [hm] at hs
        case none           => exact (pure_eq_ok.mp hs).symm
        case some messageId =>
          split at hs
          case h_1              => exact (pure_eq_ok.mp hs).symm
          case h_2 row hfilter =>
            obtain ⟨hget, hv⟩ := Option.filter_eq_some_iff.mp hfilter
            exact absurd ⟨messageId, row, hm, hget, hv⟩ hrow
      rw [heq] at hnone ⊢
      exact .joins_none hnone (.start (h.mono hmono))

-- Every transaction keeps the threads in order, and makes of them what it is said to make.
theorem Threaded.step (h : Threaded drawn c s) (hf : ∀ key ∈ a.drawn, key ∉ drawn) (hs : step s a = .ok s') :
    Stepped (drawn ++ a.drawn) (threadsAfter c s a s') s s' := by
  cases a
  case capture capture =>
    obtain ⟨⟨_, b⟩, hc, rfl⟩ := map_eq_ok.mp hs
    exact h.capture (hf _ (List.mem_singleton_self _)) hc
  case recordReconcileHeaders scope m ls fresh => exact h.readHeaders (hf _ (List.mem_singleton_self _)) hs
  all_goals
    change Stepped (drawn ++ []) _ _ _
    rw [List.append_nil]
  case tick =>
    cases pure_eq_ok.mp hs
    exact .joins_none nofun ((Advance.start h).still (.of_tables rfl rfl rfl rfl))
  case recordMessageLocation => exact .joins_none nofun (h.recordMessageLocation hs)
  case reconcileMailboxIdentity =>
    exact .joins_none nofun ((Advance.start h).still (h.still_reconcileMailboxIdentity hs))
  case recordBody =>
    cases pure_eq_ok.mp hs
    exact .joins_none nofun ((Advance.start h).still (still_recordBody ..))
  case process =>
    cases pure_eq_ok.mp hs
    exact .joins_none nofun ((Advance.start h).still (still_process ..))
  case recomputeDerived =>
    cases pure_eq_ok.mp hs
    exact .joins_none nofun ((Advance.start h).still (.of_tables rfl rfl rfl rfl))
  case accept =>
    obtain ⟨_, hx, rfl⟩ := map_eq_ok.mp hs
    exact .joins_none nofun ((Advance.start h).still (still_acceptInTransaction hx))
  case acceptUnfollowUnits =>
    obtain ⟨_, hx, rfl⟩ := map_eq_ok.mp hs
    exact .joins_none nofun ((Advance.start h).still (still_acceptUnfollowUnits hx))
  case resume => exact .prunes nofun h (prunes_resume hs)
  case status =>
    obtain ⟨_, _, rfl⟩ := map_eq_ok.mp hs
    exact .joins_none nofun (.start h)
  case retire => exact .joins_none nofun ((Advance.start h).still (still_retire hs))
  case purgeMessages =>
    cases pure_eq_ok.mp hs
    exact .prunes nofun h (prunes_deleteMessages s _)
  case purgeSuppressed =>
    cases pure_eq_ok.mp hs
    exact .joins_none nofun ((Advance.start h).still (.of_tables rfl rfl rfl rfl))

end Steps

section Runs

variable [Codec] {s s' : Store} {a : Action} {as : List Action} {drawn : List String} {c : Components Node}
  {nodes : Set Node}

omit [Codec] in
theorem threaded_empty (hm : s.messages = ∅) (hl : s.locations = ∅) (ht : s.threadIds = ∅) (ha : s.aliases = ∅) :
    Threaded [] .empty s := by
  have hseat : ∀ id, s.seat id = none := by
    intro id
    rw [Store.seat, hm, Table.get_empty, Option.map_none]
  constructor
  case captured   =>
    intro id x hx
    cases (hseat id).symm.trans hx
  case located    => exact fun l hmem => absurd (hl ▸ hmem) (Table.not_mem_empty l)
  case keyed      =>
    intro id x hx
    cases (hseat id).symm.trans hx
  case account    =>
    intro id x _ _ _ hx
    cases (hseat id).symm.trans hx
  case anchored   => exact fun t hmem => absurd (ht ▸ hmem) (Table.not_mem_empty t)
  case registered =>
    intro id x hx
    cases (hseat id).symm.trans hx
  case retired    => exact fun a hmem => absurd (ha ▸ hmem) (Table.not_mem_empty a)
  case together   =>
    refine Components.labelled_empty fun x => ?_
    cases x
    case row id     => rw [Store.label, hseat, Option.bind_none]
    case id sc rfcId => rw [Store.label, ht, Table.get_empty, Option.map_none]

theorem joins_ok (h : Joins s s' a nodes) : step s a = .ok s' := by
  cases h
  case captured => exact map_eq_ok.mpr ⟨_, ‹_›, rfl⟩
  case copied   => exact map_eq_ok.mpr ⟨_, ‹_›, rfl⟩
  case read     => assumption

theorem Threaded.next (h : Threaded drawn c s) (hf : ∀ key ∈ a.drawn, key ∉ drawn) :
    Stepped (drawn ++ a.drawn) (threadsAfter c s a (machine.next s a)) s (machine.next s a) := by
  cases hs : machine.step s a
  case ok s'   =>
    rw [Machine.next_of_ok hs]
    exact h.step hf hs
  case error e =>
    rw [Machine.next_of_error hs]
    refine .joins_none (fun nodes hj => ?_) (.start (h.mono (List.subset_append_left _ _)))
    cases hs.symm.trans (joins_ok hj)

theorem Threaded.run (h : Threaded drawn c s) (hd : (drawn ++ as.flatMap Action.drawn).Nodup) :
    Threaded (drawn ++ as.flatMap Action.drawn) (threadsOf s c as) (machine.run s as) := by
  induction as generalizing s c drawn
  case nil          => rwa [List.flatMap_nil, List.append_nil]
  case cons a as ih =>
    rw [List.flatMap_cons, ← List.append_assoc] at hd ⊢
    have hf : ∀ key ∈ a.drawn, key ∉ drawn := by
      intro key hkey hmem
      exact (List.nodup_append.mp (List.nodup_append.mp hd).left).right.right key hmem key hkey rfl
    exact ih (h.next hf).threaded hd

omit [Codec] in
theorem Stepped.leads {id old key : String} {x : Seat} (hs : Stepped drawn c s s') (hx : s.seat id = some x)
    (hc : x.Carries key) (hl : s.Leads old key) (hstored : (s'.messages.get id).isSome) :
    ∃ y key', s'.seat id = some y ∧ y.Carries key' ∧ s'.Leads old key' := by
  obtain hf | hp := hs.keys
  · exact hf id x key old hx hc hl
  · have hy := hp.seat_mono hx hstored
    refine ⟨x, key, hy, hc, hl.imp_right fun hget => ?_⟩
    exact Table.get_of_mem ((hp.aliases _).mpr ⟨Table.mem_of_get hget, id, x, hy, hc⟩)

-- The key that a message has had leads to the one it has, as long as it is stored.
theorem Threaded.leads_run {id old key : String} {x : Seat} (h : Threaded drawn c s)
    (hd : (drawn ++ as.flatMap Action.drawn).Nodup) (hx : s.seat id = some x) (hc : x.Carries key)
    (hl : s.Leads old key) (hstored : machine.Always (fun s => (s.messages.get id).isSome) s as) :
    ∃ y key', (machine.run s as).seat id = some y ∧ y.Carries key' ∧ (machine.run s as).Leads old key' := by
  induction as generalizing s c drawn x key
  case nil          => exact ⟨x, key, hx, hc, hl⟩
  case cons a as ih =>
    rw [List.flatMap_cons, ← List.append_assoc] at hd
    have hf : ∀ key ∈ a.drawn, key ∉ drawn := by
      intro key hkey hmem
      exact (List.nodup_append.mp (List.nodup_append.mp hd).left).right.right key hmem key hkey rfl
    have hnext := h.next hf
    obtain ⟨y, key', hy, hc', hl'⟩ := hnext.leads hx hc hl hstored.right.head
    exact ih hnext.threaded hd hy hc' hl' hstored.right

end Runs

section Theorem

variable [Codec]

-- In every run from a store without mail, the messages that have the same key, and the ids that are registered for it,
-- are those that the headers have joined, as long as one of the messages is stored. What is registered is of a thread
-- with a message, and a key that has been given up leads to such a thread in one step.
theorem threads_of_run {s : Store} {as : List Action} (hm : s.messages = ∅) (hl : s.locations = ∅)
    (ht : s.threadIds = ∅) (ha : s.aliases = ∅) (hd : (as.flatMap Action.drawn).Nodup) :
    (threadsOf s .empty as).Labelled (machine.run s as).label ∧
      (∀ m ∈ (machine.run s as).messages, m.provider = .imap → m.threadKey.isSome) ∧
      (∀ t ∈ (machine.run s as).threadIds, ∃ m ∈ (machine.run s as).messages,
        m.provider = .imap ∧ m.accountId = t.scope.accountId ∧ m.threadKey = some t.threadKey) ∧
      ∀ a ∈ (machine.run s as).aliases,
        (∃ m ∈ (machine.run s as).messages, m.provider = .imap ∧ m.threadKey = some a.survivorKey) ∧
        ∀ m ∈ (machine.run s as).messages, m.provider = .imap → m.threadKey ≠ some a.oldKey := by
  have h : Threaded (as.flatMap Action.drawn) (threadsOf s .empty as) (machine.run s as) :=
    (threaded_empty hm hl ht ha).run hd
  refine ⟨h.together, fun m hmem hp => ?_, fun t hmem => ?_, fun a hmem => ⟨?_, fun m hm hp hk => ?_⟩⟩
  · obtain ⟨key, -, hk⟩ := h.keyed _ _ (seat_of_mem hmem) hp
    exact Option.isSome_iff_exists.mpr ⟨key, hk⟩
  · obtain ⟨-, id, x, hx, hc, hacc⟩ := h.anchored t hmem
    obtain ⟨m, hm, -, rfl⟩ := exists_mem_of_seat hx
    exact ⟨m, hm, hc.left, hacc, hc.right⟩
  · obtain ⟨-, ⟨id, x, hx, hc⟩, -⟩ := h.retired a hmem
    obtain ⟨m, hm, -, rfl⟩ := exists_mem_of_seat hx
    exact ⟨m, hm, hc.left, hc.right⟩
  · exact (h.retired a hmem).right.right ⟨m.messageId, m.seat, seat_of_mem hm, hp, hk⟩

end Theorem

namespace Sample

-- A mailbox of IMAP, without mail.
def mailbox : Store := { mail with
  accounts := Table.put ∅ { account with provider := .imap }
}

def mailed (messageId : String) (replyIds : List String) : Capture := { letter with
  messageId    := messageId
  provider     := .imap
  rfcMessageId := some ("<" ++ messageId ++ "@sender>")
  replyIds     := replyIds
  fresh        := "thread of " ++ messageId
}

-- Two letters, an answer to both, and the end of the first one.
def correspondence : List Action := [
  .capture (mailed "first" []),
  .capture (mailed "second" []),
  .capture (mailed "answer" ["<first@sender>", "<second@sender>"]),
  .purgeMessages ["first"] fun _ => true
]

end Sample

open Sample in
-- The answer is in the thread of the second letter.
theorem threads_of_run_correspondence :
    (threadsOf mailbox .empty correspondence).Together (.row "second") (.row "answer") := by
  have hd : (correspondence.flatMap Action.drawn).Nodup := by decide
  have hm : mailbox.messages = ∅ := rfl
  have h := threads_of_run hm rfl rfl rfl hd
  refine (h.left _ _).mpr ⟨"thread of first", ?_⟩
  decide +kernel

end Mail
