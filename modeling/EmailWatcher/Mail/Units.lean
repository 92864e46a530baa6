import EmailWatcher.Mail.Receipts

-- The rows of a logical message stay together, and with the targets that were frozen from them.
namespace Mail

open Transaction Store Relation

-- The two targets were frozen from rows of one unit.
structure Target.SameUnit (t t' : Target) : Prop where
  intent  : t'.intentId = t.intentId
  logical : t'.logicalTargetId = t.logicalTargetId
  pending : t'.state = .pending

structure Units (ms : Table Message) (ts : Table Target) : Prop where
  -- A copy is a copy of a stored message, which is no copy itself.
  closed : ∀ m ∈ ms, ∀ c, m.logicalOf = some c → ∃ r ∈ ms, r.messageId = c ∧ r.logicalOf = none
  -- A row without an identity has never had one.
  legacy : ∀ m ∈ ms, m.mailboxIdentityKey = none → ∀ t ∈ ts, t.messageId = m.messageId →
    t.storedIdentityKey = none
  -- A unit is frozen as a whole. Only a canonical row may have got an identity since.
  whole : ∀ t ∈ ts, t.state = .pending → ∀ m ∈ ms, t.isRow m → ∀ x ∈ ms,
    x.canonical = m.canonical →
    (∃ t' ∈ ts, t.SameUnit t' ∧ t'.isRow x) ∨ (x.logicalOf = none ∧ x.mailboxIdentityKey ≠ none)

theorem Message.canonical_eq {m : Message} {c : String} :
    m.canonical = c ↔ m.logicalOf = some c ∨ m.logicalOf = none ∧ m.messageId = c := by
  unfold Message.canonical
  cases m.logicalOf <;> simp

namespace Units

variable {ms ms' : Table Message} {ts ts' : Table Target} {m x : Message} {t : Target}

-- A message of which there is a copy is canonical.
theorem canonical_of_copy (h : Units ms ts) (hm : m ∈ ms) (hx : x ∈ ms)
    (hl : x.logicalOf = some m.messageId) : m.logicalOf = none := by
  obtain ⟨r, hr, hk, hn⟩ := h.closed x hx _ hl
  rwa [← Table.eq_of_key_eq hr hm hk]

theorem sub (h : Units ms ts) (hm : ∀ m ∈ ms', m ∈ ms)
    (hp : ∀ m ∈ ms', ∀ c, m.logicalOf = some c → ∀ r ∈ ms, r.messageId = c → r ∈ ms') :
    Units ms' ts where
  closed m hm' c hc :=
    have ⟨r, hr, hk, hn⟩ := h.closed m (hm m hm') c hc
    ⟨r, hp m hm' c hc r hr hk, hk, hn⟩
  legacy m hm' := h.legacy m (hm m hm')
  whole t ht hs m hm' hi x hx := h.whole t ht hs m (hm m hm') hi x (hm x hx)

section RowStep

theorem touch {p : Message → Bool} {f : Message → Message} {hf} (h : Units ms ts)
    (hp : ∀ m, (f m).place = m.place) : Units (ms.update p f hf) ts := by
  have hb : ∀ x ∈ ms.update p f hf, ∃ y ∈ ms, x.place = y.place := by
    intro x hx
    obtain ⟨y, hy, he⟩ := Table.mem_update.mp hx
    refine ⟨y, hy, ?_⟩
    rw [← he]
    split
    case isTrue  => exact hp y
    case isFalse => rfl
  have hf' : ∀ y ∈ ms, ∃ x ∈ ms.update p f hf, x.place = y.place := by
    intro y hy
    refine ⟨_, Table.mem_update.mpr ⟨y, hy, rfl⟩, ?_⟩
    split
    case isTrue  => exact hp y
    case isFalse => rfl
  simp only [Message.place, Place.mk.injEq] at hb hf'
  constructor
  case closed =>
    intro x hx c hc
    obtain ⟨y, hy, he⟩ := hb x hx
    obtain ⟨r, hr, hk, hn⟩ := h.closed y hy c (by rw [← he.2.2.2.2.2, hc])
    obtain ⟨r', hr', he'⟩ := hf' r hr
    exact ⟨r', hr', he'.1.trans hk, he'.2.2.2.2.2.trans hn⟩
  case legacy =>
    intro x hx hi t ht hk
    obtain ⟨y, hy, he⟩ := hb x hx
    exact h.legacy y hy (he.2.2.2.1 ▸ hi) t ht (hk.trans he.1)
  case whole =>
    intro t ht hs x hx hi z hz hc
    obtain ⟨y, hy, he⟩ := hb x hx
    obtain ⟨w, hw, he'⟩ := hb z hz
    have := h.whole t ht hs y hy
      (by simpa [Target.isRow, he] using hi) w hw
      (by simpa [Message.canonical, he, he'] using hc)
    simpa [Target.isRow, he'] using this

theorem mem_setIdentity {s : Store} {id identity : String} :
    x ∈ (s.setIdentity id identity).messages ↔ ∃ y ∈ s.messages,
      (if y.messageId = id then { y with mailboxIdentityKey := some identity } else y) = x := by
  simp [setIdentity, Table.mem_update]

theorem identify {s : Store} {id identity : String} (h : Units s.messages ts)
    (hu : Unbound s.messages id m) : Units (s.setIdentity id identity).messages ts := by
  have hk : m.messageId = id := Table.key_of_get hu.row
  have hm := Table.mem_of_get hu.row
  -- A row of the new table is a row of the old one, or the one that got its identity.
  have hb : ∀ x ∈ (s.setIdentity id identity).messages,
      x ∈ s.messages ∨ x = { m with mailboxIdentityKey := some identity } := by
    intro x hx
    obtain ⟨y, hy, he⟩ := mem_setIdentity.mp hx
    subst he
    split
    case isFalse     => exact .inl hy
    case isTrue hy'  => exact .inr <| by rw [Table.eq_of_key_eq hy hm (hy'.trans hk.symm)]
  have hf : ∀ y ∈ s.messages, ∃ x ∈ (s.setIdentity id identity).messages,
      x.messageId = y.messageId ∧ x.logicalOf = y.logicalOf := by
    intro y hy
    refine ⟨_, mem_setIdentity.mpr ⟨y, hy, rfl⟩, ?_⟩
    split <;> exact ⟨rfl, rfl⟩
  have hc : ∀ x ∈ (s.setIdentity id identity).messages, ∃ y ∈ s.messages,
      x.messageId = y.messageId ∧ x.logicalOf = y.logicalOf := by
    intro x hx
    cases hb x hx
    case inl hx => exact ⟨x, hx, rfl, rfl⟩
    case inr hx => exact ⟨m, hm, by simp [hx]⟩
  constructor
  case closed =>
    intro x hx c hl
    obtain ⟨y, hy, _, hyl⟩ := hc x hx
    obtain ⟨r, hr, hrk, hrn⟩ := h.closed y hy c (hyl ▸ hl)
    obtain ⟨r', hr', hk', hl'⟩ := hf r hr
    exact ⟨r', hr', hk'.trans hrk, hl'.trans hrn⟩
  case legacy =>
    intro x hx hi
    cases hb x hx
    case inl hx => exact h.legacy x hx hi
    case inr hx => simp [hx] at hi
  case whole =>
    intro t ht hs x hx hi z hz hcan
    cases hb x hx
    case inr hx =>
      -- No target was frozen from the row with its new identity.
      subst hx
      simp only [Target.isRow, Bool.and_eq_true, decide_eq_true_eq] at hi
      have hn := h.legacy m hm hu.identity t ht hi.left.left.left.left
      rw [hn] at hi
      exact absurd hi.left.right (Option.some_ne_none _).symm
    case inl hx =>
      cases hb z hz
      case inl hz => exact h.whole t ht hs x hx hi z hz hcan
      case inr hz =>
        subst hz
        exact .inr ⟨hu.canonical, Option.some_ne_none _⟩

end RowStep

end Units

-- A target knows a row by its binding.
theorem Target.isRow_congr {t : Target} {m x : Message} (h : m.candidate = x.candidate) :
    t.isRow m = t.isRow x := by
  simp only [Message.candidate, Candidate.mk.injEq, Option.some.injEq] at h
  simp [Target.isRow, h]

section Promotion

-- What promoting a successor makes of a row.
def promoted (root successor : String) (m : Message) : Message :=
  let m := if m.messageId = successor then { m with logicalOf := none } else m
  if m.messageId = root ∨ m.logicalOf = some root then { m with logicalOf := some successor } else m

theorem mem_promote {s : Store} {root successor : String} {x : Message} :
    x ∈ (s.promote root successor).messages ↔ ∃ y ∈ s.messages, promoted root successor y = x := by
  have hr : (s.promote root successor).messages.rows =
      s.messages.rows.map (promoted root successor) := by
    simp only [Store.promote, Table.update, List.map_map]
    refine List.map_congr_left fun m _ => ?_
    simp [promoted]
  rw [← Table.mem_rows, hr, List.mem_map]
  rfl

@[simp]
theorem candidate_promoted (root successor : String) (m : Message) :
    (promoted root successor m).candidate = m.candidate := by
  unfold promoted
  dsimp only
  split <;> split <;> rfl

theorem messageId_promoted (root successor : String) (m : Message) :
    (promoted root successor m).messageId = m.messageId := by
  unfold promoted
  dsimp only
  split <;> split <;> rfl

theorem mailboxIdentityKey_promoted (root successor : String) (m : Message) :
    (promoted root successor m).mailboxIdentityKey = m.mailboxIdentityKey := by
  unfold promoted
  dsimp only
  split <;> split <;> rfl

variable {ms : Table Message} {ts : Table Target} {root successor : String} {m c y : Message}

namespace Promotion

theorem eq_root (hp : Promotion ms root successor m c) (hy : y ∈ ms) (h : y.messageId = root) :
    y = m :=
  Table.eq_of_key_eq hy (Table.mem_of_get hp.unbound.row) <|
    h.trans (Table.key_of_get hp.unbound.row).symm

theorem eq_successor (hp : Promotion ms root successor m c) (hy : y ∈ ms)
    (h : y.messageId = successor) : y = c :=
  Table.eq_of_key_eq hy (Table.mem_of_get hp.row) <| h.trans (Table.key_of_get hp.row).symm

theorem ne (hp : Promotion ms root successor m c) : successor ≠ root := by
  intro h
  have hc := hp.eq_root (Table.mem_of_get hp.row) <| (Table.key_of_get hp.row).trans h
  have hl := hp.copy
  simp [hc, hp.unbound.canonical] at hl

-- The successor has no unit of its own.
theorem canonical_ne (hp : Promotion ms root successor m c) (h : Units ms ts) (hy : y ∈ ms) :
    y.canonical ≠ successor := by
  intro hc
  have hk : c.messageId = successor := Table.key_of_get hp.row
  cases Message.canonical_eq.mp hc
  case inl hl =>
    have hn := h.canonical_of_copy (Table.mem_of_get hp.row) hy (hk ▸ hl)
    simp [hp.copy] at hn
  case inr hl => simp [hp.eq_successor hy hl.right, hp.copy] at hl

-- The unit of the root becomes the unit of the successor, and the others stay as they are.
theorem canonical_promoted (hp : Promotion ms root successor m c) (hy : y ∈ ms) :
    (promoted root successor y).canonical =
    if y.canonical = root then successor else y.canonical := by
  have hck : c.messageId = successor := Table.key_of_get hp.row
  have hmk : m.messageId = root := Table.key_of_get hp.unbound.row
  have hne := hp.ne
  by_cases hys : y.messageId = successor
  case pos =>
    rw [hp.eq_successor hy hys]
    simp [promoted, Message.canonical, hck, hp.copy, hne]
  case neg =>
    by_cases hyr : y.messageId = root
    case pos =>
      rw [hp.eq_root hy hyr]
      simp [promoted, Message.canonical, hmk, hp.unbound.canonical, hne.symm]
    case neg =>
      cases hyl : y.logicalOf
      case none   => simp [promoted, Message.canonical, hys, hyr, hyl]
      case some d => by_cases d = root <;> simp_all [promoted, Message.canonical]

theorem logicalOf_promoted (hl : y.logicalOf = none) (hn : y.messageId ≠ root) :
    (promoted root successor y).logicalOf = none := by
  unfold promoted
  dsimp only
  split <;> simp [hl, hn]

theorem logicalOf_successor (hp : Promotion ms root successor m c) :
    (promoted root successor c).logicalOf = none := by
  have hck : c.messageId = successor := Table.key_of_get hp.row
  simp [promoted, hck, hp.ne]

end Promotion

theorem Units.promote {s : Store} (h : Units s.messages ts)
    (hp : Promotion s.messages root successor m c) :
    Units (s.promote root successor).messages ts := by
  constructor
  case closed =>
    intro x hx d hd
    obtain ⟨y, hy, he⟩ := mem_promote.mp hx
    subst he
    have hc := hp.canonical_promoted hy
    rw [Message.canonical_eq.mpr (.inl hd)] at hc
    split at hc
    case isTrue =>
      refine ⟨_, mem_promote.mpr ⟨c, Table.mem_of_get hp.row, rfl⟩, ?_, hp.logicalOf_successor⟩
      rw [messageId_promoted, hc]
      exact Table.key_of_get hp.row
    case isFalse hr =>
      cases Message.canonical_eq.mp hc.symm
      case inr hl =>
        rw [Promotion.logicalOf_promoted hl.left (by rw [hl.right, hc]; exact hr)] at hd
        exact absurd hd.symm (Option.some_ne_none _)
      case inl hl =>
        obtain ⟨r, hr', hk, hn⟩ := h.closed y hy d hl
        refine ⟨_, mem_promote.mpr ⟨r, hr', rfl⟩, by rw [messageId_promoted, hk], ?_⟩
        exact Promotion.logicalOf_promoted hn (by rw [hk, hc]; exact hr)
  case legacy =>
    intro x hx hi t ht hk
    obtain ⟨y, hy, he⟩ := mem_promote.mp hx
    subst he
    rw [mailboxIdentityKey_promoted] at hi
    rw [messageId_promoted] at hk
    exact h.legacy y hy hi t ht hk
  case whole =>
    intro t ht hs x hx hi z hz hc
    obtain ⟨y, hy, he⟩ := mem_promote.mp hx
    obtain ⟨w, hw, hew⟩ := mem_promote.mp hz
    subst he hew
    rw [Target.isRow_congr (candidate_promoted ..)] at hi
    have hyw : w.canonical = y.canonical := by
      rw [hp.canonical_promoted hy, hp.canonical_promoted hw] at hc
      have := hp.canonical_ne h hy
      have := hp.canonical_ne h hw
      split at hc <;> split at hc <;> simp_all
    cases h.whole t ht hs y hy hi w hw hyw
    case inl ht' =>
      obtain ⟨t', ht', hu, hr⟩ := ht'
      exact .inl ⟨t', ht', hu, by rwa [Target.isRow_congr (candidate_promoted ..)]⟩
    case inr hn =>
      refine .inr ⟨Promotion.logicalOf_promoted hn.left ?_, ?_⟩
      · intro hwr
        exact hn.right <| hp.eq_root hw hwr ▸ hp.unbound.identity
      · rw [mailboxIdentityKey_promoted]
        exact hn.right

end Promotion

namespace Units

variable {ms ms' : Table Message} {ts ts' : Table Target} {m x : Message}

theorem insert (h : Units ms ts) (hn : ms.get m.messageId = none)
    (hi : m.mailboxIdentityKey.isSome) (hl : m.logicalOf = none) : Units (ms.put m) ts := by
  have hfresh : ∀ x ∈ ms, x.messageId ≠ m.messageId := Table.get_eq_none.mp hn
  have hmem : ∀ x, x ∈ ms.put m ↔ x = m ∨ x ∈ ms := by
    intro x
    rw [Table.mem_put]
    refine or_congr_right ⟨And.left, fun hx => ⟨hx, hfresh x hx⟩⟩
  have hmc : m.canonical = m.messageId := Message.canonical_eq.mpr <| .inr ⟨hl, rfl⟩
  have halone : ∀ x ∈ ms, x.canonical ≠ m.messageId := by
    intro x hx hc
    cases Message.canonical_eq.mp hc
    case inr hc => exact hfresh x hx hc.right
    case inl hc =>
      obtain ⟨r, hr, hk, _⟩ := h.closed x hx _ hc
      exact hfresh r hr hk
  constructor
  case closed =>
    intro x hx c hc
    cases (hmem x).mp hx
    case inl hx => simp [hx, hl] at hc
    case inr hx =>
      obtain ⟨r, hr, hk⟩ := h.closed x hx c hc
      exact ⟨r, (hmem r).mpr <| .inr hr, hk⟩
  case legacy =>
    intro x hx hx'
    cases (hmem x).mp hx
    case inl hx => simp [← hx, hx'] at hi
    case inr hx => exact h.legacy x hx hx'
  case whole =>
    intro t ht hs x hx hr z hz hc
    cases (hmem x).mp hx
    case inl hx =>
      cases (hmem z).mp hz
      case inl hz => exact .inl ⟨t, ht, ⟨rfl, rfl, hs⟩, by rwa [hz, ← hx]⟩
      case inr hz => exact absurd (hc.trans (hx ▸ hmc)) (halone z hz)
    case inr hx =>
      cases (hmem z).mp hz
      case inl hz => exact absurd (hc.symm.trans (hz ▸ hmc)) (halone x hx)
      case inr hz => exact h.whole t ht hs x hx hr z hz hc

theorem rowStep (h : Units ms ts) (hr : RowStep ms ms') : Units ms' ts := by
  cases hr
  case touch hp          => exact h.touch hp
  case identify hu       => exact h.identify hu
  case promote hp        => exact h.promote hp
  case insert hi hl hn   => exact h.insert hn hi hl

theorem rowSteps (h : Units ms ts) (hr : ReflTransGen RowStep ms ms') : Units ms' ts := by
  induction hr
  case refl            => exact h
  case tail _ hr ih    => exact ih.rowStep hr

end Units

section Deletion

variable {s : Store} {ts : Table Target} {ids : List String} {m r : Message}

theorem subset_withCopies (s : Store) (n : Nat) (ids : List String) : ids ⊆ s.withCopies n ids := by
  cases n
  case zero   => exact List.Subset.refl _
  case succ n => exact List.subset_append_left _ _

-- With copies of canonical messages only, a deletion reaches no further than to the copies.
theorem Units.mem_withCopies {id : String} {n : Nat} (h : Units s.messages ts)
    (hid : id ∈ s.withCopies n ids) :
    id ∈ ids ∨ ∃ m ∈ s.messages, m.messageId = id ∧ ∃ c ∈ ids, m.logicalOf = some c := by
  induction n generalizing ids
  case zero => exact .inl hid
  case succ n ih =>
    cases List.mem_append.mp hid
    case inl hid => exact .inl hid
    case inr hid =>
      have hcopy : ∀ c ∈ (s.messages.rows.filter (·.logicalOf.any (· ∈ ids))).map (·.messageId),
          ∃ m ∈ s.messages, m.messageId = c ∧ ∃ d ∈ ids, m.logicalOf = some d := by
        intro c hc
        obtain ⟨m, hm, hk⟩ := List.mem_map.mp hc
        obtain ⟨hm, hl⟩ := List.mem_filter.mp hm
        cases hd : m.logicalOf
        case none   => simp [hd] at hl
        case some d => exact ⟨m, hm, hk, d, by simpa [hd] using hl, hd⟩
      cases ih hid
      case inl hid => exact .inr <| hcopy id hid
      case inr hm =>
        -- A copy of a copy there is none.
        obtain ⟨m, hm, _, c, hc, hl⟩ := hm
        obtain ⟨r, hr, hk, d, _, hd⟩ := hcopy c hc
        rw [h.canonical_of_copy hr hm (hk ▸ hl)] at hd
        exact absurd hd.symm (Option.some_ne_none _)

theorem mem_withCopies_of_copy {n : Nat} {c : String} (hm : m ∈ s.messages) (hl : m.logicalOf = some c)
    (hc : c ∈ ids) : m.messageId ∈ s.withCopies (n + 1) ids := by
  refine List.mem_append_right _ <| subset_withCopies _ _ _ ?_
  exact List.mem_map.mpr ⟨m, List.mem_filter.mpr ⟨hm, by simp [hl, hc]⟩, rfl⟩

theorem Units.deleteMessages (h : Units s.messages ts) (ids : List String) :
    Units (s.deleteMessages ids).messages ts := by
  refine h.sub (fun m hm => (mem_deleteMessages.mp hm).left) ?_
  intro m hm c hl r hr hk
  obtain ⟨hm, hn⟩ := mem_deleteMessages.mp hm
  refine mem_deleteMessages.mpr ⟨hr, fun hd => hn ?_⟩
  have hlen : s.messages.rows.length = s.messages.rows.length - 1 + 1 := by
    have := List.length_pos_of_mem (Table.mem_rows.mpr hm)
    omega
  rw [hlen]
  cases h.mem_withCopies hd
  case inl hd => exact mem_withCopies_of_copy hm hl (hk ▸ hd)
  case inr hd =>
    obtain ⟨r', hr', hk', d, _, hd⟩ := hd
    rw [Table.eq_of_key_eq hr' hr hk', h.canonical_of_copy hr hm (hk ▸ hl)] at hd
    exact absurd hd.symm (Option.some_ne_none _)

-- What deleting one message deletes: the row and the copies of it.
theorem Units.deleted_of_not_mem {id : String} (h : Units s.messages ts) (hm : m ∈ s.messages)
    (hd : m ∉ (s.deleteMessages [id]).messages) : m.messageId = id ∨ m.logicalOf = some id := by
  have hmem : m.messageId ∈ s.withCopies s.messages.rows.length [id] := by
    by_contra hn
    exact hd <| mem_deleteMessages.mpr ⟨hm, hn⟩
  cases h.mem_withCopies hmem
  case inl hi => exact .inl <| by simpa using hi
  case inr hi =>
    obtain ⟨r, hr, hk, c, hc, hl⟩ := hi
    rw [Table.eq_of_key_eq hr hm hk] at hl
    exact .inr <| by simpa [hl] using hc

end Deletion

section Removal

variable {s s' : Store} {i : Intent} {t : Target} {m : Message} {unit : String × String}

-- The store `s'` is `s` without rows that the given targets were frozen from.
structure RemovesOnly (ts : List Target) (s s' : Store) : Prop where
  messages : ∀ m ∈ s'.messages, m ∈ s.messages
  frozen   : ∀ m ∈ s.messages, m ∉ s'.messages → ∃ t ∈ ts, t.isRow m

theorem mem_pendingTargets :
    t ∈ s.pendingTargets unit ↔
    t ∈ s.targets ∧ t.intentId = unit.fst ∧ t.logicalTargetId = unit.snd ∧ t.state = .pending := by
  simp [pendingTargets, Table.mem_rows, and_assoc]

theorem Units.removeTarget {ts : Table Target} {l : List Target} (kind : Kind)
    (h : Units s.messages ts) (ht : t ∈ ts) (hs : t.state = .pending)
    (hl : ∀ t' ∈ ts, t.SameUnit t' → t' ∈ l) :
    Units (s.removeTarget kind t).messages ts ∧ RemovesOnly l s (s.removeTarget kind t) := by
  unfold Store.removeTarget
  split
  case h_1 => exact ⟨h, fun _ => id, fun m hm hn => absurd hm hn⟩
  case h_2 row hrow =>
    obtain ⟨hg, hi⟩ := Option.filter_eq_some_iff.mp hrow
    have hr := Table.mem_of_get hg
    split
    case h_1 => exact ⟨h, fun _ => id, fun m hm hn => absurd hm hn⟩
    case h_2 =>
      refine ⟨h.deleteMessages _, fun m hm => (mem_deleteMessages.mp hm).left, fun m hm hn => ?_⟩
      cases h.deleted_of_not_mem hm hn
      case inl hk =>
        rw [Table.eq_of_key_eq hm hr hk]
        exact ⟨t, hl t ht ⟨rfl, rfl, hs⟩, hi⟩
      case inr hc =>
        -- The copies were frozen with the row.
        have hrc : row.canonical = row.messageId :=
          Message.canonical_eq.mpr <| .inr ⟨h.canonical_of_copy hr hm hc, rfl⟩
        have hmc : m.canonical = row.canonical := by
          rw [hrc]
          exact Message.canonical_eq.mpr <| .inl hc
        cases h.whole t ht hs row hr hi m hm hmc
        case inl ht' =>
          obtain ⟨t', ht', hu, hr'⟩ := ht'
          exact ⟨t', hl t' ht' hu, hr'⟩
        case inr hn =>
          rw [hn.left] at hc
          exact absurd hc.symm (Option.some_ne_none _)

theorem RemovesOnly.trans {l : List Target} {s₁ s₂ s₃ : Store} (h₁ : RemovesOnly l s₁ s₂)
    (h₂ : RemovesOnly l s₂ s₃) : RemovesOnly l s₁ s₃ where
  messages m hm := h₁.messages m <| h₂.messages m hm
  frozen m hm hn := by
    by_cases hm₂ : m ∈ s₂.messages
    case pos => exact h₂.frozen m hm₂ hn
    case neg => exact h₁.frozen m hm hm₂

theorem Units.removeTargets {ts : Table Target} {l : List Target} (kind : Kind) (l' : List Target)
    (h : Units s.messages ts)
    (hl : ∀ t ∈ l', t ∈ ts ∧ t.state = .pending ∧ ∀ t' ∈ ts, t.SameUnit t' → t' ∈ l) :
    Units (l'.foldl (Store.removeTarget kind) s).messages ts ∧
    RemovesOnly l s (l'.foldl (Store.removeTarget kind) s) := by
  induction l' generalizing s
  case nil => exact ⟨h, fun _ => id, fun m hm hn => absurd hm hn⟩
  case cons t l' ih =>
    obtain ⟨ht, hs, hu⟩ := hl t (by simp)
    obtain ⟨h₁, hr₁⟩ := h.removeTarget kind ht hs hu
    obtain ⟨h₂, hr₂⟩ := ih h₁ fun t' ht' => hl t' (by simp [ht'])
    exact ⟨h₂, hr₁.trans hr₂⟩

variable [Codec] {now : Instant}

theorem messages_suppressTargets (s : Store) (ts : List Target) (now : Instant) :
    (s.suppressTargets ts now).messages = s.messages := by
  unfold suppressTargets
  generalize (ts.map (·.sourceIdentities)).eraseDups.flatten = l
  induction l generalizing s
  case nil         => rfl
  case cons x l ih => exact (ih _).trans rfl

-- Completing a unit deletes rows that were frozen with it, and no others.
theorem Units.removed (h : Units s.messages s.targets) (i : Intent) (unit : String × String)
    (now : Instant) :
    Units (s.removed i unit now).messages s.targets ∧
    RemovesOnly (s.pendingTargets unit) s (s.removed i unit now) := by
  have hm : (if i.kind = .unfollow then s
      else s.suppressTargets (s.pendingTargets unit) now).messages = s.messages := by
    split
    case isTrue  => rfl
    case isFalse => exact messages_suppressTargets ..
  obtain ⟨hu, hr⟩ := Units.removeTargets (l := s.pendingTargets unit) i.kind (s.pendingTargets unit)
    (hm ▸ h) <| by
      intro t ht
      obtain ⟨ht, hi, hl, hs⟩ := mem_pendingTargets.mp ht
      refine ⟨ht, hs, fun t' ht' hu => ?_⟩
      exact mem_pendingTargets.mpr ⟨ht', hu.intent.trans hi, hu.logical.trans hl, hu.pending⟩
  exact ⟨hu, fun m hm' => hm ▸ hr.messages m hm', fun m hm' => hr.frozen m (hm ▸ hm')⟩

omit [Codec] in
theorem Units.settleTargets {ms : Table Message} (h : Units ms s.targets) :
    Units ms (s.settleTargets unit now).targets := by
  have hrow : ∀ (t : Target) (m : Message), (settled unit now t).isRow m = t.isRow m := by
    intro t m
    unfold settled
    split <;> rfl
  constructor
  case closed => exact h.closed
  case legacy =>
    intro m hm hi t ht hk
    obtain ⟨t', ht', he⟩ := mem_settleTargets.mp ht
    subst he
    have hk' : t'.messageId = m.messageId := by
      rw [← hk]
      unfold settled
      split <;> rfl
    rw [← h.legacy m hm hi t' ht' hk']
    unfold settled
    split <;> rfl
  case whole =>
    intro t ht hs m hm hr x hx hc
    obtain ⟨t₁, ht₁, he⟩ := mem_settleTargets.mp ht
    subst he
    -- A target that is still pending has not been settled, and neither has its unit.
    have hn : settled unit now t₁ = t₁ := by
      unfold settled at hs ⊢
      split
      case isFalse     => rfl
      case isTrue hset => simp [hset] at hs
    rw [hn] at hs hr
    refine (h.whole t₁ ht₁ hs m hm hr x hx hc).imp_left ?_
    rintro ⟨t', ht', hu, hr'⟩
    refine ⟨settled unit now t', mem_settleTargets.mpr ⟨t', ht', rfl⟩, ⟨?_, ?_, ?_⟩, by rwa [hrow]⟩
    · simpa using hu.intent
    · simpa using hu.logical
    · have hs' : (settled unit now t').state = (settled unit now t₁).state := by
        simp only [settled, hu.intent, hu.logical, hu.pending, hs]
        split
        case isTrue  => rfl
        case isFalse => exact hu.pending.trans hs.symm
      rw [hs', hn, hs]

theorem Units.completeUnit (h : Units s.messages s.targets)
    (hc : s.completeUnit unit now = .ok s') :
    Units s'.messages s'.targets ∧ RemovesOnly (s.pendingTargets unit) s s' := by
  cases completeUnit_ok hc
  case inl hs =>
    rw [hs.right]
    exact ⟨h, fun _ => id, fun m hm hn => absurd hm hn⟩
  case inr hs =>
    obtain ⟨i, _, hs⟩ := hs
    obtain ⟨hu, hr⟩ := h.removed i unit now
    have ht := (SameReceipts.removed s i unit now).targets
    subst hs
    exact ⟨Units.settleTargets (ht ▸ hu), hr.messages, hr.frozen⟩

end Removal

section Freeze

variable {s s' : Store} {ts : Table Target} {i : Intent} {m x : Message} {u : LogicalUnit}

theorem Units.mem_unit_rows (h : Units s.messages ts) (hm : m ∈ s.messages)
    (hu : s.logicalUnit m.messageId = some u) (hx : x ∈ s.messages) :
    x.messageId ∈ u.rows ↔ x.canonical = m.canonical := by
  have hg : s.messages.get m.messageId = some m := Table.get_of_mem hm
  simp only [logicalUnit, hg, Option.map_some, Option.some.injEq] at hu
  have hrows : x.messageId ∈ u.rows ↔ x ∈ s.members m.canonical := by
    rw [← hu]
    constructor
    · intro hr
      obtain ⟨y, hy, hk⟩ := List.mem_map.mp hr
      rwa [← Table.eq_of_key_eq (mem_members.mp hy).left hx hk]
    · exact fun hr => List.mem_map_of_mem hr
  rw [hrows, mem_members, Message.canonical_eq]
  constructor
  case mpr =>
    rintro (hl | hl)
    · exact ⟨hx, .inr hl⟩
    · exact ⟨hx, .inl hl.right⟩
  case mp =>
    rintro ⟨_, hk | hl⟩
    case inr => exact .inl hl
    case inl =>
      -- The row that a canonical id names is canonical.
      refine .inr ⟨?_, hk⟩
      cases hml : m.logicalOf
      case none =>
        have hmc : m.canonical = m.messageId := Message.canonical_eq.mpr <| .inr ⟨hml, rfl⟩
        rw [Table.eq_of_key_eq hx hm (hk.trans hmc), hml]
      case some d =>
        have hmc : m.canonical = d := Message.canonical_eq.mpr <| .inl hml
        exact h.canonical_of_copy hx hm (by rw [hml, hk, hmc])

theorem Units.freezeGroup {g : Binding × Table (String × LogicalUnit)}
    (h : Units s.messages s.targets) (hg : GroupOf s g) (hf : s.freezeGroup i g.snd = .ok s') :
    Units s'.messages s'.targets := by
  obtain ⟨is, ts, _, hs, ht⟩ := freezeGroup_ok hf
  subst hs
  have hmem : ∀ t, t ∈ ts ↔
      t ∈ s.targets ∨ ∃ u ∈ g.snd, ∃ m ∈ s.messages, m.messageId ∈ u.snd.rows ∧
        t = frozenTarget i u.fst u.snd.sources m := by
    intro t
    rw [← Table.mem_rows, ht, List.mem_append]
    refine or_congr_right ?_
    rw [List.mem_flatMap]
    refine exists_congr fun u => and_congr_right fun _ => ⟨mem_unitTargets, ?_⟩
    rintro ⟨m, hm, hk, rfl⟩
    have hgm : s.messages.get m.messageId = some m := Table.get_of_mem hm
    exact List.mem_filterMap.mpr ⟨m.messageId, hk, by simp [hgm]⟩
  constructor
  case closed => exact h.closed
  case legacy =>
    intro m hm hi t ht hk
    cases (hmem t).mp ht
    case inl ht => exact h.legacy m hm hi t ht hk
    case inr ht =>
      obtain ⟨u, _, r, hr, _, he⟩ := ht
      subst he
      rw [← Table.eq_of_key_eq hr hm hk] at hi
      exact hi
  case whole =>
    intro t ht hs m hm hr x hx hc
    cases (hmem t).mp ht
    case inl ht =>
      refine (h.whole t ht hs m hm hr x hx hc).imp_left ?_
      rintro ⟨t', ht', hu⟩
      exact ⟨t', (hmem t').mpr <| .inl ht', hu⟩
    case inr ht =>
      obtain ⟨u, hu, r, hr', hk, he⟩ := ht
      subst he
      obtain ⟨m₀, hm₀, hu₀⟩ := hg.units u hu
      simp only [Target.isRow, Bool.and_eq_true] at hr
      have hrm : r = m := Table.eq_of_key_eq hr' hm <| of_decide_eq_true hr.left.left.left.left
      have hx₀ : x.canonical = m₀.canonical := by
        rw [hc, ← hrm]
        exact (h.mem_unit_rows hm₀ hu₀ hr').mp hk
      refine .inl ⟨frozenTarget i u.fst u.snd.sources x, (hmem _).mpr <| .inr ?_, ⟨rfl, rfl, rfl⟩, ?_⟩
      · exact ⟨u, hu, x, hx, (h.mem_unit_rows hm₀ hu₀ hx).mpr hx₀, rfl⟩
      · simp [Target.isRow, frozenTarget]

-- The unit of a message depends on the messages and their locations only.
theorem GroupOf.congr {g : Binding × Table (String × LogicalUnit)} (hg : GroupOf s g)
    (hm : s'.messages = s.messages) (hl : s'.locations = s.locations) : GroupOf s' g where
  nonempty := hg.nonempty
  units u hu := by
    obtain ⟨m, hmem, hu⟩ := hg.units u hu
    refine ⟨m, hm ▸ hmem, ?_⟩
    simpa [logicalUnit, unitSources, locatedSources, members, hm, hl] using hu

theorem Units.freeze {key : Key} {kind : Kind} {ids : List String} {accepted : Instant}
    {uuid : Nat → String} (h : Units s.messages s.targets)
    (hf : s.freeze key kind ids accepted uuid = .ok s') :
    Units s'.messages s'.targets ∧ s'.messages = s.messages := by
  have hi : Units s'.messages s'.targets ∧ s'.messages = s.messages ∧
      s'.locations = s.locations := by
    refine foldlM_invariant (I := fun s' => Units s'.messages s'.targets ∧
      s'.messages = s.messages ∧ s'.locations = s.locations) ?_ ⟨h, rfl, rfl⟩ hf
    rintro s₁ ⟨g, n⟩ hm s₂ ⟨hu, hms, hls⟩ hg
    have hgo : GroupOf s g := GroupOf.of_mem <| List.fst_mem_of_mem_zipIdx hm
    obtain ⟨_, _, _, hs₂, _⟩ := freezeGroup_ok hg
    refine ⟨Units.freezeGroup hu (hgo.congr hms hls) hg, ?_, ?_⟩
    · rw [hs₂, ← hms]
    · rw [hs₂, ← hls]
  exact ⟨hi.left, hi.right.left⟩

end Freeze

section Effects

variable [Codec] {s s' : Store}

omit [Codec] in
theorem Units.dropRequest {key : Key} (h : Units s.messages s.targets) :
    Units (s.dropRequest key).messages (s.dropRequest key).targets where
  closed := h.closed
  legacy m hm hi t ht := h.legacy m hm hi t (Table.mem_delete.mp ht).left
  whole t ht hs m hm hr x hx hc := by
    obtain ⟨ht, hk⟩ := Table.mem_delete.mp ht
    refine (h.whole t ht hs m hm hr x hx hc).imp_left ?_
    rintro ⟨t', ht', hu, hr'⟩
    exact ⟨t', Table.mem_delete.mpr ⟨ht', hu.intent ▸ hk⟩, hu, hr'⟩

-- What completing units of a chunk does to the targets and to the rows that they were frozen from.
structure Completes (chunk : List (String × String)) (s s' : Store) : Prop where
  pending  : ∀ t ∈ s'.targets, t.state = .pending → t ∈ s.targets
  messages : ∀ m ∈ s'.messages, m ∈ s.messages
  frozen   : ∀ m ∈ s.messages, m ∉ s'.messages → ∃ t ∈ s.targets, t.state = .pending ∧
    (t.intentId, t.logicalTargetId) ∈ chunk ∧ t.isRow m

omit [Codec] in
theorem Completes.refl (chunk : List (String × String)) (s : Store) : Completes chunk s s where
  pending _ ht _ := ht
  messages _ hm  := hm
  frozen _ hm hn := absurd hm hn

omit [Codec] in
theorem Completes.trans {chunk : List (String × String)} {s₁ s₂ s₃ : Store}
    (h₁ : Completes chunk s₁ s₂) (h₂ : Completes chunk s₂ s₃) : Completes chunk s₁ s₃ where
  pending t ht hs := h₁.pending t (h₂.pending t ht hs) hs
  messages m hm   := h₁.messages m <| h₂.messages m hm
  frozen m hm hn := by
    by_cases hm₂ : m ∈ s₂.messages
    case neg => exact h₁.frozen m hm hm₂
    case pos =>
      obtain ⟨t, ht, hs, hr⟩ := h₂.frozen m hm₂ hn
      exact ⟨t, h₁.pending t ht hs, hs, hr⟩

theorem Completes.completeUnit {chunk : List (String × String)} {unit : String × String}
    {now : Instant} (h : Units s.messages s.targets) (hu : unit ∈ chunk)
    (hc : s.completeUnit unit now = .ok s') : Completes chunk s s' where
  pending t ht hs := by
    cases completeUnit_ok hc
    case inl he => exact he.right ▸ ht
    case inr he =>
      obtain ⟨i, _, he⟩ := he
      subst he
      obtain ⟨t', ht', he⟩ := mem_settleTargets.mp ht
      rw [(SameReceipts.removed s i unit now).targets] at ht'
      subst he
      unfold settled at hs ⊢
      split
      case isFalse     => exact ht'
      case isTrue hset => simp [hset] at hs
  messages := (h.completeUnit hc).right.messages
  frozen m hm hn := by
    obtain ⟨t, ht, hr⟩ := (h.completeUnit hc).right.frozen m hm hn
    obtain ⟨ht, hi, hl, hs⟩ := mem_pendingTargets.mp ht
    exact ⟨t, ht, hs, by rwa [hi, hl], hr⟩

-- A transaction that completes units deletes rows that were frozen with them, and no others.
theorem Units.resume {chunk : List (String × String)} {now : Instant}
    (h : Units s.messages s.targets) (hr : s.resume chunk now = .ok s') :
    Units s'.messages s'.targets ∧ Completes chunk s s' :=
  foldlM_guarded (I := fun s => Units s.messages s.targets) (.refl chunk) (fun _ _ _ => .trans)
    (fun _ _ hu _ h hc => ⟨(h.completeUnit hc).left, .completeUnit h hu hc⟩) h hr

theorem Units.step (h : Units s.messages s.targets) (he : Effect s s') :
    Units s'.messages s'.targets := by
  cases he
  case mail h'  => exact h'.targets ▸ h.rowSteps h'.messages
  case tick     => exact h
  case accept r ha =>
    obtain ⟨requests, _, _, _, hf⟩ := ha.frozen
    exact (Units.freeze (s := { s with requests := requests }) h hf).left
  case resume hr => exact (h.resume hr).left
  case retire hr =>
    refine foldlM_invariant (I := fun s => Units s.messages s.targets) ?_ h hr
    intro s₁ r _ s₂ h₁ hp
    cases retireRequest_ok hp
    case inl hs => exact hs ▸ h₁
    case inr hs => exact hs.left ▸ h₁.dropRequest
  case purgeMessages chunk expired =>
    have hd : Deletes s (s.purgeMessages chunk expired) := .deleteMessages ..
    exact hd.targets ▸ h.deleteMessages _
  case purgeSuppressed => exact h

end Effects

end Mail
