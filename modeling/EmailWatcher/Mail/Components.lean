import EmailWatcher.Library.Components
import EmailWatcher.Mail.Steps
import Mathlib.Data.List.Dedup

-- The threads of IMAP messages: which messages and ids belong together, and what their keys say of it.
namespace Mail

open Transaction Store

section Reference

-- A message, or an id that headers name.
inductive Node
  | row (messageId : String)
  | id  (scope : Scope) (rfcId : String)

-- A message with the ids that its headers name.
def headers (messageId : String) (scope : Scope) (ids : List String) : Set Node :=
  {x | x = .row messageId ∨ ∃ rfcId ∈ ids, x = .id scope rfcId}

variable [Codec]

-- What an action brings together: the message that it stores or has found, and the ids of the headers that it has read.
inductive Joins (s s' : Store) : Action → Set Node → Prop
  | captured {c : Capture} {identity : String} :
    c.provider = .imap → c.mailboxIdentityKey = some identity → s.capture c = .ok (s', true) →
    Joins s s' (.capture c) (headers c.messageId (c.scope identity) c.ids)
  | copied {c : Capture} {identity messageId : String} {account : Account} :
    c.provider = .imap → Admitted s c identity account → s.copied c identity = some messageId →
    s.messageAvailable RECORD messageId → s.capture c = .ok (s', false) →
    Joins s s' (.capture c) (headers messageId (c.scope identity) c.ids)
  | read {scope : Scope} {m : Metadata} {locations : List Folder} {fresh messageId : String} {row : Message} :
    scope.provider = .imap → (s.storedSourceMembership scope m.messageId).head? = some messageId →
    s.messages.get messageId = some row → s.available RECORD row.candidate →
    s.recordReconcileHeaders scope m locations fresh = .ok s' →
    Joins s s' (.recordReconcileHeaders scope m locations fresh) (headers messageId scope m.ids)

-- The messages that are stored.
def Store.rows (s : Store) : Set Node :=
  {x | ∃ messageId, x = .row messageId ∧ (s.messages.get messageId).isSome}

-- An id does not go away by itself.
def Store.stays (s : Store) : Set Node :=
  {x | ∀ messageId, x = .row messageId → (s.messages.get messageId).isSome}

-- The threads after an action, without their keys: headers join threads, and a thread goes with its last message.
def threadsAfter (c : Components Node) (s : Store) (a : Action) (s' : Store) : Components Node :=
  (c.unite {x | ∃ nodes, Joins s s' a nodes ∧ x ∈ nodes}).keep s'.stays s'.rows

def threadsOf : Store → Components Node → List Action → Components Node
  | _, c, []      => c
  | s, c, a :: as => threadsOf (machine.next s a) (threadsAfter c s a (machine.next s a)) as

-- The key that is drawn for an action.
def Action.drawn : Action → List String
  | .capture c                         => [c.fresh]
  | .recordReconcileHeaders _ _ _ fresh => [fresh]
  | _                                  => []

end Reference

section Seats

-- The columns of a row that its thread depends on.
structure Seat where
  provider           : Provider
  accountId          : String
  mailboxIdentityKey : Option String
  threadKey          : Option String
  rfcMessageId       : Option String
  logicalOf          : Option String

def Message.seat (m : Message) : Seat where
  provider           := m.provider
  accountId          := m.accountId
  mailboxIdentityKey := m.mailboxIdentityKey
  threadKey          := m.threadKey
  rfcMessageId       := m.rfcMessageId
  logicalOf          := m.logicalOf

def Store.seat (s : Store) (messageId : String) : Option Seat :=
  (s.messages.get messageId).map Message.seat

-- The key of a message or of an id.
def Store.label (s : Store) : Node → Option String
  | .row messageId  => (s.seat messageId).bind fun x => if x.provider = .imap then x.threadKey else none
  | .id scope rfcId => (s.threadIds.get (scope, rfcId)).map (·.threadKey)

def Seat.Carries (x : Seat) (key : String) : Prop :=
  x.provider = .imap ∧ x.threadKey = some key

-- Some message of the thread is stored.
def Store.Carries (s : Store) (key : String) : Prop :=
  ∃ messageId x, s.seat messageId = some x ∧ x.Carries key

variable {s : Store} {messageId key : String} {x : Seat}

theorem seat_of_mem {m : Message} (h : m ∈ s.messages) : s.seat m.messageId = some m.seat := by
  have hget : s.messages.get m.messageId = some m := Table.get_of_mem h
  rw [Store.seat, hget, Option.map_some]

theorem exists_mem_of_seat (h : s.seat messageId = some x) :
    ∃ m ∈ s.messages, m.messageId = messageId ∧ m.seat = x := by
  obtain ⟨m, hm, rfl⟩ := Option.map_eq_some_iff.mp h
  exact ⟨m, Table.mem_of_get hm, Table.key_of_get hm, rfl⟩

theorem label_row_eq_some : s.label (.row messageId) = some key ↔ ∃ x, s.seat messageId = some x ∧ x.Carries key := by
  rw [Store.label, Option.bind_eq_some_iff]
  refine exists_congr fun x => and_congr_right fun _ => ?_
  rw [Option.ite_none_right_eq_some, Seat.Carries]

theorem label_id_eq_some {scope : Scope} {rfcId : String} :
    s.label (.id scope rfcId) = some key ↔
      ∃ t ∈ s.threadIds, t.scope = scope ∧ t.rfcId = rfcId ∧ t.threadKey = key := by
  rw [Store.label, Option.map_eq_some_iff]
  constructor
  case mp =>
    rintro ⟨t, ht, rfl⟩
    have hkey := Table.key_of_get ht
    exact ⟨t, Table.mem_of_get ht, congrArg Prod.fst hkey, congrArg Prod.snd hkey, rfl⟩
  case mpr =>
    rintro ⟨t, ht, rfl, rfl, rfl⟩
    exact ⟨t, Table.get_of_mem ht, rfl⟩

theorem stored_of_seat (h : s.seat messageId = some x) : (s.messages.get messageId).isSome := by
  rw [Store.seat, Option.map_eq_some_iff] at h
  obtain ⟨m, hm, -⟩ := h
  rw [hm, Option.isSome_some]

end Seats

section Invariant

-- The keys of the threads are in order: drawn, of one account each, kept by a message, and known for its ids. A key
-- that has been given up leads to one that is in use.
structure Threaded (drawn : List String) (c : Components Node) (s : Store) : Prop where
  captured   : ∀ messageId x, s.seat messageId = some x → x.logicalOf = none ∧ x.mailboxIdentityKey.isSome
  located    : ∀ l ∈ s.locations, ∃ x, s.seat l.messageId = some x ∧ x.provider = l.provider ∧ x.accountId = l.accountId
  keyed      : ∀ messageId x, s.seat messageId = some x → x.provider = .imap → ∃ key ∈ drawn, x.threadKey = some key
  account    : ∀ messageId₁ x₁ messageId₂ x₂ key, s.seat messageId₁ = some x₁ → s.seat messageId₂ = some x₂ →
    x₁.Carries key → x₂.Carries key → x₁.accountId = x₂.accountId
  anchored   : ∀ t ∈ s.threadIds, t.scope.provider = .imap ∧
    ∃ messageId x, s.seat messageId = some x ∧ x.Carries t.threadKey ∧ x.accountId = t.scope.accountId
  registered : ∀ messageId x, s.seat messageId = some x → x.provider = .imap →
    ∀ identity rfcId, x.mailboxIdentityKey = some identity → x.rfcMessageId = some rfcId →
      ∃ t ∈ s.threadIds, t.scope = ⟨.imap, x.accountId, identity⟩ ∧ t.rfcId = rfcId ∧ x.threadKey = some t.threadKey
  retired    : ∀ a ∈ s.aliases, a.oldKey ∈ drawn ∧ s.Carries a.survivorKey ∧ ¬s.Carries a.oldKey
  together   : c.Labelled s.label

variable {drawn more : List String} {c : Components Node} {s s' : Store}

theorem Threaded.mono (h : Threaded drawn c s) (hs : drawn ⊆ more) : Threaded more c s where
  captured   := h.captured
  located    := h.located
  keyed      := by
    intro messageId x hx hp
    obtain ⟨key, hkey, hk⟩ := h.keyed messageId x hx hp
    exact ⟨key, hs hkey, hk⟩
  account    := h.account
  anchored   := h.anchored
  registered := h.registered
  retired    := by
    intro a ha
    obtain ⟨hd, hrest⟩ := h.retired a ha
    exact ⟨hs hd, hrest⟩
  together   := h.together

-- What does not write what a thread depends on keeps it.
structure Quiet (s s' : Store) : Prop where
  seat      : s'.seat = s.seat
  threadIds : s'.threadIds = s.threadIds
  aliases   : s'.aliases = s.aliases

structure Still (s s' : Store) : Prop extends Quiet s s' where
  locations : s'.locations = s.locations

theorem Still.refl (s : Store) : Still s s :=
  ⟨⟨rfl, rfl, rfl⟩, rfl⟩

theorem Still.trans {s₁ s₂ s₃ : Store} (h₁ : Still s₁ s₂) (h₂ : Still s₂ s₃) : Still s₁ s₃ where
  seat      := h₂.seat.trans h₁.seat
  threadIds := h₂.threadIds.trans h₁.threadIds
  aliases   := h₂.aliases.trans h₁.aliases
  locations := h₂.locations.trans h₁.locations

theorem Quiet.label (h : Quiet s s') : s'.label = s.label := by
  funext x
  cases x
  case row messageId  => rw [Store.label, Store.label, h.seat]
  case id scope rfcId => rw [Store.label, Store.label, h.threadIds]

theorem Quiet.carries (h : Quiet s s') (key : String) : s'.Carries key ↔ s.Carries key := by
  rw [Store.Carries, Store.Carries, h.seat]

theorem Threaded.quiet (h : Threaded drawn c s) (hq : Quiet s s')
    (hl : ∀ l ∈ s'.locations, ∃ x, s.seat l.messageId = some x ∧ x.provider = l.provider ∧ x.accountId = l.accountId) :
    Threaded drawn c s' where
  captured   := hq.seat ▸ h.captured
  located    := hq.seat ▸ hl
  keyed      := hq.seat ▸ h.keyed
  account    := hq.seat ▸ h.account
  anchored   := by rw [hq.seat, hq.threadIds]; exact h.anchored
  registered := by rw [hq.seat, hq.threadIds]; exact h.registered
  retired    := by
    intro a ha
    rw [hq.carries, hq.carries]
    exact h.retired a (hq.aliases ▸ ha)
  together   := hq.label ▸ h.together

-- Every thread has a message, so nothing goes as long as no message does.
theorem Threaded.keep_self (h : Threaded drawn c s) : (c.keep s.stays s.rows).Labelled s.label := by
  refine h.together.keep fun x key => ⟨fun hx => ?_, And.left⟩
  cases x
  case row messageId  =>
    obtain ⟨y, hy, -⟩ := label_row_eq_some.mp hx
    have hstored := stored_of_seat hy
    refine ⟨hx, ?_, _, ⟨messageId, rfl, hstored⟩, hx⟩
    rintro _ ⟨⟩
    exact hstored
  case id scope rfcId =>
    obtain ⟨t, ht, rfl, rfl, rfl⟩ := label_id_eq_some.mp hx
    obtain ⟨-, messageId, y, hy, hcarries, -⟩ := h.anchored t ht
    exact ⟨hx, nofun, _, ⟨messageId, rfl, stored_of_seat hy⟩, label_row_eq_some.mpr ⟨y, hy, hcarries⟩⟩

end Invariant

section Merge

variable {scope : Scope} {k key : String} {merged ids : List String} {x : Seat} {s s' : Store}

def Seat.rekey (scope : Scope) (k : String) (merged : List String) (x : Seat) : Seat :=
  if x.provider = scope.provider ∧ x.accountId = scope.accountId ∧ (∃ old ∈ merged, x.threadKey = some old) then
    { x with threadKey := some k }
  else x

def ThreadId.rekey (scope : Scope) (k : String) (merged : List String) (t : ThreadId) : ThreadId :=
  if t.scope.provider = scope.provider ∧ t.scope.accountId = scope.accountId ∧ t.threadKey ∈ merged then
    { t with threadKey := k }
  else t

def Alias.rekey (k : String) (merged : List String) (a : Alias) : Alias :=
  if a.survivorKey ∈ merged then { a with survivorKey := k } else a

theorem Seat.rekey_eq (scope : Scope) (k : String) (merged : List String) (x : Seat) :
    x.rekey scope k merged = { x with threadKey := (x.rekey scope k merged).threadKey } := by
  unfold Seat.rekey
  split <;> rfl

theorem Seat.rekey_rekey (hk : k ∉ merged) (old : String) (x : Seat) :
    (x.rekey scope k [old]).rekey scope k merged = x.rekey scope k (old :: merged) := by
  by_cases hs : x.provider = scope.provider ∧ x.accountId = scope.accountId
  case neg => simp [Seat.rekey, ← and_assoc, hs]
  case pos =>
    cases ht : x.threadKey
    case none     => simp [Seat.rekey, ht]
    case some key =>
      by_cases ho : key = old
      case pos => simp [Seat.rekey, ht, hs, ho, hk]
      case neg => simp [Seat.rekey, ht, hs, ho]

theorem ThreadId.rekey_rekey (hk : k ∉ merged) (old : String) (t : ThreadId) :
    (t.rekey scope k [old]).rekey scope k merged = t.rekey scope k (old :: merged) := by
  by_cases hs : t.scope.provider = scope.provider ∧ t.scope.accountId = scope.accountId
  case neg => simp [ThreadId.rekey, ← and_assoc, hs]
  case pos =>
    by_cases ho : t.threadKey = old
    case pos => simp [ThreadId.rekey, hs, ho, hk]
    case neg => simp [ThreadId.rekey, hs, ho]

theorem Alias.rekey_rekey (hk : k ∉ merged) (old : String) (a : Alias) :
    (a.rekey k [old]).rekey k merged = a.rekey k (old :: merged) := by
  by_cases ho : a.survivorKey = old
  case pos => simp [Alias.rekey, ho, hk]
  case neg => simp [Alias.rekey, ho]

-- The components are given the key of the survivor, and their own keys lead to it.
structure Rekeyed (scope : Scope) (k : String) (merged : List String) (s s' : Store) : Prop where
  seat      : ∀ messageId, s'.seat messageId = (s.seat messageId).map (Seat.rekey scope k merged)
  threadIds : ∀ id, s'.threadIds.get id = (s.threadIds.get id).map (ThreadId.rekey scope k merged)
  aliases   : ∀ key, s'.aliases.get key =
    if key ∈ merged then some ⟨key, k⟩ else (s.aliases.get key).map (Alias.rekey k merged)
  locations : s'.locations = s.locations

theorem rekeyed_nil (s : Store) : Rekeyed scope k [] s s where
  seat _      := by cases h : s.seat _ <;> simp [Seat.rekey]
  threadIds _ := by cases h : s.threadIds.get _ <;> simp [ThreadId.rekey]
  aliases _   := by cases h : s.aliases.get _ <;> simp [Alias.rekey]
  locations   := rfl

theorem rekeyed_one (s : Store) (old : String) : Rekeyed scope k [old] s (s.rekeyComponent scope k old) where
  seat messageId := by
    simp only [Store.seat, rekeyComponent, Table.get_update, Option.map_map]
    congr 1
    funext m
    by_cases h : m.provider = scope.provider ∧ m.accountId = scope.accountId ∧ m.threadKey = some old
    case pos => simp [Seat.rekey, Message.seat, h]
    case neg => simp [Seat.rekey, Message.seat, h, and_assoc]
  threadIds id   := by
    simp only [rekeyComponent, Table.get_update]
    congr 1
    funext t
    simp [ThreadId.rekey, and_assoc]
  aliases key    := by
    simp only [rekeyComponent, Table.get_put, Table.get_update, List.mem_singleton, decide_eq_true_eq]
    by_cases h : key = old
    case pos => simp [h, Keyed.key]
    case neg =>
      have hkey : Keyed.key (Alias.mk old k) ≠ key := Ne.symm h
      rw [if_neg h, if_neg hkey]
      congr 1
      funext a
      simp [Alias.rekey]
  locations      := rfl

theorem Rekeyed.trans {old : String} {s₁ s₂ : Store} (hk : k ∉ merged) (h₁ : Rekeyed scope k [old] s s₁)
    (h₂ : Rekeyed scope k merged s₁ s₂) : Rekeyed scope k (old :: merged) s s₂ where
  seat messageId := by
    rw [h₂.seat, h₁.seat, Option.map_map]
    congr 1
    exact funext (Seat.rekey_rekey hk old)
  threadIds id   := by
    rw [h₂.threadIds, h₁.threadIds, Option.map_map]
    congr 1
    exact funext (ThreadId.rekey_rekey hk old)
  aliases key    := by
    rw [h₂.aliases, h₁.aliases]
    by_cases hm : key ∈ merged
    case pos => simp [hm]
    case neg =>
      by_cases ho : key = old
      case pos => simp [ho, Alias.rekey, hk, ho ▸ hm]
      case neg =>
        have hold : key ∉ [old] := fun hmem => ho (List.mem_singleton.mp hmem)
        have hboth : key ∉ old :: merged := fun hmem => (List.mem_cons.mp hmem).elim ho hm
        rw [if_neg hm, if_neg hold, if_neg hboth, Option.map_map]
        congr 1
        exact funext (Alias.rekey_rekey hk old)
  locations      := h₂.locations.trans h₁.locations

theorem rekeyed_foldl (scope : Scope) (hk : k ∉ merged) (s : Store) :
    Rekeyed scope k merged s (merged.foldl (fun s old => s.rekeyComponent scope k old) s) := by
  induction merged generalizing s
  case nil             => exact rekeyed_nil s
  case cons old ms ih  =>
    rw [List.mem_cons, not_or] at hk
    exact .trans hk.right (rekeyed_one s old) (ih hk.right _)

-- Ids are registered where they are not.
structure Registers (scope : Scope) (k : String) (ids : List String) (s s' : Store) : Prop where
  seat      : s'.seat = s.seat
  threadIds : ∀ sc rfcId, s'.threadIds.get (sc, rfcId) =
    (s.threadIds.get (sc, rfcId)).or (if sc = scope ∧ rfcId ∈ ids then some ⟨scope, rfcId, k⟩ else none)
  aliases   : s'.aliases = s.aliases
  locations : s'.locations = s.locations

theorem registers_foldl (scope : Scope) (k : String) (ha : ∀ rfcId ∈ ids, admissibleId rfcId) (s : Store) :
    Registers scope k ids s (ids.foldl (fun s rfcId => s.registerId scope k rfcId) s) := by
  induction ids generalizing s
  case nil            => exact ⟨rfl, fun _ _ => by simp, rfl, rfl⟩
  case cons id ids ih =>
    obtain ⟨hid, hids⟩ := List.forall_mem_cons.mp ha
    have hrest := ih hids (s.registerId scope k id)
    have hreg : s.registerId scope k id =
        { s with threadIds := s.threadIds.insertOrIgnore ⟨scope, id, k⟩ } := if_pos hid
    rw [List.foldl_cons]
    refine ⟨hrest.seat.trans ?_, fun sc rfcId => ?_, hrest.aliases.trans ?_, hrest.locations.trans ?_⟩
    · rw [hreg]
      rfl
    · rw [hrest.threadIds, hreg, Table.get_insertOrIgnore, Option.or_assoc]
      congr 1
      by_cases hs : scope = sc ∧ id = rfcId
      case pos =>
        obtain ⟨rfl, rfl⟩ := hs
        simp [Keyed.key]
      case neg =>
        have hk : ¬(Keyed.key (ρ := ThreadId) ⟨scope, id, k⟩ = (sc, rfcId)) := fun he => hs (Prod.mk.injEq .. ▸ he)
        rw [if_neg hk, Option.none_or]
        by_cases hsc : sc = scope
        case neg => simp [hsc]
        case pos =>
          have hne : rfcId ≠ id := fun he => hs ⟨hsc.symm, he.symm⟩
          simp [hsc, hne]
    · rw [hreg]
    · rw [hreg]

-- The catch-up and the watermarks are of no account here.
theorem still_rekeyCatchup {old : String} (h : s.rekeyCatchup scope k old = .ok s') : Still s s' := by
  simp only [Store.rekeyCatchup, bind_eq_ok, pure_eq_ok] at h
  obtain ⟨s₁, h₁, rfl⟩ := h
  refine Still.trans (foldlM_relation .refl (fun _ _ _ => .trans) ?_ h₁) ⟨⟨rfl, rfl, rfl⟩, rfl⟩
  intro s owed _ s' h
  unfold takeOverCatchup at h
  split at h
  case h_1 =>
    cases pure_eq_ok.mp h
    exact ⟨⟨rfl, rfl, rfl⟩, rfl⟩
  case h_2 =>
    simp only [bind_eq_ok, pure_eq_ok] at h
    obtain ⟨_, _, rfl⟩ := h
    exact ⟨⟨rfl, rfl, rfl⟩, rfl⟩

-- What joining does: the components are merged, and the ids are registered.
structure Joined (scope : Scope) (k : String) (merged ids : List String) (s s' : Store) : Prop where
  seat      : ∀ messageId, s'.seat messageId = (s.seat messageId).map (Seat.rekey scope k merged)
  threadIds : ∀ sc rfcId, s'.threadIds.get (sc, rfcId) =
    ((s.threadIds.get (sc, rfcId)).map (ThreadId.rekey scope k merged)).or
      (if sc = scope ∧ rfcId ∈ ids then some ⟨scope, rfcId, k⟩ else none)
  aliases   : ∀ key, s'.aliases.get key =
    if key ∈ merged then some ⟨key, k⟩ else (s.aliases.get key).map (Alias.rekey k merged)
  locations : s'.locations = s.locations

theorem joined_applyImapComponent (hk : k ∉ merged) (ha : ∀ rfcId ∈ ids, admissibleId rfcId)
    (h : s.applyImapComponent scope k merged ids = .ok s') : Joined scope k merged ids s s' := by
  simp only [Store.applyImapComponent, bind_eq_ok, pure_eq_ok] at h
  obtain ⟨s₁, h₁, rfl⟩ := h
  have hstill : Still s s₁ := by
    refine Still.trans ?_ (foldlM_relation .refl (fun _ _ _ => .trans) (fun _ _ _ _ => still_rekeyCatchup) h₁)
    split
    · exact .refl s
    · exact ⟨⟨rfl, rfl, rfl⟩, rfl⟩
  have hre := rekeyed_foldl scope hk s₁
  have hreg := registers_foldl scope k ha (merged.foldl (fun s old => s.rekeyComponent scope k old) s₁)
  constructor
  case seat      =>
    intro messageId
    rw [hreg.seat, hre.seat, hstill.seat]
  case threadIds =>
    intro sc rfcId
    rw [hreg.threadIds, hre.threadIds, hstill.threadIds]
  case aliases   =>
    intro key
    rw [hreg.aliases, hre.aliases, hstill.aliases]
  case locations => exact (hreg.locations.trans hre.locations).trans hstill.locations

end Merge

section Choice

variable {scope : Scope} {ids : List String} {existing : Option String} {fresh k key : String} {merged : List String}
  {s : Store}

-- What the key of a thread is chosen from: the components of its ids, and the one that the message is in already. A
-- key is drawn where there is none.
structure Chosen (s : Store) (scope : Scope) (ids : List String) (existing : Option String) (fresh k : String)
    (merged : List String) : Prop where
  apart  : k ∉ merged
  found  : ∀ t ∈ s.threadIds, t.scope = scope → t.rfcId ∈ ids → t.threadKey ∈ k :: merged
  own    : ∀ key, existing = some key → key ∈ k :: merged
  source : ∀ key ∈ k :: merged, (∃ t ∈ s.threadIds, t.scope = scope ∧ t.rfcId ∈ ids ∧ t.threadKey = key) ∨
    existing = some key ∨ key = fresh ∧ existing = none ∧ merged = []

theorem mem_componentKeys : key ∈ s.componentKeys scope ids existing ↔
    (∃ t ∈ s.threadIds, t.scope = scope ∧ t.rfcId ∈ ids ∧ t.threadKey = key) ∨ existing = some key := by
  have hkeys : key ∈ ((s.threadIds.rows.filter fun t => t.scope = scope && t.rfcId ∈ ids).map (·.threadKey)).dedup ↔
      ∃ t ∈ s.threadIds, t.scope = scope ∧ t.rfcId ∈ ids ∧ t.threadKey = key := by
    simp [Table.mem_rows, and_assoc]
  unfold componentKeys
  cases existing
  case none     => simp [hkeys]
  case some own =>
    dsimp only
    split
    case isTrue hown =>
      rw [hkeys, Option.some.injEq]
      refine ⟨.inl, fun h => h.elim id ?_⟩
      rintro rfl
      exact hkeys.mp hown
    case isFalse     =>
      rw [List.mem_append, hkeys, List.mem_singleton, Option.some.injEq, eq_comm (a := own)]

theorem chosen_imapThreadKey (h : s.imapThreadKey scope ids existing fresh = (k, merged)) :
    Chosen s scope ids existing fresh k merged := by
  unfold imapThreadKey at h
  split at h
  case isTrue hids =>
    cases h
    cases existing
    case none     => exact ⟨List.not_mem_nil, by simp [hids], nofun, by simp⟩
    case some own => exact ⟨List.not_mem_nil, by simp [hids], by simp, by simp⟩
  case isFalse     =>
    cases hs : (s.componentKeys scope ids existing).argmin (s.componentRank scope) <;> simp only [hs] at h
    case none          =>
      cases h
      have hempty : s.componentKeys scope ids existing = [] := List.argmin_eq_none.mp hs
      have hno : ∀ key, key ∉ s.componentKeys scope ids existing := by simp [hempty]
      have hexisting : existing = none := by
        cases existing
        case none     => rfl
        case some own => exact absurd (mem_componentKeys.mpr (.inr rfl)) (hno own)
      refine ⟨List.not_mem_nil, fun t ht hs hid => ?_, fun key hkey => ?_, fun key hkey => ?_⟩
      · exact absurd (mem_componentKeys.mpr (.inl ⟨t, ht, hs, hid, rfl⟩)) (hno _)
      · exact absurd (mem_componentKeys.mpr (.inr hkey)) (hno _)
      · exact .inr (.inr ⟨List.mem_singleton.mp hkey, hexisting, rfl⟩)
    case some =>
      cases h
      have hmem : k ∈ s.componentKeys scope ids existing := List.argmin_mem hs
      have hall : ∀ key, key ∈ k :: (s.componentKeys scope ids existing).filter (· ≠ k) ↔
          key ∈ s.componentKeys scope ids existing := by
        intro key
        by_cases hkey : key = k
        case pos => simp [hkey, hmem]
        case neg => simp [hkey]
      refine ⟨by simp, fun t ht hs hid => ?_, fun key hkey => ?_, fun key hkey => ?_⟩
      · exact (hall _).mpr (mem_componentKeys.mpr (.inl ⟨t, ht, hs, hid, rfl⟩))
      · exact (hall _).mpr (mem_componentKeys.mpr (.inr hkey))
      · exact (mem_componentKeys.mp ((hall _).mp hkey)).imp_right .inl

end Choice

section Unite

-- A message is stored or has been found, and the components of its headers are merged.
structure Unites (scope : Scope) (k fresh : String) (merged ids : List String) (messageId : String) (s s' : Store) :
    Prop where
  imap      : scope.provider = .imap
  apart     : k ∉ merged
  found     : ∀ t ∈ s.threadIds, t.scope = scope → t.rfcId ∈ ids → t.threadKey ∈ k :: merged
  source    : ∀ key ∈ k :: merged, (∃ t ∈ s.threadIds, t.scope = scope ∧ t.rfcId ∈ ids ∧ t.threadKey = key) ∨
    (∃ x, s.seat messageId = some x ∧ x.threadKey = some key) ∨ key = fresh ∧ merged = []
  own       : ∀ x, s.seat messageId = some x →
    x.provider = .imap ∧ x.accountId = scope.accountId ∧ ∃ key ∈ k :: merged, x.threadKey = some key
  inserted  : s.seat messageId = none → ∃ rfcId : Option String,
    s'.seat messageId = some ⟨.imap, scope.accountId, some scope.mailboxIdentityKey, some k, rfcId, none⟩ ∧
    ∀ id, rfcId = some id → id ∈ ids
  seat      : ∀ id x, s.seat id = some x → s'.seat id = some (x.rekey scope k merged)
  others    : ∀ id x', s'.seat id = some x' → id = messageId ∨ ∃ x, s.seat id = some x
  threadIds : ∀ sc rfcId, s'.threadIds.get (sc, rfcId) =
    ((s.threadIds.get (sc, rfcId)).map (ThreadId.rekey scope k merged)).or
      (if sc = scope ∧ rfcId ∈ ids then some ⟨scope, rfcId, k⟩ else none)
  aliases   : ∀ key, s'.aliases.get key =
    if key ∈ merged then some ⟨key, k⟩ else (s.aliases.get key).map (Alias.rekey k merged)
  locations : s'.locations = s.locations

-- The key that a key is replaced by.
def moved (k : String) (merged : List String) (key : String) : String :=
  if key ∈ merged then k else key

variable {drawn merged ids : List String} {c : Components Node} {s s' : Store} {scope : Scope}
  {k fresh key key' id messageId : String} {x x' : Seat}

theorem moved_of_mem (h : key ∈ k :: merged) : moved k merged key = k := by
  unfold moved
  split
  case isTrue     => rfl
  case isFalse hn => exact (List.mem_cons.mp h).resolve_right hn

theorem moved_of_not_mem (h : key ∉ k :: merged) : moved k merged key = key :=
  if_neg fun hm => h (List.mem_cons_of_mem k hm)

theorem Threaded.mem_drawn (h : Threaded drawn c s) (hc : s.Carries key) : key ∈ drawn := by
  obtain ⟨id, x, hx, hp, hk⟩ := hc
  obtain ⟨key', hd, hk'⟩ := h.keyed id x hx hp
  obtain rfl := Option.some.inj (hk.symm.trans hk')
  exact hd

namespace Unites

section Keys

variable (h : Threaded drawn c s) (hf : fresh ∉ drawn) (u : Unites scope k fresh merged ids messageId s s')

include h hf u

theorem account (hx : s.seat id = some x) (hc : x.Carries key) (hm : key ∈ k :: merged) :
    x.accountId = scope.accountId := by
  obtain ⟨t, ht, rfl, -, rfl⟩ | ⟨y, hy, hk⟩ | ⟨rfl, -⟩ := u.source key hm
  · obtain ⟨-, id', y, hy, hcy, ha⟩ := h.anchored t ht
    exact (h.account id x id' y _ hx hy hc hcy).trans ha
  · obtain ⟨hp, ha, -⟩ := u.own y hy
    exact (h.account id x messageId y _ hx hy hc ⟨hp, hk⟩).trans ha
  · exact absurd (h.mem_drawn ⟨id, x, hx, hc⟩) hf

theorem carries_rekey (hx : s.seat id = some x) (hc : x.Carries key) :
    (x.rekey scope k merged).Carries (moved k merged key) := by
  obtain ⟨hp, hk⟩ := hc
  unfold Seat.rekey moved
  by_cases hm : key ∈ merged
  case pos =>
    have ha := account h hf u hx ⟨hp, hk⟩ (List.mem_cons_of_mem k hm)
    rw [if_pos ⟨hp.trans u.imap.symm, ha, key, hm, hk⟩, if_pos hm]
    exact ⟨hp, rfl⟩
  case neg =>
    have hno : ¬(x.provider = scope.provider ∧ x.accountId = scope.accountId ∧
        ∃ old ∈ merged, x.threadKey = some old) := by
      rintro ⟨-, -, old, hold, hkey⟩
      obtain rfl := Option.some.inj (hk.symm.trans hkey)
      exact hm hold
    rw [if_neg hno, if_neg hm]
    exact ⟨hp, hk⟩

theorem threadKey_rekey {t : ThreadId} (ht : t ∈ s.threadIds) :
    t.rekey scope k merged = { t with threadKey := moved k merged t.threadKey } := by
  unfold ThreadId.rekey moved
  by_cases hm : t.threadKey ∈ merged
  case pos =>
    obtain ⟨hp, id', y, hy, hcy, ha⟩ := h.anchored t ht
    have hacc := account h hf u hy hcy (List.mem_cons_of_mem k hm)
    rw [if_pos ⟨hp.trans u.imap.symm, ha.symm.trans hacc, hm⟩, if_pos hm]
  case neg => rw [if_neg fun hall => hm hall.right.right, if_neg hm]

-- A row is the one that has been stored, or it was there with the key that has been replaced.
theorem carries_cases (hx : s'.seat id = some x') (hc : x'.Carries key') :
    (id = messageId ∧ s.seat id = none ∧ key' = k ∧ x'.accountId = scope.accountId) ∨
      ∃ x key, s.seat id = some x ∧ x.Carries key ∧ key' = moved k merged key ∧ x'.accountId = x.accountId := by
  cases hs : s.seat id
  case none   =>
    obtain rfl := (u.others id x' hx).resolve_right fun ⟨x, hx⟩ => nomatch hs.symm.trans hx
    obtain ⟨rfcId, hseat, -⟩ := u.inserted hs
    obtain rfl := Option.some.inj (hseat.symm.trans hx)
    exact .inl ⟨rfl, rfl, (Option.some.inj hc.right).symm, rfl⟩
  case some x =>
    obtain rfl := Option.some.inj ((u.seat id x hs).symm.trans hx)
    rw [Seat.rekey_eq] at hc ⊢
    obtain ⟨key, -, hk⟩ := h.keyed id x hs hc.left
    have hmoved := carries_rekey h hf u hs ⟨hc.left, hk⟩
    rw [Seat.rekey_eq] at hmoved
    exact .inr ⟨x, key, rfl, ⟨hc.left, hk⟩, Option.some.inj (hc.right.symm.trans hmoved.right), rfl⟩

-- The message of the headers has the key.
theorem carries_own : ∃ x', s'.seat messageId = some x' ∧ x'.Carries k ∧ x'.accountId = scope.accountId := by
  cases hs : s.seat messageId
  case none   =>
    obtain ⟨rfcId, hseat, -⟩ := u.inserted hs
    exact ⟨_, hseat, ⟨rfl, rfl⟩, rfl⟩
  case some x =>
    obtain ⟨hp, ha, key, hkey, hk⟩ := u.own x hs
    have hmoved := carries_rekey h hf u hs ⟨hp, hk⟩
    rw [moved_of_mem hkey] at hmoved
    refine ⟨_, u.seat messageId x hs, hmoved, ?_⟩
    rw [Seat.rekey_eq]
    exact ha

theorem sources : Components.Sources (headers messageId scope ids) {key | key ∈ k :: merged} s.label := by
  constructor
  case complete =>
    rintro y (rfl | ⟨rfcId, hid, rfl⟩) key hl
    · obtain ⟨x, hx, hp, hk⟩ := label_row_eq_some.mp hl
      obtain ⟨-, -, key', hkey', hk'⟩ := u.own x hx
      obtain rfl := Option.some.inj (hk.symm.trans hk')
      exact hkey'
    · obtain ⟨t, ht, hs, rfl, rfl⟩ := label_id_eq_some.mp hl
      exact u.found t ht hs hid
  case sound    =>
    intro key hkey
    obtain ⟨t, ht, hs, hid, hk⟩ | ⟨x, hx, hk⟩ | ⟨rfl, -⟩ := u.source key hkey
    · exact .inl ⟨.id scope t.rfcId, .inr ⟨t.rfcId, hid, rfl⟩, label_id_eq_some.mpr ⟨t, ht, hs, rfl, hk⟩⟩
    · exact .inl ⟨.row messageId, .inl rfl, label_row_eq_some.mpr ⟨x, hx, (u.own x hx).left, hk⟩⟩
    · refine .inr fun y hl => hf ?_
      cases y
      case row id'      =>
        obtain ⟨x, hx, hc⟩ := label_row_eq_some.mp hl
        exact h.mem_drawn ⟨id', x, hx, hc⟩
      case id sc rfcId =>
        obtain ⟨t, ht, -, -, rfl⟩ := label_id_eq_some.mp hl
        obtain ⟨-, id', x, hx, hc, -⟩ := h.anchored t ht
        exact h.mem_drawn ⟨id', x, hx, hc⟩

theorem label_row : s'.label (.row id) = some key' ↔
    (∃ key, s.label (.row id) = some key ∧ key' = moved k merged key) ∨
      s.label (.row id) = none ∧ id = messageId ∧ key' = k := by
  constructor
  case mp  =>
    intro hl
    obtain ⟨x', hx', hc'⟩ := label_row_eq_some.mp hl
    obtain ⟨rfl, hnone, rfl, -⟩ | ⟨x, key, hx, hc, rfl, -⟩ := carries_cases h hf u hx' hc'
    · refine .inr ⟨?_, rfl, rfl⟩
      rw [Store.label, hnone, Option.bind_none]
    · exact .inl ⟨key, label_row_eq_some.mpr ⟨x, hx, hc⟩, rfl⟩
  case mpr =>
    rintro (⟨key, hl, rfl⟩ | ⟨-, rfl, rfl⟩)
    · obtain ⟨x, hx, hc⟩ := label_row_eq_some.mp hl
      exact label_row_eq_some.mpr ⟨_, u.seat id x hx, carries_rekey h hf u hx hc⟩
    · obtain ⟨x', hx', hc', -⟩ := carries_own h hf u
      exact label_row_eq_some.mpr ⟨x', hx', hc'⟩

theorem label_id {sc : Scope} : s'.label (.id sc id) = some key' ↔
    (∃ key, s.label (.id sc id) = some key ∧ key' = moved k merged key) ∨
      s.label (.id sc id) = none ∧ (sc = scope ∧ id ∈ ids) ∧ key' = k := by
  simp only [Store.label, u.threadIds]
  cases ht : s.threadIds.get (sc, id)
  case none   =>
    by_cases hin : sc = scope ∧ id ∈ ids
    case pos => simp [hin, eq_comm]
    case neg => simp [hin]
  case some t =>
    have hkey := threadKey_rekey h hf u (Table.mem_of_get ht)
    simp [hkey, eq_comm]

theorem relabels :
    Components.Relabels (headers messageId scope ids) {key | key ∈ k :: merged} k s.label s'.label := by
  intro y key'
  have hmoved : ∀ key, key' = moved k merged key ↔
      key ∈ k :: merged ∧ key' = k ∨ key ∉ k :: merged ∧ key' = key := by
    intro key
    by_cases hm : key ∈ k :: merged
    case pos => rw [moved_of_mem hm]; simp only [hm, true_and, not_true, false_and, or_false]
    case neg => rw [moved_of_not_mem hm]; simp only [hm, false_and, not_false_iff, true_and, false_or]
  cases y
  case row id     =>
    rw [label_row h hf u]
    simp only [hmoved]
    refine or_congr_right (and_congr_right fun _ => and_congr_left fun _ => ?_)
    simp [headers]
  case id sc rfcId =>
    rw [label_id h hf u]
    simp only [hmoved]
    refine or_congr_right (and_congr_right fun _ => and_congr_left fun _ => ?_)
    simp [headers, and_comm, eq_comm]

omit h hf in
theorem threadIds_cases {t' : ThreadId} (ht : t' ∈ s'.threadIds) :
    (∃ t ∈ s.threadIds, t' = t.rekey scope k merged) ∨ t'.scope = scope ∧ t'.threadKey = k := by
  have hget := Table.get_of_mem ht
  change s'.threadIds.get (t'.scope, t'.rfcId) = some t' at hget
  rw [u.threadIds] at hget
  cases hs : s.threadIds.get (t'.scope, t'.rfcId)
  case none   =>
    rw [hs, Option.map_none, Option.none_or, Option.ite_none_right_eq_some] at hget
    obtain ⟨⟨hscope, -⟩, heq⟩ := hget
    exact .inr ⟨hscope, by rw [← Option.some.inj heq]⟩
  case some t =>
    rw [hs, Option.map_some, Option.some_or] at hget
    exact .inl ⟨t, Table.mem_of_get hs, (Option.some.inj hget).symm⟩

theorem anchored {t' : ThreadId} (ht : t' ∈ s'.threadIds) : t'.scope.provider = .imap ∧
    ∃ id x', s'.seat id = some x' ∧ x'.Carries t'.threadKey ∧ x'.accountId = t'.scope.accountId := by
  obtain ⟨t, hmem, rfl⟩ | ⟨hscope, hkey⟩ := threadIds_cases u ht
  · obtain ⟨hp, id, x, hx, hc, ha⟩ := h.anchored t hmem
    rw [threadKey_rekey h hf u hmem]
    refine ⟨hp, id, _, u.seat id x hx, carries_rekey h hf u hx hc, ?_⟩
    rw [Seat.rekey_eq]
    exact ha
  · obtain ⟨x', hx', hc, ha⟩ := carries_own h hf u
    rw [hscope, hkey]
    exact ⟨u.imap, messageId, x', hx', hc, ha⟩

theorem account_cases (hx : s'.seat id = some x') (hc : x'.Carries key') :
    key' = k ∧ x'.accountId = scope.accountId ∨
      key' ≠ k ∧ ∃ x, s.seat id = some x ∧ x.Carries key' ∧ x'.accountId = x.accountId := by
  obtain ⟨-, -, rfl, ha⟩ | ⟨x, key, hxs, hcs, rfl, ha⟩ := carries_cases h hf u hx hc
  · exact .inl ⟨rfl, ha⟩
  · by_cases hm : key ∈ k :: merged
    case pos => exact .inl ⟨moved_of_mem hm, ha.trans (account h hf u hxs hcs hm)⟩
    case neg =>
      rw [moved_of_not_mem hm]
      exact .inr ⟨fun he => hm (he ▸ List.mem_cons_self), x, hxs, hcs, ha⟩

theorem registered (hx : s'.seat id = some x') (hp : x'.provider = .imap) {identity rfcId : String}
    (hi : x'.mailboxIdentityKey = some identity) (hr : x'.rfcMessageId = some rfcId) :
    ∃ t ∈ s'.threadIds, t.scope = ⟨.imap, x'.accountId, identity⟩ ∧ t.rfcId = rfcId ∧
      x'.threadKey = some t.threadKey := by
  cases hs : s.seat id
  case none   =>
    obtain rfl := (u.others id x' hx).resolve_right fun ⟨x, hx⟩ => nomatch hs.symm.trans hx
    obtain ⟨rfcId', hseat, hids⟩ := u.inserted hs
    obtain rfl := Option.some.inj (hseat.symm.trans hx)
    obtain rfl := Option.some.inj hi
    have hin := hids rfcId hr
    have hscope : scope = ⟨.imap, scope.accountId, scope.mailboxIdentityKey⟩ := by rw [← u.imap]
    have hget := u.threadIds scope rfcId
    rw [if_pos ⟨rfl, hin⟩] at hget
    cases ht : s.threadIds.get (scope, rfcId)
    case none   =>
      rw [ht, Option.map_none, Option.none_or] at hget
      exact ⟨_, Table.mem_of_get hget, hscope, rfl, rfl⟩
    case some t =>
      have hkey := Table.key_of_get ht
      have hmem := Table.mem_of_get ht
      have hsc : t.scope = scope := congrArg Prod.fst hkey
      have hid : t.rfcId = rfcId := congrArg Prod.snd hkey
      rw [ht, Option.map_some, Option.some_or, threadKey_rekey h hf u hmem,
        moved_of_mem (u.found t hmem hsc (hid ▸ hin))] at hget
      exact ⟨_, Table.mem_of_get hget, hsc.trans hscope, hid, rfl⟩
  case some x =>
    obtain rfl := Option.some.inj ((u.seat id x hs).symm.trans hx)
    rw [Seat.rekey_eq] at hp hi hr
    obtain ⟨key, -, hk⟩ := h.keyed id x hs hp
    obtain ⟨t, ht, hsc, hid, hkey⟩ := h.registered id x hs hp identity rfcId hi hr
    have hmoved := carries_rekey h hf u hs ⟨hp, hkey⟩
    have hget := u.threadIds t.scope t.rfcId
    have hin : s.threadIds.get (t.scope, t.rfcId) = some t := Table.get_of_mem ht
    rw [hin, Option.map_some, Option.some_or, threadKey_rekey h hf u ht] at hget
    refine ⟨_, Table.mem_of_get hget, ?_, hid, hmoved.right⟩
    rw [Seat.rekey_eq]
    exact hsc

omit hf in
theorem carried (hm : key ∈ k :: merged) : s.Carries key ∨ key = fresh ∧ merged = [] := by
  obtain ⟨t, ht, -, -, rfl⟩ | ⟨y, hy, hk⟩ | hfresh := u.source key hm
  · obtain ⟨-, id, x, hx, hc, -⟩ := h.anchored t ht
    exact .inl ⟨id, x, hx, hc⟩
  · exact .inl ⟨messageId, y, hy, (u.own y hy).left, hk⟩
  · exact .inr hfresh

theorem carries_moved (hc : s.Carries key) : s'.Carries (moved k merged key) := by
  obtain ⟨id, x, hx, hc⟩ := hc
  exact ⟨id, _, u.seat id x hx, carries_rekey h hf u hx hc⟩

-- A key that messages have is the one of the headers, or has not been touched.
theorem carries_iff : s'.Carries key ↔ key = k ∨ key ∉ merged ∧ s.Carries key := by
  constructor
  case mp  =>
    rintro ⟨id, x', hx', hc'⟩
    obtain ⟨-, -, rfl, -⟩ | ⟨x, key', hx, hc, rfl, -⟩ := carries_cases h hf u hx' hc'
    · exact .inl rfl
    · unfold moved
      split
      case isTrue     => exact .inl rfl
      case isFalse hm => exact .inr ⟨hm, id, x, hx, hc⟩
  case mpr =>
    rintro (rfl | ⟨hm, hc⟩)
    · obtain ⟨x', hx', hc, -⟩ := carries_own h hf u
      exact ⟨messageId, x', hx', hc⟩
    · have hmoved := carries_moved h hf u hc
      rwa [moved, if_neg hm] at hmoved

theorem retired {a' : Alias} (ha : a' ∈ s'.aliases) :
    a'.oldKey ∈ drawn ∧ s'.Carries a'.survivorKey ∧ ¬s'.Carries a'.oldKey := by
  simp only [carries_iff h hf u]
  have hget := Table.get_of_mem ha
  change s'.aliases.get a'.oldKey = some a' at hget
  rw [u.aliases] at hget
  split at hget
  case isTrue hm  =>
    have hk : k = a'.survivorKey := congrArg Alias.survivorKey (Option.some.inj hget)
    have hne : a'.oldKey ≠ k := fun he => u.apart (he ▸ hm)
    refine ⟨?_, .inl hk.symm, fun ho => ho.elim hne fun hn => hn.left hm⟩
    obtain hc | ⟨-, hnil⟩ := carried h u (List.mem_cons_of_mem k hm)
    · exact h.mem_drawn hc
    · exact absurd (hnil ▸ hm) List.not_mem_nil
  case isFalse hm =>
    obtain ⟨a, hmem, hrekey⟩ := Option.map_eq_some_iff.mp hget
    have hold : a.oldKey = a'.oldKey := Table.key_of_get hmem
    obtain ⟨hd, hs, hn⟩ := h.retired a (Table.mem_of_get hmem)
    rw [hold] at hd hn
    have hne : a'.oldKey ≠ k := by
      intro he
      obtain hc | ⟨hfresh, -⟩ := carried h u List.mem_cons_self
      · exact hn (he ▸ hc)
      · exact hf (hfresh ▸ he ▸ hd)
    refine ⟨hd, ?_, fun ho => ho.elim hne fun hc => hn hc.right⟩
    rw [← hrekey, Alias.rekey]
    split
    case isTrue      => exact .inl rfl
    case isFalse hns => exact .inr ⟨hns, hs⟩

end Keys

end Unites

-- Threads are joined under one key, and everything stays in order.
theorem Threaded.unites (h : Threaded drawn c s) (hf : fresh ∉ drawn)
    (u : Unites scope k fresh merged ids messageId s s') :
    Threaded (drawn ++ [fresh]) (c.unite (headers messageId scope ids)) s' where
  captured   := by
    intro id x' hx
    cases hs : s.seat id
    case none   =>
      obtain rfl := (u.others id x' hx).resolve_right fun ⟨x, hx⟩ => nomatch hs.symm.trans hx
      obtain ⟨rfcId, hseat, -⟩ := u.inserted hs
      obtain rfl := Option.some.inj (hseat.symm.trans hx)
      exact ⟨rfl, rfl⟩
    case some x =>
      obtain rfl := Option.some.inj ((u.seat id x hs).symm.trans hx)
      rw [Seat.rekey_eq]
      exact h.captured id x hs
  located    := by
    rw [u.locations]
    intro l hl
    obtain ⟨x, hx, hp⟩ := h.located l hl
    refine ⟨_, u.seat _ x hx, ?_⟩
    rw [Seat.rekey_eq]
    exact hp
  keyed      := by
    intro id x' hx hp
    have hk : k ∈ drawn ++ [fresh] := by
      obtain hc | ⟨rfl, -⟩ := u.carried h List.mem_cons_self
      · exact List.mem_append_left _ (h.mem_drawn hc)
      · exact List.mem_append_right _ (List.mem_singleton_self k)
    cases hs : s.seat id
    case none   =>
      obtain rfl := (u.others id x' hx).resolve_right fun ⟨x, hx⟩ => nomatch hs.symm.trans hx
      obtain ⟨rfcId, hseat, -⟩ := u.inserted hs
      obtain rfl := Option.some.inj (hseat.symm.trans hx)
      exact ⟨k, hk, rfl⟩
    case some x =>
      obtain rfl := Option.some.inj ((u.seat id x hs).symm.trans hx)
      rw [Seat.rekey_eq] at hp
      obtain ⟨key, hd, hkey⟩ := h.keyed id x hs hp
      refine ⟨moved k merged key, ?_, (u.carries_rekey h hf hs ⟨hp, hkey⟩).right⟩
      unfold moved
      split
      case isTrue  => exact hk
      case isFalse => exact List.mem_append_left _ hd
  account    := by
    intro id₁ x₁ id₂ x₂ key h₁ h₂ hc₁ hc₂
    obtain ⟨rfl, ha₁⟩ | ⟨hne₁, y₁, hy₁, hcy₁, ha₁⟩ := u.account_cases h hf h₁ hc₁ <;>
      obtain ⟨hk, ha₂⟩ | ⟨hne₂, y₂, hy₂, hcy₂, ha₂⟩ := u.account_cases h hf h₂ hc₂
    · exact ha₁.trans ha₂.symm
    · exact absurd rfl hne₂
    · exact absurd hk hne₁
    · exact ha₁.trans ((h.account id₁ y₁ id₂ y₂ key hy₁ hy₂ hcy₁ hcy₂).trans ha₂.symm)
  anchored   := fun _ ht => u.anchored h hf ht
  registered := fun _ _ hx hp _ _ hi hr => u.registered h hf hx hp hi hr
  retired    := by
    intro a ha
    obtain ⟨hd, hrest⟩ := u.retired h hf ha
    exact ⟨List.mem_append_left _ hd, hrest⟩
  together   := h.together.unite (u.sources h hf) List.mem_cons_self (u.relabels h hf)

end Unite

end Mail
