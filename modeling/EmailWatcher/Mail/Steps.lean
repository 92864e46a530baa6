import Mathlib.Logic.Relation
import EmailWatcher.Mail.Capture

-- What the operations of the store do to its rows, statement by statement.
namespace Mail

open Transaction Store Relation

-- The columns of a row that say where it comes from and which message it is a copy of.
structure Place where
  messageId          : String
  provider           : Provider
  accountId          : String
  mailboxIdentityKey : Option String
  providerMessageId  : String
  logicalOf          : Option String
  deriving DecidableEq

def Message.place (m : Message) : Place where
  messageId          := m.messageId
  provider           := m.provider
  accountId          := m.accountId
  mailboxIdentityKey := m.mailboxIdentityKey
  providerMessageId  := m.providerMessageId
  logicalOf          := m.logicalOf

-- A legacy row that is a message to readers.
structure Unbound (t : Table Message) (id : String) (m : Message) : Prop where
  row       : t.get id = some m
  identity  : m.mailboxIdentityKey = none
  canonical : m.logicalOf = none

-- A copy of a legacy row is about to take its place.
structure Promotion (t : Table Message) (root successor : String) (m c : Message) : Prop where
  unbound : Unbound t root m
  row     : t.get successor = some c
  copy    : c.logicalOf = some root

-- The single statements that write messages without deleting any.
inductive RowStep : Table Message → Table Message → Prop
  | touch {t : Table Message} {p : Message → Bool} {f : Message → Message} (hf) :
    (∀ m, (f m).place = m.place) → RowStep t (t.update p f hf)
  | identify {s : Store} {id identity : String} {m : Message} :
    Unbound s.messages id m → RowStep s.messages (s.setIdentity id identity).messages
  | promote {s : Store} {root successor : String} {m c : Message} :
    Promotion s.messages root successor m c →
    RowStep s.messages (s.promote root successor).messages
  | insert {t : Table Message} {m : Message} :
    t.get m.messageId = none → m.mailboxIdentityKey.isSome → m.logicalOf = none →
    RowStep t (t.put m)

-- An operation on mail writes messages in single statements, and leaves the removals alone.
structure MailStep (s s' : Store) : Prop where
  messages   : ReflTransGen RowStep s.messages s'.messages
  clock      : s'.clock = s.clock
  suppressed : s'.suppressed = s.suppressed
  requests   : s'.requests = s.requests
  intents    : s'.intents = s.intents
  targets    : s'.targets = s.targets

namespace MailStep

variable {s s' s₁ s₂ s₃ : Store} {scope : Scope}

theorem refl (s : Store) : MailStep s s where
  messages   := .refl
  clock      := rfl
  suppressed := rfl
  requests   := rfl
  intents    := rfl
  targets    := rfl

theorem trans (h₁ : MailStep s₁ s₂) (h₂ : MailStep s₂ s₃) : MailStep s₁ s₃ where
  messages   := h₁.messages.trans h₂.messages
  clock      := h₂.clock.trans h₁.clock
  suppressed := h₂.suppressed.trans h₁.suppressed
  requests   := h₂.requests.trans h₁.requests
  intents    := h₂.intents.trans h₁.intents
  targets    := h₂.targets.trans h₁.targets

theorem of_row (h : RowStep s.messages s'.messages) (hc : s'.clock = s.clock := by rfl)
    (hs : s'.suppressed = s.suppressed := by rfl) (hr : s'.requests = s.requests := by rfl)
    (hi : s'.intents = s.intents := by rfl) (ht : s'.targets = s.targets := by rfl) :
    MailStep s s' :=
  ⟨.single h, hc, hs, hr, hi, ht⟩

theorem of_messages_eq (h : s'.messages = s.messages := by rfl) (hc : s'.clock = s.clock := by rfl)
    (hs : s'.suppressed = s.suppressed := by rfl) (hr : s'.requests = s.requests := by rfl)
    (hi : s'.intents = s.intents := by rfl) (ht : s'.targets = s.targets := by rfl) :
    MailStep s s' :=
  ⟨by rw [h], hc, hs, hr, hi, ht⟩

section Locations

theorem recordLocations {id source : String} {ls : List Folder} {b : Bool} {at' : Option String}
    (h : s.recordLocations id scope source ls b at' = .ok s') : MailStep s s' := by
  simp only [Store.recordLocations, bind_eq_ok, pure_eq_ok] at h
  obtain ⟨_, _, h⟩ := h
  subst h
  exact of_messages_eq

end Locations

section LegacyIdentity

theorem requeue (s : Store) (id : String) : MailStep s (s.requeue id) := by
  refine of_row <| .touch ?_ ?_
  all_goals exact fun _ => rfl

theorem reparentLogicalSources (s : Store) (old new : String) :
    MailStep s (s.reparentLogicalSources old new) :=
  of_messages_eq

theorem sourceRow_mem {source : String} {m : Message} (h : s.sourceRow scope source = some m) :
    m ∈ s.messages :=
  List.mem_of_find?_eq_some h

theorem bindRow {p : Provider} {a k : String} {root m : Message}
    (hu : Unbound s.messages root.messageId m) (h : Store.bindRow p a k s root = .ok s') :
    MailStep s s' := by
  unfold Store.bindRow at h
  split at h
  case h_1 =>
    cases pure_eq_ok.mp h
    exact of_row <| .identify hu
  case h_2 c hc =>
    simp only [bind_eq_ok, require_eq_ok, pure_eq_ok, exists_const] at h
    obtain ⟨hl, h⟩ := h
    subst h
    have hg := Table.get_of_mem <| sourceRow_mem hc
    have hp : MailStep s (s.promote root.messageId c.messageId) := of_row <| .promote ⟨hu, hg, hl⟩
    exact (hp.trans <| reparentLogicalSources ..).trans <| requeue ..

-- A pass for one root leaves the other roots unbound.
theorem unbound_bindRow {p : Provider} {a k id : String} {root m : Message}
    (hn : id ≠ root.messageId) (hu : Unbound s.messages id m)
    (h : Store.bindRow p a k s root = .ok s') : ∃ m', Unbound s'.messages id m' := by
  have hk : m.messageId = id := Table.key_of_get hu.row
  unfold Store.bindRow at h
  split at h
  case h_1 =>
    cases pure_eq_ok.mp h
    refine ⟨m, ?_, hu.identity, hu.canonical⟩
    simp [setIdentity, hu.row, hk, hn]
  case h_2 c hc =>
    simp only [bind_eq_ok, require_eq_ok, pure_eq_ok, exists_const] at h
    obtain ⟨hl, h⟩ := h
    subst h
    have hp : (s.promote root.messageId c.messageId).messages.get id = some m := by
      have hm : { m with logicalOf := none } = m := by rw [← hu.canonical]
      simp only [Store.promote, Table.get_update, hu.row, Option.map_some, hm, ite_self]
      simp [hk, hn, hu.canonical]
    refine ⟨if m.messageId = c.messageId ∧ m.status = .skipped then { m with status := .pending }
      else m, ?_, ?_, ?_⟩
    · simp [Store.requeue, Store.reparentLogicalSources, hp]
    · split <;> exact hu.identity
    · split <;> exact hu.canonical

theorem bindRows {p : Provider} {a k : String} {roots : List Message}
    (hd : (roots.map Message.messageId).Nodup)
    (hu : ∀ r ∈ roots, ∃ m, Unbound s.messages r.messageId m)
    (h : roots.foldlM (Store.bindRow p a k) s = .ok s') : MailStep s s' := by
  induction roots generalizing s
  case nil =>
    cases pure_eq_ok.mp h
    exact refl _
  case cons r rs ih =>
    simp only [List.foldlM_cons, bind_eq_ok] at h
    obtain ⟨s₁, h₁, h₂⟩ := h
    obtain ⟨hr, hd⟩ := List.nodup_cons.mp hd
    obtain ⟨m, hm⟩ := hu r (by simp)
    refine (bindRow hm h₁).trans <| ih hd ?_ h₂
    intro r' hr'
    obtain ⟨m', hm'⟩ := hu r' (by simp [hr'])
    refine unbound_bindRow ?_ hm' h₁
    intro he
    exact hr <| List.mem_map.mpr ⟨r', hr', he⟩

theorem bindPendingLegacyIdentity {p : Provider} {a : String} {id : Option String}
    (h : s.bindPendingLegacyIdentity p a id = .ok s') : MailStep s s' := by
  unfold Store.bindPendingLegacyIdentity at h
  split at h
  case h_1 =>
    cases pure_eq_ok.mp h
    exact refl s
  case h_2 =>
    refine bindRows ?_ ?_ h
    · exact s.messages.nodup_filter _
    · intro r hr
      obtain ⟨hm, hp⟩ := List.mem_filter.mp hr
      simp only [Bool.and_eq_true, decide_eq_true_eq] at hp
      exact ⟨r, Table.get_of_mem hm, hp.left.left.left.left.left.right, hp.left.left.left.right⟩

theorem requeueIfSkipped {id : String} (h : s.requeueIfSkipped id = .ok s') : MailStep s s' := by
  unfold Store.requeueIfSkipped at h
  split at h
  case h_1 =>
    cases pure_eq_ok.mp h
    exact refl s
  case h_2 =>
    split at h
    case isTrue => exact (requeue ..).trans <| bindPendingLegacyIdentity h
    case isFalse =>
      cases pure_eq_ok.mp h
      exact refl s

theorem reconcileMailboxIdentity {p : Provider} {a k : String} {l : Option LegacyStatus}
    (h : s.reconcileMailboxIdentity p a k l = .ok s') : MailStep s s' := by
  simp only [Store.reconcileMailboxIdentity, bind_eq_ok, require_eq_ok, find_eq_ok] at h
  obtain ⟨_, _, a, _, h⟩ := h
  split at h
  case isTrue  => exact trans of_messages_eq <| bindPendingLegacyIdentity h
  case isFalse =>
    cases pure_eq_ok.mp h
    exact of_messages_eq

end LegacyIdentity

end MailStep

section Deletion

variable {s : Store} {ids : List String} {id : String} {m : Message}

theorem messages_deleteRow (s : Store) (id : String) :
    (s.deleteRow id).messages = s.messages.delete (·.messageId = id) := by
  unfold deleteRow
  split
  case h_1 h =>
    refine Table.ext ?_
    have hn := Table.get_eq_none.mp h
    simp only [Table.delete]
    refine (List.filter_eq_self.mpr ?_).symm
    intro m hm
    have hne : m.messageId ≠ id := hn m hm
    simp [hne]
  case h_2 =>
    unfold releaseImapComponent
    split
    case h_1 => rfl
    case h_2 => dsimp only; split <;> rfl

-- A deletion writes no table but those of the mail.
structure Deletes (s s' : Store) : Prop where
  clock      : s'.clock = s.clock
  accounts   : s'.accounts = s.accounts
  suppressed : s'.suppressed = s.suppressed
  requests   : s'.requests = s.requests
  intents    : s'.intents = s.intents
  targets    : s'.targets = s.targets

theorem Deletes.refl (s : Store) : Deletes s s :=
  ⟨rfl, rfl, rfl, rfl, rfl, rfl⟩

theorem Deletes.trans {s₁ s₂ s₃ : Store} (h₁ : Deletes s₁ s₂) (h₂ : Deletes s₂ s₃) :
    Deletes s₁ s₃ where
  clock      := h₂.clock.trans h₁.clock
  accounts   := h₂.accounts.trans h₁.accounts
  suppressed := h₂.suppressed.trans h₁.suppressed
  requests   := h₂.requests.trans h₁.requests
  intents    := h₂.intents.trans h₁.intents
  targets    := h₂.targets.trans h₁.targets

theorem Deletes.deleteRow (s : Store) (id : String) : Deletes s (s.deleteRow id) := by
  unfold Store.deleteRow
  split
  case h_1 => exact .refl s
  case h_2 =>
    unfold releaseImapComponent
    split
    case h_1 => exact ⟨rfl, rfl, rfl, rfl, rfl, rfl⟩
    case h_2 => dsimp only; split <;> exact ⟨rfl, rfl, rfl, rfl, rfl, rfl⟩

theorem Deletes.foldl (s : Store) (ids : List String) : Deletes s (ids.foldl Store.deleteRow s) := by
  induction ids generalizing s
  case nil           => exact .refl s
  case cons id ids ih => exact (Deletes.deleteRow s id).trans <| ih _

theorem mem_foldl_deleteRow :
    m ∈ (ids.foldl deleteRow s).messages ↔ m ∈ s.messages ∧ m.messageId ∉ ids := by
  induction ids generalizing s
  case nil => simp
  case cons id ids ih =>
    rw [List.foldl_cons, ih, messages_deleteRow]
    simp [and_assoc]

theorem Deletes.deleteMessages (s : Store) (ids : List String) : Deletes s (s.deleteMessages ids) :=
  .foldl s _

theorem mem_deleteMessages :
    m ∈ (s.deleteMessages ids).messages ↔
    m ∈ s.messages ∧ m.messageId ∉ s.withCopies s.messages.rows.length ids :=
  mem_foldl_deleteRow

end Deletion

namespace MailStep

variable {s s' s₁ s₂ s₃ : Store} {scope : Scope}

section Threads

theorem rekeyCatchup {k old : String} (h : s.rekeyCatchup scope k old = .ok s') :
    MailStep s s' := by
  simp only [Store.rekeyCatchup, bind_eq_ok, pure_eq_ok] at h
  obtain ⟨s₁, h₁, h₂⟩ := h
  subst h₂
  have hr : MailStep s s₁ := by
    refine foldlM_relation refl (fun _ _ _ => trans) ?_ h₁
    intro s owed _ s' h
    unfold takeOverCatchup at h
    split at h
    case h_1 =>
      cases pure_eq_ok.mp h
      exact of_messages_eq
    case h_2 =>
      simp only [bind_eq_ok, pure_eq_ok] at h
      obtain ⟨_, _, h⟩ := h
      subst h
      exact of_messages_eq
  exact hr.trans of_messages_eq

theorem rekeyComponent (s : Store) (scope : Scope) (k old : String) :
    MailStep s (s.rekeyComponent scope k old) := by
  refine of_row <| .touch ?_ ?_
  all_goals exact fun _ => rfl

theorem registerId (s : Store) (scope : Scope) (k id : String) :
    MailStep s (s.registerId scope k id) := by
  unfold Store.registerId
  split
  case isTrue  => exact of_messages_eq
  case isFalse => exact refl s

theorem foldl {α : Type} {f : Store → α → Store} (h : ∀ s a, MailStep s (f s a)) (l : List α)
    (s : Store) : MailStep s (l.foldl f s) := by
  induction l generalizing s
  case nil          => exact refl s
  case cons a l ih  => exact (h s a).trans <| ih _

theorem applyImapComponent {k : String} {merged ids : List String}
    (h : s.applyImapComponent scope k merged ids = .ok s') : MailStep s s' := by
  simp only [Store.applyImapComponent, bind_eq_ok, pure_eq_ok] at h
  obtain ⟨s₁, h₁, h₂⟩ := h
  subst h₂
  have hd : MailStep s (if merged = [] then s else s.dropWatermarks scope (k :: merged)) := by
    split
    case isTrue  => exact refl s
    case isFalse => exact of_messages_eq
  have hc : MailStep _ s₁ :=
    foldlM_relation refl (fun _ _ _ => trans) (fun _ _ _ _ h => rekeyCatchup h) h₁
  refine (hd.trans hc).trans ?_
  exact (foldl (fun s old => rekeyComponent s scope k old) merged s₁).trans <|
    foldl (fun s id => registerId s scope k id) ids _

theorem joinComponent {k : String} {merged ids : List String}
    (h : s.joinComponent scope k merged ids = .ok s') : MailStep s s' := by
  unfold Store.joinComponent at h
  split at h
  case isTrue => exact applyImapComponent h
  case isFalse =>
    cases pure_eq_ok.mp h
    exact refl s

end Threads

end MailStep

section Captured

variable [Codec]

-- The scope that a capture is for.
def Capture.scope (c : Capture) (identity : String) : Scope :=
  ⟨c.provider, c.accountId, identity⟩

-- The stored message that a capture brings another copy of.
def Store.copied (s : Store) (c : Capture) (identity : String) : Option String :=
  c.rfcId.bind (s.logicalMessageId (c.scope identity) · c.source)

-- What a capture has passed before it writes anything.
structure Admitted (s : Store) (c : Capture) (identity : String) (account : Account) : Prop where
  named      : c.mailboxIdentityKey = some identity
  connected  : s.accounts.get (c.provider, c.accountId) = some account
  current    : account.mailboxIdentityKey = some identity
  available  : s.available RECORD (c.candidate identity)
  locations  : c.locations ≠ []
  suppressed : ¬s.isSuppressed c.provider c.accountId
    (suppressionKeys account (c.scope identity) c.source)

-- How a capture that does not raise ends.
inductive Captured (s : Store) (c : Capture) : Store → Bool → Prop
  | refused : Captured s c s false
  | copy {s' : Store} {identity id : String} {account : Account} :
    Admitted s c identity account → s.copied c identity = some id ∧ s.messageAvailable RECORD id →
    s.captureCopy (c.scope identity) c id = .ok s' → Captured s c s' false
  | row {s' : Store} {b : Bool} {identity : String} {account : Account} :
    Admitted s c identity account → s.copied c identity = none →
    s.captureRow (c.scope identity) c = .ok (s', b) → Captured s c s' b

theorem captured {s s' : Store} {c : Capture} {b : Bool} (h : s.capture c = .ok (s', b)) :
    Captured s c s' b := by
  simp only [Store.capture, bind_eq_ok, find_eq_ok] at h
  obtain ⟨identity, hi, _, _, account, ha, h⟩ := h
  obtain ⟨ha, hc⟩ := Option.filter_eq_some_iff.mp ha
  split at h
  case isTrue =>
    cases pure_eq_ok.mp h
    exact .refused
  case isFalse hr =>
    simp only [bind_eq_ok] at h
    obtain ⟨_, _, h⟩ := h
    split at h
    case isTrue =>
      cases pure_eq_ok.mp h
      exact .refused
    case isFalse hl =>
      simp only [bind_eq_ok, require_eq_ok] at h
      obtain ⟨_, hn, h⟩ := h
      split at h
      case isTrue =>
        cases pure_eq_ok.mp h
        exact .refused
      case isFalse hs =>
        have hadm : Admitted s c identity account :=
          ⟨hi, ha, by simpa using hc, by simpa using hr, hn, hs⟩
        split at h
        case h_1 id hid =>
          simp only [map_eq_ok, Prod.mk.injEq] at h
          obtain ⟨_, hc, hs, hb⟩ := h
          subst hs hb
          exact .copy hadm ⟨hid, by simpa [hid] using hl⟩ hc
        case h_2 hid => exact .row hadm hid h

end Captured

namespace MailStep

variable {s s' s₁ s₂ s₃ : Store} {scope : Scope}

section Capture

variable [Codec] {c : Capture}

theorem captureCopy {id : String} (h : s.captureCopy scope c id = .ok s') : MailStep s s' := by
  simp only [Store.captureCopy, bind_eq_ok] at h
  obtain ⟨s₁, h₁, s₂, h₂, h₃⟩ := h
  exact ((recordLocations h₁).trans <| requeueIfSkipped h₂).trans <| joinComponent h₃

theorem captureRow {b : Bool} (h : s.captureRow scope c = .ok (s', b)) : MailStep s s' := by
  simp only [Store.captureRow, bind_eq_ok] at h
  obtain ⟨_, _, h⟩ := h
  split at h
  case isFalse =>
    cases pure_eq_ok.mp h
    exact refl _
  case isTrue hi =>
    simp only [bind_eq_ok, pure_eq_ok, Prod.mk.injEq] at h
    obtain ⟨s₁, h₁, s₂, h₂, h₃, _⟩ := h
    subst h₃
    simp only [insertable, Bool.and_eq_true, Option.isNone_iff_eq_none] at hi
    refine trans (of_row <| .insert ?_ ?_ ?_) <| (joinComponent h₁).trans <| recordLocations h₂
    · exact hi.left
    · rfl
    · rfl

theorem capture {b : Bool} (h : s.capture c = .ok (s', b)) : MailStep s s' := by
  cases captured h
  case refused     => exact refl _
  case copy _ _ hc => exact captureCopy hc
  case row _ _ hr  => exact captureRow hr

theorem recordReconcileHeaders {m : Metadata} {ls : List Folder} {fresh : String}
    (h : s.recordReconcileHeaders scope m ls fresh = .ok s') : MailStep s s' := by
  unfold Store.recordReconcileHeaders at h
  split at h
  case h_1 =>
    cases pure_eq_ok.mp h
    exact refl _
  split at h
  case h_1 =>
    cases pure_eq_ok.mp h
    exact refl _
  case h_2 =>
    simp only [bind_eq_ok] at h
    obtain ⟨s₁, h₁, s₂, h₂, h₃⟩ := h
    exact ((recordLocations h₁).trans <| joinComponent h₂).trans <| requeueIfSkipped h₃

omit [Codec] in
theorem recordMessageLocation {source : String} {ls : List Folder} {b : Bool}
    (h : s.recordMessageLocation scope source ls b = .ok s') : MailStep s s' := by
  unfold Store.recordMessageLocation at h
  split at h
  case h_1 =>
    cases pure_eq_ok.mp h
    exact refl _
  split at h
  case isFalse =>
    cases pure_eq_ok.mp h
    exact refl _
  case isTrue =>
    simp only [bind_eq_ok] at h
    obtain ⟨s₁, h₁, h₂⟩ := h
    split at h₂
    case isTrue =>
      cases pure_eq_ok.mp h₂
      exact recordLocations h₁
    case isFalse => exact (recordLocations h₁).trans <| requeueIfSkipped h₂

end Capture

section Upkeep

theorem recordBody (s : Store) (id : String) (body : (String × Nat) ⊕ UnavailableReason)
    (at' : Instant) : MailStep s (s.recordBody id body at') := by
  unfold Store.recordBody
  split
  case isTrue =>
    split
    case h_1 => exact of_messages_eq
    case h_2 => exact of_messages_eq
  case isFalse => exact refl s

theorem process (s : Store) (id : String) (status : Status) (notified : Bool) :
    MailStep s (s.process id status notified) := by
  refine of_row <| .touch ?_ ?_
  all_goals exact fun _ => rfl

end Upkeep

end MailStep

section Effects

variable [Codec]

-- A request is accepted: its key is new and valid, and what it is about is frozen.
structure Accepts (s s' : Store) (r : Request) : Prop where
  unused : s.requests.get r.requestId = none
  valid  : s.clock < r.requestId.expiry
  frozen : ∃ requests ids uuid, s.requests.insert r = some requests ∧
    freeze { s with requests := requests } r.requestId r.kind ids s.clock uuid = .ok s'

-- What a transaction of the store does.
inductive Effect (s : Store) : Store → Prop
  | mail {s' : Store} : MailStep s s' → Effect s s'
  | tick {elapsed : Nat} : Effect s { s with clock := s.clock + elapsed }
  | accept {s' : Store} {r : Request} : Accepts s s' r → Effect s s'
  | resume {s' : Store} {chunk : List (String × String)} {now : Instant} :
    s.resume chunk now = .ok s' → Effect s s'
  | retire {s' : Store} {retentionDays : Int} : s.retire retentionDays = .ok s' → Effect s s'
  | purgeMessages {chunk : List String} {expired : Message → Bool} :
    Effect s (s.purgeMessages chunk expired)
  | purgeSuppressed {recovering : Provider → String → Bool} :
    Effect s (s.purgeSuppressed recovering)

variable {s s' : Store} {a : Action} {kind : Kind} {parameters : Parameters}

theorem Effect.acceptInTransaction {key : Key} {ids : Option (List String)} {uuid : Nat → String}
    {o : Option Outcome} {b : Bool}
    (h : s.acceptInTransaction key kind parameters ids uuid = .ok (s', o, b)) : Effect s s' := by
  simp only [Store.acceptInTransaction, bind_eq_ok] at h
  obtain ⟨previous, hp, h⟩ := h
  split at h
  case h_1 =>
    cases pure_eq_ok.mp h
    exact .mail <| .refl s
  case h_2 =>
    simp only [bind_eq_ok, validateKey, require_eq_ok, parseKey, pure_eq_ok, find_eq_ok,
      exists_const, Prod.mk.injEq] at h
    obtain ⟨⟨_, ⟨_, he⟩, hv⟩, ids, _, requests, hi, s₁, hf, _, _, hs, _⟩ := h
    subst he hs
    exact .accept ⟨(Table.insert_eq_some.mp hi).left, hv, requests, ids, uuid, hi, hf⟩

-- Every transaction does one of these things.
theorem step_effect (h : step s a = .ok s') : Effect s s' := by
  cases a
  case tick =>
    cases pure_eq_ok.mp h
    exact .tick
  case capture =>
    obtain ⟨_, h, hs⟩ := map_eq_ok.mp h
    exact .mail <| hs ▸ .capture h
  case recordReconcileHeaders   => exact .mail <| .recordReconcileHeaders h
  case recordMessageLocation    => exact .mail <| .recordMessageLocation h
  case reconcileMailboxIdentity => exact .mail <| .reconcileMailboxIdentity h
  case recordBody =>
    cases pure_eq_ok.mp h
    exact .mail <| .recordBody ..
  case process =>
    cases pure_eq_ok.mp h
    exact .mail <| .process ..
  case recomputeDerived =>
    cases pure_eq_ok.mp h
    exact .mail .of_messages_eq
  case accept =>
    obtain ⟨_, h, hs⟩ := map_eq_ok.mp h
    exact hs ▸ .acceptInTransaction h
  case acceptUnfollowUnits =>
    obtain ⟨_, hu, hs⟩ := map_eq_ok.mp h
    simp only [Store.acceptUnfollowUnits] at hu
    split at hu
    case isTrue =>
      cases pure_eq_ok.mp hu
      exact .mail <| hs ▸ .refl s
    case isFalse =>
      simp only [bind_eq_ok, pure_eq_ok] at hu
      obtain ⟨_, _, _, _, _, ha, he⟩ := hu
      subst he hs
      exact .acceptInTransaction ha
  case resume => exact .resume h
  case status =>
    obtain ⟨_, _, hs⟩ := map_eq_ok.mp h
    exact .mail <| hs ▸ .refl s
  case retire => exact .retire h
  case purgeMessages =>
    cases pure_eq_ok.mp h
    exact .purgeMessages
  case purgeSuppressed =>
    cases pure_eq_ok.mp h
    exact .purgeSuppressed

end Effects

end Mail
