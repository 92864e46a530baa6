import EmailWatcher.Basic
import EmailWatcher.Library.Table
import EmailWatcher.Library.Transaction

-- The keys by which a local removal is asked for, and the receipts of those that have been accepted.
namespace Removal

open Transaction

section Schema

inductive Kind
  | clear
  | delete
  deriving DecidableEq, Repr

-- What is to be removed: the kind of a request, and its parameters.
structure Target where
  kind      : Kind
  messageId : Option String
  deriving DecidableEq, Repr

-- `rm1.{expires}.{token}.{signature}`
structure Key where
  -- in seconds since the epoch
  expires   : Int
  token     : Nat
  signature : Nat
  deriving DecidableEq, Repr

class Codec where
  requestHash : Target → Nat
  sign        : (expires : Int) → (token : Nat) → Kind → (fingerprint : Nat) → Nat

-- A row of `message_removal_requests`, with the counts of its intents.
structure Receipt where
  requestId        : Key
  kind             : Kind
  parametersSha256 : Nat
  requested        : Nat
  completed        : Nat
  deriving DecidableEq, Repr

instance : Keyed Receipt Key where
  key := Receipt.requestId

inductive Code
  | notFound
  | invalidRequest
  -- any other code of an engine or of the host
  | other (code : String)
  deriving DecidableEq, Repr

structure Failure where
  code    : Code
  message : String
  deriving DecidableEq, Repr

structure InboxRemovalResult where
  requestId : Key
  requested : Nat
  completed : Nat
  deriving DecidableEq, Repr

def InboxRemovalResult.isCompleted (r : InboxRemovalResult) : Bool :=
  r.requested - r.completed = 0

end Schema

section Operations

def requestInvalid (message : String) : Failure :=
  ⟨.invalidRequest, message⟩

-- `_removal_parameters`
def removalParameters (t : Target) : Except Failure Unit :=
  match t.kind, t.messageId with
  | .delete, some messageId =>
    if strip messageId = "" ∨ messageId.length > 512 then
      .error (requestInvalid "message_id must be a non-empty string of at most 512 characters")
    else .ok ()
  | .delete, none   =>
    .error (requestInvalid "message_id must be a non-empty string of at most 512 characters")
  | .clear,  none   => .ok ()
  | .clear,  some _ => .error (requestInvalid "message_id is only supported for delete")

variable [Codec]

def Target.fingerprint (t : Target) : Nat :=
  Codec.requestHash t

def Key.Expired (k : Key) (now : Instant) : Prop :=
  k.expires * Instant.second ≤ now

instance (k : Key) (now : Instant) : Decidable (k.Expired now) :=
  inferInstanceAs <| Decidable (k.expires * Instant.second ≤ now)

def day : Int := 86400 * Instant.second

-- The token is a random number, which no other key has.
def issueKey (token : Nat) (t : Target) (retentionDays : Int) (now : Instant) : Except Failure Key :=
  if retentionDays < 1 then .error (requestInvalid "Invalid removal retention interval")
  else
    let expires := (now + retentionDays * day).tdiv Instant.second
    .ok ⟨expires, token, Codec.sign expires token t.kind t.fingerprint⟩

def parseKey (k : Key) (t : Target) : Except Failure Int := do
  require (k.signature = Codec.sign k.expires k.token t.kind t.fingerprint) <|
    requestInvalid "Local removal request key does not match its parameters"
  return k.expires

def validateKey (k : Key) (t : Target) (now : Instant) : Except Failure Unit := do
  let expires ← parseKey k t
  require (¬expires * Instant.second ≤ now) <|
    requestInvalid "Local removal request key has expired; start a new request"

def Receipt.result (r : Receipt) : InboxRemovalResult :=
  ⟨r.requestId, r.requested, r.completed⟩

def Receipt.Matches (r : Receipt) (t : Target) : Prop :=
  r.kind = t.kind ∧ r.parametersSha256 = t.fingerprint

instance (r : Receipt) (t : Target) : Decidable (r.Matches t) :=
  inferInstanceAs <| Decidable (r.kind = t.kind ∧ r.parametersSha256 = t.fingerprint)

def outcome (receipts : Table Receipt) (k : Key) (t : Option Target) :
    Except Failure (Option InboxRemovalResult) :=
  match receipts.get k with
  | none   => .ok none
  | some r =>
    if ∀ u, t = some u → r.Matches u then .ok (some r.result)
    else .error (requestInvalid "Removal request key was already used with different parameters")

def status (receipts : Table Receipt) (now : Instant) (k : Key) (t : Option Target) :
    Except Failure (Option InboxRemovalResult) := do
  match ← outcome receipts k t with
  | some result => return some result
  | none        =>
    match t with
    | none   => .error (requestInvalid "Local removal request has not been accepted")
    | some u => do
      validateKey k u now
      return none

-- `_inbox_removal_status`
def inboxRemovalStatus (receipts : Table Receipt) (now : Instant) (k : Key) (t : Option Target) :
    Except Failure InboxRemovalResult := do
  t.elim (.ok ()) removalParameters
  let result ← status receipts now k t
  find result ⟨.notFound, "Removal request was not found"⟩

-- The transaction of `accept`: the receipt of a request, and whether it is new. What a request finds to
-- remove is left to the mail store.
def accept (receipts : Table Receipt) (now : Instant) (k : Key) (t : Target)
    (requested : Except Failure Nat) : Except Failure (Table Receipt × Bool) := do
  removalParameters t
  match ← outcome receipts k (some t) with
  | some _ => return (receipts, false)
  | none   => do
    validateKey k t now
    let requested ← requested
    return (receipts.put ⟨k, t.kind, t.fingerprint, requested, 0⟩, true)

end Operations

section Rules

variable [Codec] {receipts receipts' : Table Receipt} {now : Instant} {k : Key} {t : Target}
  {r : Receipt} {e : Failure} {requested : Except Failure Nat}

theorem validateKey_eq_ok (h : validateKey k t now = .ok ()) : ¬k.Expired now := by
  obtain ⟨expires, hp, h⟩ := bind_eq_ok.mp h
  obtain ⟨_, -, hp⟩ := bind_eq_ok.mp hp
  cases hp
  exact require_eq_ok.mp h

theorem outcome_eq_none {u : Option Target} (h : outcome receipts k u = .ok none) :
    receipts.get k = none := by
  simp only [outcome] at h
  split at h
  case h_1 hr => exact hr
  case h_2    => split at h <;> cases h

theorem status_eq_none {u : Option Target} (h : status receipts now k u = .ok none) :
    receipts.get k = none ∧ ¬k.Expired now := by
  obtain ⟨result, ho, h⟩ := bind_eq_ok.mp h
  cases result
  case some => cases h
  case none =>
    cases u
    case none   => cases h
    case some t =>
      obtain ⟨_, hv, -⟩ := bind_eq_ok.mp h
      exact ⟨outcome_eq_none ho, validateKey_eq_ok hv⟩

omit [Codec] in
-- What a failure of a check is called.
theorem require_eq_error {c : Prop} [Decidable c] {message : String}
    (h : require c (requestInvalid message) = .error e) : e.code = .invalidRequest := by
  simp only [require] at h
  split at h <;> cases h
  rfl

theorem outcome_eq_error {u : Option Target} (h : outcome receipts k u = .error e) :
    e.code = .invalidRequest := by
  simp only [outcome] at h
  split at h
  case h_1 => cases h
  case h_2 =>
    split at h <;> cases h
    rfl

theorem validateKey_eq_error (h : validateKey k t now = .error e) : e.code = .invalidRequest := by
  obtain h | ⟨expires, -, h⟩ := bind_eq_error.mp h
  · obtain h | ⟨_, -, h⟩ := bind_eq_error.mp h
    · exact require_eq_error h
    · cases h
  · exact require_eq_error h

theorem status_eq_error {u : Option Target} (h : status receipts now k u = .error e) :
    e.code = .invalidRequest := by
  obtain h | ⟨result, -, h⟩ := bind_eq_error.mp h
  · exact outcome_eq_error h
  · cases result
    case some => cases h
    case none =>
      cases u
      case none   =>
        cases h
        rfl
      case some t =>
        obtain h | ⟨_, -, h⟩ := bind_eq_error.mp h
        · exact validateKey_eq_error h
        · cases h

omit [Codec] in
theorem removalParameters_eq_error (h : removalParameters t = .error e) :
    e.code = .invalidRequest := by
  obtain ⟨kind, messageId⟩ := t
  cases kind <;> cases messageId <;> simp only [removalParameters] at h
  case delete.some =>
    split at h <;> cases h
    rfl
  case clear.none  => cases h
  all_goals
    cases h
    rfl

-- What is reported as missing has no receipt, and could still be accepted.
theorem inboxRemovalStatus_eq_notFound {u : Option Target}
    (h : inboxRemovalStatus receipts now k u = .error e) (he : e.code = .notFound) :
    receipts.get k = none ∧ ¬k.Expired now := by
  obtain h | ⟨_, -, h⟩ := bind_eq_error.mp h
  · cases u
    case none   => cases h
    case some t => simp [removalParameters_eq_error h] at he
  · obtain h | ⟨result, hs, h⟩ := bind_eq_error.mp h
    · simp [status_eq_error h] at he
    · cases result
      case none   => exact status_eq_none hs
      case some r => cases h

-- A request that has a receipt of its own is found.
theorem inboxRemovalStatus_of_receipt {u : Option Target} (h : receipts.get k = some r)
    (hu : ∀ t, u = some t → r.Matches t ∧ removalParameters t = .ok ()) :
    inboxRemovalStatus receipts now k u = .ok r.result := by
  have ho : outcome receipts k u = .ok (some r.result) := by
    simp only [outcome, h]
    rw [if_pos fun t ht => (hu t ht).left]
  have hs : status receipts now k u = .ok (some r.result) := by
    simp only [status, ho]
    rfl
  cases u
  case none   =>
    rw [inboxRemovalStatus, hs]
    rfl
  case some t =>
    rw [inboxRemovalStatus, hs, Option.elim, (hu t rfl).right]
    rfl

theorem accept_eq_ok {created : Bool}
    (h : accept receipts now k t requested = .ok (receipts', created)) :
    (receipts' = receipts ∧ created = false) ∨
    (receipts.get k = none ∧ ¬k.Expired now ∧ created = true ∧
      ∃ n, receipts' = receipts.put ⟨k, t.kind, t.fingerprint, n, 0⟩) := by
  obtain ⟨_, -, h⟩ := bind_eq_ok.mp h
  obtain ⟨result, ho, h⟩ := bind_eq_ok.mp h
  cases result
  case some =>
    cases h
    exact .inl ⟨rfl, rfl⟩
  case none =>
    obtain ⟨_, hv, h⟩ := bind_eq_ok.mp h
    obtain ⟨n, -, h⟩ := bind_eq_ok.mp h
    cases h
    exact .inr ⟨outcome_eq_none ho, validateKey_eq_ok hv, rfl, n, rfl⟩

end Rules

end Removal
