import EmailWatcher.Basic
import EmailWatcher.Library.Machine
import EmailWatcher.Library.Table
import EmailWatcher.Library.Transaction

-- The tables of one mailbox scope that decide how far the mailbox has been reconciled.
namespace Reconcile

open Transaction

-- The row of `coverage_generation`.
structure Generation where
  generation        : Nat
  entitlementActive : Option Bool
  retentionDays     : Option Nat
  sentFolder        : Option String
  deriving DecidableEq, Repr

-- The row of `reconcile_coverage`.
structure Coverage where
  generation : Nat
  recordedAt : Instant
  deriving DecidableEq, Repr

-- The row of `reconcile_progress`, and the copy of it that a pass works with.
structure Progress where
  generation    : Nat
  startedAt     : Instant
  retentionDays : Nat
  version       : Nat
  payload       : String
  deriving DecidableEq, Repr

def Progress.saved (payload : String) (p : Progress) : Progress :=
  { p with payload := payload, version := p.version + 1 }

inductive Phase
  | discovery
  | sync
  deriving DecidableEq, Repr

inductive Folder
  | inbox
  | sent
  | all
  deriving DecidableEq, Repr

-- A row of `reconcile_items`.
structure Item where
  generation     : Nat
  phase          : Phase
  unit           : String
  sourceId       : String
  nativeThreadId : Option String
  receivedAt     : Option String
  folder         : Folder
  done           : Bool
  deriving DecidableEq, Repr

instance : Keyed Item (Nat × Phase × String × String) where
  key i := (i.generation, i.phase, i.unit, i.sourceId)

-- A row of `reconcile_catchup`.
structure Catchup where
  generation : Nat
  threadKey  : String
  target     : Instant
  deriving DecidableEq, Repr

instance : Keyed Catchup (Nat × String) where
  key c := (c.generation, c.threadKey)

-- A row of `thread_follow`, without its owner.
structure Follow where
  threadKey : String
  followed  : Bool
  deriving DecidableEq, Repr

instance : Keyed Follow String where
  key := Follow.threadKey

-- A row of `thread_watermarks`.
structure Watermark where
  threadKey     : String
  syncedThrough : Instant
  deriving DecidableEq, Repr

instance : Keyed Watermark String where
  key := Watermark.threadKey

-- A stored copy of a message. Times are `none` if they are not well-formed.
structure Copy where
  receivedAt   : Option Instant
  discoveredAt : Option Instant
  deriving DecidableEq, Repr

-- A logical message: the rows of its unit, the receive times of the copies that are recorded only as
-- a location, and what is stored of its body.
structure Message where
  messageId        : String
  threadKey        : Option String
  copies           : List Copy
  locatedAt        : List Instant
  contentAvailable : Bool
  hasBody          : Bool
  bodyUnavailable  : Bool
  deriving DecidableEq, Repr

instance : Keyed Message String where
  key := Message.messageId

-- A running pass, with the progress that it has loaded or written last.
structure Pass where
  passId   : String
  progress : Progress
  deriving DecidableEq, Repr

instance : Keyed Pass String where
  key := Pass.passId

structure State where
  generation : Option Generation
  coverage   : Option Coverage
  progress   : Option Progress
  items      : Table Item
  catchup    : Table Catchup
  follow     : Table Follow
  watermarks : Table Watermark
  messages   : Table Message
  passes     : Table Pass

instance : EmptyCollection State where
  emptyCollection := {
    generation := none
    coverage   := none
    progress   := none
    items      := ∅
    catchup    := ∅
    follow     := ∅
    watermarks := ∅
    messages   := ∅
    passes     := ∅
  }

def day : Int := 24 * 60 * 60 * Instant.second

namespace State

def followed (s : State) (threadKey : String) : Bool :=
  (s.follow.get threadKey).any (·.followed)

section Generation

-- `INSERT OR IGNORE INTO coverage_generation`.
def ensureGeneration (s : State) : Generation :=
  s.generation.getD {
    generation        := 0
    entitlementActive := none
    retentionDays     := none
    sentFolder        := none
  }

-- `_bump_coverage_generation`
def bumpCoverageGeneration (s : State) (amount : Nat) (clearWatermarks : Bool) : State :=
  let g := s.ensureGeneration
  { s with
    generation := some { g with generation := g.generation + amount }
    watermarks := if clearWatermarks then ∅ else s.watermarks
  }

-- An entitlement that comes back, another Sent folder and a longer retention ask for mail that has
-- been passed over.
def clearsWatermarks (g : Generation) (active : Bool) (retentionDays : Nat)
    (sentFolder : Option String) : Bool :=
  (g.entitlementActive = some false && active) || g.sentFolder ≠ sentFolder ||
  g.retentionDays.any (· < retentionDays)

def observe (s : State) (active : Bool) (retentionDays : Nat) (sentFolder : Option String) :
    Except StoreError State :=
  let g := s.ensureGeneration
  let folder := sentFolder.or g.sentFolder
  if g.entitlementActive = some active ∧ g.retentionDays = some retentionDays ∧
      g.sentFolder = folder then
    return { s with generation := some g }
  else do
    require (0 < retentionDays) <|
      .integrity "CHECK constraint failed: retention_days>0"
    let s := s.bumpCoverageGeneration 1 (clearsWatermarks g active retentionDays folder)
    return { s with
      generation := some { s.ensureGeneration with
        entitlementActive := some active
        retentionDays     := some retentionDays
        sentFolder        := folder
      }
    }

def gap (s : State) : State :=
  s.bumpCoverageGeneration 1 true

end Generation

section Follow

-- `record_follow_transition`
def recordFollowTransition (s : State) (threadKey : String) (now : Instant) : State :=
  match s.progress with
  | none   => s
  | some p =>
    let target := match s.catchup.get (p.generation, threadKey) with
      | none   => now
      | some c => max c.target now
    { s with catchup := s.catchup.put ⟨p.generation, threadKey, target⟩ }

-- What `_recompute_derived` finds out about a thread that has messages, and when it says so.
structure Group where
  threadKey : String
  followed  : Bool
  now       : Instant

def updateFollow (s : State) (g : Group) : State :=
  let before := s.followed g.threadKey
  let s := { s with follow := s.follow.put ⟨g.threadKey, g.followed⟩ }
  if g.followed && !before then s.recordFollowTransition g.threadKey g.now else s

-- A transaction on the inputs of the derived tables. `inputs` counts the changed rows of accounts
-- and vendors, `changed` are the threads that the changed rows belong to.
structure Derivation where
  inputs   : Nat
  full     : Bool
  messages : Table Message
  changed  : List String
  groups   : List Group
  -- The groups are collected by thread.
  nodup    : (groups.map (·.threadKey)).Nodup

def Derivation.covers (d : Derivation) (threadKey : String) : Bool :=
  d.full || threadKey ∈ d.changed

-- Threads without messages, whose catch-up goes with them.
def dropThreads (s : State) (d : Derivation) : State :=
  let gone (threadKey : String) : Bool :=
    d.covers threadKey && threadKey ∉ d.groups.map (·.threadKey)
  { s with
    follow  := s.follow.delete (gone ·.threadKey)
    catchup := s.catchup.delete fun c => (s.follow.get c.threadKey).isSome && gone c.threadKey
  }

-- `_recompute_derived`, as far as it concerns coverage.
def recomputeDerived (s : State) (d : Derivation) : State :=
  let s := { s with messages := d.messages }
  let s := if d.inputs = 0 then s else s.bumpCoverageGeneration d.inputs false
  let s := d.groups.foldl updateFollow (s.dropThreads d)
  { s with
    watermarks := s.watermarks.delete fun w => d.covers w.threadKey && !s.followed w.threadKey
  }

end Follow

section Bodies

-- A copy that is out of retention, or dated so that it cannot be told.
def Copy.expired (cutoff now : Instant) (c : Copy) : Bool :=
  match c.receivedAt with
  | none          => true
  | some received =>
    (now < received && c.discoveredAt.all fun seen => seen < cutoff || now < seen) ||
    (received ≤ now && received < cutoff)

-- `_logical_messages_past_cutoff_sql`
def Message.expired (cutoff now : Instant) (m : Message) : Bool :=
  m.copies.all (Copy.expired cutoff now) && m.locatedAt.all (· < cutoff)

-- `body_state.pending`
def pending (s : State) (cutoff now : Instant) : List String :=
  s.messages.rows.filter (fun m => m.threadKey.any s.followed && m.contentAvailable &&
      !m.hasBody && !m.bodyUnavailable && !Message.expired cutoff now m)
    |>.map (·.messageId)

-- `body_state.record`
def record (s : State) (messageId : String) (available : Bool) : State := { s with
  messages := s.messages.update
    (fun m => m.messageId = messageId && m.contentAvailable && m.threadKey.any s.followed)
    fun m => { m with hasBody := available, bodyUnavailable := !available }
}

end Bodies

section Passes

def pass (s : State) (passId : String) : Except StoreError Progress := do
  let p ← find (s.passes.get passId) <| .runtime "no such pass"
  return p.progress

def hold (s : State) (passId : String) (p : Progress) : State :=
  { s with passes := s.passes.put ⟨passId, p⟩ }

-- The insertion of a new progress row.
def startProgress (s : State) (generation : Nat) (now : Instant) (retentionDays : Nat)
    (payload : String) : Except StoreError (State × Progress) := do
  require (0 < retentionDays) <|
    .integrity "CHECK constraint failed: retention_days>0"
  let p : Progress := {
    generation    := generation
    startedAt     := now
    retentionDays := retentionDays
    version       := 0
    payload       := payload
  }
  return ({ s with progress := some p }, p)

-- Progress made for an earlier generation is thrown away.
def discardStale (s : State) (generation : Nat) : State :=
  if s.progress.any (·.generation ≠ generation) then
    { s with progress := none, items := ∅, catchup := ∅ }
  else
    s

def loadOrStart (s : State) (passId : String) (now : Instant) (retentionDays : Nat)
    (payload : String) : Except StoreError State := do
  let g ← find s.generation <| .type "'NoneType' object is not subscriptable"
  let s := s.discardStale g.generation
  match s.progress with
  | some p => return s.hold passId p
  | none   =>
    let (s, p) ← s.startProgress g.generation now retentionDays payload
    return s.hold passId p

-- The compare-and-swap of `save`, `next_interval` and `complete`.
def current (s : State) (p : Progress) : Bool :=
  s.progress.any fun row => row.generation = p.generation && row.version = p.version

def save (s : State) (passId : String) (payload : String) : Except StoreError State := do
  let p ← s.pass passId
  require (s.current p) <| .runtime "reconcile progress changed concurrently"
  return { s with progress := s.progress.map (Progress.saved payload) }.hold passId
    (p.saved payload)

-- A listed source: its identifier, its native thread and its receive time.
structure Source where
  messageId  : String
  threadId   : Option String
  receivedAt : Option String

def putItems (s : State) (passId : String) (phase : Phase) (unit : String) (sources : List Source)
    (folder : Folder) : Except StoreError State := do
  let p ← s.pass passId
  return { s with
    items := sources.foldl (fun items i => items.insertOrIgnore {
      generation     := p.generation
      phase          := phase
      unit           := unit
      sourceId       := i.messageId
      nativeThreadId := i.threadId
      receivedAt     := i.receivedAt
      folder         := folder
      done           := false
    }) s.items
  }

def finishItem (s : State) (passId : String) (phase : Phase) (unit sourceId : String) :
    Except StoreError State := do
  let p ← s.pass passId
  return { s with
    items := s.items.update (fun i => i.generation = p.generation && i.phase = phase &&
      i.unit = unit && i.sourceId = sourceId) fun i => { i with done := true }
  }

-- How far a thread is synced when the pass says that it is through.
def syncedThrough (s : State) (p : Progress) (threadKey : String) : Instant :=
  match s.watermarks.get threadKey with
  | none   => p.startedAt
  | some w => max w.syncedThrough p.startedAt

-- `aliases` is the number of keys that the pass has seen merged into the thread, `currentAliases`
-- the number of them now.
def watermark (s : State) (passId threadKey : String) (aliases currentAliases : Nat) :
    Except StoreError State := do
  let p ← s.pass passId
  if s.followed threadKey && aliases = currentAliases then
    return { s with watermarks := s.watermarks.put ⟨threadKey, s.syncedThrough p threadKey⟩ }
  else
    return s

def nextInterval (s : State) (passId : String) (now : Instant) (payload : String) :
    Except StoreError State := do
  let p ← s.pass passId
  require (s.current p) <| .runtime "reconcile progress changed concurrently"
  let (s, p) ← { s with items := ∅ }.startProgress p.generation now p.retentionDays payload
  return s.hold passId p

-- `catchup_pending`: a followed thread of which something has not been synced that had been promised.
def catchupPending (s : State) (p : Progress) : Bool :=
  s.catchup.rows.any fun c => c.generation = p.generation && s.followed c.threadKey &&
    (s.watermarks.get c.threadKey).all (·.syncedThrough < c.target)

-- The certificate of a later generation is not replaced.
def certify (s : State) (p : Progress) (recordedAt : Instant) : Option Coverage :=
  match s.coverage with
  | none   => some ⟨p.generation, recordedAt⟩
  | some c => if c.generation ≤ p.generation then some ⟨p.generation, recordedAt⟩ else some c

def complete (s : State) (passId : String) (recordedAt : Instant) : Except StoreError State := do
  let p ← s.pass passId
  require (!s.catchupPending p) <| .runtime "reconcile catch-up remains pending"
  require (s.current p) <| .runtime "reconcile progress changed concurrently"
  require (s.pending (p.startedAt - p.retentionDays * day) p.startedAt = []) <|
    .runtime "reconcile body work remains pending"
  return { s with
    coverage := s.certify p recordedAt
    items    := s.items.delete (·.generation = p.generation)
    catchup  := s.catchup.delete (·.generation = p.generation)
    progress := none
  }

end Passes

-- `coverage_current`: the predicate that destructive retention relies on.
def coverageCurrent (s : State) (now : Instant) (retentionDays : Option Nat) :
    Except StoreError Bool :=
  match s.generation with
  | none   => return false
  | some g =>
    if s.coverage.map (·.generation) ≠ some g.generation then
      return false
    else if s.progress.isSome then
      return false
    else if s.follow.rows.any fun f => f.followed && (s.watermarks.get f.threadKey).isNone then
      return false
    else do
      let days ← find (retentionDays.or g.retentionDays) <|
        .type "unsupported type for timedelta days component: NoneType"
      return s.pending (now - days * day) now = []

end State

inductive Action
  | observe (active : Bool) (retentionDays : Nat) (sentFolder : Option String)
  | gap
  | recomputeDerived (d : State.Derivation)
  | record (messageId : String) (available : Bool)
  | loadOrStart (passId : String) (now : Instant) (retentionDays : Nat) (payload : String)
  | save (passId payload : String)
  | putItems (passId : String) (phase : Phase) (unit : String) (sources : List State.Source)
      (folder : Folder)
  | finishItem (passId : String) (phase : Phase) (unit sourceId : String)
  | watermark (passId threadKey : String) (aliases currentAliases : Nat)
  | nextInterval (passId : String) (now : Instant) (payload : String)
  | complete (passId : String) (recordedAt : Instant)

def step (s : State) : Action → Except StoreError State
  | .observe active retentionDays sentFolder => s.observe active retentionDays sentFolder
  | .gap                                     => .ok s.gap
  | .recomputeDerived d                      => .ok (s.recomputeDerived d)
  | .record messageId available              => .ok (s.record messageId available)
  | .loadOrStart passId now retentionDays payload =>
    s.loadOrStart passId now retentionDays payload
  | .save passId payload                      => s.save passId payload
  | .putItems passId phase unit sources folder => s.putItems passId phase unit sources folder
  | .finishItem passId phase unit sourceId     => s.finishItem passId phase unit sourceId
  | .watermark passId threadKey aliases currentAliases =>
    s.watermark passId threadKey aliases currentAliases
  | .nextInterval passId now payload => s.nextInterval passId now payload
  | .complete passId recordedAt      => s.complete passId recordedAt

def machine : Machine State Action StoreError where
  step := step

end Reconcile
