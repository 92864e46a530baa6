import EmailWatcher.Library.Crowd
import Mathlib.Data.List.Dedup

-- Who may touch the mail of a source: the locks of single messages of old, and the stripes that replace
-- them.
namespace SourceLocks

open Script

section State

inductive Lock
  -- `source-protocol-selection-v1.lock`
  | selection
  -- `source-stripe-v1-*.lock`
  | stripe    (stripe : Nat)
  -- the lock of a message, by the name of its file
  | legacy    (name : String)
  deriving DecidableEq, Repr

-- The message ids of a frozen set, and whether the protocol had been qualified when it was frozen.
structure Frozen where
  ids   : List String
  ready : Bool
  deriving DecidableEq, Repr

-- The locks and the row of `maintenance_state`, what each thread keeps to itself, and the bodies that it
-- is in, the innermost one first.
structure State (ι : Type) where
  owner     : Lock → Option ι
  protocol  : Option String
  -- `_selection.held`
  selection : ι → Option Frozen
  -- `_context.held`
  context   : ι → Option (List Nat)
  bodies    : ι → List Frozen

inductive Failure
  | value       (message : String)
  | runtime     (message : String)
  -- `SourceProtocolUnavailable`
  | unavailable (message : String)
  -- `OperationLockBusy`
  | busy        (message : String)
  | other       (message : String)
  deriving DecidableEq, Repr

abbrev Program (ι α : Type) := Script (State ι) Failure α

class Codec where
  sha256         : String → Nat
  -- the name of `connect_source_lock_path`
  sourceLockName : String → String

-- What one call meets: its timeout, the locks that it does not get in time, and what comes of the rest.
structure Circumstances where
  timeoutSeconds : Int
  busyMessage    : String := "The Connect source attachment is being changed"
  expires        : Lock → Bool := fun _ => false
  supported      : Lock → Bool := fun _ => true
  -- the names in the directory of the locks
  listing        : List String := []
  admission      : Except Failure Unit := .ok ()
  recompute      : Except Failure Unit := .ok ()

end State

section Stripes

variable [Codec]

def sourceLockStripeCount : Nat := 64

def sourceLockProtocol : String := "source-stripe-v1"

def sourceLockStripe (messageId : String) : Nat :=
  Codec.sha256 ("source\x00" ++ messageId) % sourceLockStripeCount

-- The stripes of a set. No message has the empty id.
def sourceLockStripes (ids : List String) : Except Failure (List Nat) :=
  if "" ∈ ids then .error (.value "Source identity cannot be empty")
  else .ok (ids.map sourceLockStripe).dedup

def isLegacyName (name : String) : Bool :=
  let digits := (name.toList.drop 7).take 64
  name.toList = "source-".toList ++ digits ++ ".lock".toList && digits.length = 64 &&
  digits.all fun c => ('0' ≤ c && c ≤ '9') || ('a' ≤ c && c ≤ 'f')

end Stripes

section Locking

variable {ι : Type} [DecidableEq ι] (i : ι) (c : Circumstances) {α : Type}

def State.give (s : State ι) (l : Lock) (o : Option ι) : State ι :=
  { s with owner := Function.update s.owner l o }

def acquire (l : Lock) (busyMessage : String) : Program ι Unit :=
  attempt (fun s => s.owner l = none ∧ c.expires l = false) (·.give l (some i)) (.busy busyMessage)

-- A thread lets go of its own locks only: what has been closed is not closed again.
def release (l : Lock) : Program ι Unit :=
  step (fun s => if s.owner l = some i then s.give l none else s) fun _ => ret ()

def withLock (l : Lock) (busyMessage : String) (body : Program ι α) : Program ι α := do
  acquire i c l busyMessage
  body.ensure (release i l)

-- An `ExitStack` of locks.
def withLocks (body : Program ι α) : List Lock → Program ι α
  | []      => body
  | l :: ls => withLock i c l c.busyMessage (withLocks body ls)

def setContext (stripes : Option (List Nat)) : Program ι Unit :=
  step (fun s => { s with context := Function.update s.context i stripes }) fun _ => ret ()

-- The body of an outer owner.
def enter (f : Frozen) : Program ι Unit :=
  step
    (fun s => { s with
      selection := Function.update s.selection i (some f)
      bodies    := Function.update s.bodies i (f :: s.bodies i) })
    fun _ => ret ()

def leave : Program ι Unit :=
  step
    (fun s => { s with
      selection := Function.update s.selection i none
      bodies    := Function.update s.bodies i (s.bodies i).tail })
    fun _ => ret ()

-- The body of a nested use.
def enterNested (f : Frozen) : Program ι Unit :=
  step (fun s => { s with bodies := Function.update s.bodies i (f :: s.bodies i) }) fun _ => ret ()

def leaveNested : Program ι Unit :=
  step (fun s => { s with bodies := Function.update s.bodies i (s.bodies i).tail }) fun _ => ret ()

end Locking

section Protocol

variable [Codec] {ι : Type} [DecidableEq ι] (i : ι) (c : Circumstances) {α : Type}

def validateTimeout : Program ι Unit :=
  Script.require (0 ≤ c.timeoutSeconds) (.value "Source-lock timeout must be nonnegative and finite")

def unsupported : Failure :=
  .unavailable "Connect source exclusion requires native operation locking"

def notFrozen : Failure :=
  .runtime "Source lock sets must be frozen by the outer owner"

-- `source_locks`
def sourceLocks (ids : List String) (body : Program ι α) : Program ι α := do
  validateTimeout c
  let stripes ← done (sourceLockStripes ids)
  match ← Script.read (·.context i) with
  | some held => do
    Script.require (stripes ⊆ held) notFrozen
    body
  | none =>
    match stripes.mergeSort with
    | []              => body
    | first :: others => do
      Script.require (c.supported (.stripe first)) unsupported
      withLocks i c (do
          setContext i (some stripes)
          body.ensure (setContext i none))
        ((first :: others).map .stripe)

def protocolReady : Program ι Bool := do
  match ← Script.read (·.protocol) with
  | none       => return false
  | some value => do
    Script.require (value = sourceLockProtocol) <|
      .unavailable "The database names an unsupported source-lock protocol"
    return true

def cleanupHeld (ready : Bool) (rowCount legacyLimit : Nat) : Bool :=
  !ready && rowCount > legacyLimit

def requireSelectedProtocol (ready : Bool) (legacyLimit : Option Nat) : Program ι Unit :=
  Script.require (ready ∨ legacyLimit.isSome) <|
    .unavailable "Connect handoff is deferred while the source-lock upgrade completes"

-- Whether a set may be used within a frozen one.
def within (ids : List String) (held : Frozen) : Except Failure Bool :=
  if held.ready then do
    let inner ← sourceLockStripes ids
    let outer ← sourceLockStripes held.ids
    return inner ⊆ outer
  else
    return ids ⊆ held.ids

-- The body of an outer owner, which is yielded `True`.
def hold (f : Frozen) (body : Program ι α) : Program ι α := do
  enter i f
  body.ensure (leave i)

-- `selected_source_locks`, with the body for what is yielded.
def selectedSourceLocks (messageIds : List String) (legacyLimit : Option Nat)
    (body : Bool → Program ι α) : Program ι α := do
  validateTimeout c
  let ids := messageIds.dedup
  match ← Script.read (·.selection i) with
  | some held => do
    requireSelectedProtocol held.ready legacyLimit
    let subset ← done (within ids held)
    Script.require subset notFrozen
    enterNested i ⟨ids, held.ready⟩
    (body true).ensure (leaveNested i)
  | none => do
    Script.require (c.supported .selection) unsupported
    withLock i c .selection c.busyMessage do
      let ready ← protocolReady
      requireSelectedProtocol ready legacyLimit
      if ready then
        sourceLocks i c ids do
          -- A qualified protocol cannot revert, so that the guard is closed here.
          release i .selection
          hold i ⟨ids, true⟩ (body true)
      else if cleanupHeld ready ids.length (legacyLimit.getD 0) then
        -- The owner is told to preserve the unit.
        body false
      else
        withLocks i c (hold i ⟨ids, false⟩ (body true))
          (ids.mergeSort.map fun m => .legacy (Codec.sourceLockName m))

-- Every lock of old is taken once, so that no owner of one is left.
def drain : List String → Program ι Unit
  | []            => pure ()
  | name :: names => do
    Script.require (c.supported (.legacy name)) unsupported
    withLock i c (.legacy name) "Legacy source handoff remains active" (pure ())
    drain names

def record : Program ι Unit :=
  step (fun s => { s with protocol := some sourceLockProtocol }) fun _ => ret ()

-- `_qualify_protocol`
def qualifyProtocol : Program ι Unit := do
  if ← protocolReady then
    done c.recompute
  else
    Script.require (c.supported .selection) unsupported
    withLock i c .selection "Source-lock protocol is being selected" do
      done c.admission
      drain i c (c.listing.filter isLegacyName)
      done c.recompute
      record

end Protocol

section Threads

-- What a thread does. In the body of a use it may do anything that it may do outside.
inductive Task
  | pause
  | fail
  | seq     (t u : Task)
  -- `try: t; except: u`
  | attempt (t u : Task)
  | use     (c : Circumstances) (messageIds : List String) (legacyLimit : Option Nat)
      (acquired refused : Task)
  | qualify (c : Circumstances)

variable [Codec] {ι : Type} [DecidableEq ι] (i : ι)

def Task.program : Task → Program ι Unit
  | pause       => Script.read fun _ => ()
  | fail        => raise (.other "")
  | seq t u     => do
    t.program
    u.program
  | attempt t u => t.program.handle fun _ => u.program
  | use c messageIds legacyLimit t u =>
    selectedSourceLocks i c messageIds legacyLimit fun acquired =>
      if acquired then t.program else u.program
  | qualify c   => qualifyProtocol i c

-- A thread that dies leaves its locks to the others, and keeps nothing to itself.
def State.drop (s : State ι) : State ι where
  owner l   := if s.owner l = some i then none else s.owner l
  protocol  := s.protocol
  selection := Function.update s.selection i none
  context   := Function.update s.context i none
  bodies    := Function.update s.bodies i []

def State.initial (protocol : Option String) : State ι where
  owner _     := none
  protocol    := protocol
  selection _ := none
  context _   := none
  bodies _    := []

abbrev threads : Machine (Crowd ι (State ι) Failure Unit) (Turn ι Task) Unit :=
  crowd Task.program fun i s => s.drop i

-- The state after a run of any number of threads.
def after (protocol : Option String) (as : List (Turn ι Task)) : State ι :=
  (threads.run ⟨.initial protocol, fun _ => none⟩ as).state

end Threads

end SourceLocks
