import EmailWatcher.Library.Crowd
import EmailWatcher.Library.Story
import EmailWatcher.Removal.Requests

-- A removal on its way from the page over the host to the engine.
namespace Removal

open Script

section State

-- An entry of the host's journal.
structure SavedRemoval where
  requestId : Key
  target    : Target
  deriving DecidableEq, Repr

inductive RecordState
  | found   (receipt : InboxRemovalResult)
  | missing (error : Failure)
  | error   (error : Failure)
  deriving DecidableEq, Repr

structure InboxRemovalRecord where
  request : SavedRemoval
  state   : RecordState
  deriving DecidableEq, Repr

instance : Keyed InboxRemovalRecord Key where
  key r := r.request.requestId

def InboxRemovalRecord.Missing (r : InboxRemovalRecord) : Prop :=
  ∃ e, r.state = .missing e

def InboxRemovalRecord.isMissing (r : InboxRemovalRecord) : Bool :=
  match r.state with
  | .missing _ => true
  | _          => false

-- That the removal is complete.
def InboxRemovalRecord.isCompleted (r : InboxRemovalRecord) : Bool :=
  match r.state with
  | .found receipt => receipt.isCompleted
  | _              => false

-- What `InboxRemovalClient` keeps, and what its `restore` has yet to read.
structure Client where
  records     : Table InboxRemovalRecord := ∅
  latestClear : Option Key := none
  restoring   : List SavedRemoval := []

-- The commands of the host.
inductive Command
  | prepare     (t : Target)
  | saved
  | status      (request : SavedRemoval)
  | acknowledge (k : Key)
  -- `inbox_clear` and `inbox_delete`
  | mutate      (k : Key) (t : Target)
  deriving DecidableEq, Repr

inductive Reply
  | prepared     (k : Key)
  | saved        (requests : List SavedRemoval)
  | receipt      (r : InboxRemovalResult)
  | acknowledged
  deriving DecidableEq, Repr

-- A call of a page to the host.
structure Call where
  page    : Nat
  command : Command
  taken   : Bool := false
  reply   : Option (Except Failure Reply) := none

inductive Phase
  | waiting
  | holding
  | ended
  deriving DecidableEq, Repr

-- A request of the host's worker to an engine of its own, which waits for the operation lock, holds it, and
-- ends.
structure Mutation where
  requestId : Key
  target    : Target
  worker    : Nat
  phase     : Phase := .waiting
  reply     : Option (Except Failure InboxRemovalResult) := none

inductive Process
  | page   (n : Nat)
  -- the worker for a call
  | worker (c : Nat)
  -- the engine for a mutation
  | engine (r : Nat)
  | other
  deriving DecidableEq, Repr

-- What happens, as it happens. A call that prepares a removal stands for the action that it is for.
inductive Event
  | issued     (call : Nat) (k : Key) (t : Target)
  | remembered (call : Nat) (k : Key)
  | forgotten  (call : Nat) (k : Key)
  | requested  (page action call : Nat) (k : Key)
  | dispatched (call : Nat) (k : Key)
  | accepted   (request : Nat) (k : Key)
  | retired    (k : Key)
  -- a call of `onChange`
  | shown      (page : Nat) (records : List InboxRemovalRecord)
  deriving DecidableEq, Repr

structure Desk where
  clock       : Instant
  -- the number of keys that have been issued
  issued      : Nat
  receipts    : Table Receipt
  journal     : List SavedRemoval
  -- the worker that the desktop removal coordinator has let in
  coordinator : Option Nat
  -- who holds the operation lock
  operation   : Option Process
  calls       : List Call
  mutations   : List Mutation
  client      : Nat → Client
  story       : List Event

abbrev Program (α : Type) := Script Desk Failure α

-- The places at which a process may meet trouble that is none of its own.
inductive Point
  | admission
  | location
  | expiry
  | engine
  | reply
  | read
  | reread
  | write
  | sync
  | deadline
  | change
  | lastChange
  deriving DecidableEq, Repr

structure Trouble where
  code    : String
  message : String
  deriving DecidableEq, Repr

-- What one program meets.
structure Circumstances where
  trouble       : Point → Option Trouble := fun _ => none
  retentionDays : Int := 30
  -- what a removal finds to remove
  requested     : Except Failure Nat := .ok 0

end State

section Host

variable {α : Type} (f : Circumstances) (c : Nat)

def meet (p : Point) : Program Unit :=
  match f.trouble p with
  | some t => raise ⟨.other t.code, t.message⟩
  | none   => ret ()

def hostError : Failure :=
  ⟨.other "host_error", "Local removal recovery is unavailable"⟩

def note (e : Event) (s : Desk) : Desk :=
  { s with story := s.story ++ [e] }

-- `read`
def readJournal (p : Point) : Program (List SavedRemoval) := do
  meet f p
  let requests ← Script.read (·.journal)
  Script.require (requests.map (·.requestId)).Nodup hostError
  return requests

-- `write`: the file is replaced as a whole.
def writeJournal (requests : List SavedRemoval) (e : Event) : Program Unit := do
  meet f .write
  step (fun s => note e { s with journal := requests }) fun _ => ret ()
  meet f .sync

def remember (entry : SavedRemoval) : Program Unit := do
  let requests ← readJournal f .read
  match requests.find? (·.requestId = entry.requestId) with
  | some saved => Script.require (saved = entry) hostError
  | none       => writeJournal f (requests ++ [entry]) (.remembered c entry.requestId)

def forget (k : Key) : Program Unit := do
  let requests ← readJournal f .reread
  if k ∈ requests.map (·.requestId) then
    writeJournal f (requests.filter (·.requestId ≠ k)) (.forgotten c k)
  else
    return

def unlock : Program Unit :=
  step (fun s => if s.operation = some (.worker c) then { s with operation := none } else s)
    fun _ => ret ()

-- `with_operation_lock_location`
def withOperationLock (body : Program α) : Program α := do
  meet f .location
  Script.attempt (·.operation = none) (fun s => { s with operation := some (.worker c) })
    ⟨.other "operation_busy", "Another watcher operation is already running"⟩
  (do
    meet f .expiry
    body).ensure (unlock c)

def letOut : Program Unit :=
  step (fun s => if s.coordinator = some c then { s with coordinator := none } else s)
    fun _ => ret ()

-- `run_engine_exclusive`
def runEngineExclusive (operation : Program α) : Program α := do
  Script.attempt (·.coordinator = none) (fun s => { s with coordinator := some c })
    ⟨.other "delivery_busy", ""⟩
  (do
    let outcome ← operation
    meet f .deadline
    return outcome).ensure (letOut c)

variable [Codec]

-- `inbox.removal.prepare`, whose reply may be lost.
def prepareInboxRemoval (t : Target) : Program Key := do
  meet f .engine
  done (removalParameters t)
  let k ← step
    (fun s =>
      match issueKey s.issued t f.retentionDays s.clock with
      | .ok k    => note (.issued c k t) { s with issued := s.issued + 1 }
      | .error _ => s)
    fun s => done (issueKey s.issued t f.retentionDays s.clock)
  meet f .reply
  return k

def prepareSavedInboxRemoval (t : Target) : Program Key := do
  meet f .location
  let k ← prepareInboxRemoval f c t
  remember f c ⟨k, t⟩
  return k

-- `inbox.removal.status`
def readStatusOf (k : Key) (t : Option Target) : Program InboxRemovalResult := do
  meet f .engine
  let result ← Script.read fun s => inboxRemovalStatus s.receipts s.clock k t
  meet f .reply
  done result

def discards (rendered : Bool) : Except Failure InboxRemovalResult → Bool
  | .ok receipt => rendered && receipt.isCompleted
  | .error e    => e.code = .notFound || e.code = .invalidRequest

def reconcileInboxRemovalStatus (k : Key) (t : Option Target) (rendered : Bool) :
    Program InboxRemovalResult :=
  withOperationLock f c do
    let saved ← readJournal f .read
    let entry := saved.find? (·.requestId = k)
    let result ← (readStatusOf f k (entry.elim t fun e => some e.target)).capture
    if discards rendered result then do
      forget f c k
      done result
    else
      done result

def requireSavedInboxRemoval (k : Key) : Program Unit := do
  meet f .location
  let requests ← readJournal f .read
  Script.require (k ∈ requests.map (·.requestId))
    ⟨.invalidRequest, "Local removal request is no longer saved"⟩

-- What ends an engine, lets the others have its lock.
def Desk.endMutation (s : Desk) (r : Nat) : Desk :=
  { s with
    operation := if s.operation = some (.engine r) then none else s.operation
    mutations := s.mutations.modify r fun m => { m with phase := .ended } }

-- `inbox.clear` and `inbox.delete`. An engine that has not answered by its deadline is terminated.
def mutate (k : Key) (t : Target) : Program InboxRemovalResult := do
  requireSavedInboxRemoval f k
  let r ← step
    (fun s => note (.dispatched c k) { s with mutations := s.mutations ++ [⟨k, t, c, .waiting, none⟩] })
    fun s => ret s.mutations.length
  let answer ← step (·.endMutation r) fun s => ret (s.mutations[r]?.bind (·.reply))
  meet f .reply
  done (answer.getD (.error ⟨.other "engine_timeout", "Watcher engine did not respond before its timeout"⟩))

def serve : Command → Program Reply
  | .prepare t      => do
    let k ← runEngineExclusive f c (prepareSavedInboxRemoval f c t)
    return .prepared k
  | .saved          => do
    let requests ← runEngineExclusive f c do
      meet f .location
      readJournal f .read
    return .saved requests
  | .status request => do
    let receipt ← runEngineExclusive f c
      (reconcileInboxRemovalStatus f c request.requestId (some request.target) false)
    return .receipt receipt
  | .acknowledge k  => do
    let _ ← runEngineExclusive f c (reconcileInboxRemovalStatus f c k none true)
    return .acknowledged
  | .mutate k t     => do
    let receipt ← runEngineExclusive f c (mutate f c k t)
    return .receipt receipt

def take : Program Command :=
  step (fun s => { s with calls := s.calls.modify c fun call => { call with taken := true } }) fun s =>
    match s.calls[c]? with
    | some call => if call.taken then raise hostError else ret call.command
    | none      => raise hostError

def answer (reply : Except Failure Reply) : Program Unit :=
  step
    (fun s => { s with calls := s.calls.modify c fun call => { call with reply := some reply } })
    fun _ => ret ()

-- A command of the host, from the call to its reply.
def work : Program Unit := do
  let command ← take c
  let reply ← (do
    meet f .admission
    serve f c command).capture
  answer c reply

end Host

section Engine

variable [Codec] (f : Circumstances) (r : Nat)

def Desk.phase (s : Desk) (r : Nat) : Option Phase :=
  s.mutations[r]?.map (·.phase)

def Desk.hold (s : Desk) (r : Nat) : Desk :=
  { s with
    operation := some (.engine r)
    mutations := s.mutations.modify r fun m => { m with phase := .holding } }

-- What an engine that has been terminated would write is not written.
def Desk.acceptMutation (f : Circumstances) (r : Nat) (s : Desk) : Desk :=
  match s.mutations[r]? with
  | none   => s
  | some m =>
    if m.phase = .holding then
      match accept s.receipts s.clock m.requestId m.target f.requested with
      | .ok (receipts, true) => note (.accepted r m.requestId) { s with receipts }
      | _                    => s
    else s

def acceptRemoval : Program InboxRemovalResult := do
  meet f .engine
  step (·.acceptMutation f r) fun s =>
    match s.mutations[r]? with
    | none   => raise hostError
    | some m => done ((fun _ => ()) <$> accept s.receipts s.clock m.requestId m.target f.requested)
  -- What has been accepted is completed as far as possible.
  let result ← Script.read fun s =>
    s.mutations[r]?.map fun m => outcome s.receipts m.requestId (some m.target)
  match result with
  | some (.ok (some receipt)) => return receipt
  | some (.error e)           => raise e
  | _                         => raise hostError

def acquire : Program Unit :=
  Script.attempt (fun s => s.phase r = some .waiting ∧ s.operation = none) (·.hold r)
    ⟨.other "operation_busy", "Another watcher operation is already running"⟩

-- The engine of a mutation, with `acceptance_scope`.
def engine : Program Unit := do
  let reply ← (do
    acquire r
    acceptRemoval f r).capture
  step (·.endMutation r) fun _ => ret ()
  step
    (fun s => { s with mutations := s.mutations.modify r fun m => { m with reply := some reply } })
    fun _ => ret ()

-- Time passes, removals are completed, and receipts of old requests are retired.
inductive Chore
  | pass     (time : Nat)
  | complete (k : Key)
  | retire   (k : Key)
  deriving DecidableEq, Repr

def Receipt.complete (r : Receipt) : Receipt :=
  { r with completed := r.completed + 1 }

def Desk.retire (s : Desk) (k : Key) : Desk :=
  if k.Expired s.clock ∧ (s.receipts.get k).any (·.result.isCompleted) then
    note (.retired k) { s with receipts := s.receipts.delete (·.requestId = k) }
  else s

def Desk.chore (s : Desk) : Chore → Desk
  | .pass time  => { s with clock := s.clock + time }
  | .complete k => { s with
    receipts := s.receipts.update (fun r => r.requestId = k && r.completed < r.requested) (·.complete) }
  | .retire k   => s.retire k

end Engine

section Page

variable (f : Circumstances) (n : Nat)

-- A call of the host. The page goes on when the reply is there, or without one.
def post (command : Command) (e : Option (Nat → Event)) : Program Nat :=
  step
    (fun s => { s with
      calls := s.calls ++ [⟨n, command, false, none⟩]
      story := s.story ++ (e.map (· s.calls.length)).toList })
    fun s => ret s.calls.length

def await (c : Nat) : Program Reply := do
  let reply ← Script.read fun s => s.calls[c]?.bind (·.reply)
  done (reply.getD (.error ⟨.other "host_error", "Watcher engine worker stopped"⟩))

def protocolError : Failure :=
  ⟨.other "engine_protocol_error", "Watcher engine returned an invalid response; inspect desktop logs"⟩

def invoke (command : Command) : Program Reply := do
  let c ← post n command none
  await c

-- The records are changed and `onChange` is called, which may fail.
def change (p : Point) (g : Client → Client) : Program Unit := do
  step
    (fun s => note (.shown n (g (s.client n)).records.rows)
      { s with client := Function.update s.client n (g (s.client n)) })
    fun _ => ret ()
  meet f p

def publish (record : InboxRemovalRecord) : Program Unit := do
  change f n .lastChange fun c => { c with records := c.records.put record }
  if record.isCompleted then do
    let _ ← (invoke n (.acknowledge record.request.requestId)).capture
    return
  else
    return

-- What `readStatus` makes of an error.
def missingState (e : Failure) : RecordState :=
  if e.code = .notFound then .missing e else .error e

def readStatus (request : SavedRemoval) : Program Unit := do
  let reply ← (invoke n (.status request)).capture
  match reply with
  | .error e => do
    let latestClear ← Script.read fun s => (s.client n).latestClear
    if e.code = .notFound ∧ request.target.kind = .clear ∧ latestClear ≠ some request.requestId then
      change f n .lastChange fun c =>
        { c with records := c.records.delete (·.request.requestId = request.requestId) }
    else
      publish f n ⟨request, missingState e⟩
  | .ok (.receipt receipt) => publish f n ⟨request, .found receipt⟩
  | .ok _                  => raise protocolError

-- A clear takes the place of those that did not go through.
def Client.begin (k : Key) (c : Client) : Client :=
  { c with
    latestClear := some k
    records     := c.records.delete fun r => r.request.target.kind = .clear && r.isMissing }

def begin (k : Key) : Kind → Program Unit
  | .clear  => change f n .change (·.begin k)
  | .delete => ret ()

def request (a : Nat) (k : Key) (t : Target) : Program Reply := do
  let c ← post n (.mutate k t) (some fun c => .requested n a c k)
  await c

def perform (t : Target) : Program Unit := do
  let a ← post n (.prepare t) none
  match ← await a with
  | .prepared k => do
    begin f n k t.kind
    -- An indeterminate reply is reconciled by this key only, never by a second mutation.
    match ← (request n a k t).capture with
    | .ok (.receipt receipt) => publish f n ⟨⟨k, t⟩, .found receipt⟩
    | .ok _                  => raise protocolError
    | .error _               => readStatus f n ⟨k, t⟩
  | _           => raise protocolError

def clear : Program Unit :=
  perform f n ⟨.clear, none⟩

def delete (messageId : String) : Program Unit :=
  perform f n ⟨.delete, some messageId⟩

def lastClear (requests : List SavedRemoval) : Option Key :=
  (requests.filter (·.target.kind = .clear)).getLast?.map (·.requestId)

-- The first part of `restore`, which is not begun again before the last part is done.
def restore : Program Unit := do
  let restoring ← Script.read fun s => (s.client n).restoring
  if restoring = [] then
    match ← invoke n .saved with
    | .saved requests =>
      step
        (fun s => { s with
          client := Function.update s.client n { s.client n with
            latestClear := (s.client n).latestClear.or (lastClear requests)
            restoring   := requests } })
        fun _ => ret ()
    | _               => raise protocolError
  else
    ret ()

-- The next part of `restore`.
def restoreNext : Program Unit := do
  let restoring ← step
    (fun s => { s with
      client := Function.update s.client n
        { s.client n with restoring := (s.client n).restoring.tail } })
    fun s => ret (s.client n).restoring
  match restoring with
  | []           => ret ()
  | request :: _ => readStatus f n request

end Page

section Machine

inductive Task
  | clear       (f : Circumstances)
  | delete      (f : Circumstances) (messageId : String)
  | restore
  | restoreNext (f : Circumstances)
  | work        (f : Circumstances)
  | chore       (c : Chore)

variable [Codec]

def program : Process → Task → Program Unit
  | .page n,   .clear f            => clear f n
  | .page n,   .delete f messageId => delete f n messageId
  | .page n,   .restore            => restore n
  | .page n,   .restoreNext f      => restoreNext f n
  | .worker c, .work f             => work f c
  | .engine r, .work f             => engine f r
  | .other,    .chore chore        => step (·.chore chore) fun _ => ret ()
  | _,         _                   => ret ()

-- A page that is loaded again knows nothing. A worker dies with its host, its engine does not.
def leave : Process → Desk → Desk
  | .page n,   s => { s with client := Function.update s.client n {} }
  | .worker c, s => { s with
    coordinator := if s.coordinator = some c then none else s.coordinator
    operation   := if s.operation = some (.worker c) then none else s.operation }
  | .engine r, s => s.endMutation r
  | .other,    s => s

abbrev desk : Machine (Crowd Process Desk Failure Unit) (Turn Process Task) Unit :=
  crowd program leave

def Desk.initial (clock : Instant) : Desk where
  clock       := clock
  issued      := 0
  receipts    := ∅
  journal     := []
  coordinator := none
  operation   := none
  calls       := []
  mutations   := []
  client _    := {}
  story       := []

-- The state after a run of any number of pages, workers and engines.
def after (clock : Instant) (as : List (Turn Process Task)) : Desk :=
  (desk.run ⟨.initial clock, fun _ => none⟩ as).state

end Machine

end Removal
