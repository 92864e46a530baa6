import EmailWatcher.Library.Machine
import EmailWatcher.Library.Table
import EmailWatcher.Threads.Display

-- The view of the retained threads: its actions, and what comes of the requests that they issue. Whatever
-- is to be done after a notification is a frame, and what awaits a reply is a request, so that other
-- actions can come between.
namespace Threads

section Values

inductive SelectedThread
  | vendor    (thread : ThreadItem)
  | nonVendor (thread : NonVendorThreadItem)
  deriving DecidableEq, Repr

def SelectedThread.threadRef : SelectedThread → ThreadRef
  | vendor thread    => thread.threadRef
  | nonVendor thread => thread.threadRef

structure Account where
  provider  : String
  accountId : String
  deriving DecidableEq, Repr

inductive Query
  | resolve (messageRef : InboxMessageRef) (vendorId : Option String)
  | list    (vendorId : String) (account : Option Account)
  | messages (selector : ThreadSelector)
  | body    (selector : ThreadSelector) (messageId : String)
  | copies  (selector : ThreadSelector) (messageId : String) (copyRef : Option String)
  deriving DecidableEq, Repr

-- What a `ThreadReadState` can hold.
inductive Value
  | resolution (r : ThreadResolveResult)
  | threads    (p : ThreadPage)
  | messages   (p : ThreadMessagePage)
  | body       (r : ThreadBodyResponse)
  | copies     (p : ThreadCopyPage ThreadCopy)
  | inventory  (p : ThreadCopyPage ThreadInventory)
  deriving DecidableEq, Repr

inductive Item
  | vendor    (v : ThreadVendor)
  | thread    (t : ThreadItem)
  | message   (m : ThreadMessage)
  | copy      (c : ThreadCopy)
  | inventory (i : ThreadInventory)
  deriving DecidableEq, Repr

namespace Value

def items : Value → List Item
  | resolution (.chooseVendor _ _ _ items _) => items.map .vendor
  | resolution (.resolved _ _)               => []
  | threads p                                => p.items.map .thread
  | messages p                               => p.items.map .message
  | body _                                   => []
  | copies p                                 => p.items.map .copy
  | inventory p                              => p.items.map .inventory

def nextCursor : Value → Option String
  | resolution (.chooseVendor _ _ _ _ nextCursor) => nextCursor
  | resolution (.resolved _ _)                    => none
  | threads p                                     => p.nextCursor
  | messages p                                    => p.nextCursor
  | body _                                        => none
  | copies p                                      => p.nextCursor
  | inventory p                                   => p.nextCursor

-- Whether it is a page of several.
def Paged : Value → Prop
  | resolution (.resolved _ _) => False
  | body _                     => False
  | _                          => True

-- `{...fresh, items: [...old.items, ...fresh.items]}`
def merge : Value → Value → Value
  | resolution (.chooseVendor _ _ _ old _), resolution (.chooseVendor m t o fresh c) =>
    resolution (.chooseVendor m t o (old ++ fresh) c)
  | threads old,   threads fresh   => threads { fresh with items := old.items ++ fresh.items }
  | messages old,  messages fresh  => messages { fresh with items := old.items ++ fresh.items }
  | copies old,    copies fresh    => copies { fresh with items := old.items ++ fresh.items }
  | inventory old, inventory fresh => inventory { fresh with items := old.items ++ fresh.items }
  | _,             fresh           => fresh

-- Of the kind that a query asks for, and let through by the host.
def Answers : Value → Query → Bool
  | resolution r, .resolve origin vendorId  => r.validFor origin vendorId
  | threads _,    .list _ _                 => true
  | messages p,   .messages selector        =>
    p.thread.validFor selector ∧ p.items.all fun m => m.bodyState.valid
  | body r,       .body _ _                 => r.body.valid
  | copies _,     .copies _ _ none          => true
  | inventory _,  .copies _ _ (some _)      => true
  | _,            _                         => false

-- The checks of the page itself.
def shown : Value → Bool
  | messages p => p.items.all fun m => (threadBodyStateLabel m.bodyState.toWire).isSome
  | body r     => (threadBodyDisplay r.body.toWire).isSome
  | _          => true

end Value

-- A cursor that is neither `null` nor empty.
def truthy (cursor : Option String) : Option String :=
  cursor.filter (· ≠ "")

-- The code of an error, if it has one.
abbrev Reply := Except (Option String) Value

-- What the request comes to, past the host's checks and the page's.
def checked (query : Query) : Reply → Reply
  | .error code => .error code
  | .ok v       =>
    if !v.Answers query then .error (some "engine_protocol_error")
    else if !v.shown then .error none
    else .ok v

end Values

section State

inductive ReadStatus
  | idle
  | loading
  | ready
  | error
  deriving DecidableEq, Repr

-- `ThreadReadState`. For the record, how many answers there were when its value was last cleared, and
-- the generation that its last reset or first page has begun.
structure ReadState where
  status     : ReadStatus
  value      : Option Value
  changed    : Bool
  generation : Nat
  since      : Nat
  base       : Nat
  deriving DecidableEq, Repr

-- Where a value is held.
inductive Slot
  | resolution
  | threads
  | messages
  | bodies    (messageId : String)
  | copies    (messageId : String)
  | inventory (messageId copyRef : String)
  deriving DecidableEq, Repr

-- The message that a body, a list of copies or an inventory is of.
def Slot.message : Slot → Option String
  | bodies m      => some m
  | copies m      => some m
  | inventory m _ => some m
  | _             => none

def Slot.isInventoryOf (s : Slot) (messageId : String) : Bool :=
  match s with
  | inventory m _ => m = messageId
  | _             => false

-- An entry of the maps `bodies`, `copies` and `inventory`.
structure Child where
  slot   : Slot
  object : Nat
  deriving DecidableEq, Repr

instance : Keyed Child Slot where
  key := Child.slot

-- What the argument `clearChildren` of `read` clears.
inductive Clears
  | nothing
  | children
  | inventory (messageId : String)
  deriving DecidableEq, Repr

-- The argument `selectionCurrent` of `read`: `allowed()`, or what `resolveInbox` asks for besides.
inductive Currency
  | allowed
  | entry (id generation : Nat)
  deriving DecidableEq, Repr

-- What a call of `read` has in hand. For the record, how many invalidations there were when its request was
-- issued.
structure Read where
  target     : Nat
  generation : Nat
  more       : Bool
  previous   : Option Value
  query      : Query
  cursor     : Option String
  clears     : Clears
  currency   : Currency
  issued     : Option Nat := none
  deriving DecidableEq, Repr

-- A query with a vendor has no cursor.
def Read.sent (r : Read) : Option String :=
  match r.query with
  | .resolve _ (some _) => none
  | _                   => r.cursor

-- What is read, behind what there has been.
def Read.combine (r : Read) (fresh : Value) : Value :=
  match r.previous with
  | some old => old.merge fresh
  | none     => fresh

-- A request under way, with the entry and the generation that `guarded` has noted.
structure Request where
  read  : Read
  guard : Option (Nat × Nat)
  deriving DecidableEq, Repr

-- A request that has its reply.
structure Settled where
  read  : Read
  reply : Reply
  deriving DecidableEq

-- What remains to be done after a notification.
inductive Frame
  | load (r : Read)
  | refresh
  | resolveInbox
  | loadMessages
  | failed
  | context (id generation : Nat)
  | openCopies (messageId : String)
  | openInventory (messageId copyRef : String)
  deriving DecidableEq, Repr

-- A value that has been read.
structure Answer where
  query  : Query
  cursor : Option String
  issued : Nat
  value  : Value
  deriving DecidableEq, Repr

structure InboxEntry where
  id     : Nat
  origin : InboxMessageRef
  deriving DecidableEq, Repr

structure View where
  vendor              : Option ThreadVendor
  account             : Option Account
  selectedThread      : Option SelectedThread
  objects             : Nat → ReadState
  allocated           : Nat
  children            : Table Child
  visible             : Bool
  mutations           : Nat
  selectionGeneration : Nat
  inbox               : Option InboxEntry
  inboxVendor         : Option String
  -- How often an Inbox entry has been opened, and which of them say that they are current.
  entries             : Nat
  current             : Nat → Bool
  -- What is still to be done: frames from the innermost notification on, requests, and the calls of
  -- `resolveInbox` that wait for the end of their read.
  frames              : List Frame
  requests            : List Request
  settled             : List Settled
  concluding          : List (Nat × Nat)
  -- For the record.
  invalidations       : Nat
  answers             : List Answer

end State

namespace View

-- `resolution`, `threads` and `messages` are the first objects.
def resolution : Nat := 0
def threads : Nat := 1
def messages : Nat := 2

def initial : View where
  vendor              := none
  account             := none
  selectedThread      := none
  objects _           :=
    { status := .idle, value := none, changed := false, generation := 0, since := 0, base := 0 }
  allocated           := 3
  children            := ∅
  visible             := true
  mutations           := 0
  selectionGeneration := 0
  inbox               := none
  inboxVendor         := none
  entries             := 0
  current _           := true
  frames              := []
  requests            := []
  settled             := []
  concluding          := []
  invalidations       := 0
  answers             := []

def objectOf (v : View) : Slot → Option Nat
  | .resolution => some resolution
  | .threads    => some threads
  | .messages   => some messages
  | s           => (v.children.get s).map Child.object

-- What is shown in a slot.
def held (v : View) (s : Slot) : Option Value :=
  (v.objectOf s).bind fun o => (v.objects o).value

def allowed (v : View) : Bool :=
  v.visible && decide (v.mutations = 0) &&
  match v.inbox with
  | some entry => v.current entry.id
  | none       => v.vendor.isSome

section Objects

def set (v : View) (o : Nat) (s : ReadState) : View :=
  { v with objects := fun p => if p = o then s else v.objects p }

-- `reset()`
def reset (v : View) (o : Nat) : View :=
  let s := v.objects o
  v.set o { status := .idle, value := none, changed := false, generation := s.generation + 1,
            since := v.answers.length, base := s.generation + 1 }

-- The children that meet `p` are reset, and removed.
def removeChildren (v : View) (p : Slot → Bool) : View :=
  let removed := v.children.rows.filter fun c => p c.slot
  let v := removed.foldl (fun v c => v.reset c.object) v
  { v with children := v.children.delete fun c => p c.slot }

def clearChildren (v : View) : View :=
  v.removeChildren fun _ => true

def clearInventory (v : View) (messageId : String) : View :=
  v.removeChildren (·.isInventoryOf messageId)

def clear (v : View) : Clears → View
  | .nothing     => v
  | .children    => v.clearChildren
  | .inventory m => v.clearInventory m

-- `map.set(key, new ThreadReadState())`
def addChild (v : View) (s : Slot) : View :=
  let o := v.allocated
  let fresh : ReadState :=
    { status := .idle, value := none, changed := false, generation := 0, since := v.answers.length,
      base := 0 }
  let v := v.set o fresh
  { v with allocated := o + 1, children := v.children.put ⟨s, o⟩ }

def push (v : View) (f : Frame) : View :=
  { v with frames := f :: v.frames }

-- Before its notification.
def invalidate (v : View) : View :=
  let v := { v with selectionGeneration := v.selectionGeneration + 1,
                    invalidations := v.invalidations + 1 }
  let v := ((v.reset resolution).reset threads).reset messages
  let v := v.clearChildren
  if v.inbox.isSome then { v with vendor := none, selectedThread := none } else v

end Objects

section Reads

def isCurrent (v : View) (r : Read) : Bool :=
  decide (r.generation = (v.objects r.target).generation) && v.allowed &&
  match r.currency with
  | .allowed             => true
  | .entry id generation =>
    decide (v.inbox.map InboxEntry.id = some id ∧ generation = v.selectionGeneration)

-- The read has come to its end.
def finish (v : View) (r : Read) : View :=
  match r.currency with
  | .allowed             => v
  | .entry id generation => { v with concluding := v.concluding ++ [(id, generation)] }

-- `read`, before its first notification.
def read (v : View) (target : Nat) (more : Bool) (query : Query) (cursor : Option String) (clears : Clears)
    (currency : Currency) : View :=
  let s := v.objects target
  let r : Read := {
    target     := target
    generation := s.generation + 1
    more       := more
    previous   := if more then s.value else none
    query      := query
    cursor     := cursor
    clears     := clears
    currency   := currency
  }
  if more ∧ s.status = .loading then v.finish r
  else
    let s := { s with generation := s.generation + 1, status := .loading }
    let s := if more then s else
      { s with value := none, changed := false, since := v.answers.length, base := s.generation }
    (v.set target s).push (.load r)

-- What `guarded` notes. A resolution is not guarded.
def guardOf (v : View) : Currency → Option (Nat × Nat)
  | .allowed   => v.inbox.map fun entry => (entry.id, v.selectionGeneration)
  | .entry _ _ => none

def issue (v : View) (r : Read) (guard : Option (Nat × Nat)) : View :=
  { v with requests := v.requests ++ [⟨{ r with issued := some v.invalidations }, guard⟩] }

-- `read`, after its first notification, and after that of a restart.
def load (v : View) (r : Read) : View :=
  if v.isCurrent r then v.issue r (v.guardOf r.currency) else v.finish r

def record (v : View) (q : Request) (reply : Reply) : View :=
  { v with
    settled := v.settled ++ [⟨q.read, reply⟩]
    answers := match reply with
      | .ok value => v.answers ++ [⟨q.read.query, q.read.sent, q.read.issued.getD 0, value⟩]
      | .error _  => v.answers }

-- The request has its reply. If it says that the selection has gone, `guarded` invalidates the view.
def settle (v : View) (q : Request) (reply : Reply) : View :=
  let reply := checked q.read.query reply
  let v := v.record q reply
  match reply, q.guard with
  | .error code, some (id, generation) =>
    if v.inbox.map InboxEntry.id = some id ∧ generation = v.selectionGeneration ∧ v.allowed ∧
      (code = some "not_found" ∨ code = some "stale_selection")
    then v.invalidate.push .failed
    else v
  | _, _ => v

-- `read`, after its reply. A load of more can be restarted once, which is a load without a cursor.
def proceed (v : View) (q : Settled) : View :=
  let r := q.read
  if !v.isCurrent r then v.finish r
  else
    match q.reply with
    | .ok fresh =>
      let s := { v.objects r.target with value := some (r.combine fresh), status := .ready }
      (v.set r.target s).finish r
    | .error code =>
      if (truthy r.cursor).isSome ∧ code = some "stale_cursor" then
        let s := { v.objects r.target with value := none, changed := true, since := v.answers.length }
        ((v.set r.target s).clear r.clears).push
          (.load { r with previous := none, cursor := none, issued := none })
      else
        let s := { v.objects r.target with value := none, status := .error, since := v.answers.length }
        ((v.set r.target s).clear r.clears).finish r

-- `page`
def page (v : View) (target : Nat) (more : Bool) (query : Query) (clears : Clears) : View :=
  let s := v.objects target
  let next := truthy (s.value.bind Value.nextCursor)
  if !v.allowed ∨ (more ∧ (next = none ∨ s.status = .loading)) then v
  else
    let cursor := if more then next else none
    let v := if more then v else v.clear clears
    v.read target more query cursor clears .allowed

end Reads

section Selectors

-- `threadSelector`, whether or not reads are allowed.
def selectorFor (v : View) (threadRef : ThreadRef) : Option ThreadSelector :=
  match v.inbox, v.selectedThread, v.vendor with
  | some entry, some (.nonVendor _), _           => some (.inbox threadRef entry.origin)
  | some entry, _,                   some vendor =>
    some (.vendor vendor.vendorId threadRef (some entry.origin))
  | none,       _,                   some vendor => some (.vendor vendor.vendorId threadRef none)
  | _,          _,                   none        => none

def threadSelector (v : View) (threadRef : ThreadRef) : Option ThreadSelector :=
  if v.allowed then v.selectorFor threadRef else none

-- The page of messages that is shown.
def messagePage (v : View) : Option ThreadMessagePage :=
  match (v.objects messages).value with
  | some (.messages p) => some p
  | _                  => none

def lists (v : View) (messageId : String) : Bool :=
  v.messagePage.any fun p => p.items.any fun m => m.messageId = messageId

-- `selector`
def childSelector (v : View) (messageId : String) : Option ThreadSelector :=
  if !v.allowed ∨ !v.lists messageId then none
  else v.messagePage.bind fun p => v.threadSelector p.thread.threadRef

end Selectors

section Actions

def loadThreads (v : View) (more : Bool) : View :=
  match v.vendor, v.inbox with
  | some vendor, none => v.page threads more (.list vendor.vendorId v.account) .nothing
  | _,           _    => v

def loadMessages (v : View) (more : Bool) : View :=
  match v.selectedThread.bind fun t => v.threadSelector t.threadRef with
  | some selector => v.page messages more (.messages selector) .children
  | none          => v

-- The cursor of the choice of vendors that is shown.
def nextChoice (v : View) : Option String :=
  match (v.objects resolution).value with
  | some (.resolution (.chooseVendor _ _ _ _ nextCursor)) => truthy nextCursor
  | _                                                     => none

-- `resolveInbox`, until the end of its read.
def resolveInbox (v : View) (more : Bool) : View :=
  match v.inbox with
  | none       => v
  | some entry =>
    let next := v.nextChoice
    if !v.allowed ∨ (more ∧ (next = none ∨ (v.objects resolution).status = .loading)) then v
    else
      let generation := v.selectionGeneration + 1
      let v := { v with selectionGeneration := generation }
      let v := if more then v else
        ({ v with vendor := none, selectedThread := none }.reset messages).clearChildren
      let cursor := if more then next else none
      v.read resolution more (.resolve entry.origin v.inboxVendor) cursor .children
        (.entry entry.id generation)

-- `resolveInbox`, after the end of its read.
def conclude (v : View) (id generation : Nat) : View :=
  if v.inbox.map InboxEntry.id = some id ∧ generation = v.selectionGeneration ∧ v.allowed ∧
    (v.objects resolution).status = .ready
  then
    match (v.objects resolution).value with
    | some (.resolution (.resolved _ context)) =>
      let v := match context with
        | .vendor vendor thread =>
          { v with vendor := some vendor, selectedThread := some (.vendor thread) }
        | .nonVendor thread     => { v with vendor := none, selectedThread := some (.nonVendor thread) }
      ((v.reset messages).clearChildren).push (.context id generation)
    | _ => v
  else v

def refresh (v : View) : View :=
  v.invalidate.push .refresh

def openInbox (v : View) (origin : InboxMessageRef) : View :=
  { v with
    inbox          := some ⟨v.entries, origin⟩
    entries        := v.entries + 1
    inboxVendor    := none
    vendor         := none
    account        := some ⟨origin.provider, origin.accountId⟩
    selectedThread := none
    visible        := true : View }.refresh

def chooseVendor (v : View) (vendorId : String) : View :=
  match v.inbox, (v.objects resolution).value with
  | some _, some (.resolution (.chooseVendor _ _ _ items _)) =>
    if v.allowed ∧ items.any fun vendor => vendor.vendorId = vendorId then
      ({ v with inboxVendor := some vendorId }.invalidate).push .resolveInbox
    else v
  | _, _ => v

def selectVendor (v : View) (vendor : ThreadVendor) : View :=
  { v with
    inbox          := none
    inboxVendor    := none
    vendor         := some vendor
    account        := none
    selectedThread := none
    visible        := true : View }.refresh

def selectAccount (v : View) (account : Option Account) : View :=
  if v.inbox.isSome then v
  else { v with account := account, selectedThread := none : View }.refresh

def openThread (v : View) (thread : ThreadItem) : View :=
  if v.inbox.isSome then v
  else
    let v := { v with selectionGeneration := v.selectionGeneration + 1,
                      selectedThread := some (.vendor thread) }
    (((v.reset threads).reset messages).clearChildren).push .loadMessages

def suspend (v : View) : View :=
  { v with visible := false : View }.invalidate

def close (v : View) : View :=
  { v with
    inbox          := none
    inboxVendor    := none
    vendor         := none
    selectedThread := none
    account        := none : View }.suspend

def backToThreads (v : View) : View :=
  if v.inbox.isSome then v.close
  else { v with selectedThread := none : View }.refresh

def resume (v : View) : View :=
  { v with visible := true : View }.refresh

def beginMutation (v : View) : View :=
  { v with mutations := v.mutations + 1 : View }.invalidate

def endMutation (v : View) (refresh : Bool) : View :=
  let v := { v with mutations := v.mutations - 1 }
  if refresh then v.refresh else v

def openBody (v : View) (messageId : String) : View :=
  match v.childSelector messageId with
  | none          => v
  | some selector =>
    let v := v.removeChildren (· = .bodies messageId)
    let o := v.allocated
    (v.addChild (.bodies messageId)).read o false (.body selector messageId) none .nothing .allowed

def closeBody (v : View) (messageId : String) : View :=
  v.removeChildren (· = .bodies messageId)

def closeCopies (v : View) (messageId : String) : View :=
  (v.removeChildren (· = .copies messageId)).clearInventory messageId

def openCopies (v : View) (messageId : String) : View :=
  if v.childSelector messageId = none then v
  else (v.closeCopies messageId).push (.openCopies messageId)

def loadCopies (v : View) (messageId : String) (more : Bool) : View :=
  match v.childSelector messageId, v.objectOf (.copies messageId) with
  | some selector, some o => v.page o more (.copies selector messageId none) (.inventory messageId)
  | _,             _      => v

def closeInventory (v : View) (messageId copyRef : String) : View :=
  v.removeChildren (· = .inventory messageId copyRef)

def openInventory (v : View) (messageId copyRef : String) : View :=
  match v.held (.copies messageId) with
  | some (.copies p) =>
    if p.items.any fun c => c.copyRef = copyRef then
      (v.closeInventory messageId copyRef).push (.openInventory messageId copyRef)
    else v
  | _ => v

def loadInventory (v : View) (messageId copyRef : String) (more : Bool) : View :=
  match v.childSelector messageId, v.objectOf (.inventory messageId copyRef) with
  | some selector, some o => v.page o more (.copies selector messageId (some copyRef)) .nothing
  | _,             _      => v

-- What comes after a notification.
def goOn (v : View) : Frame → View
  | .load r                          => v.load r
  | .refresh                         =>
    if v.inbox.isSome then v.resolveInbox false
    else if v.selectedThread.isSome then v.loadMessages false
    else v.loadThreads false
  | .resolveInbox                    => v.resolveInbox false
  | .loadMessages                    => v.loadMessages false
  | .failed                          =>
    v.set resolution { v.objects resolution with status := .error }
  | .context id generation           =>
    if v.inbox.map InboxEntry.id = some id ∧ generation = v.selectionGeneration ∧ v.allowed
    then v.loadMessages false
    else v
  | .openCopies messageId            => (v.addChild (.copies messageId)).loadCopies messageId false
  | .openInventory messageId copyRef =>
    (v.addChild (.inventory messageId copyRef)).loadInventory messageId copyRef false

end Actions

end View

inductive Action
  | invalidate
  | refresh
  | openInbox (origin : InboxMessageRef)
  | resolveInbox (more : Bool)
  | chooseVendor (vendorId : String)
  | selectVendor (vendor : ThreadVendor)
  | selectAccount (account : Option Account)
  | openThread (thread : ThreadItem)
  | backToThreads
  | close
  | suspend
  | resume
  | beginMutation
  | endMutation (refresh : Bool)
  | loadThreads (more : Bool)
  | loadMessages (more : Bool)
  | openBody (messageId : String)
  | closeBody (messageId : String)
  | openCopies (messageId : String)
  | loadCopies (messageId : String) (more : Bool)
  | closeCopies (messageId : String)
  | openInventory (messageId copyRef : String)
  | loadInventory (messageId copyRef : String) (more : Bool)
  | closeInventory (messageId copyRef : String)

def View.act (v : View) : Action → View
  | .invalidate                           => v.invalidate
  | .refresh                              => v.refresh
  | .openInbox origin                     => v.openInbox origin
  | .resolveInbox more                    => v.resolveInbox more
  | .chooseVendor vendorId                => v.chooseVendor vendorId
  | .selectVendor vendor                  => v.selectVendor vendor
  | .selectAccount account                => v.selectAccount account
  | .openThread thread                    => v.openThread thread
  | .backToThreads                        => v.backToThreads
  | .close                                => v.close
  | .suspend                              => v.suspend
  | .resume                               => v.resume
  | .beginMutation                        => v.beginMutation
  | .endMutation refresh                  => v.endMutation refresh
  | .loadThreads more                     => v.loadThreads more
  | .loadMessages more                    => v.loadMessages more
  | .openBody messageId                   => v.openBody messageId
  | .closeBody messageId                  => v.closeBody messageId
  | .openCopies messageId                 => v.openCopies messageId
  | .loadCopies messageId more            => v.loadCopies messageId more
  | .closeCopies messageId                => v.closeCopies messageId
  | .openInventory messageId copyRef      => v.openInventory messageId copyRef
  | .loadInventory messageId copyRef more => v.loadInventory messageId copyRef more
  | .closeInventory messageId copyRef     => v.closeInventory messageId copyRef

inductive Event
  -- The user acts, or what is notified does.
  | act (a : Action)
  -- An Inbox entry says that it is current, or that it is not any more.
  | turn (id : Nat) (current : Bool)
  -- The innermost notification is over.
  | notified
  -- A request has its reply; a read goes on; a call of `resolveInbox` does. Only where no notification is
  -- under way.
  | settle (k : Nat) (reply : Reply)
  | proceed (k : Nat)
  | conclude (k : Nat)

def view : Machine View Event Unit where
  step v
    | .act a           => .ok (v.act a)
    | .turn id current => .ok { v with current := fun n => if n = id then current else v.current n }
    | .notified        =>
      match v.frames with
      | []      => .error ()
      | f :: fs => .ok (({ v with frames := fs } : View).goOn f)
    | .settle k reply  =>
      match v.frames, v.requests[k]? with
      | [], some q => .ok (({ v with requests := v.requests.eraseIdx k } : View).settle q reply)
      | _,  _      => .error ()
    | .proceed k       =>
      match v.frames, v.settled[k]? with
      | [], some q => .ok (({ v with settled := v.settled.eraseIdx k } : View).proceed q)
      | _,  _      => .error ()
    | .conclude k      =>
      match v.frames, v.concluding[k]? with
      | [], some (id, generation) =>
        .ok (({ v with concluding := v.concluding.eraseIdx k } : View).conclude id generation)
      | _,  _                     => .error ()

end Threads
