import EmailWatcher.Library.Json
import Mathlib.Data.String.Basic

-- What the host reads from the engine and hands to the page: the threads that are retained.
namespace Threads

structure ThreadRef where
  provider           : String
  accountId          : String
  mailboxIdentityKey : Option String
  threadKey          : String
  deriving DecidableEq, Repr

structure InboxMessageRef where
  provider           : String
  accountId          : String
  mailboxIdentityKey : Option String
  messageId          : String
  deriving DecidableEq, Repr

def InboxMessageRef.matchesScope (r : InboxMessageRef) (thread : ThreadRef) : Bool :=
  r.provider = thread.provider ∧ r.accountId = thread.accountId ∧
  r.mailboxIdentityKey = thread.mailboxIdentityKey

structure ThreadVendor where
  vendorId    : String
  displayName : String
  deriving DecidableEq, Repr

inductive ThreadRelation
  | owned
  | linked
  deriving DecidableEq, Repr

structure ThreadItem where
  threadRef        : ThreadRef
  relation         : ThreadRelation
  ownerVendor      : ThreadVendor
  subject          : String
  latestReceivedAt : Option String
  messageCount     : Nat
  deriving DecidableEq, Repr

-- Its relation is `non_vendor`, and its owner `null`.
structure NonVendorThreadItem where
  threadRef        : ThreadRef
  subject          : String
  latestReceivedAt : Option String
  messageCount     : Nat
  deriving DecidableEq, Repr

inductive ResolvedThreadContext
  | vendor    (vendor : ThreadVendor) (thread : ThreadItem)
  | nonVendor (thread : NonVendorThreadItem)
  deriving DecidableEq, Repr

inductive ThreadResolveResult
  | resolved     (messageRef : InboxMessageRef) (context : ResolvedThreadContext)
  | chooseVendor (messageRef : InboxMessageRef) (threadRef : ThreadRef) (ownerVendor : ThreadVendor)
                 (items : List ThreadVendor) (nextCursor : Option String)
  deriving DecidableEq, Repr

def vendorRelationMatches (relation : ThreadRelation) (vendor : String) (owner : ThreadVendor) : Bool :=
  match relation with
  | .owned  => vendor = owner.vendorId
  | .linked => vendor ≠ owner.vendorId

-- `valid_for`, of the origin and the vendor of a query.
def ThreadResolveResult.validFor (r : ThreadResolveResult) (origin : InboxMessageRef)
    (selected : Option String) : Bool :=
  match r with
  | .resolved messageRef (.vendor vendor thread) =>
    messageRef = origin ∧ messageRef.matchesScope thread.threadRef ∧
    (selected = none ∨ selected = some vendor.vendorId) ∧
    vendorRelationMatches thread.relation vendor.vendorId thread.ownerVendor
  | .resolved messageRef (.nonVendor thread) =>
    messageRef = origin ∧ selected = none ∧ messageRef.matchesScope thread.threadRef
  | .chooseVendor messageRef threadRef _ _ _ =>
    selected = none ∧ messageRef = origin ∧ messageRef.matchesScope threadRef

structure ThreadPage where
  items      : List ThreadItem
  nextCursor : Option String
  deriving DecidableEq, Repr

structure ThreadCopy where
  copyRef         : String
  locations       : List String
  summary         : Option String
  attachmentCount : Nat
  deriving DecidableEq, Repr

structure ThreadInventory where
  partId    : String
  filename  : String
  mediaType : String
  byteSize  : Option Nat
  deriving DecidableEq, Repr

structure ThreadCopyPage (α : Type) where
  threadRef  : ThreadRef
  messageId  : String
  items      : List α
  nextCursor : Option String
  deriving DecidableEq, Repr

-- What selects a thread: a vendor, or a message of the Inbox.
inductive ThreadSelector
  | vendor (vendorId : String) (threadRef : ThreadRef) (inboxMessage : Option InboxMessageRef)
  | inbox  (threadRef : ThreadRef) (messageRef : InboxMessageRef)
  deriving DecidableEq, Repr

def maxThreadBodyChars : Nat :=
  200000

def validThreadBodyLengths (stored source : Nat) : Bool :=
  stored ≤ maxThreadBodyChars ∧ stored ≤ source

-- Why a body is not stored.
inductive Unstored
  | pending
  | sourceGone
  | outsideFolders
  | removalPending
  | mailboxIdentityUnavailable
  | notFollowed
  deriving DecidableEq, Repr

def Unstored.name : Unstored → String
  | pending                    => "pending"
  | sourceGone                 => "source_gone"
  | outsideFolders             => "outside_folders"
  | removalPending             => "removal_pending"
  | mailboxIdentityUnavailable => "mailbox_identity_unavailable"
  | notFollowed                => "not_followed"

inductive ThreadBodyState
  | stored   (storedChars sourceChars : Nat)
  | unstored (reason : Unstored)
  deriving DecidableEq, Repr

def ThreadBodyState.valid : ThreadBodyState → Bool
  | stored storedChars sourceChars => validThreadBodyLengths storedChars sourceChars
  | unstored _                     => true

inductive ThreadBody
  | stored   (text : String) (storedChars sourceChars : Nat)
  | unstored (reason : Unstored)
  deriving DecidableEq, Repr

-- The characters are counted up to one more than there may be.
def ThreadBody.valid : ThreadBody → Bool
  | stored text storedChars sourceChars =>
    validThreadBodyLengths storedChars sourceChars ∧
    (text.toList.take (maxThreadBodyChars + 1)).length = storedChars
  | unstored _ => true

inductive ThreadDirection
  | inbound
  | outbound
  deriving DecidableEq, Repr

def ThreadDirection.name : ThreadDirection → String
  | inbound  => "inbound"
  | outbound => "outbound"

inductive ThreadContext
  | vendor    (threadRef : ThreadRef) (relation : ThreadRelation) (ownerVendor : ThreadVendor)
              (subject historyNotice : String)
  | nonVendor (threadRef : ThreadRef) (subject historyNotice : String)
  deriving DecidableEq, Repr

def ThreadContext.threadRef : ThreadContext → ThreadRef
  | vendor threadRef _ _ _ _ => threadRef
  | nonVendor threadRef _ _  => threadRef

def ThreadContext.validFor (context : ThreadContext) (selector : ThreadSelector) : Bool :=
  match context, selector with
  | .vendor _ relation ownerVendor _ _, .vendor vendorId _ _ =>
    vendorRelationMatches relation vendorId ownerVendor
  | .nonVendor _ _ _,                   .inbox _ _           => true
  | _,                                  _                    => false

structure ThreadMessage where
  messageId        : String
  subject          : String
  direction        : ThreadDirection
  sender           : String
  senderName       : Option String
  attributedVendor : Option ThreadVendor
  receivedAt       : Option String
  bodyState        : ThreadBodyState
  copyCount        : Nat
  deriving DecidableEq, Repr

structure ThreadMessagePage where
  thread     : ThreadContext
  items      : List ThreadMessage
  nextCursor : Option String
  deriving DecidableEq, Repr

structure ThreadBodyResponse where
  threadRef : ThreadRef
  messageId : String
  body      : ThreadBody
  deriving DecidableEq, Repr

end Threads
