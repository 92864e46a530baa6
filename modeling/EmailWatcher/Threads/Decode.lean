import EmailWatcher.Threads.Wire

-- How the host decodes what the engine answers. No type takes unknown fields, and a field that can be
-- `null` has to be there. Of the forms that a type can have, only the objects are considered.
namespace Threads

-- What the engine writes, and the host reads: the numbers are integers, and the strings scalar values.
abbrev Wire := Json String Int

def asUnsigned : Wire → Option Nat
  | .number n => if 0 ≤ n ∧ n < 0x10000000000000000 then some n.toNat else none
  | _         => none

def asNull : Wire → Option Unit
  | .null => some ()
  | _     => none

def ThreadRef.decode (j : Wire) : Option ThreadRef := do
  let field ← j.fields ["provider", "account_id", "mailbox_identity_key", "thread_key"]
  let provider ← (← field "provider").asString
  let accountId ← (← field "account_id").asString
  let mailboxIdentityKey ← (← field "mailbox_identity_key").nullable Json.asString
  let threadKey ← (← field "thread_key").asString
  return { provider, accountId, mailboxIdentityKey, threadKey }

def InboxMessageRef.decode (j : Wire) : Option InboxMessageRef := do
  let field ← j.fields ["provider", "account_id", "mailbox_identity_key", "message_id"]
  let provider ← (← field "provider").asString
  let accountId ← (← field "account_id").asString
  let mailboxIdentityKey ← (← field "mailbox_identity_key").nullable Json.asString
  let messageId ← (← field "message_id").asString
  return { provider, accountId, mailboxIdentityKey, messageId }

def ThreadVendor.decode (j : Wire) : Option ThreadVendor := do
  let field ← j.fields ["vendor_id", "display_name"]
  let vendorId ← (← field "vendor_id").asString
  let displayName ← (← field "display_name").asString
  return { vendorId, displayName }

def ThreadRelation.decode : Wire → Option ThreadRelation
  | .string "owned"  => some .owned
  | .string "linked" => some .linked
  | _                => none

-- `NonVendorRelation`
def decodeNonVendor : Wire → Option Unit
  | .string "non_vendor" => some ()
  | _                    => none

def ThreadItem.decode (j : Wire) : Option ThreadItem := do
  let field ← j.fields
    ["thread_ref", "relation", "owner_vendor", "subject", "latest_received_at", "message_count"]
  let threadRef ← ThreadRef.decode (← field "thread_ref")
  let relation ← ThreadRelation.decode (← field "relation")
  let ownerVendor ← ThreadVendor.decode (← field "owner_vendor")
  let subject ← (← field "subject").asString
  let latestReceivedAt ← (← field "latest_received_at").nullable Json.asString
  let messageCount ← asUnsigned (← field "message_count")
  return { threadRef, relation, ownerVendor, subject, latestReceivedAt, messageCount }

def NonVendorThreadItem.decode (j : Wire) : Option NonVendorThreadItem := do
  let field ← j.fields
    ["thread_ref", "relation", "owner_vendor", "subject", "latest_received_at", "message_count"]
  let threadRef ← ThreadRef.decode (← field "thread_ref")
  decodeNonVendor (← field "relation")
  asNull (← field "owner_vendor")
  let subject ← (← field "subject").asString
  let latestReceivedAt ← (← field "latest_received_at").nullable Json.asString
  let messageCount ← asUnsigned (← field "message_count")
  return { threadRef, subject, latestReceivedAt, messageCount }

def ResolvedThreadContext.decode (j : Wire) : Option ResolvedThreadContext := do
  let kind ← (← j.member "kind").asString
  match kind with
  | "vendor"     =>
    let field ← j.fields ["kind", "vendor", "thread"]
    return .vendor (← ThreadVendor.decode (← field "vendor")) (← ThreadItem.decode (← field "thread"))
  | "non_vendor" =>
    let field ← j.fields ["kind", "thread"]
    return .nonVendor (← NonVendorThreadItem.decode (← field "thread"))
  | _            => none

def ThreadResolveResult.decode (j : Wire) : Option ThreadResolveResult := do
  let state ← (← j.member "state").asString
  match state with
  | "resolved"      =>
    let field ← j.fields ["state", "message_ref", "context"]
    return .resolved (← InboxMessageRef.decode (← field "message_ref"))
      (← ResolvedThreadContext.decode (← field "context"))
  | "choose_vendor" =>
    let field ← j.fields ["state", "message_ref", "thread_ref", "owner_vendor", "items", "next_cursor"]
    let messageRef ← InboxMessageRef.decode (← field "message_ref")
    let threadRef ← ThreadRef.decode (← field "thread_ref")
    let ownerVendor ← ThreadVendor.decode (← field "owner_vendor")
    let items ← (← field "items").items ThreadVendor.decode
    let nextCursor ← (← field "next_cursor").nullable Json.asString
    return .chooseVendor messageRef threadRef ownerVendor items nextCursor
  | _               => none

def Unstored.ofName : String → Option Unstored
  | "pending"                      => some .pending
  | "source_gone"                  => some .sourceGone
  | "outside_folders"              => some .outsideFolders
  | "removal_pending"              => some .removalPending
  | "mailbox_identity_unavailable" => some .mailboxIdentityUnavailable
  | "not_followed"                 => some .notFollowed
  | _                              => none

def ThreadBodyState.decode (j : Wire) : Option ThreadBodyState := do
  let state ← (← j.member "state").asString
  match state with
  | "stored" =>
    let field ← j.fields ["state", "stored_chars", "source_chars"]
    return .stored (← asUnsigned (← field "stored_chars")) (← asUnsigned (← field "source_chars"))
  | state    =>
    let _ ← j.fields ["state"]
    return .unstored (← Unstored.ofName state)

def ThreadBody.decode (j : Wire) : Option ThreadBody := do
  let state ← (← j.member "state").asString
  match state with
  | "stored" =>
    let field ← j.fields ["state", "text", "stored_chars", "source_chars"]
    return .stored (← (← field "text").asString) (← asUnsigned (← field "stored_chars"))
      (← asUnsigned (← field "source_chars"))
  | state    =>
    let _ ← j.fields ["state"]
    return .unstored (← Unstored.ofName state)

def ThreadDirection.decode : Wire → Option ThreadDirection
  | .string "inbound"  => some .inbound
  | .string "outbound" => some .outbound
  | _                  => none

-- Of the two forms, the first that fits.
def ThreadContext.decode (j : Wire) : Option ThreadContext := do
  let field ← j.fields ["thread_ref", "relation", "owner_vendor", "subject", "history_notice"]
  let threadRef ← ThreadRef.decode (← field "thread_ref")
  let subject ← (← field "subject").asString
  let historyNotice ← (← field "history_notice").asString
  let relation ← field "relation"
  let ownerVendor ← field "owner_vendor"
  match ThreadRelation.decode relation, ThreadVendor.decode ownerVendor with
  | some relation, some ownerVendor => return .vendor threadRef relation ownerVendor subject historyNotice
  | _,             _                =>
    decodeNonVendor relation
    asNull ownerVendor
    return .nonVendor threadRef subject historyNotice

def ThreadMessage.decode (j : Wire) : Option ThreadMessage := do
  let field ← j.fields ["message_id", "subject", "direction", "sender", "sender_name", "attributed_vendor",
    "received_at", "body_state", "copy_count"]
  let messageId ← (← field "message_id").asString
  let subject ← (← field "subject").asString
  let direction ← ThreadDirection.decode (← field "direction")
  let sender ← (← field "sender").asString
  let senderName ← (← field "sender_name").nullable Json.asString
  let attributedVendor ← (← field "attributed_vendor").nullable ThreadVendor.decode
  let receivedAt ← (← field "received_at").nullable Json.asString
  let bodyState ← ThreadBodyState.decode (← field "body_state")
  let copyCount ← asUnsigned (← field "copy_count")
  return { messageId, subject, direction, sender, senderName, attributedVendor, receivedAt, bodyState,
           copyCount }

def ThreadMessagePage.decode (j : Wire) : Option ThreadMessagePage := do
  let field ← j.fields ["thread", "items", "next_cursor"]
  let thread ← ThreadContext.decode (← field "thread")
  let items ← (← field "items").items ThreadMessage.decode
  let nextCursor ← (← field "next_cursor").nullable Json.asString
  return { thread, items, nextCursor }

def ThreadBodyResponse.decode (j : Wire) : Option ThreadBodyResponse := do
  let field ← j.fields ["thread_ref", "message_id", "body"]
  let threadRef ← ThreadRef.decode (← field "thread_ref")
  let messageId ← (← field "message_id").asString
  let body ← ThreadBody.decode (← field "body")
  return { threadRef, messageId, body }

end Threads
