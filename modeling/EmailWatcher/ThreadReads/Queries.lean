import EmailWatcher.Threads.Display
import EmailWatcher.ThreadReads.Answers

-- What the host asks for, and what becomes of the answers in the host and on the page.
namespace ThreadReads

open Mail (Provider)
open Threads (Wire)
open Transaction

section Requests

variable [Stdlib]

-- A reference, as the engine spells it.
def normal (m : Threads.InboxMessageRef) : Threads.InboxMessageRef := { m with
  provider  := Stdlib.casefold (strip m.provider)
  accountId := strip m.accountId
}

omit [Stdlib] in
@[simp]
theorem asInvalid_eq_ok {α : Type} {x : Except ReadError α} {a : α} : asInvalid x = .ok a ↔ x = .ok a := by
  cases x
  case ok a    => rfl
  case error e => cases e <;> simp [asInvalid]

theorem mailProvider_eq_ok {provider : String} {p : Provider} (h : mailProvider (.string provider) = .ok p) :
    p.name = Stdlib.casefold (strip provider) := by
  simp only [mailProvider, bind_eq_ok, require_eq_ok, find_eq_ok, Json.asString_string] at h
  obtain ⟨_, hprovider, -, -, hp⟩ := h
  cases hprovider
  have hname := List.find?_some hp
  exact of_decide_eq_true hname

omit [Stdlib] in
theorem mailboxIdentityKey_eq_ok {identity key : Option String}
    (h : mailboxIdentityKey (.ofOption .string identity) = .ok key) : key = identity := by
  cases identity
  case none   =>
    cases h
    rfl
  case some i =>
    simp only [Json.ofOption, mailboxIdentityKey, bind_eq_ok, find_eq_ok, pure_eq_ok, asDigest,
      Json.asString_string, Option.filter_some] at h
    obtain ⟨x, hx, rfl⟩ := h
    split at hx
    · exact hx.symm
    · cases hx

theorem inboxMessageRef_eq_ok {m : Threads.InboxMessageRef} {origin : InboxMessageRef}
    (h : inboxMessageRef m.toWire = .ok origin) : origin.host = normal m := by
  have hprovider : getOr m.toWire "provider" .null = .string m.provider := rfl
  have haccountId : getOr m.toWire "account_id" .null = .string m.accountId := rfl
  have hidentity : getOr m.toWire "mailbox_identity_key" .null = .ofOption .string m.mailboxIdentityKey := rfl
  have hmessageId : getOr m.toWire "message_id" .null = .string m.messageId := rfl
  simp only [inboxMessageRef, mailAccountKey, hprovider, haccountId, hidentity, hmessageId, bind_eq_ok,
    require_eq_ok, find_eq_ok, pure_eq_ok, asInvalid_eq_ok, Json.asString_string] at h
  obtain ⟨-, -, ⟨p, a, i⟩, ⟨⟨p', a'⟩, ⟨_, hp, _, ha, -, -, hpa⟩, _, hi, hpai⟩, messageId, hmessage, rfl⟩ := h
  cases ha
  cases hpa
  cases hpai
  obtain ⟨hmessage, -⟩ := Option.filter_eq_some_iff.mp hmessage
  cases hmessage
  simp only [InboxMessageRef.host, normal, mailProvider_eq_ok hp, mailboxIdentityKey_eq_ok hi]

omit [Stdlib] in
theorem vendorId_eq_ok {payload : Wire} {v : String} (h : vendorId payload = .ok v) :
    getOr payload "vendor_id" .null = .string v ∧ v ≠ "" := by
  simp only [vendorId, find_eq_ok] at h
  obtain ⟨hv, hvalid⟩ := Option.filter_eq_some_iff.mp h
  refine ⟨?_, ?_⟩
  · cases hmember : getOr payload "vendor_id" .null <;> rw [hmember] at hv <;> cases hv
    rfl
  · rintro rfl
    exact absurd hvalid (by decide)

theorem threadsResolve_eq_ok {s : Store} {q : Threads.ThreadResolveQuery} {w : Wire}
    (h : threadsResolve s q.toWire = .ok w) :
    ∃ origin limit value, s.resolveInbox origin q.vendor limit value = .ok w ∧ origin.host = normal q.origin ∧
      q.vendor ≠ some "" := by
  cases q
  case choice messageRef chosen           =>
    have hasked : ((Threads.ThreadResolveQuery.choice messageRef chosen).toWire.member "vendor_id").isSome := rfl
    have horigin : getOr (Threads.ThreadResolveQuery.choice messageRef chosen).toWire "message_ref" .null =
      messageRef.toWire := rfl
    simp only [threadsResolve, bind_eq_ok, hasked, if_true, map_eq_ok, horigin] at h
    obtain ⟨-, -, origin, ho, _, ⟨v, hv, rfl⟩, -, -, limit, -, h⟩ := h
    obtain ⟨hmember, hne⟩ := vendorId_eq_ok hv
    cases hmember
    exact ⟨origin, limit, _, h, inboxMessageRef_eq_ok ho, fun hv => hne (Option.some.inj hv)⟩
  case candidates messageRef limit cursor =>
    have hasked : ((Threads.ThreadResolveQuery.candidates messageRef limit cursor).toWire.member
      "vendor_id").isSome = false := rfl
    have horigin : getOr (Threads.ThreadResolveQuery.candidates messageRef limit cursor).toWire "message_ref"
      .null = messageRef.toWire := rfl
    simp only [threadsResolve, bind_eq_ok, hasked, Bool.false_eq_true, if_false, pure_eq_ok, horigin] at h
    obtain ⟨-, -, origin, ho, _, rfl, -, -, limit, -, h⟩ := h
    exact ⟨origin, limit, _, h, inboxMessageRef_eq_ok ho, (Option.some_ne_none _).symm⟩

omit [Stdlib] in
theorem member_append {members rest : List (String × Wire)} {name : String}
    (h : (Json.object rest : Wire).member name = none) :
    (Json.object (members ++ rest) : Wire).member name = (Json.object members : Wire).member name := by
  simp only [Json.member, Option.map_eq_none_iff, List.find?_append] at h ⊢
  rw [h, Option.or_none]

theorem threadReadSelector_takes {q : Threads.ThreadSelector} {rest : List (String × Wire)} {selector : Selector}
    {ref : ThreadRef} {inboxMessage : Option InboxMessageRef}
    (hvendor : (Json.object rest : Wire).member "vendor_id" = none)
    (hinbox : (Json.object rest : Wire).member "inbox_thread" = none)
    (h : threadReadSelector (.object (q.members ++ rest)) = .ok (selector, ref, inboxMessage)) :
    selector.Takes q := by
  rw [threadReadSelector, member_append hinbox] at h
  cases q
  case inbox threadRef messageRef                =>
    have hmember : (Json.object (Threads.ThreadSelector.inbox threadRef messageRef).members : Wire).member
      "inbox_thread" = some (.object [("thread_ref", threadRef.toWire), ("message_ref", messageRef.toWire)]) := rfl
    rw [hmember] at h
    simp only [bind_eq_ok, pure_eq_ok] at h
    obtain ⟨-, -, -, -, origin, -, ref', -, h⟩ := h
    cases h
    trivial
  case vendor chosen threadRef inboxMessage =>
    have hnone : (Json.object (Threads.ThreadSelector.vendor chosen threadRef inboxMessage).members :
        Wire).member "inbox_thread" = none := by
      cases inboxMessage <;> rfl
    rw [hnone] at h
    simp only [bind_eq_ok] at h
    obtain ⟨v, hv, ref', -, h⟩ := h
    have hselector : selector = .vendor v := by
      split at h <;> simp only [bind_eq_ok, pure_eq_ok] at h
      all_goals
        obtain ⟨_, _, h⟩ := h
        cases h
        rfl
    subst hselector
    have hmember := (vendorId_eq_ok hv).left
    rw [getOr, member_append hvendor] at hmember
    cases hmember
    rfl

end Requests

section Answers

variable [Stdlib]

-- Of the vendor that is selected, whether it owns the thread.
def Related : Threads.ThreadResolveResult → Prop
  | .resolved _ (.vendor vendor thread) =>
    thread.relation = .owned ↔ vendor.vendorId = thread.ownerVendor.vendorId
  | _                                   => True

def RelatedTo (selected : Threads.ThreadSelector) : Threads.ThreadContext → Prop
  | .vendor _ relation ownerVendor _ _ =>
    ∃ vendorId threadRef inboxMessage, selected = .vendor vendorId threadRef inboxMessage ∧
      (relation = .owned ↔ vendorId = ownerVendor.vendorId)
  | .nonVendor _ _ _                   => ∃ threadRef messageRef, selected = .inbox threadRef messageRef

omit [Stdlib] in
theorem vendorRelationMatches_iff {relation : Threads.ThreadRelation} {selected : String}
    {owner : Threads.ThreadVendor} (h : Threads.vendorRelationMatches relation selected owner) :
    relation = .owned ↔ selected = owner.vendorId := by
  cases relation
  case owned  => exact iff_of_true rfl (of_decide_eq_true h)
  case linked => exact iff_of_false (fun h => Threads.ThreadRelation.noConfusion h) (of_decide_eq_true h)

omit [Stdlib] in
theorem related_of_validFor {r : Threads.ThreadResolveResult} {origin : Threads.InboxMessageRef}
    {selected : Option String} (h : r.validFor origin selected) : Related r := by
  cases r
  case chooseVendor           => trivial
  case resolved messageRef c  =>
    cases c
    case nonVendor            => trivial
    case vendor vendor thread => exact vendorRelationMatches_iff (of_decide_eq_true h).right.right.right

omit [Stdlib] in
theorem relatedTo_of_validFor {c : Threads.ThreadContext} {q : Threads.ThreadSelector} (h : c.validFor q) :
    RelatedTo q c := by
  cases c <;> cases q
  case vendor.vendor    => exact ⟨_, _, _, rfl, vendorRelationMatches_iff h⟩
  case nonVendor.inbox  => exact ⟨_, _, rfl⟩
  case vendor.inbox     => cases h
  case nonVendor.vendor => cases h

-- What the host and the page make of the answers to all queries.
theorem queries_answered (s : Store) :
    (∀ (q : Threads.ThreadResolveQuery) w, threadsResolve s q.toWire = .ok w →
      ∃ r, Threads.ThreadResolveResult.decode w = some r ∧
        (r.validFor q.origin q.vendor ↔ normal q.origin = q.origin) ∧ Related r ∧
        ∃ ref, (thread r).fst = ref.host ∧ s.Standing ref (thread r).snd) ∧
    (∀ (q : Threads.ThreadMessagesQuery) w, threadsMessages s q.toWire = .ok w →
      ∃ p, Threads.ThreadMessagePage.decode w = some p ∧ p.thread.validFor q.selector ∧
        RelatedTo q.selector p.thread ∧
        (∀ m ∈ p.items, m.bodyState.valid ∧
          ((Threads.threadBodyStateLabel m.bodyState.toWire).isSome ↔ m.bodyState.Countable)) ∧
        ∃ ref, p.thread.threadRef = ref.host ∧ s.Standing ref (owner p.thread)) ∧
    ∀ (q : Threads.ThreadBodyQuery) w, threadsBody s q.toWire = .ok w →
      ∃ r, Threads.ThreadBodyResponse.decode w = some r ∧ r.body.valid ∧
        (∀ text count source, r.body = .stored text count source → text.length = count) ∧
        ((Threads.threadBodyDisplay r.body.toWire).isSome ↔ r.body.Countable) := by
  refine ⟨fun q w h => ?_, fun q w h => ?_, fun q w h => ?_⟩
  · obtain ⟨origin, limit, value, hresolve, horigin, hne⟩ := threadsResolve_eq_ok h
    obtain ⟨r, hdecode, hvalid, hstanding⟩ := resolveInbox_answers hne hresolve
    refine ⟨r, hdecode, ?_, related_of_validFor ((hvalid origin.host).mpr rfl), hstanding⟩
    rw [hvalid, horigin, eq_comm]
  · simp only [threadsMessages, bind_eq_ok] at h
    obtain ⟨-, -, ⟨selector, ref, inboxMessage⟩, hselector, limit, -, h⟩ := h
    have htakes := threadReadSelector_takes rfl rfl hselector
    obtain ⟨p, hdecode, hvalid, hbodies, hstanding⟩ := listMessages_answers h
    have hpage := hvalid q.selector htakes
    exact ⟨p, hdecode, hpage, relatedTo_of_validFor hpage,
      fun m hm => ⟨hbodies m hm, Threads.threadBodyStateLabel_isSome (hbodies m hm)⟩, hstanding⟩
  · simp only [threadsBody, bind_eq_ok] at h
    obtain ⟨-, -, ⟨selector, ref, inboxMessage⟩, -, message, -, h⟩ := h
    obtain ⟨r, hdecode, hvalid⟩ := readBody_answers h
    refine ⟨r, hdecode, hvalid, fun text count source hbody => ?_, Threads.threadBodyDisplay_isSome hvalid⟩
    rw [hbody] at hvalid
    exact Threads.length_of_valid hvalid

end Answers

namespace Sample

def moment : String :=
  "2024-01-01T00:00:00+00:00"

def digest : String :=
  String.ofList (List.replicate 64 'a')

@[reducible]
def stdlib : Stdlib where
  fromIsoFormat text := if text = moment then some 1704067200000000 else none
  isoFormat _        := some moment
  casefold           := id
  digest _           := digest
  encodeToken _      := ""
  decodeToken _      := none

def vendorId : String :=
  "11111111-1111-4111-8111-111111111111"

def message : Mail.Message where
  messageId          := "letter"
  provider           := .gmail
  accountId          := "a"
  mailboxIdentityKey := some digest
  providerMessageId  := "letter"
  threadKey          := some "thread"
  rfcMessageId       := none
  logicalOf          := none
  sender             := "sender"
  receivedAt         := moment
  status             := .analyzed
  notified           := true

-- A followed thread of one message, with its body.
def mail (sourceChars : Nat) : Mail.Store where
  clock       := 0
  accounts    := ∅
  messages    := Table.put ∅ message
  locations   := ∅
  threadIds   := ∅
  aliases     := ∅
  follows     := Table.put ∅ ⟨⟨.gmail, "a", digest⟩, "thread", true⟩
  watermarks  := ∅
  catchup     := ∅
  suppressed  := ∅
  bodies      := Table.put ∅ ⟨"letter", "Hi", sourceChars, 0⟩
  unavailable := ∅
  requests    := ∅
  intents     := ∅
  targets     := ∅

def store (sourceChars : Nat) (h : sourceChars < 0x8000000000000000) : Store where
  mail          := mail sourceChars
  derived       := Table.put ∅ ⟨"letter", .inbound, some vendorId⟩
  vendors       := Table.put ∅ ⟨vendorId, "Vendor"⟩
  subject _     := "Subject"
  senderName _  := none
  storedChars _ := 2
  messages_lt   := show 1 < 0x8000000000000000 by decide
  located_lt    := show 0 < 0x8000000000000000 by decide
  source_lt b hb := by
    obtain rfl := List.mem_singleton.mp hb
    exact h

def origin (accountId : String) : Threads.InboxMessageRef :=
  ⟨"gmail", accountId, some digest, "letter"⟩

def resolve (accountId : String) : Threads.ThreadResolveQuery :=
  .candidates (origin accountId) 25 none

def selector : Threads.ThreadSelector :=
  .vendor vendorId ⟨"gmail", "a", some digest, "thread"⟩ none

end Sample

open Sample in
theorem queries_answered_letter :
    let s := store 2 (by decide)
    letI := stdlib
    (∃ w, threadsResolve s (resolve "a").toWire = .ok w ∧
      ∃ r, Threads.ThreadResolveResult.decode w = some r ∧ r.validFor (resolve "a").origin (resolve "a").vendor) ∧
    (∃ w, threadsMessages s (Threads.ThreadMessagesQuery.mk selector 25 none).toWire = .ok w ∧
      ∃ p, Threads.ThreadMessagePage.decode w = some p ∧ p.thread.validFor selector) ∧
    ∃ w, threadsBody s (Threads.ThreadBodyQuery.mk selector "letter").toWire = .ok w ∧
      ∃ r, Threads.ThreadBodyResponse.decode w = some r ∧ r.body.valid := by
  intro s
  let _ := stdlib
  obtain ⟨hresolve, hmessages, hbody⟩ := queries_answered s
  have hresolved : (threadsResolve s (resolve "a").toWire).isOk := by decide +kernel
  have hlisted : (threadsMessages s (Threads.ThreadMessagesQuery.mk selector 25 none).toWire).isOk := by
    decide +kernel
  have hread : (threadsBody s (Threads.ThreadBodyQuery.mk selector "letter").toWire).isOk := by decide +kernel
  obtain ⟨w, hw⟩ := exists_ok_of_isOk hresolved
  obtain ⟨w', hw'⟩ := exists_ok_of_isOk hlisted
  obtain ⟨w'', hw''⟩ := exists_ok_of_isOk hread
  refine ⟨⟨w, hw, ?_⟩, ⟨w', hw', ?_⟩, ⟨w'', hw'', ?_⟩⟩
  · obtain ⟨r, hdecode, hvalid, -⟩ := hresolve (resolve "a") w hw
    exact ⟨r, hdecode, hvalid.mpr (by decide)⟩
  · obtain ⟨p, hdecode, hvalid, -⟩ := hmessages ⟨selector, 25, none⟩ w' hw'
    exact ⟨p, hdecode, hvalid⟩
  · obtain ⟨r, hdecode, hvalid, -⟩ := hbody ⟨selector, "letter"⟩ w'' hw''
    exact ⟨r, hdecode, hvalid⟩

open Sample in
-- The engine strips the account, and the host compares it as it sent it. The page counts no further than a double.
theorem answers_refused :
    (¬∀ (_ : Stdlib) (s : Store) (q : Threads.ThreadResolveQuery) w, threadsResolve s q.toWire = .ok w →
      ∃ r, Threads.ThreadResolveResult.decode w = some r ∧ r.validFor q.origin q.vendor) ∧
    ¬∀ (_ : Stdlib) (s : Store) (q : Threads.ThreadBodyQuery) w, threadsBody s q.toWire = .ok w →
      ∃ r, Threads.ThreadBodyResponse.decode w = some r ∧ (Threads.threadBodyDisplay r.body.toWire).isSome := by
  constructor
  · intro h
    let _ := stdlib
    have hresolved : (threadsResolve (store 2 (by decide)) (resolve " a").toWire).isOk := by decide +kernel
    have hinvalid : ((threadsResolve (store 2 (by decide)) (resolve " a").toWire).toOption.bind
        Threads.ThreadResolveResult.decode).all
          (fun r => !decide (r.validFor (resolve " a").origin (resolve " a").vendor)) := by decide +kernel
    obtain ⟨w, hw⟩ := exists_ok_of_isOk hresolved
    obtain ⟨r, hdecode, hvalid⟩ := h stdlib _ (resolve " a") w hw
    rw [hw] at hinvalid
    simp [Except.toOption, hdecode, hvalid] at hinvalid
  · intro h
    let _ := stdlib
    let q : Threads.ThreadBodyQuery := ⟨selector, "letter"⟩
    have hread : (threadsBody (store 9007199254740992 (by decide)) q.toWire).isOk := by decide +kernel
    have hhidden : ((threadsBody (store 9007199254740992 (by decide)) q.toWire).toOption.bind
        Threads.ThreadBodyResponse.decode).all
          (fun r => (Threads.threadBodyDisplay r.body.toWire).isNone) := by decide +kernel
    obtain ⟨w, hw⟩ := exists_ok_of_isOk hread
    obtain ⟨r, hdecode, hshown⟩ := h stdlib _ q w hw
    rw [hw] at hhidden
    simp only [Except.toOption, Option.bind_some, hdecode, Option.all_some, Option.isNone_iff_eq_none] at hhidden
    rw [hhidden] at hshown
    cases hshown

end ThreadReads
