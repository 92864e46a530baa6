import EmailWatcher.ThreadReads.Requests
import EmailWatcher.Threads.Display
import Mathlib.Data.List.Dedup

-- What the engine answers, the host decodes and lets through.
namespace ThreadReads

open Threads (Wire)
open Store Transaction

section Records

def ThreadRef.host (r : ThreadRef) : Threads.ThreadRef :=
  ⟨r.provider.name, r.accountId, r.mailboxIdentityKey, r.threadKey⟩

def InboxMessageRef.host (r : InboxMessageRef) : Threads.InboxMessageRef :=
  ⟨r.provider.name, r.accountId, r.mailboxIdentityKey, r.messageId⟩

def Vendor.host (v : Vendor) : Threads.ThreadVendor :=
  ⟨v.vendorId, v.displayName⟩

theorem decode_threadRef (r : ThreadRef) : Threads.ThreadRef.decode r.asdict = some r.host := by
  simp [Threads.ThreadRef.decode, ThreadRef.asdict, Json.fields, Json.member, ThreadRef.host]

theorem decode_inboxMessageRef (r : InboxMessageRef) :
    Threads.InboxMessageRef.decode r.asdict = some r.host := by
  simp [Threads.InboxMessageRef.decode, InboxMessageRef.asdict, Json.fields, Json.member, InboxMessageRef.host]

theorem decode_vendor (v : Vendor) : Threads.ThreadVendor.decode v.dict = some v.host := by
  simp [Threads.ThreadVendor.decode, Vendor.dict, Json.fields, Json.member, Vendor.host]

theorem asUnsigned_number {n : Nat} (h : n < 0x10000000000000000) : Threads.asUnsigned (.number n) = some n := by
  have hn : (0 : Int) ≤ n ∧ (n : Int) < 0x10000000000000000 := by omega
  simp only [Threads.asUnsigned, if_pos hn, Int.toNat_natCast]

def relationName : Threads.ThreadRelation → String
  | .owned  => "owned"
  | .linked => "linked"

theorem decode_relation (r : Threads.ThreadRelation) :
    Threads.ThreadRelation.decode (.string (relationName r)) = some r := by
  cases r <;> rfl

variable {ref : ThreadRef} {relation : Threads.ThreadRelation} {owner : Vendor} {subject : String}
  {received count : Wire} {latestReceivedAt : Option String} {messageCount : Nat}

theorem decode_threadItem (hr : received.nullable Json.asString = some latestReceivedAt)
    (hc : Threads.asUnsigned count = some messageCount) :
    Threads.ThreadItem.decode (.object [("thread_ref", ref.asdict), ("subject", .string subject),
      ("latest_received_at", received), ("message_count", count),
      ("relation", .string (relationName relation)), ("owner_vendor", owner.dict)]) =
      some ⟨ref.host, relation, owner.host, subject, latestReceivedAt, messageCount⟩ := by
  simp [Threads.ThreadItem.decode, Json.fields, Json.member, decode_threadRef, decode_relation, decode_vendor,
    hr, hc]

theorem decode_nonVendorThreadItem (hr : received.nullable Json.asString = some latestReceivedAt)
    (hc : Threads.asUnsigned count = some messageCount) :
    Threads.NonVendorThreadItem.decode (.object [("thread_ref", ref.asdict), ("subject", .string subject),
      ("latest_received_at", received), ("message_count", count),
      ("relation", .string "non_vendor"), ("owner_vendor", .null)]) =
      some ⟨ref.host, subject, latestReceivedAt, messageCount⟩ := by
  simp [Threads.NonVendorThreadItem.decode, Threads.decodeNonVendor, Threads.asNull, Json.fields, Json.member,
    decode_threadRef, hr, hc]

end Records

section Membership

variable [Stdlib] {s : Store} {ref : ThreadRef} {members : List (Row × Member)}

-- The rows of a thread.
def Store.threadRows (s : Store) (ref : ThreadRef) : List Row :=
  (s.rows ref.provider ref.accountId).filter fun r => ref.has r.message r.identity

structure Store.IsThread (s : Store) (ref : ThreadRef) (members : List (Row × Member)) : Prop where
  rows   : members.map Prod.fst = s.threadRows ref
  member : ∀ x ∈ members, s.threadMember x.fst.message x.fst.vendorId = .ok x.snd

-- Some member is attributed to a vendor.
def Store.Attributed (s : Store) (ref : ThreadRef) : Prop :=
  ∃ r ∈ s.threadRows ref, r.vendorId.isSome

-- The owner is the vendor of the member that `_follow_owner` finds.
def Store.Owner (s : Store) (ref : ThreadRef) (vendorId : String) : Prop :=
  ∃ members, s.IsThread ref members ∧ ∃ m, followOwner (members.map Prod.snd) = some (m, vendorId)

omit [Stdlib] in
theorem mapM_pairs {α β : Type} {l : List α} {f : α → Except ReadError β} {pairs : List (α × β)}
    (h : (l.mapM fun a => do return (a, ← f a)) = .ok pairs) :
    pairs.map Prod.fst = l ∧ ∀ x ∈ pairs, f x.fst = .ok x.snd := by
  induction l generalizing pairs
  case nil =>
    simp only [List.mapM_nil, pure_eq_ok] at h
    subst h
    exact ⟨rfl, fun _ hx => absurd hx List.not_mem_nil⟩
  case cons a l ih =>
    simp only [List.mapM_cons, bind_eq_ok, pure_eq_ok] at h
    obtain ⟨x, ⟨b, hb, rfl⟩, xs, hxs, rfl⟩ := h
    obtain ⟨hfst, hsnd⟩ := ih hxs
    exact ⟨by rw [List.map_cons, hfst], List.forall_mem_cons.mpr ⟨hb, hsnd⟩⟩

theorem Store.isThread_group {thread : Option ThreadRef} (ht : thread = none ∨ thread = some ref)
    (h : s.members ref.provider ref.accountId thread = .ok members) : s.IsThread ref (group ref members) := by
  obtain ⟨hrows, hmembers⟩ := mapM_pairs h
  refine ⟨?_, fun x hx => hmembers x (List.mem_of_mem_filter hx)⟩
  have hgroup : (group ref members).map Prod.fst =
      (members.map Prod.fst).filter fun r => ref.has r.message r.identity := by
    rw [group, List.filter_map]
    rfl
  rw [hgroup, hrows, List.filter_filter, threadRows]
  refine List.filter_congr fun r _ => ?_
  obtain rfl | rfl := ht <;> simp

theorem threadMember_vendor {m : Mail.Message} {vendor : Option String} {x : Member}
    (h : s.threadMember m vendor = .ok x) : x.vendor = vendor := by
  simp only [Store.threadMember, bind_eq_ok] at h
  obtain ⟨_, -, _, -, h⟩ := h
  cases h
  rfl

namespace Store.IsThread

theorem length_lt (h : s.IsThread ref members) : members.length < 0x8000000000000000 := by
  have hlen := congrArg List.length h.rows
  rw [List.length_map] at hlen
  have hle : (s.threadRows ref).length ≤ s.mail.messages.rows.length :=
    (List.length_filter_le _ _).trans <| (List.length_filterMap_le _ _).trans <|
      (List.length_filter_le _ _).trans (List.length_filter_le _ _)
  have hlt := s.messages_lt
  omega

theorem exists_row (h : s.IsThread ref members) {p : Row → Prop} :
    (∃ r ∈ s.threadRows ref, p r) ↔ ∃ x ∈ members, p x.fst := by
  rw [← h.rows]
  simp only [List.mem_map]
  constructor
  · rintro ⟨_, ⟨x, hx, rfl⟩, hp⟩
    exact ⟨x, hx, hp⟩
  · rintro ⟨x, hx, hp⟩
    exact ⟨x.fst, ⟨x, hx, rfl⟩, hp⟩

theorem attributed_iff_represented (h : s.IsThread ref members) : s.Attributed ref ↔ represented members ≠ [] := by
  have hnil : represented members = [] ↔ ∀ x ∈ members, x.fst.vendorId = none := by
    rw [represented, ← List.filterMap_eq_nil_iff, List.eq_nil_iff_forall_not_mem, List.eq_nil_iff_forall_not_mem]
    simp only [List.mem_dedup]
  rw [Store.Attributed, h.exists_row, ne_eq, hnil]
  simp only [not_forall, Option.isSome_iff_ne_none, exists_prop, ne_eq]

theorem attributed_iff_owner (h : s.IsThread ref members) :
    s.Attributed ref ↔ (followOwner (members.map Prod.snd)).isSome := by
  rw [Store.Attributed, h.exists_row, Option.isSome_iff_ne_none, followOwner, ne_eq, List.argmin_eq_none,
    List.filterMap_eq_nil_iff]
  simp only [List.mem_map, not_forall, exists_prop, Option.map_eq_none_iff, Option.isSome_iff_ne_none, ne_eq]
  constructor
  · rintro ⟨x, hx, hv⟩
    exact ⟨x.snd, ⟨x, hx, rfl⟩, by rwa [threadMember_vendor (h.member x hx)]⟩
  · rintro ⟨_, ⟨x, hx, rfl⟩, hv⟩
    exact ⟨x, hx, by rwa [threadMember_vendor (h.member x hx)] at hv⟩

theorem owner {m : Member} {vendorId : String} (h : s.IsThread ref members)
    (ho : followOwner (members.map Prod.snd) = some (m, vendorId)) :
    s.Owner ref vendorId :=
  ⟨members, h, m, ho⟩

end Store.IsThread

theorem inboxThread_eq_ok {origin : InboxMessageRef} (h : s.inboxThread origin = .ok (ref, members)) :
    ref.provider = origin.provider ∧ ref.accountId = origin.accountId ∧
    ref.mailboxIdentityKey = origin.mailboxIdentityKey ∧ s.IsThread ref members := by
  simp only [Store.inboxThread, bind_eq_ok, find_eq_ok, require_eq_ok, pure_eq_ok] at h
  obtain ⟨m, -, -, hidentity, key, -, -, -, all, hall, -, -, h⟩ := h
  cases h
  exact ⟨rfl, rfl, hidentity, isThread_group (.inr rfl) hall⟩

theorem selectedThread_eq_ok {selector : Selector} {requested : ThreadRef}
    {inboxMessage : Option InboxMessageRef}
    (h : s.selectedThread selector requested inboxMessage = .ok (ref, members)) :
    s.IsThread ref members ∧
    match selector with
    | .inbox _         => represented members = []
    | .vendor vendorId => vendorId ∈ represented members := by
  simp only [Store.selectedThread, bind_eq_ok, pure_eq_ok, Prod.mk.injEq] at h
  obtain ⟨origin, -, _, -, _, hmembers, _, hcheck, rfl, rfl⟩ := h
  constructor
  · cases origin
    case none =>
      simp only [Store.selectedMembers, bind_eq_ok, pure_eq_ok] at hmembers
      obtain ⟨all, hall, rfl⟩ := hmembers
      exact isThread_group (.inl rfl) hall
    case some origin =>
      simp only [Store.selectedMembers, bind_eq_ok, pure_eq_ok, require_eq_ok] at hmembers
      obtain ⟨⟨originRef, all⟩, hall, -, rfl, -, -, rfl⟩ := hmembers
      exact (inboxThread_eq_ok hall).right.right.right
  · cases selector
    case inbox messageRef => exact require_eq_ok.mp hcheck
    case vendor vendorId  => exact (require_eq_ok.mp hcheck).right

end Membership

section Bodies

variable {s : Store} {messageId : String} {key : Option String} {followed includeText : Bool} {w : Wire}

theorem decode_bodyStatus (reason : Threads.Unstored) :
    Threads.ThreadBodyState.decode (bodyStatus reason.name) = some (.unstored reason) ∧
    Threads.ThreadBody.decode (bodyStatus reason.name) = some (.unstored reason) := by
  cases reason <;> exact ⟨rfl, rfl⟩

-- What is projected of a body: a reason why there is none, or counts in order, with or without the text.
inductive Projected (includeText : Bool) : Wire → Prop
  | unstored (reason : Threads.Unstored) : Projected includeText (bodyStatus reason.name)
  | counts   {count source : Nat} (ht : includeText = false)
      (hv : Threads.validThreadBodyLengths count source) (hs : source < 0x8000000000000000) :
      Projected includeText (.object [("state", .string "stored"), ("stored_chars", .number count),
        ("source_chars", .number source)])
  | stored   {text : String} {source : Nat} (ht : includeText = true)
      (hv : Threads.validThreadBodyLengths text.length source) (hs : source < 0x8000000000000000) :
      Projected includeText (.object [("state", .string "stored"), ("stored_chars", .number text.length),
        ("source_chars", .number source), ("text", .string text)])

theorem projected (h : s.project messageId key followed includeText = .ok w) : Projected includeText w := by
  simp only [Store.project, bind_eq_ok, find_eq_ok] at h
  obtain ⟨unit, -, h⟩ := h
  split at h
  · cases h
    exact .unstored .removalPending
  split at h
  · cases h
    exact .unstored .notFollowed
  split at h
  · cases h
    exact .unstored .mailboxIdentityUnavailable
  simp only [bind_eq_ok, require_eq_ok] at h
  obtain ⟨-, -, h⟩ := h
  split at h
  · rename_i stored hstored
    have hsource := s.source_lt stored (Table.mem_of_get hstored)
    simp only [bind_eq_ok, require_eq_ok] at h
    obtain ⟨-, hcounts, h⟩ := h
    obtain ⟨count, hcount⟩ := Int.eq_ofNat_of_zero_le hcounts.left
    rw [hcount] at hcounts h
    have hv : Threads.validThreadBodyLengths count stored.sourceChars :=
      decide_eq_true ⟨Int.ofNat_le.mp hcounts.right.left, Int.ofNat_le.mp hcounts.right.right⟩
    split at h
    · rename_i ht
      simp only [bind_eq_ok, require_eq_ok, pure_eq_ok] at h
      obtain ⟨-, htext, rfl⟩ := h
      cases Int.ofNat_inj.mp htext
      exact .stored ht hv hsource
    · rename_i ht
      cases h
      exact .counts (Bool.eq_false_iff.mpr ht) hv hsource
  · split at h
    · cases h
      exact .unstored .pending
    · rename_i marker _
      cases h
      cases marker.reason
      · exact .unstored .sourceGone
      · exact .unstored .outsideFolders

theorem decode_storedState {stored source : Wire} {count sourceCount : Nat}
    (hc : Threads.asUnsigned stored = some count) (hs : Threads.asUnsigned source = some sourceCount) :
    Threads.ThreadBodyState.decode (.object [("state", .string "stored"), ("stored_chars", stored),
      ("source_chars", source)]) = some (.stored count sourceCount) := by
  simp [Threads.ThreadBodyState.decode, Json.member, Json.fields, hc, hs]

theorem decode_storedBody {stored source : Wire} {text : String} {count sourceCount : Nat}
    (hc : Threads.asUnsigned stored = some count) (hs : Threads.asUnsigned source = some sourceCount) :
    Threads.ThreadBody.decode (.object [("state", .string "stored"), ("stored_chars", stored),
      ("source_chars", source), ("text", .string text)]) = some (.stored text count sourceCount) := by
  simp [Threads.ThreadBody.decode, Json.member, Json.fields, hc, hs]

theorem Projected.decode_state (h : Projected false w) :
    ∃ b, Threads.ThreadBodyState.decode w = some b ∧ b.valid := by
  cases h
  case unstored reason      => exact ⟨_, (decode_bodyStatus reason).left, rfl⟩
  case stored ht _ _        => cases ht
  case counts count source _ hv hs =>
    have hle : count ≤ 200000 ∧ count ≤ source := of_decide_eq_true hv
    have hcount := asUnsigned_number (n := count) (by omega)
    have hsource := asUnsigned_number (n := source) (by omega)
    exact ⟨.stored count source, decode_storedState hcount hsource, hv⟩

theorem Projected.decode_body (h : Projected true w) : ∃ b, Threads.ThreadBody.decode w = some b ∧ b.valid := by
  cases h
  case unstored reason => exact ⟨_, (decode_bodyStatus reason).right, rfl⟩
  case counts ht _ _   => cases ht
  case stored text source _ hv hs =>
    have hle : text.length ≤ 200000 ∧ text.length ≤ source := of_decide_eq_true hv
    have hcount := asUnsigned_number (n := text.length) (by omega)
    have hsource := asUnsigned_number (n := source) (by omega)
    refine ⟨.stored text text.length source, decode_storedBody hcount hsource, decide_eq_true ⟨hv, ?_⟩⟩
    rw [List.length_take, String.length_toList, Threads.maxThreadBodyChars]
    omega

end Bodies

section Readers

variable [Stdlib] {s : Store} {ref : ThreadRef} {members : List (Row × Member)} {w : Wire}

theorem page_subset {rows keys items : List Wire} {selector : List (String × Wire)} {revision value : Wire}
    {limit : Nat} {token : Option String}
    (h : page rows keys selector revision limit value = .ok (items, token)) : items ⊆ rows := by
  simp only [page, bind_eq_ok, pure_eq_ok, Prod.mk.injEq] at h
  obtain ⟨-, -, _, -, after, -, rfl, -⟩ := h
  exact fun j hj => List.mem_of_mem_take (List.mem_of_mem_drop hj)

theorem receivedAt_nullable {epoch : Option Instant} (h : receivedAt epoch = .ok w) :
    ∃ t, w.nullable Json.asString = some t := by
  cases epoch <;> simp only [receivedAt, bind_eq_ok, pure_eq_ok] at h
  case none =>
    subst h
    exact ⟨none, rfl⟩
  case some epoch =>
    obtain ⟨t, -, rfl⟩ := h
    exact ⟨some t, rfl⟩

omit [Stdlib] in
theorem vendor_eq_ok {vendorId : Option String} (h : s.vendor vendorId = .ok w) :
    (vendorId = none ∧ w = .null) ∨ ∃ v : Vendor, vendorId = some v.vendorId ∧ w = v.dict := by
  cases vendorId <;> simp only [Store.vendor, bind_eq_ok, find_eq_ok, pure_eq_ok] at h
  case none => exact .inl ⟨rfl, h.symm⟩
  case some vendorId =>
    obtain ⟨v, hv, rfl⟩ := h
    exact .inr ⟨v, congrArg some (Table.key_of_get hv).symm, rfl⟩

-- Who owns a thread, if a member of it is attributed to a vendor.
def Store.Standing (s : Store) (ref : ThreadRef) (owner : Option Threads.ThreadVendor) : Prop :=
  match owner with
  | some owner => s.Owner ref owner.vendorId ∧ s.Attributed ref
  | none       => ¬s.Attributed ref

theorem Store.IsThread.standing (h : s.IsThread ref members)
    (ho : s.vendor ((followOwner (members.map Prod.snd)).map Prod.snd) = .ok w) :
    (followOwner (members.map Prod.snd) = none ∧ w = .null ∧ s.Standing ref none) ∨
    ∃ m, ∃ v : Vendor, followOwner (members.map Prod.snd) = some (m, v.vendorId) ∧ w = v.dict ∧
      s.Standing ref (some v.host) := by
  have hattributed := h.attributed_iff_owner
  obtain ⟨hnone, rfl⟩ | ⟨v, hsome, rfl⟩ := vendor_eq_ok ho
  · have hnone := Option.map_eq_none_iff.mp hnone
    refine .inl ⟨hnone, rfl, ?_⟩
    rw [Store.Standing, hattributed, hnone]
    nofun
  · obtain ⟨⟨m, vendorId⟩, hm, rfl⟩ := Option.map_eq_some_iff.mp hsome
    refine .inr ⟨m, v, hm, rfl, h.owner hm, ?_⟩
    rw [hattributed, hm]
    rfl

end Readers

section Contexts

variable {s : Store} {ref : ThreadRef} {w : Wire}

-- The thread of a resolution, and its owner.
def thread : Threads.ThreadResolveResult → Threads.ThreadRef × Option Threads.ThreadVendor
  | .resolved _ (.vendor _ thread)              => (thread.threadRef, some thread.ownerVendor)
  | .resolved _ (.nonVendor thread)             => (thread.threadRef, none)
  | .chooseVendor _ threadRef ownerVendor _ _   => (threadRef, some ownerVendor)

theorem matchesScope_host {origin : InboxMessageRef} (hp : ref.provider = origin.provider)
    (ha : ref.accountId = origin.accountId) (hi : ref.mailboxIdentityKey = origin.mailboxIdentityKey) :
    origin.host.matchesScope ref.host :=
  decide_eq_true ⟨congrArg Mail.Provider.name hp.symm, ha.symm, hi.symm⟩

theorem decode_chooseVendor {origin : InboxMessageRef} {owner : Vendor} {items : List Wire}
    {vendors : List Threads.ThreadVendor} {token : Option String}
    (hi : (Json.array items : Wire).items Threads.ThreadVendor.decode = some vendors) :
    Threads.ThreadResolveResult.decode (.object [("state", .string "choose_vendor"),
      ("message_ref", origin.asdict), ("thread_ref", ref.asdict), ("owner_vendor", owner.dict),
      ("items", .array items), ("next_cursor", .ofOption .string token)]) =
      some (.chooseVendor origin.host ref.host owner.host vendors token) := by
  simp [Threads.ThreadResolveResult.decode, Json.member, Json.fields, decode_inboxMessageRef, decode_threadRef,
    decode_vendor, hi]

theorem decode_resolved {origin : InboxMessageRef} {context : Wire} {c : Threads.ResolvedThreadContext}
    (hc : Threads.ResolvedThreadContext.decode context = some c) :
    Threads.ThreadResolveResult.decode (.object [("state", .string "resolved"),
      ("message_ref", origin.asdict), ("context", context)]) = some (.resolved origin.host c) := by
  simp [Threads.ThreadResolveResult.decode, Json.member, Json.fields, decode_inboxMessageRef, hc]

theorem decode_vendorContext {v : Vendor} {thread : Wire} {t : Threads.ThreadItem}
    (ht : Threads.ThreadItem.decode thread = some t) :
    Threads.ResolvedThreadContext.decode (.object [("kind", .string "vendor"), ("vendor", v.dict),
      ("thread", thread)]) = some (.vendor v.host t) := by
  simp [Threads.ResolvedThreadContext.decode, Json.member, Json.fields, decode_vendor, ht]

theorem decode_nonVendorContext {thread : Wire} {t : Threads.NonVendorThreadItem}
    (ht : Threads.NonVendorThreadItem.decode thread = some t) :
    Threads.ResolvedThreadContext.decode (.object [("kind", .string "non_vendor"), ("thread", thread)]) =
      some (.nonVendor t) := by
  simp [Threads.ResolvedThreadContext.decode, Json.member, Json.fields, ht]

-- There are candidates where a vendor is represented.
theorem candidates_eq_nil {represented : List String}
    (hv : ∀ vendorId ∈ represented, (s.vendors.get vendorId).isSome)
    (h : (represented.insertionSort (· ≤ ·)).filterMap s.vendors.get = []) : represented = [] := by
  refine List.eq_nil_iff_forall_not_mem.mpr fun vendorId hmem => ?_
  have hsome := hv vendorId hmem
  rw [List.filterMap_eq_nil_iff.mp h vendorId ((List.mem_insertionSort _).mpr hmem)] at hsome
  cases hsome

end Contexts

section Resolutions

variable [Stdlib] {s : Store} {ref : ThreadRef} {members : List (Row × Member)} {w : Wire}

omit [Stdlib] in
theorem relation_of_owner (owner selected : String) :
    ∃ relation, (if owner = selected then "owned" else "linked") = relationName relation ∧
      (relation = .owned ↔ selected = owner) ∧
      ∀ v : Threads.ThreadVendor, v.vendorId = owner → Threads.vendorRelationMatches relation selected v := by
  by_cases heq : owner = selected
  · refine ⟨.owned, by simp [heq, relationName], by simp [heq], fun v hv => ?_⟩
    simp [Threads.vendorRelationMatches, hv, heq]
  · refine ⟨.linked, by simp [heq, relationName], by simp [Ne.symm heq], fun v hv => ?_⟩
    simp [Threads.vendorRelationMatches, hv, Ne.symm heq]

theorem resolveInbox_answers {origin : InboxMessageRef} {vendorId : Option String} {limit : Nat} {value : Wire}
    (hne : vendorId ≠ some "") (h : s.resolveInbox origin vendorId limit value = .ok w) :
    ∃ r, Threads.ThreadResolveResult.decode w = some r ∧
      (∀ x, r.validFor x vendorId ↔ x = origin.host) ∧
      ∃ ref, (thread r).fst = ref.host ∧ s.Standing ref (thread r).snd := by
  simp only [Store.resolveInbox, bind_eq_ok, require_eq_ok] at h
  obtain ⟨⟨ref, members⟩, hinbox, -, hvendors, ownerVendor, howner, ⟨items, token⟩, hpage, -, hselected, h⟩ := h
  obtain ⟨hp, ha, hi, hthread⟩ := inboxThread_eq_ok hinbox
  have hscope := matchesScope_host hp ha hi
  have hrepresented := hthread.attributed_iff_represented
  have hcount := asUnsigned_number (n := members.length) (by
    have hlt := hthread.length_lt
    omega)
  obtain ⟨hnone, rfl, hstanding⟩ | ⟨m, v, hsome, rfl, hstanding⟩ := hthread.standing howner
  · -- Nobody is represented.
    have hnil : represented members = [] := by
      by_contra hr
      exact hstanding (hrepresented.mpr hr)
    have hvendor : vendorId = none := by
      cases vendorId
      case none   => rfl
      case some x => simp [hnil] at hselected
    subst hvendor
    simp only [hnil, List.insertionSort_nil, List.filterMap_nil, List.length_nil, Nat.not_lt_zero, and_false,
      if_false, Option.filter_none, Option.none_or, List.head?_nil, Option.map_none, bind_eq_ok, pure_eq_ok,
      resolvedRelation, Store.resolvedContext] at h
    obtain ⟨⟨subject, epoch⟩, -, received, hreceived, _, rfl, _, rfl, rfl⟩ := h
    obtain ⟨t, ht⟩ := receivedAt_nullable hreceived
    refine ⟨_, decode_resolved (decode_nonVendorContext (decode_nonVendorThreadItem ht hcount)), fun x => ?_,
      ref, rfl, hstanding⟩
    constructor
    · exact fun hvalid => (of_decide_eq_true hvalid).left.symm
    · rintro rfl
      exact decide_eq_true ⟨rfl, rfl, hscope⟩
  · have hnil : represented members ≠ [] := hrepresented.mp hstanding.right
    have hcandidates : ((represented members).insertionSort (· ≤ ·)).filterMap s.vendors.get ≠ [] :=
      fun h => hnil (candidates_eq_nil hvendors h)
    generalize ((represented members).insertionSort (· ≤ ·)).filterMap s.vendors.get = candidates
      at hpage hcandidates h
    split at h
    · rename_i hchoose
      obtain ⟨vendors, hitems, -⟩ := Json.items_of_forall (P := fun _ => True)
        (l := items) (f := Threads.ThreadVendor.decode) fun j hj => by
          obtain ⟨c, -, rfl⟩ := List.mem_map.mp (page_subset hpage hj)
          exact ⟨c.host, decode_vendor c, trivial⟩
      cases h
      refine ⟨_, decode_chooseVendor hitems, fun x => ?_, ref, rfl, hstanding⟩
      constructor
      · exact fun hvalid => (of_decide_eq_true hvalid).right.left.symm
      · rintro rfl
        exact decide_eq_true ⟨hchoose.left, rfl, hscope⟩
    · rename_i hsingle
      clear hsingle
      obtain ⟨c, rest, rfl⟩ := List.exists_cons_of_ne_nil hcandidates
      -- The vendor that is asked for, or the only one.
      obtain ⟨selected, hor, hasked⟩ : ∃ selected,
          (vendorId.filter (· ≠ "")).or ((c :: rest).head?.map Vendor.vendorId) = some selected ∧
          (vendorId = none ∨ vendorId = some selected) := by
        cases vendorId
        case none   => exact ⟨c.vendorId, rfl, .inl rfl⟩
        case some x =>
          have hx : x ≠ "" := fun hx => hne (congrArg some hx)
          exact ⟨x, by simp [Option.filter, hx], .inr rfl⟩
      rw [hor] at h
      simp only [bind_eq_ok, pure_eq_ok, resolvedRelation, Store.resolvedContext, find_eq_ok, hsome,
        Option.some.injEq] at h
      obtain ⟨⟨subject, epoch⟩, -, received, hreceived, _, ⟨_, rfl, rfl⟩, _, ⟨vendor, hv, rfl⟩, rfl⟩ := h
      obtain ⟨t, ht⟩ := receivedAt_nullable hreceived
      obtain ⟨hx, -⟩ | ⟨v', hv', rfl⟩ := vendor_eq_ok hv
      · cases hx
      cases hv'
      obtain ⟨relation, hrelation, -, hmatches⟩ := relation_of_owner v.vendorId v'.vendorId
      rw [hrelation]
      refine ⟨_, decode_resolved (decode_vendorContext (decode_threadItem ht hcount)), fun x => ?_,
        ref, rfl, hstanding⟩
      constructor
      · exact fun hvalid => (of_decide_eq_true hvalid).left.symm
      · rintro rfl
        exact decide_eq_true ⟨rfl, hscope, hasked, hmatches v.host rfl⟩

end Resolutions

section Pages

variable [Stdlib] {s : Store} {ref : ThreadRef} {members : List (Row × Member)} {w : Wire}

omit [Stdlib] in
theorem sources_lt {messageId : String} {unit : Mail.LogicalUnit} (h : s.mail.logicalUnit messageId = some unit) :
    unit.sources.length < 0x10000000000000000 := by
  obtain ⟨m, -, rfl⟩ := Option.map_eq_some_iff.mp h
  have hlocated : (s.mail.locatedSources m.canonical).length ≤ s.mail.locations.rows.length := by
    rw [Mail.Store.locatedSources]
    split
    · exact Nat.zero_le _
    · rw [List.length_map]
      exact List.length_filter_le _ _
  have hmembers : ((s.mail.members m.canonical).map Mail.Message.source).length ≤ s.mail.messages.rows.length := by
    rw [List.length_map, Mail.Store.members, List.length_insertionSort]
    exact List.length_filter_le _ _
  have hput := Table.length_foldl_le Table.length_put_le
    ((s.mail.members m.canonical).map Mail.Message.source) ∅
  have hignore := Table.length_foldl_le Table.length_insertOrIgnore_le (s.mail.locatedSources m.canonical)
    (((s.mail.members m.canonical).map Mail.Message.source).foldl Table.put ∅)
  have hlt := s.messages_lt
  have hlt' := s.located_lt
  change (s.mail.unitSources m.canonical).rows.length < _
  rw [Mail.Store.unitSources]
  have hempty : (∅ : Table Mail.Source).rows.length = 0 := rfl
  omega

omit [Stdlib] in
theorem decode_direction (d : Threads.ThreadDirection) : Threads.ThreadDirection.decode (.string d.name) = some d := by
  cases d <;> rfl

omit [Stdlib] in
theorem decode_message {messageId subject sender : String} {direction : Threads.ThreadDirection}
    {senderName receivedAt : Option String} {vendor received body count : Wire}
    {attributed : Option Threads.ThreadVendor} {b : Threads.ThreadBodyState} {copyCount : Nat}
    (hv : vendor.nullable Threads.ThreadVendor.decode = some attributed)
    (hr : received.nullable Json.asString = some receivedAt)
    (hb : Threads.ThreadBodyState.decode body = some b) (hc : Threads.asUnsigned count = some copyCount) :
    Threads.ThreadMessage.decode (.object [("message_id", .string messageId), ("subject", .string subject),
      ("direction", .string direction.name), ("sender", .string sender),
      ("sender_name", .ofOption .string senderName), ("attributed_vendor", vendor), ("received_at", received),
      ("body_state", body), ("copy_count", count)]) =
      some ⟨messageId, subject, direction, sender, senderName, attributed, receivedAt, b, copyCount⟩ := by
  let j : Wire := .object [("message_id", .string messageId), ("subject", .string subject),
    ("direction", .string direction.name), ("sender", .string sender),
    ("sender_name", .ofOption .string senderName), ("attributed_vendor", vendor), ("received_at", received),
    ("body_state", body), ("copy_count", count)]
  have hfields : j.fields ["message_id", "subject", "direction", "sender", "sender_name", "attributed_vendor",
      "received_at", "body_state", "copy_count"] = some j.member :=
    Json.fields_object rfl (by decide)
  have hmessageId : j.member "message_id" = some (.string messageId) := rfl
  have hsubject : j.member "subject" = some (.string subject) := rfl
  have hdirection : j.member "direction" = some (.string direction.name) := rfl
  have hsender : j.member "sender" = some (.string sender) := rfl
  have hsenderName : j.member "sender_name" = some (.ofOption .string senderName) := rfl
  have hvendor : j.member "attributed_vendor" = some vendor := rfl
  have hreceived : j.member "received_at" = some received := rfl
  have hbody : j.member "body_state" = some body := rfl
  have hcount : j.member "copy_count" = some count := rfl
  change Threads.ThreadMessage.decode j = _
  clear_value j
  rw [Threads.ThreadMessage.decode]
  refine Option.bind_eq_some_iff.mpr ⟨_, hfields, ?_⟩
  refine Option.bind_eq_some_iff.mpr ⟨_, hmessageId, Option.bind_eq_some_iff.mpr ⟨_, rfl, ?_⟩⟩
  refine Option.bind_eq_some_iff.mpr ⟨_, hsubject, Option.bind_eq_some_iff.mpr ⟨_, rfl, ?_⟩⟩
  refine Option.bind_eq_some_iff.mpr ⟨_, hdirection, Option.bind_eq_some_iff.mpr ⟨_, decode_direction _, ?_⟩⟩
  refine Option.bind_eq_some_iff.mpr ⟨_, hsender, Option.bind_eq_some_iff.mpr ⟨_, rfl, ?_⟩⟩
  refine Option.bind_eq_some_iff.mpr ⟨_, hsenderName, Option.bind_eq_some_iff.mpr ⟨_, Json.nullable_string _, ?_⟩⟩
  refine Option.bind_eq_some_iff.mpr ⟨_, hvendor, Option.bind_eq_some_iff.mpr ⟨_, hv, ?_⟩⟩
  refine Option.bind_eq_some_iff.mpr ⟨_, hreceived, Option.bind_eq_some_iff.mpr ⟨_, hr, ?_⟩⟩
  refine Option.bind_eq_some_iff.mpr ⟨_, hbody, Option.bind_eq_some_iff.mpr ⟨_, hb, ?_⟩⟩
  exact Option.bind_eq_some_iff.mpr ⟨_, hcount, Option.bind_eq_some_iff.mpr ⟨_, hc, rfl⟩⟩

theorem messageItem_answers {followed : Bool} {x : Row × Member} (h : s.messageItem ref followed x = .ok w) :
    ∃ m, Threads.ThreadMessage.decode w = some m ∧ m.bodyState.valid := by
  simp only [Store.messageItem, bind_eq_ok, find_eq_ok, pure_eq_ok] at h
  obtain ⟨unit, hunit, vendor, hvendor, received, hreceived, body, hbody, rfl⟩ := h
  obtain ⟨t, ht⟩ := receivedAt_nullable hreceived
  obtain ⟨b, hb, hvalid⟩ := (projected hbody).decode_state
  obtain ⟨attributed, hattributed⟩ : ∃ a, vendor.nullable Threads.ThreadVendor.decode = some a := by
    obtain ⟨-, rfl⟩ | ⟨v, -, rfl⟩ := vendor_eq_ok hvendor
    · exact ⟨none, rfl⟩
    · exact ⟨some v.host, congrArg (Option.map some) (decode_vendor v)⟩
  have hle : ((unit.sources.map (·.providerMessageId)).dedup).length < 0x10000000000000000 := by
    have hdedup := (List.dedup_sublist (unit.sources.map (·.providerMessageId))).length_le
    rw [List.length_map] at hdedup
    exact Nat.lt_of_le_of_lt hdedup (sources_lt hunit)
  exact ⟨_, decode_message hattributed ht hb (asUnsigned_number hle), hvalid⟩

omit [Stdlib] in
theorem decode_vendorThread {relation : Threads.ThreadRelation} {owner : Vendor} {subject : String} :
    Threads.ThreadContext.decode (.object [("thread_ref", ref.asdict), ("relation", .string (relationName relation)),
      ("owner_vendor", owner.dict), ("subject", .string subject), ("history_notice", .string historyNotice)]) =
      some (.vendor ref.host relation owner.host subject historyNotice) := by
  simp [Threads.ThreadContext.decode, Json.member, Json.fields, decode_threadRef, decode_relation, decode_vendor]

omit [Stdlib] in
theorem decode_nonVendorThread {subject : String} :
    Threads.ThreadContext.decode (.object [("thread_ref", ref.asdict), ("relation", .string "non_vendor"),
      ("owner_vendor", .null), ("subject", .string subject), ("history_notice", .string historyNotice)]) =
      some (.nonVendor ref.host subject historyNotice) := by
  rw [Threads.ThreadContext.decode, Json.fields_object]
  · refine Option.bind_eq_some_iff.mpr ⟨_, rfl, ?_⟩
    refine Option.bind_eq_some_iff.mpr ⟨_, rfl, ?_⟩
    exact Option.bind_eq_some_iff.mpr ⟨_, decode_threadRef ref, rfl⟩
  · rfl
  · decide

-- The selector of a query of the host, as the engine takes it.
def Selector.Takes : Selector → Threads.ThreadSelector → Prop
  | .vendor vendorId, .vendor vendorId' _ _ => vendorId = vendorId'
  | .inbox _,         .inbox _ _            => True
  | _,                _                     => False

def owner : Threads.ThreadContext → Option Threads.ThreadVendor
  | .vendor _ _ ownerVendor _ _ => some ownerVendor
  | .nonVendor _ _ _            => none

omit [Stdlib] in
theorem decode_messagePage {thread : Wire} {items : List Wire} {context : Threads.ThreadContext}
    {messages : List Threads.ThreadMessage} {token : Option String}
    (ht : Threads.ThreadContext.decode thread = some context)
    (hi : (Json.array items : Wire).items Threads.ThreadMessage.decode = some messages) :
    Threads.ThreadMessagePage.decode (.object [("thread", thread), ("items", .array items),
      ("next_cursor", .ofOption .string token)]) = some ⟨context, messages, token⟩ := by
  simp [Threads.ThreadMessagePage.decode, Json.member, Json.fields, ht, hi]

theorem listMessages_answers {selector : Selector} {requested : ThreadRef} {inboxMessage : Option InboxMessageRef}
    {limit : Nat} {value : Wire} (h : s.listMessages selector requested inboxMessage limit value = .ok w) :
    ∃ p, Threads.ThreadMessagePage.decode w = some p ∧ (∀ q, selector.Takes q → p.thread.validFor q) ∧
      (∀ m ∈ p.items, m.bodyState.valid) ∧
      ∃ ref, p.thread.threadRef = ref.host ∧ s.Standing ref (owner p.thread) := by
  simp only [Store.listMessages, bind_eq_ok, pure_eq_ok] at h
  obtain ⟨⟨ref, members⟩, hselected, ownerVendor, howner, ⟨subject, epoch⟩, -, projected, hprojected,
    ⟨items, token⟩, hpage, rfl⟩ := h
  obtain ⟨hthread, hselector⟩ := selectedThread_eq_ok hselected
  have hrepresented := hthread.attributed_iff_represented
  obtain ⟨messages, hitems, hvalid⟩ := Json.items_of_forall
    (P := fun m : Threads.ThreadMessage => m.bodyState.valid) (l := items) (f := Threads.ThreadMessage.decode)
    fun j hj => by
      obtain ⟨x, hx, rfl⟩ := List.mem_map.mp (page_subset hpage hj)
      exact messageItem_answers ((mapM_pairs hprojected).right x ((List.mem_insertionSort _).mp hx))
  obtain ⟨hnone, rfl, hstanding⟩ | ⟨m, v, hsome, rfl, hstanding⟩ := hthread.standing howner
  · have hrelation : listedRelation (followOwner (members.map Prod.snd)) selector = "non_vendor" := by
      rw [hnone]
      rfl
    refine ⟨⟨.nonVendor ref.host subject historyNotice, messages, token⟩, ?_, fun q hq => ?_, hvalid,
      ref, rfl, hstanding⟩
    · rw [hrelation]
      exact decode_messagePage decode_nonVendorThread hitems
    · cases selector
      case vendor vendorId  =>
        refine absurd (hrepresented.mpr fun hnil => ?_) hstanding
        rw [hnil] at hselector
        exact absurd hselector List.not_mem_nil
      case inbox messageRef =>
        cases q
        case vendor => exact hq.elim
        case inbox  => rfl
  · cases selector
    case inbox messageRef =>
      exact absurd hselector (hrepresented.mp hstanding.right)
    case vendor vendorId  =>
      obtain ⟨relation, hrelation, -, hmatches⟩ := relation_of_owner v.vendorId vendorId
      refine ⟨⟨.vendor ref.host relation v.host subject historyNotice, messages, token⟩, ?_, fun q hq => ?_, hvalid,
        ref, rfl, hstanding⟩
      · have hlisted : listedRelation (followOwner (members.map Prod.snd)) (.vendor vendorId) =
            relationName relation := by
          rw [hsome, ← hrelation]
          simp only [listedRelation, Selector.vendor.injEq, eq_comm]
        rw [hlisted]
        exact decode_messagePage decode_vendorThread hitems
      · cases q
        case vendor =>
          cases hq
          exact hmatches v.host rfl
        case inbox  => exact hq.elim

theorem readBody_answers {selector : Selector} {requested : ThreadRef} {messageId : String}
    {inboxMessage : Option InboxMessageRef} (h : s.readBody selector requested messageId inboxMessage = .ok w) :
    ∃ r, Threads.ThreadBodyResponse.decode w = some r ∧ r.body.valid := by
  simp only [Store.readBody, bind_eq_ok, require_eq_ok, pure_eq_ok] at h
  obtain ⟨⟨ref, members⟩, -, -, -, body, hbody, rfl⟩ := h
  obtain ⟨b, hb, hvalid⟩ := (projected hbody).decode_body
  refine ⟨⟨ref.host, messageId, b⟩, ?_, hvalid⟩
  simp [Threads.ThreadBodyResponse.decode, Json.member, Json.fields, decode_threadRef, hb]

end Pages

end ThreadReads
