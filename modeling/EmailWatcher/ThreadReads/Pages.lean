import EmailWatcher.Library.Paging
import EmailWatcher.Library.Ranking
import EmailWatcher.ThreadReads.Queries
import EmailWatcher.ThreadReads.Tokens

-- The messages of a thread are read page by page, each page from the store as it is by then.
namespace ThreadReads

open Threads (Wire)
open Transaction

-- The tokens are the ones that are modelled, and a digest is one.
class LawfulStdlib [Stdlib] : Prop where
  digest : ∀ v, IsDigest (Stdlib.digest v)
  encode : ∀ v, Stdlib.encodeToken v = encodeToken v
  decode : ∀ token, Stdlib.decodeToken token = decodeToken token

-- No two of the values share a digest.
def CollisionFree [Stdlib] (values : List Wire) : Prop :=
  ∀ x ∈ values, ∀ y ∈ values, Stdlib.digest x = Stdlib.digest y → x = y

section Tokens

variable [Stdlib]

-- What a cursor is bound to.
def binding (selector : List (String × Wire)) (limit : Nat) : Wire :=
  .object (selector ++ [("limit", .number limit), ("ordering", .number 1)])

-- The cursor that names the last of the first `n` keys.
def mark (selector : List (String × Wire)) (limit : Nat) (revision : Wire) (keys : List Wire) (n : Nat) : String :=
  Stdlib.encodeToken <| Cursor.dict ⟨Stdlib.digest (binding selector limit), Stdlib.digest revision,
    Stdlib.digest (keys[n - 1]?.getD .null)⟩

theorem asDigest_digest [LawfulStdlib] (v : Wire) :
    asDigest (.string (Stdlib.digest v)) = some (Stdlib.digest v) := by
  have h : (Stdlib.digest v).length = 64 ∧ (Stdlib.digest v).toList.all isLowerHex := LawfulStdlib.digest v
  simp [asDigest, Option.filter, h]

theorem cursor_mark [LawfulStdlib] (selector : List (String × Wire)) (limit : Nat) (revision : Wire)
    (keys : List Wire) (n : Nat) :
    cursor (.string (mark selector limit revision keys n)) = .ok (some ⟨Stdlib.digest (binding selector limit),
      Stdlib.digest revision, Stdlib.digest (keys[n - 1]?.getD .null)⟩) := by
  let c : Cursor := ⟨Stdlib.digest (binding selector limit), Stdlib.digest revision,
    Stdlib.digest (keys[n - 1]?.getD .null)⟩
  have hc : c.Digests := ⟨LawfulStdlib.digest _, LawfulStdlib.digest _, LawfulStdlib.digest _⟩
  have htoken : mark selector limit revision keys n = encodeToken c.dict := LawfulStdlib.encode _
  have hlen := length_encodeToken hc
  simp only [cursor, htoken, Json.asString_string, Option.bind_eq_bind, Option.bind_some, LawfulStdlib.decode]
  rw [if_pos (by rw [hlen]; decide), decodeToken_encodeToken hc]
  simp [Cursor.ofDict, Json.fields, Json.member, asDigest_digest, c, find, pure, Except.pure, bind, Except.bind]

end Tokens

section Pages

variable [Stdlib] {rows keys : List Wire} {selector : List (String × Wire)} {revision : Wire} {limit n : Nat}

variable (selector revision) in
-- The token of a page that ends before the rows do.
theorem page_token (after : Nat) (hlen : keys.length = rows.length) (hl : 0 < limit) :
    (if min (after + limit) rows.length < rows.length then
      (keys[min (after + limit) rows.length - 1]?).map fun key => Stdlib.encodeToken (Cursor.dict
        ⟨Stdlib.digest (binding selector limit), Stdlib.digest revision, Stdlib.digest key⟩)
    else none) =
      if after + limit < rows.length then some (mark selector limit revision keys (after + limit)) else none := by
  by_cases h : after + limit < rows.length
  case neg =>
    rw [if_neg (by omega), if_neg h]
  case pos =>
    have hk : after + limit - 1 < keys.length := by omega
    rw [if_pos (by omega), if_pos h, Nat.min_eq_left h.le, mark, List.getElem?_eq_getElem hk, Option.map_some,
      Option.getD_some]

omit [Stdlib] in
variable (rows limit) in
theorem drop_take_min (after : Nat) :
    (rows.take (min (after + limit) rows.length)).drop after = (rows.drop after).take limit := by
  rw [List.drop_take]
  by_cases h : after + limit ≤ rows.length
  case pos => rw [Nat.min_eq_left h, Nat.add_sub_cancel_left]
  case neg =>
    rw [Nat.min_eq_right (by omega), List.take_of_length_le (by simp), List.take_of_length_le (by simp; omega)]

theorem page_first (hlen : keys.length = rows.length) (hl : 1 ≤ limit ∧ limit ≤ 100) :
    page rows keys selector revision limit .null = .ok ((rows.drop 0).take limit,
      if 0 + limit < rows.length then some (mark selector limit revision keys (0 + limit)) else none) := by
  have htoken := page_token selector revision 0 hlen hl.left
  have hitems := drop_take_min rows limit 0
  simp only [page, require, if_pos hl, cursor, start, bind, Except.bind, pure, Except.pure]
  rw [← htoken, hitems, binding]

-- Where the digest of a key is found among the keys.
theorem findIdx?_digest (hk : (keys.map Stdlib.digest).Nodup) (hn : 0 < n) (hlt : n ≤ keys.length) :
    (keys.map Stdlib.digest).findIdx? (· = Stdlib.digest (keys[n - 1]?.getD .null)) = some (n - 1) := by
  have hlt : n - 1 < keys.length := by omega
  rw [List.getElem?_eq_getElem hlt, Option.getD_some, List.findIdx?_eq_some_iff_getElem]
  refine ⟨by simpa using hlt, by simp, fun j hj => ?_⟩
  simp only [List.getElem_map, decide_eq_true_eq]
  intro he
  have hlast : n - 1 < (keys.map Stdlib.digest).length := by simpa using hlt
  have hearly : j < (keys.map Stdlib.digest).length := hj.trans hlast
  have hinj : (keys.map Stdlib.digest)[j] = (keys.map Stdlib.digest)[n - 1] ↔ j = n - 1 := hk.getElem_inj_iff
  rw [List.getElem_map, List.getElem_map] at hinj
  exact absurd (hinj.mp he) (Nat.ne_of_lt hj)

theorem page_again [LawfulStdlib] (hlen : keys.length = rows.length) (hl : 1 ≤ limit ∧ limit ≤ 100)
    (hk : (keys.map Stdlib.digest).Nodup) (hn : 0 < n) (hlt : n < rows.length) :
    page rows keys selector revision limit (.string (mark selector limit revision keys n)) =
      .ok ((rows.drop n).take limit,
        if n + limit < rows.length then some (mark selector limit revision keys (n + limit)) else none) := by
  have hfind := findIdx?_digest hk hn (hlen ▸ hlt.le)
  have htoken := page_token selector revision n hlen hl.left
  have hitems := drop_take_min rows limit n
  simp only [page, require, if_pos hl, cursor_mark, start, bind, Except.bind, pure, Except.pure, binding,
    ↓reduceIte, hfind, find, Nat.sub_add_cancel hn]
  rw [← htoken, hitems, binding]

theorem page_stale [LawfulStdlib] (hl : 1 ≤ limit ∧ limit ≤ 100) {revision₀ : Wire} {keys₀ : List Wire}
    (h : Stdlib.digest revision₀ ≠ Stdlib.digest revision) :
    page rows keys selector revision limit (.string (mark selector limit revision₀ keys₀ n)) =
      .error (.api "stale_cursor" "Local history changed; restart this list") := by
  simp only [page, require, if_pos hl, cursor_mark, start, bind, Except.bind, binding, ↓reduceIte, if_neg h]

theorem page_mismatch [LawfulStdlib] (hl : 1 ≤ limit ∧ limit ≤ 100) {revision₀ : Wire} {keys₀ : List Wire}
    {selector₀ : List (String × Wire)} {limit₀ : Nat}
    (h : Stdlib.digest (binding selector₀ limit₀) ≠ Stdlib.digest (binding selector limit)) :
    page rows keys selector revision limit (.string (mark selector₀ limit₀ revision₀ keys₀ n)) =
      .error (.api "invalid_request" "Thread cursor does not match this selection") := by
  have h' : ¬Stdlib.digest (binding selector₀ limit₀) = Stdlib.digest
    (.object (selector ++ [("limit", .number limit), ("ordering", .number 1)])) := h
  simp only [page, require, if_pos hl, cursor_mark, start, bind, Except.bind, if_neg h']

-- A reader that hands what it sees to `_page` is fenced, where the digests tell apart what it sees.
theorem page_fenced [LawfulStdlib] {ν : Type} {see : Store → Except ReadError ν} {rows keys : ν → List Wire}
    {revision : ν → Wire} {call : Store → Option String → Except ReadError (List Wire × Option String)}
    {stores : List Store} (hl : 1 ≤ limit ∧ limit ≤ 100) (hlen : ∀ view, (keys view).length = (rows view).length)
    (hcall : ∀ s token, call s token = see s >>= fun view =>
      page (rows view) (keys view) selector (revision view) limit (.ofOption .string token))
    (hr : ∀ s₀ ∈ stores, ∀ view₀, see s₀ = .ok view₀ → ∀ s ∈ stores, ∀ view, see s = .ok view →
      Stdlib.digest (revision view₀) = Stdlib.digest (revision view) → view = view₀)
    (hk : ∀ s ∈ stores, ∀ view, see s = .ok view → ((keys view).map Stdlib.digest).Nodup) :
    Paging.Fenced call see rows (fun view n => mark selector limit (revision view) (keys view) n) limit
      (.api "stale_cursor" "Local history changed; restart this list") stores := by
  constructor
  case first =>
    intro s _ view hv
    rw [hcall, hv]
    exact page_first (hlen view) hl
  case again =>
    intro s₀ hs₀ view hv₀ s _ hv n hn hlt
    rw [hcall, hv]
    exact page_again (hlen view) hl (hk s₀ hs₀ view hv₀) hn hlt
  case stale =>
    intro s₀ hs₀ view₀ hv₀ s hs view hv hne n _ _
    rw [hcall, hv]
    exact page_stale hl fun he => hne (hr s₀ hs₀ view₀ hv₀ s hs view hv he)
  case raises =>
    intro s _ e he token
    rw [hcall, he]
    rfl

end Pages

section Messages

variable [Stdlib] (s : Store) (selector : Selector) (requested : ThreadRef) (inboxMessage : Option InboxMessageRef)

-- What `list_messages` sees of a thread: its context, and each message behind its key.
structure Listing where
  thread   : Wire
  messages : List (Wire × Wire)

def Listing.revision (l : Listing) : Wire :=
  .object [("thread", l.thread), ("messages", .array (l.messages.map fun x => .array [x.fst, x.snd]))]

def Store.seeMessages : Except ReadError Listing := do
  let (ref, members) ← s.selectedThread selector requested inboxMessage
  let owner := followOwner (members.map Prod.snd)
  let ownerVendor ← s.vendor (owner.map Prod.snd)
  let (subject, _) ← s.threadTitle members
  let projected ← members.mapM fun x => do return (x, ← s.messageItem ref owner.isSome x)
  return {
    thread   := .object [("thread_ref", ref.asdict), ("relation", .string (listedRelation owner selector)),
      ("owner_vendor", ownerVendor), ("subject", .string subject), ("history_notice", .string historyNotice)]
    messages := (projected.insertionSort fun x y => messageKey x.fst ≤ messageKey y.fst).map fun x =>
      (messageKeyDict x.fst, x.snd)
  }

-- The operation and the selection that a cursor is bound to.
def messagesSelector : List (String × Wire) :=
  ("operation", .string "threads.messages") :: readSelector selector requested inboxMessage

-- The items and the next cursor of an answer.
def pageOf (w : Wire) : Option (List Wire × Option String) := do
  return (← (← w.member "items").asArray, ← (← w.member "next_cursor").nullable Json.asString)

-- A page of `list_messages`.
def Store.messagesPage (limit : Nat) (token : Option String) : Except ReadError (List Wire × Option String) := do
  find (pageOf (← s.listMessages selector requested inboxMessage limit (.ofOption .string token))) .type

variable {s selector requested inboxMessage} {limit : Nat}

omit [Stdlib] in
-- A page can be read off the answer that it is put into.
theorem find_pageOf {name : String} (context : Wire) (h : name ≠ "items" ∧ name ≠ "next_cursor")
    (page : Except ReadError (List Wire × Option String)) :
    (page >>= fun x => find (pageOf (.object [(name, context), ("items", .array x.fst),
      ("next_cursor", .ofOption .string x.snd)])) .type) = page := by
  cases page
  case error e => rfl
  case ok x    => simp [pageOf, Json.member, h, Json.asArray, find, bind, Except.bind]

theorem messagesPage_eq (token : Option String) :
    s.messagesPage selector requested inboxMessage limit token =
      s.seeMessages selector requested inboxMessage >>= fun l =>
        page (l.messages.map Prod.snd) (l.messages.map Prod.fst)
          (messagesSelector selector requested inboxMessage) l.revision limit (.ofOption .string token) := by
  simp only [Store.messagesPage, Store.listMessages, Store.seeMessages, bind_assoc, pure_bind, Listing.revision,
    List.map_map, messagesSelector, Function.comp_def]
  refine bind_congr fun x => bind_congr fun y => bind_congr fun z => bind_congr fun w => ?_
  exact find_pageOf _ (by decide) _

omit [Stdlib] in
theorem threadRows_nodup (s : Store) (ref : ThreadRef) :
    ((s.threadRows ref).map fun r => r.message.messageId).Nodup := by
  have hids : ((s.threadRows ref).map fun r => r.message.messageId).Sublist
      (s.mail.logicalMessages.map (·.messageId)) := by
    refine (List.filter_sublist.map _).trans ?_
    rw [Store.rows, List.map_filterMap]
    generalize s.mail.logicalMessages = messages
    induction messages
    case nil          => exact List.Sublist.refl _
    case cons m ms ih =>
      by_cases hm : m.provider = ref.provider ∧ m.accountId = ref.accountId
      case neg =>
        rw [List.filter_cons_of_neg (by simpa using hm)]
        exact ih.cons _
      case pos =>
        rw [List.filter_cons_of_pos (by simpa using hm), List.filterMap_cons]
        cases s.derived.get m.messageId
        case none   => exact ih.cons _
        case some d => exact ih.cons_cons _
  exact List.Nodup.sublist hids (Table.nodup_filter _ _)

theorem Store.IsThread.ids_nodup {ref : ThreadRef} {members : List (Row × Member)} (h : s.IsThread ref members) :
    (members.map fun x => x.fst.message.messageId).Nodup := by
  have h' := threadRows_nodup s ref
  rwa [← h.rows, List.map_map] at h'

omit [Stdlib] in
theorem messageKeyDict_inj {x y : Row × Member} (h : Store.messageKeyDict x = Store.messageKeyDict y) :
    x.fst.message.messageId = y.fst.message.messageId := by
  simp only [Store.messageKeyDict, Json.array.injEq, List.cons.injEq, Json.string.injEq] at h
  exact h.right.right.right.left

-- The items show the messages of the thread, in the order of their keys.
def Store.Shows (s : Store) (selector : Selector) (requested : ThreadRef) (inboxMessage : Option InboxMessageRef)
    (items : List Wire) : Prop :=
  ∃ ref members ordered, s.selectedThread selector requested inboxMessage = .ok (ref, members) ∧
    ordered.Perm members ∧ (ordered.Pairwise fun x y => Store.messageKey x < Store.messageKey y) ∧
    List.Forall₂ (fun x w => s.messageItem ref (Store.followOwner (members.map Prod.snd)).isSome x = .ok w)
      ordered items

theorem seeMessages_eq_ok {l : Listing} (h : s.seeMessages selector requested inboxMessage = .ok l) :
    s.Shows selector requested inboxMessage (l.messages.map Prod.snd) ∧ (l.messages.map Prod.fst).Nodup := by
  simp only [Store.seeMessages, bind_eq_ok, pure_eq_ok] at h
  obtain ⟨⟨ref, members⟩, hselected, ownerVendor, -, ⟨subject, epoch⟩, -, projected, hprojected, rfl⟩ := h
  obtain ⟨hfst, hsnd⟩ := mapM_pairs hprojected
  have hids := (selectedThread_eq_ok hselected).left.ids_nodup
  let sorted := Ranking.ordered (fun x => Store.messageKey x.fst) projected
  have hperm : (sorted.map Prod.fst).Perm members := by
    have hperm : (Ranking.ordered (fun x => Store.messageKey x.fst) projected).Perm projected := Ranking.ordered_perm
    have hmembers := hperm.map Prod.fst
    rwa [hfst] at hmembers
  have hnodup : ((sorted.map Prod.fst).map fun x => x.fst.message.messageId).Nodup :=
    (hperm.map _).nodup_iff.mpr hids
  constructor
  case left =>
    refine ⟨ref, members, sorted.map Prod.fst, hselected, hperm, ?_, ?_⟩
    · have hle : sorted.Pairwise fun x y => Store.messageKey x.fst ≤ Store.messageKey y.fst :=
        Ranking.ordered_pairwise (α := (Row × Member) × Wire)
      have hne := List.pairwise_map.mp (List.pairwise_map.mp hnodup)
      refine List.pairwise_map.mpr (hle.imp₂ ?_ hne)
      intro x y hxy hn
      refine lt_of_le_of_ne hxy fun he => hn ?_
      have he := congrArg (fun k => (ofLex (ofLex (ofLex k).snd).snd).snd) he
      exact he
    · rw [List.map_map]
      refine List.forall₂_map_left_iff.mpr (List.forall₂_map_right_iff.mpr ?_)
      refine List.forall₂_same.mpr fun x hx => ?_
      exact hsnd x ((List.mem_insertionSort _).mp hx)
  case right =>
    have hne := List.pairwise_map.mp (List.pairwise_map.mp hnodup)
    rw [List.map_map]
    exact List.pairwise_map.mpr (hne.imp fun hn he => hn (messageKeyDict_inj he))

-- What a reader digests of what it sees.
def Listing.digested (l : Listing) : List Wire :=
  l.revision :: l.messages.map Prod.fst

def Store.digested (s : Store) (selector : Selector) (requested : ThreadRef)
    (inboxMessage : Option InboxMessageRef) : List Wire :=
  match s.seeMessages selector requested inboxMessage with
  | .ok l    => l.digested
  | .error _ => []

omit [Stdlib] in
theorem Listing.revision_inj {l l' : Listing} (h : l.revision = l'.revision) : l = l' := by
  obtain ⟨thread, messages⟩ := l
  obtain ⟨thread', messages'⟩ := l'
  simp only [Listing.revision, Json.object.injEq, List.cons.injEq, Prod.mk.injEq, true_and, and_true,
    Json.array.injEq] at h
  obtain ⟨rfl, h⟩ := h
  have hinj : Function.Injective fun x : Wire × Wire => (Json.array [x.fst, x.snd] : Wire) := by
    intro x y he
    simp only [Json.array.injEq, List.cons.injEq, and_true] at he
    exact Prod.ext he.left he.right
  rw [List.map_injective_iff.mpr hinj h]

theorem CollisionFree.nodup {values keys : List Wire} (h : CollisionFree values) (hs : keys ⊆ values)
    (hn : keys.Nodup) : (keys.map Stdlib.digest).Nodup :=
  hn.map_on fun x hx y hy he => h x (hs hx) y (hs hy) he

variable [LawfulStdlib] {stores : List Store}

theorem messagesPage_fenced (hl : 1 ≤ limit ∧ limit ≤ 100)
    (hd : CollisionFree (stores.flatMap fun s => s.digested selector requested inboxMessage)) :
    Paging.Fenced (fun s token => s.messagesPage selector requested inboxMessage limit token)
      (fun s => s.seeMessages selector requested inboxMessage) (fun l => l.messages.map Prod.snd)
      (fun l n => mark (messagesSelector selector requested inboxMessage) limit l.revision
        (l.messages.map Prod.fst) n) limit
      (.api "stale_cursor" "Local history changed; restart this list") stores := by
  have hmem : ∀ s ∈ stores, ∀ l, s.seeMessages selector requested inboxMessage = .ok l →
      l.digested ⊆ stores.flatMap fun s => s.digested selector requested inboxMessage := by
    intro s hs l hl x hx
    refine List.mem_flatMap.mpr ⟨s, hs, ?_⟩
    rwa [Store.digested, hl]
  refine page_fenced hl (by simp) (fun s token => messagesPage_eq token) ?_ ?_
  · intro s₀ hs₀ l₀ hl₀ s hs l hl he
    have h₀ := hmem s₀ hs₀ l₀ hl₀ List.mem_cons_self
    have h := hmem s hs l hl List.mem_cons_self
    exact (Listing.revision_inj (hd _ h₀ _ h he)).symm
  · intro s hs l hl
    refine hd.nodup ?_ (seeMessages_eq_ok hl).right
    exact fun x hx => hmem s hs l hl (List.mem_cons_of_mem _ hx)

end Messages

section Bindings

theorem provider_name_inj {p p' : Mail.Provider} (h : p.name = p'.name) : p = p' := by
  cases p <;> cases p' <;> first | rfl | exact absurd h (by decide)

theorem ofOption_string_inj {o o' : Option String}
    (h : (Json.ofOption Json.string o : Wire) = Json.ofOption Json.string o') : o = o' := by
  have := congrArg (Json.nullable Json.asString) h
  rwa [Json.nullable_string, Json.nullable_string, Option.some.injEq] at this

theorem ThreadRef.asdict_inj {r r' : ThreadRef} (h : r.asdict = r'.asdict) : r = r' := by
  simp only [ThreadRef.asdict, Json.object.injEq, List.cons.injEq, Prod.mk.injEq, true_and, and_true,
    Json.string.injEq] at h
  obtain ⟨hp, ha, hm, hk⟩ := h
  cases r
  cases r'
  simp only [ThreadRef.mk.injEq]
  exact ⟨provider_name_inj hp, ha, ofOption_string_inj hm, hk⟩

theorem InboxMessageRef.asdict_inj {r r' : InboxMessageRef} (h : r.asdict = r'.asdict) : r = r' := by
  simp only [InboxMessageRef.asdict, Json.object.injEq, List.cons.injEq, Prod.mk.injEq, true_and, and_true,
    Json.string.injEq] at h
  obtain ⟨hp, ha, hm, hk⟩ := h
  cases r
  cases r'
  simp only [InboxMessageRef.mk.injEq]
  exact ⟨provider_name_inj hp, ha, ofOption_string_inj hm, hk⟩

-- Which selection a cursor is bound to. An `InboxThreadSelector` is not mixed with another origin.
theorem readSelector_inj {selector selector' : Selector} {requested requested' : ThreadRef}
    {inboxMessage inboxMessage' : Option InboxMessageRef} {rest rest' : List (String × Wire)}
    (hm : ∀ r, selector = .inbox r → inboxMessage = none) (hm' : ∀ r, selector' = .inbox r → inboxMessage' = none)
    (hr : rest.head?.map Prod.fst = some "limit") (hr' : rest'.head?.map Prod.fst = some "limit")
    (h : readSelector selector requested inboxMessage ++ rest =
      readSelector selector' requested' inboxMessage' ++ rest') :
    selector = selector' ∧ requested = requested' ∧ inboxMessage = inboxMessage' ∧ rest = rest' := by
  cases selector <;> cases selector'
  case inbox.inbox r r'   =>
    simp only [readSelector, List.cons_append, List.nil_append, List.cons.injEq, Prod.mk.injEq, true_and,
      Json.object.injEq, and_true] at h
    obtain ⟨⟨h₁, h₂⟩, h₃⟩ := h
    rw [hm r rfl, hm' r' rfl, InboxMessageRef.asdict_inj h₂]
    exact ⟨rfl, ThreadRef.asdict_inj h₁, rfl, h₃⟩
  case inbox.vendor       => simp [readSelector] at h
  case vendor.inbox       => simp [readSelector] at h
  case vendor.vendor v v' =>
    simp only [readSelector, List.cons_append, List.nil_append, List.cons.injEq, Prod.mk.injEq, true_and,
      Json.string.injEq] at h
    obtain ⟨rfl, h₁, h₂⟩ := h
    rw [ThreadRef.asdict_inj h₁]
    cases inboxMessage <;> cases inboxMessage'
    case none.none      => exact ⟨rfl, rfl, rfl, by simpa using h₂⟩
    case none.some      =>
      simp only [Option.map_none, Option.toList_none, List.nil_append, Option.map_some, Option.toList_some,
        List.cons_append] at h₂
      simp [h₂] at hr
    case some.none      =>
      simp only [Option.map_none, Option.toList_none, List.nil_append, Option.map_some, Option.toList_some,
        List.cons_append] at h₂
      simp [← h₂] at hr'
    case some.some m m' =>
      simp only [Option.map_some, Option.toList_some, List.cons_append, List.nil_append, List.cons.injEq,
        Prod.mk.injEq, true_and] at h₂
      rw [InboxMessageRef.asdict_inj h₂.left]
      exact ⟨rfl, rfl, rfl, h₂.right⟩

end Bindings

section Theorem

variable [Stdlib] {s : Store} {selector selector' : Selector} {requested requested' : ThreadRef}
  {inboxMessage inboxMessage' : Option InboxMessageRef} {limit limit' : Nat}

omit [Stdlib] in
theorem binding_inj (hm : ∀ r, selector = .inbox r → inboxMessage = none)
    (hm' : ∀ r, selector' = .inbox r → inboxMessage' = none)
    (h : binding (messagesSelector selector requested inboxMessage) limit =
      binding (messagesSelector selector' requested' inboxMessage') limit') :
    selector = selector' ∧ requested = requested' ∧ inboxMessage = inboxMessage' ∧ limit = limit' := by
  simp only [binding, messagesSelector, Json.object.injEq, List.cons_append, List.cons.injEq, true_and] at h
  obtain ⟨hs, hr, hi, hl⟩ := readSelector_inj hm hm' rfl rfl h
  simp only [List.cons.injEq, Prod.mk.injEq, Json.number.injEq, true_and, and_true] at hl
  exact ⟨hs, hr, hi, Int.ofNat_inj.mp hl⟩

theorem seeMessages_unmixed {l : Listing} (h : s.seeMessages selector requested inboxMessage = .ok l) :
    ∀ r, selector = .inbox r → inboxMessage = none := by
  rintro r rfl
  simp only [Store.seeMessages, Store.selectedThread, Store.selectedOrigin, bind_eq_ok, require_eq_ok] at h
  obtain ⟨_, ⟨_, ⟨_, hnone, -⟩, -⟩, -⟩ := h
  exact hnone

-- Pages that are read from one store after another show the thread of one moment, whatever happens to the store in
-- between: each message once, in the order of its time, until none is left. Where the thread has changed, or the
-- selection is another, the next page is refused.
theorem messages_paged [LawfulStdlib] (hl : 1 ≤ limit ∧ limit ≤ 100) {stores : List Store}
    (hd : CollisionFree (stores.flatMap fun s => s.digested selector requested inboxMessage)) :
    (∀ served items next,
      Paging.Read (fun s token => Store.messagesPage s selector requested inboxMessage limit token) served items next →
      served ⊆ stores → ∃ listed,
        (∀ s ∈ served, s.Shows selector requested inboxMessage listed) ∧
        items = listed.take (limit * served.length) ∧ (next = none ↔ listed.length ≤ limit * served.length) ∧
        ∀ token, next = some token → ∀ s ∈ stores,
          ((∀ x ∈ served, x.seeMessages selector requested inboxMessage =
              s.seeMessages selector requested inboxMessage) →
            ∃ more next', s.messagesPage selector requested inboxMessage limit token = .ok (more, next')) ∧
          (∀ l, s.seeMessages selector requested inboxMessage = .ok l →
            (∃ x ∈ served, x.seeMessages selector requested inboxMessage ≠ .ok l) →
            s.messagesPage selector requested inboxMessage limit token =
              .error (.api "stale_cursor" "Local history changed; restart this list")) ∧
          ∀ selector' requested' inboxMessage' limit', 1 ≤ limit' ∧ limit' ≤ 100 →
            (selector', requested', inboxMessage', limit') ≠ (selector, requested, inboxMessage, limit) →
            CollisionFree [binding (messagesSelector selector requested inboxMessage) limit,
              binding (messagesSelector selector' requested' inboxMessage') limit'] →
            ∀ l, s.seeMessages selector' requested' inboxMessage' = .ok l →
            s.messagesPage selector' requested' inboxMessage' limit' token =
              .error (.api "invalid_request" "Thread cursor does not match this selection")) ∧
    ∀ s ∈ stores, ∀ l, s.seeMessages selector requested inboxMessage = .ok l → ∃ listed,
      s.Shows selector requested inboxMessage listed ∧
      Paging.Read (fun s token => Store.messagesPage s selector requested inboxMessage limit token)
        (List.replicate ((listed.length - 1) / limit + 1) s) listed none := by
  have hf := messagesPage_fenced hl hd
  constructor
  case left =>
    intro served items next hr hs
    obtain ⟨l, hall, hitems, hnext⟩ := hf.read hl.left hr hs
    refine ⟨l.messages.map Prod.snd, fun s hm => (seeMessages_eq_ok (hall s hm)).left, hitems, ?_, ?_⟩
    · rw [hnext, Paging.rest]
      split
      case isTrue h  => exact iff_of_false (Option.some_ne_none _) (Nat.not_le.mpr h)
      case isFalse h => exact iff_of_true rfl (Nat.le_of_not_lt h)
    · rintro token rfl s hm
      obtain ⟨x, hx⟩ := List.exists_mem_of_ne_nil _ hr.ne_nil
      refine ⟨fun hv => hf.progress hl.left hr hs hm hv, ?_, ?_⟩
      · rintro l' hl' ⟨y, hy, hne⟩
        exact hf.refusal hl.left hr hs hm hy hl' fun he => hne (he.trans hl')
      · intro selector' requested' inboxMessage' limit' hl' hne hb l' hv
        obtain ⟨-, rfl⟩ := Paging.rest_eq_some hnext.symm
        rw [messagesPage_eq, hv]
        refine page_mismatch hl' fun he => hne ?_
        have he := hb _ (by simp) _ (by simp) he
        obtain ⟨rfl, rfl, rfl, rfl⟩ := binding_inj (seeMessages_unmixed (hall x hx)) (seeMessages_unmixed hv) he
        rfl
  case right =>
    intro s hs l hv
    refine ⟨l.messages.map Prod.snd, (seeMessages_eq_ok hv).left, ?_⟩
    have hc := hf.complete hl.left hs hv (((l.messages.map Prod.snd).length - 1) / limit) ?_
    · have hle : (l.messages.map Prod.snd).length ≤ limit * (((l.messages.map Prod.snd).length - 1) / limit + 1) := by
        have := Nat.lt_mul_div_succ ((l.messages.map Prod.snd).length - 1) hl.left
        omega
      rwa [List.take_of_length_le hle, Paging.rest, if_neg (by omega)] at hc
    · have := Nat.mul_div_le ((l.messages.map Prod.snd).length - 1) limit
      by_cases hzero : (l.messages.map Prod.snd).length = 0
      case pos => exact .inr (by rw [hzero]; simp)
      case neg => exact .inl (by omega)

end Theorem

section Sample

namespace Sample

def later : String :=
  "2024-01-01T01:00:00+00:00"

def letterKey : String :=
  "dea31996de9fc277cb297fd60b9ab8609fce94a3b472b5b4b8c317d7cb774e21"

def replyKey : String :=
  "28587fefdeb7ea5db4161249b543fa0b0a7efda233f1105fed84a03352b4f97d"

def lettersRevision : String :=
  "97df7b023f25b9cf5c997bd63ed55da0e7829ff3b7fedbe2550b08f364fa05ca"

def lettersBinding : String :=
  "22c240bf282878375599263ef8e1a79a288a4e923a826ad3f61ece109977cf62"

-- The digests of what is read below.
def lettersDigest : Wire → String
  | .array [_, _, _, .string "letter"] => letterKey
  | .array [_, _, _, .string "reply"]  => replyKey
  | .object (("thread", _) :: _)       => lettersRevision
  | _                                  => lettersBinding

@[reducible]
def lettersStdlib : Stdlib where
  fromIsoFormat text :=
    if text = moment then some 1704067200000000 else if text = later then some 1704070800000000 else none
  isoFormat i        := if i = 1704067200000000 then some moment else some later
  casefold           := id
  digest             := lettersDigest
  encodeToken        := encodeToken
  decodeToken        := decodeToken

theorem lettersStdlib_lawful : letI := lettersStdlib; LawfulStdlib := by
  let _ := lettersStdlib
  constructor
  case digest =>
    intro v
    change IsDigest (lettersDigest v)
    unfold lettersDigest IsDigest
    split <;> decide +kernel
  case encode => exact fun _ => rfl
  case decode => exact fun _ => rfl

def reply : Mail.Message :=
  { message with messageId := "reply", providerMessageId := "reply", receivedAt := later }

def lettersMail : Mail.Store :=
  { mail 0 with messages := Table.put (Table.put ∅ message) reply }

theorem lettersMail_messages : lettersMail.messages.rows.length < 0x8000000000000000 :=
  show 2 < 0x8000000000000000 by decide

theorem lettersMail_locations : lettersMail.locations.rows.length < 0x8000000000000000 :=
  show 0 < 0x8000000000000000 by decide

theorem lettersMail_bodies : ∀ b ∈ lettersMail.bodies, b.sourceChars < 0x8000000000000000 := by
  intro b hb
  obtain rfl := List.mem_singleton.mp hb
  decide

-- A thread of two messages.
def letters : Store where
  mail          := lettersMail
  derived       := Table.put (Table.put ∅ ⟨"letter", .inbound, some vendorId⟩) ⟨"reply", .inbound, some vendorId⟩
  vendors       := Table.put ∅ ⟨vendorId, "Vendor"⟩
  subject _     := "Subject"
  senderName _  := none
  storedChars _ := 0
  messages_lt   := lettersMail_messages
  located_lt    := lettersMail_locations
  source_lt     := lettersMail_bodies

def lettersThread : ThreadRef :=
  ⟨.gmail, "a", some digest, "thread"⟩

end Sample

open Sample in
theorem messages_paged_letters :
    letI := lettersStdlib
    ∃ listed, letters.Shows (.vendor Sample.vendorId) lettersThread none listed ∧
      Paging.Read (fun s token => Store.messagesPage s (.vendor Sample.vendorId) lettersThread none 1 token)
        (List.replicate ((listed.length - 1) / 1 + 1) letters) listed none := by
  let _ := lettersStdlib
  have _ := lettersStdlib_lawful
  have hread : (letters.seeMessages (.vendor Sample.vendorId) lettersThread none).isOk := by decide +kernel
  have hapart : (letters.seeMessages (.vendor Sample.vendorId) lettersThread none).toOption.all
      fun l => decide (l.digested.map lettersDigest).Nodup := by decide +kernel
  obtain ⟨l, hl⟩ := exists_ok_of_isOk hread
  have hd : (l.digested.map lettersDigest).Nodup := by
    rw [hl] at hapart
    exact of_decide_eq_true hapart
  have hfree : CollisionFree ([letters].flatMap fun s => s.digested (.vendor Sample.vendorId) lettersThread none) := by
    rw [List.flatMap_singleton, Store.digested, hl]
    exact fun x hx y hy he => List.inj_on_of_nodup_map hd hx hy he
  exact (messages_paged (by decide) hfree).right letters (by simp) l hl

end Sample

end ThreadReads
