import EmailWatcher.Inbox.Cursors
import EmailWatcher.Library.Paging
import EmailWatcher.Library.Transaction
import EmailWatcher.Mail.Removal
import EmailWatcher.Scheduling.Mailboxes

-- The pages of the Inbox, of the messages that a query asks for.
namespace Inbox

open JsonText (Value Number Plain textOf textOf_inj plain_textOf)
open Scheduling (Characters casefold normalizeValidatedAddress)
open Transaction

-- The columns of a message that only the Inbox reads.
structure Columns where
  senderName : Option String
  subject    : String
  summary    : Option String
  priority   : Option String
  category   : Option String
  deriving DecidableEq, Repr

structure Store where
  mail    : Mail.Store
  columns : String → Columns

structure Row where
  message : Mail.Message
  columns : Columns
  deriving DecidableEq, Repr

-- What the rows are ordered by.
def Row.position (r : Row) : Position :=
  ⟨(r.message.receivedAt : Text), (r.message.messageId : Text)⟩

-- The newest first, and of these the last id.
def Position.key (p : Position) : (Text ×ₗ Text)ᵒᵈ :=
  OrderDual.toDual (toLex (p.receivedAt, p.messageId))

structure Filters where
  sender      : Option Text
  senderQuery : Option Text
  priority    : Option Text
  category    : Option Text
  status      : Option Text
  keyword     : Option Text
  provider    : Option Text
  accountId   : Option Text
  deriving DecidableEq, Repr

def statusName : Mail.Status → String
  | .pending    => "pending"
  | .analyzed   => "analyzed"
  | .summarized => "summarized"
  | .skipped    => "skipped"

section Store

variable [Characters]

-- `instr(casefold(column), folded) > 0`, where `NULL` is the empty text
def foldedIn (folded : Text) (column : Option String) : Bool :=
  folded <:+: casefold ((column.map fun s => (s : Text)).getD [])

-- A column that is `NULL` for one word, and that word otherwise.
def chosen (absent : String) (choice : Text) (column : Option String) : Bool :=
  if choice = (absent : Text) then column.isNone else (column.map fun s => (s : Text)) = some choice

def Filters.admits (f : Filters) (r : Row) : Bool :=
  f.sender.all (fun x => (r.message.sender : Text) = x) &&
  f.senderQuery.all (fun x =>
    foldedIn (casefold x) (some r.message.sender) || foldedIn (casefold x) r.columns.senderName) &&
  f.priority.all (fun x => chosen "untriaged" x r.columns.priority) &&
  f.category.all (fun x => chosen "unclassified" x r.columns.category) &&
  f.status.all (fun x => (statusName r.message.status : Text) = x) &&
  f.keyword.all (fun x => foldedIn (casefold x) (some r.columns.subject) || foldedIn (casefold x) r.columns.summary) &&
  f.provider.all (fun x => (r.message.provider.name : Text) = x) &&
  f.accountId.all (fun x => (r.message.accountId : Text) = x)

-- The texts that are handed to the database.
def parameters (cursor : Option Position) (f : Filters) : List Text :=
  (cursor.map fun p => [p.receivedAt, p.messageId]).getD [] ++
    [f.sender, f.senderQuery.map casefold, f.priority, f.category, f.status, f.keyword.map casefold, f.provider,
      f.accountId].filterMap id

def Store.rows (s : Store) : List Row :=
  s.mail.logicalMessages.map fun m => ⟨m, s.columns m.messageId⟩

-- `query_inbox`: the rows of a page, and where the next one continues. Text with surrogates cannot be handed over.
def Store.queryInbox (s : Store) (limit : Nat) (cursor : Option Position) (f : Filters) :
    Except QueryError (List Row × Option Position) :=
  if (parameters cursor f).any (·.any isSurrogate) then .error .unicodeEncodeError
  else
    let rows := Ranking.ordered (·.position.key)
      ((s.rows.filter f.admits).filter fun r => cursor.all fun p => p.key < r.position.key)
    let rows := rows.take (limit + 1)
    let pageRows := rows.take limit
    let nextCursor := if limit < rows.length then pageRows.getLast?.map Row.position else none
    .ok (pageRows, nextCursor)

end Store

section Engine

variable [Characters]

-- `payload.get(name)`
def get (payload : Value) (name : String) : Value :=
  (payload.member (name : Text)).getD .null

def namesOf : List String :=
  ["category", "account_id", "cursor", "keyword", "limit", "priority", "provider", "sender", "sender_query", "status"]

def commaBlank : Text := (", " : String)

-- `_payload`. No name stands twice in a request.
def checkPayload (payload : Value) : Except QueryError Unit :=
  match payload with
  | .object members =>
    let unknown := (members.map Prod.fst).filter fun name => name ∉ namesOf.map textOf
    if unknown = [] then .ok ()
    else .error <| .api "invalid_request" <|
      ("Unsupported payload fields: " : String) ++ List.intercalate commaBlank (unknown.insertionSort (· ≤ ·))
  | _               => .error <| invalidRequest "payload must be an object"

-- `_bounded_limit(payload, default=25, maximum=100)`
def boundedLimit (payload : Value) : Except QueryError Nat :=
  match payload.member (textOf "limit") with
  | none                  => .ok 25
  | some (.number (.int n)) =>
    if 1 ≤ n ∧ n ≤ 100 then .ok n.toNat
    else .error <| invalidRequest "limit must be an integer between 1 and 100"
  | some _                => .error <| invalidRequest "limit must be an integer between 1 and 100"

-- `_optional_inbox_text`
def optionalInboxText (payload : Value) (name : String) (maximum : Nat) : Except QueryError (Option Text) :=
  let refusal := QueryError.api "invalid_request" <| textOf name ++
    textOf " must be a non-empty string of at most " ++ Decimal.digits maximum ++ textOf " characters"
  match get payload name with
  | .null        => .ok none
  | .string text => if Text.strip text = [] ∨ text.length > maximum then .error refusal else .ok (some (Text.strip text))
  | _            => .error refusal

-- `_optional_inbox_choice`, of choices in order
def optionalInboxChoice (payload : Value) (name : String) (choices : List String) : Except QueryError (Option Text) :=
  let refusal := QueryError.api "invalid_request" <| textOf name ++ textOf " must be one of: " ++
    List.intercalate commaBlank (choices.map textOf)
  match get payload name with
  | .null        => .ok none
  | .string text => if text ∈ choices.map textOf then .ok (some text) else .error refusal
  | _            => .error refusal

def inboxPriorities : List String :=
  ["high", "low", "normal", "untriaged", "urgent"]

def inboxCategories : List String :=
  ["automated_notice", "customer_request", "informational", "invoice", "other", "scheduling", "unclassified"]

def inboxStatuses : List String :=
  ["analyzed", "pending", "skipped", "summarized"]

-- `within_utf8_bytes`
def withinUtf8Bytes (text : Text) (maximum : Nat) : Bool :=
  !text.any isSurrogate && (Octets.utf8 text).length ≤ maximum

-- The sender of a query, as it is stored.
def querySender (payload : Value) : Except QueryError (Option Text) :=
  match get payload "sender" with
  | .null        => .ok none
  | .string text =>
    if Text.strip text = [] then .error <| invalidRequest "sender must be a non-empty string"
    else
      match normalizeValidatedAddress text with
      | none        => .error <| invalidRequest "email address is invalid"
      | some sender =>
        -- `exact_sender_selector_id`
        if withinUtf8Bytes (textOf "sender:" ++ sender) 512 then .ok (some sender)
        else .error <| invalidRequest "sender email creates an admission selector over 512 UTF-8 bytes"
  | _            => .error <| invalidRequest "sender must be a non-empty string"

def readFilters (payload : Value) : Except QueryError Filters := do
  let sender ← querySender payload
  let senderQuery ← optionalInboxText payload "sender_query" 320
  let keyword ← optionalInboxText payload "keyword" 200
  let provider ← optionalInboxText payload "provider" 64
  let accountId ← optionalInboxText payload "account_id" 128
  let priority ← optionalInboxChoice payload "priority" inboxPriorities
  let category ← optionalInboxChoice payload "category" inboxCategories
  let status ← optionalInboxChoice payload "status" inboxStatuses
  return ⟨sender, senderQuery, priority, category, status, keyword, provider, accountId⟩

-- `_query_inbox`: the rows, and the next cursor.
def inboxQuery (s : Store) (payload : Value) : Except QueryError (List Row × Option Text) := do
  checkPayload payload
  let limit ← boundedLimit payload
  let cursor ← decodeInboxCursor (get payload "cursor")
  let filters ← readFilters payload
  let (rows, nextCursor) ← s.queryInbox limit cursor filters
  return (rows, encodeInboxCursor nextCursor)

end Engine

section Requests

variable [Characters] {query : List (Text × Value)} {token : Option Text} {name : String} {s : Store}
  {limit : Nat} {filters : Filters}

-- The request for the page of a cursor.
def request (query : List (Text × Value)) (token : Option Text) : Value :=
  .object (query ++ [(textOf "cursor", .ofOption .string token)])

-- What a request says without its cursor.
def readQuery (query : List (Text × Value)) : Except QueryError (Nat × Filters) := do
  checkPayload (request query none)
  return (← boundedLimit (request query none), ← readFilters (request query none))

omit [Characters] in
theorem member_request {name : Text} (h : name ≠ textOf "cursor") (token : Option Text) :
    (request query token).member name = (request query none).member name := by
  simp only [request, Json.member, List.find?_append, List.find?_singleton]
  simp only [Ne.symm h, decide_false, Bool.false_eq_true, if_false]

omit [Characters] in
theorem get_request (h : textOf name ≠ textOf "cursor") (token : Option Text) :
    get (request query token) name = get (request query none) name := by
  rw [get, get]
  exact congrArg (·.getD .null) (member_request h token)

omit [Characters] in
theorem get_cursor (h : textOf "cursor" ∉ query.map Prod.fst) (token : Option Text) :
    get (request query token) "cursor" = .ofOption .string token := by
  have hnone : query.find? (·.fst = textOf "cursor") = none := by
    refine List.find?_eq_none.mpr fun m hm => ?_
    simp only [decide_eq_true_eq]
    exact fun he => h (he ▸ List.mem_map_of_mem hm)
  have : (request query token).member (textOf "cursor") = some (.ofOption .string token) := by
    simp [request, Json.member, List.find?_append, hnone]
  rw [get]
  exact congrArg (·.getD .null) this

omit [Characters] in
theorem checkPayload_request (token : Option Text) :
    checkPayload (request query token) = checkPayload (request query none) := by
  simp only [checkPayload, request, List.map_append, List.map_cons, List.map_nil]

theorem readFilters_request (token : Option Text) :
    readFilters (request query token) = readFilters (request query none) := by
  have hne : ∀ n ∈ ["sender", "sender_query", "keyword", "provider", "account_id", "priority", "category", "status"],
      get (request query token) n = get (request query none) n := by
    intro n hn
    refine get_request (fun he => ?_) token
    rw [textOf_inj he] at hn
    revert hn
    decide
  simp only [readFilters, querySender, optionalInboxText, optionalInboxChoice]
  rw [hne "sender" (by simp), hne "sender_query" (by simp), hne "keyword" (by simp), hne "provider" (by simp),
    hne "account_id" (by simp), hne "priority" (by simp), hne "category" (by simp), hne "status" (by simp)]

omit [Characters] in
theorem boundedLimit_request (token : Option Text) :
    boundedLimit (request query token) = boundedLimit (request query none) := by
  have hne : textOf "limit" ≠ textOf "cursor" := by
    intro he
    exact absurd (textOf_inj he) (by decide)
  rw [boundedLimit, member_request hne, ← boundedLimit]

variable (s token) in
-- A request is answered from the store, behind the position of its cursor.
theorem inboxQuery_request {cursor : Option Position} (h : textOf "cursor" ∉ query.map Prod.fst)
    (hq : readQuery query = .ok (limit, filters))
    (hc : decodeInboxCursor (.ofOption .string token) = .ok cursor) :
    inboxQuery s (request query token) =
      (s.queryInbox limit cursor filters >>= fun x => .ok (x.fst, encodeInboxCursor x.snd)) := by
  simp only [readQuery, bind_eq_ok, pure_eq_ok, Prod.mk.injEq] at hq
  obtain ⟨_, hpayload, l, hlimit, f, hfilters, rfl, rfl⟩ := hq
  simp only [inboxQuery, checkPayload_request, hpayload, boundedLimit_request, hlimit, get_cursor h, hc,
    readFilters_request, hfilters, bind, Except.bind]
  rfl

theorem readQuery_of_ok {x : List Row × Option Text} (h : inboxQuery s (request query token) = .ok x) :
    ∃ limit filters, readQuery query = .ok (limit, filters) ∧ 1 ≤ limit ∧ limit ≤ 100 := by
  simp only [inboxQuery, checkPayload_request, boundedLimit_request, readFilters_request, bind_eq_ok] at h
  obtain ⟨_, hpayload, limit, hlimit, _, -, filters, hfilters, -⟩ := h
  refine ⟨limit, filters, ?_, ?_⟩
  · simp only [readQuery, hpayload, hlimit, hfilters, bind, Except.bind]
    rfl
  · rw [boundedLimit] at hlimit
    split at hlimit
    · cases hlimit
      decide
    · split at hlimit
      case isTrue hn  =>
        cases hlimit
        omega
      case isFalse    => cases hlimit
    · cases hlimit

end Requests

section Pages

variable [Characters] {query : List (Text × Value)} {s : Store} {limit : Nat} {filters : Filters}
  {cursor : Option Position}

-- The rows that a query asks for.
def Store.matching (s : Store) (filters : Filters) : List Row :=
  s.rows.filter filters.admits

-- The rows of the store can be named by a cursor.
def Store.Usable (s : Store) : Prop :=
  ∀ r ∈ s.rows, r.position.Usable

-- A key as the position that it orders.
def ofKey (k : (Text ×ₗ Text)ᵒᵈ) : Position :=
  ⟨(ofLex (OrderDual.ofDual k)).fst, (ofLex (OrderDual.ofDual k)).snd⟩

omit [Characters] in
theorem position_inj {r r' : Row} (h : r.position.key = r'.position.key) :
    r.message.messageId = r'.message.messageId :=
  textOf_inj (congrArg (fun k => (ofKey k).messageId) h)

theorem matching_nodup (s : Store) (filters : Filters) : ((s.matching filters).map (·.position.key)).Nodup := by
  have hids : (s.rows.map fun r => r.message.messageId).Nodup := by
    rw [Store.rows, List.map_map]
    exact Table.nodup_filter _ _
  have hmatching : ((s.matching filters).map fun r => r.message.messageId).Nodup :=
    hids.sublist (List.filter_sublist.map _)
  exact List.pairwise_map.mpr ((List.pairwise_map.mp hmatching).imp fun hne he => hne (position_inj he))

omit [Characters] in
-- A row as a place to continue behind.
theorem decode_position {r : Row} (h : r.position.Usable) :
    decodeInboxCursor (Json.ofOption Json.string (some (ofKey r.position.key).token)) = .ok (some r.position) := by
  have hdecode := decode_token (p := r.position) (plain_textOf _) (plain_textOf _)
  rw [if_pos h] at hdecode
  exact hdecode

-- No text of the filters has a surrogate.
def Filters.Plain (f : Filters) : Prop :=
  (parameters none f).any (·.any isSurrogate) = false

theorem parameters_position {r : Row} (h : filters.Plain) :
    (parameters (some r.position) filters).any (·.any isSurrogate) = false := by
  have hplain : ∀ s : String, (textOf s).any isSurrogate = false :=
    fun s => List.any_eq_false.mpr fun c hc => by simp [plain_textOf s c hc]
  rw [Filters.Plain, parameters, Option.map_none, Option.getD_none, List.nil_append] at h
  rw [parameters, List.any_append, h, Bool.or_false, Option.map_some, Option.getD_some]
  simp only [List.any_cons, List.any_nil, Bool.or_false, Bool.or_eq_false_iff]
  exact ⟨hplain _, hplain _⟩

theorem queryInbox_page (h : (parameters cursor filters).any (·.any isSurrogate) = false) :
    (s.queryInbox limit cursor filters >>= fun x => .ok (x.fst, encodeInboxCursor x.snd)) =
      .ok ((Paging.keysetPage (fun r : Row => r.position.key) limit (s.matching filters)
        (cursor.map Position.key)).map id (Option.map fun k => (ofKey k).token)) := by
  have hbehind : Ranking.ordered (fun r : Row => r.position.key)
      ((s.rows.filter filters.admits).filter fun r => cursor.all fun p => p.key < r.position.key) =
      Paging.behind (fun r : Row => r.position.key) (s.matching filters) (cursor.map Position.key) := by
    refine congrArg (Ranking.ordered _) (List.filter_congr fun r _ => ?_)
    cases cursor
    case none   => rfl
    case some p => exact decide_eq_decide.mpr Iff.rfl
  rw [Store.queryInbox, h, hbehind]
  simp only [Bool.false_eq_true, if_false, bind, Except.bind, Paging.keysetPage, Prod.map_def, id_eq]
  split
  case isTrue hlt  =>
    rw [encodeInboxCursor, Option.map_map, Option.map_map]
    rfl
  case isFalse hlt => rfl

-- The pages of a query, of stores whose rows can be named.
theorem inboxQuery_keyset (h : textOf "cursor" ∉ query.map Prod.fst) (hq : readQuery query = .ok (limit, filters))
    (hp : filters.Plain) :
    Paging.Keyset (fun s token => inboxQuery s (request query token)) (fun s => s.matching filters)
      (fun r => r.position.key) (fun k => (ofKey k).token) limit {s | s.Usable} := by
  constructor
  case nodup =>
    exact fun s _ => matching_nodup s filters
  case first =>
    intro s _
    have hrequest := inboxQuery_request none s h hq rfl
    rw [queryInbox_page hp] at hrequest
    exact hrequest
  case again =>
    intro s₀ hs₀ r hr s _
    have husable : r.position.Usable := hs₀ r (List.mem_of_mem_filter hr)
    have hrequest := inboxQuery_request _ s h hq (decode_position husable)
    rw [queryInbox_page (parameters_position hp)] at hrequest
    exact hrequest

end Pages

section Theorem

-- A position that is listed before another one: newer, or of the same time and with a greater id.
def Position.Before (p q : Position) : Prop :=
  q.receivedAt < p.receivedAt ∨ q.receivedAt = p.receivedAt ∧ q.messageId < p.messageId

theorem key_lt_iff {p q : Position} : p.key < q.key ↔ p.Before q := by
  rw [Position.key, Position.key, OrderDual.toDual_lt_toDual, Prod.Lex.toLex_lt_toLex, Position.Before]

theorem key_inj {p q : Position} (h : p.key = q.key) : p = q :=
  congrArg ofKey h

variable [Characters] {query : List (Text × Value)} {served : List Store} {rows : List Row} {next : Option Text}

-- What a first page says of the query.
theorem exists_readQuery (hc : textOf "cursor" ∉ query.map Prod.fst)
    (h : Paging.Read (fun s token => inboxQuery s (request query token)) served rows next) :
    ∃ limit filters, readQuery query = .ok (limit, filters) ∧ 1 ≤ limit ∧ filters.Plain := by
  obtain ⟨s, -, page, hpage⟩ := h.exists_first
  obtain ⟨limit, filters, hq, hl, -⟩ := readQuery_of_ok hpage
  refine ⟨limit, filters, hq, hl, ?_⟩
  have hrequest := inboxQuery_request none s hc hq rfl
  rw [hpage] at hrequest
  obtain ⟨x, hx, -⟩ := bind_eq_ok.mp hrequest.symm
  rw [Store.queryInbox] at hx
  split at hx
  case isTrue    => cases hx
  case isFalse h => exact Bool.eq_false_iff.mpr h

-- Pages that are read one after another, each from the store as it is by then: the newest row first, none twice and
-- none that was not asked for, and each one that was there throughout, unless it is further down. A page is always
-- followed by the next, and where rows only disappear or come in front of all others, the pages come to an end.
theorem inbox_paged (hc : textOf "cursor" ∉ query.map Prod.fst) (hu : ∀ s ∈ served, s.Usable)
    (h : Paging.Read (fun s token => inboxQuery s (request query token)) served rows next) :
    ∃ limit filters, readQuery query = .ok (limit, filters) ∧
      (rows.Pairwise fun r r' => r.position.Before r'.position) ∧
      (∀ r ∈ rows, ∃ s ∈ served, r ∈ s.matching filters) ∧
      (∀ p, (∀ s ∈ served, ∃ r ∈ s.matching filters, r.position = p) →
        (∃ r ∈ rows, r.position = p) ∨ next ≠ none ∧ ∀ r ∈ rows, r.position.Before p) ∧
      (∀ token, next = some token → rows.length = limit * served.length ∧
        ∀ s : Store, s.Usable → ∃ more next', inboxQuery s (request query token) = .ok (more, next')) ∧
      ∀ f : Nat → Store, (∀ i, (f i).Usable) →
        (∀ i, ∀ r ∈ (f i).matching filters, (∃ r' ∈ (f 0).matching filters, r'.position = r.position) ∨
          ∀ r' ∈ (f 0).matching filters, r.position.Before r'.position) →
        ∃ n all, n ≤ ((f 0).matching filters).length / limit + 1 ∧
          Paging.Read (fun s token => inboxQuery s (request query token)) ((List.range n).map f) all none := by
  obtain ⟨limit, filters, hq, hl, hp⟩ := exists_readQuery hc h
  have hk := inboxQuery_keyset hc hq hp
  have hread := hk.read hl h hu
  refine ⟨limit, filters, hq, ?_, ?_, ?_, ?_, ?_⟩
  case refine_1 =>
    obtain ⟨-, hcovered⟩ | ⟨_, _, -, -, -, hcovered⟩ := hread <;>
      exact hcovered.sorted.imp fun hlt => key_lt_iff.mp hlt
  case refine_2 =>
    obtain ⟨-, hcovered⟩ | ⟨_, _, -, -, -, hcovered⟩ := hread <;> exact hcovered.sound
  case refine_3 =>
    intro p hall
    have hmem : ∀ s ∈ served, p.key ∈ (s.matching filters).map fun r => r.position.key := by
      intro s hs
      obtain ⟨r, hr, rfl⟩ := hall s hs
      exact List.mem_map_of_mem (f := fun r : Row => r.position.key) hr
    have hback : p.key ∈ (rows.map fun r => r.position.key) → ∃ r ∈ rows, r.position = p := by
      intro hm
      obtain ⟨r, hr, he⟩ := List.mem_map.mp hm
      exact ⟨r, hr, key_inj he⟩
    obtain ⟨-, hcovered⟩ | ⟨front, last, hrows, hnext, -, hcovered⟩ := hread
    · exact .inl (hback (hcovered.complete _ hmem trivial))
    · cases le_or_gt p.key last.position.key
      case inl hle => exact .inl (hback (hcovered.complete _ hmem hle))
      case inr hgt =>
        refine .inr ⟨by rw [hnext]; nofun, fun r hr => key_lt_iff.mp (lt_of_le_of_lt ?_ hgt)⟩
        have hsorted := hcovered.sorted
        rw [hrows] at hr hsorted
        cases List.mem_append.mp hr
        case inl hr => exact ((List.pairwise_append.mp hsorted).right.right r hr last (by simp)).le
        case inr hr => exact List.mem_singleton.mp hr ▸ le_rfl
  case refine_4 =>
    rintro token rfl
    obtain ⟨hnone, -⟩ | ⟨-, -, -, -, hlen, -⟩ := hread
    · cases hnone
    · exact ⟨hlen, fun s hs => hk.progress hl h hu hs⟩
  case refine_5 =>
    intro f hf hnew
    refine hk.ends hl f hf fun i r hr => ?_
    obtain ⟨r', hr', he⟩ | hbefore := hnew i r hr
    · exact .inl (he ▸ List.mem_map_of_mem (f := fun r : Row => r.position.key) hr')
    · exact .inr fun r' hr' => key_lt_iff.mpr (hbefore r' hr')

end Theorem

section Sample

namespace Sample

@[reducible]
def characters : Characters where
  fold c           := [c]
  fold_space _ _   := rfl
  isPrintable _    := true
  parseaddr        := id
  idna             := some

def letter (messageId receivedAt : String) : Mail.Message where
  messageId          := messageId
  provider           := .gmail
  accountId          := "a"
  mailboxIdentityKey := none
  providerMessageId  := messageId
  threadKey          := none
  rfcMessageId       := none
  logicalOf          := none
  sender             := "sender"
  receivedAt         := receivedAt
  status             := .analyzed
  notified           := true

def older : Mail.Message :=
  letter "a" "2026-05-01T08:00:00+00:00"

def newer : Mail.Message :=
  letter "b" "2026-05-01T09:00:00+00:00"

def mail (messages : List Mail.Message) : Mail.Store where
  clock       := 0
  accounts    := ∅
  messages    := messages.foldl Table.put ∅
  locations   := ∅
  threadIds   := ∅
  aliases     := ∅
  follows     := ∅
  watermarks  := ∅
  catchup     := ∅
  suppressed  := ∅
  bodies      := ∅
  unavailable := ∅
  requests    := ∅
  intents     := ∅
  targets     := ∅

def store (messages : List Mail.Message) : Store where
  mail      := mail messages
  columns _ := ⟨none, "Subject", none, none, none⟩

def row (m : Mail.Message) : Row :=
  ⟨m, none, "Subject", none, none, none⟩

def single : List (Text × Value) :=
  [(textOf "limit", .number (.int 1))]

def all : Filters :=
  ⟨none, none, none, none, none, none, none, none⟩

end Sample

open Sample in
-- The message of the first page is removed before the second one is read.
theorem inbox_paged_letters :
    letI := characters
    ∃ rows next, Paging.Read (fun s token => inboxQuery s (request single token))
      [store [older, newer], store [older]] rows next ∧ rows.Pairwise fun r r' => r.position.Before r'.position := by
  let _ := characters
  have hmany : (store [older, newer]).rows = [row older, row newer] := rfl
  have hone : (store [older]).rows = [row older] := rfl
  have hold : (row older).position.Usable := by decide
  have hnew : (row newer).position.Usable := by decide
  have husable : ∀ s ∈ [store [older, newer], store [older]], s.Usable := by
    simp only [List.forall_mem_cons, List.not_mem_nil, false_implies, implies_true, and_true, Store.Usable, hmany, hone]
    exact ⟨⟨hold, hnew⟩, hold⟩
  have hk : Paging.Keyset (fun s token => inboxQuery s (request single token)) (fun s => s.matching all)
      (fun r => r.position.key) (fun k => (ofKey k).token) 1 {s | s.Usable} :=
    inboxQuery_keyset (by decide) rfl rfl
  have hpage : Paging.keysetPage (fun r : Row => r.position.key) 1 ((store [older, newer]).matching all) none =
      ([row newer], some (row newer).position.key) := rfl
  have hpage' : Paging.keysetPage (fun r : Row => r.position.key) 1 ((store [older]).matching all)
      (some (row newer).position.key) = ([row older], none) := rfl
  have hmem : row newer ∈ (store [older, newer]).matching all :=
    List.mem_filter.mpr ⟨by rw [hmany]; simp, rfl⟩
  have hfirst := hk.first (store [older, newer]) (husable _ (by simp))
  rw [hpage] at hfirst
  have hagain := hk.again _ (husable _ (by simp)) (row newer) hmem (store [older]) (husable _ (by simp))
  rw [hpage'] at hagain
  have hread : Paging.Read (fun s token => inboxQuery s (request single token))
      ([store [older, newer]] ++ [store [older]]) ([row newer] ++ [row older]) none :=
    .next (.first hfirst) hagain
  obtain ⟨_, _, -, hsorted, -⟩ := inbox_paged (by decide) husable hread
  exact ⟨_, _, hread, hsorted⟩

end Sample

end Inbox
