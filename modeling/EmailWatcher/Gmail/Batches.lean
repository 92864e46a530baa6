import EmailWatcher.Gmail.Changes

-- However a history is paged, and however it grows between the calls, the batches are its distinct ids.
namespace Gmail.History

open Distinct

section Histories

-- A history as the server keeps it
abbrev Records := List Event

def Field.items {α : Type} : Field (List α) → List α
  | .valid items => items
  | _            => []

def Added.id (a : Added) : Option String :=
  a.message.bind (·.id)

def Event.additions (e : Event) : List Added :=
  e.messagesAdded.items ++ e.labelsAdded.items

-- The ids of a history, in the order in which they are listed.
def Records.ids (h : Records) : List String :=
  h.flatMap fun e => e.additions.filterMap Added.id

structure Event.Valid (e : Event) : Prop where
  messagesAdded : e.messagesAdded ≠ .invalid
  labelsAdded   : e.labelsAdded ≠ .invalid
  ids           : ∀ a ∈ e.additions, (boundedText a.id maxGmailLabelIdBytes).isSome

-- A plain cursor.
def Plain (cursor : String) : Prop :=
  isdecimal cursor ∧ withinUtf8Bytes cursor maxHistoryContinuationBytes

-- A page that shows a part of the history.
structure Response.Shows (r : Response) (h : Records) : Prop where
  historyId : r.historyId = .absent ∨ ∃ id, r.historyId = .valid id ∧ Plain id
  history   : r.history ≠ .invalid
  events    : r.history.items = h.map some
  valid     : ∀ e ∈ h, e.Valid

-- The answers to the requests of one call show the history in full.
inductive Shows : Records → List Answer → Prop
  | last {h : Records} {r : Response} (page : r.Shows h) (next : r.nextPageToken = .absent)
      (answers : List Answer) : Shows h (.response r :: answers)
  | more {h h' : Records} {r : Response} {answers : List Answer} {token : String} (page : r.Shows h)
      (next : r.nextPageToken = .valid token)
      (bounded : (boundedText (some token) maxGmailPageTokenBytes).isSome)
      (rest : Shows h' answers) : Shows (h ++ h') (.response r :: answers)

end Histories

section Loop

variable [Codec] {c : Decoded} {p : Progress} {xs ys zs ws : List String}

-- What the loop knows once it has gone through the ids `xs`.
structure Seen (c : Decoded) (xs : List String) (p : Progress) : Prop where
  unique   : p.orderedUniqueIds = firsts xs
  ids      : p.ids = (firsts xs).drop c.offset
  bounded  : (firsts xs).length ≤ maxHistoryContinuationOffset
  batch    : (firsts xs).length ≤ c.offset + maxIncrementalMessageIds
  verified : p.prefixVerified = decide (c.offset ≤ (firsts xs).length)
  digest   : 0 < c.offset → c.offset ≤ (firsts xs).length →
    some (Codec.historyPrefixDigest ((firsts xs).take c.offset)) = c.digest
  newest   : Plain p.newest

-- The loop is left with a full batch, or for want of a cursor to go on with.
structure Full (c : Decoded) (xs : List String) : Prop where
  length   : (firsts xs).length = c.offset + maxIncrementalMessageIds + 1
  bounded  : (firsts xs).length ≤ maxHistoryContinuationOffset
  digest   : 0 < c.offset → some (Codec.historyPrefixDigest ((firsts xs).take c.offset)) = c.digest

-- Why the loop may be left once it has gone through the ids `xs`.
inductive Stopped (c : Decoded) (xs : List String) : Stop → Prop
  | exceeded {text : String} (h : maxHistoryContinuationOffset < (firsts xs).length)
      (before : (firsts xs).length ≤ c.offset + maxIncrementalMessageIds + 1) :
      Stopped c xs (.raises (.stale text))
  | changed {text : String} (h : 0 < c.offset) (reached : c.offset ≤ (firsts xs).length)
      (differs : some (Codec.historyPrefixDigest ((firsts xs).take c.offset)) ≠ c.digest) :
      Stopped c xs (.raises (.stale text))
  | unfit {e : Failure} (h : Full c xs)
      (he : historyContinuationCursor c.startHistoryId
        ((firsts xs).take (c.offset + maxIncrementalMessageIds)) = .error e) :
      Stopped c xs (.raises e)
  | full {cursor : String} {locations : List (String × FolderObservation)} (h : Full c xs)
      (hc : historyContinuationCursor c.startHistoryId
        ((firsts xs).take (c.offset + maxIncrementalMessageIds)) = .ok cursor) :
      Stopped c xs <| .returns
        ⟨((firsts xs).drop c.offset).take maxIncrementalMessageIds, cursor, locations, false⟩

-- How a part of the loop ends that goes through the ids `zs`, after the ids `xs`.
def Scans (c : Decoded) (xs zs : List String) : Except Stop Progress → Prop
  | .ok p       => Seen c (xs ++ zs) p
  | .error stop => ∃ ys, ys <+: zs ∧ Stopped c (xs ++ ys) stop

theorem Scans.stop {x : String} {stop : Stop} (h : Stopped c (xs ++ [x]) stop) :
    Scans c xs [x] (.error stop) :=
  ⟨[x], List.prefix_rfl, h⟩

theorem visit_scans (h : Seen c xs p) (x : String) : Scans c xs [x] (visit c p x) := by
  rw [visit, h.unique]
  split
  case isTrue hx =>
    have hfirsts := firsts_concat_of_mem hx
    exact ⟨by rw [hfirsts, h.unique], by rw [hfirsts, h.ids], hfirsts ▸ h.bounded, hfirsts ▸ h.batch,
      by rw [hfirsts, h.verified], hfirsts ▸ h.digest, h.newest⟩
  case isFalse hx =>
    have hfirsts := firsts_concat_of_not_mem hx
    have hlength : (firsts (xs ++ [x])).length = (firsts xs).length + 1 := by simp [hfirsts]
    rw [← hfirsts]
    have hbatch := h.batch
    dsimp only
    split
    case isTrue hmany => exact .stop <| .exceeded hmany (by omega)
    case isFalse hmany =>
      split
      case isTrue hreached =>
        have htake : (firsts (xs ++ [x])).take c.offset = firsts (xs ++ [x]) :=
          List.take_of_length_le (by omega)
        split
        case isTrue hdiffers =>
          exact .stop <| .changed (by omega) (by omega) (by rwa [htake])
        case isFalse hsame =>
          refine ⟨rfl, ?_, by omega, by omega, by simp [hreached], fun _ _ => ?_, h.newest⟩
          · rw [h.ids, List.drop_of_length_le (by omega), List.drop_of_length_le (by omega)]
          · rw [htake]
            exact not_not.mp hsame
      case isFalse hreached =>
        split
        case isTrue hskip =>
          refine ⟨rfl, ?_, by omega, by omega, ?_, fun _ => by omega, h.newest⟩
          · rw [h.ids, List.drop_of_length_le (by omega), List.drop_of_length_le (by omega)]
          · rw [h.verified, decide_eq_decide]
            omega
        case isFalse hskip =>
          have hdigest (hpos : 0 < c.offset) :
              some (Codec.historyPrefixDigest ((firsts (xs ++ [x])).take c.offset)) = c.digest := by
            rw [hfirsts, List.take_append_of_le_length (by omega)]
            exact h.digest hpos (by omega)
          have hids : p.ids.length = (firsts xs).length - c.offset := by simp [h.ids]
          split
          case isTrue hfull =>
            have hat : (firsts (xs ++ [x])).length = c.offset + maxIncrementalMessageIds + 1 := by omega
            have hreturned : p.ids = ((firsts (xs ++ [x])).drop c.offset).take maxIncrementalMessageIds := by
              rw [hfirsts, List.drop_append_of_le_length (by omega), ← h.ids,
                List.take_append_of_le_length (by omega), List.take_of_length_le (by omega)]
            rw [hfull]
            split
            case h_1 e he      => exact .stop <| .unfit ⟨hat, by omega, hdigest⟩ he
            case h_2 cursor he =>
              rw [hreturned]
              exact .stop <| .full ⟨hat, by omega, hdigest⟩ he
          case isFalse hroom =>
            refine ⟨rfl, ?_, by omega, by omega, ?_, fun hpos _ => hdigest hpos, h.newest⟩
            · rw [hfirsts, List.drop_append_of_le_length (by omega), h.ids]
            · rw [h.verified, decide_eq_decide]
              omega

theorem Seen.withHints (h : Seen c xs p) (hints : Hints) : Seen c xs { p with hints := hints } :=
  ⟨h.unique, h.ids, h.bounded, h.batch, h.verified, h.digest, h.newest⟩

theorem Seen.withNewest {newest : String} (h : Seen c xs p) (hn : Plain newest) :
    Seen c xs { p with newest := newest } :=
  ⟨h.unique, h.ids, h.bounded, h.batch, h.verified, h.digest, hn⟩

theorem Scans.done (h : Seen c xs p) : Scans c xs [] (.ok p) := by
  simpa [Scans] using h

theorem Scans.bind {x : Except Stop Progress} {f : Progress → Except Stop Progress}
    (h : Scans c xs zs x) (hf : ∀ p, Seen c (xs ++ zs) p → Scans c (xs ++ zs) ws (f p)) :
    Scans c xs (zs ++ ws) (x >>= f) := by
  cases x
  case error stop =>
    obtain ⟨ys, hys, hs⟩ := h
    exact ⟨ys, hys.trans (List.prefix_append _ _), hs⟩
  case ok p =>
    have hp := hf p h
    change Scans c xs (zs ++ ws) (f p)
    cases hfp : f p
    case ok q =>
      rw [hfp] at hp
      simpa [Scans] using hp
    case error stop =>
      rw [hfp] at hp
      obtain ⟨ys, hys, hs⟩ := hp
      exact ⟨zs ++ ys, (List.prefix_append_right_inj zs).mpr hys, by rwa [← List.append_assoc]⟩

theorem Scans.foldlM {α : Type} {f : Progress → α → Except Stop Progress} {ids : α → List String}
    {l : List α} (hf : ∀ a ∈ l, ∀ xs p, Seen c xs p → Scans c xs (ids a) (f p a)) (h : Seen c xs p) :
    Scans c xs (l.flatMap ids) (l.foldlM f p) := by
  induction l generalizing xs p
  case nil         => exact .done h
  case cons a l ih =>
    rw [List.foldlM_cons, List.flatMap_cons]
    refine (hf a (by simp) xs p h).bind fun q hq => ?_
    exact ih (fun b hb => hf b (by simp [hb])) hq

theorem addAddition_scans {a : Added} (ha : (boundedText a.id maxGmailLabelIdBytes).isSome)
    (h : Seen c xs p) : Scans c xs a.id.toList (addAddition c p a) := by
  obtain ⟨id, hid⟩ := Option.isSome_iff_exists.mp ha
  have hsome : a.id = some id := (Option.filter_eq_some_iff.mp hid).left
  rw [Added.id] at hid
  rw [addAddition, hid, hsome]
  exact visit_scans (h.withHints _) id

theorem addField_scans {f : Field (List Added)} (hf : f ≠ .invalid)
    (ha : ∀ a ∈ f.items, (boundedText a.id maxGmailLabelIdBytes).isSome) (h : Seen c xs p) :
    Scans c xs (f.items.flatMap (·.id.toList)) (addField c p f) := by
  cases f
  case absent      => exact .done h
  case invalid     => exact absurd rfl hf
  case valid items => exact Scans.foldlM (fun a hm xs p h => addAddition_scans (ha a hm) h) h

theorem addEvent_scans {e : Event} (he : e.Valid) (h : Seen c xs p) :
    Scans c xs (e.additions.filterMap Added.id) (addEvent c p (some e)) := by
  rw [addEvent, Event.additions, List.filterMap_eq_flatMap_toList, List.flatMap_append]
  have hids (a : Added) (ha : a ∈ e.messagesAdded.items ∨ a ∈ e.labelsAdded.items) :=
    he.ids a (List.mem_append.mpr ha)
  refine (addField_scans he.messagesAdded (fun a ha => hids a (.inl ha)) (h.withHints _)).bind ?_
  exact fun p h => addField_scans he.labelsAdded (fun a ha => hids a (.inr ha)) h

theorem addHistory_scans {r : Response} {h' : Records} (hr : r.Shows h') (h : Seen c xs p) :
    Scans c xs h'.ids (addHistory c p r.history) := by
  have hitems := hr.events
  have hhistory := hr.history
  cases he : r.history
  case invalid => exact absurd he hhistory
  case absent  =>
    rw [he] at hitems
    obtain rfl : h' = [] := by simpa [Field.items] using hitems.symm
    exact .done h
  case valid events =>
    rw [he] at hitems
    obtain rfl : events = h'.map some := hitems
    rw [addHistory, List.foldlM_map]
    exact Scans.foldlM (fun e he xs p h => addEvent_scans (hr.valid e he) h) h

theorem readNewest_seen {f : Field String} (hf : f = .absent ∨ ∃ id, f = .valid id ∧ Plain id)
    (h : Seen c xs p) : ∃ q, readNewest p f = .ok q ∧ Seen c xs q := by
  obtain rfl | ⟨id, rfl, hid⟩ := hf
  · exact ⟨p, rfl, h⟩
  · refine ⟨{ p with newest := id }, ?_, h.withNewest hid⟩
    simp [readNewest, hid.left]

-- However the history is paged, the loop goes through its ids.
theorem readPages_scans {h' : Records} {answers : List Answer} (hs : Shows h' answers)
    (h : Seen c xs p) : Scans c xs h'.ids (readPages c p answers) := by
  induction hs generalizing xs p
  case last h' r hr hnext answers =>
    obtain ⟨q, hq, h⟩ := readNewest_seen hr.historyId h
    rw [readPages, hq, hnext, ← List.append_nil h'.ids]
    exact (addHistory_scans hr h).bind fun p h => .done h
  case more h' h'' r answers token hr hnext hbounded _ ih =>
    obtain ⟨q, hq, h⟩ := readNewest_seen hr.historyId h
    have hids : Records.ids (h' ++ h'') = h'.ids ++ h''.ids := List.flatMap_append
    rw [readPages, hq, hnext, hids]
    refine (addHistory_scans hr h).bind fun p h => ?_
    rw [nextPage, if_neg (by simpa [Option.isSome_iff_ne_none] using hbounded)]
    exact ih h

end Loop

section Cursors

variable [Codec] {start cursor : String} {ids : List String}

theorem Plain.decode (h : Plain start) : decodeHistoryCursor start = .ok ⟨start, 0, none⟩ := by
  have hne : start ≠ "" := by
    rintro rfl
    exact absurd h.left (by decide)
  have hdecimal (text : String) (hc : text.toList.head? = some 'e') : startswith start text = false := by
    rw [startswith, ← Bool.not_eq_true, List.isPrefixOf_iff_prefix]
    rintro ⟨rest, hrest⟩
    have hmem : 'e' ∈ start.toList := by
      rw [← hrest]
      exact List.mem_append_left _ (List.mem_of_head? hc)
    have hall := h.left
    simp only [isdecimal, Bool.and_eq_true, List.all_eq_true] at hall
    exact absurd (hall.right 'e' hmem) (by decide)
  rw [decodeHistoryCursor, if_neg hne, hdecimal _ (by decide), hdecimal _ (by decide)]
  simp [h.left, h.right]

theorem decodeContinuation_payload (hs : isdecimal start)
    (hb : ids.length ≤ maxHistoryContinuationOffset) :
    decodeContinuation
      (some (cursorPayload start ids.length (Codec.historyPrefixDigest ids))) =
      .ok ⟨start, ids.length, some (Codec.historyPrefixDigest ids)⟩ := by
  have hempty : ¬(ids = [] ∧ ¬Codec.historyPrefixDigest ids = Codec.historyPrefixDigest []) := by
    rintro ⟨rfl, hne⟩
    exact hne rfl
  have hneg : ¬(ids.length : Int) < 0 := by omega
  have hb : ¬maxHistoryContinuationOffset < ids.length := Nat.not_lt.mpr hb
  simp only [decodeContinuation, cursorPayload, Value.get?]
  simp [hs, hb, hneg, hempty, Codec.historyPrefixDigest_length, Codec.historyPrefixDigest_hex]

-- A continuation says what it was made from.
theorem decode_historyContinuationCursor (hs : isdecimal start)
    (h : historyContinuationCursor start ids = .ok cursor) :
    decodeHistoryCursor cursor = .ok ⟨start, ids.length, some (Codec.historyPrefixDigest ids)⟩ := by
  rw [historyContinuationCursor] at h
  split at h
  case isTrue       => cases h
  case isFalse hb =>
    dsimp only at h
    split at h
    case isTrue            => cases h
    case isFalse hwithin =>
      obtain rfl := Except.ok.inj h
      generalize hpayload : cursorPayload start ids.length (Codec.historyPrefixDigest ids) = payload
      rw [hpayload] at hwithin
      have hne : historyContinuationPrefix ++ Codec.dumps payload ≠ "" := by
        intro he
        have := congrArg String.toList he
        simp [historyContinuationPrefix] at this
      have hlegacy : startswith (historyContinuationPrefix ++ Codec.dumps payload)
          legacyHistoryContinuationPrefix = false := by
        rw [startswith, String.toList_append, ← Bool.not_eq_true, List.isPrefixOf_iff_prefix]
        intro hp
        have := List.prefix_of_prefix_length_le hp (List.prefix_append _ _) (by decide)
        exact absurd this (by decide)
      have hstarts : startswith (historyContinuationPrefix ++ Codec.dumps payload)
          historyContinuationPrefix = true := by
        rw [startswith, String.toList_append, List.isPrefixOf_iff_prefix]
        exact List.prefix_append _ _
      have hrest : removeprefix (historyContinuationPrefix ++ Codec.dumps payload)
          historyContinuationPrefix = Codec.dumps payload := by
        rw [ removeprefix, String.toList_append, List.drop_left, String.ofList_toList]
      rw [decodeHistoryCursor, if_neg hne, hlegacy, hstarts, hrest, ← hpayload, Codec.loads_dumps,
        decodeContinuation_payload hs (Nat.not_lt.mp hb), hpayload]
      simpa using hwithin

theorem historyContinuationCursor_stale {e : Failure} (h : historyContinuationCursor start ids = .error e) :
    ∃ text, e = .stale text := by
  rw [historyContinuationCursor] at h
  split at h
  · exact ⟨_, (Except.error.inj h).symm⟩
  · dsimp only at h
    split at h
    · exact ⟨_, (Except.error.inj h).symm⟩
    · cases h

end Cursors

section Calls

variable [Codec] {c : Decoded} {h : Records} {answers : List Answer} {cursor : String}

theorem Seen.initial {newest : String} (hn : Plain newest) :
    Seen c [] ⟨[], ⟨[], []⟩, [], newest, c.offset = 0⟩ where
  unique   := rfl
  ids      := by simp
  bounded  := Nat.zero_le _
  batch    := Nat.zero_le _
  verified := by simp
  digest   := fun hpos hlen => absurd hlen (Nat.not_le.mpr hpos)
  newest   := hn

-- How a call ends that is shown a history whose distinct ids are `us`.
inductive Ends (c : Decoded) (us : List String) : Except Failure Changes → Prop
  | continues {cursor : String} {locations : List (String × FolderObservation)}
      (more : c.offset + maxIncrementalMessageIds < us.length)
      (bounded : c.offset + maxIncrementalMessageIds < maxHistoryContinuationOffset)
      (digest : 0 < c.offset → some (Codec.historyPrefixDigest (us.take c.offset)) = c.digest)
      (hc : historyContinuationCursor c.startHistoryId
        (us.take (c.offset + maxIncrementalMessageIds)) = .ok cursor) :
      Ends c us <| .ok ⟨(us.drop c.offset).take maxIncrementalMessageIds, cursor, locations, false⟩
  | drains {newest : String} {locations : List (String × FolderObservation)}
      (reached : c.offset ≤ us.length)
      (batch : us.length ≤ c.offset + maxIncrementalMessageIds)
      (bounded : us.length ≤ maxHistoryContinuationOffset)
      (digest : 0 < c.offset → some (Codec.historyPrefixDigest (us.take c.offset)) = c.digest)
      (plain : Plain newest) :
      Ends c us <| .ok ⟨us.drop c.offset, newest, locations, true⟩
  | exceeds {text : String} (h : maxHistoryContinuationOffset < us.length)
      (before : maxHistoryContinuationOffset ≤ c.offset + maxIncrementalMessageIds) :
      Ends c us <| .error <| .stale text
  | changed {text : String} (h : 0 < c.offset)
      (differs : c.offset ≤ us.length →
        some (Codec.historyPrefixDigest (us.take c.offset)) ≠ c.digest) :
      Ends c us <| .error <| .stale text
  | unfit {text : String} (more : c.offset + maxIncrementalMessageIds < us.length)
      (hc : historyContinuationCursor c.startHistoryId
        (us.take (c.offset + maxIncrementalMessageIds)) = .error (.stale text)) :
      Ends c us <| .error <| .stale text

omit [Codec] in
theorem take_of_initial {us vs : List String} {n : Nat} (h : us <+: vs) (hn : n ≤ us.length) :
    vs.take n = us.take n := by
  obtain ⟨ws, rfl⟩ := h
  rw [List.take_append_of_le_length hn]

omit [Codec] in
theorem drop_take_of_initial {us vs : List String} {n k : Nat} (h : us <+: vs)
    (hn : n + k ≤ us.length) : (vs.drop n).take k = (us.drop n).take k := by
  rw [List.take_drop, List.take_drop, take_of_initial h hn]

theorem historyChanges_ends (hd : decodeHistoryCursor cursor = .ok c) (hp : Plain c.startHistoryId)
    (hs : Shows h answers) : Ends c (firsts h.ids) (historyChanges cursor answers) := by
  have hscan := readPages_scans hs (Seen.initial (c := c) hp)
  rw [historyChanges, hd]
  dsimp only
  cases hr : readPages c ⟨[], ⟨[], []⟩, [], c.startHistoryId, c.offset = 0⟩ answers
  case ok p =>
    rw [hr] at hscan
    have hscan : Seen c h.ids p := by simpa [Scans] using hscan
    dsimp only
    rw [hscan.verified]
    split
    case isTrue hnot =>
      have hnot : (firsts h.ids).length < c.offset := by simpa using hnot
      exact .changed (by omega) (by omega)
    case isFalse hreached =>
      have hreached : c.offset ≤ (firsts h.ids).length := by simpa using hreached
      rw [hscan.ids]
      exact .drains hreached hscan.batch hscan.bounded (hscan.digest · hreached) hscan.newest
  case error stop =>
    rw [hr] at hscan
    obtain ⟨ys, hys, hstop⟩ := hscan
    have hinitial : firsts ys <+: firsts h.ids := firsts_mono hys
    have hle := hinitial.length_le
    rw [List.nil_append] at hstop
    cases hstop
    case exceeded hmany hbefore => exact .exceeds (by omega) (by omega)
    case changed hpos hreached hdiffers =>
      exact .changed hpos fun _ => by rwa [take_of_initial hinitial hreached]
    case unfit e hfull he =>
      have hlength := hfull.length
      obtain ⟨text, rfl⟩ := historyContinuationCursor_stale he
      exact .unfit (by omega) (by rwa [take_of_initial hinitial (by omega)])
    case full hfull hc =>
      have hlength := hfull.length
      have hbounded := hfull.bounded
      dsimp only
      rw [← drop_take_of_initial hinitial (by omega)]
      refine .continues (by omega) (by omega) (fun hpos => ?_)
        (by rwa [take_of_initial hinitial (by omega)])
      rw [take_of_initial hinitial (by omega)]
      exact hfull.digest hpos

end Calls

section Runs

variable [Codec]

-- One call after the other, from the cursor that the last one has returned, until one has drained the
-- history.
def follow (cursor : String) : List (List Answer) → Except Failure (List Changes)
  | []              => .ok []
  | answers :: rest => do
    let changes ← historyChanges cursor answers
    if changes.drained then
      return [changes]
    else do
      let more ← follow changes.cursor rest
      return changes :: more

-- The cursor of a caller to whom the ids `ds` have been delivered.
def Resumes (start : String) (ds : List String) (cursor : String) : Prop :=
  ∃ digest, decodeHistoryCursor cursor = .ok ⟨start, ds.length, digest⟩ ∧
    (0 < ds.length → digest = some (Codec.historyPrefixDigest ds))

variable {start cursor : String} {ds : List String} {h : Records} {hs : List Records}
  {answers : List Answer} {r : Changes}

theorem Plain.resumes (hp : Plain start) : Resumes start [] start :=
  ⟨none, hp.decode, by simp⟩

-- What a call returns that goes on where the ids `ds` have been delivered.
structure Continues (start : String) (ds us : List String) (r : Changes) : Prop where
  delivered : ds ++ r.messageIds <+: us
  drained   : r.drained ↔ ds ++ r.messageIds = us
  plain     : r.drained → Plain r.cursor
  bounded   : r.messageIds.length ≤ maxIncrementalMessageIds
  full      : r.drained = false → r.messageIds.length = maxIncrementalMessageIds
  cursor    : r.drained = false →
    decodeHistoryCursor r.cursor = .ok ⟨start, (ds ++ r.messageIds).length,
      some (Codec.historyPrefixDigest (ds ++ r.messageIds))⟩

theorem historyChanges_continues (hp : Plain start) (hc : Resumes start ds cursor)
    (hs : Shows h answers) (hd : ds <+: firsts h.ids) (hr : historyChanges cursor answers = .ok r) :
    Continues start ds (firsts h.ids) r := by
  obtain ⟨digest, hdecode, -⟩ := hc
  have hends := historyChanges_ends hdecode hp hs
  obtain ⟨ws, hws⟩ := hd
  rw [hr, ← hws] at hends
  rw [← hws]
  cases hends
  case continues hmore _ _ hcur =>
    dsimp only at hmore hcur ⊢
    rw [List.length_append] at hmore
    rw [List.take_length_add_append] at hcur
    rw [List.drop_left]
    have hlength : (ws.take maxIncrementalMessageIds).length = maxIncrementalMessageIds := by
      rw [List.length_take]
      omega
    have hmore : ds ++ ws.take maxIncrementalMessageIds ≠ ds ++ ws := by
      intro he
      have := congrArg List.length (List.append_cancel_left he)
      omega
    exact ⟨(List.prefix_append_right_inj ds).mpr (List.take_prefix _ _), iff_of_false (by simp) hmore, by simp,
      hlength.le, fun _ => hlength, fun _ => decode_historyContinuationCursor hp.left hcur⟩
  case drains _ hbatch _ _ hplain =>
    dsimp only at hbatch ⊢
    rw [List.length_append] at hbatch
    rw [List.drop_left]
    exact ⟨List.prefix_rfl, iff_of_true rfl rfl, fun _ => hplain, Nat.add_le_add_iff_left.mp hbatch, by simp,
      by simp⟩

-- Why a call fails that is shown a history with the distinct ids `us`, although nothing of what has been
-- delivered has been taken back.
inductive Fails (start : String) (us : List String) : Failure → Prop
  | exceeds {text : String} (h : maxHistoryContinuationOffset < us.length) : Fails start us (.stale text)
  | unfit {e : Failure} (batches : Nat) (bounded : us.length ≤ maxHistoryContinuationOffset)
      (more : maxIncrementalMessageIds * (batches + 1) < us.length)
      (he : historyContinuationCursor start (us.take (maxIncrementalMessageIds * (batches + 1))) = .error e) :
      Fails start us e

theorem historyChanges_error {e : Failure} {batches : Nat} (hp : Plain start) (hc : Resumes start ds cursor)
    (hs : Shows h answers) (hd : ds <+: firsts h.ids) (hb : ds.length = maxIncrementalMessageIds * batches)
    (hr : historyChanges cursor answers = .error e) : Fails start (firsts h.ids) e := by
  obtain ⟨digest, hdecode, hdigest⟩ := hc
  have hends := historyChanges_ends hdecode hp hs
  rw [hr] at hends
  cases hends
  case exceeds hmany _ => exact .exceeds hmany
  case changed hpos hdiffers =>
    refine absurd ?_ (hdiffers hd.length_le)
    rw [hdigest hpos, take_of_initial hd le_rfl, List.take_length]
  case unfit hmore hc =>
    rcases Nat.lt_or_ge maxHistoryContinuationOffset (firsts h.ids).length with hmany | hbounded
    · exact .exceeds hmany
    · rw [hb, ← Nat.mul_succ] at hmore hc
      exact .unfit batches hbounded hmore hc

-- A call that finds other ids than those that have been delivered, or too many, says so.
theorem historyChanges_stale (hp : Plain start) (hc : Resumes start ds cursor) (hs : Shows h answers)
    (hi : Set.InjOn Codec.historyPrefixDigest {ds, (firsts h.ids).take ds.length})
    (hbad : ¬ds <+: firsts h.ids ∨ maxHistoryContinuationOffset < (firsts h.ids).length ∧
      maxHistoryContinuationOffset ≤ ds.length + maxIncrementalMessageIds) :
    ∃ text, historyChanges cursor answers = .error (.stale text) := by
  obtain ⟨digest, hdecode, hdigest⟩ := hc
  have hends := historyChanges_ends hdecode hp hs
  have hinitial (h' : 0 < ds.length →
      some (Codec.historyPrefixDigest ((firsts h.ids).take ds.length)) = digest) : ds <+: firsts h.ids := by
    rcases Nat.eq_zero_or_pos ds.length with h₀ | h₀
    · rw [List.length_eq_zero_iff.mp h₀]
      exact List.nil_prefix
    · have he := Option.some.inj ((h' h₀).trans (hdigest h₀))
      rw [← hi (by simp) (by simp) he]
      exact List.take_prefix _ _
  generalize historyChanges cursor answers = r at hends ⊢
  cases hends
  case continues hmore hbounded hdig _ =>
    obtain hbad | ⟨-, hbad⟩ := hbad
    · exact absurd (hinitial hdig) hbad
    · exact absurd hbad (Nat.not_le.mpr hbounded)
  case drains hbounded hdig _ =>
    obtain hbad | ⟨hbad, -⟩ := hbad
    · exact absurd (hinitial hdig) hbad
    · exact absurd hbad (Nat.not_lt.mpr hbounded)
  all_goals exact ⟨_, rfl⟩

theorem Continues.resumes {us : List String} (hc : Continues start ds us r) (hd : r.drained = false) :
    Resumes start (ds ++ r.messageIds) r.cursor :=
  ⟨_, hc.cursor hd, fun _ => rfl⟩

-- What has been returned by calls that went on where the ids `ds` had been delivered, each of which has
-- seen the next one of the histories `hs`.
structure Delivers (start : String) (ds : List String) (hs : List Records) (rs : List Changes) :
    Prop where
  -- each call adds to the distinct ids of the history that it has seen, until they are whole
  delivered : ∀ k r h, rs[k]? = some r → hs[k]? = some h →
    let delivered := ds ++ (rs.take (k + 1)).flatMap (·.messageIds)
    delivered <+: firsts h.ids ∧ (r.drained ↔ delivered = firsts h.ids)
  length    : rs.length ≤ hs.length
  ends      : rs.length < hs.length → ∃ r, rs.getLast? = some r ∧ r.drained
  -- the distinct ids of the history that the last call has seen
  whole     : ∀ r h, rs.getLast? = some r → r.drained → hs[rs.length - 1]? = some h →
    ds ++ rs.flatMap (·.messageIds) = firsts h.ids
  nodup     : (ds ++ rs.flatMap (·.messageIds)).Nodup
  bounded   : ∀ r ∈ rs, r.messageIds.length ≤ maxIncrementalMessageIds
  full      : ∀ r ∈ rs, r.drained = false → r.messageIds.length = maxIncrementalMessageIds
  final     : ∀ r ∈ rs.dropLast, r.drained = false
  -- every cursor is accepted, and says what has been delivered
  plain     : ∀ r ∈ rs, r.drained → decodeHistoryCursor r.cursor = .ok ⟨r.cursor, 0, none⟩
  continued : ∀ k r, rs[k]? = some r → r.drained = false →
    let delivered := ds ++ (rs.take (k + 1)).flatMap (·.messageIds)
    decodeHistoryCursor r.cursor =
      .ok ⟨start, delivered.length, some (Codec.historyPrefixDigest delivered)⟩

theorem Delivers.none (hd : ds.Nodup) : Delivers start ds [] [] :=
  ⟨by simp, le_rfl, by simp, by simp, by simpa using hd, by simp, by simp, by simp, by simp, by simp⟩

theorem Delivers.last (hc : Continues start ds (firsts h.ids) r) (hr : r.drained) :
    Delivers start ds (h :: hs) [r] where
  delivered := by
    intro k r' h' hr' hh'
    obtain ⟨rfl, rfl⟩ : k = 0 ∧ r = r' := by
      cases k <;> simp_all
    obtain rfl : h = h' := by simpa using hh'
    simpa using ⟨hc.delivered, hc.drained⟩
  length    := by simp
  ends _    := ⟨r, rfl, hr⟩
  whole     := by
    intro r' h' hr' _ hh'
    obtain rfl : r = r' := by simpa using hr'
    obtain rfl : h = h' := by simpa using hh'
    simpa using hc.drained.mp hr
  nodup     := by simpa using hc.delivered.sublist.nodup nodup_firsts
  bounded   := by simpa using hc.bounded
  full      := by simpa using hc.full
  final     := by simp
  plain     := by simpa using fun _ => (hc.plain hr).decode
  continued := by
    intro k r' hr' hd
    obtain ⟨rfl, rfl⟩ : k = 0 ∧ r = r' := by
      cases k <;> simp_all
    simp [hr] at hd

theorem Delivers.cons {rs : List Changes} (hc : Continues start ds (firsts h.ids) r)
    (hr : r.drained = false) (hs' : Delivers start (ds ++ r.messageIds) hs rs) :
    Delivers start ds (h :: hs) (r :: rs) where
  delivered := by
    intro k r' h' hr' hh'
    cases k
    case zero   =>
      obtain rfl : r = r' := by simpa using hr'
      obtain rfl : h = h' := by simpa using hh'
      simpa using ⟨hc.delivered, hc.drained⟩
    case succ k =>
      have := hs'.delivered k r' h' (by simpa using hr') (by simpa using hh')
      simpa using this
  length    := Nat.succ_le_succ hs'.length
  ends hlt  := by
    obtain ⟨r', hr', hdrained⟩ := hs'.ends (Nat.lt_of_succ_lt_succ hlt)
    exact ⟨r', by simp [List.getLast?_cons, hr'], hdrained⟩
  whole     := by
    intro r' h' hr' hd hh'
    obtain _ | ⟨r₂, rs⟩ := rs
    · obtain rfl : r = r' := by simpa using hr'
      simp [hr] at hd
    · rw [List.flatMap_cons, ← List.append_assoc]
      exact hs'.whole r' h' (by simpa using hr') hd (by simpa using hh')
  nodup     := by simpa using hs'.nodup
  bounded   := by simpa using ⟨hc.bounded, hs'.bounded⟩
  full      := by simpa using ⟨hc.full, hs'.full⟩
  final     := by
    obtain _ | ⟨r₂, rs⟩ := rs
    · simp
    · simpa using ⟨hr, hs'.final⟩
  plain     := by simpa [hr] using hs'.plain
  continued := by
    intro k r' hr' hd
    cases k
    case zero   =>
      obtain rfl : r = r' := by simpa using hr'
      simpa using hc.cursor hr
    case succ k =>
      have := hs'.continued k r' (by simpa using hr') hd
      simpa using this

omit [Codec] in
-- What has been delivered from a history is there in whatever it grows to.
theorem delivered_of_grown {us : List String} {h' : Records} (hu : us <+: firsts h.ids) (hg : h <+: h') :
    us <+: firsts h'.ids := by
  obtain ⟨more, rfl⟩ := hg
  refine hu.trans (firsts_mono ?_)
  rw [Records.ids, Records.ids, List.flatMap_append]
  exact List.prefix_append _ _

theorem follow_delivers {as : List (List Answer)} {rs : List Changes} (hp : Plain start)
    (hc : Resumes start ds cursor) (hs' : List.Forall₂ Shows hs as) (hg : hs.Pairwise (· <+: ·))
    (hd : ∀ h ∈ hs.head?, ds <+: firsts h.ids) (hn : ds.Nodup) (hr : follow cursor as = .ok rs) :
    Delivers start ds hs rs := by
  induction hs' generalizing ds cursor rs
  case nil =>
    obtain rfl := Except.ok.inj hr
    exact .none hn
  case cons h answers hs as hshows hrest ih =>
    have hd : ds <+: firsts h.ids := hd h (by simp)
    cases hcall : historyChanges cursor answers
    case error e =>
      simp [follow, hcall, Bind.bind, Except.bind] at hr
    case ok r =>
      have hcont := historyChanges_continues hp hc hshows hd hcall
      simp only [follow, hcall, Bind.bind, Except.bind] at hr
      split at hr
      case isTrue hdrained =>
        obtain rfl := Except.ok.inj hr
        exact .last hcont hdrained
      case isFalse hmore =>
        rw [Bool.not_eq_true] at hmore
        rw [List.pairwise_cons] at hg
        cases hfollow : follow r.cursor as
        case error e =>
          simp [hfollow] at hr
        case ok rs' =>
          rw [hfollow] at hr
          obtain rfl := Except.ok.inj hr
          refine .cons hcont hmore (ih (hcont.resumes hmore) hg.right (fun h' hh' => ?_) ?_ hfollow)
          · exact delivered_of_grown hcont.delivered (hg.left h' (List.mem_of_mem_head? hh'))
          · exact hcont.delivered.sublist.nodup nodup_firsts

theorem follow_error {as : List (List Answer)} {e : Failure} (hp : Plain start)
    (hc : Resumes start ds cursor) (hs' : List.Forall₂ Shows hs as) (hg : hs.Pairwise (· <+: ·))
    (hd : ∀ h ∈ hs.head?, ds <+: firsts h.ids) {batches : Nat}
    (hb : ds.length = maxIncrementalMessageIds * batches) (hr : follow cursor as = .error e) :
    ∃ h ∈ hs, Fails start (firsts h.ids) e := by
  induction hs' generalizing ds cursor batches
  case nil => cases hr
  case cons h answers hs as hshows hrest ih =>
    have hd : ds <+: firsts h.ids := hd h (by simp)
    cases hcall : historyChanges cursor answers
    case error e' =>
      simp only [follow, hcall, Bind.bind, Except.bind] at hr
      obtain rfl := Except.error.inj hr
      exact ⟨h, by simp, historyChanges_error hp hc hshows hd hb hcall⟩
    case ok r =>
      have hcont := historyChanges_continues hp hc hshows hd hcall
      simp only [follow, hcall, Bind.bind, Except.bind] at hr
      split at hr
      case isTrue hdrained => cases hr
      case isFalse hmore   =>
        rw [Bool.not_eq_true] at hmore
        rw [List.pairwise_cons] at hg
        cases hfollow : follow r.cursor as
        case ok rs' =>
          rw [hfollow] at hr
          cases hr
        case error e' =>
          rw [hfollow] at hr
          obtain rfl := Except.error.inj hr
          have hnext : (ds ++ r.messageIds).length = maxIncrementalMessageIds * (batches + 1) := by
            rw [List.length_append, hb, hcont.full hmore, Nat.mul_succ]
          obtain ⟨h', hmem, hfails⟩ := ih (hcont.resumes hmore) hg.right
            (fun h' hh' => delivered_of_grown hcont.delivered (hg.left h' (List.mem_of_mem_head? hh'))) hnext hfollow
          exact ⟨h', by simp [hmem], hfails⟩

-- The calls that follow one another from a plain cursor return the distinct ids of the history that the
-- last of them sees. They fail only on too many ids, or for want of room in a cursor. And a call fails
-- that finds other ids than those that have been delivered.
theorem batches_exact {as : List (List Answer)} (hp : Plain start)
    (hs' : List.Forall₂ Shows hs as) (hg : hs.Pairwise (· <+: ·)) :
    (∀ rs, follow start as = .ok rs → Delivers start [] hs rs) ∧
    (∀ e, follow start as = .error e → ∃ h ∈ hs, Fails start (firsts h.ids) e) ∧
    ∀ ds cursor h answers, Resumes start ds cursor → Shows h answers →
      Set.InjOn Codec.historyPrefixDigest {ds, (firsts h.ids).take ds.length} →
      (¬ds <+: firsts h.ids ∨ maxHistoryContinuationOffset < (firsts h.ids).length ∧
        maxHistoryContinuationOffset ≤ ds.length + maxIncrementalMessageIds) →
      ∃ text, historyChanges cursor answers = .error (.stale text) :=
  ⟨fun _ hr => follow_delivers hp hp.resumes hs' hg (fun _ _ => List.nil_prefix) .nil hr,
    fun _ hr => follow_error hp hp.resumes hs' hg (fun _ _ => List.nil_prefix) (Nat.mul_zero _).symm hr,
    fun _ _ _ _ hc hs hi hbad => historyChanges_stale hp hc hs hi hbad⟩

end Runs

namespace Sample

def hexDigit (n : Nat) : Char :=
  if n < 10 then Char.ofNat (48 + n) else Char.ofNat (87 + n)

-- The ids as one large number, of which the last 64 digits are kept.
def number (ids : List String) : Nat :=
  ids.foldl (fun n id => id.toList.foldl (fun n c => n * 2 ^ 21 + c.toNat) (n * 2 ^ 21 + 1)) 0

def digest (ids : List String) : String :=
  String.ofList <| (List.range 64).map fun i => hexDigit (number ids / 16 ^ i % 16)

-- A number as so many strokes and a full stop, and a text as it is, after its length.
def strokes (n : Nat) : List Char :=
  List.replicate n '1' ++ ['.']

def dumps : Value → String
  | .dict [(_, .str digest), (_, .int offset), (_, .str startHistoryId)] =>
    String.ofList <|
      strokes digest.toList.length ++ digest.toList ++ strokes offset.toNat ++ startHistoryId.toList
  | _ => ""

def loads (text : String) : Option Value :=
  let length := text.toList.takeWhile (· = '1') |>.length
  let rest := text.toList.drop (length + 1)
  let tail := rest.drop length
  let offset := tail.takeWhile (· = '1') |>.length
  some <| cursorPayload (String.ofList (tail.drop (offset + 1))) offset (String.ofList (rest.take length))

theorem takeWhile_strokes {n : Nat} {rest : List Char} :
    (strokes n ++ rest).takeWhile (· = '1') = List.replicate n '1' := by
  rw [strokes, List.append_assoc, List.takeWhile_append_of_pos (by simp)]
  simp

theorem drop_strokes {n : Nat} {rest : List Char} : (strokes n ++ rest).drop (n + 1) = rest :=
  List.drop_left' (by simp [strokes])

instance codec : Codec where
  historyPrefixDigest            := digest
  historyPrefixDigest_length ids := by simp [digest]
  historyPrefixDigest_hex ids    := by
    have hhex : ∀ n < 16, isLowerHex (hexDigit n) := by decide
    simp only [digest, String.toList_ofList, List.all_map, List.all_eq_true, Function.comp]
    exact fun i _ => hhex _ (Nat.mod_lt _ (by decide))
  dumps                          := dumps
  loads                          := loads
  loads_dumps startHistoryId offset digest := by
    simp only [dumps, loads, cursorPayload, String.toList_ofList, Int.toNat_natCast, List.append_assoc,
      takeWhile_strokes, List.length_replicate, drop_strokes, List.drop_left', List.take_left',
      String.ofList_toList]

def record (id : String) : Event where
  messagesAdded := .valid [⟨some ⟨some id, none⟩, none⟩]
  labelsAdded   := .absent

def page (ids : List String) : Answer :=
  .response ⟨.valid "20", .valid (ids.map fun id => some (record id)), .absent⟩

theorem shows_page {ids : List String} (h : ∀ id ∈ ids, (boundedText (some id) maxGmailLabelIdBytes).isSome) :
    Shows (ids.map record) [page ids] := by
  refine .last ⟨.inr ⟨"20", rfl, by decide, by decide⟩, by simp, ?_, ?_⟩ rfl []
  · simp [Field.items, Function.comp_def]
  · simp only [List.mem_map, forall_exists_index, and_imp, forall_apply_eq_imp_iff₂]
    intro id hid
    refine ⟨by simp [record], by simp [record], ?_⟩
    simpa [record, Event.additions, Field.items, Added.id] using h id hid

theorem ids_records (ids : List String) : Records.ids (ids.map record) = ids := by
  induction ids
  case nil             => rfl
  case cons id ids ih =>
    rw [List.map_cons, Records.ids, List.flatMap_cons, ← Records.ids, ih]
    rfl

-- One more message than a batch has room for.
def letters : List String :=
  (List.range 201).map fun n => String.singleton (Char.ofNat (0x4e00 + n))

theorem letter_toNat {n : Nat} (hn : n < 201) : (Char.ofNat (0x4e00 + n)).toNat = 0x4e00 + n := by
  rw [Char.ofNat, dif_pos (.inl (by omega))]
  rfl

theorem letters_nodup : letters.Nodup := by
  refine List.Nodup.map_on (fun m hm n hn h => ?_) List.nodup_range
  have hchar : Char.ofNat (0x4e00 + m) = Char.ofNat (0x4e00 + n) := by simpa using congrArg String.toList h
  have hnat := congrArg Char.toNat hchar
  rw [letter_toNat (List.mem_range.mp hm), letter_toNat (List.mem_range.mp hn)] at hnat
  omega

theorem letters_bounded : ∀ id ∈ letters, (boundedText (some id) maxGmailLabelIdBytes).isSome := by
  intro id hid
  obtain ⟨n, hn, rfl⟩ := List.mem_map.mp hid
  have hcode := letter_toNat (List.mem_range.mp hn)
  have hsize := (Char.ofNat (0x4e00 + n)).utf8Size_le_four
  generalize Char.ofNat (0x4e00 + n) = c at hcode hsize
  simp only [boundedText, containsControl, withinUtf8Bytes, maxGmailLabelIdBytes, Option.filter]
  simp [hcode]
  omega

theorem utf8ByteSize_ofList_le (l : List Char) : (String.ofList l).utf8ByteSize ≤ 4 * l.length := by
  induction l
  case nil         => rfl
  case cons c l ih =>
    rw [← List.singleton_append, String.ofList_append, String.utf8ByteSize_append, List.length_append]
    have hc : (String.ofList [c]).utf8ByteSize ≤ 4 :=
      (String.utf8ByteSize_singleton (c := c)).trans_le c.utf8Size_le_four
    simp only [List.length_singleton]
    omega

theorem dumps_cursorPayload (startHistoryId : String) (offset : Nat) (digest : String) :
    Codec.dumps (cursorPayload startHistoryId offset digest) = String.ofList
      (strokes digest.toList.length ++ digest.toList ++ strokes offset ++ startHistoryId.toList) :=
  rfl

-- A cursor has room for a batch.
theorem fits {ids : List String} (h : ids.length ≤ maxIncrementalMessageIds) :
    ∃ cursor, historyContinuationCursor "12" ids = .ok cursor := by
  rw [maxIncrementalMessageIds] at h
  have hbounded : ¬ids.length > maxHistoryContinuationOffset := by
    rw [maxHistoryContinuationOffset]
    omega
  have hsize : (Codec.dumps (cursorPayload "12" ids.length (Codec.historyPrefixDigest ids))).utf8ByteSize ≤
      4 * (65 + 64 + 201 + 2) := by
    rw [dumps_cursorPayload]
    refine (utf8ByteSize_ofList_le _).trans (Nat.mul_le_mul_left 4 ?_)
    have hstart : "12".toList.length = 2 := by decide
    simp only [strokes, List.length_append, List.length_replicate, List.length_singleton, hstart,
      Codec.historyPrefixDigest_length]
    omega
  have hpre : historyContinuationPrefix.utf8ByteSize = 21 := by decide
  rw [historyContinuationCursor, if_neg hbounded, if_neg]
  · exact ⟨_, rfl⟩
  · simp only [withinUtf8Bytes, String.utf8ByteSize_append, hpre, maxHistoryContinuationBytes, Bool.not_eq_true',
      decide_eq_false_iff_not, not_not]
    omega

-- The histories that two calls see, and their answers.
def histories : List Records :=
  [letters.map record, (letters ++ ["b"]).map record]

def calls : List (List Answer) :=
  [[page letters], [page (letters ++ ["b"])]]

theorem grown_nodup : (letters ++ ["b"]).Nodup := by
  refine List.nodup_append.mpr ⟨letters_nodup, List.nodup_singleton _, fun id hid b hb he => ?_⟩
  obtain rfl := List.mem_singleton.mp hb
  have hmem : "b" ∉ letters := by decide +kernel
  exact hmem (he ▸ hid)

theorem letters_length : letters.length = 201 := by
  rw [letters, List.length_map, List.length_range]

theorem firsts_letters : firsts (Records.ids (letters.map record)) = letters := by
  rw [ids_records, firsts_of_nodup letters_nodup]

theorem firsts_grown : firsts (Records.ids ((letters ++ ["b"]).map record)) = letters ++ ["b"] := by
  rw [ids_records, firsts_of_nodup grown_nodup]

theorem length_firsts_histories {h : Records} (hmem : h ∈ histories) : (firsts h.ids).length ≤ 202 := by
  obtain rfl | hmem := List.mem_cons.mp hmem
  · rw [firsts_letters, letters_length]
    omega
  · rw [List.mem_singleton.mp hmem, firsts_grown, List.length_append, letters_length, List.length_singleton]

-- Two batches are not too many, and there is a cursor behind the first.
theorem not_fails {ids : List String} {e : Failure} (h : ids.length ≤ 202) : ¬Fails "12" ids e := by
  intro hfail
  cases hfail
  case exceeds hmany =>
    rw [maxHistoryContinuationOffset] at hmany
    omega
  case unfit batches _ hmore he =>
    obtain rfl : batches = 0 := by
      rw [maxIncrementalMessageIds] at hmore
      omega
    obtain ⟨cursor, hcursor⟩ := fits (List.length_take_le maxIncrementalMessageIds ids)
    cases he.symm.trans hcursor

-- The first call cannot deliver all that there is, and the second delivers the rest of it.
theorem delivered_grown {rs : List Changes} (h : Delivers "12" [] histories rs) :
    rs.map (·.drained) = [false, true] ∧ rs.flatMap (·.messageIds) = letters ++ ["b"] := by
  obtain _ | ⟨r₁, _ | ⟨r₂, rest⟩⟩ := rs
  · obtain ⟨r, hlast, -⟩ := h.ends (by decide)
    cases hlast
  · exfalso
    obtain ⟨r, hlast, hdrained⟩ := h.ends (Nat.lt_succ_self 1)
    obtain rfl : r₁ = r := Option.some.inj hlast
    have hall := (h.delivered 0 r₁ _ rfl rfl).right.mp hdrained
    have hle := h.bounded r₁ List.mem_cons_self
    simp only [firsts_letters, List.nil_append, List.take_succ_cons, List.take_zero, List.flatMap_cons,
      List.flatMap_nil, List.append_nil] at hall
    rw [hall, letters_length] at hle
    exact absurd hle (by decide)
  · obtain rfl : rest = [] := by
      have hle := h.length
      simpa [histories] using hle
    have hfirst : r₁.drained = false := h.final r₁ List.mem_cons_self
    obtain ⟨hpre, hdrained⟩ := h.delivered 1 r₂ _ rfl rfl
    simp only [firsts_grown, List.nil_append, List.take_succ_cons, List.take_zero, List.flatMap_cons,
      List.flatMap_nil, List.append_nil] at hpre hdrained
    have hsecond : r₂.drained = true := by
      by_contra hnot
      have hle := hpre.length_le
      rw [List.length_append, h.full r₁ List.mem_cons_self hfirst, h.full r₂ (by simp) (Bool.not_eq_true _ ▸ hnot),
        List.length_append, letters_length] at hle
      exact absurd hle (by decide)
    refine ⟨by simp [hfirst, hsecond], ?_⟩
    simpa using hdrained.mp hsecond

end Sample

open Sample in
-- A message that is added between two calls comes with the second batch.
theorem batches_exact_grown :
    ∃ rs, follow "12" calls = .ok rs ∧ rs.map (·.drained) = [false, true] ∧
      rs.flatMap (·.messageIds) = letters ++ ["b"] := by
  have hshows : ∀ id ∈ letters ++ ["b"], (boundedText (some id) maxGmailLabelIdBytes).isSome := by
    refine List.forall_mem_append.mpr ⟨letters_bounded, ?_⟩
    decide
  have hexact : (∀ rs, follow "12" calls = .ok rs → Delivers "12" [] histories rs) ∧
      (∀ e, follow "12" calls = .error e → ∃ h ∈ histories, Fails "12" (firsts (Records.ids h)) e) ∧ _ :=
    batches_exact ⟨by decide, by decide⟩ (.cons (shows_page letters_bounded) (.cons (shows_page hshows) .nil))
      (by simp [histories, List.prefix_append])
  obtain ⟨hdelivers, hfails, -⟩ := hexact
  cases hr : follow "12" calls
  case error e =>
    obtain ⟨h, hmem, hfail⟩ := hfails e hr
    exact absurd hfail (not_fails (length_firsts_histories hmem))
  case ok rs   => exact ⟨rs, rfl, delivered_grown (hdelivers rs hr)⟩

end Gmail.History
