import EmailWatcher.Imap.Folder
import EmailWatcher.Library.Machine

-- Incremental polling: each call lists what has arrived since the cursor that it is given.
namespace Imap

section Incremental

def invalidCursor : Failure :=
  .imapError "imap_cursor_invalid" "Saved mail server cursor is invalid"

-- `_decode_cursor`
def decodeCursor : Cursor → Except Failure (String × Nat × Nat)
  | .incremental mailboxId none uidValidity lastUid =>
    if uidValidity = 0 then .error invalidCursor else .ok (mailboxId, uidValidity, lastUid)
  | _ => .error invalidCursor

-- `_decode_sent_cursor`
def decodeSentCursor : Cursor → Except Failure (String × String × Nat × Nat)
  | .incremental mailboxId (some folderKey) uidValidity lastUid =>
    if uidValidity = 0 then .error invalidCursor else .ok (mailboxId, folderKey, uidValidity, lastUid)
  | _ => .error invalidCursor

-- `initial_cursor`
def initialCursor (mailboxId : String) (s : Session) : Except Failure Cursor := do
  let (uidValidity, lastUid) ← snapshot s
  return .incremental mailboxId none uidValidity lastUid

-- `sent_initial_cursor`
def sentInitialCursor (mailboxId : String) (s : Session) : Except Failure Cursor := do
  let (_, folderKey) ← requireSentFolder s
  let (uidValidity, lastUid) ← snapshot s
  return .incremental mailboxId (some folderKey) uidValidity lastUid

-- The part of `_incremental_changes` that works on the selected folder
def readChanges (mailboxId folder : String) (folderKey : Option String) (s : Session)
    (savedValidity savedUid : Nat) : Except Failure MailboxChanges := do
  let (currentValidity, snapshotUid) ← snapshot s
  if currentValidity ≠ savedValidity then
    .error <| .stale s!"The mail server reset its {folder} message identifiers"
  else if snapshotUid ≤ savedUid then
    return { messageIds := [], cursor := .incremental mailboxId folderKey currentValidity snapshotUid }
  else
    let firstSequence ← firstSequenceAfterUid s s.messageCount savedUid
    if firstSequence > s.messageCount then
      return { messageIds := [], cursor := .incremental mailboxId folderKey currentValidity snapshotUid }
    else
      let lastSequence := min s.messageCount (firstSequence + maxIncrementalMessageIds - 1)
      let candidates ← fetchSequenceUids s (List.range' firstSequence (lastSequence + 1 - firstSequence))
      if candidates.any fun uid => uid ≤ savedUid || uid > snapshotUid then
        .error <| .imapError "imap_protocol_error" "Mail server UID page was invalid"
      else
        let nextUid := if lastSequence = s.messageCount then snapshotUid else candidates.getLastD 0
        return {
          messageIds := candidates.map (⟨mailboxId, folderKey, currentValidity, ·⟩)
          cursor     := .incremental mailboxId folderKey currentValidity nextUid
          drained    := lastSequence = s.messageCount
        }

-- `_incremental_changes`
def incrementalChanges (mailboxId : String) (s : Session) (cursor : Cursor) (sent : Bool) :
    Except Failure MailboxChanges :=
  if sent then do
    let (savedMailbox, savedFolderKey, savedValidity, savedUid) ← decodeSentCursor cursor
    if savedMailbox ≠ mailboxId then
      .error <| .stale "The configured mail server mailbox changed"
    else
      let (folder, folderKey) ← requireSentFolder s
      if savedFolderKey ≠ folderKey then
        .error <| .stale "The mail server Sent folder changed"
      else
        readChanges mailboxId folder (some folderKey) s savedValidity savedUid
  else do
    let (savedMailbox, savedValidity, savedUid) ← decodeCursor cursor
    if savedMailbox ≠ mailboxId then
      .error <| .stale "The configured mail server mailbox changed"
    else
      readChanges mailboxId "INBOX" none s savedValidity savedUid

end Incremental

section Page

variable {mailboxId folder : String} {folderKey : Option String} {s : Session} {saved snap : Nat}

-- What there is above a bound.
def Folder.above (f : Folder) (bound : Nat) : List Nat :=
  f.uids.filter (bound < ·)

theorem Folder.upTo_add_above {f : Folder} : f.upTo saved + (f.above saved).length = f.messages.length := by
  rw [upTo, above, ← List.length_append, ← Ascending.split f.uids_ascending, length_uids]

theorem Folder.mem_above {f : Folder} {uid : Nat} : uid ∈ f.above saved ↔ uid ∈ f.uids ∧ saved < uid := by
  simp [above]

-- The page of a call, and the number that it leaves in the cursor.
structure Page (s : Session) (saved : Nat) (uids : List Nat) (next : Nat) (drained : Bool) : Prop where
  listed   : uids = (s.folder.above saved).take maxIncrementalMessageIds
  isLast   : drained = decide ((s.folder.above saved).length ≤ maxIncrementalMessageIds)
  assigned : next < s.folder.uidNext
  covers   : ∀ u ∈ s.folder.uids, u ≤ next ↔ u ≤ saved ∨ u ∈ uids

theorem Page.mem {uids : List Nat} {next u : Nat} {drained : Bool} (hp : Page s saved uids next drained)
    (hu : u ∈ uids) : u ∈ s.folder.uids ∧ saved < u := by
  rw [hp.listed] at hu
  exact Folder.mem_above.mp (List.mem_of_mem_take hu)

theorem Page.ascending {uids : List Nat} {next : Nat} {drained : Bool}
    (hp : Page s saved uids next drained) : uids.Pairwise (· < ·) := by
  rw [hp.listed]
  exact (s.folder.uids_ascending.filter _).take

theorem Page.nodup {uids : List Nat} {next : Nat} {drained : Bool}
    (hp : Page s saved uids next drained) : uids.Nodup :=
  hp.ascending.imp Nat.ne_of_lt

theorem Page.none (h : s.folder.above saved = []) (hn : snap < s.folder.uidNext)
    (hmax : ∀ u ∈ s.folder.uids, u ≤ snap) : Page s saved [] snap true where
  listed   := by simp [h]
  isLast   := by simp [h]
  assigned := hn
  covers u hu := by
    have hle : u ≤ saved := by
      by_contra hlt
      have : u ∈ s.folder.above saved := Folder.mem_above.mpr ⟨hu, Nat.lt_of_not_le hlt⟩
      simp [h] at this
    simp [hle, hmax u hu]

theorem Page.last (h : (s.folder.above saved).length ≤ maxIncrementalMessageIds)
    (hn : snap < s.folder.uidNext) (hmax : ∀ u ∈ s.folder.uids, u ≤ snap) :
    Page s saved (s.folder.above saved) snap true where
  listed   := (List.take_of_length_le h).symm
  isLast   := by simp [h]
  assigned := hn
  covers u hu := by
    have := hmax u hu
    rw [Folder.mem_above]
    simp only [this, hu, true_and, true_iff]
    omega

theorem Page.more (h : maxIncrementalMessageIds < (s.folder.above saved).length) :
    Page s saved ((s.folder.above saved).take maxIncrementalMessageIds)
      (((s.folder.above saved).take maxIncrementalMessageIds).getLastD 0) false := by
  have hascending : (s.folder.above saved).Pairwise (· < ·) := s.folder.uids_ascending.filter _
  have hlast (u : Nat) (hu : u ∈ s.folder.above saved) :=
    Ascending.le_getLastD_take_iff hascending (by decide) h.le hu
  have hmem : ((s.folder.above saved).take maxIncrementalMessageIds).getLastD 0 ∈
      s.folder.above saved := by
    rw [Ascending.getLastD_take (by decide) h.le]
    exact List.getElem_mem _
  have hnext := Folder.mem_above.mp hmem
  refine ⟨rfl, by simp [h], (Folder.uids_assigned hnext.left).right, fun u hu => ?_⟩
  rcases Nat.lt_or_ge saved u with hlt | hle
  · rw [hlast u (Folder.mem_above.mpr ⟨hu, hlt⟩)]
    simp [Nat.not_le.mpr hlt]
  · simp only [hle, true_or, iff_true]
    omega

theorem readChanges_eq (mailboxId folder : String) (folderKey : Option String) (s : Session) (saved : Nat) :
    ∃ uids next drained, Page s saved uids next drained ∧
      readChanges mailboxId folder folderKey s s.folder.uidValidity saved =
        .ok ⟨uids.map (⟨mailboxId, folderKey, s.folder.uidValidity, ·⟩),
          .incremental mailboxId folderKey s.folder.uidValidity next, drained⟩ := by
  obtain ⟨snap, hsnap, hnext, hmax⟩ := snapshot_eq s
  have hcount : s.folder.upTo saved + (s.folder.above saved).length = s.messageCount :=
    Folder.upTo_add_above
  rw [readChanges, hsnap, firstSequenceAfterUid_eq]
  simp only [Bind.bind, Except.bind, ne_eq, not_true_eq_false, if_false]
  split
  case isTrue hold =>
    refine ⟨[], snap, true, .none ?_ hnext hmax, rfl⟩
    refine List.filter_eq_nil_iff.mpr fun u hu => ?_
    have := hmax u hu
    simp only [decide_eq_true_eq]
    omega
  case isFalse hnew =>
    split
    case isTrue hbeyond =>
      exact ⟨[], snap, true, .none (List.length_eq_zero_iff.mp (by omega)) hnext hmax, rfl⟩
    case isFalse hthere =>
      obtain ⟨n, hn⟩ : ∃ n, min s.messageCount (s.folder.upTo saved + 1 + maxIncrementalMessageIds - 1) + 1 -
        (s.folder.upTo saved + 1) = n := ⟨_, rfl⟩
      have hfetch : fetchSequenceUids s (List.range' (s.folder.upTo saved + 1) n) =
          .ok ((s.folder.above saved).take n) := by
        have hle : s.folder.upTo saved + n ≤ s.folder.messages.length := by
          change _ ≤ s.messageCount
          omega
        rw [fetchSequenceUids_eq List.pairwise_lt_range' ?_, Folder.map_uidAt_range hle, Folder.upTo,
          Ascending.drop_below s.folder.uids_ascending, Folder.above]
        intro i hi
        obtain ⟨k, hk, rfl⟩ := List.mem_range'.mp hi
        change _ ∧ _ ≤ s.folder.messages.length
        omega
      have hvalid : ((s.folder.above saved).take n).any (fun uid => uid ≤ saved || uid > snap) = false := by
        rw [List.any_eq_false]
        intro u hu
        have hu := Folder.mem_above.mp (List.mem_of_mem_take hu)
        have := hmax u hu.left
        simp only [gt_iff_lt, Bool.or_eq_true, decide_eq_true_eq]
        omega
      rw [hn, hfetch]
      simp only [hvalid, Bool.false_eq_true, if_false]
      rcases Nat.lt_or_ge maxIncrementalMessageIds (s.folder.above saved).length with hmore | hlast
      · obtain rfl : n = maxIncrementalMessageIds := by omega
        have hne : min s.messageCount (s.folder.upTo saved + 1 + maxIncrementalMessageIds - 1) ≠
          s.messageCount := by omega
        refine ⟨_, _, _, .more hmore, ?_⟩
        rw [if_neg hne, decide_eq_false hne]
        rfl
      · obtain rfl : n = (s.folder.above saved).length := by omega
        have heq : min s.messageCount (s.folder.upTo saved + 1 + maxIncrementalMessageIds - 1) =
          s.messageCount := by omega
        refine ⟨_, _, _, .last hlast hnext hmax, ?_⟩
        rw [if_pos heq, decide_eq_true heq, List.take_length]
        rfl

end Page

section Watching

-- A folder that is polled, and what has been listed of it.
structure World where
  folder : Folder
  cursor : Cursor
  listed : List Nat

inductive Action
  | arrive  (m : Stored)
  | expunge (p : Stored → Bool)
  | poll    (reportsUidNext : Bool)

def Action.isPoll : Action → Bool
  | .poll _ => true
  | _       => false

-- The folder is the Sent folder, with its name and key, or else the inbox.
variable (mailboxId : String) (sent : Option (String × String))

def session (folder : Folder) (reportsUidNext : Bool) : Session where
  folder         := folder
  reportsUidNext := reportsUidNext
  sentFolder     := sent.elim .missing fun x => .selected x.fst x.snd
  expunged       := false

def World.poll (w : World) (reportsUidNext : Bool) : Except Failure MailboxChanges :=
  incrementalChanges mailboxId (session sent w.folder reportsUidNext) w.cursor sent.isSome

def watching : Machine World Action Unit where
  step w
    | .arrive m            =>
      if h : w.folder.uidNext ≤ m.uid then .ok { w with folder := w.folder.arrive m h } else .error ()
    | .expunge p           => .ok { w with folder := w.folder.expunge p }
    | .poll reportsUidNext =>
      match w.poll mailboxId sent reportsUidNext with
      | .error _    => .error ()
      | .ok changes =>
        .ok { w with cursor := changes.cursor, listed := w.listed ++ changes.messageIds.map (·.uid) }

-- The cursor that polling starts with
def firstCursor (folder : Folder) (reportsUidNext : Bool) : Except Failure Cursor :=
  if sent.isSome then
    sentInitialCursor mailboxId (session sent folder reportsUidNext)
  else
    initialCursor mailboxId (session sent folder reportsUidNext)

-- Of what is there, the cursor has passed what was there at first, and what has been listed.
structure Polled (first saved : Nat) (w : World) : Prop where
  cursor : w.cursor = .incremental mailboxId (sent.map (·.snd)) w.folder.uidValidity saved
  since  : first ≤ w.folder.uidNext
  known  : saved < w.folder.uidNext
  listed : ∀ u ∈ w.listed, first ≤ u ∧ u < w.folder.uidNext
  once   : w.listed.Nodup
  covers : ∀ u ∈ w.folder.uids, u ≤ saved ↔ u < first ∨ u ∈ w.listed

variable {mailboxId sent} {first saved : Nat} {w : World} {reports : Bool}

theorem poll_eq (h : Polled mailboxId sent first saved w) (reports : Bool) :
    ∃ uids next drained, Page (session sent w.folder reports) saved uids next drained ∧
      w.poll mailboxId sent reports = .ok ⟨uids.map (⟨mailboxId, sent.map (·.snd), w.folder.uidValidity, ·⟩),
        .incremental mailboxId (sent.map (·.snd)) w.folder.uidValidity next, drained⟩ := by
  have hvalid : w.folder.uidValidity ≠ 0 := Nat.ne_of_gt w.folder.valid
  rw [World.poll, h.cursor, incrementalChanges]
  obtain _ | ⟨name, key⟩ := sent
  case none =>
    obtain ⟨uids, next, drained, hpage, hr⟩ :=
      readChanges_eq mailboxId "INBOX" none (session none w.folder reports) saved
    refine ⟨uids, next, drained, hpage, Eq.trans ?_ hr⟩
    simp [decodeCursor, hvalid, Bind.bind, Except.bind, session]
  case some =>
    obtain ⟨uids, next, drained, hpage, hr⟩ :=
      readChanges_eq mailboxId name (some key) (session (some (name, key)) w.folder reports) saved
    refine ⟨uids, next, drained, hpage, Eq.trans ?_ hr⟩
    simp [decodeSentCursor, requireSentFolder, hvalid, Bind.bind, Except.bind, session]

theorem Folder.uids_arrive {f : Folder} {m : Stored} (h : f.uidNext ≤ m.uid) :
    (f.arrive m h).uids = f.uids ++ [m.uid] := by
  simp [uids, arrive]

theorem Folder.uids_expunge {f : Folder} {p : Stored → Bool} {u : Nat} (h : u ∈ (f.expunge p).uids) :
    u ∈ f.uids := by
  obtain ⟨m, hm, rfl⟩ := List.mem_map.mp h
  exact List.mem_map_of_mem (List.mem_filter.mp hm).left

theorem Polled.arrive {m : Stored} (h : Polled mailboxId sent first saved w) (hm : w.folder.uidNext ≤ m.uid) :
    Polled mailboxId sent first saved { w with folder := w.folder.arrive m hm } where
  cursor := h.cursor
  since  := (h.since.trans hm).trans (Nat.le_succ _)
  known  := (h.known.trans_le hm).trans (Nat.lt_succ_self _)
  listed u hu := ⟨(h.listed u hu).left, ((h.listed u hu).right.trans_le hm).trans (Nat.lt_succ_self _)⟩
  once   := h.once
  covers u hu := by
    rw [Folder.uids_arrive, List.mem_append, List.mem_singleton] at hu
    obtain hu | rfl := hu
    · exact h.covers u hu
    · have hsince := h.since
      have hknown := h.known
      have hnew : m.uid ∉ w.listed := fun hmem => absurd (h.listed _ hmem).right (Nat.not_lt.mpr hm)
      simp only [hnew, or_false]
      omega

theorem Polled.expunge {p : Stored → Bool} (h : Polled mailboxId sent first saved w) :
    Polled mailboxId sent first saved { w with folder := w.folder.expunge p } :=
  ⟨h.cursor, h.since, h.known, h.listed, h.once, fun u hu => h.covers u (Folder.uids_expunge hu)⟩

theorem Polled.poll {uids : List Nat} {next : Nat} {drained : Bool}
    (h : Polled mailboxId sent first saved w)
    (hp : Page (session sent w.folder reports) saved uids next drained) :
    Polled mailboxId sent first next {
      folder := w.folder
      cursor := .incremental mailboxId (sent.map (·.snd)) w.folder.uidValidity next
      listed := w.listed ++ uids } where
  cursor := rfl
  since  := h.since
  known  := hp.assigned
  listed u hu := by
    obtain hu | hu := List.mem_append.mp hu
    · exact h.listed u hu
    · obtain ⟨hmem, hlt⟩ := hp.mem hu
      refine ⟨?_, (Folder.uids_assigned hmem).right⟩
      have := h.covers u hmem
      omega
  once   := by
    refine List.nodup_append.mpr ⟨h.once, hp.nodup, fun u hu v hv he => ?_⟩
    obtain ⟨hmem, hlt⟩ := hp.mem hv
    have := (h.covers v hmem).mpr (.inr (he ▸ hu))
    omega
  covers u hu := by
    rw [hp.covers u hu, h.covers u hu, List.mem_append]
    exact or_assoc

theorem Polled.next_poll (h : Polled mailboxId sent first saved w) (reports : Bool) :
    ∃ uids next drained, Page (session sent w.folder reports) saved uids next drained ∧
      (watching mailboxId sent).next w (.poll reports) =
        ⟨w.folder, .incremental mailboxId (sent.map (·.snd)) w.folder.uidValidity next, w.listed ++ uids⟩ := by
  obtain ⟨uids, next, drained, hp, hr⟩ := poll_eq h reports
  refine ⟨uids, next, drained, hp, Machine.next_of_ok ?_⟩
  simp [watching, hr, Function.comp_def]

theorem next_arrive {m : Stored} (hm : w.folder.uidNext ≤ m.uid) :
    (watching mailboxId sent).next w (.arrive m) = { w with folder := w.folder.arrive m hm } :=
  Machine.next_of_ok (by simp [watching, hm])

theorem next_arrive_of_lt {m : Stored} (hm : ¬w.folder.uidNext ≤ m.uid) :
    (watching mailboxId sent).next w (.arrive m) = w :=
  Machine.next_of_error (e := ()) (by simp [watching, hm])

theorem Polled.next (h : Polled mailboxId sent first saved w) (a : Action) :
    ∃ saved', Polled mailboxId sent first saved' ((watching mailboxId sent).next w a) := by
  cases a
  case arrive m =>
    by_cases hm : w.folder.uidNext ≤ m.uid
    · exact ⟨saved, next_arrive hm ▸ h.arrive hm⟩
    · exact ⟨saved, (next_arrive_of_lt hm).symm ▸ h⟩
  case expunge p => exact ⟨saved, h.expunge⟩
  case poll reports =>
    obtain ⟨uids, next, drained, hp, hnext⟩ := h.next_poll reports
    exact ⟨next, hnext ▸ h.poll hp⟩

theorem Polled.run (h : Polled mailboxId sent first saved w) (as : List Action) :
    ∃ saved', Polled mailboxId sent first saved' ((watching mailboxId sent).run w as) := by
  induction as generalizing saved w
  case nil          => exact ⟨saved, h⟩
  case cons a as ih =>
    obtain ⟨saved', h⟩ := h.next a
    exact ih h

def Cursor.lastUid : Cursor → Nat
  | .incremental _ _ _ lastUid => lastUid
  | .recovery _ _ _ _ _ _      => 0

-- How many messages are to be listed until one with the number `uid` is.
def World.ahead (uid : Nat) (w : World) : Nat :=
  w.folder.uids.countP fun u => w.cursor.lastUid < u && u ≤ uid

theorem Polled.lastUid (h : Polled mailboxId sent first saved w) : w.cursor.lastUid = saved := by
  rw [h.cursor]
  rfl

-- A page takes the least that is to be listed.
theorem Page.ahead_lt {uids : List Nat} {next uid : Nat} {drained : Bool}
    (hp : Page s saved uids next drained) :
    s.folder.uids.countP (fun u => next < u && u ≤ uid) ≤
      s.folder.uids.countP (fun u => saved < u && u ≤ uid) - 1 := by
  have hsub : ∀ u ∈ s.folder.uids, (next < u && u ≤ uid) → (saved < u && u ≤ uid) := by
    intro u hu h
    have := hp.covers u hu
    simp only [Bool.and_eq_true, decide_eq_true_eq] at h ⊢
    omega
  cases habove : s.folder.above saved
  case nil =>
    have hnone : s.folder.uids.countP (fun u => saved < u && u ≤ uid) = 0 := by
      refine List.countP_eq_zero.mpr fun u hu h => ?_
      simp only [Bool.and_eq_true, decide_eq_true_eq] at h
      have : u ∈ s.folder.above saved := Folder.mem_above.mpr ⟨hu, h.left⟩
      simp [habove] at this
    rw [hnone]
    exact (List.countP_mono_left hsub).trans hnone.le
  case cons a rest =>
    have ha : a ∈ s.folder.above saved := by simp [habove]
    have hleast : ∀ u ∈ s.folder.above saved, a ≤ u := by
      have hascending : (s.folder.above saved).Pairwise (· < ·) := s.folder.uids_ascending.filter _
      rw [habove, List.pairwise_cons] at hascending
      rw [habove]
      exact List.forall_mem_cons.mpr ⟨le_rfl, fun u hu => (hascending.left u hu).le⟩
    have hpage : a ∈ uids := by
      rw [hp.listed, habove]
      exact List.mem_cons_self
    obtain ⟨hmem, hlt⟩ := Folder.mem_above.mp ha
    have hnext : a ≤ next := (hp.covers a hmem).mpr (.inr hpage)
    rcases Nat.lt_or_ge uid a with hbeyond | hwithin
    · have hnone : s.folder.uids.countP (fun u => next < u && u ≤ uid) = 0 := by
        refine List.countP_eq_zero.mpr fun u hu h => ?_
        simp only [Bool.and_eq_true, decide_eq_true_eq] at h
        omega
      omega
    · refine Nat.le_sub_one_of_lt (Ascending.countP_lt hsub hmem ?_ ?_)
      · simp only [Bool.and_eq_true, decide_eq_true_eq]
        exact ⟨hlt, hwithin⟩
      · simp only [Bool.and_eq_false_iff, decide_eq_false_iff_not]
        exact .inl (Nat.not_lt.mpr hnext)

theorem Polled.ahead_next {uid : Nat} (h : Polled mailboxId sent first saved w) (hu : uid < w.folder.uidNext)
    (a : Action) : ((watching mailboxId sent).next w a).ahead uid ≤
      w.ahead uid - (if a.isPoll then 1 else 0) := by
  cases a
  case arrive m =>
    by_cases hm : w.folder.uidNext ≤ m.uid
    · have hnew : ¬m.uid ≤ uid := by omega
      simp [next_arrive hm, World.ahead, Folder.uids_arrive, hnew, Action.isPoll]
    · simp [next_arrive_of_lt hm, Action.isPoll]
  case expunge p =>
    refine List.Sublist.countP_le ?_
    exact List.filter_sublist.map _
  case poll reports =>
    obtain ⟨uids, next, drained, hp, hnext⟩ := h.next_poll reports
    rw [hnext, World.ahead, World.ahead, h.lastUid]
    exact hp.ahead_lt

theorem uidNext_next (a : Action) :
    w.folder.uidNext ≤ ((watching mailboxId sent).next w a).folder.uidNext := by
  cases a
  case arrive m =>
    by_cases hm : w.folder.uidNext ≤ m.uid
    · rw [next_arrive hm]
      exact hm.trans (Nat.le_succ _)
    · rw [next_arrive_of_lt hm]
  case expunge p => exact le_rfl
  case poll reports =>
    cases h : w.poll mailboxId sent reports <;> simp [Machine.next, watching, h]

-- A message that has arrived is listed after finitely many calls, unless it is gone by then.
theorem Polled.listed_of_polls {uid : Nat} {as : List Action} (h : Polled mailboxId sent first saved w)
    (hu : uid < w.folder.uidNext) (hfirst : first ≤ uid) (hp : w.ahead uid ≤ as.countP Action.isPoll)
    (hmem : uid ∈ ((watching mailboxId sent).run w as).folder.uids) :
    uid ∈ ((watching mailboxId sent).run w as).listed := by
  have hcount : ((watching mailboxId sent).run w as).ahead uid ≤ w.ahead uid - as.countP Action.isPoll :=
    Machine.countdown (World.ahead uid) Action.isPoll
      (I := fun w => (∃ saved, Polled mailboxId sent first saved w) ∧ uid < w.folder.uidNext)
      (fun w a ⟨⟨_, h⟩, hu⟩ => ⟨h.next a, hu.trans_le (uidNext_next a)⟩)
      (fun w a ⟨⟨_, h⟩, hu⟩ => h.ahead_next hu a) ⟨⟨saved, h⟩, hu⟩
  obtain ⟨saved', h'⟩ := h.run as
  have hnone : ¬saved' < uid := by
    intro hlt
    have hpos : 0 < ((watching mailboxId sent).run w as).ahead uid := by
      rw [World.ahead, h'.lastUid]
      exact List.countP_pos_iff.mpr ⟨uid, hmem, by simpa using hlt⟩
    omega
  exact ((h'.covers uid hmem).mp (Nat.not_lt.mp hnone)).resolve_left (Nat.not_lt.mpr hfirst)

theorem Polled.initial (folder : Folder) (reports : Bool) :
    ∃ cursor saved, firstCursor mailboxId sent folder reports = .ok cursor ∧
      Polled mailboxId sent folder.uidNext saved ⟨folder, cursor, []⟩ := by
  obtain ⟨uid, hsnap, hnext, hmax⟩ := snapshot_eq (session sent folder reports)
  refine ⟨.incremental mailboxId (sent.map (·.snd)) folder.uidValidity uid, uid, ?_,
    ⟨rfl, le_rfl, hnext, by simp, .nil, fun u hu => ?_⟩⟩
  · obtain _ | ⟨name, key⟩ := sent
    · simp only [firstCursor, initialCursor, hsnap]
      rfl
    · simp only [firstCursor, sentInitialCursor, hsnap]
      rfl
  · simp [hmax u hu, (Folder.uids_assigned hu).right]

-- What polling does for the messages that have arrived since the first cursor.
structure ListsArrivals (mailboxId : String) (sent : Option (String × String)) (first : Nat) (w : World) :
    Prop where
  only    : ∀ u ∈ w.listed, first ≤ u ∧ u < w.folder.uidNext
  once    : w.listed.Nodup
  behind  : ∀ u ∈ w.folder.uids, first ≤ u → u ∉ w.listed → w.cursor.lastUid < u
  page    : ∀ reports, ∃ r, w.poll mailboxId sent reports = .ok r ∧
    (r.messageIds.map (·.uid)).Pairwise (· < ·) ∧ r.messageIds.length ≤ maxIncrementalMessageIds ∧
    (r.drained ↔ ∀ u ∈ w.folder.uids, first ≤ u → u ∈ w.listed ∨ u ∈ r.messageIds.map (·.uid))
  reached : ∀ u ∈ w.folder.uids, first ≤ u → ∃ n, ∀ as : List Action, n ≤ as.countP Action.isPoll →
    u ∈ ((watching mailboxId sent).run w as).folder.uids →
    u ∈ ((watching mailboxId sent).run w as).listed

theorem Polled.listsArrivals (h : Polled mailboxId sent first saved w) :
    ListsArrivals mailboxId sent first w where
  only    := h.listed
  once    := h.once
  behind u hu hfirst hnew := by
    have := h.covers u hu
    rw [h.lastUid]
    by_contra hle
    exact ((this.mp (Nat.not_lt.mp hle)).resolve_left (Nat.not_lt.mpr hfirst)) |> hnew
  page reports := by
    obtain ⟨uids, next, drained, hp, hr⟩ := poll_eq h reports
    have hids : (uids.map fun u => (⟨mailboxId, sent.map (·.snd), w.folder.uidValidity, u⟩ : MessageId)).map
        (·.uid) = uids := by
      simp [Function.comp_def]
    have hlength : uids.length ≤ maxIncrementalMessageIds := by
      rw [hp.listed]
      exact List.length_take_le _ _
    refine ⟨_, hr, by simpa [Function.comp_def] using hp.ascending, by simpa using hlength, ?_⟩
    rw [hids, hp.isLast, decide_eq_true_iff]
    constructor
    · intro hle u hu hfirst
      rcases Nat.lt_or_ge saved u with hlt | hge
      · rw [hp.listed, List.take_of_length_le hle]
        exact .inr (Folder.mem_above.mpr ⟨hu, hlt⟩)
      · exact .inl (((h.covers u hu).mp hge).resolve_left (Nat.not_lt.mpr hfirst))
    · intro hall
      have hsub : w.folder.above saved ⊆ uids := by
        intro u hu
        obtain ⟨hmem, hlt⟩ := Folder.mem_above.mp hu
        have hcovers := h.covers u hmem
        refine (hall u hmem (by omega)).resolve_left fun hlisted => ?_
        have := hcovers.mpr (.inr hlisted)
        omega
      have hnodup : (w.folder.above saved).Nodup :=
        (w.folder.uids_ascending.filter _).imp Nat.ne_of_lt
      exact (List.subperm_of_subset hnodup hsub).length_le.trans hlength
  reached u hu hfirst :=
    ⟨w.ahead u, fun _ hn hmem => h.listed_of_polls (Folder.uids_assigned hu).right hfirst hn hmem⟩

end Watching

section Theorem

-- Polling lists every arrival once. The search for the first message above a bound finds it.
theorem polling_exact (mailboxId : String) (sent : Option (String × String)) (folder : Folder)
    (reports : Bool) :
    (∃ cursor, firstCursor mailboxId sent folder reports = .ok cursor ∧
      ∀ as, ListsArrivals mailboxId sent folder.uidNext
        ((watching mailboxId sent).run ⟨folder, cursor, []⟩ as)) ∧
    ∀ s bound, ∃ k, firstSequenceAfterUid s s.messageCount bound = .ok k ∧
      0 < k ∧ k ≤ s.messageCount + 1 ∧ (∀ i, 0 < i → i < k → s.folder.uidAt i ≤ bound) ∧
      ∀ i, k ≤ i → i ≤ s.messageCount → bound < s.folder.uidAt i := by
  refine ⟨?_, fun s bound => ?_⟩
  · obtain ⟨cursor, saved, hcursor, h⟩ := Polled.initial folder reports
    refine ⟨cursor, hcursor, fun as => ?_⟩
    obtain ⟨_, h⟩ := h.run as
    exact h.listsArrivals
  · have hlen : s.folder.uids.length = s.messageCount := Folder.length_uids
    have hle : s.folder.upTo bound ≤ s.messageCount := Folder.upTo_le
    have hcut (i : Nat) (hi : i < s.folder.uids.length) :
        bound < s.folder.uidAt (i + 1) ↔ s.folder.upTo bound ≤ i := by
      rw [Folder.uidAt_eq hi, Ascending.lt_getElem_iff s.folder.uids_ascending, Folder.upTo]
    refine ⟨_, firstSequenceAfterUid_eq, by omega, by omega, fun i h₀ hi => ?_, fun i hi hn => ?_⟩
    · have := hcut (i - 1) (by omega)
      rw [Nat.sub_add_cancel h₀] at this
      omega
    · have := hcut (i - 1) (by omega)
      rw [Nat.sub_add_cancel (by omega)] at this
      omega

end Theorem

end Imap
