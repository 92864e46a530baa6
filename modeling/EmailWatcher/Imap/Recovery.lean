import EmailWatcher.Imap.Polling

-- The recovery of a folder: what matches a day is listed page by page, from a snapshot downwards.
namespace Imap

section Recovery

-- The ordinal of a day that a `date` can stand for.
def Day := { n : Nat // 1 ≤ n ∧ n ≤ 3652059 }

-- `_recovery_search_day`, of the UTC day of `since`
def recoverySearchDay (since : Day) : Day :=
  if h : since.val = 1 then since else ⟨since.val - 1, by have := since.property; omega⟩

-- `SEARCH first:last SINCE day`
def searchSince (s : Session) (first last searchDay : Nat) : List Nat :=
  (List.range' first (last + 1 - first)).filter fun sequence =>
    (s.folder.at? sequence).any (searchDay ≤ ·.day)

-- The first sequence number of the span that one page searches
def firstSequence (lastSequence : Nat) : Nat :=
  max 1 (lastSequence - maxUidSearchSpan + 1)

-- The part of `_recovery_page` that reads the candidates, and where the next page is to begin
def recoveryCandidates (s : Session) (first last searchDay : Nat) : Except Failure (List Nat × Nat) := do
  let response := searchSince s first last searchDay
  rejectRecoveryExpunge s
  let matching := (Ascending.sortedSet response).filter fun sequence =>
    first ≤ sequence && sequence ≤ last
  let selected := matching.drop (matching.length - maxIncrementalMessageIds)
  let candidates ← fetchSequenceUids s selected
  if matching.length > selected.length then
    return (candidates, candidates.headD 0 - 1)
  else if first = 1 then
    return (candidates, 0)
  else
    let uid ← uidAtSequence s first
    return (candidates, uid - 1)

-- `_recovery_page`
def recoveryPage (mailboxId : String) (folderKey : Option String) (s : Session)
    (uidValidity upperUid snapshotUid searchDay : Nat) : Except Failure MailboxChanges := do
  let done : MailboxChanges :=
    { messageIds := [], cursor := .incremental mailboxId folderKey uidValidity snapshotUid }
  rejectRecoveryExpunge s
  if s.messageCount = 0 then
    return done
  else
    let lastSequence ← lastSequenceAtOrBeforeUid s s.messageCount upperUid
    rejectRecoveryExpunge s
    if lastSequence = 0 then
      return done
    else
      let (candidates, nextUpperUid) ←
        recoveryCandidates s (firstSequence lastSequence) lastSequence searchDay
      rejectRecoveryExpunge s
      if candidates.any fun uid => uid > upperUid || uid > snapshotUid then
        .error <| .imapError "imap_protocol_error" "Mail server UID page was invalid"
      else
        return {
          messageIds := candidates.map (⟨mailboxId, folderKey, uidValidity, ·⟩)
          cursor     :=
            if nextUpperUid = 0 then .incremental mailboxId folderKey uidValidity snapshotUid
            else .recovery mailboxId folderKey uidValidity nextUpperUid snapshotUid searchDay
          drained    := nextUpperUid = 0
        }

-- The part that `_recover_folder` and `_resume_recovery` have in common: a recovery from a new snapshot
def recoverFrom (mailboxId : String) (folderKey : Option String) (s : Session) (searchDay : Nat) :
    Except Failure MailboxChanges := do
  let (uidValidity, snapshotUid) ← snapshot s
  rejectRecoveryExpunge s
  if snapshotUid = 0 then
    return { messageIds := [], cursor := .incremental mailboxId folderKey uidValidity 0 }
  else
    recoveryPage mailboxId folderKey s uidValidity snapshotUid snapshotUid searchDay

-- `_recover_folder`
def recoverFolder (mailboxId : String) (folderKey : Option String) (s : Session) (since : Day) :
    Except Failure MailboxChanges :=
  recoverFrom mailboxId folderKey s (recoverySearchDay since).val

-- `_resume_recovery`
def resumeRecovery (mailboxId : String) (folderKey : Option String) (s : Session)
    (savedValidity upperUid snapshotUid searchDay : Nat) : Except Failure MailboxChanges :=
  if s.folder.uidValidity ≠ savedValidity then
    recoverFrom mailboxId folderKey s searchDay
  else
    recoveryPage mailboxId folderKey s savedValidity upperUid snapshotUid searchDay

-- What `_decode_recovery_cursor` and `_decode_sent_recovery_cursor` ask of the numbers
def validRecovery (uidValidity upperUid snapshotUid searchDay : Nat) : Bool :=
  0 < uidValidity && 0 < upperUid && 0 < snapshotUid && upperUid ≤ snapshotUid &&
    1 ≤ searchDay && searchDay ≤ 3652059

-- `recover_since`
def recoverSince (mailboxId : String) (s : Session) (since : Day) : Except Failure MailboxChanges :=
  recoverFolder mailboxId none s since

-- `sent_recover_since`
def sentRecoverSince (mailboxId : String) (s : Session) (since : Day) :
    Except Failure MailboxChanges := do
  let (_, folderKey) ← requireSentFolder s
  recoverFolder mailboxId (some folderKey) s since

-- `changes_since`
def changesSince (mailboxId : String) (s : Session) (cursor : Cursor) : Except Failure MailboxChanges :=
  match cursor with
  | .recovery savedMailbox none savedValidity upperUid snapshotUid searchDay =>
    if !validRecovery savedValidity upperUid snapshotUid searchDay then
      .error invalidCursor
    else if savedMailbox ≠ mailboxId then
      .error <| .stale "The configured mail server mailbox changed"
    else
      resumeRecovery mailboxId none s savedValidity upperUid snapshotUid searchDay
  | _ => incrementalChanges mailboxId s cursor false

-- `sent_changes_since`
def sentChangesSince (mailboxId : String) (s : Session) (cursor : Cursor) :
    Except Failure MailboxChanges :=
  match cursor with
  | .recovery savedMailbox (some savedFolderKey) savedValidity upperUid snapshotUid searchDay =>
    if !validRecovery savedValidity upperUid snapshotUid searchDay then
      .error invalidCursor
    else do
      let (_, folderKey) ← requireSentFolder s
      if savedMailbox ≠ mailboxId ∨ savedFolderKey ≠ folderKey then
        .error <| .stale "The mail server Sent folder changed"
      else
        resumeRecovery mailboxId (some savedFolderKey) s savedValidity upperUid snapshotUid searchDay
  | _ => incrementalChanges mailboxId s cursor true

end Recovery

section Page

variable {f : Folder} {s : Session} {upper day : Nat}

-- A message has a sequence number.
theorem Folder.exists_at? {m : Stored} (h : m ∈ f.messages) :
    ∃ i, 0 < i ∧ i ≤ f.messages.length ∧ f.at? i = some m ∧ f.uidAt i = m.uid := by
  obtain ⟨k, hk, rfl⟩ := List.mem_iff_getElem.mp h
  have hat : f.at? (k + 1) = some f.messages[k] := by simp [at?, hk]
  refine ⟨k + 1, Nat.succ_pos _, hk, hat, ?_⟩
  have := Folder.at?_uid (f := f) (Nat.succ_pos k) hk
  rw [hat] at this
  exact (Option.some.inj this).symm

theorem Folder.uidAt_le_iff {i : Nat} (h₀ : 0 < i) (hi : i ≤ f.messages.length) :
    f.uidAt i ≤ upper ↔ i ≤ f.upTo upper := by
  have hlen : f.uids.length = f.messages.length := length_uids
  obtain ⟨i, rfl⟩ : ∃ k, i = k + 1 := ⟨i - 1, by omega⟩
  have := Ascending.lt_getElem_iff (x := upper) f.uids_ascending (i := i) (by omega)
  rw [uidAt_eq (by omega)]
  rw [Folder.upTo]
  omega

-- The page of a recovery below `upper`, which leaves what is not above `next`.
structure RecoveryPage (s : Session) (upper day : Nat) (uids : List Nat) (next : Nat) : Prop where
  ascending : uids.Pairwise (· < ·)
  within    : ∀ u ∈ uids, u ∈ s.folder.uids ∧ next < u ∧ u ≤ upper
  lower     : next < upper
  complete  : ∀ m ∈ s.folder.messages, next < m.uid → m.uid ≤ upper → day ≤ m.day → m.uid ∈ uids

theorem RecoveryPage.none (hu : 0 < upper) (h : s.folder.upTo upper = 0) :
    RecoveryPage s upper day [] 0 where
  ascending := .nil
  within    := by simp
  lower     := hu
  complete m hm _ hle _ := by
    obtain ⟨i, h₀, hi, -, huid⟩ := Folder.exists_at? hm
    have := (Folder.uidAt_le_iff h₀ hi).mp (huid.trans_le hle)
    omega

-- The page from the sequence number `q` on.
theorem RecoveryPage.from {q next : Nat} {selected : List Nat} (h₀ : 0 < q) (hq : q ≤ s.folder.upTo upper)
    (hs : selected.Pairwise (· < ·)) (hw : ∀ i ∈ selected, q ≤ i ∧ i ≤ s.folder.upTo upper)
    (hc : ∀ i m, q ≤ i → i ≤ s.folder.upTo upper → s.folder.at? i = some m → day ≤ m.day → i ∈ selected)
    (hn : ∀ i, 0 < i → i ≤ s.messageCount → (next < s.folder.uidAt i ↔ q ≤ i)) :
    RecoveryPage s upper day (selected.map s.folder.uidAt) next := by
  have hle : s.folder.upTo upper ≤ s.messageCount := Folder.upTo_le
  have hbound (i : Nat) (h₀ : 0 < i) (hi : i ≤ s.messageCount) :
      s.folder.uidAt i ≤ upper ↔ i ≤ s.folder.upTo upper :=
    Folder.uidAt_le_iff h₀ hi
  refine ⟨?_, fun u hu => ?_, ?_, fun m hm hlt hup hday => ?_⟩
  · refine List.pairwise_map.mpr (hs.imp_of_mem fun hi hj hij => ?_)
    have := hw _ hi
    have := hw _ hj
    exact Folder.uidAt_lt (by omega) hij (Nat.le_trans (hw _ hj).right hle)
  · obtain ⟨i, hi, rfl⟩ := List.mem_map.mp hu
    obtain ⟨hqi, hil⟩ := hw i hi
    refine ⟨?_, (hn i (by omega) (by omega)).mpr hqi, (hbound i (by omega) (by omega)).mpr hil⟩
    have hlen : s.folder.uids.length = s.messageCount := Folder.length_uids
    obtain ⟨i, rfl⟩ : ∃ k, i = k + 1 := ⟨i - 1, by omega⟩
    rw [Folder.uidAt_eq (by omega)]
    exact List.getElem_mem _
  · have hqn := (hn q h₀ (by omega)).mpr le_rfl
    have hqu := (hbound q h₀ (by omega)).mpr hq
    omega
  · obtain ⟨i, hi₀, hi, hat, huid⟩ := Folder.exists_at? hm
    have hqi := (hn i hi₀ hi).mp (huid ▸ hlt)
    have hil := (hbound i hi₀ hi).mp (huid.trans_le hup)
    exact List.mem_map.mpr ⟨i, hc i m hqi hil hat hday, huid⟩

theorem uidAt_sub_one_lt_iff {q i : Nat} (hq₀ : 0 < q) (hq : q ≤ f.messages.length) (h₀ : 0 < i)
    (hi : i ≤ f.messages.length) : f.uidAt q - 1 < f.uidAt i ↔ q ≤ i := by
  have hpos : 0 < f.uidAt q := by
    have hlen : f.uids.length = f.messages.length := Folder.length_uids
    obtain ⟨q, rfl⟩ : ∃ k, q = k + 1 := ⟨q - 1, by omega⟩
    rw [Folder.uidAt_eq (by omega)]
    exact (Folder.uids_assigned (List.getElem_mem _)).left
  constructor
  · intro hlt
    by_contra hiq
    have := Folder.uidAt_lt h₀ (Nat.lt_of_not_le hiq) hq
    omega
  · intro hqi
    rcases Nat.eq_or_lt_of_le hqi with rfl | hlt
    · omega
    · have := Folder.uidAt_lt hq₀ hlt hi
      omega

theorem uidAt_pos {i : Nat} (h₀ : 0 < i) (hi : i ≤ f.messages.length) : 0 < f.uidAt i := by
  have hlen : f.uids.length = f.messages.length := Folder.length_uids
  obtain ⟨i, rfl⟩ : ∃ k, i = k + 1 := ⟨i - 1, by omega⟩
  rw [Folder.uidAt_eq (by omega)]
  exact (Folder.uids_assigned (List.getElem_mem _)).left

theorem firstSequence_pos (last : Nat) : 0 < firstSequence last :=
  Nat.le_max_left _ _

theorem firstSequence_le {last : Nat} (h : 0 < last) : firstSequence last ≤ last := by
  have : 0 < maxUidSearchSpan := by simp [maxUidSearchSpan]
  rw [firstSequence]
  omega

theorem searchSince_ascending {first last : Nat} : (searchSince s first last day).Pairwise (· < ·) :=
  List.Pairwise.filter _ List.pairwise_lt_range'

theorem mem_searchSince {first last i : Nat} (h : first ≤ last + 1) :
    i ∈ searchSince s first last day ↔
    first ≤ i ∧ i ≤ last ∧ ∃ m, s.folder.at? i = some m ∧ day ≤ m.day := by
  rw [searchSince, List.mem_filter, List.mem_range'_1, Option.any_eq_true]
  simp only [decide_eq_true_eq]
  constructor
  · rintro ⟨⟨hf, hl⟩, hm⟩
    exact ⟨hf, by omega, hm⟩
  · rintro ⟨hf, hl, hm⟩
    exact ⟨⟨hf, by omega⟩, hm⟩

variable (day) in
theorem recoveryCandidates_eq {first : Nat} (he : s.expunged = false) (hfirst : 0 < first)
    (hlast : first ≤ s.folder.upTo upper) :
    ∃ uids next, RecoveryPage s upper day uids next ∧
      recoveryCandidates s first (s.folder.upTo upper) day = .ok (uids, next) := by
  have hreject : rejectRecoveryExpunge s = .ok () := by simp [rejectRecoveryExpunge, he]
  have hle : s.folder.upTo upper ≤ s.messageCount := Folder.upTo_le
  obtain ⟨found, hfound⟩ : ∃ l, searchSince s first (s.folder.upTo upper) day = l := ⟨_, rfl⟩
  have hascending : found.Pairwise (· < ·) := hfound ▸ searchSince_ascending
  have hmem (i : Nat) : i ∈ found ↔ first ≤ i ∧ i ≤ s.folder.upTo upper ∧
      ∃ m, s.folder.at? i = some m ∧ day ≤ m.day := by
    rw [← hfound]
    exact mem_searchSince (by omega)
  have hfilter : found.filter (fun i => decide (first ≤ i) && decide (i ≤ s.folder.upTo upper)) = found := by
    refine List.filter_eq_self.mpr fun i hi => ?_
    have := (hmem i).mp hi
    simp only [Bool.and_eq_true, decide_eq_true_eq]
    exact ⟨this.left, this.right.left⟩
  have hfetch : fetchSequenceUids s (found.drop (found.length - maxIncrementalMessageIds)) =
      .ok ((found.drop (found.length - maxIncrementalMessageIds)).map s.folder.uidAt) := by
    refine fetchSequenceUids_eq hascending.drop fun i hi => ?_
    have := (hmem i).mp (List.mem_of_mem_drop hi)
    omega
  rw [recoveryCandidates, hreject, hfound, Ascending.sortedSet_eq hascending, hfilter]
  simp only [Bind.bind, Except.bind, hfetch]
  split
  case isTrue hmore =>
    -- The rest of what has been found is left to the next page
    rw [List.length_drop] at hmore
    have hk : found.length - maxIncrementalMessageIds < found.length := by
      have : 0 < maxIncrementalMessageIds := by decide
      omega
    generalize found.length - maxIncrementalMessageIds = k at hk ⊢
    have hq := (hmem found[k]).mp (List.getElem_mem _)
    have hhead : ((found.drop k).map s.folder.uidAt).headD 0 = s.folder.uidAt found[k] := by
      rw [List.drop_eq_getElem_cons hk]
      rfl
    rw [hhead]
    refine ⟨_, _, .from (q := found[k]) (hfirst.trans_le hq.left) hq.right.left hascending.drop (fun i hi => ?_)
      (fun i m hqi hil hat hday => ?_) (fun i h₀ hi => ?_), rfl⟩
    · refine ⟨?_, ((hmem i).mp (List.mem_of_mem_drop hi)).right.left⟩
      rw [List.drop_eq_getElem_cons hk, List.mem_cons] at hi
      obtain rfl | hi := hi
      · exact le_rfl
      · have hdrop := hascending.drop (i := k)
        rw [List.drop_eq_getElem_cons hk, List.pairwise_cons] at hdrop
        exact (hdrop.left i hi).le
    · exact Ascending.mem_drop_of_le hascending hk
        ((hmem i).mpr ⟨hq.left.trans hqi, hil, m, hat, hday⟩) hqi
    · exact uidAt_sub_one_lt_iff (hfirst.trans_le hq.left) (Nat.le_trans hq.right.left hle) h₀ hi
  case isFalse hall =>
    rw [List.length_drop] at hall
    have hdrop : found.drop (found.length - maxIncrementalMessageIds) = found := by
      rcases Nat.eq_zero_or_pos (found.length - maxIncrementalMessageIds) with h₀ | h₀
      · rw [h₀, List.drop_zero]
      · omega
    rw [hdrop]
    have hpage {next : Nat} (hn : ∀ i, 0 < i → i ≤ s.messageCount → (next < s.folder.uidAt i ↔ first ≤ i)) :
        RecoveryPage s upper day (found.map s.folder.uidAt) next := by
      refine .from hfirst hlast hascending (fun i hi => ?_) (fun i m hqi hil hat hday => ?_) hn
      · exact ⟨((hmem i).mp hi).left, ((hmem i).mp hi).right.left⟩
      · exact (hmem i).mpr ⟨hqi, hil, m, hat, hday⟩
    split
    case isTrue hone  =>
      subst hone
      refine ⟨_, _, hpage fun i h₀ hi => ?_, rfl⟩
      exact iff_of_true (uidAt_pos h₀ hi) h₀
    case isFalse hone =>
      rw [uidAtSequence_eq hfirst (hlast.trans hle)]
      exact ⟨_, _, hpage fun i h₀ hi => uidAt_sub_one_lt_iff hfirst (hlast.trans hle) h₀ hi, rfl⟩

variable (day) in
theorem recoveryPage_eq (mailboxId : String) (folderKey : Option String) {snapshotUid : Nat}
    (he : s.expunged = false) (hu : 0 < upper) (hsnap : upper ≤ snapshotUid) :
    ∃ uids next, RecoveryPage s upper day uids next ∧
      recoveryPage mailboxId folderKey s s.folder.uidValidity upper snapshotUid day =
        .ok ⟨uids.map (⟨mailboxId, folderKey, s.folder.uidValidity, ·⟩),
          if next = 0 then .incremental mailboxId folderKey s.folder.uidValidity snapshotUid
          else .recovery mailboxId folderKey s.folder.uidValidity next snapshotUid day,
          next = 0⟩ := by
  have hreject : rejectRecoveryExpunge s = .ok () := by simp [rejectRecoveryExpunge, he]
  have hle : s.folder.upTo upper ≤ s.messageCount := Folder.upTo_le
  rw [recoveryPage, hreject, lastSequenceAtOrBeforeUid_eq]
  simp only [Bind.bind, Except.bind]
  split
  case isTrue hempty => exact ⟨[], 0, .none hu (by omega), rfl⟩
  case isFalse hcount =>
    split
    case isTrue hnone => exact ⟨[], 0, .none hu hnone, rfl⟩
    case isFalse hlast =>
      obtain ⟨uids, next, hp, hr⟩ := recoveryCandidates_eq day he
        (firstSequence_pos (s.folder.upTo upper)) (firstSequence_le (Nat.pos_of_ne_zero hlast))
      have hvalid : uids.any (fun uid => uid > upper || uid > snapshotUid) = false := by
        rw [List.any_eq_false]
        intro u hu
        have := (hp.within u hu).right.right
        simp only [gt_iff_lt, Bool.or_eq_true, decide_eq_true_eq]
        omega
      refine ⟨uids, next, hp, ?_⟩
      simp only [hr, hvalid, Bool.false_eq_true, if_false]
      rfl

end Page

section Recovering

-- The folder is the Sent folder, with its name and key, or else the inbox.
variable (mailboxId : String) (sent : Option (String × String))

def startRecovery (folder : Folder) (reportsUidNext : Bool) (since : Day) :
    Except Failure MailboxChanges :=
  if sent.isSome then
    sentRecoverSince mailboxId (session sent folder reportsUidNext) since
  else
    recoverSince mailboxId (session sent folder reportsUidNext) since

def World.resume (w : World) (reportsUidNext : Bool) : Except Failure MailboxChanges :=
  if sent.isSome then
    sentChangesSince mailboxId (session sent w.folder reportsUidNext) w.cursor
  else
    changesSince mailboxId (session sent w.folder reportsUidNext) w.cursor

def Cursor.isRecovery : Cursor → Bool
  | .incremental _ _ _ _  => false
  | .recovery _ _ _ _ _ _ => true

-- The calls that follow one another until the recovery is over.
def recovering : Machine World Action Unit where
  step w
    | .poll reportsUidNext =>
      if w.cursor.isRecovery then
        match w.resume mailboxId sent reportsUidNext with
        | .error _    => .error ()
        | .ok changes =>
          .ok { w with cursor := changes.cursor, listed := w.listed ++ changes.messageIds.map (·.uid) }
      else
        .error ()
    | a => (watching mailboxId sent).step w a

-- The cursor of a recovery that has come down to `upper`
def cursorAt (uidValidity snapshotUid day upper : Nat) : Cursor :=
  if upper = 0 then .incremental mailboxId (sent.map (·.snd)) uidValidity snapshotUid
  else .recovery mailboxId (sent.map (·.snd)) uidValidity upper snapshotUid day

-- What a recovery from a snapshot of the folder `f` has done once it has come down to `upper`.
structure Recovered (f : Folder) (snapshotUid day upper : Nat) (w : World) : Prop where
  cursor   : w.cursor = cursorAt mailboxId sent w.folder.uidValidity snapshotUid day upper
  lower    : upper ≤ snapshotUid
  snapped  : snapshotUid < f.uidNext
  since    : f.uidNext ≤ w.folder.uidNext
  old      : ∀ u ∈ w.folder.uids, u ≤ snapshotUid ↔ u < f.uidNext
  within   : ∀ u ∈ w.listed, upper < u ∧ u ≤ snapshotUid
  once     : w.listed.Nodup
  complete : ∀ m ∈ w.folder.messages, upper < m.uid → m.uid ≤ snapshotUid → day ≤ m.day → m.uid ∈ w.listed

variable {mailboxId sent} {f : Folder} {snapshotUid day upper : Nat} {w : World}

theorem Recovered.page {uids : List Nat} {next : Nat} {reports : Bool}
    (h : Recovered mailboxId sent f snapshotUid day upper w)
    (hp : RecoveryPage (session sent w.folder reports) upper day uids next) :
    Recovered mailboxId sent f snapshotUid day next
      ⟨w.folder, cursorAt mailboxId sent w.folder.uidValidity snapshotUid day next, w.listed ++ uids⟩ where
  cursor   := rfl
  lower    := hp.lower.le.trans h.lower
  snapped  := h.snapped
  since    := h.since
  old      := h.old
  within u hu := by
    obtain hu | hu := List.mem_append.mp hu
    · exact ⟨hp.lower.trans (h.within u hu).left, (h.within u hu).right⟩
    · exact ⟨(hp.within u hu).right.left, (hp.within u hu).right.right.trans h.lower⟩
  once     := by
    refine List.nodup_append.mpr ⟨h.once, hp.ascending.imp Nat.ne_of_lt, fun u hu v hv he => ?_⟩
    have := (h.within u hu).left
    have := (hp.within v hv).right.right
    omega
  complete m hm hlt hle hday := by
    rcases Nat.lt_or_ge upper m.uid with hup | hdown
    · exact List.mem_append_left _ (h.complete m hm hup hle hday)
    · exact List.mem_append_right _ (hp.complete m hm hlt hdown hday)

theorem Recovered.arrive {m : Stored} (h : Recovered mailboxId sent f snapshotUid day upper w)
    (hm : w.folder.uidNext ≤ m.uid) :
    Recovered mailboxId sent f snapshotUid day upper { w with folder := w.folder.arrive m hm } where
  cursor   := h.cursor
  lower    := h.lower
  snapped  := h.snapped
  since    := (h.since.trans hm).trans (Nat.le_succ _)
  old u hu := by
    rw [Folder.uids_arrive, List.mem_append, List.mem_singleton] at hu
    obtain hu | rfl := hu
    · exact h.old u hu
    · have := h.since
      have := h.snapped
      omega
  within   := h.within
  once     := h.once
  complete a ha hlt hle hday := by
    obtain ha | ha := List.mem_append.mp ha
    · exact h.complete a ha hlt hle hday
    · obtain rfl := List.mem_singleton.mp ha
      have := h.since
      have := h.snapped
      omega

theorem Recovered.expunge {p : Stored → Bool} (h : Recovered mailboxId sent f snapshotUid day upper w) :
    Recovered mailboxId sent f snapshotUid day upper { w with folder := w.folder.expunge p } :=
  ⟨h.cursor, h.lower, h.snapped, h.since, fun u hu => h.old u (Folder.uids_expunge hu), h.within, h.once,
    fun m hm => h.complete m (List.mem_filter.mp hm).left⟩

theorem recoverFrom_eq (mailboxId : String) (sent : Option (String × String)) (f : Folder) (reports : Bool)
    (day : Nat) :
    ∃ snapshotUid uids next, snapshot (session sent f reports) = .ok (f.uidValidity, snapshotUid) ∧
      Recovered mailboxId sent f snapshotUid day next
        ⟨f, cursorAt mailboxId sent f.uidValidity snapshotUid day next, uids⟩ ∧
      (next < snapshotUid ∨ next = 0) ∧
      recoverFrom mailboxId (sent.map (·.snd)) (session sent f reports) day =
        .ok ⟨uids.map (⟨mailboxId, sent.map (·.snd), f.uidValidity, ·⟩),
          cursorAt mailboxId sent f.uidValidity snapshotUid day next, next = 0⟩ := by
  obtain ⟨snap, hsnap, hnext, hmax⟩ := snapshot_eq (session sent f reports)
  have hinitial : Recovered mailboxId sent f snap day snap
      ⟨f, cursorAt mailboxId sent f.uidValidity snap day snap, []⟩ :=
    ⟨rfl, le_rfl, hnext, le_rfl, fun u hu => iff_of_true (hmax u hu) (Folder.uids_assigned hu).right,
      by simp, .nil, fun m hm hlt hle => by omega⟩
  rw [recoverFrom, hsnap]
  rcases Nat.eq_zero_or_pos snap with rfl | hpos
  · exact ⟨0, [], 0, rfl, hinitial, .inr rfl, rfl⟩
  · obtain ⟨uids, next, hp, hr⟩ := recoveryPage_eq day mailboxId (sent.map (·.snd))
      (s := session sent f reports) rfl hpos le_rfl
    refine ⟨snap, uids, next, rfl, hinitial.page hp, .inl hp.lower, ?_⟩
    simp only [Bind.bind, Except.bind, rejectRecoveryExpunge, session, Bool.false_eq_true, if_false,
      Nat.ne_of_gt hpos]
    exact hr

theorem Recovered.resume (h : Recovered mailboxId sent f snapshotUid day upper w) (hu : 0 < upper)
    (hd : 1 ≤ day ∧ day ≤ 3652059) (reports : Bool) :
    ∃ uids next, RecoveryPage (session sent w.folder reports) upper day uids next ∧
      w.resume mailboxId sent reports =
        .ok ⟨uids.map (⟨mailboxId, sent.map (·.snd), w.folder.uidValidity, ·⟩),
          cursorAt mailboxId sent w.folder.uidValidity snapshotUid day next, next = 0⟩ := by
  have hlower := h.lower
  have hvalidity := w.folder.valid
  have hvalid : validRecovery w.folder.uidValidity upper snapshotUid day = true := by
    simp only [validRecovery, Bool.and_eq_true, decide_eq_true_eq]
    omega
  obtain ⟨uids, next, hp, hr⟩ := recoveryPage_eq day mailboxId (sent.map (·.snd))
    (s := session sent w.folder reports) rfl hu h.lower
  refine ⟨uids, next, hp, Eq.trans ?_ hr⟩
  rw [World.resume, h.cursor, cursorAt, if_neg (Nat.ne_of_gt hu)]
  obtain _ | ⟨name, key⟩ := sent
  case none => simp [changesSince, hvalid, resumeRecovery, session]
  case some =>
    simp [sentChangesSince, hvalid, resumeRecovery, requireSentFolder, Bind.bind, Except.bind, session]

-- A recovery of a folder that has been reset begins again.
theorem resume_of_reset {uidValidity : Nat} (hv : validRecovery uidValidity upper snapshotUid day)
    (hw : w.cursor = .recovery mailboxId (sent.map (·.snd)) uidValidity upper snapshotUid day)
    (hr : w.folder.uidValidity ≠ uidValidity) (reports : Bool) :
    w.resume mailboxId sent reports =
      recoverFrom mailboxId (sent.map (·.snd)) (session sent w.folder reports) day := by
  rw [World.resume, hw]
  obtain _ | ⟨name, key⟩ := sent
  case none => simp [changesSince, hv, resumeRecovery, session, hr]
  case some =>
    simp [sentChangesSince, hv, resumeRecovery, requireSentFolder, Bind.bind, Except.bind, session, hr]

theorem startRecovery_eq (mailboxId : String) (sent : Option (String × String)) (f : Folder)
    (reports : Bool) (since : Day) :
    startRecovery mailboxId sent f reports since =
      recoverFrom mailboxId (sent.map (·.snd)) (session sent f reports) (recoverySearchDay since).val := by
  obtain _ | ⟨name, key⟩ := sent <;> rfl

theorem isRecovery_cursorAt {uidValidity : Nat} :
    (cursorAt mailboxId sent uidValidity snapshotUid day upper).isRecovery = decide (0 < upper) := by
  rw [cursorAt]
  split
  case isTrue h  => simp [h, Cursor.isRecovery]
  case isFalse h => simp [Cursor.isRecovery, Nat.pos_of_ne_zero h]

-- One action of a recovery that has come down to `upper`.
theorem Recovered.next (h : Recovered mailboxId sent f snapshotUid day upper w)
    (hd : 1 ≤ day ∧ day ≤ 3652059) (a : Action) :
    ∃ upper', Recovered mailboxId sent f snapshotUid day upper' ((recovering mailboxId sent).next w a) ∧
      upper' ≤ upper - (if a.isPoll then 1 else 0) := by
  cases a
  case arrive m =>
    refine ⟨upper, ?_, by simp [Action.isPoll]⟩
    change Recovered _ _ _ _ _ _ ((watching mailboxId sent).next w (.arrive m))
    by_cases hm : w.folder.uidNext ≤ m.uid
    · exact next_arrive hm ▸ h.arrive hm
    · exact (next_arrive_of_lt hm).symm ▸ h
  case expunge p => exact ⟨upper, h.expunge, by simp [Action.isPoll]⟩
  case poll reports =>
    rcases Nat.eq_zero_or_pos upper with rfl | hpos
    · refine ⟨0, ?_, Nat.zero_le _⟩
      rw [Machine.next_of_error (e := ()) (by simp [recovering, h.cursor, isRecovery_cursorAt])]
      exact h
    · obtain ⟨uids, next, hp, hr⟩ := h.resume hpos hd reports
      refine ⟨next, ?_, Nat.le_sub_one_of_lt hp.lower⟩
      have hstep := h.page hp
      rw [Machine.next_of_ok ?_]
      · exact hstep
      · simp [recovering, hr, h.cursor, isRecovery_cursorAt, hpos, Function.comp_def]

theorem Recovered.run (h : Recovered mailboxId sent f snapshotUid day upper w)
    (hd : 1 ≤ day ∧ day ≤ 3652059) (as : List Action) :
    ∃ upper', Recovered mailboxId sent f snapshotUid day upper' ((recovering mailboxId sent).run w as) ∧
      upper' ≤ upper - as.countP Action.isPoll := by
  induction as generalizing upper w
  case nil          => exact ⟨upper, h, Nat.le_refl _⟩
  case cons a as ih =>
    obtain ⟨upper₁, h₁, hle₁⟩ := h.next hd a
    obtain ⟨upper₂, h₂, hle₂⟩ := ih h₁
    refine ⟨upper₂, h₂, ?_⟩
    rw [List.countP_cons]
    omega

-- How a page that is read while the recovery has come down to `upper` goes on: further down, or it is
-- the last one, and leaves the cursor at the snapshot.
inductive GoesOn (mailboxId : String) (sent : Option (String × String)) (uidValidity snapshotUid day upper : Nat)
    (r : MailboxChanges) : Prop
  | further (next : Nat)
      (cursor : r.cursor = .recovery mailboxId (sent.map (·.snd)) uidValidity next snapshotUid day)
      (lower : next < upper) (drained : r.drained = false)
  | over (cursor : r.cursor = .incremental mailboxId (sent.map (·.snd)) uidValidity snapshotUid)
      (drained : r.drained = true)

theorem goesOn_cursorAt {ids : List MessageId} {uidValidity next : Nat} (h : next < upper ∨ next = 0) :
    GoesOn mailboxId sent uidValidity snapshotUid day upper
      ⟨ids, cursorAt mailboxId sent uidValidity snapshotUid day next, next = 0⟩ := by
  rcases Nat.eq_zero_or_pos next with rfl | hpos
  · exact .over rfl rfl
  · have hne : next ≠ 0 := Nat.ne_of_gt hpos
    exact .further next (by simp [cursorAt, hne]) (h.resolve_right hne) (by simp [hne])

-- A recovery of the folder `f` in the state `w`.
structure RecoversAll (mailboxId : String) (sent : Option (String × String)) (f : Folder)
    (snapshotUid day : Nat) (w : World) : Prop where
  once    : w.listed.Nodup
  bounded : ∀ u ∈ w.listed, u ≤ snapshotUid
  page    : w.cursor.isRecovery → ∃ upper,
    w.cursor = .recovery mailboxId (sent.map (·.snd)) w.folder.uidValidity upper snapshotUid day ∧
    ∀ reports, ∃ r, w.resume mailboxId sent reports = .ok r ∧
      GoesOn mailboxId sent w.folder.uidValidity snapshotUid day upper r
  -- what has been there all the time has been returned once the recovery is over
  whole   : w.cursor.isRecovery = false → ∀ m ∈ f.messages, m ∈ w.folder.messages →
    m.uid ≤ snapshotUid → day ≤ m.day → m.uid ∈ w.listed
  -- and from there on polling lists what has arrived since the snapshot
  final   : w.cursor.isRecovery = false →
    w.cursor = .incremental mailboxId (sent.map (·.snd)) w.folder.uidValidity snapshotUid ∧
    ∀ as, ListsArrivals mailboxId sent f.uidNext
      ((watching mailboxId sent).run ⟨w.folder, w.cursor, []⟩ as)

-- A recovery that the call with the result `r` has begun in the folder `f`.
structure Recovers (mailboxId : String) (sent : Option (String × String)) (f : Folder) (reports : Bool)
    (day snapshotUid : Nat) (r : MailboxChanges) : Prop where
  snapshot : snapshot (session sent f reports) = .ok (f.uidValidity, snapshotUid)
  begins   : GoesOn mailboxId sent f.uidValidity snapshotUid day snapshotUid r
  always   : ∀ as, RecoversAll mailboxId sent f snapshotUid day
    ((recovering mailboxId sent).run ⟨f, r.cursor, r.messageIds.map (·.uid)⟩ as)
  ends     : ∀ as : List Action, snapshotUid ≤ as.countP Action.isPoll →
    ((recovering mailboxId sent).run ⟨f, r.cursor, r.messageIds.map (·.uid)⟩ as).cursor.isRecovery = false

theorem Recovered.recoversAll (h : Recovered mailboxId sent f snapshotUid day upper w)
    (hd : 1 ≤ day ∧ day ≤ 3652059) : RecoversAll mailboxId sent f snapshotUid day w := by
  have hover (hr : w.cursor.isRecovery = false) : upper = 0 := by
    simpa [h.cursor, isRecovery_cursorAt] using hr
  refine ⟨h.once, fun u hu => (h.within u hu).right, fun hr => ?_, fun hr m _ hm hle hday => ?_,
    fun hr => ?_⟩
  · have hpos : 0 < upper := by simpa [h.cursor, isRecovery_cursorAt] using hr
    refine ⟨upper, by rw [h.cursor, cursorAt, if_neg (Nat.ne_of_gt hpos)], fun reports => ?_⟩
    obtain ⟨uids, next, hp, hresume⟩ := h.resume hpos hd reports
    exact ⟨_, hresume, goesOn_cursorAt (.inl hp.lower)⟩
  · obtain rfl := hover hr
    exact h.complete m hm (w.folder.assigned m hm).left hle hday
  · obtain rfl := hover hr
    have hcursor : w.cursor = .incremental mailboxId (sent.map (·.snd)) w.folder.uidValidity snapshotUid := by
      rw [h.cursor, cursorAt, if_pos rfl]
    have hpolled : Polled mailboxId sent f.uidNext snapshotUid ⟨w.folder, w.cursor, []⟩ :=
      ⟨hcursor, h.since, h.snapped.trans_le h.since, by simp, .nil, by simpa using h.old⟩
    refine ⟨hcursor, fun as => ?_⟩
    obtain ⟨_, hrun⟩ := hpolled.run as
    exact hrun.listsArrivals

theorem recoverFrom_recovers (mailboxId : String) (sent : Option (String × String)) (f : Folder)
    (reports : Bool) (hd : 1 ≤ day ∧ day ≤ 3652059) :
    ∃ r snapshotUid, recoverFrom mailboxId (sent.map (·.snd)) (session sent f reports) day = .ok r ∧
      Recovers mailboxId sent f reports day snapshotUid r := by
  obtain ⟨snap, uids, next, hsnap, h, hnext, hr⟩ := recoverFrom_eq mailboxId sent f reports day
  refine ⟨_, snap, hr, hsnap, goesOn_cursorAt hnext, fun as => ?_, fun as has => ?_⟩
  all_goals
    have hids : (uids.map fun u => (⟨mailboxId, sent.map (·.snd), f.uidValidity, u⟩ : MessageId)).map
        (·.uid) = uids := by
      simp [Function.comp_def]
    rw [hids]
    obtain ⟨upper, hrun, hle⟩ := h.run hd as
  · exact hrun.recoversAll hd
  · have hzero : upper = 0 := by omega
    rw [hrun.cursor, isRecovery_cursorAt, hzero]
    rfl

end Recovering

section Theorem

-- A recovery returns what matches its day and has been there all the time, and comes to an end at its
-- snapshot. In a folder that has been reset it begins again.
theorem recovery_exact (mailboxId : String) (sent : Option (String × String)) :
    (∀ f reports since, ∃ r snapshotUid, startRecovery mailboxId sent f reports since = .ok r ∧
      Recovers mailboxId sent f reports (recoverySearchDay since).val snapshotUid r) ∧
    ∀ (w : World) uidValidity upper snapshotUid day reports,
      validRecovery uidValidity upper snapshotUid day →
      w.cursor = .recovery mailboxId (sent.map (·.snd)) uidValidity upper snapshotUid day →
      w.folder.uidValidity ≠ uidValidity → ∃ r snapshotUid', w.resume mailboxId sent reports = .ok r ∧
        Recovers mailboxId sent w.folder reports day snapshotUid' r := by
  refine ⟨fun f reports since => ?_, fun w uidValidity upper snapshotUid day reports hv hw hr => ?_⟩
  · rw [startRecovery_eq]
    exact recoverFrom_recovers mailboxId sent f reports (recoverySearchDay since).property
  · rw [resume_of_reset hv hw hr]
    refine recoverFrom_recovers mailboxId sent w.folder reports ?_
    simp only [validRecovery, Bool.and_eq_true, decide_eq_true_eq] at hv
    exact ⟨hv.left.right, hv.right⟩

end Theorem

end Imap
