import EmailWatcher.Library.Ascending
import EmailWatcher.Library.Bisect

-- A folder of a mail server, and what is read of it over one connection.
namespace Imap

section Folders

structure Stored where
  uid : Nat
  -- the day of the internal date
  day : Nat
  deriving DecidableEq, Repr

-- The messages of a folder in the order of their sequence numbers.
structure Folder where
  uidValidity : Nat
  uidNext     : Nat
  messages    : List Stored
  valid       : 0 < uidValidity
  next        : 0 < uidNext
  ascending   : messages.Pairwise (·.uid < ·.uid)
  assigned    : ∀ m ∈ messages, 0 < m.uid ∧ m.uid < uidNext

namespace Folder

variable (f : Folder)

def uids : List Nat :=
  f.messages.map (·.uid)

-- A message is assigned a number that no message has had.
def arrive (m : Stored) (h : f.uidNext ≤ m.uid) : Folder where
  uidValidity := f.uidValidity
  uidNext     := m.uid + 1
  messages    := f.messages ++ [m]
  valid       := f.valid
  next        := Nat.succ_pos _
  ascending   := by
    refine List.pairwise_append.mpr ⟨f.ascending, List.pairwise_singleton _ _, fun a ha b hb => ?_⟩
    obtain rfl := List.mem_singleton.mp hb
    exact (f.assigned a ha).right.trans_le h
  assigned a ha := by
    obtain ha | ha := List.mem_append.mp ha
    · exact ⟨(f.assigned a ha).left, by have := f.assigned a ha; omega⟩
    · obtain rfl := List.mem_singleton.mp ha
      exact ⟨f.next.trans_le h, Nat.lt_succ_self _⟩

def expunge (p : Stored → Bool) : Folder where
  uidValidity := f.uidValidity
  uidNext     := f.uidNext
  messages    := f.messages.filter fun m => !p m
  valid       := f.valid
  next        := f.next
  ascending   := f.ascending.filter _
  assigned a ha := f.assigned a (List.mem_filter.mp ha).left

end Folder

end Folders

section Sessions

inductive Failure
  | imapError (code message : String)
  -- `StaleMailboxCursor`
  | stale     (message : String)
  deriving DecidableEq, Repr

-- The Sent folder, and `_folder_key` of its name.
inductive SentFolder
  | missing
  | unreadable
  | selected (name folderKey : String)
  deriving DecidableEq, Repr

-- What one call finds: the folder that it selects, which does not change while the call lasts.
structure Session where
  folder         : Folder
  -- whether the server says what number comes next
  reportsUidNext : Bool
  sentFolder     : SentFolder
  -- whether the server has reported that a message is gone
  expunged       : Bool

def maxIncrementalMessageIds : Nat := 200

def maxUidSearchSpan : Nat := 10000

-- `_cursor`, `_sent_cursor`, `_recovery_cursor` and `_sent_recovery_cursor`: a cursor of the Sent folder
-- has a folder key.
inductive Cursor
  | incremental (mailboxId : String) (folderKey : Option String) (uidValidity lastUid : Nat)
  | recovery (mailboxId : String) (folderKey : Option String)
      (uidValidity upperUid snapshotUid searchDay : Nat)
  deriving DecidableEq, Repr

-- `_message_id`
structure MessageId where
  mailboxId   : String
  folderKey   : Option String
  uidValidity : Nat
  uid         : Nat
  deriving DecidableEq, Repr

-- `MailboxChanges`
structure MailboxChanges where
  messageIds : List MessageId
  cursor     : Cursor
  drained    : Bool := true
  deriving DecidableEq, Repr

-- `_selected_message_count`
def Session.messageCount (s : Session) : Nat :=
  s.folder.messages.length

-- The message with a sequence number. The first one is number one.
def Folder.at? (f : Folder) (sequence : Nat) : Option Stored :=
  if sequence = 0 then none else f.messages[sequence - 1]?

-- `_fetch_sequence_uids`
def fetchSequenceUids (s : Session) (sequences : List Nat) : Except Failure (List Nat) :=
  if sequences = [] then
    .ok []
  else
    let values := Ascending.sortedSet <| sequences.filterMap fun sequence => (s.folder.at? sequence).map (·.uid)
    if values.length ≠ sequences.length then
      .error <| .imapError "imap_protocol_error" "Mail server UID page was incomplete"
    else
      .ok values

-- `_uid_at_sequence`
def uidAtSequence (s : Session) (sequence : Nat) : Except Failure Nat :=
  (fetchSequenceUids s [sequence]).map (·.headD 0)

-- `_first_sequence_after_uid`
def firstSequenceAfterUid (s : Session) (messageCount savedUid : Nat) : Except Failure Nat :=
  Bisect.bisect (fun middle => (uidAtSequence s middle).map (· > savedUid)) true
    1 (messageCount + 1) (messageCount + 1)

-- `_last_sequence_at_or_before_uid`
def lastSequenceAtOrBeforeUid (s : Session) (messageCount upperUid : Nat) : Except Failure Nat :=
  Bisect.bisect (fun middle => (uidAtSequence s middle).map (· > upperUid)) false
    1 (messageCount + 1) 0

-- `_snapshot`
def snapshot (s : Session) : Except Failure (Nat × Nat) :=
  if s.reportsUidNext then
    .ok (s.folder.uidValidity, s.folder.uidNext - 1)
  else if s.messageCount = 0 then
    .ok (s.folder.uidValidity, 0)
  else
    match s.folder.at? s.messageCount with
    | none   => .error <| .imapError "imap_protocol_error" "Mail server UID snapshot failed"
    | some m => .ok (s.folder.uidValidity, m.uid)

-- `_reject_recovery_expunge`
def rejectRecoveryExpunge (s : Session) : Except Failure Unit :=
  if s.expunged then
    .error <| .imapError "imap_mailbox_changed" "Mail server changed during recovery; retry"
  else
    .ok ()

-- `_require_sent_folder`
def requireSentFolder (s : Session) : Except Failure (String × String) :=
  match s.sentFolder with
  | .missing                 =>
    .error <| .imapError "imap_sent_unavailable" "Mail server has no Sent folder"
  | .unreadable              =>
    .error <| .imapError "imap_sent_unreadable" "Mail server Sent folder cannot be selected"
  | .selected name folderKey => .ok (name, folderKey)

end Sessions

section Reads

variable {f : Folder} {s : Session} {uid i first last : Nat}

namespace Folder

theorem uids_ascending (f : Folder) : f.uids.Pairwise (· < ·) :=
  List.pairwise_map.mpr f.ascending

theorem uids_assigned (h : uid ∈ f.uids) : 0 < uid ∧ uid < f.uidNext := by
  obtain ⟨m, hm, rfl⟩ := List.mem_map.mp h
  exact f.assigned m hm

@[simp]
theorem length_uids : f.uids.length = f.messages.length :=
  List.length_map _

-- The number of the message with a sequence number.
def uidAt (f : Folder) (sequence : Nat) : Nat :=
  f.uids.getD (sequence - 1) 0

theorem uidAt_eq (h : i < f.uids.length) : f.uidAt (i + 1) = f.uids[i] := by
  rw [uidAt, Nat.add_sub_cancel, List.getD_eq_getElem?_getD, List.getElem?_eq_getElem h]
  rfl

theorem at?_uid (h₀ : 0 < i) (hi : i ≤ f.messages.length) :
    (f.at? i).map (·.uid) = some (f.uidAt i) := by
  have hlt : i - 1 < f.messages.length := by omega
  simp [at?, Nat.ne_of_gt h₀, uidAt, uids, hlt]

theorem uidAt_lt {j : Nat} (h₀ : 0 < i) (hij : i < j) (hj : j ≤ f.messages.length) :
    f.uidAt i < f.uidAt j := by
  have h := f.uids_ascending
  rw [List.pairwise_iff_getElem] at h
  have hlen : f.uids.length = f.messages.length := length_uids
  obtain ⟨i, rfl⟩ : ∃ k, i = k + 1 := ⟨i - 1, by omega⟩
  obtain ⟨j, rfl⟩ : ∃ k, j = k + 1 := ⟨j - 1, by omega⟩
  rw [uidAt_eq (by omega), uidAt_eq (by omega)]
  exact h i j (by omega) (by omega) (by omega)

theorem uidAt_last (h : 0 < f.messages.length) :
    f.uidAt f.messages.length ∈ f.uids ∧ ∀ u ∈ f.uids, u ≤ f.uidAt f.messages.length := by
  have hlen : f.uids.length = f.messages.length := length_uids
  have hlast : f.uidAt f.messages.length = f.uids[f.messages.length - 1] := by
    rw [← uidAt_eq, Nat.sub_add_cancel h]
  rw [hlast]
  refine ⟨List.getElem_mem _, fun u hu => ?_⟩
  obtain ⟨k, hk, rfl⟩ := List.mem_iff_getElem.mp hu
  rcases Nat.lt_or_ge k (f.messages.length - 1) with hlt | hge
  · exact Nat.le_of_lt <| List.pairwise_iff_getElem.mp f.uids_ascending k _ hk _ hlt
  · exact le_of_eq <| by congr 1; omega

-- The messages from one sequence number to another.
theorem map_uidAt_range {n : Nat} (h : i + n ≤ f.messages.length) :
    (List.range' (i + 1) n).map f.uidAt = (f.uids.drop i).take n := by
  refine List.ext_getElem (by simp; omega) fun k hk hk' => ?_
  simp only [List.length_map, List.length_range'] at hk
  have hlen : f.uids.length = f.messages.length := length_uids
  rw [List.getElem_map, List.getElem_range', List.getElem_take, List.getElem_drop,
    show i + 1 + 1 * k = (i + k) + 1 by omega, uidAt_eq (by omega)]

end Folder

-- What is fetched of a list of sequence numbers that are there.
theorem fetchSequenceUids_eq {sequences : List Nat} (h : sequences.Pairwise (· < ·))
    (hs : ∀ i ∈ sequences, 0 < i ∧ i ≤ s.messageCount) :
    fetchSequenceUids s sequences = .ok (sequences.map s.folder.uidAt) := by
  have hfound : sequences.filterMap (fun i => (s.folder.at? i).map (·.uid)) =
      sequences.map s.folder.uidAt := by
    rw [← List.filterMap_eq_map]
    exact List.filterMap_congr fun i hi => Folder.at?_uid (hs i hi).left (hs i hi).right
  have hascending : (sequences.map s.folder.uidAt).Pairwise (· < ·) := by
    refine List.pairwise_map.mpr (h.imp_of_mem fun hi hj hij => ?_)
    exact Folder.uidAt_lt (hs _ hi).left hij (hs _ hj).right
  rw [fetchSequenceUids]
  split
  case isTrue he => simp [he]
  case isFalse   =>
    rw [hfound, Ascending.sortedSet_eq hascending]
    simp

theorem uidAtSequence_eq (h₀ : 0 < i) (hi : i ≤ s.messageCount) :
    uidAtSequence s i = .ok (s.folder.uidAt i) := by
  rw [uidAtSequence, fetchSequenceUids_eq (List.pairwise_singleton _ _) (by simpa using ⟨h₀, hi⟩)]
  rfl

-- How many messages do not exceed a bound.
def Folder.upTo (f : Folder) (bound : Nat) : Nat :=
  (f.uids.filter (· ≤ bound)).length

theorem Folder.upTo_le {bound : Nat} : f.upTo bound ≤ f.messages.length := by
  rw [← length_uids]
  exact List.length_filter_le _ _

theorem uidAtSequence_above {bound : Nat} (h₀ : 1 ≤ i) (hi : i < s.messageCount + 1) :
    (uidAtSequence s i).map (fun uid => decide (uid > bound)) =
      .ok (decide (s.folder.upTo bound + 1 ≤ i)) := by
  have hlen : s.folder.uids.length = s.messageCount := Folder.length_uids
  obtain ⟨i, rfl⟩ : ∃ k, i = k + 1 := ⟨i - 1, by omega⟩
  rw [uidAtSequence_eq (by omega) (by omega), Folder.uidAt_eq (by omega)]
  refine congrArg Except.ok (decide_eq_decide.mpr ?_)
  rw [gt_iff_lt, Ascending.lt_getElem_iff s.folder.uids_ascending, Nat.add_le_add_iff_right, Folder.upTo]

-- The search comes to the least sequence number that exceeds the bound, or to the one after the last.
theorem firstSequenceAfterUid_eq {bound : Nat} :
    firstSequenceAfterUid s s.messageCount bound = .ok (s.folder.upTo bound + 1) := by
  have hle : s.folder.upTo bound ≤ s.messageCount := Folder.upTo_le
  exact Bisect.bisect_first (fun i h₀ hi => uidAtSequence_above h₀ hi) (by omega) (by omega) (by omega)

theorem lastSequenceAtOrBeforeUid_eq {bound : Nat} :
    lastSequenceAtOrBeforeUid s s.messageCount bound = .ok (s.folder.upTo bound) := by
  have hle : s.folder.upTo bound ≤ s.messageCount := Folder.upTo_le
  rw [← Nat.add_sub_cancel (s.folder.upTo bound) 1]
  exact Bisect.bisect_last (fun i h₀ hi => uidAtSequence_above h₀ hi) (by omega) (by omega) (by omega)

-- What a snapshot says: no number that has been assigned is above it.
theorem snapshot_eq (s : Session) : ∃ uid, snapshot s = .ok (s.folder.uidValidity, uid) ∧
    uid < s.folder.uidNext ∧ ∀ u ∈ s.folder.uids, u ≤ uid := by
  rw [snapshot]
  split
  case isTrue =>
    refine ⟨_, rfl, Nat.pred_lt (Nat.ne_of_gt s.folder.next), fun u hu => ?_⟩
    have := (Folder.uids_assigned hu).right
    omega
  case isFalse =>
    split
    case isTrue hempty =>
      refine ⟨0, rfl, s.folder.next, fun u hu => ?_⟩
      have hnil : s.folder.messages = [] := List.length_eq_zero_iff.mp hempty
      simp [Folder.uids, hnil] at hu
    case isFalse hcount =>
      obtain ⟨hlast, hmax⟩ := Folder.uidAt_last (Nat.pos_of_ne_zero hcount)
      have hat := Folder.at?_uid (f := s.folder) (Nat.pos_of_ne_zero hcount) le_rfl
      obtain ⟨m, hm, hmu⟩ := Option.map_eq_some_iff.mp hat
      rw [hm]
      refine ⟨m.uid, rfl, ?_, fun u hu => ?_⟩
      · rw [hmu]
        exact (Folder.uids_assigned hlast).right
      · rw [hmu]
        exact hmax u hu

end Reads

end Imap
