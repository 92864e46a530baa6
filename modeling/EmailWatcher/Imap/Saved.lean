import EmailWatcher.Imap.Recovery
import EmailWatcher.Imap.RoundTrips

-- What the calls for a mailbox return is read back from the texts that it is saved as.
namespace Imap

open Codec (maxStrDigits isMailboxId)
open Gregorian (Date)

section ReadingBack

-- A cursor that its decoder reads from what its encoder writes.
def Cursor.ReadsBack : Cursor → Prop
  | .incremental mailboxId none uidValidity lastUid =>
    (Codec.cursor mailboxId uidValidity lastUid >>= Codec.decodeCursor) = .ok (↑mailboxId, uidValidity, lastUid)
  | .incremental mailboxId (some folderKey) uidValidity lastUid =>
    (Codec.sentCursor mailboxId folderKey uidValidity lastUid >>= Codec.decodeSentCursor) =
      .ok (↑mailboxId, ↑folderKey, uidValidity, lastUid)
  | .recovery mailboxId none uidValidity upperUid snapshotUid searchDay =>
    ∃ day : Date, day.toordinal = searchDay ∧
      (Codec.recoveryCursor mailboxId uidValidity upperUid snapshotUid day >>= Codec.decodeRecoveryCursor) =
        .ok (↑mailboxId, uidValidity, upperUid, snapshotUid, day)
  | .recovery mailboxId (some folderKey) uidValidity upperUid snapshotUid searchDay =>
    ∃ day : Date, day.toordinal = searchDay ∧
      (Codec.sentRecoveryCursor mailboxId folderKey uidValidity upperUid snapshotUid day >>=
        Codec.decodeSentRecoveryCursor) =
        .ok (↑mailboxId, ↑folderKey, uidValidity, upperUid, snapshotUid, day)

def MessageId.ReadsBack : MessageId → Prop
  | ⟨mailboxId, none, uidValidity, uid⟩           =>
    (Codec.messageId mailboxId uidValidity uid none >>= Codec.decodeAnyMessageId) =
      .ok (↑mailboxId, none, uidValidity, uid)
  | ⟨mailboxId, some folderKey, uidValidity, uid⟩ =>
    (Codec.messageId mailboxId uidValidity uid (some folderKey) >>= Codec.decodeAnyMessageId) =
      .ok (↑mailboxId, some ↑folderKey, uidValidity, uid)

structure MailboxChanges.ReadsBack (r : MailboxChanges) : Prop where
  cursor     : r.cursor.ReadsBack
  messageIds : ∀ id ∈ r.messageIds, id.ReadsBack

-- The mailbox and the folder that a text can name.
def Named (mailboxId : String) (folderKey : Option String) : Prop :=
  isMailboxId mailboxId ∧ ∀ key ∈ folderKey, isMailboxId key

def Cursor.Savable : Cursor → Prop
  | .incremental mailboxId folderKey uidValidity lastUid =>
    Named mailboxId folderKey ∧ 0 < uidValidity ∧ uidValidity < 10 ^ maxStrDigits ∧ lastUid < 10 ^ maxStrDigits
  | .recovery mailboxId folderKey uidValidity upperUid snapshotUid searchDay =>
    Named mailboxId folderKey ∧ validRecovery uidValidity upperUid snapshotUid searchDay ∧
      uidValidity < 10 ^ maxStrDigits ∧ snapshotUid < 10 ^ maxStrDigits

structure MessageId.Savable (id : MessageId) : Prop where
  named    : Named id.mailboxId id.folderKey
  valid    : 0 < id.uidValidity
  validity : id.uidValidity < 10 ^ maxStrDigits
  assigned : 0 < id.uid
  uid      : id.uid < 10 ^ maxStrDigits

structure MailboxChanges.Savable (r : MailboxChanges) : Prop where
  cursor     : r.cursor.Savable
  messageIds : ∀ id ∈ r.messageIds, id.Savable

theorem Cursor.Savable.readsBack {c : Cursor} (h : c.Savable) : c.ReadsBack := by
  cases c
  case incremental mailboxId folderKey uidValidity lastUid =>
    obtain ⟨⟨hm, hk⟩, hpos, hv, hu⟩ := h
    cases folderKey
    case none     => exact (Codec.cursor_roundtrip hm hpos).mpr ⟨hv, hu⟩
    case some key => exact (Codec.sentCursor_roundtrip hm (hk key rfl) hpos).mpr ⟨hv, hu⟩
  case recovery mailboxId folderKey uidValidity upperUid snapshotUid searchDay =>
    obtain ⟨⟨hm, hk⟩, hvalid, hv, hs⟩ := h
    simp only [validRecovery, Bool.and_eq_true, decide_eq_true_eq] at hvalid
    obtain ⟨⟨⟨⟨⟨hpos, hupper⟩, -⟩, hle⟩, hfirst⟩, hlast⟩ := hvalid
    obtain ⟨day, hday⟩ := Date.exists_toordinal ⟨hfirst, hlast⟩
    cases folderKey
    case none     => exact ⟨day, hday, (Codec.recoveryCursor_roundtrip hm hpos).mpr ⟨hv, hupper, hle, hs⟩⟩
    case some key =>
      exact ⟨day, hday, (Codec.sentRecoveryCursor_roundtrip hm (hk key rfl) hpos).mpr ⟨hv, hupper, hle, hs⟩⟩

theorem MessageId.Savable.readsBack {id : MessageId} (h : id.Savable) : id.ReadsBack := by
  obtain ⟨mailboxId, folderKey, uidValidity, uid⟩ := id
  obtain ⟨⟨hm, hk⟩, hpos, hv, hassigned, hu⟩ := h
  cases folderKey
  case none     => exact (Codec.anyMessageId_none_roundtrip hm hpos).mpr ⟨hv, hu, hassigned⟩
  case some key => exact (Codec.anyMessageId_some_roundtrip hm (hk key rfl) hpos).mpr ⟨hv, hu, hassigned⟩

theorem MailboxChanges.Savable.readsBack {r : MailboxChanges} (h : r.Savable) : r.ReadsBack where
  cursor            := h.cursor.readsBack
  messageIds id hid := (h.messageIds id hid).readsBack

end ReadingBack

section Returning

-- A session whose numbers are short enough, and whose Sent folder has a key.
structure Session.Writable (s : Session) : Prop where
  validity  : s.folder.uidValidity < 10 ^ maxStrDigits
  next      : s.folder.uidNext ≤ 10 ^ maxStrDigits
  folderKey : ∀ name key, s.sentFolder = .selected name key → isMailboxId key

variable {mailboxId folder : String} {folderKey : Option String} {s : Session} {saved upper snapshotUid day : Nat}
  {since : Day} {r : MailboxChanges} {c : Cursor} {uids : List Nat}

theorem Session.Writable.incremental (hs : s.Writable) (hn : Named mailboxId folderKey)
    (hu : saved < s.folder.uidNext) :
    (Cursor.incremental mailboxId folderKey s.folder.uidValidity saved).Savable :=
  ⟨hn, s.folder.valid, hs.validity, hu.trans_le hs.next⟩

theorem Session.Writable.messageIds (hs : s.Writable) (hn : Named mailboxId folderKey)
    (hu : ∀ u ∈ uids, u ∈ s.folder.uids) :
    ∀ id ∈ uids.map (⟨mailboxId, folderKey, s.folder.uidValidity, ·⟩), MessageId.Savable id := by
  simp only [List.forall_mem_map]
  intro u hmem
  obtain ⟨hpos, hnext⟩ := Folder.uids_assigned (hu u hmem)
  exact ⟨hn, s.folder.valid, hs.validity, hpos, hnext.trans_le hs.next⟩

theorem readChanges_savable (hs : s.Writable) (hn : Named mailboxId folderKey) {validity : Nat}
    (h : readChanges mailboxId folder folderKey s validity saved = .ok r) : r.Savable := by
  by_cases hvalidity : s.folder.uidValidity = validity
  case pos =>
    subst hvalidity
    obtain ⟨uids, next, drained, hpage, hr⟩ := readChanges_eq mailboxId folder folderKey s saved
    obtain rfl := Except.ok.inj (hr.symm.trans h)
    exact ⟨hs.incremental hn hpage.assigned, hs.messageIds hn fun u hu => (hpage.mem hu).left⟩
  case neg =>
    obtain ⟨snap, hsnap, -⟩ := snapshot_eq s
    rw [readChanges, hsnap] at h
    simp [Bind.bind, Except.bind, hvalidity] at h

theorem recoveryPage_savable (hs : s.Writable) (hn : Named mailboxId folderKey)
    (hv : validRecovery s.folder.uidValidity upper snapshotUid day) (hsnap : snapshotUid < 10 ^ maxStrDigits)
    (h : recoveryPage mailboxId folderKey s s.folder.uidValidity upper snapshotUid day = .ok r) : r.Savable := by
  cases he : s.expunged
  case true  => simp [recoveryPage, rejectRecoveryExpunge, he, Bind.bind, Except.bind] at h
  case false =>
    simp only [validRecovery, Bool.and_eq_true, decide_eq_true_eq] at hv
    obtain ⟨⟨⟨⟨⟨hpos, hupper⟩, hsnapshot⟩, hle⟩, hfirst⟩, hlast⟩ := hv
    obtain ⟨uids, next, hpage, hr⟩ := recoveryPage_eq day mailboxId folderKey he hupper hle
    obtain rfl := Except.ok.inj (hr.symm.trans h)
    refine ⟨?_, hs.messageIds hn fun u hu => (hpage.within u hu).left⟩
    dsimp only
    split
    case isTrue        => exact ⟨hn, hpos, hs.validity, hsnap⟩
    case isFalse hnext =>
      refine ⟨hn, ?_, hs.validity, hsnap⟩
      have hlower := hpage.lower
      simp only [validRecovery, Bool.and_eq_true, decide_eq_true_eq]
      omega

theorem recoverFrom_savable (hs : s.Writable) (hn : Named mailboxId folderKey) (hd : 1 ≤ day ∧ day ≤ 3652059)
    (h : recoverFrom mailboxId folderKey s day = .ok r) : r.Savable := by
  obtain ⟨snap, hsnap, hnext, -⟩ := snapshot_eq s
  rw [recoverFrom, hsnap] at h
  cases he : s.expunged
  case true  => simp [rejectRecoveryExpunge, he, Bind.bind, Except.bind] at h
  case false =>
    simp only [rejectRecoveryExpunge, he, Bool.false_eq_true, if_false, Bind.bind, Except.bind] at h
    split at h
    case isTrue       =>
      obtain rfl := Except.ok.inj h
      exact ⟨hs.incremental hn s.folder.next, by simp⟩
    case isFalse hpos =>
      refine recoveryPage_savable hs hn ?_ (hnext.trans_le hs.next) h
      have hvalid := s.folder.valid
      simp only [validRecovery, Bool.and_eq_true, decide_eq_true_eq]
      omega

theorem resumeRecovery_savable (hs : s.Writable)
    (hc : (Cursor.recovery mailboxId folderKey saved upper snapshotUid day).Savable)
    (h : resumeRecovery mailboxId folderKey s saved upper snapshotUid day = .ok r) : r.Savable := by
  obtain ⟨hn, hvalid, -, hsnap⟩ := hc
  rw [resumeRecovery] at h
  split at h
  case isTrue        =>
    simp only [validRecovery, Bool.and_eq_true, decide_eq_true_eq] at hvalid
    exact recoverFrom_savable hs hn ⟨hvalid.left.right, hvalid.right⟩ h
  case isFalse hsame =>
    obtain rfl := not_not.mp hsame
    exact recoveryPage_savable hs hn hvalid hsnap h

theorem Session.Writable.sentFolder {name key : String} (hs : s.Writable) (hm : isMailboxId mailboxId)
    (h : requireSentFolder s = .ok (name, key)) : Named mailboxId (some key) := by
  rw [requireSentFolder.eq_def] at h
  split at h
  case h_1 | h_2                    => cases h
  case h_3 name' folderKey hselected =>
    obtain ⟨rfl, rfl⟩ := Prod.mk.inj (Except.ok.inj h)
    refine ⟨hm, fun key hkey => ?_⟩
    obtain rfl := Option.some.inj hkey
    exact hs.folderKey _ _ hselected

theorem named_none (hm : isMailboxId mailboxId) : Named mailboxId none :=
  ⟨hm, fun _ hkey => by cases hkey⟩

theorem incrementalChanges_savable {sent : Bool} (hs : s.Writable) (hm : isMailboxId mailboxId)
    (h : incrementalChanges mailboxId s c sent = .ok r) : r.Savable := by
  rw [incrementalChanges] at h
  split at h
  case isTrue  =>
    obtain ⟨⟨savedMailbox, savedFolderKey, savedValidity, savedUid⟩, -, h⟩ := Transaction.bind_eq_ok.mp h
    dsimp only at h
    split at h
    case isTrue  => cases h
    case isFalse =>
      obtain ⟨⟨folder, key⟩, hsent, h⟩ := Transaction.bind_eq_ok.mp h
      dsimp only at h
      split at h
      case isTrue  => cases h
      case isFalse => exact readChanges_savable hs (hs.sentFolder hm hsent) h
  case isFalse =>
    obtain ⟨⟨savedMailbox, savedValidity, savedUid⟩, -, h⟩ := Transaction.bind_eq_ok.mp h
    dsimp only at h
    split at h
    case isTrue  => cases h
    case isFalse => exact readChanges_savable hs (named_none hm) h

theorem changesSince_savable (hs : s.Writable) (hm : isMailboxId mailboxId) (hc : c.Savable)
    (h : changesSince mailboxId s c = .ok r) : r.Savable := by
  rw [changesSince.eq_def] at h
  split at h
  case h_1 savedMailbox savedValidity upper snapshotUid day =>
    split at h
    case isTrue  => cases h
    case isFalse =>
      split at h
      case isTrue        => cases h
      case isFalse hsame =>
        obtain rfl := not_not.mp hsame
        exact resumeRecovery_savable hs hc h
  case h_2 => exact incrementalChanges_savable hs hm h

theorem sentChangesSince_savable (hs : s.Writable) (hm : isMailboxId mailboxId) (hc : c.Savable)
    (h : sentChangesSince mailboxId s c = .ok r) : r.Savable := by
  rw [sentChangesSince.eq_def] at h
  split at h
  case h_1 savedMailbox savedFolderKey savedValidity upper snapshotUid day =>
    split at h
    case isTrue  => cases h
    case isFalse =>
      obtain ⟨⟨folder, key⟩, -, h⟩ := Transaction.bind_eq_ok.mp h
      dsimp only at h
      split at h
      case isTrue        => cases h
      case isFalse hsame =>
        obtain ⟨rfl, rfl⟩ := not_or.mp hsame |>.imp not_not.mp not_not.mp
        exact resumeRecovery_savable hs hc h
  case h_2 => exact incrementalChanges_savable hs hm h

theorem recoverSince_savable (hs : s.Writable) (hm : isMailboxId mailboxId)
    (h : recoverSince mailboxId s since = .ok r) : r.Savable :=
  recoverFrom_savable hs (named_none hm) (recoverySearchDay since).property h

theorem sentRecoverSince_savable (hs : s.Writable) (hm : isMailboxId mailboxId)
    (h : sentRecoverSince mailboxId s since = .ok r) : r.Savable := by
  obtain ⟨⟨folder, key⟩, hsent, h⟩ := Transaction.bind_eq_ok.mp h
  exact recoverFrom_savable hs (hs.sentFolder hm hsent) (recoverySearchDay since).property h

theorem initialCursor_savable (hs : s.Writable) (hm : isMailboxId mailboxId)
    (h : initialCursor mailboxId s = .ok c) : c.Savable := by
  obtain ⟨snap, hsnap, hnext, -⟩ := snapshot_eq s
  rw [initialCursor, hsnap] at h
  obtain rfl := Except.ok.inj h
  exact hs.incremental (named_none hm) hnext

theorem sentInitialCursor_savable (hs : s.Writable) (hm : isMailboxId mailboxId)
    (h : sentInitialCursor mailboxId s = .ok c) : c.Savable := by
  obtain ⟨⟨folder, key⟩, hsent, h⟩ := Transaction.bind_eq_ok.mp h
  obtain ⟨snap, hsnap, hnext, -⟩ := snapshot_eq s
  rw [hsnap] at h
  obtain rfl := Except.ok.inj h
  exact hs.incremental (hs.sentFolder hm hsent) hnext

end Returning

section Calls

variable (mailboxId : String) (sessions : Session → Prop)

-- What the calls return, each of which is given a cursor that a call has returned.
inductive Returned : MailboxChanges → Prop
  | initial {s c}           : sessions s → initialCursor mailboxId s = .ok c →
    Returned { messageIds := [], cursor := c }
  | sentInitial {s c}       : sessions s → sentInitialCursor mailboxId s = .ok c →
    Returned { messageIds := [], cursor := c }
  | recover {s since r}     : sessions s → recoverSince mailboxId s since = .ok r → Returned r
  | sentRecover {s since r} : sessions s → sentRecoverSince mailboxId s since = .ok r → Returned r
  | changes {s saved r}     : Returned saved → sessions s → changesSince mailboxId s saved.cursor = .ok r →
    Returned r
  | sentChanges {s saved r} : Returned saved → sessions s → sentChangesSince mailboxId s saved.cursor = .ok r →
    Returned r

variable {mailboxId sessions} {r : MailboxChanges}

theorem Returned.savable (hm : isMailboxId mailboxId) (hs : ∀ s, sessions s → s.Writable)
    (h : Returned mailboxId sessions r) : r.Savable := by
  induction h
  case initial s c hsession h     => exact ⟨initialCursor_savable (hs s hsession) hm h, by simp⟩
  case sentInitial s c hsession h => exact ⟨sentInitialCursor_savable (hs s hsession) hm h, by simp⟩
  case recover hsession h         => exact recoverSince_savable (hs _ hsession) hm h
  case sentRecover hsession h     => exact sentRecoverSince_savable (hs _ hsession) hm h
  case changes hsession h ih      => exact changesSince_savable (hs _ hsession) hm ih.cursor h
  case sentChanges hsession h ih  => exact sentChangesSince_savable (hs _ hsession) hm ih.cursor h

end Calls

section Theorem

-- Cursors and message ids are read as they have been written, and as nothing else. Of the damaged ones, those
-- with too many digits and those with a day beyond a C `int` are not refused.
theorem codecs_exact (text : Text) :
    (∀ mailboxId folderKey validity, isMailboxId mailboxId → isMailboxId folderKey → 0 < validity →
      ∀ uid snapshot day, Codec.RoundTrips mailboxId folderKey validity uid snapshot day) ∧
    (∀ (mailboxId : String) sessions, isMailboxId mailboxId → (∀ s, sessions s → s.Writable) →
      ∀ r, Returned mailboxId sessions r → r.ReadsBack) ∧
    Codec.Apart text ∧ Codec.Refusals text :=
  ⟨fun _ _ _ hm hk hpos _ _ _ => Codec.roundTrips hm hk hpos,
    fun _ _ hm hs _ h => (h.savable hm hs).readsBack,
    Codec.apart text, Codec.refusals text⟩

namespace Sample

def folder : Folder where
  uidValidity := 3
  uidNext     := 1
  messages    := []
  valid       := by decide
  next        := by decide
  ascending   := .nil
  assigned    := by simp

def session : Session where
  folder         := folder
  reportsUidNext := true
  sentFolder     := .missing
  expunged       := false

def mailboxId : String :=
  "0000000000000000000000000000000000000000000000000000000000000000"

theorem writable : session.Writable where
  validity        := Codec.short_of_lt (by decide)
  next            := (Codec.short_of_lt (n := 1) (by decide)).le
  folderKey _ _ h := by cases h

end Sample

-- The eighth message of a mailbox, its first cursor, and a text that says nothing.
theorem codecs_exact_empty :
    (Codec.messageId Sample.mailboxId 3 8 none >>= Codec.decodeAnyMessageId) = .ok (↑Sample.mailboxId, none, 3, 8) ∧
    (Cursor.incremental Sample.mailboxId none 3 0).ReadsBack ∧
    Codec.Handled Codec.invalidCursor (Codec.decodeRecoveryCursor []) := by
  obtain ⟨hroundTrips, hreturned, -, hrefusals⟩ := codecs_exact []
  have hmailbox : isMailboxId Sample.mailboxId := by decide +kernel
  obtain ⟨day, -⟩ := Date.exists_toordinal (n := 1) (by decide)
  refine ⟨?_, ?_, ?_⟩
  · have hshort : 3 < 10 ^ maxStrDigits ∧ 8 < 10 ^ maxStrDigits ∧ 0 < 8 :=
      ⟨Codec.short_of_lt (by decide), Codec.short_of_lt (by decide), by decide⟩
    exact (hroundTrips _ _ 3 hmailbox hmailbox (by decide) 8 0 day).anyInbox.mpr hshort
  · have hwritable : ∀ s, s = Sample.session → s.Writable := fun s hs => hs ▸ Sample.writable
    exact (hreturned _ (· = Sample.session) hmailbox hwritable _ (.initial rfl rfl)).cursor
  · exact hrefusals.recovery.mpr fun _ _ _ _ _ h => absurd h.starts (by decide)

-- A day that is beyond a C `int` is no day, and is not refused as one.
theorem codecs_exact_overflows :
    let text := Codec.recoveryCursorPrefix ++ Sample.mailboxId ++ ((":1:1:1:2147483648" : String) : Text)
    Codec.decodeRecoveryCursor text = .error .overflowError ∧
    ¬∀ text, Codec.Handled Codec.invalidCursor (Codec.decodeRecoveryCursor text) := by
  intro text
  have hraised : Codec.decodeRecoveryCursor text = .error .overflowError := rfl
  refine ⟨hraised, fun h => ?_⟩
  have hhandled := h text
  rw [hraised, Codec.handled_error] at hhandled
  cases hhandled

end Theorem

end Imap
