import EmailWatcher.Imap.Codecs

-- What becomes of damaged cursors and message ids.
namespace Imap.Codec

open Decimal (isdecimal)
open Fields (Form)
open Gregorian (Date)

section Handling

-- A result is a value, or the error that texts are refused with.
def Handled {β : Type} (refusal : Raised) (result : Except Raised β) : Prop :=
  ∀ e, result = .error e → e = refusal

variable {α β : Type} {refusal : Raised} {text validity uid upper snapshot ordinal : Text} {f : Nat → Except Raised β}

@[simp]
theorem handled_ok {x : β} : Handled refusal (.ok x) := by
  rintro e ⟨⟩

@[simp]
theorem handled_error {e : Raised} : Handled refusal (.error e : Except Raised β) ↔ e = refusal := by
  constructor
  case mp  => exact fun h => h e rfl
  case mpr =>
    rintro rfl e ⟨⟩
    rfl

@[simp]
theorem handled_bind_pure {g : α → β} {result : Except Raised α} :
    Handled refusal (result >>= fun x => pure (g x)) ↔ Handled refusal result := by
  cases result
  case error e => rw [handled_error]; exact handled_error
  case ok x    => exact iff_of_true handled_ok handled_ok

theorem handled_int_bind (hr : refusal ≠ .valueError) :
    Handled refusal (int text >>= f) ↔ text.length ≤ maxStrDigits ∧ Handled refusal (f (Decimal.value text)) := by
  rw [int]
  split
  case isTrue h  => exact iff_of_false (fun hh => hr (hh _ rfl).symm) fun hh => Nat.not_lt.mpr hh.left h
  case isFalse h => exact (and_iff_right (Nat.not_lt.mp h)).symm

theorem handled_readNumbers {refuses : Nat → Nat → Bool} (hr : refusal ≠ .valueError) :
    Handled refusal (readNumbers refusal refuses validity uid) ↔
    validity.length ≤ maxStrDigits ∧ uid.length ≤ maxStrDigits := by
  rw [readNumbers, handled_int_bind hr, handled_int_bind hr]
  refine and_congr_right fun _ => and_iff_left ?_
  split
  case isTrue  => exact handled_error.mpr rfl
  case isFalse => exact handled_ok

theorem handled_readSentNumbers (hr : refusal ≠ .valueError) :
    Handled refusal (readSentNumbers refusal validity uid) ↔
    validity.length ≤ maxStrDigits ∧ (0 < Decimal.value validity → uid.length ≤ maxStrDigits) := by
  rw [readSentNumbers, handled_int_bind hr]
  refine and_congr_right fun _ => ?_
  split
  case isTrue h  => exact iff_of_true (handled_error.mpr rfl) fun hpos => absurd h (Nat.not_le.mpr hpos)
  case isFalse h =>
    rw [handled_int_bind hr, forall_prop_of_true (Nat.not_le.mp h)]
    exact and_iff_left handled_ok

-- An ordinal of too many digits makes the cursor invalid. One that has few enough may be too large.
theorem readSearchDay_eq (ordinal : Text) : readSearchDay ordinal =
    if ordinal.length > maxStrDigits then .error invalidCursor
    else if Decimal.value ordinal > maxInt then .error .overflowError
    else (Date.fromordinal (Decimal.value ordinal)).elim (.error invalidCursor) .ok := by
  rw [readSearchDay, int]
  split_ifs with hlong hlarge
  · rfl
  · simp only [Bind.bind, Except.bind, fromordinal, if_pos hlarge]
  · simp only [Bind.bind, Except.bind, fromordinal, if_neg hlarge]
    cases Date.fromordinal (Decimal.value ordinal) <;> rfl

theorem handled_readSearchDay :
    Handled invalidCursor (readSearchDay ordinal) ↔
    (ordinal.length ≤ maxStrDigits → Decimal.value ordinal ≤ maxInt) := by
  rw [readSearchDay_eq]
  split_ifs with hlong hlarge
  · exact iff_of_true (handled_error.mpr rfl) fun h => absurd hlong (Nat.not_lt.mpr h)
  · refine iff_of_false (fun h => absurd (handled_error.mp h) (by decide)) fun h => ?_
    exact Nat.not_lt.mpr (h (Nat.not_lt.mp hlong)) hlarge
  · refine iff_of_true ?_ fun _ => Nat.not_lt.mp hlarge
    cases Date.fromordinal (Decimal.value ordinal)
    case none => exact handled_error.mpr rfl
    case some => exact handled_ok

theorem handled_readRecovery :
    Handled invalidCursor (readRecovery validity upper snapshot ordinal) ↔
    validity.length ≤ maxStrDigits ∧ upper.length ≤ maxStrDigits ∧ snapshot.length ≤ maxStrDigits ∧
    (ordinal.length ≤ maxStrDigits → Decimal.value ordinal ≤ maxInt) := by
  have hr : invalidCursor ≠ .valueError := by decide
  rw [readRecovery, handled_int_bind hr, handled_int_bind hr, handled_int_bind hr, ← handled_readSearchDay]
  refine and_congr_right fun _ => and_congr_right fun _ => and_congr_right fun _ => ?_
  cases readSearchDay ordinal
  case error e =>
    rw [handled_error]
    exact handled_error
  case ok day  =>
    refine iff_of_true ?_ handled_ok
    change Handled invalidCursor (ite _ _ _)
    split
    case isTrue  => exact handled_error.mpr rfl
    case isFalse => exact handled_ok

end Handling

section Totality

variable {β : Type} {text : Text} {fs : List Text} {f : Form CodePoint} {refusal : Raised}
  {read : List Text → Except Raised β} {decode : Text → Except Raised β}

theorem Follows.handled (h : Follows f refusal read decode) :
    Handled refusal (decode text) ↔ ∀ fs, f.Reads text fs → Handled refusal (read fs) := by
  constructor
  case mp  =>
    intro hh fs hr
    rwa [h.reads text fs hr] at hh
  case mpr =>
    intro hh
    by_cases hr : ∃ fs, f.Reads text fs
    case pos =>
      obtain ⟨fs, hr⟩ := hr
      rw [h.reads text fs hr]
      exact hh fs hr
    case neg =>
      rw [h.refuses text (not_exists.mp hr)]
      exact handled_error.mpr rfl

theorem readPartitioned_eq {last : Field} {refuses : Nat → Nat → Bool} {mailboxId validity uid : Text}
    (hm : isMailboxId mailboxId) (hv : isdecimal validity) (hu : last.accepts uid) :
    readPartitioned last.accepts refusal refuses [mailboxId, validity, uid] =
      (readNumbers refusal refuses validity uid >>= fun x => pure (mailboxId, x)) := by
  simp [readPartitioned, hm, hv, hu]

theorem decodeSentFields_eq {last : Field} {mailboxId folderKey validity uid : Text}
    (hm : isMailboxId mailboxId) (hf : isMailboxId folderKey) (hv : isdecimal validity) (hu : last.accepts uid) :
    decodeSentFields last.accepts refusal [mailboxId, folderKey, validity, uid] =
      (readSentNumbers refusal validity uid >>= fun x => pure (mailboxId, folderKey, x)) := by
  simp [decodeSentFields, hm, hf, hv, hu]

theorem decodeRecoveryFields_eq {mailboxId validity upper snapshot ordinal : Text} (hm : isMailboxId mailboxId)
    (hv : isdecimal validity) (hu : isdecimal upper) (hs : isdecimal snapshot) (ho : isdecimal ordinal) :
    decodeRecoveryFields [mailboxId, validity, upper, snapshot, ordinal] =
      (readRecovery validity upper snapshot ordinal >>= fun x => pure (mailboxId, x)) := by
  simp [decodeRecoveryFields, hm, hv, hu, hs, ho]

theorem decodeSentRecoveryFields_eq {mailboxId folderKey validity upper snapshot ordinal : Text}
    (hm : isMailboxId mailboxId) (hf : isMailboxId folderKey) (hv : isdecimal validity) (hu : isdecimal upper)
    (hs : isdecimal snapshot) (ho : isdecimal ordinal) :
    decodeSentRecoveryFields [mailboxId, folderKey, validity, upper, snapshot, ordinal] =
      (readRecovery validity upper snapshot ordinal >>= fun x => pure (mailboxId, folderKey, x)) := by
  simp [decodeSentRecoveryFields, hm, hf, hv, hu, hs, ho]

theorem Follows.handled_partitioned {start : Text} {last : Field} {refuses : Nat → Nat → Bool}
    {decode : Text → Except Raised (Text × Nat × Nat)}
    (h : Follows (form start [.mailboxId, .decimal, last] (by simp)) refusal
      (readPartitioned last.accepts refusal refuses) decode)
    (hr : refusal ≠ .valueError) :
    Handled refusal (decode text) ↔ ∀ mailboxId validity uid,
      (form start [.mailboxId, .decimal, last] (by simp)).Reads text [mailboxId, validity, uid] →
      validity.length ≤ maxStrDigits ∧ uid.length ≤ maxStrDigits := by
  rw [h.handled]
  constructor
  case mp  =>
    intro hh m v u hreads
    obtain ⟨_, _, _, ⟨⟩, hm, hv, hu⟩ := accepted_three hreads.fields
    have hhandled := hh _ hreads
    rwa [readPartitioned_eq hm hv hu, handled_bind_pure, handled_readNumbers hr] at hhandled
  case mpr =>
    intro hh fs hreads
    obtain ⟨m, v, u, rfl, hm, hv, hu⟩ := accepted_three hreads.fields
    rw [readPartitioned_eq hm hv hu, handled_bind_pure, handled_readNumbers hr]
    exact hh m v u hreads

theorem Follows.handled_sent {start : Text} {last : Field} {decode : Text → Except Raised (Text × Text × Nat × Nat)}
    (h : Follows (form start [.mailboxId, .mailboxId, .decimal, last] (by simp)) refusal
      (decodeSentFields last.accepts refusal) decode)
    (hr : refusal ≠ .valueError) :
    Handled refusal (decode text) ↔ ∀ mailboxId folderKey validity uid,
      (form start [.mailboxId, .mailboxId, .decimal, last] (by simp)).Reads text
        [mailboxId, folderKey, validity, uid] →
      validity.length ≤ maxStrDigits ∧ (0 < Decimal.value validity → uid.length ≤ maxStrDigits) := by
  rw [h.handled]
  constructor
  case mp  =>
    intro hh m k v u hreads
    obtain ⟨_, _, _, _, ⟨⟩, hm, hk, hv, hu⟩ := accepted_four hreads.fields
    have hhandled := hh _ hreads
    rwa [decodeSentFields_eq hm hk hv hu, handled_bind_pure, handled_readSentNumbers hr] at hhandled
  case mpr =>
    intro hh fs hreads
    obtain ⟨m, k, v, u, rfl, hm, hk, hv, hu⟩ := accepted_four hreads.fields
    rw [decodeSentFields_eq hm hk hv hu, handled_bind_pure, handled_readSentNumbers hr]
    exact hh m k v u hreads

theorem handled_decodeCursor : Handled invalidCursor (decodeCursor text) ↔
    ∀ mailboxId validity uid, cursorForm.Reads text [mailboxId, validity, uid] →
      validity.length ≤ maxStrDigits ∧ uid.length ≤ maxStrDigits :=
  decodeCursor_follows.handled_partitioned (by decide)

theorem handled_decodeSentCursor : Handled invalidCursor (decodeSentCursor text) ↔
    ∀ mailboxId folderKey validity uid, sentCursorForm.Reads text [mailboxId, folderKey, validity, uid] →
      validity.length ≤ maxStrDigits ∧ (0 < Decimal.value validity → uid.length ≤ maxStrDigits) :=
  decodeSentCursor_follows.handled_sent (by decide)

-- The numbers of a recovery cursor that are read without an error of their own.
structure Readable (validity upper snapshot ordinal : Text) : Prop where
  validity : validity.length ≤ maxStrDigits
  upper    : upper.length ≤ maxStrDigits
  snapshot : snapshot.length ≤ maxStrDigits
  ordinal  : ordinal.length ≤ maxStrDigits → Decimal.value ordinal ≤ maxInt

theorem handled_decodeRecoveryCursor : Handled invalidCursor (decodeRecoveryCursor text) ↔
    ∀ mailboxId validity upper snapshot ordinal,
      recoveryCursorForm.Reads text [mailboxId, validity, upper, snapshot, ordinal] →
      Readable validity upper snapshot ordinal := by
  rw [decodeRecoveryCursor_follows.handled]
  constructor
  case mp  =>
    intro hh m v u s o hreads
    obtain ⟨_, _, _, _, _, ⟨⟩, hm, hv, hu, hs, ho⟩ := accepted_five hreads.fields
    have hhandled := hh _ hreads
    rw [decodeRecoveryFields_eq hm hv hu hs ho, handled_bind_pure, handled_readRecovery] at hhandled
    exact ⟨hhandled.left, hhandled.right.left, hhandled.right.right.left, hhandled.right.right.right⟩
  case mpr =>
    intro hh fs hreads
    obtain ⟨m, v, u, s, o, rfl, hm, hv, hu, hs, ho⟩ := accepted_five hreads.fields
    obtain ⟨hvalidity, hupper, hsnapshot, hordinal⟩ := hh m v u s o hreads
    rw [decodeRecoveryFields_eq hm hv hu hs ho, handled_bind_pure, handled_readRecovery]
    exact ⟨hvalidity, hupper, hsnapshot, hordinal⟩

theorem handled_decodeSentRecoveryCursor : Handled invalidCursor (decodeSentRecoveryCursor text) ↔
    ∀ mailboxId folderKey validity upper snapshot ordinal,
      sentRecoveryCursorForm.Reads text [mailboxId, folderKey, validity, upper, snapshot, ordinal] →
      Readable validity upper snapshot ordinal := by
  rw [decodeSentRecoveryCursor_follows.handled]
  constructor
  case mp  =>
    intro hh m k v u s o hreads
    obtain ⟨_, _, _, _, _, _, ⟨⟩, hm, hk, hv, hu, hs, ho⟩ := accepted_six hreads.fields
    have hhandled := hh _ hreads
    rw [decodeSentRecoveryFields_eq hm hk hv hu hs ho, handled_bind_pure, handled_readRecovery] at hhandled
    exact ⟨hhandled.left, hhandled.right.left, hhandled.right.right.left, hhandled.right.right.right⟩
  case mpr =>
    intro hh fs hreads
    obtain ⟨m, k, v, u, s, o, rfl, hm, hk, hv, hu, hs, ho⟩ := accepted_six hreads.fields
    obtain ⟨hvalidity, hupper, hsnapshot, hordinal⟩ := hh m k v u s o hreads
    rw [decodeSentRecoveryFields_eq hm hk hv hu hs ho, handled_bind_pure, handled_readRecovery]
    exact ⟨hvalidity, hupper, hsnapshot, hordinal⟩

theorem handled_decodeMessageId : Handled invalidMessageId (decodeMessageId text) ↔
    ∀ mailboxId validity uid, messageIdForm.Reads text [mailboxId, validity, uid] →
      validity.length ≤ maxStrDigits ∧ uid.length ≤ maxStrDigits :=
  decodeMessageId_follows.handled_partitioned (by decide)

theorem decodeAnyMessageId_of_starts (h : sentMessageIdPrefix <+: text) : decodeAnyMessageId text =
    (decodeSentFields isUid invalidMessageId (splitFields sentMessageIdPrefix text) >>= fun x =>
      pure (x.1, some x.2.1, x.2.2)) := by
  have hstarts : sentMessageIdPrefix.isPrefixOf text = true := List.isPrefixOf_iff_prefix.mpr h
  rw [decodeAnyMessageId, splitFields, hstarts]
  rfl

theorem decodeAnyMessageId_of_not_starts (h : ¬sentMessageIdPrefix <+: text) : decodeAnyMessageId text =
    (decodeMessageId text >>= fun x => pure (x.1, none, x.2)) := by
  have hstarts : sentMessageIdPrefix.isPrefixOf text = false := by
    rw [← Bool.not_eq_true, List.isPrefixOf_iff_prefix]
    exact h
  rw [decodeAnyMessageId, hstarts]
  rfl

-- The id of a message of the Inbox is not spelled like one of the Sent folder.
theorem not_starts_of_messageIdPrefix (h : messageIdPrefix <+: text) : ¬sentMessageIdPrefix <+: text := by
  intro hs
  have hcomparable := List.prefix_or_prefix_of_prefix hs h
  exact absurd hcomparable (by decide)

theorem handled_decodeAnyMessageId : Handled invalidMessageId (decodeAnyMessageId text) ↔
    (∀ mailboxId validity uid, messageIdForm.Reads text [mailboxId, validity, uid] →
      validity.length ≤ maxStrDigits ∧ uid.length ≤ maxStrDigits) ∧
    ∀ mailboxId folderKey validity uid, sentMessageIdForm.Reads text [mailboxId, folderKey, validity, uid] →
      validity.length ≤ maxStrDigits ∧ (0 < Decimal.value validity → uid.length ≤ maxStrDigits) := by
  by_cases h : sentMessageIdPrefix <+: text
  case pos =>
    rw [decodeAnyMessageId_of_starts h, handled_bind_pure]
    refine (decodeSentMessageId_follows.handled_sent (by decide)).trans ?_
    exact (and_iff_right fun m v u hr => absurd h (not_starts_of_messageIdPrefix hr.starts)).symm
  case neg =>
    rw [decodeAnyMessageId_of_not_starts h, handled_bind_pure, handled_decodeMessageId]
    exact (and_iff_left fun m k v u hr => absurd hr.starts h).symm

-- Which texts a decoder reads or refuses, and raises no other error of.
structure Refusals (text : Text) : Prop where
  incremental     : Handled invalidCursor (decodeCursor text) ↔
    ∀ mailboxId validity uid, cursorForm.Reads text [mailboxId, validity, uid] →
      validity.length ≤ maxStrDigits ∧ uid.length ≤ maxStrDigits
  sentIncremental : Handled invalidCursor (decodeSentCursor text) ↔
    ∀ mailboxId folderKey validity uid, sentCursorForm.Reads text [mailboxId, folderKey, validity, uid] →
      validity.length ≤ maxStrDigits ∧ (0 < Decimal.value validity → uid.length ≤ maxStrDigits)
  recovery        : Handled invalidCursor (decodeRecoveryCursor text) ↔
    ∀ mailboxId validity upper snapshot ordinal,
      recoveryCursorForm.Reads text [mailboxId, validity, upper, snapshot, ordinal] →
      Readable validity upper snapshot ordinal
  sentRecovery    : Handled invalidCursor (decodeSentRecoveryCursor text) ↔
    ∀ mailboxId folderKey validity upper snapshot ordinal,
      sentRecoveryCursorForm.Reads text [mailboxId, folderKey, validity, upper, snapshot, ordinal] →
      Readable validity upper snapshot ordinal
  inbox           : Handled invalidMessageId (decodeMessageId text) ↔
    ∀ mailboxId validity uid, messageIdForm.Reads text [mailboxId, validity, uid] →
      validity.length ≤ maxStrDigits ∧ uid.length ≤ maxStrDigits
  any             : Handled invalidMessageId (decodeAnyMessageId text) ↔
    (∀ mailboxId validity uid, messageIdForm.Reads text [mailboxId, validity, uid] →
      validity.length ≤ maxStrDigits ∧ uid.length ≤ maxStrDigits) ∧
    ∀ mailboxId folderKey validity uid, sentMessageIdForm.Reads text [mailboxId, folderKey, validity, uid] →
      validity.length ≤ maxStrDigits ∧ (0 < Decimal.value validity → uid.length ≤ maxStrDigits)

theorem refusals (text : Text) : Refusals text where
  incremental     := handled_decodeCursor
  sentIncremental := handled_decodeSentCursor
  recovery        := handled_decodeRecoveryCursor
  sentRecovery    := handled_decodeSentRecoveryCursor
  inbox           := handled_decodeMessageId
  any             := handled_decodeAnyMessageId

end Totality

section Apartness

variable {α β : Type} {text : Text} {f f' : Form CodePoint} {refusal refusal' : Raised}
  {read : List Text → Except Raised α} {read' : List Text → Except Raised β}
  {decode : Text → Except Raised α} {decode' : Text → Except Raised β}

def Accepts {β : Type} (decode : Text → Except Raised β) (text : Text) : Prop :=
  ∃ x, decode text = .ok x

theorem Follows.reads_of_accepts (h : Follows f refusal read decode) (ha : Accepts decode text) :
    ∃ fs, f.Reads text fs := by
  obtain ⟨x, hx⟩ := ha
  by_contra hnone
  rw [h.refuses text (not_exists.mp hnone)] at hx
  cases hx

-- Decoders of forms that start differently.
theorem Follows.apart (h : Follows f refusal read decode) (h' : Follows f' refusal' read' decode')
    (hs : ¬f.start <+: f'.start) (hs' : ¬f'.start <+: f.start) : ¬(Accepts decode text ∧ Accepts decode' text) := by
  rintro ⟨ha, ha'⟩
  obtain ⟨fs, hr⟩ := h.reads_of_accepts ha
  obtain ⟨fs', hr'⟩ := h'.reads_of_accepts ha'
  exact hr.apart hs hs' hr'

theorem cursor_decoders_apart (text : Text) : List.Pairwise (fun p q => ¬(p ∧ q))
    [Accepts decodeCursor text, Accepts decodeRecoveryCursor text, Accepts decodeSentCursor text,
      Accepts decodeSentRecoveryCursor text] := by
  simp only [List.pairwise_cons, List.forall_mem_cons, List.not_mem_nil, false_imp_iff, implies_true, List.Pairwise.nil,
    and_true]
  refine ⟨⟨?_, ?_, ?_⟩, ⟨?_, ?_⟩, ?_⟩
  · exact decodeCursor_follows.apart decodeRecoveryCursor_follows (by decide) (by decide)
  · exact decodeCursor_follows.apart decodeSentCursor_follows (by decide) (by decide)
  · exact decodeCursor_follows.apart decodeSentRecoveryCursor_follows (by decide) (by decide)
  · exact decodeRecoveryCursor_follows.apart decodeSentCursor_follows (by decide) (by decide)
  · exact decodeRecoveryCursor_follows.apart decodeSentRecoveryCursor_follows (by decide) (by decide)
  · exact decodeSentCursor_follows.apart decodeSentRecoveryCursor_follows (by decide) (by decide)

-- What a text says of the folder of a message.
def DenotesInbox (text : Text) : Prop :=
  ∃ mailboxId uidValidity uid, decodeMessageId text = .ok (mailboxId, uidValidity, uid) ∨
    decodeAnyMessageId text = .ok (mailboxId, none, uidValidity, uid)

def DenotesSent (text : Text) : Prop :=
  ∃ mailboxId folderKey uidValidity uid, decodeAnyMessageId text = .ok (mailboxId, some folderKey, uidValidity, uid)

theorem message_ids_apart (text : Text) : ¬(DenotesInbox text ∧ DenotesSent text) := by
  rintro ⟨⟨m, v, u, hinbox⟩, m', k, v', u', hsent⟩
  obtain hinbox | hinbox := hinbox
  · obtain ⟨fs, hr⟩ := decodeMessageId_follows.reads_of_accepts ⟨_, hinbox⟩
    rw [decodeAnyMessageId_of_not_starts (not_starts_of_messageIdPrefix hr.starts), hinbox] at hsent
    cases hsent
  · rw [hinbox] at hsent
    cases hsent

-- A text is read as one kind of cursor, and as the id of a message of one folder.
structure Apart (text : Text) : Prop where
  cursors    : List.Pairwise (fun p q => ¬(p ∧ q)) [Accepts decodeCursor text, Accepts decodeRecoveryCursor text,
    Accepts decodeSentCursor text, Accepts decodeSentRecoveryCursor text]
  messageIds : ¬(DenotesInbox text ∧ DenotesSent text)

theorem apart (text : Text) : Apart text where
  cursors    := cursor_decoders_apart text
  messageIds := message_ids_apart text

end Apartness

end Imap.Codec
