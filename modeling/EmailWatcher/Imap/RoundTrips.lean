import EmailWatcher.Imap.Refusals
import EmailWatcher.Library.Transaction

-- Cursors and message ids are read as they have been written.
namespace Imap.Codec

open Decimal (isAsciiDigit)
open Fields (Form)
open Fields (Form)
open Gregorian (Date)

section Exactness

variable {β : Type} {n validity uid upper snapshot : Nat} {day : Date} {refusal : Raised}

theorem length_digits : (Decimal.digits n).length ≤ maxStrDigits ↔ n < 10 ^ maxStrDigits :=
  Decimal.length_digits_le (by decide)

theorem str_eq (h : n < 10 ^ maxStrDigits) : str n = .ok (Decimal.digits n) :=
  if_neg (Nat.not_lt.mpr (length_digits.mpr h))

theorem str_eq_error (h : ¬n < 10 ^ maxStrDigits) : str n = .error .valueError :=
  if_pos (Nat.lt_of_not_le (mt length_digits.mp h))

theorem int_digits (h : n < 10 ^ maxStrDigits) : int (Decimal.digits n) = .ok n := by
  rw [int, if_neg (Nat.not_lt.mpr (length_digits.mpr h)), Decimal.value_digits]

theorem isUid_digits : isUid (Decimal.digits n) ↔ 0 < n := by
  constructor
  case mp  =>
    intro h
    by_contra hzero
    obtain rfl : n = 0 := Nat.eq_zero_of_not_pos hzero
    exact absurd h (by decide)
  case mpr =>
    intro h
    obtain ⟨c, cs, hdigits, hc, hzero⟩ := Decimal.exists_digits_eq h
    have hcs : ∀ d ∈ cs, isAsciiDigit d := fun d hd => by
      have hmem : d ∈ Decimal.digits n := hdigits ▸ List.mem_cons_of_mem _ hd
      exact Decimal.mem_digits hmem
    simp only [hdigits, isUid, Bool.and_eq_true, decide_eq_true_eq, List.all_eq_true]
    exact ⟨⟨hc, hzero⟩, hcs⟩

-- A number that is too long is not written at all.
theorem str_bind_eq_ok {x : β} {g : Text → Except Raised β} :
    (str n >>= g) = .ok x ↔ n < 10 ^ maxStrDigits ∧ g (Decimal.digits n) = .ok x := by
  by_cases h : n < 10 ^ maxStrDigits
  case pos => rw [str_eq h, and_iff_right h]; rfl
  case neg =>
    rw [str_eq_error h]
    exact iff_of_false (fun he => by cases he) fun he => h he.left

theorem readNumbers_digits {refuses : Nat → Nat → Bool} (hv : validity < 10 ^ maxStrDigits)
    (hu : uid < 10 ^ maxStrDigits) (hr : refuses validity uid = false) :
    readNumbers refusal refuses (Decimal.digits validity) (Decimal.digits uid) = .ok (validity, uid) := by
  rw [readNumbers, int_digits hv, int_digits hu]
  exact if_neg (by simp [hr])

theorem readSentNumbers_digits (hv : validity < 10 ^ maxStrDigits) (hu : uid < 10 ^ maxStrDigits) (hpos : 0 < validity) :
    readSentNumbers refusal (Decimal.digits validity) (Decimal.digits uid) = .ok (validity, uid) := by
  rw [readSentNumbers, int_digits hv, int_digits hu]
  exact if_neg (Nat.not_le.mpr hpos)

theorem short_of_lt (h : n < 10 ^ 7) : n < 10 ^ maxStrDigits :=
  h.trans_le (Nat.pow_le_pow_right (by decide) (by decide))

theorem toordinal_short (day : Date) : day.toordinal < 10 ^ maxStrDigits ∧ day.toordinal ≤ maxInt := by
  have hle := day.toordinal_le.right
  rw [Date.maxOrdinal] at hle
  exact ⟨short_of_lt (hle.trans_lt (by decide)), hle.trans (by decide)⟩

theorem readSearchDay_digits (day : Date) : readSearchDay (Decimal.digits day.toordinal) = .ok day := by
  obtain ⟨hshort, hle⟩ := toordinal_short day
  rw [readSearchDay_eq, Decimal.value_digits, if_neg (Nat.not_lt.mpr (length_digits.mpr hshort)),
    if_neg (Nat.not_lt.mpr hle), Date.fromordinal_toordinal]
  rfl

theorem readRecovery_digits (hpos : 0 < validity) (hv : validity < 10 ^ maxStrDigits)
    (hu : upper < 10 ^ maxStrDigits) (hs : snapshot < 10 ^ maxStrDigits) :
    readRecovery (Decimal.digits validity) (Decimal.digits upper) (Decimal.digits snapshot)
      (Decimal.digits day.toordinal) = .ok (validity, upper, snapshot, day) ↔ 0 < upper ∧ upper ≤ snapshot := by
  rw [readRecovery, int_digits hv, int_digits hu, int_digits hs, readSearchDay_digits]
  change ite _ _ _ = _ ↔ _
  split
  case isTrue h  =>
    simp only [Bool.or_eq_true, decide_eq_true_eq] at h
    exact iff_of_false (fun he => by cases he) (by omega)
  case isFalse h =>
    simp only [Bool.or_eq_true, decide_eq_true_eq] at h
    exact iff_of_true rfl (by omega)

end Exactness

section RoundTrips

variable {β : Type} {validity uid upper snapshot : Nat} {mailboxId folderKey : Text} {day : Date}
  {x : β} {f : Text → Except Raised β}

-- An encoder writes the fields of its form, if all of its numbers are short enough.
theorem cursor_bind_eq_ok : (cursor mailboxId validity uid >>= f) = .ok x ↔
    validity < 10 ^ maxStrDigits ∧ uid < 10 ^ maxStrDigits ∧
    f (cursorForm.write [mailboxId, Decimal.digits validity, Decimal.digits uid]) = .ok x := by
  have hwrite : cursorForm.write [mailboxId, Decimal.digits validity, Decimal.digits uid] =
      cursorPrefix ++ mailboxId ++ colon :: Decimal.digits validity ++ colon :: Decimal.digits uid := by
    simp [Form.write, cursorForm, form]
  simp only [cursor, bind_assoc, pure_bind, str_bind_eq_ok, hwrite]

theorem sentCursor_bind_eq_ok : (sentCursor mailboxId folderKey validity uid >>= f) = .ok x ↔
    validity < 10 ^ maxStrDigits ∧ uid < 10 ^ maxStrDigits ∧
    f (sentCursorForm.write [mailboxId, folderKey, Decimal.digits validity, Decimal.digits uid]) = .ok x := by
  have hwrite : sentCursorForm.write [mailboxId, folderKey, Decimal.digits validity, Decimal.digits uid] =
      sentCursorPrefix ++ mailboxId ++ colon :: folderKey ++ colon :: Decimal.digits validity ++
        colon :: Decimal.digits uid := by
    simp [Form.write, sentCursorForm, form]
  simp only [sentCursor, bind_assoc, pure_bind, str_bind_eq_ok, hwrite]

theorem recoveryCursor_bind_eq_ok : (recoveryCursor mailboxId validity upper snapshot day >>= f) = .ok x ↔
    validity < 10 ^ maxStrDigits ∧ upper < 10 ^ maxStrDigits ∧ snapshot < 10 ^ maxStrDigits ∧
    f (recoveryCursorForm.write [mailboxId, Decimal.digits validity, Decimal.digits upper, Decimal.digits snapshot,
      Decimal.digits day.toordinal]) = .ok x := by
  have hwrite : recoveryCursorForm.write [mailboxId, Decimal.digits validity, Decimal.digits upper,
      Decimal.digits snapshot, Decimal.digits day.toordinal] =
      recoveryCursorPrefix ++ mailboxId ++ colon :: Decimal.digits validity ++ colon :: Decimal.digits upper ++
        colon :: Decimal.digits snapshot ++ colon :: Decimal.digits day.toordinal := by
    simp [Form.write, recoveryCursorForm, form]
  simp only [recoveryCursor, bind_assoc, pure_bind, str_bind_eq_ok, hwrite, (toordinal_short day).left, true_and]

theorem sentRecoveryCursor_bind_eq_ok :
    (sentRecoveryCursor mailboxId folderKey validity upper snapshot day >>= f) = .ok x ↔
    validity < 10 ^ maxStrDigits ∧ upper < 10 ^ maxStrDigits ∧ snapshot < 10 ^ maxStrDigits ∧
    f (sentRecoveryCursorForm.write [mailboxId, folderKey, Decimal.digits validity, Decimal.digits upper,
      Decimal.digits snapshot, Decimal.digits day.toordinal]) = .ok x := by
  have hwrite : sentRecoveryCursorForm.write [mailboxId, folderKey, Decimal.digits validity, Decimal.digits upper,
      Decimal.digits snapshot, Decimal.digits day.toordinal] =
      sentRecoveryCursorPrefix ++ mailboxId ++ colon :: folderKey ++ colon :: Decimal.digits validity ++
        colon :: Decimal.digits upper ++ colon :: Decimal.digits snapshot ++
        colon :: Decimal.digits day.toordinal := by
    simp [Form.write, sentRecoveryCursorForm, form]
  simp only [sentRecoveryCursor, bind_assoc, pure_bind, str_bind_eq_ok, hwrite, (toordinal_short day).left, true_and]

theorem messageId_none_bind_eq_ok : (messageId mailboxId validity uid none >>= f) = .ok x ↔
    validity < 10 ^ maxStrDigits ∧ uid < 10 ^ maxStrDigits ∧
    f (messageIdForm.write [mailboxId, Decimal.digits validity, Decimal.digits uid]) = .ok x := by
  have hwrite : messageIdForm.write [mailboxId, Decimal.digits validity, Decimal.digits uid] =
      messageIdPrefix ++ mailboxId ++ colon :: Decimal.digits validity ++ colon :: Decimal.digits uid := by
    simp [Form.write, messageIdForm, form]
  simp only [messageId, bind_assoc, pure_bind, str_bind_eq_ok, hwrite]

theorem messageId_some_bind_eq_ok : (messageId mailboxId validity uid (some folderKey) >>= f) = .ok x ↔
    validity < 10 ^ maxStrDigits ∧ uid < 10 ^ maxStrDigits ∧
    f (sentMessageIdForm.write [mailboxId, folderKey, Decimal.digits validity, Decimal.digits uid]) = .ok x := by
  have hwrite : sentMessageIdForm.write [mailboxId, folderKey, Decimal.digits validity, Decimal.digits uid] =
      sentMessageIdPrefix ++ mailboxId ++ colon :: folderKey ++ colon :: Decimal.digits validity ++
        colon :: Decimal.digits uid := by
    simp [Form.write, sentMessageIdForm, form]
  simp only [messageId, bind_assoc, pure_bind, str_bind_eq_ok, hwrite]

theorem bind_pure_eq_ok {α : Type} {g : α → β} {result : Except Raised α} {a : α} (hg : Function.Injective g) :
    (result >>= fun y => pure (g y)) = .ok (g a) ↔ result = .ok a := by
  simp [hg.eq_iff]

theorem accepts_digits (n : Nat) : Field.decimal.accepts (Decimal.digits n) :=
  Decimal.isdecimal_digits n

-- A text that is partitioned is read, if its UID is one of those that the decoder takes.
theorem Follows.partitioned_write {start : Text} {last : Field} {refusal : Raised} {refuses : Nat → Nat → Bool}
    {decode : Text → Except Raised (Text × Nat × Nat)}
    (h : Follows (form start [.mailboxId, .decimal, last] (by simp)) refusal
      (readPartitioned last.accepts refusal refuses) decode)
    (hm : isMailboxId mailboxId) (hr : refuses validity uid = false)
    (hv : validity < 10 ^ maxStrDigits) (hu : uid < 10 ^ maxStrDigits) :
    decode ((form start [.mailboxId, .decimal, last] (by simp)).write
      [mailboxId, Decimal.digits validity, Decimal.digits uid]) = .ok (mailboxId, validity, uid) ↔
    last.accepts (Decimal.digits uid) := by
  by_cases hlast : last.accepts (Decimal.digits uid)
  case pos =>
    refine iff_of_true ?_ hlast
    rw [h.reads _ _ ⟨rfl, .cons hm (.cons (accepts_digits _) (.cons hlast .nil))⟩,
      readPartitioned_eq hm (accepts_digits _) hlast, readNumbers_digits hv hu hr]
    rfl
  case neg =>
    refine iff_of_false (fun hx => ?_) hlast
    obtain ⟨fs, hreads⟩ := h.reads_of_accepts ⟨_, hx⟩
    have hplain : ∀ f ∈ [mailboxId, Decimal.digits validity, Decimal.digits uid], colon ∉ f := by
      simp only [List.forall_mem_cons, List.not_mem_nil, false_imp_iff, implies_true, and_true]
      exact ⟨isMailboxId_plain hm, Field.plain (accepts_digits _), Field.plain (accepts_digits _)⟩
    obtain rfl := hreads.eq_of_write (by simp) hplain
    obtain ⟨_, _, _, ⟨⟩, -, -, hu⟩ := accepted_three hreads.fields
    exact hlast hu

theorem Follows.sent_write {start : Text} {last : Field} {refusal : Raised}
    {decode : Text → Except Raised (Text × Text × Nat × Nat)}
    (h : Follows (form start [.mailboxId, .mailboxId, .decimal, last] (by simp)) refusal
      (decodeSentFields last.accepts refusal) decode)
    (hm : isMailboxId mailboxId) (hk : isMailboxId folderKey) (hpos : 0 < validity)
    (hv : validity < 10 ^ maxStrDigits) (hu : uid < 10 ^ maxStrDigits) :
    decode ((form start [.mailboxId, .mailboxId, .decimal, last] (by simp)).write
      [mailboxId, folderKey, Decimal.digits validity, Decimal.digits uid]) = .ok (mailboxId, folderKey, validity, uid) ↔
    last.accepts (Decimal.digits uid) := by
  by_cases hlast : last.accepts (Decimal.digits uid)
  case pos =>
    refine iff_of_true ?_ hlast
    rw [h.reads _ _ ⟨rfl, .cons hm (.cons hk (.cons (accepts_digits _) (.cons hlast .nil)))⟩,
      decodeSentFields_eq hm hk (accepts_digits _) hlast, readSentNumbers_digits hv hu hpos]
    rfl
  case neg =>
    refine iff_of_false (fun hx => ?_) hlast
    obtain ⟨fs, hreads⟩ := h.reads_of_accepts ⟨_, hx⟩
    have hplain : ∀ f ∈ [mailboxId, folderKey, Decimal.digits validity, Decimal.digits uid], colon ∉ f := by
      simp only [List.forall_mem_cons, List.not_mem_nil, false_imp_iff, implies_true, and_true]
      exact ⟨isMailboxId_plain hm, isMailboxId_plain hk, Field.plain (accepts_digits _),
        Field.plain (accepts_digits _)⟩
    obtain rfl := hreads.eq_of_write (by simp) hplain
    obtain ⟨_, _, _, _, ⟨⟩, -, -, -, hu⟩ := accepted_four hreads.fields
    exact hlast hu

theorem cursor_roundtrip (hm : isMailboxId mailboxId) (hpos : 0 < validity) :
    (cursor mailboxId validity uid >>= decodeCursor) = .ok (mailboxId, validity, uid) ↔
    validity < 10 ^ maxStrDigits ∧ uid < 10 ^ maxStrDigits := by
  rw [cursor_bind_eq_ok, ← and_assoc, and_iff_left_iff_imp]
  rintro ⟨hv, hu⟩
  refine (decodeCursor_follows.partitioned_write hm ?_ hv hu).mpr (accepts_digits uid)
  simp [Nat.ne_of_gt hpos]

theorem sentCursor_roundtrip (hm : isMailboxId mailboxId) (hk : isMailboxId folderKey) (hpos : 0 < validity) :
    (sentCursor mailboxId folderKey validity uid >>= decodeSentCursor) = .ok (mailboxId, folderKey, validity, uid) ↔
    validity < 10 ^ maxStrDigits ∧ uid < 10 ^ maxStrDigits := by
  rw [sentCursor_bind_eq_ok, ← and_assoc, and_iff_left_iff_imp]
  rintro ⟨hv, hu⟩
  exact (decodeSentCursor_follows.sent_write hm hk hpos hv hu).mpr (accepts_digits uid)

theorem decodeRecoveryCursor_write (hm : isMailboxId mailboxId) :
    decodeRecoveryCursor (recoveryCursorForm.write [mailboxId, Decimal.digits validity, Decimal.digits upper,
      Decimal.digits snapshot, Decimal.digits day.toordinal]) =
    (readRecovery (Decimal.digits validity) (Decimal.digits upper) (Decimal.digits snapshot)
      (Decimal.digits day.toordinal) >>= fun x => pure (mailboxId, x)) := by
  have hv := accepts_digits validity
  have hu := accepts_digits upper
  have hs := accepts_digits snapshot
  have ho := accepts_digits day.toordinal
  rw [decodeRecoveryCursor_follows.reads _ _ ⟨rfl, .cons hm (.cons hv (.cons hu (.cons hs (.cons ho .nil))))⟩]
  exact decodeRecoveryFields_eq hm hv hu hs ho

theorem decodeSentRecoveryCursor_write (hm : isMailboxId mailboxId) (hk : isMailboxId folderKey) :
    decodeSentRecoveryCursor (sentRecoveryCursorForm.write [mailboxId, folderKey, Decimal.digits validity,
      Decimal.digits upper, Decimal.digits snapshot, Decimal.digits day.toordinal]) =
    (readRecovery (Decimal.digits validity) (Decimal.digits upper) (Decimal.digits snapshot)
      (Decimal.digits day.toordinal) >>= fun x => pure (mailboxId, folderKey, x)) := by
  have hv := accepts_digits validity
  have hu := accepts_digits upper
  have hs := accepts_digits snapshot
  have ho := accepts_digits day.toordinal
  rw [decodeSentRecoveryCursor_follows.reads _ _
    ⟨rfl, .cons hm (.cons hk (.cons hv (.cons hu (.cons hs (.cons ho .nil)))))⟩]
  exact decodeSentRecoveryFields_eq hm hk hv hu hs ho

theorem readRecovery_bind_digits {g : Nat × Nat × Nat × Date → β} (hg : Function.Injective g) (hpos : 0 < validity) :
    (validity < 10 ^ maxStrDigits ∧ upper < 10 ^ maxStrDigits ∧ snapshot < 10 ^ maxStrDigits ∧
      (readRecovery (Decimal.digits validity) (Decimal.digits upper) (Decimal.digits snapshot)
        (Decimal.digits day.toordinal) >>= fun y => pure (g y)) = .ok (g (validity, upper, snapshot, day))) ↔
    validity < 10 ^ maxStrDigits ∧ 0 < upper ∧ upper ≤ snapshot ∧ snapshot < 10 ^ maxStrDigits := by
  rw [bind_pure_eq_ok hg]
  constructor
  case mp  =>
    rintro ⟨hv, hu, hs, h⟩
    obtain ⟨hupper, hle⟩ := (readRecovery_digits hpos hv hu hs).mp h
    exact ⟨hv, hupper, hle, hs⟩
  case mpr =>
    rintro ⟨hv, hupper, hle, hs⟩
    have hu := hle.trans_lt hs
    exact ⟨hv, hu, hs, (readRecovery_digits hpos hv hu hs).mpr ⟨hupper, hle⟩⟩

theorem recoveryCursor_roundtrip (hm : isMailboxId mailboxId) (hpos : 0 < validity) :
    (recoveryCursor mailboxId validity upper snapshot day >>= decodeRecoveryCursor) =
      .ok (mailboxId, validity, upper, snapshot, day) ↔
    validity < 10 ^ maxStrDigits ∧ 0 < upper ∧ upper ≤ snapshot ∧ snapshot < 10 ^ maxStrDigits := by
  have hinjective : Function.Injective fun y : Nat × Nat × Nat × Date => (mailboxId, y) :=
    Prod.mk_right_injective mailboxId
  rw [recoveryCursor_bind_eq_ok, decodeRecoveryCursor_write hm]
  exact readRecovery_bind_digits hinjective hpos

theorem sentRecoveryCursor_roundtrip (hm : isMailboxId mailboxId) (hk : isMailboxId folderKey) (hpos : 0 < validity) :
    (sentRecoveryCursor mailboxId folderKey validity upper snapshot day >>= decodeSentRecoveryCursor) =
      .ok (mailboxId, folderKey, validity, upper, snapshot, day) ↔
    validity < 10 ^ maxStrDigits ∧ 0 < upper ∧ upper ≤ snapshot ∧ snapshot < 10 ^ maxStrDigits := by
  have hinjective : Function.Injective fun y : Nat × Nat × Nat × Date => (mailboxId, folderKey, y) :=
    (Prod.mk_right_injective mailboxId).comp (Prod.mk_right_injective folderKey)
  rw [sentRecoveryCursor_bind_eq_ok, decodeSentRecoveryCursor_write hm hk]
  exact readRecovery_bind_digits hinjective hpos

theorem uid_accepts_digits : Field.uid.accepts (Decimal.digits uid) ↔ 0 < uid :=
  isUid_digits

theorem messageId_roundtrip (hm : isMailboxId mailboxId) (hpos : 0 < validity) :
    (messageId mailboxId validity uid none >>= decodeMessageId) = .ok (mailboxId, validity, uid) ↔
    validity < 10 ^ maxStrDigits ∧ uid < 10 ^ maxStrDigits ∧ 0 < uid := by
  have hvalidity : decide (validity ≤ 0) = false := decide_eq_false (Nat.not_le.mpr hpos)
  rw [messageId_none_bind_eq_ok, ← uid_accepts_digits]
  refine and_congr_right fun hv => and_congr_right fun hu => ?_
  exact decodeMessageId_follows.partitioned_write hm hvalidity hv hu

theorem anyMessageId_none_roundtrip (hm : isMailboxId mailboxId) (hpos : 0 < validity) :
    (messageId mailboxId validity uid none >>= decodeAnyMessageId) = .ok (mailboxId, none, validity, uid) ↔
    validity < 10 ^ maxStrDigits ∧ uid < 10 ^ maxStrDigits ∧ 0 < uid := by
  have hstarts : messageIdPrefix <+: messageIdForm.write [mailboxId, Decimal.digits validity, Decimal.digits uid] :=
    List.prefix_append _ _
  have hinjective : Function.Injective fun y : Text × Nat × Nat => (y.1, (none : Option Text), y.2) := by
    rintro ⟨m, y⟩ ⟨m', y'⟩ h
    simpa using h
  rw [← messageId_roundtrip hm hpos, messageId_none_bind_eq_ok, messageId_none_bind_eq_ok,
    decodeAnyMessageId_of_not_starts (not_starts_of_messageIdPrefix hstarts)]
  refine and_congr_right fun _ => and_congr_right fun _ => ?_
  exact bind_pure_eq_ok (a := (mailboxId, validity, uid)) hinjective

theorem anyMessageId_some_roundtrip (hm : isMailboxId mailboxId) (hk : isMailboxId folderKey) (hpos : 0 < validity) :
    (messageId mailboxId validity uid (some folderKey) >>= decodeAnyMessageId) =
      .ok (mailboxId, some folderKey, validity, uid) ↔
    validity < 10 ^ maxStrDigits ∧ uid < 10 ^ maxStrDigits ∧ 0 < uid := by
  have hstarts : sentMessageIdPrefix <+:
      sentMessageIdForm.write [mailboxId, folderKey, Decimal.digits validity, Decimal.digits uid] :=
    List.prefix_append _ _
  have hinjective : Function.Injective fun y : Text × Text × Nat × Nat => (y.1, some y.2.1, y.2.2) := by
    rintro ⟨m, k, y⟩ ⟨m', k', y'⟩ h
    simpa using h
  rw [messageId_some_bind_eq_ok, decodeAnyMessageId_of_starts hstarts, ← uid_accepts_digits]
  refine and_congr_right fun hv => and_congr_right fun hu => ?_
  refine (bind_pure_eq_ok (a := (mailboxId, folderKey, validity, uid)) hinjective).trans ?_
  exact decodeSentMessageId_follows.sent_write hm hk hpos hv hu

-- Which numbers are read back from what an encoder writes.
structure RoundTrips (mailboxId folderKey : Text) (validity uid snapshot : Nat) (day : Date) : Prop where
  incremental     : (cursor mailboxId validity uid >>= decodeCursor) = .ok (mailboxId, validity, uid) ↔
    validity < 10 ^ maxStrDigits ∧ uid < 10 ^ maxStrDigits
  sentIncremental : (sentCursor mailboxId folderKey validity uid >>= decodeSentCursor) =
      .ok (mailboxId, folderKey, validity, uid) ↔
    validity < 10 ^ maxStrDigits ∧ uid < 10 ^ maxStrDigits
  recovery        : (recoveryCursor mailboxId validity uid snapshot day >>= decodeRecoveryCursor) =
      .ok (mailboxId, validity, uid, snapshot, day) ↔
    validity < 10 ^ maxStrDigits ∧ 0 < uid ∧ uid ≤ snapshot ∧ snapshot < 10 ^ maxStrDigits
  sentRecovery    : (sentRecoveryCursor mailboxId folderKey validity uid snapshot day >>= decodeSentRecoveryCursor) =
      .ok (mailboxId, folderKey, validity, uid, snapshot, day) ↔
    validity < 10 ^ maxStrDigits ∧ 0 < uid ∧ uid ≤ snapshot ∧ snapshot < 10 ^ maxStrDigits
  inbox           : (messageId mailboxId validity uid none >>= decodeMessageId) = .ok (mailboxId, validity, uid) ↔
    validity < 10 ^ maxStrDigits ∧ uid < 10 ^ maxStrDigits ∧ 0 < uid
  anyInbox        : (messageId mailboxId validity uid none >>= decodeAnyMessageId) =
      .ok (mailboxId, none, validity, uid) ↔
    validity < 10 ^ maxStrDigits ∧ uid < 10 ^ maxStrDigits ∧ 0 < uid
  anySent         : (messageId mailboxId validity uid (some folderKey) >>= decodeAnyMessageId) =
      .ok (mailboxId, some folderKey, validity, uid) ↔
    validity < 10 ^ maxStrDigits ∧ uid < 10 ^ maxStrDigits ∧ 0 < uid

theorem roundTrips (hm : isMailboxId mailboxId) (hk : isMailboxId folderKey) (hpos : 0 < validity) :
    RoundTrips mailboxId folderKey validity uid snapshot day where
  incremental     := cursor_roundtrip hm hpos
  sentIncremental := sentCursor_roundtrip hm hk hpos
  recovery        := recoveryCursor_roundtrip hm hpos
  sentRecovery    := sentRecoveryCursor_roundtrip hm hk hpos
  inbox           := messageId_roundtrip hm hpos
  anyInbox        := anyMessageId_none_roundtrip hm hpos
  anySent         := anyMessageId_some_roundtrip hm hk hpos

end RoundTrips

end Imap.Codec
