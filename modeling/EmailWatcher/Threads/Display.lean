import EmailWatcher.Threads.Decode
import Mathlib.Algebra.GroupWithZero.Nat

-- What the page shows of a body, and what it refuses to show.
namespace Threads

-- `Number.isSafeInteger`
def isSafeInteger (n : Int) : Bool :=
  -9007199254740991 ≤ n ∧ n ≤ 9007199254740991

-- `text.length`, in code units of UTF-16.
def utf16Length (text : String) : Nat :=
  (text.toList.map fun c => if c.toNat < 0x10000 then 1 else 2).sum

def bodyLabels : List (String × String) :=
  [("pending", "Body not stored yet"),
    ("source_gone", "Body not stored (source no longer available)"),
    ("outside_folders", "Body not stored (outside the admitted folders)"),
    ("removal_pending", "Body removal pending until the local upgrade completes"),
    ("mailbox_identity_unavailable", "Body not stored (mailbox identity unavailable)"),
    ("not_followed", "Body not stored (thread not followed)")]

-- The counts of a body that is stored, if they are in order.
def bodyCounts (body : Wire) : Option (Int × Int) :=
  match body.member "stored_chars", body.member "source_chars" with
  | some (.number count), some (.number source) =>
    if isSafeInteger count ∧ isSafeInteger source ∧ 0 ≤ count ∧ count ≤ 200000 ∧ count ≤ source
    then some (count, source)
    else none
  | _, _ => none

def partialLabel (count source : Int) : String :=
  "Partial body: first " ++ toString count ++ " of " ++ toString source ++ " characters"

-- The label and the text. There is none where it throws.
def threadBodyDisplay (value : Wire) : Option (Option String × Option String) :=
  match value with
  | .object members =>
    match value.member "state" with
    | some (.string "stored") =>
      match value.member "text", bodyCounts value with
      | some (.string text), some (count, source) =>
        if members.length = 4 ∧ utf16Length text ≤ 400000 ∧ (text.length : Int) = count
        then some (if count < source then some (partialLabel count source) else none, some text)
        else none
      | _, _ => none
    | some (.string state) =>
      if members.length = 1 then (bodyLabels.lookup state).map fun label => (some label, none)
      else none
    | _ => none
  | _ => none

def threadBodyStateLabel (value : Wire) : Option String :=
  match value.member "state" with
  | some (.string "stored") =>
    match bodyCounts value with
    | some (count, source) =>
      if value.size = 3
      then some (if count < source then partialLabel count source else "Body stored locally")
      else none
    | none => none
  | _ => (threadBodyDisplay value).bind Prod.fst

def Unstored.toWire (reason : Unstored) : Wire :=
  .object [("state", .string reason.name)]

def ThreadBodyState.toWire : ThreadBodyState → Wire
  | stored storedChars sourceChars =>
    .object [("state", .string "stored"), ("stored_chars", .number storedChars),
      ("source_chars", .number sourceChars)]
  | unstored reason => reason.toWire

def ThreadBody.toWire : ThreadBody → Wire
  | stored text storedChars sourceChars =>
    .object [("state", .string "stored"), ("text", .string text), ("stored_chars", .number storedChars),
      ("source_chars", .number sourceChars)]
  | unstored reason => reason.toWire

-- That the page can count the characters of the source.
def ThreadBodyState.Countable : ThreadBodyState → Prop
  | stored _ sourceChars => sourceChars ≤ 9007199254740991
  | unstored _           => True

def ThreadBody.Countable : ThreadBody → Prop
  | stored _ _ sourceChars => sourceChars ≤ 9007199254740991
  | unstored _             => True

theorem utf16Length_le (text : String) : utf16Length text ≤ 2 * text.length := by
  rw [utf16Length, ← String.length_toList]
  induction text.toList
  case nil          => exact Nat.le_refl _
  case cons c cs ih =>
    rw [List.map_cons, List.sum_cons, List.length_cons]
    split <;> omega

-- The counts of a stored body that are in order are refused only where they cannot be counted with.
theorem bodyCounts_eq {body : Wire} {count source : Nat} (hc : body.member "stored_chars" = some (.number count))
    (hs : body.member "source_chars" = some (.number source)) (h : validThreadBodyLengths count source) :
    bodyCounts body = if source ≤ 9007199254740991 then some (↑count, ↑source) else none := by
  have hle : count ≤ 200000 ∧ count ≤ source := of_decide_eq_true h
  have hsafe : isSafeInteger count ∧ isSafeInteger source ∧ 0 ≤ (count : Int) ∧ (count : Int) ≤ 200000 ∧
      (count : Int) ≤ source ↔ source ≤ 9007199254740991 := by
    simp only [isSafeInteger, decide_eq_true_eq]
    omega
  simp only [bodyCounts, hc, hs, hsafe]

-- What the host lets through, the page can show.
theorem threadBodyStateLabel_isSome {b : ThreadBodyState} (h : b.valid) :
    (threadBodyStateLabel b.toWire).isSome ↔ b.Countable := by
  cases b
  case unstored reason     =>
    cases reason <;> exact iff_of_true rfl trivial
  case stored count source =>
    have hcounts : bodyCounts (ThreadBodyState.stored count source).toWire = _ := bodyCounts_eq rfl rfl h
    have hstate : (ThreadBodyState.stored count source).toWire.member "state" = some (.string "stored") := rfl
    have hsize : (ThreadBodyState.stored count source).toWire.size = 3 := rfl
    simp only [threadBodyStateLabel, hstate, hcounts, ThreadBodyState.Countable]
    by_cases hsource : source ≤ 9007199254740991 <;> simp [hsource, hsize]

theorem length_of_valid {text : String} {count source : Nat} (h : (ThreadBody.stored text count source).valid) :
    text.length = count := by
  have hvalid : validThreadBodyLengths count source ∧
      (text.toList.take (maxThreadBodyChars + 1)).length = count := of_decide_eq_true h
  have hle : count ≤ 200000 ∧ count ≤ source := of_decide_eq_true hvalid.left
  have htake := hvalid.right
  rw [List.length_take, String.length_toList, maxThreadBodyChars] at htake
  omega

theorem threadBodyDisplay_isSome {b : ThreadBody} (h : b.valid) :
    (threadBodyDisplay b.toWire).isSome ↔ b.Countable := by
  cases b
  case unstored reason          =>
    cases reason <;> exact iff_of_true rfl trivial
  case stored text count source =>
    have hvalid : validThreadBodyLengths count source ∧
        (text.toList.take (maxThreadBodyChars + 1)).length = count := of_decide_eq_true h
    have hle : count ≤ 200000 ∧ count ≤ source := of_decide_eq_true hvalid.left
    have hlength := length_of_valid h
    have hutf16 := utf16Length_le text
    have hcounts : bodyCounts (ThreadBody.stored text count source).toWire = _ := bodyCounts_eq rfl rfl hvalid.left
    have hstate : (ThreadBody.stored text count source).toWire.member "state" = some (.string "stored") := rfl
    have htext : (ThreadBody.stored text count source).toWire.member "text" = some (.string text) := rfl
    have hfit : utf16Length text ≤ 400000 := by omega
    simp only [threadBodyDisplay, ThreadBody.toWire] at hcounts hstate htext ⊢
    simp only [hcounts, hstate, htext, ThreadBody.Countable]
    by_cases hsource : source ≤ 9007199254740991 <;> simp [hsource, hfit, hlength]

end Threads
