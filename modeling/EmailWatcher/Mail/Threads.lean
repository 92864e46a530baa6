import Mathlib.Data.List.DropRight
import Mathlib.Data.List.MinMax
import EmailWatcher.Mail.Schema

-- Which thread a message belongs to.
namespace Mail

open Transaction

section MessageIds

variable [Codec]

def maxMessageIdChars : Nat := 998

-- `text.strip()`.
def strip (text : List Char) : List Char :=
  (text.dropWhile Codec.isSpace).rdropWhile Codec.isSpace

def unbracket (text : List Char) : List Char :=
  if text.head? = some '<' ∧ text.getLast? = some '>' then strip text.tail.dropLast else text

-- One `@` with something on both sides of it.
def separated (text : List Char) : Bool :=
  match text.span (· ≠ '@') with
  | (_,    [])         => false
  | (left, _ :: right) => left ≠ [] && right ≠ [] && '@' ∉ right

def wellFormedId (text : List Char) : Bool :=
  text.length ≤ maxMessageIdChars && separated text && text.all fun c =>
    Codec.isPrintable c && !Codec.isSpace c && c ≠ '<' && c ≠ '>'

-- `normalize_message_id`.
def normalizeMessageId (value : String) : Option String :=
  let text := unbracket (strip value.toList)
  if wellFormedId text then some (String.ofList text) else none

theorem strip_of_all_not_space {text : List Char} (h : ∀ c ∈ text, Codec.isSpace c = false) :
    strip text = text := by
  have hd : text.dropWhile Codec.isSpace = text := by
    rw [List.dropWhile_eq_self_iff]
    intro hl
    simp [h _ (List.getElem_mem hl)]
  rw [strip, hd, List.rdropWhile_eq_self_iff]
  intro hl
  simp [h _ (List.getLast_mem hl)]

theorem normalize_of_wellFormed {value : String} (h : wellFormedId value.toList) :
    normalizeMessageId value = some value := by
  have hc := h
  simp only [wellFormedId, Bool.and_eq_true, List.all_eq_true, Bool.not_eq_true', decide_eq_true_eq]
    at hc
  have hs : strip value.toList = value.toList :=
    strip_of_all_not_space fun c hm => (hc.right c hm).left.left.right
  have hu : unbracket value.toList = value.toList := by
    unfold unbracket
    rw [if_neg]
    rintro ⟨hh, -⟩
    have hm : '<' ∈ value.toList := List.mem_of_mem_head? (by simp [hh])
    exact absurd rfl (hc.right _ hm).left.right
  simp [normalizeMessageId, hs, hu, h]

-- A normal id is its own normal form.
theorem normalize_idempotent {value text : String} (h : normalizeMessageId value = some text) :
    normalizeMessageId text = some text := by
  simp only [normalizeMessageId, Option.ite_none_right_eq_some, Option.some.injEq] at h
  obtain ⟨hw, ht⟩ := h
  refine normalize_of_wellFormed ?_
  simpa [← ht] using hw

end MessageIds

-- `imap_thread_ids` takes an id only within the bounds of its check.
def admissibleId (rfcId : String) : Bool :=
  rfcId ≠ "" && rfcId.toList.length ≤ maxMessageIdChars

namespace Store

variable (s : Store) (scope : Scope)

-- The smallest source of a component under the canonical order.
def smallestSource (key : String) : Option String :=
  let inComponent (m : Message) : Bool :=
    m.provider = scope.provider && m.accountId = scope.accountId && m.threadKey = some key
  let rows := s.messages.rows.filter inComponent |>.map (·.providerMessageId)
  let located := s.locations.rows.filter (fun l => (s.messages.get l.messageId).any inComponent)
    |>.map (·.providerMessageId)
  (rows ++ located).min?

def componentRank (key : String) : ℕ ×ₗ String :=
  match s.smallestSource scope key with
  | some source => toLex (0, source)
  | none        => toLex (1, key)

-- The components that hold one of the ids, and the one that the message is in already.
def componentKeys (ids : List String) (existing : Option String) : List String :=
  let keys := s.threadIds.rows.filter (fun t => t.scope = scope && t.rfcId ∈ ids)
    |>.map (·.threadKey) |>.dedup
  match existing with
  | none     => keys
  | some key => if key ∈ keys then keys else keys ++ [key]

-- `_imap_thread_key`: the key of the thread, and the components to merge into it. `fresh` is the
-- key that is drawn if there is no component.
def imapThreadKey (ids : List String) (existing : Option String) (fresh : String) :
    String × List String :=
  if ids = [] then
    (existing.getD fresh, [])
  else
    let keys := s.componentKeys scope ids existing
    match keys.argmin (s.componentRank scope) with
    | none          => (fresh, [])
    | some survivor => (survivor, keys.filter (· ≠ survivor))

variable {s scope}

-- The catch-up of the survivor takes over what a merged component still owes.
def takeOverCatchup (s : Store) (threadKey : String) (owed : Catchup) : Except StoreError Store :=
  match s.catchup.get (owed.scope, owed.generation, threadKey) with
  | some c => return { s with catchup := s.catchup.put { c with target := max c.target owed.target } }
  | none   => do
    require (s.follows.get (owed.scope, threadKey)).isSome <|
      .integrity "FOREIGN KEY constraint failed"
    return { s with catchup := s.catchup.put { owed with threadKey := threadKey } }

def rekeyCatchup (s : Store) (scope : Scope) (threadKey old : String) : Except StoreError Store := do
  let owed := s.catchup.rows.filter fun c => c.scope = scope && c.threadKey = old
  let s ← owed.foldlM (takeOverCatchup · threadKey) s
  return { s with catchup := s.catchup.delete fun c => c.scope = scope && c.threadKey = old }

-- The rows of a component are found by provider, account and key.
def rekeyComponent (s : Store) (scope : Scope) (threadKey old : String) : Store := { s with
  messages := s.messages.update
    (fun m => m.provider = scope.provider && m.accountId = scope.accountId &&
      m.threadKey = some old)
    fun m => { m with threadKey := some threadKey }
  threadIds := s.threadIds.update
    (fun t => t.scope.provider = scope.provider && t.scope.accountId = scope.accountId &&
      t.threadKey = old)
    fun t => { t with threadKey := threadKey }
  aliases := s.aliases.update (·.survivorKey = old) (fun a => { a with survivorKey := threadKey })
    |>.put { oldKey := old, survivorKey := threadKey }
}

def dropWatermarks (s : Store) (scope : Scope) (keys : List String) : Store := { s with
  watermarks := s.watermarks.delete fun w => w.scope = scope && w.threadKey ∈ keys
}

def registerId (s : Store) (scope : Scope) (threadKey rfcId : String) : Store :=
  if admissibleId rfcId then { s with
    threadIds := s.threadIds.insertOrIgnore
      { scope := scope, rfcId := rfcId, threadKey := threadKey }
  } else
    s

-- `_apply_imap_component`: merge components into the survivor and register the ids.
def applyImapComponent (s : Store) (scope : Scope) (threadKey : String) (merged ids : List String) :
    Except StoreError Store := do
  let s := if merged = [] then s else s.dropWatermarks scope (threadKey :: merged)
  let s ← merged.foldlM (fun s old => s.rekeyCatchup scope threadKey old) s
  let s := merged.foldl (fun s old => s.rekeyComponent scope threadKey old) s
  return ids.foldl (fun s rfcId => s.registerId scope threadKey rfcId) s

end Store

end Mail
