import EmailWatcher.Library.Machine
import EmailWatcher.Library.Text
import Mathlib.Logic.Function.Basic

-- The text of an HTML body that is stored, with the marks of what is quoted.
namespace StoredText

open Text

class Casefold where
  casefold : Text → Text

def htmlLineBreakTags : List Text :=
  (["article", "blockquote", "br", "div", "footer", "h1", "h2", "h3", "h4", "h5", "h6", "header", "li", "p", "pre",
    "section", "table", "td", "th", "tr"] : List String).map fun tag => (tag : Text)

-- The elements that have no content.
def voidTags : List Text :=
  (["br", "hr", "img", "input", "meta", "link", "wbr"] : List String).map fun tag => (tag : Text)

structure Element where
  tag    : Text
  quoted : Bool
  hidden : Bool
  pre    : Bool
  deriving DecidableEq

-- Text that has come, and whether a quoting element was open then, which nothing looks at.
structure Part where
  data   : Text
  quoted : Bool
  deriving DecidableEq

-- The lines that were written at one time from the parts that had come, without their marks.
structure Flush where
  parts  : List Part
  quoted : Bool
  lines  : List Text
  deriving DecidableEq

-- The characters to be seen of a part, and whether they came quoted.
def Part.seen (p : Part) : List (CodePoint × Bool) :=
  (visible p.data).map (·, p.quoted)

-- The characters that are seen on the lines, and whether these are marked.
def Flush.seen (f : Flush) : List (CodePoint × Bool) :=
  f.lines.flatMap fun l => (visible l).map (·, f.quoted)

inductive Event
  | startTag (tag : Text) (attributes : List (Text × Option Text))
  | endTag   (tag : Text)
  | data     (data : Text)
  deriving DecidableEq

abbrev Attributes := List (Text × Option Text)

-- `dict(attributes).get(name) or ""`
def attributeOf (attributes : Attributes) (name : Text) : Text :=
  ((attributes.reverse.lookup name).getD none).getD []

def isQuoted (tag : Text) (attributes : Attributes) : Bool :=
  tag = ("blockquote" : Text) ||
  tag = ("div" : Text) && (("gmail_quote" : Text) ∈ split (attributeOf attributes ("class" : Text)) ||
    attributeOf attributes ("id" : Text) = ("divRplyFwdMsg" : Text))

def element (tag : Text) (attributes : Attributes) : Element where
  tag    := tag
  quoted := isQuoted tag attributes
  hidden := tag = ("script" : Text) || tag = ("style" : Text)
  pre    := tag = ("pre" : Text)

-- The lines of a text that are not blank.
def textLines (pre : Bool) (text : Text) : List Text :=
  ((if pre then splitlines text else [collapse text]).filter (Text.strip · ≠ [])).map Text.strip

def mark (quoted : Bool) (line : Text) : Text :=
  (if quoted then ("> " : Text) else []) ++ line

-- `_StoredTextExtractor`. The stack grows at its end, and `positions` has nothing for a tag that never came.
structure Extractor where
  stack       : List Element
  positions   : Text → List Nat
  quoteDepth  : Int
  hiddenDepth : Int
  preDepth    : Int
  parts       : List Part
  lines       : List Text
  -- The lines once more, as they were written.
  flushed     : List Flush

namespace Extractor

def initial : Extractor where
  stack       := []
  positions _ := []
  quoteDepth  := 0
  hiddenDepth := 0
  preDepth    := 0
  parts       := []
  lines       := []
  flushed     := []

variable (s : Extractor)

-- `_line`
def line : Extractor :=
  let lines := textLines (s.preDepth ≠ 0) (s.parts.map Part.data).flatten
  { s with
    parts   := []
    lines   := s.lines ++ lines.map (mark (s.quoteDepth ≠ 0))
    flushed := s.flushed ++ [⟨s.parts, s.quoteDepth ≠ 0, lines⟩]
  }

def lineIf (tag : Text) : Extractor :=
  if tag ∈ htmlLineBreakTags then s.line else s

def push (e : Element) : Extractor := { s with
  positions   := Function.update s.positions e.tag (s.positions e.tag ++ [s.stack.length])
  stack       := s.stack ++ [e]
  quoteDepth  := s.quoteDepth + e.quoted.toNat
  hiddenDepth := s.hiddenDepth + e.hidden.toNat
  preDepth    := s.preDepth + e.pre.toNat
}

def pop : Extractor :=
  match s.stack.getLast? with
  | none   => s
  | some e => { s with
      stack       := s.stack.dropLast
      positions   := Function.update s.positions e.tag (s.positions e.tag).dropLast
      quoteDepth  := s.quoteDepth - e.quoted.toNat
      hiddenDepth := s.hiddenDepth - e.hidden.toNat
      preDepth    := s.preDepth - e.pre.toNat
    }

-- The loop of `handle_endtag`, which takes off one element a time.
def popTo (target : Nat) : Extractor :=
  pop^[s.stack.length - target] s

def handleStarttag [Casefold] (tag : Text) (attributes : Attributes) : Extractor :=
  let tag := Casefold.casefold tag
  let s := s.lineIf tag
  if tag ∈ voidTags then s else s.push (element tag attributes)

def handleEndtag [Casefold] (tag : Text) : Extractor :=
  let tag := Casefold.casefold tag
  let s := s.lineIf tag
  match (s.positions tag).getLast? with
  | some target => s.popTo target
  | none        => s

def handleData (data : Text) : Extractor :=
  if s.hiddenDepth = 0 then { s with parts := s.parts ++ [⟨data, s.quoteDepth ≠ 0⟩] } else s

end Extractor

def extractor [Casefold] : Machine Extractor Event Unit where
  step s
    | .startTag tag attributes => .ok (s.handleStarttag tag attributes)
    | .endTag tag              => .ok (s.handleEndtag tag)
    | .data data               => .ok (s.handleData data)

def newline : CodePoint :=
  '\n'

-- `stored_html_to_text`, of what the parser finds in a document.
def storedHtmlToText [Casefold] (events : List Event) : Text :=
  List.intercalate [newline] (extractor.run .initial events).line.lines

section Naive

-- An extractor that knows of the open elements what its stack says.
structure Naive where
  stack : List Element
  parts : List Text
  lines : List Text

namespace Naive

def initial : Naive where
  stack := []
  parts := []
  lines := []

variable (s : Naive)

def line : Naive := { s with
  parts := []
  lines := s.lines ++ (textLines (s.stack.any (·.pre)) s.parts.flatten).map (mark (s.stack.any (·.quoted)))
}

def lineIf (tag : Text) : Naive :=
  if tag ∈ htmlLineBreakTags then s.line else s

-- The stack below the last element of that tag.
def close (tag : Text) : Naive := { s with
  stack :=
    match (List.range s.stack.length).reverse.find? fun i => s.stack[i]?.map (·.tag) = some tag with
    | some target => s.stack.take target
    | none        => s.stack
}

end Naive

def Naive.step [Casefold] (s : Naive) : Event → Naive
  | .startTag tag attributes =>
    let tag := Casefold.casefold tag
    let s := s.lineIf tag
    if tag ∈ voidTags then s else { s with stack := s.stack ++ [element tag attributes] }
  | .endTag tag              => (s.lineIf (Casefold.casefold tag)).close (Casefold.casefold tag)
  | .data data               => if s.stack.any (·.hidden) then s else { s with parts := s.parts ++ [data] }

def naive [Casefold] (events : List Event) : Naive :=
  events.foldl Naive.step .initial

-- What an event brings to be seen, and whether a quoting element is open then.
def Naive.receives (s : Naive) : Event → List Part
  | .data data => if s.stack.any (·.hidden) then [] else [⟨data, s.stack.any (·.quoted)⟩]
  | _          => []

def Naive.received [Casefold] (s : Naive) : List Event → List Part
  | []      => []
  | a :: as => s.receives a ++ (s.step a).received as

end Naive

section Stack

-- Where the elements of a tag are on the stack, from the bottom.
def indices (tag : Text) (stack : List Element) : List Nat :=
  (List.range stack.length).filter fun i => stack[i]?.map (·.tag) = some tag

variable {tag : Text} {stack : List Element} {e : Element}

theorem indices_append : indices tag (stack ++ [e]) = indices tag stack ++ if e.tag = tag then [stack.length] else [] := by
  have hinit : (List.range stack.length).filter (fun i => (stack ++ [e])[i]?.map (·.tag) = some tag) =
      indices tag stack := by
    refine List.filter_congr fun i hi => ?_
    rw [List.getElem?_append_left (List.mem_range.mp hi)]
  rw [indices, List.length_append, List.length_singleton, List.range_succ, List.filter_append, hinit]
  simp [List.filter_cons]

theorem indices_pairwise : (indices tag stack).Pairwise (· < ·) :=
  List.Pairwise.filter _ List.pairwise_lt_range

theorem indices_lt {i : Nat} (h : i ∈ indices tag stack) : i < stack.length :=
  List.mem_range.mp (List.mem_filter.mp h).left

theorem getLast?_indices :
    (indices tag stack).getLast? =
      (List.range stack.length).reverse.find? fun i => stack[i]?.map (·.tag) = some tag := by
  rw [indices, List.getLast?_eq_head?_reverse, ← List.filter_reverse, List.head?_filter]

theorem countP_ne_zero (p : Element → Bool) : (stack.countP p : Int) ≠ 0 ↔ stack.any p := by
  have hpos : 0 < stack.countP p ↔ stack.any p := by
    rw [List.any_eq_true, List.countP_pos_iff]
  rw [← hpos]
  omega

end Stack

namespace Extractor

variable {s s' : Extractor} {e : Element} {tag : Text}

-- What is kept of the stack, so that it need not be scanned.
structure Scanned (s : Extractor) : Prop where
  positions : ∀ tag, s.positions tag = indices tag s.stack
  quote     : s.quoteDepth = s.stack.countP (·.quoted)
  hidden    : s.hiddenDepth = s.stack.countP (·.hidden)
  pre       : s.preDepth = s.stack.countP (·.pre)

namespace Scanned

theorem quote_ne_zero (h : s.Scanned) : s.quoteDepth ≠ 0 ↔ s.stack.any (·.quoted) :=
  h.quote ▸ countP_ne_zero _

theorem hidden_ne_zero (h : s.Scanned) : s.hiddenDepth ≠ 0 ↔ s.stack.any (·.hidden) :=
  h.hidden ▸ countP_ne_zero _

theorem pre_ne_zero (h : s.Scanned) : s.preDepth ≠ 0 ↔ s.stack.any (·.pre) :=
  h.pre ▸ countP_ne_zero _

theorem initial : initial.Scanned :=
  ⟨fun _ => rfl, rfl, rfl, rfl⟩

theorem line (h : s.Scanned) : s.line.Scanned :=
  ⟨h.positions, h.quote, h.hidden, h.pre⟩

theorem lineIf (h : s.Scanned) (tag : Text) : (s.lineIf tag).Scanned := by
  rw [Extractor.lineIf]
  split
  · exact h.line
  · exact h

theorem push (h : s.Scanned) (e : Element) : (s.push e).Scanned := by
  refine ⟨fun tag => ?_, ?_, ?_, ?_⟩
  · rw [Extractor.push]
    simp only [indices_append, Function.update_apply]
    split
    case isTrue htag  => rw [htag, if_pos rfl, h.positions]
    case isFalse htag => rw [if_neg (Ne.symm htag), List.append_nil, h.positions]
  · simp only [Extractor.push, h.quote, List.countP_append, List.countP_singleton]
    cases e.quoted <;> simp
  · simp only [Extractor.push, h.hidden, List.countP_append, List.countP_singleton]
    cases e.hidden <;> simp
  · simp only [Extractor.push, h.pre, List.countP_append, List.countP_singleton]
    cases e.pre <;> simp

-- The top element goes off.
theorem pop (h : s.Scanned) : s.pop.Scanned := by
  obtain hnil | ⟨below, e, hstack⟩ := s.stack.eq_nil_or_concat
  · rw [Extractor.pop, hnil]
    exact h
  · rw [List.concat_eq_append] at hstack
    have hlast : s.stack.getLast? = some e := by rw [hstack, List.getLast?_concat]
    have hbelow : s.stack.dropLast = below := by rw [hstack, List.dropLast_concat]
    simp only [Extractor.pop, hlast]
    refine ⟨fun tag => ?_, ?_, ?_, ?_⟩ <;> simp only [hbelow]
    · rw [Function.update_apply, h.positions, h.positions, hstack, indices_append, indices_append]
      split
      case isTrue htag  => rw [htag, if_pos rfl, List.dropLast_concat]
      case isFalse htag => rw [if_neg (Ne.symm htag), List.append_nil]
    · rw [h.quote, hstack, List.countP_append, List.countP_singleton]
      cases e.quoted <;> simp
    · rw [h.hidden, hstack, List.countP_append, List.countP_singleton]
      cases e.hidden <;> simp
    · rw [h.pre, hstack, List.countP_append, List.countP_singleton]
      cases e.pre <;> simp

end Scanned

section Pops

theorem pop_stack : s.pop.stack = s.stack.dropLast := by
  rw [pop]
  split
  case h_1 hlast => rw [List.getLast?_eq_none_iff.mp hlast, List.dropLast_nil]
  case h_2       => rfl

theorem pop_rest : s.pop.parts = s.parts ∧ s.pop.lines = s.lines ∧ s.pop.flushed = s.flushed := by
  rw [pop]
  split <;> exact ⟨rfl, rfl, rfl⟩

theorem pops (h : s.Scanned) (n : Nat) : (pop^[n] s).Scanned ∧
    (pop^[n] s).stack = s.stack.take (s.stack.length - n) ∧
    (pop^[n] s).parts = s.parts ∧ (pop^[n] s).lines = s.lines ∧ (pop^[n] s).flushed = s.flushed := by
  induction n generalizing s
  case zero      => exact ⟨h, by simp, rfl, rfl, rfl⟩
  case succ n ih =>
    obtain ⟨hparts, hlines, hflushed⟩ := s.pop_rest
    obtain ⟨hscanned, hstack, hparts', hlines', hflushed'⟩ := ih h.pop
    rw [Function.iterate_succ_apply]
    refine ⟨hscanned, ?_, hparts'.trans hparts, hlines'.trans hlines, hflushed'.trans hflushed⟩
    rw [hstack, pop_stack, List.length_dropLast, List.dropLast_eq_take, List.take_take]
    congr 1
    omega

theorem popTo_eq (h : s.Scanned) (target : Nat) (ht : target ≤ s.stack.length) : (s.popTo target).Scanned ∧
    (s.popTo target).stack = s.stack.take target ∧
    (s.popTo target).parts = s.parts ∧ (s.popTo target).lines = s.lines ∧
    (s.popTo target).flushed = s.flushed := by
  have hpops := pops h (s.stack.length - target)
  rwa [Nat.sub_sub_self ht] at hpops

theorem close_eq {target : Nat} (h : s.Scanned) (ht : (s.positions tag).getLast? = some target) :
    (s.popTo target).Scanned ∧ (s.popTo target).stack = s.stack.take target ∧
    (s.popTo target).parts = s.parts ∧ (s.popTo target).lines = s.lines ∧
    (s.popTo target).flushed = s.flushed := by
  rw [h.positions] at ht
  exact popTo_eq h target (Nat.le_of_lt (indices_lt (List.mem_of_getLast? ht)))

end Pops

section Refinement

-- The extractor does as the naive one does.
structure Refines (s : Extractor) (v : Naive) : Prop where
  scanned : s.Scanned
  stack   : s.stack = v.stack
  parts   : s.parts.map Part.data = v.parts
  lines   : s.lines = v.lines

variable {v : Naive}

theorem Scanned.depths (h : s.Scanned) :
    (decide (s.quoteDepth ≠ 0)) = s.stack.any (·.quoted) ∧ (decide (s.preDepth ≠ 0)) = s.stack.any (·.pre) := by
  constructor
  · rw [Bool.eq_iff_iff, decide_eq_true_iff]
    exact h.quote_ne_zero
  · rw [Bool.eq_iff_iff, decide_eq_true_iff]
    exact h.pre_ne_zero

theorem Refines.line (h : s.Refines v) : s.line.Refines v.line := by
  obtain ⟨hquote, hpre⟩ := h.scanned.depths
  refine ⟨h.scanned.line, h.stack, rfl, ?_⟩
  simp only [Extractor.line, Naive.line, h.lines, h.parts, ← h.stack, hquote, hpre]

theorem Refines.lineIf (h : s.Refines v) (tag : Text) : (s.lineIf tag).Refines (v.lineIf tag) := by
  rw [Extractor.lineIf, Naive.lineIf]
  split
  · exact h.line
  · exact h

theorem Refines.push (h : s.Refines v) (e : Element) : (s.push e).Refines { v with stack := v.stack ++ [e] } :=
  ⟨h.scanned.push e, congrArg (· ++ [e]) h.stack, h.parts, h.lines⟩

theorem Refines.next [Casefold] (h : s.Refines v) (a : Event) : (extractor.next s a).Refines (v.step a) := by
  cases a
  case startTag tag attributes =>
    change (s.handleStarttag tag attributes).Refines _
    simp only [handleStarttag, Naive.step]
    split
    · exact h.lineIf _
    · exact (h.lineIf _).push _
  case endTag tag              =>
    change (s.handleEndtag tag).Refines _
    have hline := h.lineIf (Casefold.casefold tag)
    simp only [handleEndtag, Naive.step, Naive.close]
    generalize s.lineIf (Casefold.casefold tag) = s at hline
    generalize v.lineIf (Casefold.casefold tag) = v at hline
    rw [← hline.stack, ← getLast?_indices, ← hline.scanned.positions]
    split
    case h_1 target ht =>
      obtain ⟨hscanned, hstack, hparts, hlines, -⟩ := close_eq hline.scanned ht
      exact ⟨hscanned, hstack, hparts ▸ hline.parts, hlines.trans hline.lines⟩
    case h_2 ht        => exact ⟨hline.scanned, rfl, hline.parts, hline.lines⟩
  case data data               =>
    change (s.handleData data).Refines _
    simp only [handleData, Naive.step, ← h.stack]
    by_cases hhidden : s.hiddenDepth = 0
    · have hany : ¬s.stack.any (·.hidden) := fun hany => h.scanned.hidden_ne_zero.mpr hany hhidden
      rw [if_pos hhidden, if_neg hany]
      exact ⟨⟨h.scanned.positions, h.scanned.quote, h.scanned.hidden, h.scanned.pre⟩, rfl,
        by simp [h.parts], h.lines⟩
    · rw [if_neg hhidden, if_pos (h.scanned.hidden_ne_zero.mp hhidden)]
      exact h

theorem Scanned.next [Casefold] (h : s.Scanned) (a : Event) : (extractor.next s a).Scanned :=
  (Refines.next (v := ⟨s.stack, s.parts.map Part.data, s.lines⟩) ⟨h, rfl, rfl, rfl⟩ a).scanned

theorem refines_run [Casefold] (events : List Event) : (extractor.run .initial events).Refines (naive events) := by
  suffices hrun : ∀ (events : List Event) (s : Extractor) (v : Naive), s.Refines v →
      (extractor.run s events).Refines (events.foldl Naive.step v) from
    hrun events _ _ ⟨.initial, rfl, rfl, rfl⟩
  intro events
  induction events
  case nil          => exact fun _ _ h => h
  case cons a as ih => exact fun s v h => ih _ _ (h.next a)

end Refinement

section Lines

theorem visible_textLines (pre : Bool) (text : Text) : visible (textLines pre text).flatten = visible text := by
  have hlines : ∀ lines : List Text, visible ((lines.filter (Text.strip · ≠ [])).map Text.strip).flatten =
      visible lines.flatten := by
    intro lines
    induction lines
    case nil          => rfl
    case cons l ls ih =>
      rw [List.filter_cons, List.flatten_cons, visible_append, ← ih, ← visible_strip l]
      split
      case isTrue         => rw [List.map_cons, List.flatten_cons, visible_append]
      case isFalse hblank =>
        have hnil : Text.strip l = [] := by simpa using hblank
        rw [hnil]
        rfl
  rw [textLines, hlines]
  cases pre
  case true  => exact visible_splitlines text
  case false => simp [visible_collapse]

theorem textLines_breaks {pre : Bool} {text l : Text} (hl : l ∈ textLines pre text) :
    ∀ c ∈ l, isLineBreak c = false := by
  intro c hc
  obtain ⟨l', hl', rfl⟩ := List.mem_map.mp hl
  have hl' := (List.mem_filter.mp hl').left
  cases pre
  case true  => exact mem_splitlines hl' c (mem_strip hc)
  case false =>
    obtain rfl := List.mem_singleton.mp hl'
    obtain hspace | rfl := mem_collapse (mem_strip hc)
    · by_contra hbreak
      simp [isSpace_of_isLineBreak (by simpa using hbreak)] at hspace
    · decide

-- The lines are those of the flushes, and each flush has written all that is seen of its parts.
structure Written (s : Extractor) : Prop where
  lines  : s.lines = s.flushed.flatMap fun f => f.lines.map (mark f.quoted)
  single : ∀ f ∈ s.flushed, ∀ l ∈ f.lines, ∀ c ∈ l, isLineBreak c = false
  seen   : ∀ f ∈ s.flushed, visible f.lines.flatten = visible (f.parts.map Part.data).flatten

theorem Written.of_eq (h : s.Written) (hl : s'.lines = s.lines) (hf : s'.flushed = s.flushed) : s'.Written :=
  ⟨by rw [hl, hf]; exact h.lines, by rw [hf]; exact h.single, by rw [hf]; exact h.seen⟩

theorem Written.line (h : s.Written) : s.line.Written := by
  refine ⟨?_, fun f hf => ?_, fun f hf => ?_⟩
  · simp only [Extractor.line, h.lines, List.flatMap_append, List.flatMap_singleton]
  · obtain hf | hf := List.mem_append.mp hf
    · exact h.single f hf
    · obtain rfl := List.mem_singleton.mp hf
      exact fun _ hl => textLines_breaks hl
  · obtain hf | hf := List.mem_append.mp hf
    · exact h.seen f hf
    · obtain rfl := List.mem_singleton.mp hf
      exact visible_textLines _ _

theorem Written.lineIf (h : s.Written) (tag : Text) : (s.lineIf tag).Written := by
  rw [Extractor.lineIf]
  split
  · exact h.line
  · exact h

theorem Written.next [Casefold] (h : s.Written) (hs : s.Scanned) (a : Event) : (extractor.next s a).Written := by
  cases a
  case startTag tag attributes =>
    change (s.handleStarttag tag attributes).Written
    rw [handleStarttag]
    split
    · exact h.lineIf _
    · exact (h.lineIf _).of_eq rfl rfl
  case endTag tag              =>
    change (s.handleEndtag tag).Written
    rw [handleEndtag]
    split
    case h_1 target ht =>
      obtain ⟨-, -, -, hlines, hflushed⟩ := close_eq (hs.lineIf _) ht
      exact (h.lineIf _).of_eq hlines hflushed
    case h_2           => exact h.lineIf _
  case data data               =>
    change (s.handleData data).Written
    rw [handleData]
    split
    · exact h.of_eq rfl rfl
    · exact h

end Lines

section Quotes

-- What came while nothing was quoted is not marked.
structure Unquoted (s : Extractor) : Prop where
  flushed : ∀ f ∈ s.flushed, ∀ p ∈ f.parts, p.quoted = false → f.quoted = false
  parts   : ∀ p ∈ s.parts, p.quoted = false → s.quoteDepth = 0

-- What came while something was quoted, and is not to be marked.
def Lost (p : Part) (quoted : Bool) : Prop :=
  p.quoted ∧ visible p.data ≠ [] ∧ quoted = false

def Tainted (s : Extractor) : Prop :=
  (∃ f ∈ s.flushed, ∃ p ∈ f.parts, Lost p f.quoted) ∨ ∃ p ∈ s.parts, Lost p (s.quoteDepth ≠ 0)

-- No end tag of an element within a line closes what is quoted while there is something to be seen of it.
def Settled [Casefold] (s : Extractor) : Event → Prop
  | .endTag tag => Casefold.casefold tag ∉ htmlLineBreakTags → s.quoteDepth ≠ 0 →
    ∀ target, (s.positions (Casefold.casefold tag)).getLast? = some target →
    ¬(s.stack.take target).any (·.quoted) → visible (s.parts.map Part.data).flatten = []
  | _           => True

theorem Unquoted.line (h : s.Unquoted) : s.line.Unquoted := by
  refine ⟨fun f hf => ?_, nofun⟩
  obtain hf | hf := List.mem_append.mp hf
  · exact h.flushed f hf
  · obtain rfl := List.mem_singleton.mp hf
    intro p hp hq
    simpa using h.parts p hp hq

theorem Unquoted.lineIf (h : s.Unquoted) (tag : Text) : (s.lineIf tag).Unquoted := by
  rw [Extractor.lineIf]
  split
  · exact h.line
  · exact h

theorem tainted_line : s.line.Tainted ↔ s.Tainted := by
  simp [Tainted, line, or_and_right, exists_or]

theorem tainted_lineIf : (s.lineIf tag).Tainted ↔ s.Tainted := by
  rw [lineIf]
  split
  · exact tainted_line
  · rfl

theorem isQuoted_lineBreak {attributes : Attributes} (h : isQuoted tag attributes) : tag ∈ htmlLineBreakTags := by
  simp only [isQuoted, Bool.or_eq_true, Bool.and_eq_true, decide_eq_true_eq] at h
  obtain rfl | ⟨rfl, -⟩ := h <;> decide

-- An element that quotes comes when nothing waits.
theorem parts_of_quoted {attributes : Attributes} (h : (element tag attributes).quoted) :
    (s.lineIf tag).parts = [] := by
  rw [lineIf, if_pos (isQuoted_lineBreak h)]
  rfl

theorem push_quoteDepth (h : e.quoted = false) : (s.push e).quoteDepth = s.quoteDepth := by
  simp [push, h]

theorem Unquoted.push (h : s.Unquoted) (he : e.quoted → s.parts = []) : (s.push e).Unquoted := by
  refine ⟨h.flushed, fun p hp hq => ?_⟩
  cases hquoted : e.quoted
  case true  =>
    change p ∈ s.parts at hp
    rw [he hquoted] at hp
    exact absurd hp List.not_mem_nil
  case false => exact (push_quoteDepth hquoted).trans (h.parts p hp hq)

theorem tainted_push (he : e.quoted → s.parts = []) : (s.push e).Tainted ↔ s.Tainted := by
  cases hquoted : e.quoted
  case true  =>
    have hparts : (s.push e).parts = [] := he hquoted
    simp only [Tainted, hparts, he hquoted]
    simp [Extractor.push]
  case false => rw [Tainted, push_quoteDepth hquoted]; rfl

theorem Unquoted.popTo {target : Nat} (h : s.Unquoted) (hs : s.Scanned)
    (ht : (s.positions tag).getLast? = some target) : (s.popTo target).Unquoted := by
  obtain ⟨hscanned, hstack, hparts, -, hflushed⟩ := close_eq hs ht
  refine ⟨hflushed ▸ h.flushed, fun p hp hq => ?_⟩
  have hzero := h.parts p (hparts ▸ hp) hq
  by_contra hne
  obtain ⟨e, he, hquoted⟩ := List.any_eq_true.mp (hstack ▸ hscanned.quote_ne_zero.mp hne)
  exact hs.quote_ne_zero.mpr (List.any_eq_true.mpr ⟨e, List.mem_of_mem_take he, hquoted⟩) hzero

-- What is closed while it waits is lost.
theorem tainted_popTo {target : Nat} (h : s.Unquoted) (hs : s.Scanned)
    (ht : (s.positions tag).getLast? = some target) : (s.popTo target).Tainted ↔
    s.Tainted ∨ s.quoteDepth ≠ 0 ∧ ¬(s.stack.take target).any (·.quoted) ∧
      visible (s.parts.map Part.data).flatten ≠ [] := by
  obtain ⟨hscanned, hstack, hparts, -, hflushed⟩ := close_eq hs ht
  have hquote := hscanned.quote_ne_zero
  rw [hstack] at hquote
  simp only [Tainted, hparts, hflushed, Lost, decide_eq_false_iff_not, not_not, ← hquote]
  by_cases hs0 : s.quoteDepth = 0
  case pos =>
    have hzero : (s.popTo target).quoteDepth = 0 := by
      by_contra hne
      obtain ⟨e, he, hquoted⟩ := List.any_eq_true.mp (hquote.mp hne)
      exact hs.quote_ne_zero.mpr (List.any_eq_true.mpr ⟨e, List.mem_of_mem_take he, hquoted⟩) hs0
    simp [hs0, hzero]
  case neg =>
    have hall : ∀ p ∈ s.parts, p.quoted := fun p hp => by
      by_contra hq
      exact hs0 (h.parts p hp (by simpa using hq))
    have hseen : visible (s.parts.map Part.data).flatten ≠ [] ↔ ∃ p ∈ s.parts, visible p.data ≠ [] := by
      simp [visible_flatten]
    rw [hseen]
    constructor
    · rintro (hlost | ⟨p, hp, -, hvisible, hzero⟩)
      · exact .inl <| .inl hlost
      · exact .inr ⟨hs0, hzero, p, hp, hvisible⟩
    · rintro ((hlost | ⟨p, hp, -, -, hzero⟩) | ⟨-, hzero, p, hp, hvisible⟩)
      · exact .inl hlost
      · exact absurd hzero hs0
      · exact .inr ⟨p, hp, hall p hp, hvisible, hzero⟩

theorem Unquoted.next [Casefold] (h : s.Unquoted) (hs : s.Scanned) (a : Event) : (extractor.next s a).Unquoted := by
  cases a
  case startTag tag attributes =>
    change (s.handleStarttag tag attributes).Unquoted
    rw [handleStarttag]
    split
    · exact h.lineIf _
    · exact (h.lineIf _).push parts_of_quoted
  case endTag tag              =>
    change (s.handleEndtag tag).Unquoted
    rw [handleEndtag]
    split
    case h_1 target ht => exact (h.lineIf _).popTo (hs.lineIf _) ht
    case h_2           => exact h.lineIf _
  case data data               =>
    change (s.handleData data).Unquoted
    rw [handleData]
    split
    · refine ⟨h.flushed, fun p hp hq => ?_⟩
      obtain hp | hp := List.mem_append.mp hp
      · exact h.parts p hp hq
      · obtain rfl := List.mem_singleton.mp hp
        simpa using hq
    · exact h

theorem tainted_next [Casefold] (h : s.Unquoted) (hs : s.Scanned) (a : Event) :
    (extractor.next s a).Tainted ↔ s.Tainted ∨ ¬s.Settled a := by
  cases a
  case startTag tag attributes =>
    change (s.handleStarttag tag attributes).Tainted ↔ _ ∨ ¬True
    rw [handleStarttag, not_true_eq_false, or_false]
    split
    · exact tainted_lineIf
    · exact (tainted_push parts_of_quoted).trans tainted_lineIf
  case endTag tag              =>
    change (s.handleEndtag tag).Tainted ↔ _
    rw [handleEndtag, Settled]
    by_cases hbreak : Casefold.casefold tag ∈ htmlLineBreakTags
    case pos =>
      simp only [hbreak, not_true_eq_false, false_imp_iff, or_false]
      split
      case h_1 target ht =>
        rw [tainted_popTo (h.lineIf _) (hs.lineIf _) ht, tainted_lineIf]
        simp [lineIf, hbreak, line, visible]
      case h_2           => exact tainted_lineIf
    case neg =>
      have hline : s.lineIf (Casefold.casefold tag) = s := if_neg hbreak
      rw [hline]
      split
      case h_1 target ht =>
        rw [tainted_popTo h hs ht]
        simp [hbreak, ht]
      case h_2 ht        => simp [ht]
  case data data               =>
    change (s.handleData data).Tainted ↔ _ ∨ ¬True
    rw [handleData, not_true_eq_false, or_false]
    split
    · have hlast (d : Prop) : ¬(¬s.quoteDepth = 0 ∧ d ∧ s.quoteDepth = 0) := fun h => h.left h.right.right
      simp [Tainted, Lost, or_and_right, exists_or, hlast]
    · rfl

theorem tainted_run [Casefold] {as : List Event} (h : s.Unquoted) (hs : s.Scanned) :
    (extractor.run s as).Tainted ↔ s.Tainted ∨ ¬extractor.Guarded Settled s as := by
  induction as generalizing s
  case nil          => simp [Machine.Guarded]
  case cons a as ih =>
    rw [Machine.run_cons, ih (h.next hs a) (hs.next a), tainted_next h hs, Machine.Guarded, not_and_or, or_assoc]

end Quotes

section Characters

variable {v : Naive}

-- The parts that have come, those that wait included.
def all (s : Extractor) : List Part :=
  s.flushed.flatMap Flush.parts ++ s.parts

theorem all_line : s.line.all = s.all := by
  simp [all, line]

theorem all_lineIf : (s.lineIf tag).all = s.all := by
  rw [lineIf]
  split
  · exact all_line
  · rfl

theorem Refines.all_next [Casefold] (h : s.Refines v) (a : Event) : (extractor.next s a).all = s.all ++ v.receives a := by
  cases a
  case startTag tag attributes =>
    change (s.handleStarttag tag attributes).all = s.all ++ []
    rw [handleStarttag, List.append_nil]
    split
    · exact all_lineIf
    · exact all_lineIf
  case endTag tag              =>
    change (s.handleEndtag tag).all = s.all ++ []
    rw [handleEndtag, List.append_nil]
    split
    case h_1 target ht =>
      obtain ⟨-, -, hparts, -, hflushed⟩ := close_eq (h.scanned.lineIf _) ht
      rw [all, hparts, hflushed]
      exact all_lineIf
    case h_2           => exact all_lineIf
  case data data               =>
    change (s.handleData data).all = s.all ++ _
    rw [handleData, Naive.receives, ← h.stack, h.scanned.depths.left]
    by_cases hhidden : s.hiddenDepth = 0
    · have hany : ¬s.stack.any (·.hidden) := fun hany => h.scanned.hidden_ne_zero.mpr hany hhidden
      rw [if_pos hhidden, if_neg hany, all, all, List.append_assoc]
    · rw [if_neg hhidden, if_pos (h.scanned.hidden_ne_zero.mp hhidden), List.append_nil]

theorem Refines.all_run [Casefold] {as : List Event} (h : s.Refines v) :
    (extractor.run s as).all = s.all ++ v.received as := by
  induction as generalizing s v
  case nil          => exact (List.append_nil _).symm
  case cons a as ih => rw [Machine.run_cons, ih (h.next a), h.all_next, Naive.received, List.append_assoc]

theorem map_visible_flatten (lines : List Text) (quoted : Bool) :
    (visible lines.flatten).map (·, quoted) = lines.flatMap fun l => (visible l).map (·, quoted) := by
  rw [visible_flatten, List.map_flatten, List.map_map, ← List.flatMap_def]
  rfl

theorem Written.seen_eq (h : s.Written) {f : Flush} (hf : f ∈ s.flushed) :
    f.seen = f.parts.flatMap fun p => (visible p.data).map (·, f.quoted) := by
  rw [Flush.seen, ← map_visible_flatten, h.seen f hf, map_visible_flatten, List.flatMap_map]

theorem flatMap_eq_iff {α β : Type} {xs : List α} {f g : α → List β} (h : ∀ x ∈ xs, (f x).length = (g x).length) :
    xs.flatMap f = xs.flatMap g ↔ ∀ x ∈ xs, f x = g x := by
  induction xs
  case nil          => simp
  case cons x xs ih =>
    have ih := ih fun y hy => h y (List.mem_cons_of_mem _ hy)
    rw [List.flatMap_cons, List.flatMap_cons, List.forall_mem_cons, ← ih]
    constructor
    · exact fun heq => List.append_inj heq (h x List.mem_cons_self)
    · rintro ⟨hx, hxs⟩
      rw [hx, hxs]

theorem map_pair_eq_iff {text : Text} {a b : Bool} : text.map (·, a) = text.map (·, b) ↔ text ≠ [] → a = b := by
  cases text <;> simp +contextual [Prod.ext_iff]

-- Marked as they came are the lines of which nothing is lost.
theorem seen_eq_iff (h : s.Written) (hu : s.Unquoted) (hparts : s.parts = []) :
    s.flushed.flatMap Flush.seen = s.all.flatMap Part.seen ↔ ¬s.Tainted := by
  have hseen : s.flushed.flatMap Flush.seen =
      s.flushed.flatMap fun f => f.parts.flatMap fun p => (visible p.data).map (·, f.quoted) :=
    List.flatMap_congr fun f hf => h.seen_eq hf
  rw [hseen, all, hparts, List.append_nil, List.flatMap_assoc, flatMap_eq_iff (by simp [Part.seen, List.length_flatMap])]
  have hflush (f : Flush) : (f.parts.flatMap fun p => (visible p.data).map (·, f.quoted)) = f.parts.flatMap Part.seen ↔
      ∀ p ∈ f.parts, visible p.data ≠ [] → f.quoted = p.quoted := by
    rw [flatMap_eq_iff (by simp [Part.seen])]
    exact forall₂_congr fun p hp => map_pair_eq_iff
  simp only [hflush]
  constructor
  · rintro heq (⟨f, hf, p, hp, hquoted, hvisible, hmarked⟩ | ⟨p, hp, -⟩)
    · rw [heq f hf p hp hvisible, hquoted] at hmarked
      cases hmarked
    · rw [hparts] at hp
      cases hp
  · intro hkept f hf p hp hvisible
    cases hquoted : p.quoted
    case true  =>
      by_contra hmarked
      exact hkept <| .inl ⟨f, hf, p, hp, hquoted, hvisible, by simpa using hmarked⟩
    case false => exact hu.flushed f hf p hp hquoted

theorem Written.run [Casefold] {as : List Event} (h : s.Written) (hs : s.Scanned) : (extractor.run s as).Written := by
  induction as generalizing s
  case nil          => exact h
  case cons a as ih => exact ih (h.next hs a) (hs.next a)

theorem Unquoted.run [Casefold] {as : List Event} (h : s.Unquoted) (hs : s.Scanned) :
    (extractor.run s as).Unquoted := by
  induction as generalizing s
  case nil          => exact h
  case cons a as ih => exact ih (h.next hs a) (hs.next a)

end Characters

-- The stack need not be scanned to know where the open elements of a tag are, and whether there is one that counts.
structure Indexed (s : Extractor) : Prop extends s.Scanned where
  increasing : ∀ tag, (s.positions tag).Pairwise (· < ·)
  quoteDepth_nonneg  : 0 ≤ s.quoteDepth
  hiddenDepth_nonneg : 0 ≤ s.hiddenDepth
  preDepth_nonneg    : 0 ≤ s.preDepth

theorem Scanned.indexed (h : s.Scanned) : s.Indexed where
  toScanned := h
  increasing tag     := h.positions tag ▸ indices_pairwise
  quoteDepth_nonneg  := h.quote ▸ Int.natCast_nonneg _
  hiddenDepth_nonneg := h.hidden ▸ Int.natCast_nonneg _
  preDepth_nonneg    := h.pre ▸ Int.natCast_nonneg _

theorem Scanned.always [Casefold] {as : List Event} (h : s.Scanned) : extractor.Always Indexed s as := by
  induction as generalizing s
  case nil          => exact h.indexed
  case cons a as ih => exact ⟨h.indexed, ih (h.next a)⟩

end Extractor

section Marks

variable [Casefold] {events : List Event}

-- What the extractor holds when its document has ended.
def stored (events : List Event) : Extractor :=
  (extractor.run .initial events).line

-- Quoted text stays quoted in what is stored: all that is seen of what came is on the lines, in the order in which it
-- came, and on a marked line where a quoting element was open when it came, and nowhere else.
structure QuotesKept (events : List Event) : Prop where
  indexed : extractor.Always Extractor.Indexed .initial events
  naive   : storedHtmlToText events = List.intercalate [newline] (naive events).line.lines
  lines   : (stored events).lines = (stored events).flushed.flatMap fun f => f.lines.map (mark f.quoted)
  single  : ∀ f ∈ (stored events).flushed, ∀ l ∈ f.lines, newline ∉ l
  marked  : (stored events).flushed.flatMap Flush.seen = (Naive.initial.received events).flatMap Part.seen

theorem quotesKept_iff : QuotesKept events ↔ extractor.Guarded Extractor.Settled .initial events := by
  have hscanned  : Extractor.initial.Scanned := .initial
  have hrefines  : Extractor.initial.Refines .initial := ⟨.initial, rfl, rfl, rfl⟩
  have hunquoted : Extractor.initial.Unquoted :=
    ⟨fun _ hf => absurd hf List.not_mem_nil, fun _ hp => absurd hp List.not_mem_nil⟩
  have hwritten  : Extractor.initial.Written :=
    ⟨rfl, fun _ hf => absurd hf List.not_mem_nil, fun _ hf => absurd hf List.not_mem_nil⟩
  have hclean    : ¬Extractor.initial.Tainted := by simp [Extractor.Tainted, Extractor.initial]
  have hstored   : (stored events).Written := (hwritten.run hscanned).line
  have hall      : (stored events).all = Naive.initial.received events :=
    Extractor.all_line.trans hrefines.all_run
  have hmarked   : (stored events).flushed.flatMap Flush.seen = (Naive.initial.received events).flatMap Part.seen ↔
      extractor.Guarded Extractor.Settled .initial events := by
    rw [← hall, Extractor.seen_eq_iff hstored (hunquoted.run hscanned).line rfl, stored, Extractor.tainted_line,
      Extractor.tainted_run hunquoted hscanned]
    simp [hclean]
  constructor
  · exact fun h => hmarked.mp h.marked
  · intro hsettled
    exact {
      indexed := hscanned.always
      naive   := congrArg _ (Extractor.refines_run events).line.lines
      lines   := hstored.lines
      single  := fun f hf l hl hc => absurd (hstored.single f hf l hl _ hc) (by decide)
      marked  := hmarked.mpr hsettled
    }

end Marks

section Sample

-- A quote that the end of an element around it closes.
def misnested : List Event :=
  [.startTag ("span" : Text) [], .startTag ("blockquote" : Text) [], .data ("x" : Text), .endTag ("span" : Text)]

theorem quote_dropped : ¬∀ (_ : Casefold) (events : List Event), QuotesKept events := by
  intro h
  let casefold : Casefold := ⟨id⟩
  have hmarked := (h casefold misnested).marked
  revert hmarked
  decide

end Sample

end StoredText
