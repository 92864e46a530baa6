import Mathlib.Algebra.BigOperators.Group.List.Basic
import Mathlib.Algebra.Order.BigOperators.Group.List

-- A deadline that is put off by the time spent paused.
namespace Stopwatch

inductive Event (τ : Type)
  | paused  (time : τ)
  | resumed (time : τ)

structure Clock (τ μ : Type) where
  deadline : μ
  pausedAt : Option τ

section Spec

variable {τ : Type}

-- The pauses that the events close, each with its first mark and its resume. The argument is the
-- mark of the pause that is open before them.
def closed : Option τ → List (Event τ) → List (τ × τ)
  | _,         []               => []
  | mark,      .paused t :: es  => closed (mark.or (some t)) es
  | none,      .resumed _ :: es => closed none es
  | some mark, .resumed t :: es => (mark, t) :: closed none es

-- The mark of the pause that is open after the events.
def opened : Option τ → List (Event τ) → Option τ
  | mark, []               => mark
  | mark, .paused t :: es  => opened (mark.or (some t)) es
  | _,    .resumed _ :: es => opened none es

end Spec

namespace Clock

variable {τ μ : Type}

-- A pause that is open already keeps its mark, and a clock that runs is not resumed.
def apply [Add μ] (elapsed : τ → τ → μ) (c : Clock τ μ) : Event τ → Clock τ μ
  | .paused t  => { c with pausedAt := c.pausedAt.or (some t) }
  | .resumed t =>
    match c.pausedAt with
    | none      => c
    | some mark => { deadline := c.deadline + elapsed t mark, pausedAt := none }

def after [Add μ] (elapsed : τ → τ → μ) (c : Clock τ μ) (es : List (Event τ)) : Clock τ μ :=
  es.foldl (apply elapsed) c

variable [AddMonoid μ] {elapsed : τ → τ → μ} {c : Clock τ μ} {es fs : List (Event τ)}

theorem after_append : c.after elapsed (es ++ fs) = (c.after elapsed es).after elapsed fs :=
  List.foldl_append

theorem after_pausedAt : (c.after elapsed es).pausedAt = opened c.pausedAt es := by
  induction es generalizing c
  case nil => rfl
  case cons e es ih =>
    rw [after, List.foldl_cons, ← after, ih]
    cases e
    case paused t  => rfl
    case resumed t => cases h : c.pausedAt <;> simp [apply, opened, h]

-- The deadline is put off by the closed pauses and by nothing else.
theorem after_deadline :
    (c.after elapsed es).deadline =
    c.deadline + ((closed c.pausedAt es).map fun (mark, t) => elapsed t mark).sum := by
  induction es generalizing c
  case nil => simp [after, closed]
  case cons e es ih =>
    rw [after, List.foldl_cons, ← after, ih]
    cases e
    case paused t  => rfl
    case resumed t => cases h : c.pausedAt <;> simp [apply, closed, h, add_assoc]

end Clock

end Stopwatch
