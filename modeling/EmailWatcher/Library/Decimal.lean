import EmailWatcher.Library.Text
import Mathlib.Algebra.GroupWithZero.Nat

-- Decimal digits, and the numbers that are written with them.
namespace Decimal

section Digits

-- The zeros of the runs of decimal digits of Unicode. Each is followed by the other nine digits of its run.
def zeros : List Nat :=
  [0x30, 0x660, 0x6f0, 0x7c0, 0x966, 0x9e6, 0xa66, 0xae6, 0xb66, 0xbe6, 0xc66, 0xce6, 0xd66, 0xde6,
    0xe50, 0xed0, 0xf20, 0x1040, 0x1090, 0x17e0, 0x1810, 0x1946, 0x19d0, 0x1a80, 0x1a90, 0x1b50, 0x1bb0,
    0x1c40, 0x1c50, 0xa620, 0xa8d0, 0xa900, 0xa9d0, 0xa9f0, 0xaa50, 0xabf0, 0xff10, 0x104a0, 0x10d30,
    0x11066, 0x110f0, 0x11136, 0x111d0, 0x112f0, 0x11450, 0x114d0, 0x11650, 0x116c0, 0x11730, 0x118e0,
    0x11950, 0x11c50, 0x11d50, 0x11da0, 0x11f50, 0x16a60, 0x16ac0, 0x16b50, 0x1d7ce, 0x1d7d8, 0x1d7e2,
    0x1d7ec, 0x1d7f6, 0x1e140, 0x1e2f0, 0x1e4f0, 0x1e950, 0x1fbf0]

def digit? (c : CodePoint) : Option Nat :=
  (zeros.find? fun z => z ≤ c.val && c.val < z + 10).map (c.val - ·)

-- `text.isdecimal()`
def isdecimal (text : Text) : Bool :=
  text ≠ [] && text.all fun c => (digit? c).isSome

-- The number that decimal digits stand for.
def value (text : Text) : Nat :=
  text.foldl (fun n c => 10 * n + (digit? c).getD 0) 0

-- How a number is written.
def digits (n : Nat) : Text :=
  (Nat.toDigits 10 n).map fun c : Char => (c : CodePoint)

def isAsciiDigit (c : CodePoint) : Bool :=
  0x30 ≤ c.val && c.val ≤ 0x39

end Digits

section Lemmas

variable {n d k : Nat} {c : CodePoint} {text : Text}

theorem digit?_digitChar (h : d < 10) : digit? (d.digitChar : CodePoint) = some d := by
  revert h d
  decide

theorem isAsciiDigit_digitChar (h : d < 10) : isAsciiDigit (d.digitChar : CodePoint) := by
  revert h d
  decide

theorem digits_of_lt (h : n < 10) : digits n = [(n.digitChar : CodePoint)] := by
  rw [digits, Nat.toDigits_of_lt_base h]
  rfl

theorem digits_concat (hn : 0 < n) (hd : d < 10) : digits (10 * n + d) = digits n ++ [(d.digitChar : CodePoint)] := by
  rw [← digits_of_lt hd, digits, ← Nat.toDigits_append_toDigits (by decide) hn hd, List.map_append]
  rfl

@[simp]
theorem digits_ne_nil : digits n ≠ [] := by
  rw [digits, ne_eq, List.map_eq_nil_iff]
  exact Nat.toDigits_ne_nil

theorem length_digits_le (h : 0 < k) : (digits n).length ≤ k ↔ n < 10 ^ k := by
  rw [digits, List.length_map]
  exact Nat.length_toDigits_le_iff (b := 10) (by decide) h

theorem value_concat : value (text ++ [c]) = 10 * value text + (digit? c).getD 0 := by
  simp [value]

-- A number is read as it has been written.
@[simp]
theorem value_digits (n : Nat) : value (digits n) = n := by
  induction n using Nat.base_induction 10 (by decide)
  case single d hd        =>
    rw [digits_of_lt hd]
    change 10 * 0 + (digit? d.digitChar).getD 0 = d
    rw [digit?_digitChar hd, Option.getD_some, Nat.mul_zero, Nat.zero_add]
  case digit n d hd hn ih => rw [digits_concat hn hd, value_concat, ih, digit?_digitChar hd, Option.getD_some]

theorem mem_digits (h : c ∈ digits n) : isAsciiDigit c := by
  induction n using Nat.base_induction 10 (by decide)
  case single d hd        =>
    rw [digits_of_lt hd, List.mem_singleton] at h
    exact h ▸ isAsciiDigit_digitChar hd
  case digit n d hd hn ih =>
    rw [digits_concat hn hd, List.mem_append, List.mem_singleton] at h
    obtain h | rfl := h
    · exact ih h
    · exact isAsciiDigit_digitChar hd

theorem digit?_isSome (h : isAsciiDigit c) : (digit? c).isSome := by
  simp only [isAsciiDigit, Bool.and_eq_true, decide_eq_true_eq] at h
  rw [digit?, Option.isSome_map, List.find?_isSome]
  refine ⟨0x30, by decide, ?_⟩
  simp only [Bool.and_eq_true, decide_eq_true_eq]
  omega

@[simp]
theorem isdecimal_digits (n : Nat) : isdecimal (digits n) := by
  simp only [isdecimal, Bool.and_eq_true, decide_eq_true_eq, List.all_eq_true]
  exact ⟨digits_ne_nil, fun c hc => digit?_isSome (mem_digits hc)⟩

-- No number but zero begins with a zero.
theorem exists_digits_eq (h : 0 < n) :
    ∃ c cs, digits n = c :: cs ∧ isAsciiDigit c ∧ c ≠ ('0' : CodePoint) := by
  induction n using Nat.base_induction 10 (by decide)
  case single d hd        =>
    refine ⟨_, [], digits_of_lt hd, isAsciiDigit_digitChar hd, ?_⟩
    revert h hd d
    decide
  case digit n d hd hn ih =>
    obtain ⟨c, cs, hc, hdigit⟩ := ih hn
    exact ⟨c, cs ++ [(d.digitChar : CodePoint)], by rw [digits_concat hn hd, hc, List.cons_append], hdigit⟩

end Lemmas

end Decimal
