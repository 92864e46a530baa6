import Mathlib.Data.List.Forall2
import Mathlib.Data.List.Infix

-- Texts that are made of a fixed start and of fields with a separator between them.
namespace Fields

variable {α : Type} [DecidableEq α]

section Split

-- `text.partition(separator)`
def partition (separator : α) : List α → List α × List α × List α
  | []      => ([], [], [])
  | c :: cs =>
    if c = separator then ([], [separator], cs)
    else (c :: (partition separator cs).fst, (partition separator cs).snd)

variable {separator : α} {text xs ys : List α} {fs : List (List α)}

theorem partition_of_not_mem (h : separator ∉ text) : partition separator text = (text, [], []) := by
  induction text
  case nil          => rfl
  case cons c cs ih =>
    rw [List.mem_cons, not_or] at h
    rw [partition, if_neg (Ne.symm h.left), ih h.right]

theorem partition_append (h : separator ∉ xs) :
    partition separator (xs ++ separator :: ys) = (xs, [separator], ys) := by
  induction xs
  case nil          => rw [List.nil_append, partition, if_pos rfl]
  case cons c cs ih =>
    rw [List.mem_cons, not_or] at h
    rw [List.cons_append, partition, if_neg (Ne.symm h.left), ih h.right]

-- A text goes up to its first separator, and from there on.
theorem partition_cases (separator : α) (text : List α) :
    partition separator text = (text, [], []) ∧ separator ∉ text ∨
    ∃ xs ys, text = xs ++ separator :: ys ∧ separator ∉ xs ∧ partition separator text = (xs, [separator], ys) := by
  by_cases h : separator ∈ text
  case pos =>
    obtain ⟨xs, ys, rfl, hxs⟩ := List.eq_append_cons_of_mem h
    exact .inr ⟨xs, ys, rfl, hxs, partition_append hxs⟩
  case neg => exact .inl ⟨partition_of_not_mem h, h⟩

end Split

-- A form of texts: what they start with, and what is asked of each of their fields.
structure Form (α : Type) where
  start     : List α
  separator : α
  fields    : List (List α → Bool)
  nonempty  : fields ≠ []
  plain     : ∀ p ∈ fields, ∀ f, p f → separator ∉ f

namespace Form

variable (form : Form α)

-- How fields are written.
def write (fs : List (List α)) : List α :=
  form.start ++ [form.separator].intercalate fs

structure Reads (text : List α) (fs : List (List α)) : Prop where
  text   : text = form.write fs
  fields : List.Forall₂ (fun p f => p f = true) form.fields fs

variable {form} {form' : Form α} {text rest : List α} {fs fs' : List (List α)}

omit [DecidableEq α] in
theorem exists_of_forall₂ {β : Type} {R : α → β → Prop} {xs : List α} {ys : List β} {y : β}
    (h : List.Forall₂ R xs ys) (hy : y ∈ ys) : ∃ x ∈ xs, R x y := by
  induction h
  case nil               => cases hy
  case cons x y' xs ys hr _ ih =>
    obtain rfl | hy := List.mem_cons.mp hy
    · exact ⟨x, List.mem_cons_self, hr⟩
    · obtain ⟨x', hx', hr'⟩ := ih hy
      exact ⟨x', List.mem_cons_of_mem _ hx', hr'⟩

omit [DecidableEq α] in
theorem Reads.nonempty (h : form.Reads text fs) : fs ≠ [] := by
  rintro rfl
  exact form.nonempty (List.forall₂_nil_right_iff.mp h.fields)

omit [DecidableEq α] in
theorem Reads.plain (h : form.Reads text fs) : ∀ f ∈ fs, form.separator ∉ f := by
  intro f hf
  obtain ⟨p, hp, hpf⟩ := exists_of_forall₂ h.fields hf
  exact form.plain p hp f hpf

omit [DecidableEq α] in
theorem Reads.starts (h : form.Reads text fs) : form.start <+: text :=
  h.text ▸ List.prefix_append _ _

-- A text is read by splitting what follows its start.
theorem reads_start_append :
    form.Reads (form.start ++ rest) fs ↔
    rest.splitOn form.separator = fs ∧ List.Forall₂ (fun p f => p f = true) form.fields fs := by
  constructor
  case mp  =>
    intro h
    obtain rfl := List.append_cancel_left h.text
    exact ⟨List.splitOn_intercalate _ h.plain h.nonempty, h.fields⟩
  case mpr =>
    rintro ⟨rfl, h⟩
    exact ⟨by rw [write, List.intercalate_splitOn], h⟩

-- What has been written of fields is read as these fields, or not at all.
theorem Reads.eq_of_write (h : form.Reads (form.write fs') fs) (hne : fs' ≠ [])
    (hplain : ∀ f ∈ fs', form.separator ∉ f) : fs = fs' := by
  rw [write, reads_start_append, List.splitOn_intercalate _ hplain hne] at h
  exact h.left.symm

omit [DecidableEq α] in
-- No text has two forms, of which neither starts like the other.
theorem Reads.apart (h : form.Reads text fs) (hs : ¬form.start <+: form'.start) (hs' : ¬form'.start <+: form.start) :
    ¬form'.Reads text fs' := by
  intro h'
  have hcomparable := List.prefix_or_prefix_of_prefix h.starts h'.starts
  exact hcomparable.elim hs hs'

end Form

end Fields
