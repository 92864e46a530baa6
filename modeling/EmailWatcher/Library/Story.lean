import Mathlib.Data.List.Induction
import Mathlib.Data.List.Nodup
import Mathlib.Tactic.Common

-- Events in the order in which they have happened.
namespace Story

variable {ε : Type} {a b e : ε} {story : List ε}

-- Between any two `a` there is a `b`.
def Separated (a b : ε) (story : List ε) : Prop :=
  ∀ before between after, story = before ++ a :: (between ++ a :: after) → b ∈ between

-- There has been an `a` since the last `b`.
def Pending (a b : ε) (story : List ε) : Prop :=
  ∃ before after, story = before ++ a :: after ∧ b ∉ after

-- After an `a` there is no `b`.
def Final (a b : ε) (story : List ε) : Prop :=
  ∀ before after, story = before ++ a :: after → b ∉ after

-- Where a list splits that has one element more.
theorem split_concat {before after : List ε} (h : story ++ [e] = before ++ a :: after) :
    (after = [] ∧ story = before ∧ e = a) ∨
    ∃ after', after = after' ++ [e] ∧ story = before ++ a :: after' := by
  obtain rfl | ⟨after', e', rfl⟩ := List.eq_nil_or_concat after
  case inl =>
    obtain ⟨rfl, he⟩ := List.append_inj' h rfl
    exact .inl ⟨rfl, rfl, by simpa using he⟩
  case inr =>
    rw [List.concat_eq_append, ← List.cons_append, ← List.append_assoc] at h
    obtain ⟨hs, he⟩ := List.append_inj' h rfl
    obtain rfl : e = e' := by simpa using he
    exact .inr ⟨after', List.concat_eq_append, hs⟩

theorem final_of_not_mem (h : b ∉ story) : Final a b story := by
  rintro before after rfl hb
  exact h (by simp [hb])

theorem not_pending_of_not_mem (h : a ∉ story) : ¬Pending a b story := by
  rintro ⟨before, after, rfl, -⟩
  simp at h

theorem separated_of_not_mem (h : a ∉ story) : Separated a b story := by
  rintro before between after rfl
  simp at h

theorem Separated.concat (h : Separated a b story) (hp : e = a → ¬Pending a b story) :
    Separated a b (story ++ [e]) := by
  intro before between after hs
  rw [← List.cons_append, ← List.append_assoc] at hs
  obtain ⟨-, rfl, rfl⟩ | ⟨after', rfl, rfl⟩ := split_concat hs
  case inl =>
    by_contra hb
    exact hp rfl ⟨before, between, rfl, hb⟩
  case inr =>
    refine h before between after' ?_
    rw [← List.cons_append, ← List.append_assoc]

theorem Pending.of_concat (h : Pending a b (story ++ [e])) : e = a ∨ (Pending a b story ∧ e ≠ b) := by
  obtain ⟨before, after, hs, hb⟩ := h
  obtain ⟨-, -, rfl⟩ | ⟨after', rfl, rfl⟩ := split_concat hs
  case inl => exact .inl rfl
  case inr =>
    rw [List.mem_append, List.mem_singleton, not_or] at hb
    exact .inr ⟨⟨before, after', rfl, hb.left⟩, Ne.symm hb.right⟩

theorem Final.concat (h : Final a b story) (hb : e = b → a ∉ story) : Final a b (story ++ [e]) := by
  intro before after hs
  obtain ⟨rfl, -, rfl⟩ | ⟨after', rfl, rfl⟩ := split_concat hs
  case inl => exact List.not_mem_nil
  case inr =>
    rw [List.mem_append, List.mem_singleton, not_or]
    refine ⟨h before after' rfl, fun he => hb he.symm ?_⟩
    simp

-- Every event is justified by those before it.
def Lawful (J : List ε → ε → Prop) (story : List ε) : Prop :=
  ∀ before e after, story = before ++ e :: after → J before e

variable {J : List ε → ε → Prop}

theorem lawful_nil : Lawful J [] := by
  rintro before e after h
  simp at h

namespace Lawful

theorem concat (h : Lawful J story) (he : J story e) : Lawful J (story ++ [e]) := by
  intro before e' after hs
  obtain ⟨-, rfl, rfl⟩ | ⟨after', -, rfl⟩ := split_concat hs
  case inl => exact he
  case inr => exact h before e' after' rfl

theorem of_concat (h : Lawful J (story ++ [e])) : Lawful J story := by
  rintro before e' after rfl
  exact h before e' (after ++ [e]) (by simp)

theorem of_mem (h : Lawful J story) (he : e ∈ story) : ∃ before, before <+: story ∧ J before e := by
  obtain ⟨before, after, rfl⟩ := List.append_of_mem he
  exact ⟨before, List.prefix_append _ _, h before e after rfl⟩

-- What is justified only if it has not happened before, happens at most once.
theorem countP_le_one {p : ε → Bool} (h : Lawful J story)
    (hp : ∀ before e, J before e → p e → ∀ e' ∈ before, p e' = false) : story.countP p ≤ 1 := by
  induction story using List.reverseRecOn
  case nil                       => simp
  case append_singleton story e ih =>
    rw [List.countP_append, List.countP_singleton]
    split
    case isFalse => exact ih h.of_concat
    case isTrue he =>
      have hnone : story.countP p = 0 := by
        refine List.countP_eq_zero.mpr fun e' he' => ?_
        simp [hp story e (h story e [] rfl) he e' he']
      omega

-- What an event may bring about only if no event has before, is brought about by one event.
theorem nodup_filterMap {β : Type} {g : ε → Option β} (h : Lawful J story)
    (hg : ∀ before e y, J before e → g e = some y → y ∉ before.filterMap g) :
    (story.filterMap g).Nodup := by
  induction story using List.reverseRecOn
  case nil                       => simp
  case append_singleton story e ih =>
    rw [List.filterMap_append]
    refine List.Nodup.append (ih h.of_concat) ?_ ?_
    · cases hy : g e <;> simp [hy]
    · cases hy : g e
      case none   => simp [hy]
      case some y => simpa [hy] using hg story e y (h story e [] rfl) hy

-- Of two events of which either rules the other out, there is but one.
theorem eq_of_mem {p : ε → Prop} (h : Lawful J story)
    (hp : ∀ before e, J before e → p e → ∀ e' ∈ before, ¬p e') (ha : a ∈ story) (hb : b ∈ story)
    (hpa : p a) (hpb : p b) : a = b := by
  induction story using List.reverseRecOn
  case nil                       => cases ha
  case append_singleton story e ih =>
    rw [List.mem_append, List.mem_singleton] at ha hb
    have hlast (c : ε) (hc : c ∈ story) (he : p e) : ¬p c := hp story e (h story e [] rfl) he c hc
    rcases ha with ha | rfl <;> rcases hb with hb | rfl
    · exact ih h.of_concat ha hb
    · exact absurd hpa (hlast a ha hpb)
    · exact absurd hpb (hlast b hb hpa)
    · rfl

end Lawful

end Story
