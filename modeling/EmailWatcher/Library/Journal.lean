import Mathlib.Data.List.Basic
import Mathlib.Data.List.GetD
import Mathlib.Data.List.Nodup

-- A journal of the changes of a state, in the order in which they have been made.
class Entry (ε : Type) (σ : outParam Type) where
  sequenceNo    : ε → Nat
  stateVersion  : ε → Nat
  previousState : ε → Option σ
  nextState     : ε → σ

namespace Journal

open Entry

variable {ε σ : Type} [Entry ε σ]

-- The entries are numbered from zero without a gap, each starts from the state that the one before it
-- has left, and the last one leaves the given state in the given version.
structure Faithful (log : List ε) (state : σ) (version : Nat) : Prop where
  numbered : log.map sequenceNo = List.range log.length
  versions : ∀ e ∈ log, stateVersion e = sequenceNo e + 1
  first    : log.head?.map previousState = some none
  chained  : ∀ k e e', log[k]? = some e → log[k + 1]? = some e' →
    previousState e' = some (nextState e)
  last     : log.getLast?.map (fun e => (nextState e, stateVersion e)) = some (state, version)

namespace Faithful

variable {log : List ε} {state : σ} {version : Nat} {e : ε}

-- The version counts the entries.
theorem length_eq (h : Faithful log state version) : log.length = version := by
  obtain ⟨e, he, hv⟩ := Option.map_eq_some_iff.mp h.last
  have hmem : e ∈ log := List.mem_of_getLast? he
  have hv : stateVersion e = version := (Prod.mk.inj hv).right
  have hlen : log.length ≠ 0 := by
    intro hl
    simp [List.length_eq_zero_iff.mp hl] at he
  have hseq : sequenceNo e = log.length - 1 := by
    have hget : log[log.length - 1]? = some e := by rw [← List.getLast?_eq_getElem?, he]
    have hmap := congrArg (·[log.length - 1]?) h.numbered
    simp only [List.getElem?_map, hget, Option.map_some] at hmap
    rw [List.getElem?_range (by omega)] at hmap
    exact Option.some.inj hmap
  have := h.versions e hmem
  omega

-- No entry is later than the state.
theorem stateVersion_le (h : Faithful log state version) (he : e ∈ log) :
    stateVersion e ≤ version := by
  have hmem : sequenceNo e ∈ log.map sequenceNo := List.mem_map_of_mem he
  rw [h.numbered, List.mem_range, h.length_eq] at hmem
  rw [h.versions e he]
  exact hmem

-- Every version has one entry.
theorem eq_of_stateVersion {e' : ε} (h : Faithful log state version) (he : e ∈ log) (he' : e' ∈ log)
    (hv : stateVersion e = stateVersion e') : e = e' := by
  have hd : (log.map sequenceNo).Nodup := h.numbered ▸ List.nodup_range
  refine List.inj_on_of_nodup_map hd he he' ?_
  rw [h.versions e he, h.versions e' he'] at hv
  exact Nat.succ.inj hv

theorem single (hs : sequenceNo e = 0) (hv : stateVersion e = 1) (hp : previousState e = none) :
    Faithful [e] (nextState e) 1 where
  numbered := by simp [hs]
  versions := by simp [hs, hv]
  first    := by simp [hp]
  chained  := by
    intro k e₁ e₂ _ h
    simp at h
  last     := by simp [hv]

theorem append (h : Faithful log state version) (hs : sequenceNo e = version)
    (hv : stateVersion e = version + 1) (hp : previousState e = some state) :
    Faithful (log ++ [e]) (nextState e) (version + 1) where
  numbered := by
    rw [List.map_append, h.numbered, List.length_append, List.length_singleton, List.range_succ]
    simp [hs, h.length_eq]
  versions := by
    intro e' he'
    obtain he' | he' := List.mem_append.mp he'
    case inl => exact h.versions e' he'
    case inr =>
      obtain rfl := List.mem_singleton.mp he'
      rw [hs, hv]
  first    := by
    obtain ⟨e₀, h₀, _⟩ := Option.map_eq_some_iff.mp h.first
    rw [List.head?_append, h₀, Option.some_or, ← h₀, h.first]
  chained  := by
    intro k e₁ e₂ h₁ h₂
    have hk : k + 1 < (log ++ [e]).length := (List.getElem?_eq_some_iff.mp h₂).fst
    rw [List.length_append, List.length_singleton] at hk
    rw [List.getElem?_append_left (by omega)] at h₁
    by_cases hlast : k + 1 < log.length
    case pos =>
      rw [List.getElem?_append_left hlast] at h₂
      exact h.chained k e₁ e₂ h₁ h₂
    case neg =>
      obtain rfl : k = log.length - 1 := by omega
      obtain rfl : e = e₂ := by
        rw [List.getElem?_append_right (by omega)] at h₂
        simpa [show log.length - 1 + 1 - log.length = 0 by omega] using h₂
      have hl := h.last
      rw [List.getLast?_eq_getElem?, h₁, Option.map_some] at hl
      rw [hp, (Prod.mk.inj (Option.some.inj hl)).left]
  last     := by simp [hv]

end Faithful

end Journal
