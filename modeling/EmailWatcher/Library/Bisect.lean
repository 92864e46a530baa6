import Mathlib.Order.Basic

-- A search by halves for the place where a decision changes from no to yes.
namespace Bisect

variable {ε : Type}

-- The places from `low` up to, but without, `bound` are still open. A place whose decision is `keep` is
-- remembered.
def bisect (above : Nat → Except ε Bool) (keep : Bool) (low bound result : Nat) : Except ε Nat :=
  if low < bound then do
    let middle := (low + (bound - 1)) / 2
    let a ← above middle
    let result := if a = keep then middle else result
    if a then
      bisect above keep low middle result
    else
      bisect above keep (middle + 1) bound result
  else
    return result
termination_by bound - low

variable {above : Nat → Except ε Bool} {low bound result cut : Nat}

-- The first place with a yes.
theorem bisect_first (h : ∀ i, low ≤ i → i < bound → above i = .ok (cut ≤ i)) (hl : low ≤ cut)
    (hb : cut ≤ bound) (hr : cut = bound → result = cut) :
    bisect above true low bound result = .ok cut := by
  induction hn : bound - low using Nat.strongRecOn generalizing low bound result
  case ind n ih =>
    rw [bisect]
    split
    case isFalse hlt =>
      rw [hr (by omega)]
      rfl
    case isTrue hlt  =>
      dsimp only
      rw [h ((low + (bound - 1)) / 2) (by omega) (by omega)]
      change (if decide (cut ≤ (low + (bound - 1)) / 2) = true then _ else _) = _
      split
      case isTrue hcut =>
        have hcut : cut ≤ (low + (bound - 1)) / 2 := by simpa using hcut
        refine ih _ ?_ (fun i hi hib => h i hi (by omega)) hl hcut (fun _ => ?_) rfl
        · omega
        · omega
      case isFalse hcut =>
        have hcut : (low + (bound - 1)) / 2 < cut := by simpa using hcut
        refine ih _ ?_ (fun i hi hib => h i (by omega) hib) (by omega) hb (fun he => ?_) rfl
        · omega
        · exact hr he

-- The last place with a no.
theorem bisect_last (h : ∀ i, low ≤ i → i < bound → above i = .ok (cut ≤ i)) (hl : low ≤ cut)
    (hb : cut ≤ bound) (hr : cut = low → result + 1 = cut) :
    bisect above false low bound result = .ok (cut - 1) := by
  induction hn : bound - low using Nat.strongRecOn generalizing low bound result
  case ind n ih =>
    rw [bisect]
    split
    case isFalse hlt =>
      rw [← hr (by omega)]
      rfl
    case isTrue hlt  =>
      dsimp only
      rw [h ((low + (bound - 1)) / 2) (by omega) (by omega)]
      change (if decide (cut ≤ (low + (bound - 1)) / 2) = true then _ else _) = _
      split
      case isTrue hcut =>
        have hcut : cut ≤ (low + (bound - 1)) / 2 := by simpa using hcut
        refine ih _ ?_ (fun i hi hib => h i hi (by omega)) hl hcut (fun he => ?_) rfl
        · omega
        · rw [if_neg (by simpa using hcut)]
          exact hr he
      case isFalse hcut =>
        have hcut : (low + (bound - 1)) / 2 < cut := by simpa using hcut
        refine ih _ ?_ (fun i hi hib => h i (by omega) hib) (by omega) hb (fun he => ?_) rfl
        · omega
        · rw [if_pos (by simpa using hcut)]
          omega

end Bisect
