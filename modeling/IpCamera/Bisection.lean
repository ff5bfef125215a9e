/-
# Search by halving

The search in a strictly increasing sequence between two positions, both outside the
part that is left.  It finds the position of a value that is there (`bisect_eq_some`).
-/
import Mathlib.Order.Monotone.Basic
import Mathlib.Tactic

namespace Bisection

/-- The search for a value strictly between `i` and `j`. -/
def bisect (value : ℕ → ℕ) (target : ℕ) : (fuel : ℕ) → (i j : ℤ) → Option ℕ
  | 0, _, _ => none
  | fuel + 1, i, j =>
      if 1 < j - i then
        let k := (i + j) / 2
        if value k.toNat < target then bisect value target fuel k j
        else if target < value k.toNat then bisect value target fuel i k
        else some k.toNat
      else none

variable {value : ℕ → ℕ} {target n : ℕ}

/-- A value between the positions is found, in as many rounds as there are positions. -/
theorem bisect_eq_some (hmono : StrictMonoOn value (Set.Iio n)) {k : ℕ} (hvalue : value k = target)
    {fuel : ℕ} {i j : ℤ} (hi : -1 ≤ i) (hik : i < k) (hkj : (k : ℤ) < j) (hj : j ≤ n)
    (hfuel : j - i ≤ fuel) : bisect value target fuel i j = some k := by
  have hk : k ∈ Set.Iio n := by
    show k < n
    omega
  induction fuel generalizing i j with
  | zero => omega
  | succ fuel ih =>
    rw [bisect, if_pos (by omega)]
    dsimp only
    have hmid : ((i + j) / 2).toNat ∈ Set.Iio n := by
      show ((i + j) / 2).toNat < n
      omega
    rcases Nat.lt_trichotomy ((i + j) / 2).toNat k with hlt | heq | hgt
    · have hless : value ((i + j) / 2).toNat < target := hvalue ▸ hmono hmid hk hlt
      rw [if_pos hless]
      exact ih (by omega) (by omega) hkj hj (by omega)
    · rw [heq, hvalue, if_neg (Nat.lt_irrefl _), if_neg (Nat.lt_irrefl _)]
    · have hmore : target < value ((i + j) / 2).toNat := hvalue ▸ hmono hk hmid hgt
      rw [if_neg (Nat.lt_asymm hmore), if_pos hmore]
      exact ih hi hik (by omega) (by omega) (by omega)

end Bisection
