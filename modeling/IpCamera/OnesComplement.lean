/-
# One's complement sums

Addition with the carry brought round, on the numbers up to `m` (for words of `w` bits,
`m` is `2 ^ w - 1`).  A sum of words is the plain sum brought below `m + 1` by `reduce`,
which keeps it modulo `m` and never turns a sum that is not 0 into 0; so a word that holds
the complement of the sum of the others makes the sum `m`.
-/
import Mathlib.Algebra.BigOperators.Group.List.Basic
import Mathlib.Tactic

namespace OnesComplement

variable (m : ℕ)

/-- Addition with end-around carry. -/
def add (a b : ℕ) : ℕ := if a + b ≤ m then a + b else a + b - m

/-- The sum of a list of words. -/
def sum (ws : List ℕ) : ℕ := ws.foldl (add m) 0

/-- The number from 1 to `m` that is `n` modulo `m`, and 0 for 0. -/
def reduce (n : ℕ) : ℕ := if n = 0 then 0 else (n - 1) % m + 1

variable {m}

theorem reduce_le (hm : 0 < m) (n : ℕ) : reduce m n ≤ m := by
  unfold reduce
  split
  · exact Nat.zero_le m
  · exact Nat.mod_lt _ hm

theorem reduce_of_le {n : ℕ} (hn : n ≤ m) : reduce m n = n := by
  unfold reduce
  split
  · omega
  · rw [Nat.mod_eq_of_lt (by omega)]
    omega

theorem reduce_add_self {n : ℕ} (hn : n ≠ 0) : reduce m (n + m) = reduce m n := by
  have hshift : n + m - 1 = (n - 1) + m := by omega
  unfold reduce
  rw [if_neg hn, if_neg (by omega), hshift, Nat.add_mod_right]

theorem reduce_add_mul {n : ℕ} (hn : n ≠ 0) (k : ℕ) : reduce m (n + m * k) = reduce m n := by
  induction k with
  | zero => simp
  | succ k ih =>
    rw [Nat.mul_succ, ← Nat.add_assoc, reduce_add_self (by omega), ih]

/-- A sum is what its reduction leaves it, a multiple of `m` apart. -/
theorem exists_reduce (hm : 0 < m) (n : ℕ) : ∃ k, n = reduce m n + m * k := by
  unfold reduce
  split
  next h => exact ⟨0, by rw [h]; rfl⟩
  next h =>
    refine ⟨(n - 1) / m, ?_⟩
    have := Nat.mod_add_div (n - 1) m
    omega

theorem add_eq_reduce {a b : ℕ} (ha : a ≤ m) (hb : b ≤ m) : add m a b = reduce m (a + b) := by
  unfold add
  split
  next h => exact (reduce_of_le h).symm
  next h =>
    obtain ⟨c, hc⟩ : ∃ c, a + b = c + m := ⟨a + b - m, by omega⟩
    rw [hc, reduce_add_self (by omega), reduce_of_le (by omega)]
    omega

theorem reduce_reduce_add (hm : 0 < m) (n a : ℕ) :
    reduce m (reduce m n + a) = reduce m (n + a) := by
  obtain ⟨k, hk⟩ := exists_reduce hm n
  by_cases hzero : reduce m n + a = 0
  · have hn : n = 0 := by
      by_contra hne
      have hpos : reduce m n ≠ 0 := by
        unfold reduce
        rw [if_neg hne]
        omega
      omega
    have ha : a = 0 := by omega
    simp [hn, ha, reduce]
  · have hadd : n + a = reduce m n + a + m * k := by omega
    rw [hadd, reduce_add_mul hzero]

/-- The sum of words is their plain sum, reduced. -/
theorem sum_eq_reduce (hm : 0 < m) {ws : List ℕ} (hws : ∀ w ∈ ws, w ≤ m) :
    sum m ws = reduce m ws.sum := by
  have hfold : ∀ (ws : List ℕ) (s : ℕ), (∀ w ∈ ws, w ≤ m) →
      ws.foldl (add m) (reduce m s) = reduce m (s + ws.sum) := by
    intro ws
    induction ws with
    | nil => simp
    | cons w ws ih =>
      intro s hws
      have hw := hws w List.mem_cons_self
      rw [List.foldl_cons, add_eq_reduce (reduce_le hm s) hw, reduce_reduce_add hm,
        ih _ fun v hv => hws v (List.mem_cons_of_mem w hv), List.sum_cons, Nat.add_assoc]
  have h := hfold ws 0 hws
  rwa [reduce_of_le (Nat.zero_le m), Nat.zero_add] at h

/-- The complement of a sum completes it. -/
theorem reduce_add_complement (hm : 0 < m) (n : ℕ) : reduce m (n + (m - reduce m n)) = m := by
  obtain ⟨k, hk⟩ := exists_reduce hm n
  have hle := reduce_le hm n
  have hsum : n + (m - reduce m n) = m + m * k := by omega
  rw [hsum, reduce_add_mul (by omega), reduce_of_le (Nat.le_refl m)]

end OnesComplement
