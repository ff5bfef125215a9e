/-
# Loops from position to position

A loop looks at a position, and either stops there with a result or goes on at the
next one.  It stops exactly if one of the positions it goes through has a result
(`exists_loop_iff`); when only finitely many positions have none, one of the first
ones has it or none has (`exists_loop_iff_le`), since a position met again is met for
ever.
-/
import Mathlib.Data.Finset.Card
import Mathlib.Logic.Function.Iterate
import Mathlib.Tactic

namespace Orbit

variable {α β : Type*} (stop : α → Option β) (next : α → α)

/-- The loop, for as many rounds as there is fuel. -/
def loop : (fuel : ℕ) → α → Option β
  | 0, _ => none
  | fuel + 1, x =>
      match stop x with
      | some r => some r
      | none => loop fuel (next x)

/-- The loop stops after `n` moves with the result `r`. -/
def StopsAfter (x : α) (n : ℕ) (r : β) : Prop :=
  stop (next^[n] x) = some r ∧ ∀ m < n, stop (next^[m] x) = none

variable {stop next}

theorem stopsAfter_zero {x : α} {r : β} : StopsAfter stop next x 0 r ↔ stop x = some r :=
  ⟨fun h => h.1, fun h => ⟨h, fun m hm => absurd hm (Nat.not_lt_zero m)⟩⟩

theorem stopsAfter_succ {x : α} {n : ℕ} {r : β} :
    StopsAfter stop next x (n + 1) r ↔ stop x = none ∧ StopsAfter stop next (next x) n r := by
  constructor
  · rintro ⟨hstop, hbefore⟩
    refine ⟨hbefore 0 (Nat.succ_pos n), hstop, fun m hm => ?_⟩
    exact hbefore (m + 1) (Nat.succ_lt_succ hm)
  · rintro ⟨hnone, hstop, hbefore⟩
    refine ⟨hstop, fun m hm => ?_⟩
    cases m with
    | zero => exact hnone
    | succ m => exact hbefore m (Nat.lt_of_succ_lt_succ hm)

theorem loop_eq_some_iff {fuel : ℕ} {x : α} {r : β} :
    loop stop next fuel x = some r ↔ ∃ n < fuel, StopsAfter stop next x n r := by
  induction fuel generalizing x with
  | zero => simp [loop]
  | succ fuel ih =>
    rw [loop]
    rcases hstop : stop x with _ | r'
    · dsimp only
      rw [ih]
      constructor
      · rintro ⟨n, hn, h⟩
        exact ⟨n + 1, Nat.succ_lt_succ hn, stopsAfter_succ.mpr ⟨hstop, h⟩⟩
      · rintro ⟨n, hn, h⟩
        cases n with
        | zero => exact absurd (hstop.symm.trans h.1) (by simp)
        | succ n => exact ⟨n, Nat.lt_of_succ_lt_succ hn, (stopsAfter_succ.mp h).2⟩
    · dsimp only
      constructor
      · intro h
        exact ⟨0, Nat.succ_pos fuel, stopsAfter_zero.mpr (hstop.trans h)⟩
      · rintro ⟨n, -, h⟩
        cases n with
        | zero => exact hstop.symm.trans h.1
        | succ n => exact absurd (hstop.symm.trans (h.2 0 (Nat.succ_pos n))) (by simp)

theorem exists_loop_iff {x : α} {r : β} :
    (∃ fuel, loop stop next fuel x = some r) ↔ ∃ n, StopsAfter stop next x n r := by
  constructor
  · rintro ⟨fuel, h⟩
    obtain ⟨n, -, hn⟩ := loop_eq_some_iff.mp h
    exact ⟨n, hn⟩
  · rintro ⟨n, h⟩
    exact ⟨n + 1, loop_eq_some_iff.mpr ⟨n, Nat.lt_succ_self n, h⟩⟩

/-- No position is met twice before the loop stops. -/
theorem StopsAfter.injOn {x : α} {n : ℕ} {r : β} (h : StopsAfter stop next x n r) :
    Set.InjOn (fun m => next^[m] x) (Finset.range n) := by
  -- from a position met twice the loop would stop earlier
  have hlt : ∀ a b, a < b → b < n → next^[a] x ≠ next^[b] x := by
    intro a b hab hbn heq
    have hshift : next^[a + (n - b)] x = next^[n] x := by
      rw [Nat.add_comm a, Function.iterate_add_apply, heq, ← Function.iterate_add_apply]
      congr 1
      omega
    have hnone := h.2 (a + (n - b)) (by omega)
    rw [hshift, h.1] at hnone
    cases hnone
  intro a ha b hb heq
  have ha' : a < n := Finset.mem_range.mp ha
  have hb' : b < n := Finset.mem_range.mp hb
  rcases Nat.lt_trichotomy a b with h' | h' | h'
  · exact absurd heq (hlt a b h' hb')
  · exact h'
  · exact absurd heq.symm (hlt b a h' ha')

/-- A loop that stops does so within as many moves as there are positions without a result. -/
theorem StopsAfter.le_card {x : α} {n : ℕ} {r : β} (h : StopsAfter stop next x n r)
    (positions : Finset α) (hpos : ∀ m, stop (next^[m] x) = none → next^[m] x ∈ positions) :
    n ≤ positions.card := by
  have hcard := Finset.card_le_card_of_injOn (s := Finset.range n) (t := positions)
    (fun m => next^[m] x)
    (fun m hm => hpos m (h.2 m (Finset.mem_range.mp hm))) h.injOn
  rwa [Finset.card_range] at hcard

theorem exists_loop_iff_le {x : α} {r : β} (positions : Finset α)
    (hpos : ∀ m, stop (next^[m] x) = none → next^[m] x ∈ positions) :
    (∃ fuel, loop stop next fuel x = some r)
      ↔ ∃ n ≤ positions.card, StopsAfter stop next x n r := by
  rw [exists_loop_iff]
  constructor
  · rintro ⟨n, h⟩
    exact ⟨n, h.le_card positions hpos, h⟩
  · rintro ⟨n, -, h⟩
    exact ⟨n, h⟩

end Orbit
