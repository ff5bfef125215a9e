/-
# Lists cut into pages

A sender that has `left` entries cuts them into pages of at most `size`: all pages but the
last are full, the last one has what is left and is marked.  `cuts` lists the pages with
their numbers; the lemmas say how it unrolls and which entries the pages take together.
-/
import Mathlib.Data.List.Range
import Mathlib.Tactic.Ring

namespace Paging

variable {α β : Type*}

/-- A page: its number, how many entries it has, and whether it is the last one. -/
structure Cut where
  index : ℕ
  count : ℕ
  last : Bool
  deriving DecidableEq, Repr

/-- The pages of `left > 0` entries, numbered from `i` on. -/
def cuts (size left i : ℕ) : List Cut :=
  (List.range ((left - 1) / size)).map (fun d => ⟨i + d, size, false⟩)
    ++ [⟨i + (left - 1) / size, left - (left - 1) / size * size, true⟩]

/-- `n` successive entries, read one after the other. -/
def entries (list : List α) (k : ℕ) : ℕ → Option (List α)
  | 0 => some []
  | n + 1 => do
      let a ← list[k]?
      let as ← entries list (k + 1) n
      pure (a :: as)

section Cuts

variable {size left i : ℕ}

theorem cuts_of_le (hpos : 0 < left) (hle : left ≤ size) : cuts size left i = [⟨i, left, true⟩] := by
  have hq : (left - 1) / size = 0 := Nat.div_eq_of_lt (by omega)
  simp [cuts, hq]

theorem cuts_of_lt (hpos : 0 < size) (hlt : size < left) :
    cuts size left i = ⟨i, size, false⟩ :: cuts size (left - size) (i + 1) := by
  have hq : (left - 1) / size = (left - size - 1) / size + 1 := by
    rw [← Nat.add_div_right _ hpos]
    congr 1
    omega
  have hleft : left - ((left - size - 1) / size + 1) * size
      = left - size - (left - size - 1) / size * size := by
    rw [Nat.add_mul, Nat.one_mul, Nat.add_comm, Nat.sub_add_eq]
  rw [cuts, cuts, hq, hleft, List.range_succ_eq_map, List.map_cons, List.map_map, List.cons_append]
  congr 2
  · refine List.map_congr_left fun d _ => ?_
    simp only [Function.comp_apply, Cut.mk.injEq, and_true]
    omega
  · simp only [List.cons.injEq, Cut.mk.injEq, and_true]
    omega

theorem length_cuts : (cuts size left i).length = (left - 1) / size + 1 := by
  simp [cuts]

/-- The pages are numbered one after the other. -/
theorem map_index_cuts : (cuts size left 0).map Cut.index = List.range (cuts size left 0).length := by
  rw [length_cuts, List.range_succ]
  simp only [cuts, List.map_append, List.map_map, Nat.zero_add, List.map_cons, List.map_nil]
  congr 1
  exact (List.map_congr_left fun _ _ => rfl).trans (List.map_id _)

/-- The last page, and no other one, is marked. -/
theorem map_last_cuts :
    (cuts size left i).map Cut.last
      = List.replicate ((cuts size left i).length - 1) false ++ [true] := by
  rw [length_cuts, Nat.add_sub_cancel]
  simp only [cuts, List.map_append, List.map_map, List.map_cons, List.map_nil]
  congr 1
  exact List.eq_replicate_iff.mpr ⟨by simp, by simp⟩

/-- No page has more entries than the size. -/
theorem count_le_of_mem_cuts (hpos : 0 < size) {c : Cut} (hc : c ∈ cuts size left i) :
    c.count ≤ size := by
  rcases List.mem_append.mp hc with h | h
  · obtain ⟨d, -, rfl⟩ := List.mem_map.mp h
    exact le_rfl
  · rw [List.mem_singleton.mp h]
    have := Nat.lt_div_mul_add (a := left - 1) hpos
    show left - (left - 1) / size * size ≤ size
    omega

/-- The entries of a page, counted from its place on, are there. -/
theorem room_of_mem_cuts (hpos : 0 < left) {c : Cut} (hc : c ∈ cuts size left 0) :
    c.index * size + c.count ≤ left := by
  have hmul := Nat.div_mul_le_self (left - 1) size
  rcases List.mem_append.mp hc with h | h
  · obtain ⟨d, hd, rfl⟩ := List.mem_map.mp h
    have hle : (d + 1) * size ≤ (left - 1) / size * size :=
      Nat.mul_le_mul_right size (List.mem_range.mp hd)
    rw [Nat.succ_mul] at hle
    show (0 + d) * size + size ≤ left
    rw [Nat.zero_add]
    omega
  · rw [List.mem_singleton.mp h]
    show (0 + (left - 1) / size) * size + (left - (left - 1) / size * size) ≤ left
    rw [Nat.zero_add]
    omega

end Cuts

theorem take_add_drop (list : List α) (k n : ℕ) :
    list.take k ++ (list.drop k).take n = list.take (k + n) := (List.take_add).symm

/-- Full pages take the entries from the start on. -/
theorem flatMap_full_pages (list : List α) (size q : ℕ) :
    (List.range q).flatMap (fun d => (list.drop (d * size)).take size) = list.take (q * size) := by
  induction q with
  | zero => simp
  | succ q ih =>
    rw [List.range_succ, List.flatMap_append, ih, List.flatMap_singleton, take_add_drop,
      Nat.succ_mul]

/-- Pages that each take the entries from their own place on take all of them in order. -/
theorem flatMap_cuts (list : List α) (size : ℕ) :
    (cuts size list.length 0).flatMap (fun c => (list.drop (c.index * size)).take c.count)
      = list := by
  rw [cuts, List.flatMap_append, List.flatMap_map, List.flatMap_singleton]
  simp only [Nat.zero_add]
  rw [flatMap_full_pages, take_add_drop]
  apply List.take_of_length_le
  omega

/-- What successive reads find. -/
theorem entries_eq (list : List α) : ∀ n k, k + n ≤ list.length →
    entries list k n = some ((list.drop k).take n) := by
  intro n
  induction n with
  | zero =>
    intro k _
    simp [entries]
  | succ n ih =>
    intro k hk
    have hlt : k < list.length := by omega
    rw [entries, ih (k + 1) (by omega), List.getElem?_eq_getElem hlt, List.drop_eq_getElem_cons hlt]
    rfl

end Paging
