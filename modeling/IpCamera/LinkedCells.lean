/-
# Singly linked lists in a heap

A heap gives the live cells by their addresses; a cell has contents and the address
of the next one, 0 behind the last.  `Owns heap other l` says that the heap holds the
list `l` of addresses and contents, linked in this order, and otherwise the cells of
`other`.  The rules say what becomes of it when a cell is put behind another, or taken
out.
-/
import Mathlib.Tactic

namespace LinkedCells

variable {α : Type*}

/-- A cell with the address of the next one. -/
structure Cell (α : Type*) where
  val : α
  next : ℕ

/-- The live cells by address. -/
abbrev Heap (α : Type*) := ℕ → Option (Cell α)

/-- The address of the first cell, 0 if there is none. -/
def first : List (ℕ × α) → ℕ
  | [] => 0
  | (a, _) :: _ => a

/-- The cells of the list are in the heap, each with the address of the one behind it. -/
def Linked (heap : Heap α) : List (ℕ × α) → Prop
  | [] => True
  | (a, v) :: l => a ≠ 0 ∧ heap a = some ⟨v, first l⟩ ∧ Linked heap l

def addresses (l : List (ℕ × α)) : List ℕ := l.map Prod.fst

@[simp] theorem addresses_cons (a : ℕ) (v : α) (l : List (ℕ × α)) :
    addresses ((a, v) :: l) = a :: addresses l := rfl

@[simp] theorem addresses_append (l m : List (ℕ × α)) :
    addresses (l ++ m) = addresses l ++ addresses m := List.map_append

/-! ## Links -/

theorem Linked.first_eq_zero {heap : Heap α} {l : List (ℕ × α)} (h : Linked heap l) :
    first l = 0 ↔ l = [] := by
  cases l with
  | nil => exact ⟨fun _ => rfl, fun _ => rfl⟩
  | cons p l => exact ⟨fun hzero => absurd hzero h.1, fun hnil => absurd hnil (by simp)⟩

/-- Only the cells of the list matter. -/
theorem Linked.frame {heap heap' : Heap α} {l : List (ℕ × α)} (h : Linked heap l)
    (hsame : ∀ a ∈ addresses l, heap' a = heap a) : Linked heap' l := by
  induction l with
  | nil => trivial
  | cons p l ih =>
    obtain ⟨a, v⟩ := p
    obtain ⟨hne, hcell, hrest⟩ := h
    refine ⟨hne, (hsame a (by simp)).trans hcell, ih hrest fun b hb => hsame b (by simp [hb])⟩

/-- A write outside the list. -/
theorem Linked.frame_update {heap : Heap α} {l : List (ℕ × α)} (h : Linked heap l) {a : ℕ}
    (ha : a ∉ addresses l) (x : Option (Cell α)) : Linked (Function.update heap a x) l :=
  h.frame fun b hb => Function.update_of_ne (fun hba : b = a => ha (hba ▸ hb)) x heap

theorem Linked.cell {heap : Heap α} {pre post : List (ℕ × α)} {a : ℕ} {v : α}
    (h : Linked heap (pre ++ (a, v) :: post)) : a ≠ 0 ∧ heap a = some ⟨v, first post⟩ := by
  induction pre with
  | nil => exact ⟨h.1, h.2.1⟩
  | cons p pre ih => exact ih h.2.2

theorem Linked.suffix {heap : Heap α} {pre post : List (ℕ × α)} (h : Linked heap (pre ++ post)) :
    Linked heap post := by
  induction pre with
  | nil => exact h
  | cons p pre ih => exact ih h.2.2

theorem first_append_congr (pre : List (ℕ × α)) {post post' : List (ℕ × α)}
    (h : first post' = first post) : first (pre ++ post') = first (pre ++ post) := by
  cases pre with
  | nil => exact h
  | cons p pre => rfl

/-- The part in front of a cell sees its address only. -/
theorem Linked.replace {heap heap' : Heap α} {pre post post' : List (ℕ × α)}
    (h : Linked heap (pre ++ post)) (hfirst : first post' = first post)
    (hsame : ∀ a ∈ addresses pre, heap' a = heap a) (hpost : Linked heap' post') :
    Linked heap' (pre ++ post') := by
  induction pre with
  | nil => exact hpost
  | cons p pre ih =>
    obtain ⟨a, v⟩ := p
    obtain ⟨hne, hcell, hrest⟩ := h
    refine ⟨hne, ?_, ih hrest fun b hb => hsame b (by simp [hb])⟩
    rw [hsame a (by simp), hcell]
    exact congrArg (fun next => some (Cell.mk v next)) (first_append_congr pre hfirst).symm

/-- New contents of a cell. -/
theorem Linked.modify {heap : Heap α} {pre post : List (ℕ × α)} {a : ℕ} {v : α}
    (h : Linked heap (pre ++ (a, v) :: post)) (hnodup : (addresses (pre ++ (a, v) :: post)).Nodup)
    (w : α) :
    Linked (Function.update heap a (some ⟨w, first post⟩)) (pre ++ (a, w) :: post) := by
  simp only [addresses_append, addresses_cons, List.nodup_append, List.nodup_cons,
    List.mem_cons] at hnodup
  obtain ⟨-, ⟨hapost, -⟩, hdisjoint⟩ := hnodup
  have hrest : Linked heap post := (Linked.suffix h).2.2
  refine h.replace rfl ?_ ⟨h.cell.1, Function.update_self a _ heap, ?_⟩
  · exact fun c hc => Function.update_of_ne (fun hca => hdisjoint c hc a (Or.inl rfl) hca) _ heap
  · exact hrest.frame_update hapost _

/-- The last cell gets the address of a cell that is not in the list. -/
theorem Linked.concat {heap : Heap α} {pre : List (ℕ × α)} {a b : ℕ} {v w : α}
    (h : Linked heap (pre ++ [(a, v)])) (hnodup : (addresses (pre ++ [(a, v)])).Nodup)
    (hb : b ≠ 0) (hnotin : b ∉ addresses (pre ++ [(a, v)])) (hcell : heap b = some ⟨w, 0⟩) :
    Linked (Function.update heap a (some ⟨v, b⟩)) (pre ++ [(a, v), (b, w)]) := by
  simp only [addresses_append, addresses_cons, List.nodup_append, List.mem_cons, List.mem_append,
    not_or] at hnodup hnotin
  refine h.replace rfl ?_ ⟨h.cell.1, Function.update_self a _ heap, hb, ?_, trivial⟩
  · exact fun c hc => Function.update_of_ne (fun hca => hnodup.2.2 c hc a (Or.inl rfl) hca) _ heap
  · rw [Function.update_of_ne hnotin.2.1, hcell]
    rfl

/-! ## Lists that own their cells -/

/-- The heap holds the list and, apart from its cells, what `other` holds. -/
structure Owns (heap other : Heap α) (l : List (ℕ × α)) : Prop where
  linked : Linked heap l
  nodup : (addresses l).Nodup
  outside : ∀ a, a ∉ addresses l → heap a = other a
  free : ∀ a ∈ addresses l, other a = none

namespace Owns

variable {heap other : Heap α} {pre post : List (ℕ × α)} {a b : ℕ} {v w : α}

/-- A list of one new cell. -/
theorem single (ha : a ≠ 0) (hfree : other a = none) (v : α) :
    Owns (Function.update other a (some ⟨v, 0⟩)) other [(a, v)] where
  linked := ⟨ha, Function.update_self a _ other, trivial⟩
  nodup := List.nodup_singleton a
  outside b hb := Function.update_of_ne (fun h => hb (List.mem_singleton.mpr h)) _ other
  free b hb := by rwa [List.mem_singleton.mp hb]

/-- An address without a cell is neither the list's nor another's. -/
theorem fresh {l : List (ℕ × α)} (h : Owns heap other l) (hb : heap b = none) :
    b ∉ addresses l ∧ other b = none := by
  have hmem : b ∉ addresses l := by
    intro hin
    obtain ⟨⟨b', v⟩, hcell, rfl⟩ := List.mem_map.mp hin
    obtain ⟨pre, post, rfl⟩ := List.append_of_mem hcell
    have hlive := h.linked.cell.2
    rw [hb] at hlive
    cases hlive
  exact ⟨hmem, (h.outside b hmem).symm.trans hb⟩

end Owns

/-! ## The number of cells -/

/-- Addresses that are multiples of `k` below `k * n` are at most `n`. -/
theorem length_le_of_aligned {k n : ℕ} {l : List ℕ} (hnodup : l.Nodup)
    (h : ∀ a ∈ l, k ∣ a ∧ a < k * n) : l.length ≤ n := by
  have hsub : l ⊆ (List.range n).map (k * ·) := by
    intro a ha
    obtain ⟨⟨c, rfl⟩, hlt⟩ := h a ha
    exact List.mem_map.mpr ⟨c, List.mem_range.mpr (Nat.lt_of_mul_lt_mul_left hlt), rfl⟩
  have hle := (hnodup.subperm hsub).length_le
  rwa [List.length_map, List.length_range] at hle

end LinkedCells
