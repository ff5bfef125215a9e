/-
# Filling isolated cells in place

A pass over a grid fills every blank cell none of whose neighbours is blank.  The pass works in
place, so a cell is judged by neighbours of which some have been judged before it.  If being a
neighbour is symmetric, this makes no difference: a cell that is filled has no blank neighbour, so
no judgement that comes later depends on it.  The order of the pass does not matter either.
-/
import Mathlib.Data.List.Induction
import Mathlib.Logic.Function.Basic

namespace IsolatedCells

variable {ι α : Type} (near : ι → List ι) (Blank : α → Prop)

/-- A blank cell without a blank neighbour. -/
def Isolated (f : ι → α) (p : ι) : Prop := Blank (f p) ∧ ∀ q ∈ near p, ¬ Blank (f q)

variable [DecidablePred Blank]

instance (f : ι → α) (p : ι) : Decidable (Isolated near Blank f p) :=
  inferInstanceAs (Decidable (_ ∧ _))

variable [DecidableEq ι] (mark : α)

/-- One step of the pass. -/
def fillAt (f : ι → α) (p : ι) : ι → α :=
  if Isolated near Blank f p then Function.update f p mark else f

/-- All isolated cells of `l` filled at once. -/
def fill (l : List ι) (f : ι → α) : ι → α :=
  fun p => if p ∈ l ∧ Isolated near Blank f p then mark else f p

variable {near Blank mark} {l : List ι} {f : ι → α} {p q : ι}

/-- A cell that is not isolated is left alone. -/
theorem fill_of_not (h : ¬ Isolated near Blank f p) : fill near Blank mark l f p = f p :=
  if_neg fun hp => h hp.2

theorem fill_of_mem (hp : p ∈ l) (h : Isolated near Blank f p) : fill near Blank mark l f p = mark :=
  if_pos ⟨hp, h⟩

theorem fill_of_not_mem (hp : p ∉ l) : fill near Blank mark l f p = f p :=
  if_neg fun h => hp h.1

theorem fill_append_of_ne (h : q ≠ p) :
    fill near Blank mark (l ++ [p]) f q = fill near Blank mark l f q := by
  refine if_congr (and_congr_left' ?_) rfl rfl
  rw [List.mem_append, List.mem_singleton, or_iff_left h]

/-- Filling makes no cell blank. -/
theorem not_blank_fill (hmark : ¬ Blank mark) (h : ¬ Blank (f p)) :
    ¬ Blank (fill near Blank mark l f p) := by
  unfold fill
  split
  · exact hmark
  · exact h

/-- A cell with a blank neighbour is not isolated by filling others: the neighbour cannot have been
filled. -/
theorem not_isolated_fill (hsymm : ∀ q ∈ l, q ∈ near p → p ∈ near q)
    (h : ¬ Isolated near Blank f p) : ¬ Isolated near Blank (fill near Blank mark l f) p := by
  rintro ⟨hblank, hnear⟩
  rw [fill_of_not h] at hblank
  refine h ⟨hblank, fun q hq hqblank => hnear q hq ?_⟩
  by_cases hfilled : q ∈ l ∧ Isolated near Blank f q
  · exact absurd hblank (hfilled.2.2 p (hsymm q hfilled.1 hq))
  · rwa [fill, if_neg hfilled]

/-- One more cell. -/
theorem fillAt_fill (hmark : ¬ Blank mark) (hsymm : ∀ q ∈ l, q ∈ near p → p ∈ near q) :
    fillAt near Blank mark (fill near Blank mark l f) p = fill near Blank mark (l ++ [p]) f := by
  by_cases h : Isolated near Blank f p
  · by_cases hp : p ∈ l
    · have hfilled : ¬ Isolated near Blank (fill near Blank mark l f) p := by
        rintro ⟨hblank, -⟩
        rw [fill_of_mem hp h] at hblank
        exact hmark hblank
      rw [fillAt, if_neg hfilled]
      funext q
      by_cases hq : q = p
      · subst hq
        rw [fill_of_mem hp h, fill_of_mem (by simp) h]
      · rw [fill_append_of_ne hq]
    · have hisolated : Isolated near Blank (fill near Blank mark l f) p := by
        refine ⟨?_, fun q hq => not_blank_fill hmark (h.2 q hq)⟩
        rw [fill_of_not_mem hp]
        exact h.1
      rw [fillAt, if_pos hisolated]
      funext q
      by_cases hq : q = p
      · subst hq
        rw [Function.update_self, fill_of_mem (by simp) h]
      · rw [Function.update_of_ne hq]
        refine if_congr (and_congr_left' ?_) rfl rfl
        rw [List.mem_append, List.mem_singleton, or_iff_left hq]
  · rw [fillAt, if_neg (not_isolated_fill hsymm h)]
    funext q
    by_cases hq : q = p
    · subst hq
      rw [fill_of_not h, fill_of_not h]
    · rw [fill_append_of_ne hq]

/-- The pass in place fills what filling at once does. -/
theorem foldl_fillAt (hmark : ¬ Blank mark) (l : List ι)
    (hsymm : ∀ p ∈ l, ∀ q ∈ l, q ∈ near p → p ∈ near q) (f : ι → α) :
    l.foldl (fillAt near Blank mark) f = fill near Blank mark l f := by
  induction l using List.reverseRecOn with
  | nil =>
    funext p
    exact (fill_of_not_mem List.not_mem_nil).symm
  | append_singleton l p ih =>
    have hl : ∀ q ∈ l, q ∈ l ++ [p] := fun q hq => List.mem_append_left _ hq
    rw [List.foldl_append, List.foldl_cons, List.foldl_nil,
      ih fun p hp q hq => hsymm p (hl p hp) q (hl q hq)]
    exact fillAt_fill hmark fun q hq => hsymm p (by simp) q (hl q hq)

end IsolatedCells
