/-
# Runs whose steps meet a condition

A machine is a step function; a run is its fold over a list of steps.  `Guarded` says
that every step of the run meets a condition on the state before it; an invariant that
such steps keep holds along the run.  `Since` says that a step was taken and that
nothing after it undoes what it established.  `foldl_writes` is about steps that write
one place each.
-/
import Mathlib.Data.List.Basic

namespace GuardedRun

variable {σ α : Type*} (step : σ → α → σ) (ok : σ → α → Prop)

/-- Every step meets the condition in the state before it. -/
def Guarded : σ → List α → Prop
  | _, [] => True
  | s, a :: as => ok s a ∧ Guarded (step s a) as

/-- `mark` was taken, and no step after it breaks what it established. -/
def Since (mark : α) (breaks : α → Prop) (steps : List α) : Prop :=
  ∃ before after, steps = before ++ mark :: after ∧ ∀ a ∈ after, ¬ breaks a

theorem guarded_append (s : σ) (as bs : List α) :
    Guarded step ok s (as ++ bs)
      ↔ Guarded step ok s as ∧ Guarded step ok (as.foldl step s) bs := by
  induction as generalizing s with
  | nil => simp [Guarded]
  | cons a as ih =>
    rw [List.cons_append, Guarded, Guarded, List.foldl_cons, ih, and_assoc]

section Invariant

variable {step ok} {I P : σ → Prop} {s : σ}

/-- The invariant rule: what a guarded step keeps, a guarded run keeps. -/
theorem Guarded.invariant (hkeep : ∀ s a, I s → ok s a → I (step s a)) {steps : List α}
    (hrun : Guarded step ok s steps) (hs : I s) : I (steps.foldl step s) := by
  induction steps generalizing s with
  | nil => exact hs
  | cons a as ih =>
    obtain ⟨ha, has⟩ := hrun
    exact ih has (hkeep s a hs ha)

theorem Guarded.and {ok' : σ → α → Prop} {steps : List α} (h : Guarded step ok s steps)
    (h' : Guarded step ok' s steps) : Guarded step (fun t a => ok t a ∧ ok' t a) s steps := by
  induction steps generalizing s with
  | nil => trivial
  | cons a as ih => exact ⟨⟨h.1, h'.1⟩, ih h.2 h'.2⟩

/-- A condition on the steps alone. -/
theorem guarded_of_forall {Q : α → Prop} {steps : List α} (hQ : ∀ a ∈ steps, Q a) :
    Guarded step (fun _ a => Q a) s steps := by
  induction steps generalizing s with
  | nil => trivial
  | cons a as ih =>
    exact ⟨hQ a List.mem_cons_self, ih fun b hb => hQ b (List.mem_cons_of_mem a hb)⟩

/-- A property of the steps themselves joins the condition. -/
theorem Guarded.and_forall {Q : α → Prop} {steps : List α} (hrun : Guarded step ok s steps)
    (hQ : ∀ a ∈ steps, Q a) : Guarded step (fun t a => ok t a ∧ Q a) s steps :=
  hrun.and (guarded_of_forall hQ)

/-- Under an invariant that guarded steps keep, the condition may be replaced by what follows from
both. -/
theorem Guarded.imp {ok' : σ → α → Prop} (hkeep : ∀ s a, I s → ok s a → I (step s a))
    (himp : ∀ s a, I s → ok s a → ok' s a) {steps : List α} (hrun : Guarded step ok s steps)
    (hs : I s) : Guarded step ok' s steps := by
  induction steps generalizing s with
  | nil => trivial
  | cons a as ih =>
    obtain ⟨ha, has⟩ := hrun
    exact ⟨himp s a hs ha, ih has (hkeep s a hs ha)⟩

/-- In a run whose steps meet `dom`, two conditions that agree under an invariant guard the same, if
steps that meet them keep the invariant. -/
theorem Guarded.congr {dom ok' : σ → α → Prop} {steps : List α} (hdom : Guarded step dom s steps)
    (hkeep : ∀ s a, I s → dom s a → ok' s a → I (step s a))
    (hiff : ∀ s a, I s → dom s a → (ok s a ↔ ok' s a)) (hs : I s) :
    Guarded step ok s steps ↔ Guarded step ok' s steps := by
  induction steps generalizing s with
  | nil => exact Iff.rfl
  | cons a as ih =>
    obtain ⟨ha, has⟩ := hdom
    rw [Guarded, Guarded, hiff s a hs ha]
    exact and_congr_right fun hok => ih has (hkeep s a hs ha hok)

/-- Under an invariant that every step keeps, two conditions that agree guard the same runs. -/
theorem guarded_congr {ok' : σ → α → Prop} (hkeep : ∀ s a, I s → I (step s a))
    (hiff : ∀ s a, I s → (ok s a ↔ ok' s a)) {steps : List α} (hs : I s) :
    Guarded step ok s steps ↔ Guarded step ok' s steps :=
  (guarded_of_forall (Q := fun _ => True) fun _ _ => trivial).congr
    (fun s a h _ _ => hkeep s a h) (fun s a h _ => hiff s a h) hs

/-- What the mark establishes under the invariant, and no later step breaks, holds at the end. -/
theorem Since.holds {mark : α} {breaks : α → Prop} {steps : List α}
    (hsince : Since mark breaks steps) (hkeep : ∀ s a, I s → ok s a → I (step s a))
    (hmark : ∀ s, I s → ok s mark → P (step s mark))
    (hstay : ∀ s a, I s → ok s a → ¬ breaks a → P s → P (step s a))
    (hrun : Guarded step ok s steps) (hs : I s) : P (steps.foldl step s) := by
  obtain ⟨before, after, rfl, hafter⟩ := hsince
  obtain ⟨hbefore, hok, hrest⟩ := (guarded_append step ok s before (mark :: after)).mp hrun
  have hI := hbefore.invariant hkeep hs
  rw [List.foldl_append, List.foldl_cons]
  -- from the mark on, the invariant and what the mark established are carried together
  have h := (hrest.and_forall hafter).invariant (I := fun t => I t ∧ P t)
    (fun t a ht ha => ⟨hkeep t a ht.1 ha.1, hstay t a ht.1 ha.1 ha.2 ht.2⟩)
    ⟨hkeep _ _ hI hok, hmark _ hI hok⟩
  exact h.2

end Invariant

/-! ## Runs of writes -/

/-- A run whose steps write one place each leaves there what was written, and the rest as it was. -/
theorem foldl_writes {ι β : Type*} [DecidableEq ι] {write : σ → ι → σ} (read : σ → ι → β)
    (val : ι → β) (hself : ∀ s i, read (write s i) i = val i)
    (hother : ∀ s i j, j ≠ i → read (write s i) j = read s j) (is : List ι) (s : σ) (i : ι) :
    read (is.foldl write s) i = if i ∈ is then val i else read s i := by
  induction is generalizing s with
  | nil => simp
  | cons j is ih =>
    rw [List.foldl_cons, ih]
    by_cases hi : i ∈ is
    · rw [if_pos hi, if_pos (List.mem_cons_of_mem j hi)]
    rw [if_neg hi]
    by_cases hj : i = j
    · subst hj
      rw [hself, if_pos List.mem_cons_self]
    · have hmem : i ∉ j :: is := by
        simp [hj, hi]
      rw [hother s j i hj, if_neg hmem]

/-- A run that rewrites the rows of a table one after the other, each once. -/
theorem foldl_rewrites {ι β : Type*} [DecidableEq ι] (f : ι → β → β) {is : List ι}
    (hnodup : is.Nodup) (t : ι → β) (i : ι) :
    (is.foldl (fun t i => Function.update t i (f i (t i))) t) i
      = if i ∈ is then f i (t i) else t i := by
  induction is generalizing t with
  | nil => simp
  | cons j is ih =>
    obtain ⟨hj, hnodup⟩ := List.nodup_cons.mp hnodup
    rw [List.foldl_cons, ih hnodup]
    by_cases hi : i = j
    · subst hi
      rw [if_neg hj, Function.update_self, if_pos List.mem_cons_self]
    · rw [Function.update_of_ne hi]
      simp [hi]

end GuardedRun
