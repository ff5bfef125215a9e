/-
# Unwinding

A machine takes operations one by one; an operation may also not return.  An
observer sees the outcomes of its own operations through a view.  If an operation
of somebody else keeps two states alike for the observer, and an own operation
takes alike states to alike states with the same view, then the observer sees the
same in a run and in the run in which only its own operations are made
(`Unwinds.run`).
-/
import Mathlib.Tactic

namespace Unwinding

variable {S Op Out View : Type*} (step : S → Op → Option (S × Out))

/-- A run whose operations all return, with their outcomes. -/
def run : S → List Op → Option (S × List (Op × Out))
  | s, [] => some (s, [])
  | s, op :: ops =>
      (step s op).bind fun (s₁, o) => (run s₁ ops).map fun (s₂, os) => (s₂, (op, o) :: os)

variable (legal mine : Op → Prop) [DecidablePred mine] (view : Op → Out → View)
variable (alike : S → S → Prop)

/-- What the observer sees of the outcomes. -/
def seen (os : List (Op × Out)) : List View :=
  (os.filter fun p => mine p.1).map fun p => view p.1 p.2

/-- The two conditions on one operation. -/
structure Unwinds : Prop where
  ignores : ∀ {s t s' : S} {op : Op} {o : Out}, legal op → ¬ mine op → alike s t →
    step s op = some (s', o) → alike s' t
  agrees : ∀ {s t s' : S} {op : Op} {o : Out}, legal op → mine op → alike s t →
    step s op = some (s', o) →
      ∃ t' o', step t op = some (t', o') ∧ alike s' t' ∧ view op o = view op o'

variable {step legal mine view alike}

theorem run_cons {s s' : S} {op : Op} {ops : List Op} {os : List (Op × Out)}
    (h : run step s (op :: ops) = some (s', os)) :
    ∃ s₁ o os₁, step s op = some (s₁, o) ∧ run step s₁ ops = some (s', os₁)
      ∧ os = (op, o) :: os₁ := by
  unfold run at h
  obtain ⟨⟨s₁, o⟩, hstep, h⟩ := Option.bind_eq_some_iff.mp h
  obtain ⟨⟨s₂, os₁⟩, hrun, heq⟩ := Option.map_eq_some_iff.mp h
  obtain ⟨rfl, rfl⟩ := Prod.mk.inj heq
  exact ⟨s₁, o, os₁, hstep, hrun, rfl⟩

/-- Leaving out the operations of others changes nothing the observer sees. -/
theorem Unwinds.run (hu : Unwinds step legal mine view alike) {ops : List Op}
    (hlegal : ∀ op ∈ ops, legal op) :
    ∀ {s t s' : S} {os : List (Op × Out)}, alike s t → run step s ops = some (s', os) →
      ∃ t' os', Unwinding.run step t (ops.filter fun op => mine op) = some (t', os')
        ∧ alike s' t' ∧ seen mine view os = seen mine view os' := by
  induction ops with
  | nil =>
    intro s t s' os halike h
    obtain ⟨rfl, rfl⟩ := Prod.mk.inj (Option.some.inj h)
    exact ⟨t, [], rfl, halike, rfl⟩
  | cons op ops ih =>
    intro s t s' os halike h
    obtain ⟨s₁, o, os₁, hstep, hrun, rfl⟩ := run_cons h
    have hop := hlegal op (by simp)
    have hops : ∀ op ∈ ops, legal op := fun op h => hlegal op (by simp [h])
    by_cases hmine : mine op
    · obtain ⟨t₁, o', hstep', halike₁, hview⟩ := hu.agrees hop hmine halike hstep
      obtain ⟨t', os', hrun', halike', hseen⟩ := ih hops halike₁ hrun
      refine ⟨t', (op, o') :: os', ?_, halike', ?_⟩
      · rw [List.filter_cons_of_pos (by simpa using hmine)]
        unfold Unwinding.run
        rw [hstep', Option.bind_some]
        dsimp only
        rw [hrun']
        rfl
      · unfold seen at hseen ⊢
        rw [List.filter_cons_of_pos (by simpa using hmine),
          List.filter_cons_of_pos (by simpa using hmine), List.map_cons, List.map_cons, hseen, hview]
    · obtain ⟨t', os', hrun', halike', hseen⟩ := ih hops (hu.ignores hop hmine halike hstep) hrun
      refine ⟨t', os', ?_, halike', ?_⟩
      · rw [List.filter_cons_of_neg (by simpa using hmine)]
        exact hrun'
      · unfold seen at hseen ⊢
        rw [List.filter_cons_of_neg (by simpa using hmine), hseen]

end Unwinding
