/-
# A store written key by key

A store is a function of the key, and a call writes one key or, when it is refused, none.
After a run of calls a key holds what the latest call that wrote it gave, or what it held
before; and a call finds its own value again exactly if it is the latest for its key.
-/
import Mathlib.Data.List.Induction
import Mathlib.Logic.Function.Basic

namespace KeyStore

variable {κ υ α : Type*}

/-- The latest of the calls with the property. -/
def latest (p : α → Bool) (as : List α) : Option α := as.reverse.find? p

theorem latest_concat (p : α → Bool) (as : List α) (a : α) :
    latest p (as ++ [a]) = if p a then some a else latest p as := by
  unfold latest
  rw [List.reverse_append, List.reverse_singleton, List.singleton_append, List.find?_cons]
  cases p a <;> rfl

theorem latest_mem {p : α → Bool} {as : List α} {a : α} (h : latest p as = some a) :
    a ∈ as ∧ p a = true :=
  ⟨List.mem_reverse.mp (List.mem_of_find?_eq_some h), List.find?_some h⟩

theorem latest_eq_none {p : α → Bool} {as : List α} : latest p as = none ↔ ∀ a ∈ as, p a = false := by
  simp [latest, List.find?_eq_none]

/-- A stronger property has the same latest call, if that call has it. -/
theorem latest_eq_of_imp {p q : α → Bool} {as : List α} (himp : ∀ a, p a = true → q a = true)
    (hlast : ∀ a, latest q as = some a → p a = true) : latest p as = latest q as := by
  induction as using List.reverseRecOn with
  | nil => rfl
  | append_singleton as a ih =>
    rw [latest_concat] at hlast ⊢
    rw [latest_concat]
    by_cases hq : q a = true
    · rw [if_pos hq] at hlast ⊢
      rw [if_pos (hlast a rfl)]
    · have hp : ¬ p a = true := fun hp => hq (himp a hp)
      rw [if_neg hq] at hlast ⊢
      rw [if_neg hp, ih hlast]

section Run

variable [DecidableEq κ] (target : α → Option κ) (value : α → υ)

/-- The call writes its value to its key. -/
def put (m : κ → υ) (a : α) : κ → υ :=
  match target a with
  | some k => Function.update m k (value a)
  | none => m

/-- The store after a run of calls. -/
def run (m : κ → υ) (as : List α) : κ → υ := as.foldl (put target value) m

variable {target value}

theorem put_of_ne {m : κ → υ} {a : α} {k : κ} (h : target a ≠ some k) :
    put target value m a k = m k := by
  unfold put
  cases ht : target a with
  | none => rfl
  | some j =>
    have hne : k ≠ j := by
      rintro rfl
      exact h ht
    exact Function.update_of_ne hne _ _

theorem put_self {m : κ → υ} {a : α} {k : κ} (h : target a = some k) :
    put target value m a k = value a := by
  unfold put
  rw [h]
  exact Function.update_self k _ _

variable (target value)

/-- A key holds what the latest call that wrote it gave. -/
theorem run_apply (m : κ → υ) (as : List α) (k : κ) :
    run target value m as k
      = ((latest (fun a => target a = some k) as).map value).getD (m k) := by
  induction as using List.reverseRecOn with
  | nil => rfl
  | append_singleton as a ih =>
    have hrun : run target value m (as ++ [a]) = put target value (run target value m as) a := by
      rw [run, run, List.foldl_append]
      rfl
    rw [hrun, latest_concat]
    by_cases h : target a = some k
    · rw [put_self h, if_pos (by simpa using h)]
      rfl
    · rw [put_of_ne h, ih, if_neg (by simpa using h)]

/-- A key that is written with one value only holds it. -/
theorem run_of_mem {m : κ → υ} {as : List α} {a : α} {k : κ} (ha : a ∈ as)
    (hk : target a = some k) (hone : ∀ b ∈ as, target b = some k → value b = value a) :
    run target value m as k = value a := by
  rw [run_apply]
  cases hlast : latest (fun a => target a = some k) as with
  | none =>
    have hmiss := latest_eq_none.mp hlast a ha
    simp [hk] at hmiss
  | some b =>
    obtain ⟨hb, hbk⟩ := latest_mem hlast
    exact hone b hb (by simpa using hbk)

/-- A key that no call writes keeps its value. -/
theorem run_of_forall_ne {m : κ → υ} {as : List α} {k : κ} (h : ∀ a ∈ as, target a ≠ some k) :
    run target value m as k = m k := by
  rw [run_apply, latest_eq_none.mpr fun a ha => by simpa using h a ha]
  rfl

end Run

end KeyStore
