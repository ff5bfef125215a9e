/-
# Arrays with checked bounds, and counted loops

A run of a C function that accesses an array outside its bounds, or whose `int` overflows, means
nothing; here it stops with an error.  A loop that counts upwards is run round by round, and what
holds at its end comes from an invariant that each round keeps.
-/
import Mathlib.Data.Nat.Notation
import Mathlib.Logic.Function.Basic
import Mathlib.Tactic.Ring

/-- Why a run ends early: an access outside an array or an overflow, or a file that is missing. -/
inductive Stop where
  | undefined
  | cannotOpen

section Steps

variable {ε α β : Type} {x : Except ε α}

theorem bind_of_ok {a : α} (h : x = .ok a) (f : α → Except ε β) : (x >>= f) = f a := by
  rw [h]
  rfl

theorem bind_of_error {e : ε} (h : x = .error e) (f : α → Except ε β) : (x >>= f) = .error e := by
  rw [h]
  rfl

theorem exists_of_bind_eq_ok {f : α → Except ε β} {b : β} (h : (x >>= f) = .ok b) :
    ∃ a, x = .ok a ∧ f a = .ok b := by
  cases x with
  | error e => cases h
  | ok a => exact ⟨a, rfl, h⟩

end Steps

/-! ## Counted loops -/

/-- `for (i = 0; i < n; i++)` -/
def forUpTo {σ ε : Type} (body : ℕ → σ → Except ε σ) : (n : ℕ) → σ → Except ε σ
  | 0, s => .ok s
  | n + 1, s => forUpTo body n s >>= body n

section Loops

variable {σ ε : Type} {body : ℕ → σ → Except ε σ} {s : σ} {n : ℕ}

/-- What holds at the start and is kept by every round holds at the end. -/
theorem forUpTo_inv (I : ℕ → σ → Prop) (hstart : I 0 s)
    (hround : ∀ i < n, ∀ s, I i s → ∃ s', body i s = .ok s' ∧ I (i + 1) s') :
    ∃ s', forUpTo body n s = .ok s' ∧ I n s' := by
  induction n with
  | zero => exact ⟨s, rfl, hstart⟩
  | succ n ih =>
    obtain ⟨s₁, hrun, h₁⟩ := ih fun i hi => hround i (by omega)
    obtain ⟨s₂, hlast, h₂⟩ := hround n (by omega) s₁ h₁
    exact ⟨s₂, (bind_of_ok hrun _).trans hlast, h₂⟩

/-- Two nested loops; the invariant counts the rounds of the inner one. -/
theorem forUpTo_forUpTo_inv {body : ℕ → ℕ → σ → Except ε σ} {rows cols : ℕ} (I : ℕ → σ → Prop)
    (hstart : I 0 s)
    (hround : ∀ h < rows, ∀ w < cols, ∀ s, I (h * cols + w) s →
      ∃ s', body h w s = .ok s' ∧ I (h * cols + w + 1) s') :
    ∃ s', forUpTo (fun h => forUpTo (body h) cols) rows s = .ok s' ∧ I (rows * cols) s' := by
  refine forUpTo_inv (fun h => I (h * cols)) (by rwa [Nat.zero_mul]) ?_
  intro h hh s hs
  rw [Nat.succ_mul]
  exact forUpTo_inv (fun w => I (h * cols + w)) hs (hround h hh)

/-- A loop whose rounds cannot fail is a fold; `φ` is how the fold's state looks to the loop. -/
theorem forUpTo_foldl {τ : Type} (φ : τ → σ) {g : τ → ℕ → τ}
    (hround : ∀ i < n, ∀ t, body i (φ t) = .ok (φ (g t i))) (t : τ) :
    forUpTo body n (φ t) = .ok (φ ((List.range n).foldl g t)) := by
  induction n with
  | zero => rfl
  | succ n ih =>
    rw [List.range_succ, List.foldl_append]
    exact (bind_of_ok (ih fun i hi => hround i (by omega)) _).trans (hround n (by omega) _)

end Loops

/-! ## Arrays -/

/-- An array. -/
structure Cells (α : Type) where
  size : ℕ
  cell : ℕ → α

namespace Cells

variable {α : Type} {a : Cells α} {i : ℕ}

/-- `a[i]` -/
def read (a : Cells α) (i : ℕ) : Except Stop α :=
  if i < a.size then .ok (a.cell i) else .error .undefined

/-- `a[i] = v` -/
def write (a : Cells α) (i : ℕ) (v : α) : Except Stop (Cells α) :=
  if i < a.size then .ok { a with cell := Function.update a.cell i v } else .error .undefined

/-- `memset(a, v, n)`; there is nothing behind the end of the array. -/
def memset (a : Cells α) (v : α) (n : ℕ) : Except Stop (Cells α) :=
  if n ≤ a.size then .ok { a with cell := fun i => if n ≤ i ∧ i < a.size then a.cell i else v }
  else .error .undefined

theorem read_eq (hi : i < a.size) : a.read i = .ok (a.cell i) := if_pos hi

theorem write_eq (hi : i < a.size) (v : α) :
    a.write i v = .ok { a with cell := Function.update a.cell i v } :=
  if_pos hi

theorem size_of_memset {v : α} {n : ℕ} {a' : Cells α} (h : a.memset v n = .ok a') :
    n ≤ a.size ∧ a'.size = a.size := by
  unfold memset at h
  split at h
  · rename_i hn
    cases h
    exact ⟨hn, rfl⟩
  · cases h

theorem memset_size (a : Cells α) (v : α) : a.memset v a.size = .ok ⟨a.size, fun _ => v⟩ := by
  refine (if_pos le_rfl).trans ?_
  congr 2
  funext i
  exact if_neg (by omega)

end Cells

/-! ## Arrays of rows -/

/-- A two-dimensional array of bytes. -/
structure Grid where
  rows : ℕ
  cols : ℕ
  cell : ℕ → ℕ → UInt8

namespace Grid

/-- `g[r][c]` -/
def read (g : Grid) (r c : ℕ) : Except Stop UInt8 :=
  if r < g.rows ∧ c < g.cols then .ok (g.cell r c) else .error .undefined

/-- `memcpy(&g[r][c], src[i], n)`; a copy that leaves its row is outside. -/
def memcpy (g : Grid) (r c : ℕ) (src : Grid) (i n : ℕ) : Except Stop Grid :=
  if (r < g.rows ∧ c + n ≤ g.cols) ∧ i < src.rows ∧ n ≤ src.cols then
    .ok { g with
      cell := fun r' c' => if r' = r ∧ c ≤ c' ∧ c' < c + n then src.cell i (c' - c)
        else g.cell r' c' }
  else .error .undefined

/-- `read(fd, g, n)` from a place of a file on: the bytes go in row by row. -/
def fill (g : Grid) (file : ℕ → UInt8) (pos n : ℕ) : Except Stop Grid :=
  if n ≤ g.rows * g.cols then
    .ok { g with
      cell := fun r c => if r * g.cols + c < n then file (pos + (r * g.cols + c))
        else g.cell r c }
  else .error .undefined

variable {g src : Grid} {r c i n : ℕ}

theorem read_eq (hr : r < g.rows) (hc : c < g.cols) : g.read r c = .ok (g.cell r c) :=
  if_pos ⟨hr, hc⟩

theorem memcpy_eq (hr : r < g.rows) (hc : c + n ≤ g.cols) (hi : i < src.rows) (hn : n ≤ src.cols) :
    g.memcpy r c src i n = .ok { g with
      cell := fun r' c' => if r' = r ∧ c ≤ c' ∧ c' < c + n then src.cell i (c' - c)
        else g.cell r' c' } :=
  if_pos ⟨⟨hr, hc⟩, hi, hn⟩

/-- Reading a whole array: every byte comes from its place in the file. -/
theorem fill_all (file : ℕ → UInt8) (pos : ℕ) : ∃ g', g.fill file pos (g.rows * g.cols) = .ok g' ∧
    g'.rows = g.rows ∧ g'.cols = g.cols ∧
    ∀ r < g.rows, ∀ c < g.cols, g'.cell r c = file (pos + (r * g.cols + c)) := by
  refine ⟨_, if_pos le_rfl, rfl, rfl, fun r hr c hc => if_pos ?_⟩
  calc r * g.cols + c < r * g.cols + g.cols := by omega
    _ = (r + 1) * g.cols := by ring
    _ ≤ g.rows * g.cols := Nat.mul_le_mul_right _ hr

/-- The first `i` rows of `src` have gone to the columns from `a` on. -/
structure Copied (g₀ src : Grid) (a w i : ℕ) (g : Grid) : Prop where
  rows : g.rows = g₀.rows
  cols : g.cols = g₀.cols
  cell : ∀ r c, g.cell r c = if r < i ∧ a ≤ c ∧ c < a + w then src.cell r (c - a) else g₀.cell r c

variable {g₀ : Grid} {a w : ℕ}

theorem Copied.start : Copied g src a w 0 g :=
  ⟨rfl, rfl, fun _ _ => (if_neg (by omega)).symm⟩

/-- One more row. -/
theorem Copied.step (h : Copied g₀ src a w i g) (hi : i < g₀.rows) (ha : a + w ≤ g₀.cols)
    (hsrc : i < src.rows) (hw : w ≤ src.cols) :
    ∃ g', g.memcpy i a src i w = .ok g' ∧ Copied g₀ src a w (i + 1) g' := by
  refine ⟨_, memcpy_eq (by rwa [h.rows]) (by rwa [h.cols]) hsrc hw, h.rows, h.cols, ?_⟩
  intro r c
  show (if r = i ∧ a ≤ c ∧ c < a + w then src.cell i (c - a) else g.cell r c) = _
  rw [h.cell]
  by_cases hr : r = i
  · subst hr
    by_cases hc : a ≤ c ∧ c < a + w
    · rw [if_pos ⟨rfl, hc⟩, if_pos ⟨by omega, hc⟩]
    · rw [if_neg fun h => hc h.2, if_neg fun h => hc h.2, if_neg fun h => hc h.2]
  · have hlt : r < i + 1 ↔ r < i := by omega
    rw [if_neg fun h => hr h.1]
    exact if_congr (and_congr_left' hlt.symm) rfl rfl

end Grid
