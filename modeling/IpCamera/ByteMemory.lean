/-
# Byte-addressed memory

Loads and stores over a total byte memory, with the little-endian 32-bit words
the target of this firmware uses.  A block copy `memcpy` is the only primitive
store: `memset` and `store32` are instances of it, so the two facts

* `memcpy_inside`  : a copied byte reads back the source byte;
* `memcpy_outside` : every other byte keeps its value

carry every frame condition of the development.  The second half states them
for words (`load32`) and for byte lists (`loadBytes`).
-/
import Mathlib.Tactic

/-! ## Stores -/

/-- A memory: the byte at every address. -/
abbrev Mem := ℕ → UInt8

/-- `memcpy(dst, src, n)`: copy `n` bytes of `src` to address `dst`. -/
def memcpy (m : Mem) (dst : ℕ) (src : ℕ → UInt8) (n : ℕ) : Mem :=
  fun x => if dst ≤ x ∧ x < dst + n then src (x - dst) else m x

/-- `memset(dst, c, n)`. -/
def memset (m : Mem) (dst : ℕ) (c : UInt8) (n : ℕ) : Mem :=
  memcpy m dst (fun _ => c) n

/-- The little-endian bytes of a 32-bit word. -/
def le32 (v : ℕ) : ℕ → UInt8 := fun i => UInt8.ofNat (v / 256 ^ i)

/-- Store a 32-bit word. -/
def store32 (m : Mem) (a v : ℕ) : Mem := memcpy m a (le32 v) 4

/-! ## Loads -/

/-- Load a 32-bit unsigned word. -/
def load32 (m : Mem) (a : ℕ) : ℕ :=
  (m a).toNat + 256 * (m (a + 1)).toNat + 65536 * (m (a + 2)).toNat
    + 16777216 * (m (a + 3)).toNat

/-- A 32-bit word read as a C `int`. -/
def toInt32 (v : ℕ) : ℤ := if v < 2147483648 then (v : ℤ) else (v : ℤ) - 4294967296

/-- The `n` bytes from address `a` on. -/
def loadBytes (m : Mem) (a n : ℕ) : List UInt8 := (List.range n).map (fun i => m (a + i))

/-! ## One store -/

theorem memcpy_inside (m : Mem) (dst : ℕ) (src : ℕ → UInt8) {n x : ℕ}
    (h₁ : dst ≤ x) (h₂ : x < dst + n) : memcpy m dst src n x = src (x - dst) := by
  simp [memcpy, h₁, h₂]

/-- The form of `memcpy_inside` for an offset into the copied block. -/
theorem memcpy_add (m : Mem) (dst : ℕ) (src : ℕ → UInt8) {n i : ℕ} (h : i < n) :
    memcpy m dst src n (dst + i) = src i := by
  rw [memcpy_inside m dst src (by omega) (by omega)]
  congr 1
  omega

theorem memcpy_outside (m : Mem) (dst : ℕ) (src : ℕ → UInt8) {n x : ℕ}
    (h : x < dst ∨ dst + n ≤ x) : memcpy m dst src n x = m x := by
  rw [memcpy, if_neg]
  omega

theorem memset_inside (m : Mem) (dst : ℕ) (c : UInt8) {n x : ℕ}
    (h₁ : dst ≤ x) (h₂ : x < dst + n) : memset m dst c n x = c :=
  memcpy_inside m dst _ h₁ h₂

theorem memset_outside (m : Mem) (dst : ℕ) (c : UInt8) {n x : ℕ}
    (h : x < dst ∨ dst + n ≤ x) : memset m dst c n x = m x :=
  memcpy_outside m dst _ h

theorem store32_outside (m : Mem) (a v : ℕ) {x : ℕ} (h : x < a ∨ a + 4 ≤ x) :
    store32 m a v x = m x :=
  memcpy_outside m a _ h

/-! ## Words -/

theorem load32_lt (m : Mem) (a : ℕ) : load32 m a < 4294967296 := by
  have h₀ := (m a).toNat_lt
  have h₁ := (m (a + 1)).toNat_lt
  have h₂ := (m (a + 2)).toNat_lt
  have h₃ := (m (a + 3)).toNat_lt
  unfold load32
  omega

/-- The byte at the word's own address is its low byte. -/
theorem load32_mod (m : Mem) (a : ℕ) : load32 m a % 256 = (m a).toNat := by
  have h₀ := (m a).toNat_lt
  unfold load32
  omega

/-- A word only depends on its four bytes. -/
theorem load32_congr {m m' : Mem} {a : ℕ} (h : ∀ x, a ≤ x → x < a + 4 → m x = m' x) :
    load32 m a = load32 m' a := by
  unfold load32
  rw [h a (by omega) (by omega), h (a + 1) (by omega) (by omega),
    h (a + 2) (by omega) (by omega), h (a + 3) (by omega) (by omega)]

theorem load32_memcpy_outside (m : Mem) (dst : ℕ) (src : ℕ → UInt8) {n a : ℕ}
    (h : a + 4 ≤ dst ∨ dst + n ≤ a) : load32 (memcpy m dst src n) a = load32 m a :=
  load32_congr fun x _ _ => memcpy_outside m dst src (by omega)

theorem load32_memset_outside (m : Mem) (dst : ℕ) (c : UInt8) {n a : ℕ}
    (h : a + 4 ≤ dst ∨ dst + n ≤ a) : load32 (memset m dst c n) a = load32 m a :=
  load32_memcpy_outside m dst _ h

theorem load32_store32_outside (m : Mem) (b v : ℕ) {a : ℕ} (h : a + 4 ≤ b ∨ b + 4 ≤ a) :
    load32 (store32 m b v) a = load32 m a :=
  load32_memcpy_outside m b _ h

/-- A word of zero bytes is zero. -/
theorem load32_eq_zero {m : Mem} {a : ℕ} (h : ∀ x, a ≤ x → x < a + 4 → m x = 0) :
    load32 m a = 0 := by
  unfold load32
  rw [h a (by omega) (by omega), h (a + 1) (by omega) (by omega),
    h (a + 2) (by omega) (by omega), h (a + 3) (by omega) (by omega)]
  rfl

/-- A stored word reads back. -/
theorem load32_store32 (m : Mem) (a : ℕ) {v : ℕ} (h : v < 4294967296) :
    load32 (store32 m a v) a = v := by
  have hb : ∀ i < 4, (store32 m a v (a + i)).toNat = v / 256 ^ i % 256 := by
    intro i hi
    rw [store32, memcpy_add m a _ hi, le32, UInt8.toNat_ofNat']
  have h₀ := hb 0 (by omega)
  have h₁ := hb 1 (by omega)
  have h₂ := hb 2 (by omega)
  have h₃ := hb 3 (by omega)
  norm_num at h₀ h₁ h₂ h₃
  unfold load32
  rw [h₀, h₁, h₂, h₃]
  omega

@[simp] theorem toInt32_natCast {v : ℕ} (h : v < 2147483648) : toInt32 v = v := by
  simp [toInt32, h]

/-! ## Byte lists -/

@[simp] theorem loadBytes_length (m : Mem) (a n : ℕ) : (loadBytes m a n).length = n := by
  simp [loadBytes]

theorem loadBytes_congr {m m' : Mem} {a a' n : ℕ} (h : ∀ i < n, m (a + i) = m' (a' + i)) :
    loadBytes m a n = loadBytes m' a' n := by
  apply List.map_congr_left
  intro i hi
  exact h i (List.mem_range.mp hi)

/-- Splitting a block of bytes. -/
theorem loadBytes_add (m : Mem) (a n k : ℕ) :
    loadBytes m a (n + k) = loadBytes m a n ++ loadBytes m (a + n) k := by
  simp [loadBytes, List.range_add, Function.comp_def, Nat.add_assoc]
