/-
# Buffers and files written from front to back

Two places bytes are collected in: an array that is filled from its start and
cleared as a whole (`Filled`), and a file with a position (`StdioFile`), whose
writes may be cut short.  The rules say what one store or one `fwrite` appends.
-/
import IpCamera.RiffChunks

/-! ## Arrays -/

/-- The array of `N` bytes at `m` holds the bytes `l`, and zeros behind them.  With `N = 0`
nothing is said about the bytes behind. -/
structure Filled (N : ℕ) (m : Mem) (l : List UInt8) : Prop where
  front : loadBytes m 0 l.length = l
  rest : ∀ x, l.length ≤ x → x < N → m x = 0

theorem loadBytes_memcpy_outside (m : Mem) (dst : ℕ) (src : ℕ → UInt8) {n a k : ℕ}
    (h : a + k ≤ dst ∨ dst + n ≤ a) : loadBytes (memcpy m dst src n) a k = loadBytes m a k :=
  loadBytes_congr fun i hi => memcpy_outside m dst src (by omega)

theorem loadBytes_memcpy_inside (m : Mem) (dst : ℕ) (src : ℕ → UInt8) (n : ℕ) :
    loadBytes (memcpy m dst src n) dst n = loadBytes src 0 n :=
  loadBytes_congr fun i hi => by rw [memcpy_add m dst src hi, Nat.zero_add]

/-- A stored word reads back, up to its low 32 bits. -/
theorem load32_store32_mod (m : Mem) (a v : ℕ) :
    load32 (store32 m a v) a = v % 4294967296 :=
  load32_of_bytes (loadBytes_memcpy_inside m a (le32 v) 4)

/-- The bytes up to the end of a copied block. -/
theorem loadBytes_memcpy_append (m : Mem) (src : ℕ → UInt8) (n k : ℕ) :
    loadBytes (memcpy m n src k) 0 (n + k) = loadBytes m 0 n ++ loadBytes src 0 k := by
  rw [loadBytes_add, loadBytes_memcpy_outside m n src (by omega), Nat.zero_add,
    loadBytes_memcpy_inside]

namespace Filled

variable {N : ℕ} {m : Mem} {l : List UInt8}

/-- `memset` of the whole array. -/
theorem clear (N : ℕ) (m : Mem) : Filled N (memset m 0 0 N) [] where
  front := rfl
  rest x _ hx := memset_inside m 0 0 (by omega) (by omega)

/-- A block copied behind the bytes held. -/
theorem copy (h : Filled N m l) {a : ℕ} (ha : a = l.length) (src : ℕ → UInt8) (n : ℕ) :
    Filled N (memcpy m a src n) (l ++ loadBytes src 0 n) where
  front := by
    rw [List.length_append, loadBytes_length, ha, loadBytes_memcpy_append, h.front]
  rest x hx hN := by
    rw [List.length_append, loadBytes_length] at hx
    rw [memcpy_outside m _ src (by omega)]
    exact h.rest x (by omega) hN

theorem copyList (h : Filled N m l) {a : ℕ} (ha : a = l.length) (b : List UInt8) :
    Filled N (memcpy m a (listMem b) b.length) (l ++ b) := by
  have := h.copy ha (listMem b) b.length
  rwa [loadBytes_listMem] at this

/-- A word stored behind the bytes held. -/
theorem storeWord (h : Filled N m l) {a : ℕ} (ha : a = l.length) (v : ℕ) :
    Filled N (store32 m a v) (l ++ word v) :=
  h.copy ha (le32 v) 4

/-- Bytes that are skipped are zero. -/
theorem skip (h : Filled N m l) {k : ℕ} (hk : l.length + k ≤ N) :
    Filled N m (l ++ List.replicate k 0) where
  front := by
    have hz : loadBytes m (0 + l.length) k = List.replicate k 0 := by
      apply List.ext_getElem
      · simp
      · intro i h₁ h₂
        have hi : i < k := by simpa using h₂
        simp only [loadBytes, List.getElem_map, List.getElem_range, List.getElem_replicate]
        exact h.rest _ (by omega) (by omega)
    rw [List.length_append, List.length_replicate, loadBytes_add, h.front, hz]
  rest x hx hN := by
    rw [List.length_append, List.length_replicate] at hx
    exact h.rest x (by omega) hN

end Filled

/-! ## Files -/

/-- What becomes of one `fwrite`: everything is written, or only `k` bytes at most. -/
inductive WriteOutcome
  | full
  | short (k : ℕ)
deriving DecidableEq, Repr

/-- An open file: its bytes, its length and the position of the next access. -/
structure StdioFile where
  bytes : Mem
  size : ℕ
  pos : ℕ
  zero_beyond : ∀ x, size ≤ x → bytes x = 0

namespace StdioFile

/-- `fopen` with mode `wb+`: an empty file. -/
def create : StdioFile := ⟨fun _ => 0, 0, 0, fun _ _ => rfl⟩

/-- `fseek` from the start of the file. -/
def fseek (f : StdioFile) (n : ℕ) : StdioFile := { f with pos := n }

/-- `n` bytes reach the file.  Writing behind the end leaves a gap of zeros. -/
def put (f : StdioFile) (src : ℕ → UInt8) (n : ℕ) : StdioFile where
  bytes := memcpy f.bytes f.pos src n
  size := if n = 0 then f.size else max f.size (f.pos + n)
  pos := f.pos + n
  zero_beyond x hx := by
    by_cases hn : n = 0
    · rw [if_pos hn] at hx
      rw [memcpy_outside _ _ _ (by omega)]
      exact f.zero_beyond x hx
    · rw [if_neg hn] at hx
      rw [memcpy_outside _ _ _ (by omega)]
      exact f.zero_beyond x (by omega)

/-- `fwrite(src, n, 1, f)`: whether it returns 1, and the file. -/
def fwrite (f : StdioFile) (src : ℕ → UInt8) (n : ℕ) : WriteOutcome → Bool × StdioFile
  | .full => (decide (n ≠ 0), f.put src n)
  | .short k => (false, f.put src (min k (n - 1)))

/-- `fread(buf, n, 1, f)`: the bytes, when there are that many. -/
def fread (f : StdioFile) (n : ℕ) : Option (ℕ → UInt8) × StdioFile :=
  if n ≠ 0 ∧ f.pos + n ≤ f.size then (some fun i => f.bytes (f.pos + i), f.fseek (f.pos + n))
  else (none, f.fseek (max f.pos f.size))

/-- The whole file. -/
def contents (f : StdioFile) : List UInt8 := loadBytes f.bytes 0 f.size

/-- The file holds exactly `l`. -/
def Holds (f : StdioFile) (l : List UInt8) : Prop := f.size = l.length ∧ f.contents = l

@[simp] theorem fseek_bytes (f : StdioFile) (n : ℕ) : (f.fseek n).bytes = f.bytes := rfl
@[simp] theorem fseek_size (f : StdioFile) (n : ℕ) : (f.fseek n).size = f.size := rfl
@[simp] theorem fseek_pos (f : StdioFile) (n : ℕ) : (f.fseek n).pos = n := rfl
@[simp] theorem put_bytes (f : StdioFile) (src : ℕ → UInt8) (n : ℕ) :
    (f.put src n).bytes = memcpy f.bytes f.pos src n := rfl
@[simp] theorem put_pos (f : StdioFile) (src : ℕ → UInt8) (n : ℕ) :
    (f.put src n).pos = f.pos + n := rfl

theorem create_holds : create.Holds [] := ⟨rfl, rfl⟩

theorem Holds.fseek {f : StdioFile} {l : List UInt8} (h : f.Holds l) (n : ℕ) :
    (f.fseek n).Holds l := h

/-- A write at the end of the file appends. -/
theorem Holds.put {f : StdioFile} {l : List UInt8} (h : f.Holds l) (hpos : f.pos = l.length)
    (src : ℕ → UInt8) (n : ℕ) : (f.put src n).Holds (l ++ loadBytes src 0 n) := by
  have hsize : (f.put src n).size = l.length + n := by
    show (if n = 0 then f.size else max f.size (f.pos + n)) = l.length + n
    rw [h.1, hpos]
    split <;> omega
  have hl := h.2
  unfold contents at hl
  rw [h.1] at hl
  constructor
  · rw [hsize, List.length_append, loadBytes_length]
  · unfold contents
    rw [hsize, put_bytes, hpos, loadBytes_memcpy_append, hl]

/-- A write within the file keeps its length. -/
theorem put_size_inside {f : StdioFile} {n : ℕ} (src : ℕ → UInt8) (h : f.pos + n ≤ f.size) :
    (f.put src n).size = f.size := by
  show (if n = 0 then f.size else max f.size (f.pos + n)) = f.size
  split <;> omega

/-- Only the bytes written matter. -/
theorem put_congr (f : StdioFile) {src src' : ℕ → UInt8} {n : ℕ} (h : ∀ i < n, src i = src' i) :
    f.put src n = f.put src' n := by
  have hbytes : memcpy f.bytes f.pos src n = memcpy f.bytes f.pos src' n := by
    funext x
    unfold memcpy
    split
    · exact h _ (by omega)
    · rfl
  simp only [put, hbytes]

theorem put_zero (f : StdioFile) (src : ℕ → UInt8) : f.put src 0 = f := by
  have hbytes : memcpy f.bytes f.pos src 0 = f.bytes := by
    funext x
    exact memcpy_outside _ _ _ (by omega)
  simp only [put, hbytes, if_true, Nat.add_zero]

/-- Two writes one behind the other are one. -/
theorem put_put (f : StdioFile) (src : ℕ → UInt8) (n k : ℕ) :
    (f.put src n).put (fun i => src (n + i)) k = f.put src (n + k) := by
  have hbytes : memcpy (memcpy f.bytes f.pos src n) (f.pos + n) (fun i => src (n + i)) k
      = memcpy f.bytes f.pos src (n + k) := by
    funext x
    unfold memcpy
    by_cases hin : f.pos + n ≤ x ∧ x < f.pos + n + k
    · rw [if_pos hin, if_pos (by omega)]
      exact congrArg src (by omega)
    · rw [if_neg hin]
      by_cases hlow : f.pos ≤ x ∧ x < f.pos + n
      · rw [if_pos hlow, if_pos (by omega)]
      · rw [if_neg hlow, if_neg (by omega)]
  have hsize : (if k = 0 then (if n = 0 then f.size else max f.size (f.pos + n))
        else max (if n = 0 then f.size else max f.size (f.pos + n)) (f.pos + (n + k)))
      = if n + k = 0 then f.size else max f.size (f.pos + (n + k)) := by
    split_ifs <;> omega
  simp only [put, hbytes, hsize, Nat.add_assoc]

/-- Seek to an offset and write a word there. -/
def patch (f : StdioFile) (offset v : ℕ) : StdioFile := (f.fseek offset).put (le32 v) 4

@[simp] theorem patch_bytes (f : StdioFile) (offset v : ℕ) :
    (f.patch offset v).bytes = store32 f.bytes offset v := rfl

theorem patch_size {f : StdioFile} {offset : ℕ} (v : ℕ) (h : offset + 4 ≤ f.size) :
    (f.patch offset v).size = f.size :=
  put_size_inside (le32 v) h

/-- A complete `fwrite` of at least one byte. -/
theorem fwrite_full {f : StdioFile} {n : ℕ} (src : ℕ → UInt8) (hn : n ≠ 0) :
    f.fwrite src n .full = (true, f.put src n) := by
  simp [fwrite, hn]

/-- `fread` within the file. -/
theorem fread_inside {f : StdioFile} {n : ℕ} (hn : n ≠ 0) (h : f.pos + n ≤ f.size) :
    f.fread n = (some fun i => f.bytes (f.pos + i), f.fseek (f.pos + n)) :=
  if_pos ⟨hn, h⟩

end StdioFile
