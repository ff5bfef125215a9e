/-
# Records of fixed width

How a record lies in memory, on a machine that stores the low byte of a word first and
for records that need no padding: fields of fixed width, one behind the other.  A codec
writes a value down and reads it back; codecs of byte arrays and of words combine to
those of records.

* `Codec.readInto_encode`    : the bytes of a value, read over any other, give that value;
* `Codec.readInto_encodeAll` : so do those of a table, record by record.

Nothing here depends on the records.
-/
import IpCamera.RiffChunks

/-- A way to write values of a type in a fixed number of bytes, and to read them back. -/
structure Codec (α : Type*) where
  width : ℕ
  encode : α → List UInt8
  decode : List UInt8 → α
  length_encode : ∀ a, (encode a).length = width
  decode_encode : ∀ a, decode (encode a) = a

namespace Codec

variable {α β : Type*}

/-- An array of `n` bytes. -/
def bytes (n : ℕ) : Codec (Vector UInt8 n) where
  width := n
  encode v := v.toList
  decode l := .ofFn fun i => l.getD i 0
  length_encode v := by simp
  decode_encode v := by
    apply Vector.ext
    intro i hi
    simp

/-- A 32-bit word. -/
def uint32 : Codec UInt32 where
  width := 4
  encode v := word v.toNat
  decode l := .ofNat (wordAt l 0)
  length_encode v := word_length v.toNat
  decode_encode v := by
    have h := wordAt_word v.toNat []
    rw [List.append_nil] at h
    rw [h, Nat.mod_eq_of_lt v.toNat_lt, UInt32.ofNat_toNat]

/-- A 64-bit word, the low half first. -/
def uint64 : Codec UInt64 where
  width := 8
  encode v := word v.toNat ++ word (v.toNat / 4294967296)
  decode l := .ofNat (wordAt l 0 + 4294967296 * wordAt l 4)
  length_encode v := by rw [List.length_append, word_length, word_length]
  decode_encode v := by
    have hlow := wordAt_word v.toNat (word (v.toNat / 4294967296))
    have hhigh := wordAt_append (word v.toNat) [] (v.toNat / 4294967296)
    rw [List.append_nil, word_length] at hhigh
    have hlt := v.toNat_lt
    rw [hlow, hhigh, show v.toNat % 4294967296
      + 4294967296 * (v.toNat / 4294967296 % 4294967296) = v.toNat by omega, UInt64.ofNat_toNat]

/-- A record of one type behind one of another. -/
def prod (c : Codec α) (d : Codec β) : Codec (α × β) where
  width := c.width + d.width
  encode p := c.encode p.1 ++ d.encode p.2
  decode l := (c.decode (l.take c.width), d.decode (l.drop c.width))
  length_encode p := by rw [List.length_append, c.length_encode, d.length_encode]
  decode_encode p := by
    rw [List.take_left' (c.length_encode p.1), List.drop_left' (c.length_encode p.1),
      c.decode_encode, d.decode_encode]

/-- The same bytes for a type whose values correspond to those of another. -/
def ofEquiv (c : Codec α) (e : β ≃ α) : Codec β where
  width := c.width
  encode b := c.encode (e b)
  decode l := e.symm (c.decode l)
  length_encode b := c.length_encode (e b)
  decode_encode b := by rw [c.decode_encode, e.symm_apply_apply]

/-- `read` into a record: the bytes that were read replace the first ones, the others stay. -/
def readInto (c : Codec α) (a : α) (got : List UInt8) : α :=
  c.decode (got.take c.width ++ (c.encode a).drop got.length)

theorem readInto_nil (c : Codec α) (a : α) : c.readInto a [] = a := by
  rw [readInto, List.take_nil, List.nil_append, List.length_nil, List.drop_zero, c.decode_encode]

theorem readInto_encode (c : Codec α) (a b : α) (rest : List UInt8) :
    c.readInto a (c.encode b ++ rest) = b := by
  have hdrop : (c.encode a).drop (c.encode b ++ rest).length = [] := by
    apply List.drop_eq_nil_of_le
    rw [List.length_append, c.length_encode, c.length_encode]
    omega
  rw [readInto, hdrop, List.take_left' (c.length_encode b), List.append_nil, c.decode_encode]

/-- The records `f 0`, `f 1`, ..., `f (n - 1)`, one behind the other. -/
def encodeAll (c : Codec α) (f : ℕ → α) (n : ℕ) : List UInt8 :=
  (List.range n).flatMap fun i => c.encode (f i)

theorem encodeAll_succ (c : Codec α) (f : ℕ → α) (n : ℕ) :
    c.encodeAll f (n + 1) = c.encodeAll f n ++ c.encode (f n) := by
  rw [encodeAll, List.range_succ, List.flatMap_append, List.flatMap_singleton, encodeAll]

theorem length_encodeAll (c : Codec α) (f : ℕ → α) (n : ℕ) :
    (c.encodeAll f n).length = n * c.width := by
  induction n with
  | zero => rw [Nat.zero_mul]; rfl
  | succ n ih => rw [encodeAll_succ, List.length_append, ih, c.length_encode, Nat.succ_mul]

/-- The bytes of the table from a record of it on start with those of the record. -/
theorem encodeAll_drop (c : Codec α) (f : ℕ → α) {n i : ℕ} (hi : i < n) :
    ∃ rest, (c.encodeAll f n).drop (i * c.width) = c.encode (f i) ++ rest := by
  induction n with
  | zero => omega
  | succ n ih =>
    rw [encodeAll_succ]
    rcases Nat.lt_succ_iff_lt_or_eq.mp hi with hlt | rfl
    · obtain ⟨rest, hrest⟩ := ih hlt
      have hle : i * c.width ≤ (c.encodeAll f n).length := by
        rw [length_encodeAll]
        exact Nat.mul_le_mul_right _ hlt.le
      rw [List.drop_append_of_le_length hle, hrest, List.append_assoc]
      exact ⟨_, rfl⟩
    · exact ⟨[], by rw [List.drop_left' (length_encodeAll c f i), List.append_nil]⟩

/-- Reading a table over another one: the records read are those of the table, the others stay. -/
theorem readInto_encodeAll (c : Codec α) (f g : ℕ → α) (n i : ℕ) :
    c.readInto (g i) ((c.encodeAll f n).drop (i * c.width)) = if i < n then f i else g i := by
  by_cases hi : i < n
  · obtain ⟨rest, hrest⟩ := encodeAll_drop c f hi
    rw [if_pos hi, hrest, readInto_encode]
  · have hnil : (c.encodeAll f n).drop (i * c.width) = [] := by
      apply List.drop_eq_nil_of_le
      rw [length_encodeAll]
      exact Nat.mul_le_mul_right _ (Nat.not_lt.mp hi)
    rw [if_neg hi, hnil, readInto_nil]

end Codec
