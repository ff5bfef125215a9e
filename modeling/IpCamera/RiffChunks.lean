/-
# Chunks of bytes

The container format the recorder writes: a chunk is a 32-bit id, the 32-bit
length of its body, the body, and one more byte when the body is odd.  A list of
chunks is read back until an id outside the list, and an index chunk is a table
of four-word entries.

* `readChunk_encode`   : a written chunk reads back;
* `readChunks_encode`  : so does a list of chunks, up to the first foreign id;
* `readEntries_encode` : so does a table of index entries.

Nothing here depends on the recorder.
-/
import IpCamera.ByteMemory

/-! ## Byte lists -/

/-- The four bytes of a 32-bit word. -/
def word (v : ℕ) : List UInt8 := loadBytes (le32 v) 0 4

/-- A byte list as a memory that holds it at address 0. -/
def listMem (l : List UInt8) : Mem := fun i => l.getD i 0

/-- The 32-bit word at offset `i` of a byte list. -/
def wordAt (l : List UInt8) (i : ℕ) : ℕ := load32 (listMem l) i

@[simp] theorem word_length (v : ℕ) : (word v).length = 4 := by simp [word]

@[simp] theorem loadBytes_zero (m : Mem) (a : ℕ) : loadBytes m a 0 = [] := rfl

theorem loadBytes_listMem (l : List UInt8) : loadBytes (listMem l) 0 l.length = l := by
  apply List.ext_getElem
  · simp
  · intro i h₁ h₂
    simp [loadBytes, listMem, h₂]

/-- Offsets into the second part of a list. -/
theorem listMem_append_right (a b : List UInt8) (i : ℕ) :
    listMem (a ++ b) (a.length + i) = listMem b i := by
  simp [listMem, List.getElem?_append_right]

/-- The bytes of a memory that spell two lists end to end. -/
theorem loadBytes_eq_append {m : Mem} {a n : ℕ} {p q : List UInt8}
    (h : loadBytes m a n = p ++ q) :
    loadBytes m a p.length = p ∧ loadBytes m (a + p.length) q.length = q := by
  have hn : n = p.length + q.length := by simpa using congrArg List.length h
  rw [hn, loadBytes_add] at h
  exact List.append_inj h (by simp)

/-- The first byte of a loaded block. -/
theorem loadBytes_succ (m : Mem) (a n : ℕ) :
    loadBytes m a (n + 1) = m a :: loadBytes m (a + 1) n := by
  rw [Nat.add_comm n 1, loadBytes_add]
  rfl

/-- The bytes of a word determine its value. -/
theorem load32_of_bytes {m : Mem} {a v : ℕ} (h : loadBytes m a 4 = word v) :
    load32 m a = v % 4294967296 := by
  simp only [word, loadBytes_succ, loadBytes_zero, List.cons.injEq, and_true] at h
  obtain ⟨h₀, h₁, h₂, h₃⟩ := h
  unfold load32
  rw [h₀, h₁, h₂, h₃]
  simp only [le32, UInt8.toNat_ofNat']
  norm_num
  omega

/-- A word inside a block of bytes. -/
theorem load32_of_append {m : Mem} {a n v : ℕ} {p q : List UInt8}
    (h : loadBytes m a n = p ++ (word v ++ q)) :
    load32 m (a + p.length) = v % 4294967296 := by
  have h₁ := (loadBytes_eq_append h).2
  have h₂ := (loadBytes_eq_append h₁).1
  rw [word_length] at h₂
  exact load32_of_bytes h₂

/-- A word of a byte list. -/
theorem wordAt_append (p q : List UInt8) (v : ℕ) :
    wordAt (p ++ (word v ++ q)) p.length = v % 4294967296 := by
  have h := load32_of_append (loadBytes_listMem (p ++ (word v ++ q)))
  rwa [Nat.zero_add] at h

theorem wordAt_word (v : ℕ) (q : List UInt8) : wordAt (word v ++ q) 0 = v % 4294967296 :=
  wordAt_append [] q v

/-! ## Chunks -/

/-- A chunk: its id and its body. -/
structure Chunk where
  ckid : ℕ
  body : List UInt8
deriving DecidableEq, Repr

/-- Id and length fit their 32-bit fields. -/
structure Chunk.Fits (c : Chunk) : Prop where
  ckid_lt : c.ckid < 4294967296
  body_lt : c.body.length < 4294967296

/-- The bytes of a chunk. -/
def Chunk.encode (c : Chunk) : List UInt8 :=
  word c.ckid ++ (word c.body.length ++ (c.body ++ List.replicate (c.body.length % 2) 0))

def encodeChunks (cs : List Chunk) : List UInt8 := cs.flatMap Chunk.encode

@[simp] theorem encodeChunks_nil : encodeChunks [] = [] := rfl

@[simp] theorem encodeChunks_cons (c : Chunk) (cs : List Chunk) :
    encodeChunks (c :: cs) = c.encode ++ encodeChunks cs := rfl

@[simp] theorem encodeChunks_append (cs ds : List Chunk) :
    encodeChunks (cs ++ ds) = encodeChunks cs ++ encodeChunks ds := by
  simp [encodeChunks]

theorem Chunk.encode_length (c : Chunk) :
    c.encode.length = 8 + c.body.length + c.body.length % 2 := by
  simp only [Chunk.encode, List.length_append, word_length, List.length_replicate]
  omega

/-- Read one chunk; the result is the chunk and the bytes behind it. -/
def readChunk (l : List UInt8) : Option (Chunk × List UInt8) :=
  let n := wordAt l 4
  if l.length < 8 + n + n % 2 then none
  else some (⟨wordAt l 0, (l.drop 8).take n⟩, l.drop (8 + n + n % 2))

/-- Read chunks as long as their ids are kept, `fuel` of them at most. -/
def readChunksFuel (keep : ℕ → Bool) : ℕ → List UInt8 → List Chunk × List UInt8
  | 0, l => ([], l)
  | fuel + 1, l =>
      match readChunk l with
      | none => ([], l)
      | some (c, rest) =>
          if keep c.ckid then
            let (cs, rest) := readChunksFuel keep fuel rest
            (c :: cs, rest)
          else ([], l)

/-- The chunks at the front of a byte list whose ids are kept, and the bytes behind them. -/
def readChunks (keep : ℕ → Bool) (l : List UInt8) : List Chunk × List UInt8 :=
  readChunksFuel keep l.length l

/-- A written chunk reads back. -/
theorem readChunk_encode {c : Chunk} (h : c.Fits) (rest : List UInt8) :
    readChunk (c.encode ++ rest) = some (c, rest) := by
  set pad : List UInt8 := List.replicate (c.body.length % 2) 0 with hpad
  have hl : c.encode ++ rest
      = word c.ckid ++ (word c.body.length ++ (c.body ++ (pad ++ rest))) := by
    simp [Chunk.encode, hpad]
  have hid : wordAt (c.encode ++ rest) 0 = c.ckid := by
    rw [hl, wordAt_word, Nat.mod_eq_of_lt h.ckid_lt]
  have hn : wordAt (c.encode ++ rest) 4 = c.body.length := by
    have := wordAt_append (word c.ckid) (c.body ++ (pad ++ rest)) c.body.length
    rw [word_length] at this
    rw [hl, this, Nat.mod_eq_of_lt h.body_lt]
  have hlen : (c.encode ++ rest).length = 8 + c.body.length + c.body.length % 2 + rest.length := by
    rw [List.length_append, Chunk.encode_length]
  have hbody : ((c.encode ++ rest).drop 8).take c.body.length = c.body := by
    rw [hl, ← List.append_assoc, List.drop_left' (by simp), List.take_left' rfl]
  have hrest : (c.encode ++ rest).drop (8 + c.body.length + c.body.length % 2) = rest :=
    List.drop_left' (Chunk.encode_length c)
  unfold readChunk
  simp only [hn, hid, hbody, hrest]
  rw [if_neg (by omega)]

/-- A list of written chunks reads back, up to a chunk that is not kept. -/
theorem readChunksFuel_encode {keep : ℕ → Bool} {rest : List UInt8}
    (hstop : ∀ c r, readChunk rest = some (c, r) → keep c.ckid = false) (cs : List Chunk)
    (hfits : ∀ c ∈ cs, c.Fits) (hkeep : ∀ c ∈ cs, keep c.ckid = true) :
    ∀ fuel, cs.length ≤ fuel →
      readChunksFuel keep fuel (encodeChunks cs ++ rest) = (cs, rest) := by
  induction cs with
  | nil =>
    intro fuel _
    cases fuel with
    | zero => rfl
    | succ fuel =>
      simp only [encodeChunks_nil, List.nil_append, readChunksFuel]
      cases hr : readChunk rest with
      | none => rfl
      | some p => simp [hstop p.1 p.2 hr]
  | cons c cs ih =>
    intro fuel hfuel
    obtain ⟨fuel, rfl⟩ : ∃ k, fuel = k + 1 := ⟨fuel - 1, by simp at hfuel; omega⟩
    have ih' := ih (fun d hd => hfits d (by simp [hd])) (fun d hd => hkeep d (by simp [hd]))
      fuel (by simpa using hfuel)
    have hc : readChunk (encodeChunks (c :: cs) ++ rest) = some (c, encodeChunks cs ++ rest) := by
      rw [encodeChunks_cons, List.append_assoc]
      exact readChunk_encode (hfits c (by simp)) _
    rw [readChunksFuel, hc]
    simp [hkeep c (by simp), ih']

theorem length_le_encodeChunks (cs : List Chunk) : cs.length ≤ (encodeChunks cs).length := by
  induction cs with
  | nil => simp
  | cons c cs ih =>
    have := c.encode_length
    simp only [encodeChunks_cons, List.length_cons, List.length_append]
    omega

theorem readChunks_encode {keep : ℕ → Bool} {rest : List UInt8} {cs : List Chunk}
    (hstop : ∀ c r, readChunk rest = some (c, r) → keep c.ckid = false)
    (hfits : ∀ c ∈ cs, c.Fits) (hkeep : ∀ c ∈ cs, keep c.ckid = true) :
    readChunks keep (encodeChunks cs ++ rest) = (cs, rest) := by
  apply readChunksFuel_encode hstop cs hfits hkeep
  have := length_le_encodeChunks cs
  rw [List.length_append]
  omega

/-! ## Index entries -/

/-- An index entry: the chunk's id, flags, offset and size. -/
structure IndexEntry where
  ckid : ℕ
  flags : ℕ
  offset : ℕ
  size : ℕ
deriving DecidableEq, Repr

structure IndexEntry.Fits (e : IndexEntry) : Prop where
  ckid_lt : e.ckid < 4294967296
  flags_lt : e.flags < 4294967296
  offset_lt : e.offset < 4294967296
  size_lt : e.size < 4294967296

def IndexEntry.encode (e : IndexEntry) : List UInt8 :=
  word e.ckid ++ (word e.flags ++ (word e.offset ++ word e.size))

def encodeEntries (es : List IndexEntry) : List UInt8 := es.flatMap IndexEntry.encode

@[simp] theorem IndexEntry.encode_length (e : IndexEntry) : e.encode.length = 16 := by
  simp [IndexEntry.encode]

@[simp] theorem encodeEntries_nil : encodeEntries [] = [] := rfl

@[simp] theorem encodeEntries_cons (e : IndexEntry) (es : List IndexEntry) :
    encodeEntries (e :: es) = e.encode ++ encodeEntries es := rfl

@[simp] theorem encodeEntries_append (es fs : List IndexEntry) :
    encodeEntries (es ++ fs) = encodeEntries es ++ encodeEntries fs := by
  simp [encodeEntries]

@[simp] theorem encodeEntries_length (es : List IndexEntry) :
    (encodeEntries es).length = 16 * es.length := by
  induction es with
  | nil => rfl
  | cons e es ih =>
    rw [encodeEntries_cons, List.length_append, IndexEntry.encode_length, ih, List.length_cons]
    omega

/-- The entries of a table, whole entries only. -/
def readEntries (l : List UInt8) : List IndexEntry :=
  (List.range (l.length / 16)).map fun i =>
    ⟨wordAt l (16 * i), wordAt l (16 * i + 4), wordAt l (16 * i + 8), wordAt l (16 * i + 12)⟩

theorem wordAt_append_right (p q : List UInt8) (i : ℕ) :
    wordAt (p ++ q) (p.length + i) = wordAt q i := by
  simp only [wordAt, load32, Nat.add_assoc, listMem_append_right]

theorem wordAt_append_left {p : List UInt8} (q : List UInt8) {i : ℕ} (h : i + 4 ≤ p.length) :
    wordAt (p ++ q) i = wordAt p i := by
  apply load32_congr
  intro x _ hx
  simp [listMem, List.getElem?_append_left (show x < p.length by omega)]

/-- The first entry of a table. -/
theorem readEntries_cons {e : IndexEntry} (h : e.Fits) (l : List UInt8) :
    readEntries (e.encode ++ l) = e :: readEntries l := by
  have hlen : (e.encode ++ l).length / 16 = l.length / 16 + 1 := by
    rw [List.length_append, IndexEntry.encode_length]
    omega
  have hshift : ∀ i, wordAt (e.encode ++ l) (16 + i) = wordAt l i := by
    intro i
    have := wordAt_append_right e.encode l i
    rwa [IndexEntry.encode_length] at this
  have h₀ : wordAt (e.encode ++ l) 0 = e.ckid := by
    rw [IndexEntry.encode, List.append_assoc, wordAt_word, Nat.mod_eq_of_lt h.ckid_lt]
  have h₁ : wordAt (e.encode ++ l) 4 = e.flags := by
    have := wordAt_append (word e.ckid) (word e.offset ++ (word e.size ++ l)) e.flags
    simpa [IndexEntry.encode, Nat.mod_eq_of_lt h.flags_lt] using this
  have h₂ : wordAt (e.encode ++ l) 8 = e.offset := by
    have := wordAt_append (word e.ckid ++ word e.flags) (word e.size ++ l) e.offset
    simpa [IndexEntry.encode, Nat.mod_eq_of_lt h.offset_lt] using this
  have h₃ : wordAt (e.encode ++ l) 12 = e.size := by
    have := wordAt_append (word e.ckid ++ word e.flags ++ word e.offset) l e.size
    simpa [IndexEntry.encode, Nat.mod_eq_of_lt h.size_lt] using this
  unfold readEntries
  rw [hlen, List.range_succ_eq_map, List.map_cons, List.map_map]
  rw [List.cons.injEq]
  constructor
  · rw [Nat.mul_zero, Nat.zero_add, Nat.zero_add, Nat.zero_add, h₀, h₁, h₂, h₃]
  · apply List.map_congr_left
    intro i _
    have hi : 16 * (i + 1) = 16 + 16 * i := by omega
    simp [hi, Nat.add_assoc, hshift]

/-- A written table reads back. -/
theorem readEntries_encode {es : List IndexEntry} (h : ∀ e ∈ es, e.Fits) :
    readEntries (encodeEntries es) = es := by
  induction es with
  | nil => rfl
  | cons e es ih =>
    rw [encodeEntries_cons, readEntries_cons (h e (by simp)), ih fun d hd => h d (by simp [hd])]
