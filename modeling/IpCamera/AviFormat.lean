/-
# The layout of a recording (`avi_typedef.h`, `grd_avi_rec_api.c`)

A recording is the packed `AviHeader` of 326 bytes, the chunks of its frames, each
followed by a `JUNK` chunk with the frame's time value, and an `idx1` chunk with
one entry a frame.  This module holds the constants, the header as
`avi_write_header` fills it in, the chunks and the index entry of a frame, and a
reader (`readMovi`, `readIndex`) that finds the chunks and the entries in a file
without knowing how it was written.
-/
import IpCamera.FileBuffer

/-! ## Constants -/

/-- `MAKE_FOURCC`. -/
def makeFourcc (a b c d : Char) : ℕ :=
  a.toNat + b.toNat * 256 + c.toNat * 65536 + d.toNat * 16777216

def fccRIFF : ℕ := makeFourcc 'R' 'I' 'F' 'F'
def fccAVI : ℕ := makeFourcc 'A' 'V' 'I' ' '
def fccLIST : ℕ := makeFourcc 'L' 'I' 'S' 'T'
def fccMovi : ℕ := makeFourcc 'm' 'o' 'v' 'i'
def fccIdx1 : ℕ := makeFourcc 'i' 'd' 'x' '1'
def fccJUNK : ℕ := makeFourcc 'J' 'U' 'N' 'K'
/-- The id of a video chunk. -/
def fcc00dc : ℕ := makeFourcc '0' '0' 'd' 'c'
/-- The id of an audio chunk. -/
def fcc01wb : ℕ := makeFourcc '0' '1' 'w' 'b'

/-- `REC_BUF_SIZE` -/
def recBufSize : ℕ := 512 * 1024
/-- `DATA_SAVE_NUM` -/
def dataSaveNum : ℕ := 100
/-- `INDEX_ARRAY_MAX_NUMBER` -/
def indexArrayMaxNumber : ℕ := 2048
/-- `ONE_INDEX_SIZE` -/
def oneIndexSize : ℕ := 16
/-- `PB_BUF_SIZE` -/
def pbBufSize : ℕ := 2000000
/-- `sizeof(AviHeader)` -/
def sizeofAviHeader : ℕ := 326

/-! ## The header -/

inductive EncType
  | h264
  | mpeg
  | mjpeg
deriving DecidableEq, Repr

/-- `AVI_TYPE_H264` and its siblings. -/
def EncType.aviType : EncType → ℕ
  | .h264 => makeFourcc 'H' '2' '6' '4'
  | .mpeg => makeFourcc 'D' 'I' 'V' 'X'
  | .mjpeg => makeFourcc 'M' 'J' 'P' 'G'

/-- The fields of `AviInitParam` the recorder reads. -/
structure AviInitParam where
  bps : ℕ
  fps : ℕ
  width : ℕ
  height : ℕ
  codecType : EncType
  aEncType : ℕ
  mode : ℕ
  duration : ℕ
deriving DecidableEq, Repr

/-- `RECORD_FIXED_DURATION`, and the tests of the two record modes. -/
def recordFixedDuration : ℕ := 2
def recordIsFixedSize (mode : ℕ) : Bool := mode &&& 1 ≠ 0
def recordIsFixedDuration (mode : ℕ) : Bool := mode &&& 2 ≠ 0

/-- `init_rec_param` -/
def initRecParam : AviInitParam where
  bps := 2048 * 1024
  fps := 25
  width := 1280
  height := 720
  codecType := .h264
  aEncType := 0
  mode := recordFixedDuration
  duration := 0

/-- `a_chans` and `a_rate`. -/
def aChans : ℕ := 1
def aRate : ℕ := 8000

/-- The global `a_bits` as `avi_write_header` sets it. -/
def headerBits (param : AviInitParam) : ℕ := if param.aEncType = 3 then 16 else 8

/-- `samplesize`, with the guard against zero. -/
def sampleSize (aBits : ℕ) : ℕ :=
  let samplesize := (aBits + 7) / 8 * aChans
  if samplesize = 0 then 1 else samplesize

/-- The bytes of `int` and of `short int` fields. -/
def ints (vs : List ℕ) : List UInt8 := vs.flatMap word
def shorts (vs : List ℕ) : List UInt8 := vs.flatMap fun v => loadBytes (le32 v) 0 2

/-- `AviMainHeader`, `LIST strl` and the `AviStreamHeader` of the video stream. -/
def videoHeaders (param : AviInitParam) (videoCount : ℕ) : List UInt8 :=
  let msPerFrame := 1000000 / param.fps
  let type := param.codecType.aviType
  ints [makeFourcc 'a' 'v' 'i' 'h', 56, msPerFrame, param.bps / 8, 0, 0x10010, videoCount, 0, 2,
      pbBufSize, param.width, param.height, 0, 0, 0, 0]
    ++ ints [fccLIST, 116, makeFourcc 's' 't' 'r' 'l', makeFourcc 's' 't' 'r' 'h', 56,
      makeFourcc 'v' 'i' 'd' 's', type, 0]
    ++ shorts [0, 0]
    ++ ints [0, msPerFrame, 1000000, 0, videoCount, pbBufSize, 4294967295,
      param.width * param.height]
    ++ shorts [0, 0, param.width, param.height]
    ++ ints [makeFourcc 's' 't' 'r' 'f', 40, 40, param.width, param.height]
    ++ shorts [1, 24]
    ++ ints [type, param.width * param.height, 0, 0, 0, 0]

/-- `LIST strl`, `AviStreamHeader` and `AudioFormateX` of the audio stream. -/
def audioHeaders (param : AviInitParam) (audioBytes : ℕ) : List UInt8 :=
  let aBits := headerBits param
  let samplesize := sampleSize aBits
  let handler :=
    if param.aEncType = 2 then 1 else if param.aEncType = 3 then 0 else makeFourcc 'G' '7' '1' '1'
  let dwScale := if param.aEncType = 2 then 1024 else samplesize
  let wFormatTag :=
    if param.aEncType = 0 then 6
    else if param.aEncType = 1 then 7
    else if param.aEncType = 2 then 0xff
    else if param.aEncType = 3 then 1
    else 6
  ints [fccLIST, 94, makeFourcc 's' 't' 'r' 'l', makeFourcc 's' 't' 'r' 'h', 56,
      makeFourcc 'a' 'u' 'd' 's', handler, 0]
    ++ shorts [0, 0]
    ++ ints [0, dwScale, samplesize * aRate, 0, audioBytes / samplesize, 0, 4294967295, samplesize]
    ++ shorts [0, 0, 0, 0]
    ++ ints [makeFourcc 's' 't' 'r' 'f', 18]
    ++ shorts [wFormatTag, aChans]
    ++ (if param.aEncType = 2 then ints [aRate, 4000] ++ shorts [1024, aBits, 0]
        else ints [aRate, aRate * samplesize] ++ shorts [samplesize, aBits, 1])

/-- The `AviHeader` that `avi_write_header` writes. -/
def aviHeader (param : AviInitParam) (videoCount audioBytes : ℕ) : List UInt8 :=
  ints [fccRIFF, 0, fccAVI, fccLIST, 294, makeFourcc 'h' 'd' 'r' 'l']
    ++ (videoHeaders param videoCount ++ audioHeaders param audioBytes)
    ++ ints [fccLIST, 0, fccMovi]

theorem ints_length (vs : List ℕ) : (ints vs).length = 4 * vs.length := by
  induction vs with
  | nil => rfl
  | cons v vs ih =>
    unfold ints at ih ⊢
    rw [List.flatMap_cons, List.length_append, word_length, ih, List.length_cons]
    omega

theorem shorts_length (vs : List ℕ) : (shorts vs).length = 2 * vs.length := by
  induction vs with
  | nil => rfl
  | cons v vs ih =>
    unfold shorts at ih ⊢
    rw [List.flatMap_cons, List.length_append, loadBytes_length, ih, List.length_cons]
    omega

theorem videoHeaders_length (param : AviInitParam) (n : ℕ) :
    (videoHeaders param n).length = 188 := by
  simp only [videoHeaders, List.length_append, ints_length, shorts_length, List.length_cons,
    List.length_nil]

theorem audioHeaders_length (param : AviInitParam) (n : ℕ) :
    (audioHeaders param n).length = 102 := by
  unfold audioHeaders
  split <;>
    simp only [List.length_append, ints_length, shorts_length, List.length_cons, List.length_nil]

theorem aviHeader_length (param : AviInitParam) (v a : ℕ) :
    (aviHeader param v a).length = sizeofAviHeader := by
  simp only [aviHeader, List.length_append, ints_length, List.length_cons, List.length_nil,
    videoHeaders_length, audioHeaders_length]
  rfl

/-! ## Frames -/

/-- A frame given to the recorder: its bytes, its type (`0` P, `1` I, `2` audio, `3` mjpeg) and
the two words of its time value. -/
structure AviFrame where
  data : List UInt8
  intra : ℤ
  stamp : ℕ × ℕ
deriving DecidableEq, Repr

namespace AviFrame

def IsVideo (f : AviFrame) : Prop := f.intra = 1 ∨ f.intra = 0 ∨ f.intra = 3

def IsAudio (f : AviFrame) : Prop := f.intra = 2

/-- A frame a recording may start with. -/
def IsKey (f : AviFrame) : Prop := f.intra = 1 ∨ f.intra = 3

instance (f : AviFrame) : Decidable f.IsVideo := inferInstanceAs (Decidable (_ ∨ _ ∨ _))
instance (f : AviFrame) : Decidable f.IsAudio := inferInstanceAs (Decidable (_ = _))
instance (f : AviFrame) : Decidable f.IsKey := inferInstanceAs (Decidable (_ ∨ _))

/-- `length % 2` -/
def isAlign (f : AviFrame) : ℕ := f.data.length % 2

/-- `length + is_align` -/
def size (f : AviFrame) : ℕ := f.data.length + f.isAlign

/-- The bytes a frame takes in the record buffer. -/
def chunkSize (f : AviFrame) : ℕ := 8 + f.data.length + f.isAlign + 16

def ckid (f : AviFrame) : ℕ := if f.IsVideo then fcc00dc else fcc01wb

/-- The flags of the frame's index entry. -/
def flags (f : AviFrame) : ℕ :=
  if f.IsVideo then (if f.intra ≠ 0 then 0x11 else 0x10) else 0

/-- The frame's chunk and the `JUNK` chunk behind it. -/
def chunks (f : AviFrame) : List Chunk :=
  [⟨f.ckid, f.data ++ List.replicate f.isAlign 0⟩, ⟨fccJUNK, word f.stamp.1 ++ word f.stamp.2⟩]

/-- The index entry of the frame, its chunk being at `offset`. -/
def entry (f : AviFrame) (offset : ℕ) : IndexEntry :=
  ⟨f.ckid, f.flags, offset % 4294967296, f.size⟩

/-- A video or audio frame that fits an empty record buffer. -/
structure Ok (f : AviFrame) : Prop where
  kind : f.IsVideo ∨ f.IsAudio
  fits : f.chunkSize ≤ recBufSize

theorem IsKey.isVideo {f : AviFrame} (h : f.IsKey) : f.IsVideo := by
  unfold IsKey at h
  unfold IsVideo
  tauto

theorem chunkSize_eq (f : AviFrame) : f.chunkSize = 24 + f.size := by
  unfold chunkSize size
  omega

end AviFrame

/-- The chunks of a list of frames. -/
def moviChunks (fs : List AviFrame) : List Chunk := fs.flatMap AviFrame.chunks

/-- The bytes of the frames' chunks. -/
def moviBytes (fs : List AviFrame) : List UInt8 := encodeChunks (moviChunks fs)

/-- The number of these bytes. -/
def moviSize (fs : List AviFrame) : ℕ := (fs.map AviFrame.chunkSize).sum

/-- The index entries of frames whose chunks begin at `offset`. -/
def indexFrom (offset : ℕ) : List AviFrame → List IndexEntry
  | [] => []
  | f :: fs => f.entry offset :: indexFrom (offset + f.chunkSize) fs

@[simp] theorem moviChunks_append (fs gs : List AviFrame) :
    moviChunks (fs ++ gs) = moviChunks fs ++ moviChunks gs := by
  simp [moviChunks]

@[simp] theorem moviBytes_nil : moviBytes [] = [] := rfl

@[simp] theorem moviBytes_append (fs gs : List AviFrame) :
    moviBytes (fs ++ gs) = moviBytes fs ++ moviBytes gs := by
  simp [moviBytes]

@[simp] theorem moviSize_nil : moviSize [] = 0 := rfl

@[simp] theorem moviSize_cons (f : AviFrame) (fs : List AviFrame) :
    moviSize (f :: fs) = f.chunkSize + moviSize fs := by
  simp [moviSize]

@[simp] theorem moviSize_append (fs gs : List AviFrame) :
    moviSize (fs ++ gs) = moviSize fs + moviSize gs := by
  simp [moviSize]

/-- The bytes of one frame, field by field. -/
theorem moviBytes_singleton (f : AviFrame) :
    moviBytes [f]
      = word f.ckid ++ (word f.size ++ (f.data ++ (List.replicate f.isAlign 0
        ++ (word fccJUNK ++ (word 8 ++ (word f.stamp.1 ++ word f.stamp.2)))))) := by
  have hlen : (f.data ++ List.replicate f.isAlign (0 : UInt8)).length = f.size := by
    simp [AviFrame.size]
  have heven : f.size % 2 = 0 := by
    unfold AviFrame.size AviFrame.isAlign
    omega
  simp only [moviBytes, moviChunks, List.flatMap_cons, List.flatMap_nil, List.append_nil,
    AviFrame.chunks, encodeChunks_cons, encodeChunks_nil, Chunk.encode, hlen, heven]
  simp

@[simp] theorem moviBytes_length (fs : List AviFrame) : (moviBytes fs).length = moviSize fs := by
  induction fs with
  | nil => rfl
  | cons f fs ih =>
    rw [← List.singleton_append, moviBytes_append, List.length_append, ih, moviSize_append,
      moviBytes_singleton, moviSize_cons, moviSize_nil, AviFrame.chunkSize]
    simp only [List.length_append, word_length, List.length_replicate]
    omega

@[simp] theorem indexFrom_length (fs : List AviFrame) : ∀ o, (indexFrom o fs).length = fs.length := by
  induction fs with
  | nil => intro o; rfl
  | cons f fs ih => intro o; simp [indexFrom, ih]

theorem indexFrom_append (fs gs : List AviFrame) :
    ∀ o, indexFrom o (fs ++ gs) = indexFrom o fs ++ indexFrom (o + moviSize fs) gs := by
  induction fs with
  | nil => intro o; rfl
  | cons f fs ih => intro o; simp [indexFrom, ih, Nat.add_assoc]

/-! ## Reading a file -/

/-- The bytes behind the header. -/
def aviBody (f : StdioFile) : List UInt8 :=
  loadBytes f.bytes sizeofAviHeader (f.size - sizeofAviHeader)

/-- The chunk ids of the movi list. -/
def inMovi (ckid : ℕ) : Bool := ckid = fcc00dc ∨ ckid = fcc01wb ∨ ckid = fccJUNK

/-- The chunks of the movi list. -/
def readMovi (f : StdioFile) : List Chunk := (readChunks inMovi (aviBody f)).1

/-- The entries of the index chunk behind the movi list. -/
def readIndex (f : StdioFile) : List IndexEntry :=
  readEntries ((readChunks inMovi (aviBody f)).2.drop 8)

/-- The index chunk of frames recorded from the header on. -/
def idx1Bytes (fs : List AviFrame) : List UInt8 :=
  word fccIdx1 ++ (word (16 * fs.length) ++ encodeEntries (indexFrom sizeofAviHeader fs))

theorem AviFrame.ckid_lt (f : AviFrame) : f.ckid < 4294967296 := by
  unfold AviFrame.ckid
  split <;> decide

/-- The chunks of a frame that fits the record buffer are well formed. -/
theorem AviFrame.Ok.chunks_fit {f : AviFrame} (h : f.Ok) : ∀ c ∈ f.chunks, c.Fits := by
  intro c hc
  have hsize := h.fits
  rw [AviFrame.chunkSize] at hsize
  simp only [AviFrame.chunks, List.mem_cons, List.not_mem_nil, or_false] at hc
  rcases hc with rfl | rfl
  · refine ⟨f.ckid_lt, ?_⟩
    simp only [List.length_append, List.length_replicate]
    unfold recBufSize at hsize
    omega
  · have hjunk : fccJUNK < 4294967296 := by decide
    exact ⟨hjunk, by simp⟩

theorem AviFrame.chunks_inMovi (f : AviFrame) : ∀ c ∈ f.chunks, inMovi c.ckid = true := by
  intro c hc
  simp only [AviFrame.chunks, List.mem_cons, List.not_mem_nil, or_false] at hc
  rcases hc with rfl | rfl
  · show inMovi f.ckid = true
    unfold AviFrame.ckid
    split <;> decide
  · show inMovi fccJUNK = true
    decide

theorem AviFrame.Ok.entry_fits {f : AviFrame} (h : f.Ok) (o : ℕ) : (f.entry o).Fits := by
  have hsize := h.fits
  rw [AviFrame.chunkSize_eq] at hsize
  refine ⟨f.ckid_lt, ?_, Nat.mod_lt _ (by decide), ?_⟩
  · show f.flags < 4294967296
    unfold AviFrame.flags
    split
    · split <;> decide
    · decide
  · show f.size < 4294967296
    unfold recBufSize at hsize
    omega

theorem indexFrom_fit {fs : List AviFrame} (h : ∀ f ∈ fs, f.Ok) :
    ∀ o, ∀ e ∈ indexFrom o fs, e.Fits := by
  induction fs with
  | nil => intro o e he; cases he
  | cons f fs ih =>
    intro o e he
    rcases List.mem_cons.mp he with rfl | he
    · exact (h f (by simp)).entry_fits o
    · exact ih (fun g hg => h g (by simp [hg])) _ e he

/-- The movi list ends where the index chunk, or the file, begins to end. -/
theorem readChunks_moviBytes {fs : List AviFrame} (h : ∀ f ∈ fs, f.Ok) {rest : List UInt8}
    (hrest : rest = [] ∨ wordAt rest 0 = fccIdx1) :
    readChunks inMovi (moviBytes fs ++ rest) = (moviChunks fs, rest) := by
  apply readChunks_encode
  · intro c r hr
    simp only [readChunk, Option.ite_none_left_eq_some, Option.some.injEq, Prod.mk.injEq] at hr
    obtain ⟨hlen, rfl, -⟩ := hr
    rcases hrest with rfl | hid
    · simp at hlen
    · show inMovi (wordAt rest 0) = false
      rw [hid]
      decide
  · intro c hc
    obtain ⟨f, hf, hc⟩ := List.mem_flatMap.mp hc
    exact (h f hf).chunks_fit c hc
  · intro c hc
    obtain ⟨f, hf, hc⟩ := List.mem_flatMap.mp hc
    exact f.chunks_inMovi c hc

theorem readMovi_eq {file : StdioFile} {fs : List AviFrame} (h : ∀ f ∈ fs, f.Ok)
    (hbody : aviBody file = moviBytes fs ++ idx1Bytes fs) : readMovi file = moviChunks fs := by
  unfold readMovi
  rw [hbody, readChunks_moviBytes h (Or.inr (wordAt_word _ _))]

theorem readIndex_eq {file : StdioFile} {fs : List AviFrame} (h : ∀ f ∈ fs, f.Ok)
    (hbody : aviBody file = moviBytes fs ++ idx1Bytes fs) :
    readIndex file = indexFrom sizeofAviHeader fs := by
  unfold readIndex
  rw [hbody, readChunks_moviBytes h (Or.inr (wordAt_word _ _)), idx1Bytes, ← List.append_assoc,
    List.drop_left' (by simp), readEntries_encode (indexFrom_fit h _)]
