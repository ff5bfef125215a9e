/-
# A closed recording is a well-formed AVI

`WellFormedAvi` says what the finished file has to satisfy, in terms of its bytes and
of what the reader finds in it: the lengths in the header, the chunks and the time
stamps behind them, the index and where its entries point, the frame count.
`closed_wellFormed` proves it of every recording that begins with a key frame.
-/
import IpCamera.AviClose

/-! ## Well-formed files -/

/-- The chunks that carry frames. -/
def isFrameChunk (c : Chunk) : Bool := c.ckid = fcc00dc ∨ c.ckid = fcc01wb

/-- The file is a well-formed AVI of the frames `fs`. -/
structure WellFormedAvi (file : StdioFile) (fs : List AviFrame) : Prop where
  riff : load32 file.bytes 0 = fccRIFF
  riffLen : load32 file.bytes 4 = file.size - 8
  avi : load32 file.bytes 8 = fccAVI
  list : load32 file.bytes 314 = fccLIST
  /-- The list covers the fourcc and the chunks, up to the index. -/
  moviLen : load32 file.bytes 318 = 4 + (encodeChunks (readMovi file)).length
  movi : load32 file.bytes 322 = fccMovi
  /-- The chunks are those of the frames, each followed by its `JUNK` chunk. -/
  chunks : readMovi file = moviChunks fs
  idx1 : load32 file.bytes (322 + load32 file.bytes 318) = fccIdx1
  idx1Len : load32 file.bytes (322 + load32 file.bytes 318 + 4) = 16 * (readIndex file).length
  idx1End : 322 + load32 file.bytes 318 + 8 + 16 * (readIndex file).length = file.size
  /-- One entry for each video or audio chunk, in file order. -/
  entries : (readIndex file).map (fun e => (e.ckid, e.size))
    = ((readMovi file).filter isFrameChunk).map (fun c => (c.ckid, c.body.length))
  /-- An entry's offset is that of its chunk's header, and its flag tells a key frame. -/
  landing : ∀ (i : ℕ) (f : AviFrame), fs[i]? = some f →
    ∃ e : IndexEntry, (readIndex file)[i]? = some e
    ∧ load32 file.bytes e.offset = e.ckid ∧ load32 file.bytes (e.offset + 4) = e.size
    ∧ loadBytes file.bytes e.offset f.chunkSize = moviBytes [f]
    ∧ (e.flags = 0x11 ↔ f.IsKey)
  totalFrames : load32 file.bytes 48
    = ((readMovi file).filter fun c => c.ckid = fcc00dc).length

/-! ## Frames and entries -/

theorem AviFrame.size_lt {f : AviFrame} (h : f.Ok) : f.size < 4294967296 := (h.entry_fits 0).size_lt

/-- The flag of a key frame's entry. -/
theorem AviFrame.Ok.flags_iff {f : AviFrame} (h : f.Ok) : f.flags = 0x11 ↔ f.IsKey := by
  have hkind := h.kind
  unfold AviFrame.flags AviFrame.IsVideo AviFrame.IsKey
  unfold AviFrame.IsVideo AviFrame.IsAudio at hkind
  rcases hkind with (h1 | h0 | h3) | h2
  · simp [h1]
  · simp [h0]
  · simp [h3]
  · simp [h2]

/-- The frame chunks among all chunks. -/
theorem moviChunks_frames (fs : List AviFrame) :
    (moviChunks fs).filter isFrameChunk
      = fs.map fun f => ⟨f.ckid, f.data ++ List.replicate f.isAlign 0⟩ := by
  induction fs with
  | nil => rfl
  | cons f fs ih =>
    have hjunk : isFrameChunk ⟨fccJUNK, word f.stamp.1 ++ word f.stamp.2⟩ = false := by
      have : fccJUNK ≠ fcc00dc ∧ fccJUNK ≠ fcc01wb := by decide
      simp [isFrameChunk, this]
    have hframe : isFrameChunk ⟨f.ckid, f.data ++ List.replicate f.isAlign 0⟩ = true := by
      unfold isFrameChunk AviFrame.ckid
      split <;> simp
    rw [moviChunks, List.flatMap_cons, List.filter_append, ← moviChunks, ih, List.map_cons]
    simp [AviFrame.chunks, hjunk, hframe]

/-- The video chunks are as many as the video frames. -/
theorem moviChunks_video (fs : List AviFrame) :
    ((moviChunks fs).filter fun c => c.ckid = fcc00dc).length = videoCountOf fs := by
  induction fs with
  | nil => rfl
  | cons f fs ih =>
    have hne : fccJUNK ≠ fcc00dc ∧ fcc01wb ≠ fcc00dc := by decide
    rw [moviChunks, List.flatMap_cons, List.filter_append, ← moviChunks, List.length_append, ih,
      ← List.singleton_append, videoCountOf_append]
    congr 1
    by_cases hv : f.IsVideo
    · simp [AviFrame.chunks, AviFrame.ckid, hv, hne, videoCountOf]
    · simp [AviFrame.chunks, AviFrame.ckid, hv, hne, videoCountOf]

/-- The entry at a position of the index. -/
theorem indexFrom_getElem? (fs : List AviFrame) :
    ∀ (o i : ℕ), (indexFrom o fs)[i]? = fs[i]?.map fun f : AviFrame => f.entry (o + moviSize (fs.take i)) := by
  induction fs with
  | nil => intro o i; simp [indexFrom]
  | cons f fs ih =>
    intro o i
    cases i with
    | zero => simp [indexFrom]
    | succ i => simp [indexFrom, ih, Nat.add_assoc]

theorem indexFrom_map (fs : List AviFrame) :
    ∀ o, (indexFrom o fs).map (fun e => (e.ckid, e.size)) = fs.map fun f => (f.ckid, f.size) := by
  induction fs with
  | nil => intro o; rfl
  | cons f fs ih => intro o; simp [indexFrom, ih, AviFrame.entry]

/-! ## The header -/

theorem aviHeader_words (param : AviInitParam) (v a : ℕ) :
    wordAt (aviHeader param v a) 0 = fccRIFF ∧ wordAt (aviHeader param v a) 8 = fccAVI
      ∧ wordAt (aviHeader param v a) 314 = fccLIST ∧ wordAt (aviHeader param v a) 322 = fccMovi := by
  unfold aviHeader
  set first := ints [fccRIFF, 0, fccAVI, fccLIST, 294, makeFourcc 'h' 'd' 'r' 'l'] with hfirst
  set streams := videoHeaders param v ++ audioHeaders param a with hstreams
  have hlen₁ : first.length = 24 := by rw [hfirst, ints_length]; rfl
  have hlen₂ : (first ++ streams).length = 314 := by
    rw [List.length_append, hlen₁, hstreams, List.length_append, videoHeaders_length,
      audioHeaders_length]
  have hlast : ∀ i, wordAt (first ++ streams ++ ints [fccLIST, 0, fccMovi]) (314 + i)
      = wordAt (ints [fccLIST, 0, fccMovi]) i := by
    intro i
    rw [← hlen₂]
    exact wordAt_append_right _ _ i
  have hfront : ∀ i, i + 4 ≤ 24 →
      wordAt (first ++ streams ++ ints [fccLIST, 0, fccMovi]) i = wordAt first i := by
    intro i hi
    rw [List.append_assoc, wordAt_append_left _ (by omega)]
  refine ⟨?_, ?_, ?_, ?_⟩
  · rw [hfront 0 (by decide)]
    decide
  · rw [hfront 8 (by decide)]
    decide
  · rw [hlast 0]
    decide
  · rw [hlast 8]
    decide

/-! ## Finished files -/

namespace Finished

variable {hdr : List UInt8} {duration aBits : ℕ} {file : StdioFile} {fs : List AviFrame}

/-- A header word that is not filled in at the end. -/
theorem load32_kept (h : Finished hdr duration aBits file fs) {i : ℕ} (hi : i + 4 ≤ sizeofAviHeader)
    (hout : ∀ p ∈ finalPatches fs duration aBits, i + 4 ≤ p.1 ∨ p.1 + 4 ≤ i) :
    load32 file.bytes i = wordAt hdr i := by
  apply load32_congr
  intro x h₁ h₂
  apply h.kept x (by omega)
  intro p hp
  have := hout p hp
  omega

/-- A block of the body. -/
theorem loadBytes_body (h : Finished hdr duration aBits file fs) {p q r : List UInt8}
    (hb : moviBytes fs ++ idx1Bytes fs = p ++ (q ++ r)) :
    loadBytes file.bytes (sizeofAviHeader + p.length) q.length = q := by
  have hbody := h.body
  rw [aviBody, hb] at hbody
  exact (loadBytes_eq_append (loadBytes_eq_append hbody).2).1

theorem load32_body (h : Finished hdr duration aBits file fs) {p r : List UInt8} {v : ℕ}
    (hb : moviBytes fs ++ idx1Bytes fs = p ++ (word v ++ r)) :
    load32 file.bytes (sizeofAviHeader + p.length) = v % 4294967296 := by
  apply load32_of_bytes
  have := h.loadBytes_body hb
  rwa [word_length] at this

end Finished

theorem take_append_cons {fs : List AviFrame} {i : ℕ} {f : AviFrame} (h : fs[i]? = some f) :
    fs = fs.take i ++ (f :: fs.drop (i + 1)) := by
  obtain ⟨hi, hf⟩ := List.getElem?_eq_some_iff.mp h
  rw [← hf, ← List.drop_eq_getElem_cons hi, List.take_append_drop]

/-- The index entry of a frame: its offset is where the frame's chunk lies in the file. -/
theorem Finished.landing {hdr : List UInt8} {duration aBits : ℕ} {file : StdioFile}
    {fs : List AviFrame} (h : Finished hdr duration aBits file fs) (hok : ∀ f ∈ fs, f.Ok)
    (hsize : file.size < 2147483648) {i : ℕ} {f : AviFrame} (hf : fs[i]? = some f) :
    ∃ e : IndexEntry, (readIndex file)[i]? = some e
      ∧ load32 file.bytes e.offset = e.ckid ∧ load32 file.bytes (e.offset + 4) = e.size
      ∧ loadBytes file.bytes e.offset f.chunkSize = moviBytes [f]
      ∧ (e.flags = 0x11 ↔ f.IsKey) := by
  have hfs := take_append_cons hf
  set pre := fs.take i
  set post := fs.drop (i + 1)
  have hfok : f.Ok := hok f (List.mem_of_getElem? hf)
  have hle : moviSize pre ≤ moviSize fs := by
    rw [hfs, moviSize_append]
    omega
  have hsz := h.size
  have hoff : (sizeofAviHeader + moviSize pre) % 4294967296 = sizeofAviHeader + moviSize pre :=
    Nat.mod_eq_of_lt (by omega)
  have hbf : moviBytes fs ++ idx1Bytes fs
      = moviBytes pre ++ (moviBytes [f] ++ (moviBytes post ++ idx1Bytes fs)) := by
    have hm : moviBytes fs = moviBytes pre ++ (moviBytes [f] ++ moviBytes post) := by
      rw [← moviBytes_append, ← moviBytes_append, List.singleton_append, ← hfs]
    rw [hm]
    simp
  have hbytes := h.loadBytes_body hbf
  rw [moviBytes_length, moviBytes_length, moviSize_cons, moviSize_nil, Nat.add_zero] at hbytes
  -- the chunk's id and length
  obtain ⟨tail, htail⟩ : ∃ tail, moviBytes [f] = word f.ckid ++ (word f.size ++ tail) :=
    ⟨_, moviBytes_singleton f⟩
  have hckid := h.load32_body (p := moviBytes pre) (v := f.ckid)
    (by rw [hbf, htail, List.append_assoc])
  have hlen := h.load32_body (p := moviBytes pre ++ word f.ckid) (v := f.size)
    (r := tail ++ (moviBytes post ++ idx1Bytes fs)) (by rw [hbf, htail]; simp)
  rw [moviBytes_length, Nat.mod_eq_of_lt f.ckid_lt] at hckid
  rw [List.length_append, word_length, moviBytes_length, ← Nat.add_assoc,
    Nat.mod_eq_of_lt (AviFrame.size_lt hfok)] at hlen
  refine ⟨f.entry (sizeofAviHeader + moviSize pre), ?_, ?_, ?_, ?_, hfok.flags_iff⟩
  · rw [readIndex_eq hok h.body, indexFrom_getElem?, hf]
    rfl
  · show load32 file.bytes ((sizeofAviHeader + moviSize pre) % 4294967296) = f.ckid
    rw [hoff, hckid]
  · show load32 file.bytes ((sizeofAviHeader + moviSize pre) % 4294967296 + 4) = f.size
    rw [hoff, hlen]
  · show loadBytes file.bytes ((sizeofAviHeader + moviSize pre) % 4294967296) f.chunkSize = _
    rw [hoff, hbytes]

/-- A finished file below 2 GB is well formed. -/
theorem Finished.wellFormed {param : AviInitParam} {duration aBits : ℕ} {file : StdioFile}
    {fs : List AviFrame} (h : Finished (aviHeader param 0 0) duration aBits file fs)
    (hok : ∀ f ∈ fs, f.Ok) (hfile : file.size < 2147483648) : WellFormedAvi file fs := by
  obtain ⟨hriff, havi, hlist, hmovi⟩ := aviHeader_words param 0 0
  have hsz := h.size
  have hsize := hfile
  rw [hsz] at hsize
  have hchunks : readMovi file = moviChunks fs := readMovi_eq hok h.body
  have hindex : readIndex file = indexFrom sizeofAviHeader fs := readIndex_eq hok h.body
  have hlen318 : load32 file.bytes 318 = moviSize fs + 4 := by
    rw [h.words (318, moviSize fs + 4) (by simp [finalPatches])]
    exact Nat.mod_eq_of_lt (by omega)
  have hidx : 322 + load32 file.bytes 318 = sizeofAviHeader + moviSize fs := by
    rw [hlen318]
    unfold sizeofAviHeader
    omega
  have hvideo : videoCountOf fs ≤ fs.length := List.countP_le_length
  have hb : moviBytes fs ++ idx1Bytes fs = moviBytes fs ++ (word fccIdx1 ++ (word (16 * fs.length)
      ++ encodeEntries (indexFrom sizeofAviHeader fs))) := rfl
  have hb' : moviBytes fs ++ idx1Bytes fs = (moviBytes fs ++ word fccIdx1)
      ++ (word (16 * fs.length) ++ encodeEntries (indexFrom sizeofAviHeader fs)) := by
    rw [hb, List.append_assoc]
  constructor
  case riff => rw [h.load32_kept (by decide) (by simp [finalPatches]), hriff]
  case avi => rw [h.load32_kept (by decide) (by simp [finalPatches]), havi]
  case list => rw [h.load32_kept (by decide) (by simp [finalPatches]), hlist]
  case movi => rw [h.load32_kept (by decide) (by simp [finalPatches]), hmovi]
  case riffLen =>
    rw [h.words (4, _) (by simp only [finalPatches]; exact List.mem_cons_self), hsz]
    exact Nat.mod_eq_of_lt (by omega)
  case moviLen =>
    rw [hlen318, hchunks, ← moviBytes, moviBytes_length, Nat.add_comm]
  case chunks => exact hchunks
  case idx1 =>
    have := h.load32_body hb
    rw [moviBytes_length, ← hidx] at this
    rw [this]
    decide
  case idx1Len =>
    have := h.load32_body hb'
    rw [List.length_append, word_length, moviBytes_length, ← Nat.add_assoc, ← hidx,
      Nat.mod_eq_of_lt (by omega)] at this
    rw [this, hindex, indexFrom_length]
  case idx1End =>
    rw [hidx, hindex, indexFrom_length, hsz]
  case entries =>
    rw [hindex, hchunks, indexFrom_map, moviChunks_frames, List.map_map]
    apply List.map_congr_left
    intro f _
    simp [AviFrame.size]
  case landing => exact fun _ _ hf => h.landing hok hfile hf
  case totalFrames =>
    rw [hchunks, moviChunks_video, h.words (48, videoCountOf fs) (by simp [finalPatches])]
    exact Nat.mod_eq_of_lt (by omega)

/-! ## Runs -/

namespace RecordSession

variable {x : RecordSession}

/-- After any number of calls the entries in the temporary index file and the pending ones are as
many as `index_count` says. -/
theorem Succeeds.spilled (hx : x.Succeeds) (hok : ∀ f ∈ x.frames, f.Ok) (s : AviFile) (n : ℕ) :
    16 * ((x.opened s).run (x.calls.take n)).indexCount
      = ((x.opened s).run (x.calls.take n)).idxfile.size
        + 16 * ((x.opened s).run (x.calls.take n)).preIndexPos := by
  have htake : x.calls.take n = okCalls (x.frames.take n) := by
    rw [hx.calls_eq]
    exact (List.map_take ..).symm
  have hok' : ∀ f ∈ x.frames.take n, f.Ok := fun f hf => hok f (List.mem_of_mem_take hf)
  have h := ((hx.opened_represents s).run x.header_length hok').stores
  rw [htake, h.indexCount, h.idxfile.1, h.preIndexPos, encodeEntries_length, indexFrom_length]
  omega

/-- A session that begins with a key frame is finished. -/
theorem Succeeds.finished (hx : x.Succeeds) (hok : ∀ f ∈ x.frames, f.Ok)
    (hkey : ∃ f gs, x.frames = f :: gs ∧ f.IsKey) (s : AviFile) :
    ∃ aBits, Finished x.header x.duration aBits (x.closed s).file
      (Recording.record x.frames).frames :=
  ⟨_, (close_finished hx.closeIo x.header_length (hx.run_represents hok s)
    (Recording.record_started hkey)).2⟩

/-- The finished file is no longer than one of all frames given. -/
theorem Succeeds.closed_size_le (hx : x.Succeeds) (hok : ∀ f ∈ x.frames, f.Ok)
    (hkey : ∃ f gs, x.frames = f :: gs ∧ f.IsKey) (s : AviFile) :
    (x.closed s).file.size ≤ sizeofAviHeader + moviSize x.frames + 8 + 16 * x.frames.length := by
  obtain ⟨aBits, hfin⟩ := hx.finished hok hkey s
  have hsub := Recording.record_sublist x.frames
  have hlen := hsub.length_le
  have hbytes : moviSize (Recording.record x.frames).frames ≤ moviSize x.frames :=
    (hsub.map AviFrame.chunkSize).sum_le_sum (by simp)
  rw [hfin.size]
  omega

end RecordSession

/-- **A closed recording is a well-formed AVI** of frames given to the recorder, in their order, and
at every moment of the run the two index stores together hold `index_count` entries. -/
theorem closed_wellFormed (x : RecordSession) (s : AviFile) (hx : x.Succeeds)
    (hok : ∀ f ∈ x.frames, f.Ok) (hkey : ∃ f gs, x.frames = f :: gs ∧ f.IsKey)
    (hsize : (x.closed s).file.size < 2147483648) :
    WellFormedAvi (x.closed s).file (Recording.record x.frames).frames
      ∧ (Recording.record x.frames).frames.Sublist x.frames
      ∧ ∀ n, 16 * ((x.opened s).run (x.calls.take n)).indexCount
          = ((x.opened s).run (x.calls.take n)).idxfile.size
            + 16 * ((x.opened s).run (x.calls.take n)).preIndexPos := by
  obtain ⟨aBits, hfin⟩ := hx.finished hok hkey s
  refine ⟨?_, Recording.record_sublist _, hx.spilled hok s⟩
  exact Finished.wellFormed hfin (RecordSession.record_ok hok) hsize

theorem closed_wellFormed_small :
    WellFormedAvi ((RecordSession.ofFrames RecordSession.sampleFrames).closed .zero).file
      (Recording.record (RecordSession.ofFrames RecordSession.sampleFrames).frames).frames := by
  have hx := RecordSession.ofFrames_succeeds RecordSession.sampleFrames
  have hok := RecordSession.sampleFrames_ok
  have hkey : ∃ f gs, (RecordSession.ofFrames RecordSession.sampleFrames).frames = f :: gs
      ∧ f.IsKey := ⟨_, _, rfl, Or.inl rfl⟩
  apply (closed_wellFormed _ .zero hx hok hkey _).1
  have hle := hx.closed_size_le hok hkey .zero
  have hnum : sizeofAviHeader
      + moviSize (RecordSession.ofFrames RecordSession.sampleFrames).frames + 8
      + 16 * (RecordSession.ofFrames RecordSession.sampleFrames).frames.length < 2147483648 := by
    decide
  omega
