/-
# What a recording holds

`Recording` is the recorder without its bytes: the frames whose chunks are in the
file and those whose chunks are in the record buffer.  `Represents` ties it to the
handle: the file is the header and the flushed chunks, the buffer is the pending
chunks and zeros, the temporary index file and `idx_array` hold their entries, and
the counters count them.

* `Represents.write` : a call whose file operations succeed does to the handle what
  `Recording.add` does to the recording;
* `Represents.run`   : so does a sequence of calls.

`Recording.add` has the one step a recorder should not have: a frame that finds too
little room behind the pending chunks is dropped when these are flushed.
-/
import IpCamera.AviRecord

/-! ## Recordings -/

/-- The frames of a recording.  Nothing is recorded before a key frame has started it; fewer than
`dataSaveNum` frames are pending, and they fit the record buffer. -/
structure Recording where
  started : Bool
  flushed : List AviFrame
  pending : List AviFrame
  idle : started = false → flushed = [] ∧ pending = []
  pending_lt : pending.length < dataSaveNum
  room : moviSize pending ≤ recBufSize

namespace Recording

/-- A recording just opened. -/
def empty : Recording := ⟨false, [], [], fun _ => ⟨rfl, rfl⟩, by decide, by decide⟩

/-- All frames, in the order of their calls. -/
def frames (r : Recording) : List AviFrame := r.flushed ++ r.pending

/-- The frame does not fit behind the pending ones. -/
def Overflows (r : Recording) (f : AviFrame) : Prop :=
  recBufSize < moviSize r.pending + f.chunkSize

instance (r : Recording) (f : AviFrame) : Decidable (r.Overflows f) :=
  inferInstanceAs (Decidable (_ < _))

/-- Everything pending goes to the file. -/
def flush (r : Recording) : Recording :=
  ⟨true, r.flushed ++ r.pending, [], by simp, by decide, by decide⟩

/-- The frame completes the pending ones, and all of them go to the file. -/
def save (r : Recording) (f : AviFrame) : Recording :=
  ⟨true, r.flushed ++ (r.pending ++ [f]), [], by simp, by decide, by decide⟩

/-- The frame becomes pending. -/
def keep (r : Recording) (f : AviFrame) (hroom : ¬ r.Overflows f)
    (hlt : r.pending.length + 1 ≠ dataSaveNum) : Recording where
  started := true
  flushed := r.flushed
  pending := r.pending ++ [f]
  idle := by simp
  pending_lt := by
    have := r.pending_lt
    simp only [List.length_append, List.length_cons, List.length_nil]
    omega
  room := by
    unfold Overflows at hroom
    simp only [moviSize_append, moviSize_cons, moviSize_nil]
    omega

/-- One call with the frame `f`. -/
def add (r : Recording) (f : AviFrame) : Recording :=
  if r.started = false ∧ ¬ f.IsKey then r
  else if hroom : r.Overflows f then r.flush
  else if hlt : r.pending.length + 1 = dataSaveNum then r.save f
  else r.keep f hroom hlt

/-- The recording of a list of frames. -/
def record (fs : List AviFrame) : Recording := fs.foldl add empty

/-- The call returns 0. -/
def Accepts (r : Recording) (f : AviFrame) : Prop := r.started = true ∨ f.IsKey

instance (r : Recording) (f : AviFrame) : Decidable (r.Accepts f) :=
  inferInstanceAs (Decidable (_ ∨ _))

theorem not_accepts_iff (r : Recording) (f : AviFrame) :
    ¬ r.Accepts f ↔ r.started = false ∧ ¬ f.IsKey := by
  unfold Accepts
  cases r.started <;> simp

/-- What one call does to the frames. -/
theorem add_frames (r : Recording) (f : AviFrame) :
    (r.add f).frames
      = if r.Accepts f ∧ ¬ r.Overflows f then r.frames ++ [f] else r.frames := by
  unfold add
  by_cases hskip : r.started = false ∧ ¬ f.IsKey
  · rw [if_pos hskip, if_neg fun h => (not_accepts_iff r f).mpr hskip h.1]
  · have hacc : r.Accepts f := by
      by_contra h
      exact hskip ((not_accepts_iff r f).mp h)
    rw [if_neg hskip]
    by_cases hroom : r.Overflows f
    · rw [dif_pos hroom, if_neg fun h => h.2 hroom]
      show r.flushed ++ r.pending ++ [] = r.flushed ++ r.pending
      rw [List.append_nil]
    · rw [dif_neg hroom, if_pos ⟨hacc, hroom⟩]
      by_cases hlt : r.pending.length + 1 = dataSaveNum
      · rw [dif_pos hlt]
        simp [frames, save]
      · rw [dif_neg hlt]
        simp [frames, keep]

theorem add_started (r : Recording) (f : AviFrame) :
    (r.add f).started = true ↔ r.Accepts f := by
  unfold add
  by_cases hskip : r.started = false ∧ ¬ f.IsKey
  · rw [if_pos hskip]
    have := (not_accepts_iff r f).mpr hskip
    simp [this, hskip.1]
  · have hacc : r.Accepts f := by
      by_contra h
      exact hskip ((not_accepts_iff r f).mp h)
    rw [if_neg hskip]
    simp only [hacc, iff_true]
    split
    · rfl
    · split <;> rfl

theorem record_concat (fs : List AviFrame) (f : AviFrame) :
    record (fs ++ [f]) = (record fs).add f := by
  simp [record]

/-- Frames are recorded in their order, at most once. -/
theorem foldl_add_sublist (fs : List AviFrame) :
    ∀ r : Recording, (fs.foldl add r).frames.Sublist (r.frames ++ fs) := by
  induction fs with
  | nil => intro r; simp
  | cons f fs ih =>
    intro r
    have hstep : (r.add f).frames.Sublist (r.frames ++ [f]) := by
      rw [add_frames]
      split
      · exact List.Sublist.refl _
      · exact List.sublist_append_left _ _
    have h := (ih (r.add f)).trans (hstep.append_right fs)
    rwa [List.append_assoc] at h

theorem record_sublist (fs : List AviFrame) : (record fs).frames.Sublist fs :=
  foldl_add_sublist fs empty

/-- A key frame at the front starts the recording. -/
theorem record_started {fs : List AviFrame} (h : ∃ f gs, fs = f :: gs ∧ f.IsKey) :
    (record fs).started = true := by
  obtain ⟨f, gs, rfl, hkey⟩ := h
  have hmono : ∀ (gs : List AviFrame) (r : Recording), r.started = true →
      (gs.foldl add r).started = true := by
    intro gs
    induction gs with
    | nil => intro r hr; exact hr
    | cons g gs ih =>
      intro r hr
      exact ih _ ((add_started r g).mpr (Or.inl hr))
  exact hmono gs _ ((add_started empty f).mpr (Or.inr hkey))

/-- A recording that has not started holds nothing. -/
theorem frames_of_idle {r : Recording} (h : r.started = false) : r.frames = [] := by
  obtain ⟨h₁, h₂⟩ := r.idle h
  rw [frames, h₁, h₂]
  rfl

end Recording

/-! ## The handle of a recording -/

/-- The frames whose chunk is an audio chunk, and their bytes. -/
def audioBytesOf (fs : List AviFrame) : ℕ :=
  ((fs.filter fun f => ¬ f.IsVideo).map AviFrame.size).sum

/-- The number of video frames. -/
def videoCountOf (fs : List AviFrame) : ℕ := fs.countP fun f => f.IsVideo

/-- The bytes and counters of a handle: the chunks of `flushed` are in the file behind the header
`hdr`, those of `pending` in the record buffer. -/
structure Stores (hdr : List UInt8) (s : AviFile) (flushed pending : List AviFrame) : Prop where
  file : s.file.Holds (hdr ++ moviBytes flushed)
  idxfile : s.idxfile.Holds (encodeEntries (indexFrom sizeofAviHeader flushed))
  idxfilePos : s.idxfile.pos = 16 * flushed.length
  buffer : Filled recBufSize s.dataArray (moviBytes pending)
  bufOffset : s.bufOffset = moviSize pending
  bufIndex : s.bufIndex = pending.length
  idxArray : Filled 0 s.idxArray
    (encodeEntries (indexFrom (sizeofAviHeader + moviSize flushed) pending))
  preIndexPos : s.preIndexPos = pending.length
  indexCount : s.indexCount = flushed.length + pending.length
  videoCount : s.videoCount = videoCountOf (flushed ++ pending)
  audioBytes : s.audioBytes = audioBytesOf (flushed ++ pending)
  idxStores : ∀ slot ∈ s.idxStores, slot < indexArrayMaxNumber

/-- The file position and `data_offset` once the recording is open. -/
structure Positioned (s : AviFile) (flushed pending : List AviFrame) : Prop where
  filePos : s.file.pos = sizeofAviHeader + moviSize flushed
  dataOffset : s.dataOffset = sizeofAviHeader + moviSize (flushed ++ pending)

/-- The handle represents the recording. -/
structure Represents (hdr : List UInt8) (s : AviFile) (r : Recording) : Prop where
  stores : Stores hdr s r.flushed r.pending
  newFlag : s.newFlag = !r.started
  positioned : r.started = true → Positioned s r.flushed r.pending

/-! ## One frame -/

/-- `storeChunk` appends the frame's bytes to the buffer. -/
theorem storeChunk_filled {s : AviFile} {l : List UInt8} (h : Filled recBufSize s.dataArray l)
    (ho : s.bufOffset = l.length) {f : AviFrame} (hroom : l.length + f.chunkSize ≤ recBufSize) :
    Filled recBufSize (s.storeChunk f).dataArray (l ++ moviBytes [f]) := by
  have h₁ := h.storeWord ho f.ckid
  have h₂ := h₁.storeWord (show s.bufOffset + 4 = _ by simp; omega) (f.data.length + f.isAlign)
  have h₃ := h₂.copyList (show s.bufOffset + 8 = _ by simp; omega) f.data
  -- the pad byte is what the array held, a zero
  have h₄ := h₃.skip (k := f.isAlign) (by
    rw [AviFrame.chunkSize] at hroom
    simp
    omega)
  have h₅ := h₄.storeWord
    (show s.bufOffset + 8 + (f.data.length + f.isAlign) = _ by simp; omega) fccJUNK
  have h₆ := h₅.storeWord
    (show s.bufOffset + 8 + (f.data.length + f.isAlign) + 4 = _ by simp; omega) 8
  have h₇ := h₆.storeWord
    (show s.bufOffset + 8 + (f.data.length + f.isAlign) + 8 = _ by simp; omega) f.stamp.1
  have h₈ := h₇.storeWord
    (show s.bufOffset + 8 + (f.data.length + f.isAlign) + 12 = _ by simp; omega) f.stamp.2
  have hl : l ++ moviBytes [f]
      = l ++ word f.ckid ++ word (f.data.length + f.isAlign) ++ f.data
        ++ List.replicate f.isAlign 0 ++ word fccJUNK ++ word 8 ++ word f.stamp.1
        ++ word f.stamp.2 := by
    rw [moviBytes_singleton]
    simp [AviFrame.size]
  rw [hl]
  exact h₈

/-- The fields `storeChunk` sets. -/
theorem storeChunk_eq (s : AviFile) (f : AviFrame) :
    s.storeChunk f = { s with
      dataArray := (s.storeChunk f).dataArray
      bufOffset := s.bufOffset + f.chunkSize
      bufIndex := s.bufIndex + 1 } := by
  have h : s.bufOffset + f.chunkSize = s.bufOffset + 8 + (f.data.length + f.isAlign) + 16 := by
    rw [AviFrame.chunkSize]
    omega
  rw [h]
  rfl

/-- The low 32 bits of a word make its bytes. -/
theorem word_mod (v : ℕ) : word (v % 4294967296) = word v := by
  apply List.map_congr_left
  intro i hi
  have hi : i < 4 := List.mem_range.mp hi
  apply UInt8.toNat_inj.mp
  simp only [le32, Nat.zero_add, UInt8.toNat_ofNat']
  interval_cases i <;> omega

/-- Four stores from slot `4 * p` on append an index entry. -/
theorem storeInts_filled {m : Mem} {es : List IndexEntry} (h : Filled 0 m (encodeEntries es))
    {p : ℕ} (hp : p = es.length) (ckid flags offset size : ℕ) :
    Filled 0 (storeInts m (4 * p) [ckid, flags, offset, size])
      (encodeEntries (es ++ [⟨ckid, flags, offset % 4294967296, size⟩])) := by
  have h₁ := h.storeWord (show 4 * (4 * p) = _ by simp; omega) ckid
  have h₂ := h₁.storeWord (show 4 * (4 * p + 1) = _ by simp; omega) flags
  have h₃ := h₂.storeWord (show 4 * (4 * p + 1 + 1) = _ by simp; omega) offset
  have h₄ := h₃.storeWord (show 4 * (4 * p + 1 + 1 + 1) = _ by simp; omega) size
  have hl : encodeEntries (es ++ [⟨ckid, flags, offset % 4294967296, size⟩])
      = encodeEntries es ++ word ckid ++ word flags ++ word offset ++ word size := by
    simp [IndexEntry.encode, word_mod]
  rw [hl]
  exact h₄

/-- The fields `storeIndex` sets. -/
theorem storeIndex_eq (s : AviFile) (f : AviFrame) :
    s.storeIndex f = { s with
      idxArray := storeInts s.idxArray (4 * s.preIndexPos) [f.ckid, f.flags, s.dataOffset, f.size]
      idxStores := s.idxStores ++ (List.range 4).map (4 * s.preIndexPos + ·)
      videoCount := s.videoCount + videoCountOf [f]
      audioBytes := s.audioBytes + audioBytesOf [f]
      audioCount := s.audioCount + if f.IsVideo then 0 else 1
      dataOffset := s.dataOffset + f.chunkSize
      indexCount := s.indexCount + 1
      preIndexPos := s.preIndexPos + 1 } := by
  unfold AviFile.storeIndex AviFrame.ckid AviFrame.flags
  by_cases hv : f.IsVideo
  · simp [hv, AviFile.setIdx, videoCountOf, audioBytesOf, AviFrame.size]
  · simp [hv, AviFile.setIdx, videoCountOf, audioBytesOf, AviFrame.size]

theorem videoCountOf_append (fs gs : List AviFrame) :
    videoCountOf (fs ++ gs) = videoCountOf fs + videoCountOf gs := List.countP_append

theorem audioBytesOf_append (fs gs : List AviFrame) :
    audioBytesOf (fs ++ gs) = audioBytesOf fs + audioBytesOf gs := by
  simp [audioBytesOf]

section Handle

variable {hdr : List UInt8} {s : AviFile} {flushed pending : List AviFrame}

/-- The frame's chunk and entry are stored behind the pending ones. -/
theorem Stores.store (h : Stores hdr s flushed pending) (hpos : Positioned s flushed pending)
    {f : AviFrame} (hroom : moviSize pending + f.chunkSize ≤ recBufSize)
    (hlt : pending.length < dataSaveNum) :
    Stores hdr ((s.storeChunk f).storeIndex f) flushed (pending ++ [f])
      ∧ Positioned ((s.storeChunk f).storeIndex f) flushed (pending ++ [f])
      ∧ ((s.storeChunk f).storeIndex f).newFlag = s.newFlag := by
  rw [storeIndex_eq, storeChunk_eq]
  have hidx := storeInts_filled h.idxArray (p := s.preIndexPos) (by simp [h.preIndexPos])
    f.ckid f.flags s.dataOffset f.size
  -- the offset stored is where the frame will lie in the file
  have hentry : indexFrom (sizeofAviHeader + moviSize flushed) (pending ++ [f])
      = indexFrom (sizeofAviHeader + moviSize flushed) pending
        ++ [⟨f.ckid, f.flags, s.dataOffset % 4294967296, f.size⟩] := by
    rw [indexFrom_append, hpos.dataOffset, moviSize_append, ← Nat.add_assoc]
    rfl
  refine ⟨?_, ?_, rfl⟩
  · constructor
    case file => exact h.file
    case idxfile => exact h.idxfile
    case idxfilePos => exact h.idxfilePos
    case buffer =>
      rw [moviBytes_append]
      exact storeChunk_filled h.buffer (by rw [h.bufOffset, moviBytes_length])
        (by rwa [moviBytes_length])
    case bufOffset =>
      show s.bufOffset + f.chunkSize = _
      rw [h.bufOffset]
      simp
    case bufIndex =>
      show s.bufIndex + 1 = _
      rw [h.bufIndex]
      simp
    case idxArray =>
      rw [hentry]
      exact hidx
    case preIndexPos =>
      show s.preIndexPos + 1 = _
      rw [h.preIndexPos]
      simp
    case indexCount =>
      show s.indexCount + 1 = _
      rw [h.indexCount]
      simp [Nat.add_assoc]
    case videoCount =>
      show s.videoCount + videoCountOf [f] = _
      rw [h.videoCount, ← videoCountOf_append, List.append_assoc]
    case audioBytes =>
      show s.audioBytes + audioBytesOf [f] = _
      rw [h.audioBytes, ← audioBytesOf_append, List.append_assoc]
    case idxStores =>
      intro slot hslot
      rcases List.mem_append.mp hslot with hslot | hslot
      · exact h.idxStores slot hslot
      · obtain ⟨j, hj, rfl⟩ := List.mem_map.mp hslot
        have hj := List.mem_range.mp hj
        have hp : s.preIndexPos = pending.length := h.preIndexPos
        show 4 * s.preIndexPos + j < 2048
        unfold dataSaveNum at hlt
        omega
  · constructor
    · exact hpos.filePos
    · show s.dataOffset + f.chunkSize = _
      rw [hpos.dataOffset]
      simp [Nat.add_assoc]

/-- Frames take up bytes. -/
theorem moviSize_pos {fs : List AviFrame} (h : fs ≠ []) : 0 < moviSize fs := by
  cases fs with
  | nil => exact absurd rfl h
  | cons f fs =>
    rw [moviSize_cons, AviFrame.chunkSize]
    omega

theorem Filled.loadBytes_eq {N n : ℕ} {m : Mem} {l : List UInt8} (h : Filled N m l)
    (hn : n = l.length) : loadBytes m 0 n = l := by
  rw [hn, h.front]

/-- The flush: entries and chunks of the pending frames leave for the files. -/
theorem Stores.writeData (h : Stores hdr s flushed pending) (hpos : Positioned s flushed pending)
    (hhdr : hdr.length = sizeofAviHeader) (hne : pending ≠ [])
    (hle : pending.length ≤ dataSaveNum) :
    (s.writeData .ok).1 = 0
      ∧ Stores hdr (s.writeData .ok).2 (flushed ++ pending) []
      ∧ Positioned (s.writeData .ok).2 (flushed ++ pending) []
      ∧ (s.writeData .ok).2.newFlag = s.newFlag := by
  have hlen : 0 < pending.length := List.length_pos_iff.mpr hne
  have hcount : (if s.preIndexPos > dataSaveNum then dataSaveNum else s.preIndexPos)
      = pending.length := by
    rw [h.preIndexPos, if_neg (by omega)]
  -- both writes are complete
  have hidx : s.idxfile.fwrite s.idxArray (pending.length * oneIndexSize) .full
      = (true, s.idxfile.put s.idxArray (pending.length * oneIndexSize)) :=
    StdioFile.fwrite_full _ (by unfold oneIndexSize; omega)
  have hdata : s.file.fwrite s.dataArray s.bufOffset .full
      = (true, s.file.put s.dataArray s.bufOffset) := by
    have := moviSize_pos hne
    exact StdioFile.fwrite_full _ (by rw [h.bufOffset]; omega)
  have hrun : s.writeData .ok = (0, { s with
      bufIndex := 0
      idxfile := s.idxfile.put s.idxArray (pending.length * oneIndexSize)
      preIndexPos := 0
      file := s.file.put s.dataArray s.bufOffset
      dataArray := memset s.dataArray 0 0 recBufSize
      bufOffset := 0 }) := by
    unfold AviFile.writeData AviFile.writeIdxfile AviFile.writeFile WriteIo.ok
    simp only [hcount, hidx, hdata]
  -- the pending frames are in the file now, and the buffer starts over
  rw [hrun]
  refine ⟨rfl, ?_, ?_, rfl⟩
  · constructor
    case file =>
      have := h.file.put (by rw [hpos.filePos, List.length_append, hhdr, moviBytes_length])
        s.dataArray s.bufOffset
      rw [h.buffer.loadBytes_eq (by rw [h.bufOffset, moviBytes_length])] at this
      rw [moviBytes_append, ← List.append_assoc]
      exact this
    case idxfile =>
      have := h.idxfile.put (by rw [h.idxfilePos, encodeEntries_length, indexFrom_length])
        s.idxArray (pending.length * oneIndexSize)
      rw [h.idxArray.loadBytes_eq (by
        rw [encodeEntries_length, indexFrom_length, oneIndexSize, Nat.mul_comm])] at this
      rw [indexFrom_append, encodeEntries_append]
      exact this
    case idxfilePos =>
      show s.idxfile.pos + pending.length * oneIndexSize = _
      rw [h.idxfilePos, List.length_append, oneIndexSize]
      omega
    case buffer => exact Filled.clear _ _
    case bufOffset => rfl
    case bufIndex => rfl
    case idxArray => exact ⟨rfl, fun x _ hx => absurd hx (Nat.not_lt_zero x)⟩
    case preIndexPos => rfl
    case indexCount =>
      show s.indexCount = _
      rw [h.indexCount, List.length_append]
      rfl
    case videoCount =>
      show s.videoCount = _
      rw [h.videoCount, List.append_nil]
    case audioBytes =>
      show s.audioBytes = _
      rw [h.audioBytes, List.append_nil]
    case idxStores => exact h.idxStores
  · constructor
    · show s.file.pos + s.bufOffset = _
      rw [hpos.filePos, h.bufOffset, moviSize_append, Nat.add_assoc]
    · show s.dataOffset = _
      rw [hpos.dataOffset, List.append_nil]

end Handle

/-! ## One call -/

section Calls

variable {hdr : List UInt8} {s : AviFile} {r : Recording} {f : AviFrame}

theorem Stores.overflows_iff (h : Stores hdr s r.flushed r.pending) (f : AviFrame) :
    s.Overflows f ↔ r.Overflows f := by
  unfold AviFile.Overflows Recording.Overflows AviFrame.chunkSize
  rw [h.bufOffset]
  omega

/-- A frame that fits an empty buffer overflows only one that is not empty. -/
theorem Recording.Overflows.pending_ne (h : r.Overflows f) (hok : f.Ok) : r.pending ≠ [] := by
  intro hnil
  have := hok.fits
  unfold Recording.Overflows at h
  rw [hnil, moviSize_nil] at h
  omega

/-- The call can do something with the frame: flush what is pending, or store the frame. -/
structure Recording.Takes (r : Recording) (f : AviFrame) : Prop where
  pending_ne : r.Overflows f → r.pending ≠ []
  kind : ¬ r.Overflows f → f.IsVideo ∨ f.IsAudio

theorem AviFrame.Ok.takes (hok : f.Ok) (r : Recording) : r.Takes f :=
  ⟨fun h => h.pending_ne hok, fun _ => hok.kind⟩

/-- The handle after the frame has been dealt with, the recording being open. -/
theorem storeFrame_represents (hhdr : hdr.length = sizeofAviHeader)
    (h : Stores hdr s r.flushed r.pending) (hpos : Positioned s r.flushed r.pending)
    (hnew : s.newFlag = false) (htakes : r.Takes f) (hacc : r.Accepts f) :
    (s.storeFrame f .ok).1 = 0 ∧ Represents hdr (s.storeFrame f .ok).2 (r.add f) := by
  have hskip : ¬ (r.started = false ∧ ¬ f.IsKey) := fun hs => (r.not_accepts_iff f).mpr hs hacc
  by_cases hroom : r.Overflows f
  · -- the flush alone
    have hadd : r.add f = r.flush := by rw [Recording.add, if_neg hskip, dif_pos hroom]
    obtain ⟨hret, hst, hp, hn⟩ := h.writeData hpos hhdr (htakes.pending_ne hroom) r.pending_lt.le
    rw [AviFile.storeFrame, if_pos ((h.overflows_iff f).mpr hroom), hadd]
    exact ⟨hret, hst, by rw [hn, hnew]; rfl, fun _ => hp⟩
  · have hroom' : moviSize r.pending + f.chunkSize ≤ recBufSize := by
      unfold Recording.Overflows at hroom
      omega
    obtain ⟨hst, hp, hn⟩ := h.store hpos hroom' r.pending_lt
    have hcount : ((s.storeChunk f).storeIndex f).bufIndex = r.pending.length + 1 := by
      rw [hst.bufIndex]
      simp
    rw [AviFile.storeFrame, if_neg (fun ho => hroom ((h.overflows_iff f).mp ho)), if_pos (htakes.kind hroom)]
    show (if _ then _ else _ : ℤ × AviFile).1 = 0 ∧ Represents hdr (if _ then _ else _ : ℤ × AviFile).2 _
    by_cases hlt : r.pending.length + 1 = dataSaveNum
    · -- the frame fills the buffer, and all of it is flushed
      have hadd : r.add f = r.save f := by
        rw [Recording.add, if_neg hskip, dif_neg hroom, dif_pos hlt]
      obtain ⟨hret, hst, hp, hn'⟩ := hst.writeData hp hhdr (by simp) (by simp; omega)
      rw [if_pos (by rw [hcount, hlt]), hadd]
      exact ⟨hret, hst, by rw [hn', hn, hnew]; rfl, fun _ => hp⟩
    · have hadd : r.add f = r.keep f hroom hlt := by
        rw [Recording.add, if_neg hskip, dif_neg hroom, dif_neg hlt]
      rw [if_neg (by rw [hcount]; exact hlt), hadd]
      exact ⟨rfl, hst, by rw [hn, hnew]; rfl, fun _ => hp⟩

theorem recordResult_of_nonneg {p : ℤ × AviFile} (h : 0 ≤ p.1) : recordResult p = p := by
  obtain ⟨ret, s⟩ := p
  exact if_neg (not_lt.mpr h)

/-- A successful call does to the handle what `add` does to the recording. -/
theorem Represents.write_takes (h : Represents hdr s r) (hhdr : hdr.length = sizeofAviHeader)
    (htakes : r.Accepts f → r.Takes f) :
    (aviRecordFrame s f .ok).1 = (if r.Accepts f then 0 else 1)
      ∧ Represents hdr (aviRecordFrame s f .ok).2 (r.add f) := by
  have hstored : ∀ s' : AviFile, (s'.storeFrame f .ok).1 = 0 →
      recordResult (s'.storeFrame f .ok) = s'.storeFrame f .ok := by
    intro s' hs'
    exact recordResult_of_nonneg (by rw [hs'])
  unfold aviRecordFrame aviWriteFrame
  rw [if_neg (by simp [WriteIo.ok])]
  cases hstart : r.started with
  | true =>
    have hnew : s.newFlag = false := by rw [h.newFlag, hstart]; rfl
    have hacc : r.Accepts f := Or.inl hstart
    obtain ⟨hret, hrep⟩ := storeFrame_represents hhdr h.stores (h.positioned hstart) hnew
      (htakes hacc) hacc
    rw [if_neg (by simp [hnew]), hstored s hret, if_pos hacc]
    exact ⟨hret, hrep⟩
  | false =>
    have hnew : s.newFlag = true := by rw [h.newFlag, hstart]; rfl
    obtain ⟨hfl, hpe⟩ := r.idle hstart
    rw [if_pos hnew]
    by_cases hkey : f.IsKey
    · have hacc : r.Accepts f := Or.inr hkey
      have hst : Stores hdr s.reopen r.flushed r.pending := { h.stores with }
      have hp : Positioned s.reopen r.flushed r.pending := by
        rw [hfl, hpe]
        exact ⟨rfl, rfl⟩
      obtain ⟨hret, hrep⟩ := storeFrame_represents hhdr hst hp rfl (htakes hacc) hacc
      rw [if_pos hkey, if_neg (by simp [WriteIo.ok]), hstored s.reopen hret, if_pos hacc]
      exact ⟨hret, hrep⟩
    · have hadd : r.add f = r := by rw [Recording.add, if_pos ⟨hstart, hkey⟩]
      rw [if_neg hkey, if_neg ((r.not_accepts_iff f).mpr ⟨hstart, hkey⟩), hadd]
      exact ⟨rfl, h⟩

/-- A successful call with a frame that fits does to the handle what `add` does to the recording. -/
theorem Represents.write (h : Represents hdr s r) (hhdr : hdr.length = sizeofAviHeader)
    (hok : f.Ok) :
    (aviRecordFrame s f .ok).1 = (if r.Accepts f then 0 else 1)
      ∧ Represents hdr (aviRecordFrame s f .ok).2 (r.add f) :=
  h.write_takes hhdr fun _ => hok.takes r

end Calls

/-- A sequence of successful calls. -/
theorem Represents.run {hdr : List UInt8} (hhdr : hdr.length = sizeofAviHeader)
    {fs : List AviFrame} (hok : ∀ f ∈ fs, f.Ok) :
    ∀ {s : AviFile} {r : Recording}, Represents hdr s r →
      Represents hdr (s.run (okCalls fs)) (fs.foldl Recording.add r) := by
  induction fs with
  | nil => intro s r h; exact h
  | cons f fs ih =>
    intro s r h
    exact ih (fun g hg => hok g (by simp [hg])) (h.write hhdr (hok f (by simp))).2

/-! ## Opening -/

/-- The handle after an open whose file operations succeed. -/
theorem aviNormalRecordOpen_eq (s : AviFile) (date : String) {io : OpenIo} (hio : io.AllOk)
    (hmode : recordIsFixedDuration s.initParam.mode = true) :
    aviNormalRecordOpen s date io = (0, { s with
      dataOffset := sizeofAviHeader
      videoCount := 0
      audioBytes := 0
      indexCount := 0
      filename := grdSdMountPoint ++ "/" ++ date ++ "/" ++ toString s.start
      file := StdioFile.create.put (listMem (aviHeader s.initParam 0 0)) sizeofAviHeader
      idxfile := .create
      idxfilename := grdSdMountPoint ++ "/" ++ toString s.start
      aBits := headerBits s.initParam
      newFlag := true
      dataArray := memset s.dataArray 0 0 recBufSize
      bufOffset := 0
      bufIndex := 0 }) := by
  have hwrite := StdioFile.fwrite_full (f := .create) (listMem (aviHeader s.initParam 0 0))
    (show sizeofAviHeader ≠ 0 by decide)
  unfold aviNormalRecordOpen aviWriteHeader AviFile.writeFile
  simp only [hmode, Bool.true_eq_false, and_false, if_false, runSteps, checkSd, hio.sd, hio.dir,
    hio.file, hio.idx, hio.header, hwrite]

/-- A recording just opened is empty. -/
theorem aviNormalRecordOpen_represents {s : AviFile} (date : String) {io : OpenIo} (hio : io.AllOk)
    (hmode : recordIsFixedDuration s.initParam.mode = true) (hpre : s.preIndexPos = 0)
    (hstores : s.idxStores = []) :
    (aviNormalRecordOpen s date io).1 = 0
      ∧ Represents (aviHeader s.initParam 0 0) (aviNormalRecordOpen s date io).2 .empty := by
  rw [aviNormalRecordOpen_eq s date hio hmode]
  refine ⟨rfl, ?_, rfl, fun h => absurd h (by decide)⟩
  constructor
  case file =>
    have hl := loadBytes_listMem (aviHeader s.initParam 0 0)
    rw [aviHeader_length] at hl
    have := StdioFile.create_holds.put rfl (listMem (aviHeader s.initParam 0 0)) sizeofAviHeader
    rw [hl] at this
    show StdioFile.Holds _ (aviHeader s.initParam 0 0 ++ [])
    rw [List.append_nil]
    exact this
  case idxfile => exact StdioFile.create_holds
  case idxfilePos => rfl
  case buffer => exact Filled.clear _ _
  case bufOffset => rfl
  case bufIndex => rfl
  case idxArray => exact ⟨rfl, fun x _ hx => absurd hx (Nat.not_lt_zero x)⟩
  case preIndexPos => exact hpre
  case indexCount => rfl
  case videoCount => rfl
  case audioBytes => rfl
  case idxStores =>
    show ∀ slot ∈ s.idxStores, _
    rw [hstores]
    intro slot hslot
    cases hslot

/-- The header a recording of `duration` seconds is opened with. -/
def startHeader (duration frameRate : ℕ) : List UInt8 :=
  aviHeader { initRecParam with duration := duration, fps := frameRate } 0 0

theorem startHeader_length (duration frameRate : ℕ) :
    (startHeader duration frameRate).length = sizeofAviHeader := aviHeader_length _ 0 0

theorem recordNormalStart_represents {s : AviFile} {recordDuration : ℕ} (frameRate : ℕ)
    (date : String) {io : OpenIo} (hio : io.AllOk) (hdur : 0 < recordDuration)
    (hpre : s.preIndexPos = 0) (hstores : s.idxStores = []) :
    (recordNormalStart s recordDuration frameRate date io).1 = 0
      ∧ Represents (startHeader recordDuration frameRate)
          (recordNormalStart s recordDuration frameRate date io).2 .empty := by
  unfold recordNormalStart
  rw [if_pos hdur]
  exact aviNormalRecordOpen_represents date hio (show recordIsFixedDuration 2 = true by decide)
    hpre hstores
