/-
# Reading a ring

What `ReadFrame` and `CheckOverflowed` do on a ring that satisfies `RingInv`,
one lemma for each outcome.  The reader side of every later property cites
these and does not unfold the functions of `ShmRead` again.
-/
import IpCamera.RingRepresentation

/-- The contents of a frame, as `ReadFrame` hands them out. -/
def FrameRecord.data (f : FrameRecord) : FrameData where
  payload := (List.range f.len).map f.payload
  extras := (List.range shmSizeOfFrameExtras).map f.extras

variable {N M : ℕ} {r : ShmRing} {f : FrameRecord} {info : ShmInfo}

/-! ## The overflow check -/

theorem checkOverflowed_of_isFrame {m : Mem} (h : IsFrame m info.uiPos) :
    ShmRead.checkOverflowed m info = info.uiPos := by
  simp [ShmRead.checkOverflowed, h]

/-- A reader parked on a slot the writer skipped is sent to the start, if the
frame it waits for is there. -/
theorem checkOverflowed_parked {m : Mem} (h₀ : info.uiPos ≠ 0) (h : ¬ IsFrame m info.uiPos)
    (hs : info.uiSeq = frameSequence m 52) : ShmRead.checkOverflowed m info = 52 := by
  simp [ShmRead.checkOverflowed, ShmRead.isInitState, h, hs, h₀]

theorem checkOverflowed_lost {m : Mem} (hs : info.uiSeq ≠ frameSequence m 52) :
    ShmRead.checkOverflowed m info = info.uiPos := by
  simp [ShmRead.checkOverflowed, hs]

/-! ## The outcomes of a read -/

theorem readFrame_empty {m : Mem} (h : headNewestFrameSeq m = 0) (want : Bool) (bufLen : ℤ) :
    ShmRead.readFrame m want bufLen info = (shmEnumEmptySpace, none, info) := by
  simp [ShmRead.readFrame, ShmRead.isEmpty, h]

/-- A reader that has been given the newest frame gets no new frame. -/
theorem readFrame_noNewFrame {m : Mem} (h : headNewestFrameSeq m ≠ 0)
    (hs : info.uiSeq = headNewestFrameSeq m + 1) (want : Bool) (bufLen : ℤ) :
    ShmRead.readFrame m want bufLen info = (shmEnumNoNewFrame, none, info) := by
  simp [ShmRead.readFrame, ShmRead.isEmpty, h, hs]

/-- A reader whose position is no frame is reset. -/
theorem readFrame_error {m : Mem} (h : headNewestFrameSeq m ≠ 0)
    (hs : info.uiSeq ≤ headNewestFrameSeq m)
    (hpos : ¬ IsFrame m (ShmRead.checkOverflowed m info)) (want : Bool) (bufLen : ℤ) :
    ShmRead.readFrame m want bufLen info = (shmEnumError, none, ShmInfo.initial) := by
  simp [ShmRead.readFrame, ShmRead.isEmpty, h, Nat.not_lt.mpr hs, hpos]

/-- The bytes read from a frame in memory are its contents. -/
theorem FrameRecord.HeldIn.data_eq {m : Mem} (hh : f.HeldIn m) :
    (⟨loadBytes m (f.pos + shmSizeOfFrameHead) (frameSize m f.pos).toNat,
      loadBytes m (f.pos + 20) shmSizeOfFrameExtras⟩ : FrameData) = f.data := by
  have hp : loadBytes m (f.pos + shmSizeOfFrameHead) (frameSize m f.pos).toNat
      = (List.range f.len).map f.payload := by
    rw [hh.size, Int.toNat_natCast]
    exact List.map_congr_left fun i hi => hh.payload i (List.mem_range.mp hi)
  have he : loadBytes m (f.pos + 20) shmSizeOfFrameExtras
      = (List.range shmSizeOfFrameExtras).map f.extras :=
    List.map_congr_left fun i hi => hh.extras i (List.mem_range.mp hi)
  rw [hp, he]
  rfl

/-- Reading at a frame in memory that fits the buffer goes to the next, and delivers it if asked to. -/
theorem FrameRecord.HeldIn.readFrame {m : Mem} (hh : f.HeldIn m) (hne : headNewestFrameSeq m ≠ 0)
    (hs : info.uiSeq ≤ headNewestFrameSeq m) (hpos : ShmRead.checkOverflowed m info = f.pos)
    (hmax : (f.len : ℤ) ≤ headMaxFrameSize m) {bufLen : ℤ} (hbuf : f.len ≤ bufLen) (want : Bool) :
    ShmRead.readFrame m want bufLen info
      = (shmEnumGetANewFrame, if want then some f.data else none,
        ShmRead.readFrame.nextInfo m f.pos) := by
  rw [ShmRead.readFrame, if_neg (by simp [ShmRead.isEmpty, hne]), if_neg (Nat.not_lt.mpr hs)]
  simp only [hpos, if_pos hh.magic]
  rw [if_neg (by rw [hh.size]; omega), if_neg (by rw [hh.size]; omega), hh.data_eq]

theorem RingInv.len_le (inv : RingInv N M r) (hN : M + 143 < N) (hf : f ∈ r.intact) :
    (f.len : ℤ) ≤ M := by
  exact_mod_cast (inv.wellPlaced hN (inv.mem_frames hf)).len_le

/-- A reader that waits for a frame written is neither at an empty ring nor past the newest frame. -/
theorem RingInv.waits (inv : RingInv N M r) (hf : f ∈ r.frames) (hs : info.uiSeq ≤ r.frames.length) :
    headNewestFrameSeq r.bytes ≠ 0 ∧ ¬ headNewestFrameSeq r.bytes < info.uiSeq := by
  have hrange := inv.layout.seq_range hf
  rw [inv.newestSeq]
  omega

/-- Reading at an intact frame that fits the buffer goes to the next, and delivers it if asked to. -/
theorem RingInv.readFrame_steps (inv : RingInv N M r) (hN : M + 143 < N)
    (hlen : r.frames.length < 4294967294) (hf : f ∈ r.intact) (hs : info.uiSeq ≤ r.frames.length)
    (hpos : ShmRead.checkOverflowed r.bytes info = f.pos) {bufLen : ℤ} (hbuf : f.len ≤ bufLen)
    (want : Bool) :
    ShmRead.readFrame r.bytes want bufLen info
      = (shmEnumGetANewFrame, if want then some f.data else none,
        ⟨frameNextPos r.bytes f.pos, f.seq + 1⟩) := by
  have hh := inv.held f hf
  have hrange := inv.layout.seq_range (inv.mem_frames hf)
  have hle := inv.len_le hN hf
  obtain ⟨hne, hnot⟩ := inv.waits (inv.mem_frames hf) hs
  have hseq : (f.seq + 1) % 4294967296 = f.seq + 1 := Nat.mod_eq_of_lt (by omega)
  have hmax : ¬ f.seq + 1 ≥ 4294967295 := by omega
  rw [hh.readFrame hne (not_lt.mp hnot) hpos (by rwa [inv.maxFrameSize]) hbuf want]
  simp only [ShmRead.readFrame.nextInfo, hh.seq, hseq, shmFrameMaxSequence_eq, if_neg hmax]

/-- Reading at an intact frame that fits the buffer delivers it. -/
theorem RingInv.readFrame_delivers (inv : RingInv N M r) (hN : M + 143 < N)
    (hlen : r.frames.length < 4294967294) (hf : f ∈ r.intact) (hs : info.uiSeq ≤ r.frames.length)
    (hpos : ShmRead.checkOverflowed r.bytes info = f.pos) {bufLen : ℤ} (hbuf : f.len ≤ bufLen) :
    ShmRead.readFrame r.bytes true bufLen info
      = (shmEnumGetANewFrame, some f.data, ⟨frameNextPos r.bytes f.pos, f.seq + 1⟩) :=
  inv.readFrame_steps hN hlen hf hs hpos hbuf true

/-- If the buffer is too small the reader stays at the frame. -/
theorem RingInv.readFrame_tooLarge (inv : RingInv N M r) (hN : M + 143 < N)
    (hf : f ∈ r.intact) (hs : info.uiSeq ≤ r.frames.length)
    (hpos : ShmRead.checkOverflowed r.bytes info = f.pos) {bufLen : ℤ} (hbuf : bufLen < f.len) :
    ShmRead.readFrame r.bytes true bufLen info
      = (shmEnumFrameTooLarge, none, ⟨f.pos, info.uiSeq⟩) := by
  have hh := inv.held f hf
  have hrange := inv.layout.seq_range (inv.mem_frames hf)
  have hle := inv.len_le hN hf
  obtain ⟨hne, hnot⟩ := inv.waits (inv.mem_frames hf) hs
  rw [ShmRead.readFrame, if_neg (by simp [ShmRead.isEmpty, hne]), if_neg hnot]
  simp only [hpos, if_pos hh.magic, inv.maxFrameSize]
  rw [if_neg (by rw [hh.size]; omega), if_pos (by rw [hh.size]; omega)]

/-- The newest frame has the last number. -/
theorem RingInv.newest_seq (inv : RingInv N M r) {older : List FrameRecord}
    (hfr : r.frames = f :: older) : f.seq = r.frames.length := by
  have l := inv.layout
  rw [hfr] at l ⊢
  exact l.head_seq

/-- `Refresh` on a ring with frames goes to the newest one. -/
theorem RingInv.refresh (inv : RingInv N M r) (hf : f ∈ r.frames)
    (hs : f.seq = r.frames.length) :
    ShmRead.refresh r.bytes = (shmEnumOk, ⟨f.pos, f.seq⟩) := by
  have hh := inv.held f (inv.newest_intact hf hs)
  rw [ShmRead.refresh, inv.newestPos_of_seq hf hs, inv.newestSeq, if_pos hh.magic, hs]

/-- `Refresh` on an empty ring fails, but leaves the start position behind. -/
theorem RingInv.refresh_empty (inv : RingInv N M r) (hnil : r.frames = []) :
    ShmRead.refresh r.bytes = (shmEnumError, ⟨52, 0⟩) := by
  have hpos : headNewestFramePos r.bytes = 52 := by rw [inv.newestPos, hnil]; rfl
  have hcur : r.writer.uiFramePos = 52 := by rw [inv.layout.cursor_eq, hnil]; rfl
  have hno := inv.not_isFrame_cursor
  rw [hcur] at hno
  rw [ShmRead.refresh, hpos, if_neg hno, inv.newestSeq, hnil]
  rfl
