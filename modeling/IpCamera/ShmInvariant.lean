/-
# The ring writer refines the placement rule

The memory side of `WriteFrame`.  `FrameStored` says once what the stores of an
accepted call do to the bytes of the segment; `RingInv` relates a ring to the
abstract level of `RingLayout`: the history and the cursor form a `Layout`, and
every intact frame is in memory as it was written, linked to its neighbours.

`RingInv.write` is the step lemma and `ringInv_run` the run lemma; all later
properties of the ring go through them.
-/
import IpCamera.RingLayout

/-! ## Position arithmetic -/

/-- Below the `uint` range the complement rounds up to a multiple of four. -/
theorem nextFramePos_eq {pos len : ℕ} (hp : 4 ∣ pos) (hlt : pos + len + 47 < 4294967296) :
    nextFramePos pos len = pos + 44 + alignedLen len := by
  have hu : u32 (pos + len + 44) = pos + len + 44 := u32_of_lt (by omega)
  have hand : ∀ n : ℕ, n &&& 3 = n % 4 := fun n => Nat.and_two_pow_sub_one_eq_mod n 2
  simp only [nextFramePos, shmSizeOfFrameHead_eq, hu, hand]
  norm_num
  unfold u32 alignedLen
  omega

/-! ## The stores of an accepted call -/

/-- What storing a frame of `len` bytes at `pos` does to the memory `m`. -/
structure FrameStored (m : Mem) (pos next seq : ℕ) (pcBuf : ℕ → UInt8) (len : ℕ)
    (pcExtras : ℕ → UInt8) (m' : Mem) : Prop where
  magic : frameMagic m' pos = headMagic m
  prevPos : framePrevPos m' pos = headNewestFramePos m
  nextPos : frameNextPos m' pos = next
  sequence : frameSequence m' pos = seq
  size : load32 m' (pos + 16) = len
  extras : ∀ i < 24, frameExtras m' pos i = pcExtras i
  payload : ∀ i < len, framePayload m' pos i = pcBuf i
  cleared : ∀ i < 44, m' (next + i) = 0
  newestPos : headNewestFramePos m' = pos
  newestSeq : headNewestFrameSeq m' = seq
  unchanged : ∀ x, (x < 4 ∨ 12 ≤ x) → (x < pos ∨ pos + 44 + len ≤ x) →
    (x < next ∨ next + 44 ≤ x) → m' x = m x

theorem storeFrame_stored (s : ShmSegment) {pos next seq len : ℕ} (pcBuf pcExtras : ℕ → UInt8)
    (hpos : 12 ≤ pos) (hnext : 12 ≤ next) (hd : pos + 44 + len ≤ next ∨ next + 44 ≤ pos)
    (hpos' : pos < 4294967296) (hnext' : next < 4294967296) (hseq' : seq < 4294967296)
    (hlen' : len < 4294967296) :
    FrameStored s.bytes pos next seq pcBuf len pcExtras
      (s.storeFrame pos next seq pcBuf len pcExtras).bytes := by
  have hprev : load32 s.bytes 4 < 4294967296 := load32_lt _ _
  have hmagic : load32 s.bytes 0 < 4294967296 := load32_lt _ _
  constructor
  case magic | prevPos | nextPos | sequence | size | newestPos | newestSeq =>
    simp (disch := omega) only [frameMagic, framePrevPos, frameNextPos, frameSequence,
      headMagic, headNewestFramePos, headNewestFrameSeq, ShmSegment.storeFrame, ShmSegment.copy,
      ShmSegment.clear, ShmSegment.put, shmSizeOfFrameHead_eq, shmSizeOfFrameExtras_eq,
      load32_store32, load32_store32_outside, load32_memcpy_outside, load32_memset_outside]
  case extras =>
    intro i hi
    simp (disch := omega) only [frameExtras, ShmSegment.storeFrame, ShmSegment.copy,
      ShmSegment.clear, ShmSegment.put, shmSizeOfFrameHead_eq, shmSizeOfFrameExtras_eq,
      store32_outside, memcpy_add]
  case payload =>
    intro i hi
    simp (disch := omega) only [framePayload, ShmSegment.storeFrame, ShmSegment.copy,
      ShmSegment.clear, ShmSegment.put, shmSizeOfFrameHead_eq, shmSizeOfFrameExtras_eq,
      store32_outside, memcpy_outside, memset_outside, memcpy_add]
  case cleared =>
    intro i hi
    simp (disch := omega) only [ShmSegment.storeFrame, ShmSegment.copy,
      ShmSegment.clear, ShmSegment.put, shmSizeOfFrameHead_eq, shmSizeOfFrameExtras_eq,
      store32_outside, memcpy_outside, memset_inside]
  case unchanged =>
    intro x h₁ h₂ h₃
    simp (disch := omega) only [ShmSegment.storeFrame, ShmSegment.copy,
      ShmSegment.clear, ShmSegment.put, shmSizeOfFrameHead_eq, shmSizeOfFrameExtras_eq,
      store32_outside, memcpy_outside, memset_outside]

/-- The link of a frame that the stores do not hit. -/
theorem FrameStored.nextPos_kept {m m' : Mem} {f g : FrameRecord} {seq : ℕ}
    {pcBuf pcExtras : ℕ → UInt8} (st : FrameStored m g.pos g.slot seq pcBuf g.len pcExtras m')
    (hno : ¬ g.Overwrites f) (hstart : 52 ≤ f.pos) :
    frameNextPos m' f.pos = frameNextPos m f.pos := by
  have hgl : g.endPos = g.pos + 44 + g.len := rfl
  have hfl : f.endPos = f.pos + 44 + f.len := rfl
  refine load32_congr fun x h₁ h₂ => st.unchanged x (by omega) ?_ ?_
  · by_contra hc
    exact hno (Or.inl ⟨by omega, by omega⟩)
  · by_contra hc
    exact hno (Or.inr ⟨by omega, by rw [shmSizeOfFrameHead_eq]; omega⟩)

/-- The blocks an accepted call stores to, apart from the patched link. -/
theorem storeFrame_touched (s : ShmSegment) (pos next seq len : ℕ) (pcBuf pcExtras : ℕ → UInt8) :
    (s.storeFrame pos next seq pcBuf len pcExtras).touched =
      [(8, 4), (4, 4), (pos + 20, 24), (pos, 4), (pos + 4, 4), (pos + 8, 4), (pos + 12, 4),
        (pos + 16, 4), (next, 44), (pos + 44, len)] ++ s.touched := rfl

/-! ## The writer by itself -/

/-- What one call needs of the writer, however many frames came before. -/
structure WriterInv (N M : ℕ) (w : ShmWrite) : Prop where
  cursor : CursorRoom N w.uiFramePos
  size : w.iShmSize = N
  maxFrameSize : headMaxFrameSize w.segment.bytes = M
  sequence : w.uiFrameSeq < 4294967295
  newestPos : 52 ≤ headNewestFramePos w.segment.bytes
    ∧ headNewestFramePos w.segment.bytes + 44 ≤ N

namespace WriterInv

variable {N M : ℕ} {w : ShmWrite}

/-- The position decision is the placement rule. -/
theorem placeFrame_cases (inv : WriterInv N M w) (hN : M + 143 < N) (hN' : N < 2147483648)
    {len : ℕ} (hlen : len ≤ M) :
    ∃ seg pos next, w.placeFrame len = (seg, pos, next)
      ∧ Placement N w.uiFramePos len pos next
      ∧ (seg = w.segment ∧ pos = w.uiFramePos
        ∨ seg = w.segment.put (headNewestFramePos w.segment.bytes + 8) 52 ∧ pos = 52
          ∧ N ≤ w.uiFramePos + 44 + alignedLen len) := by
  obtain ⟨hc₁, -, hc₂⟩ := inv.cursor
  have hlt := alignedLen_lt len
  have hnext : nextFramePos w.uiFramePos len = w.uiFramePos + 44 + alignedLen len :=
    nextFramePos_eq hc₁ (by omega)
  have hstart : nextFramePos 52 len = 96 + alignedLen len := by
    rw [nextFramePos_eq (by omega) (by omega)]
  unfold ShmWrite.placeFrame
  simp only [hnext, inv.size, shmFrameStartPosition_eq, shmSizeOfFrameHead_eq, hstart]
  split_ifs with h₁ h₂
  · exact ⟨_, _, _, rfl, .restart h₁, .inr ⟨rfl, rfl, h₁⟩⟩
  · rw [u32_of_lt (by omega)] at h₂
    exact ⟨_, _, _, rfl, .last (by omega) h₂, .inl ⟨rfl, rfl⟩⟩
  · rw [u32_of_lt (by omega)] at h₂
    exact ⟨_, _, _, rfl, .advance (by omega), .inl ⟨rfl, rfl⟩⟩

theorem nextSequence_of_lt {n : ℕ} (h : n + 1 < 4294967295) : nextSequence n = n + 1 := by
  simp only [nextSequence, u32_of_lt (show n + 1 < 4294967296 by omega), shmFrameMaxSequence_eq]
  rw [if_neg (by omega)]

theorem nextSequence_bounds {n : ℕ} (h : n < 4294967295) :
    1 ≤ nextSequence n ∧ nextSequence n < 4294967295 := by
  simp only [nextSequence, u32_of_lt (show n + 1 < 4294967296 by omega), shmFrameMaxSequence_eq]
  split_ifs <;> omega

/-- An accepted call stores a frame by the placement rule, disjoint from the slot
it clears, after it has patched the link of the newest frame if it restarts. -/
theorem writeFrame_stored (inv : WriterInv N M w) (hN : M + 143 < N) (hN' : N < 2147483648)
    {iBufLen : ℤ} (h₀ : 0 < iBufLen) (h₁ : iBufLen ≤ M) (pcBuf pcExtras : ℕ → UInt8) :
    ∃ seg pos next,
      w.writeFrame pcBuf iBufLen pcExtras = (shmEnumOk,
        { segment := seg.storeFrame pos next (nextSequence w.uiFrameSeq) pcBuf iBufLen.toNat
            pcExtras
          iShmSize := w.iShmSize
          uiFramePos := next
          uiFrameSeq := nextSequence w.uiFrameSeq })
      ∧ Placement N w.uiFramePos iBufLen.toNat pos next
      ∧ (seg = w.segment ∧ pos = w.uiFramePos
        ∨ seg = w.segment.put (headNewestFramePos w.segment.bytes + 8) 52 ∧ pos = 52
          ∧ N ≤ w.uiFramePos + 44 + alignedLen iBufLen.toNat)
      ∧ (52 ≤ pos ∧ 52 ≤ next ∧ next + 44 ≤ N ∧ pos + 44 + iBufLen.toNat ≤ N
        ∧ (pos + 44 + iBufLen.toNat ≤ next ∨ next + 44 ≤ pos))
      ∧ FrameStored seg.bytes pos next (nextSequence w.uiFrameSeq) pcBuf iBufLen.toNat pcExtras
        (seg.storeFrame pos next (nextSequence w.uiFrameSeq) pcBuf iBufLen.toNat pcExtras).bytes := by
  have hlen : iBufLen.toNat ≤ M := by omega
  have hpos : 0 < iBufLen.toNat := by omega
  obtain ⟨seg, pos, next, hplace, place, hseg⟩ := inv.placeFrame_cases hN hN' hlen
  have hseq := nextSequence_bounds inv.sequence
  have hwrite : w.writeFrame pcBuf iBufLen pcExtras = (shmEnumOk,
      { segment := seg.storeFrame pos next (nextSequence w.uiFrameSeq) pcBuf iBufLen.toNat pcExtras
        iShmSize := w.iShmSize
        uiFramePos := next
        uiFrameSeq := nextSequence w.uiFrameSeq }) := by
    rw [ShmWrite.writeFrame, if_neg (by omega), if_neg (by rw [inv.maxFrameSize]; omega)]
    simp only [hplace]
  -- the frame and its cleared slot are disjoint and inside the segment
  obtain ⟨hc₁, hc₂, hc₃⟩ := inv.cursor
  have hlt := alignedLen_lt iBufLen.toNat
  have hle := le_alignedLen iBufLen.toNat
  have hgeo : 52 ≤ pos ∧ 52 ≤ next ∧ next + 44 ≤ N ∧ pos + 44 + iBufLen.toNat ≤ N
      ∧ (pos + 44 + iBufLen.toNat ≤ next ∨ next + 44 ≤ pos) := by
    cases place <;> omega
  obtain ⟨hg₁, hg₂, hg₃, hg₄, hg₅⟩ := hgeo
  exact ⟨seg, pos, next, hwrite, place, hseg, ⟨hg₁, hg₂, hg₃, hg₄, hg₅⟩,
    storeFrame_stored seg pcBuf pcExtras (by omega) (by omega) hg₅ (by omega) (by omega)
      (by omega) (by omega)⟩

end WriterInv

/-! ## The invariant -/

/-- The ring of a segment of `N` bytes for frames of at most `M` bytes. -/
structure RingInv (N M : ℕ) (r : ShmRing) : Prop where
  layout : Layout N M r.frames r.writer.uiFramePos
  size : r.writer.iShmSize = N
  magic : headMagic r.bytes = shmFrameMagicNum
  maxFrameSize : headMaxFrameSize r.bytes = M
  sequence : r.writer.uiFrameSeq = r.frames.length
  newestPos : headNewestFramePos r.bytes = (r.frames.head?.map FrameRecord.pos).getD 52
  newestSeq : headNewestFrameSeq r.bytes = r.frames.length
  held : ∀ f ∈ r.intact, f.HeldIn r.bytes
  nextLink : ∀ f ∈ r.intact, ∀ g ∈ r.frames, g.seq = f.seq + 1 →
    frameNextPos r.bytes f.pos = g.pos
  lastLink : ∀ f ∈ r.frames, f.seq = r.frames.length → frameNextPos r.bytes f.pos = f.slot
  prevLink : ∀ g ∈ r.intact, ∀ f ∈ r.frames, g.seq = f.seq + 1 →
    framePrevPos r.bytes g.pos = f.pos
  firstLink : ∀ g ∈ r.intact, g.seq = 1 → framePrevPos r.bytes g.pos = g.pos
  cleared : ∀ i < 44, r.bytes (r.writer.uiFramePos + i) = 0
  touched : ∀ t ∈ r.writer.segment.touched, t.1 + t.2 ≤ N

/-! ## The constructor -/

theorem ringInv_create (old : Mem) (info : ℕ → UInt8) {N M : ℕ} (hN : M + 143 < N)
    (hN' : N < 2147483648) : RingInv N M (ShmRing.create old N M info) := by
  have hbytes : ∀ x, 52 ≤ x → x < N → (ShmRing.create old N M info).bytes x = 0 := by
    intro x h₁ h₂
    simp (disch := omega) only [ShmRing.bytes, ShmRing.create, ShmWrite.create,
      ShmSegment.copy, ShmSegment.clear, ShmSegment.put, shmSizeOfUserDefinedInfo_eq,
      memcpy_outside, store32_outside, memset_inside]
  have hword : headMagic (ShmRing.create old N M info).bytes = shmFrameMagicNum
      ∧ headMaxFrameSize (ShmRing.create old N M info).bytes = M
      ∧ headNewestFramePos (ShmRing.create old N M info).bytes = 52
      ∧ headNewestFrameSeq (ShmRing.create old N M info).bytes = 0 := by
    refine ⟨?_, ?_, ?_, ?_⟩ <;>
      simp (disch := omega) only [headMagic, headMaxFrameSize, headNewestFramePos,
        headNewestFrameSeq, ShmRing.bytes, ShmRing.create, ShmWrite.create, ShmSegment.copy,
        ShmSegment.clear, ShmSegment.put, shmSizeOfUserDefinedInfo_eq, shmFrameMagicNum_eq,
        shmFrameStartPosition_eq, shmFrameInitialSequence_eq, load32_memcpy_outside,
        load32_store32_outside, load32_store32, toInt32_natCast]
  obtain ⟨hmagic, hmax, hpos, hseq⟩ := hword
  exact {
    layout := .empty
    size := rfl
    magic := hmagic
    maxFrameSize := hmax
    sequence := rfl
    newestPos := hpos
    newestSeq := hseq
    held := by rintro f ⟨⟩
    nextLink := by rintro f ⟨⟩
    lastLink := by rintro f ⟨⟩
    prevLink := by rintro f ⟨⟩
    firstLink := by rintro f ⟨⟩
    cleared := fun i hi => hbytes _ (Nat.le_add_right 52 i) (by
      show 52 + i < N
      omega)
    touched := by
      intro t ht
      simp only [ShmRing.create, ShmWrite.create, ShmSegment.copy, ShmSegment.clear,
        ShmSegment.put, List.mem_cons, List.not_mem_nil, or_false,
        shmSizeOfUserDefinedInfo_eq] at ht
      rcases ht with rfl | rfl | rfl | rfl | rfl | rfl | rfl <;> dsimp only <;> omega }

/-! ## One call -/

/-- What an accepted call does: it puts the record `g`, by the placement rule, on
top of the history.  `m` is the memory after the link of the newest frame has
been patched (when the writer restarts) and before the frame is stored. -/
structure Accepted (N M : ℕ) (r : ShmRing) (c : WriteCall) (g : FrameRecord) (m : Mem) :
    Prop where
  len : (g.len : ℤ) = c.iBufLen
  len_pos : 0 < g.len
  len_le : g.len ≤ M
  payload : g.payload = c.pcBuf
  extras : g.extras = c.pcExtras
  seq : g.seq = r.frames.length + 1
  place : Placement N r.writer.uiFramePos g.len g.pos g.slot
  patched : m = r.bytes ∧ g.pos = r.writer.uiFramePos
    ∨ m = store32 r.bytes (headNewestFramePos r.bytes + 8) 52 ∧ g.pos = 52
      ∧ N ≤ r.writer.uiFramePos + 44 + alignedLen g.len
  stored : FrameStored m g.pos g.slot g.seq g.payload g.len g.extras (r.write c).bytes
  frames : (r.write c).frames = g :: r.frames
  cursor : (r.write c).writer.uiFramePos = g.slot
  sequence : (r.write c).writer.uiFrameSeq = g.seq
  size : (r.write c).writer.iShmSize = r.writer.iShmSize
  touched : ∀ t ∈ (r.write c).writer.segment.touched,
    t ∈ r.writer.segment.touched ∨ t.1 + t.2 ≤ N

/-- A call that the size checks refuse leaves the ring as it is. -/
theorem ShmRing.write_refused {M : ℕ} {r : ShmRing} (hmax : headMaxFrameSize r.bytes = M)
    {c : WriteCall} (hc : c.iBufLen ≤ 0 ∨ (M : ℤ) < c.iBufLen) : r.write c = r := by
  have hmax' : headMaxFrameSize r.writer.segment.bytes = M := hmax
  unfold ShmRing.write ShmWrite.writeFrame
  by_cases h₀ : c.iBufLen ≤ 0
  · simp [h₀, shmEnumError, shmEnumOk]
  · have h₁ : c.iBufLen > headMaxFrameSize r.writer.segment.bytes := by
      rw [hmax']
      exact hc.resolve_left h₀
    simp [h₀, h₁, shmEnumWriteOverflow, shmEnumOk]

theorem ShmRing.write_rejected {N M : ℕ} {r : ShmRing} (inv : RingInv N M r) {c : WriteCall}
    (hc : c.iBufLen ≤ 0 ∨ (M : ℤ) < c.iBufLen) : r.write c = r :=
  ShmRing.write_refused inv.maxFrameSize hc

/-- A call that they do not refuse adds a frame. -/
theorem ShmRing.length_write {M : ℕ} {r : ShmRing} (hmax : headMaxFrameSize r.bytes = M)
    {c : WriteCall} (h₀ : 0 < c.iBufLen) (h₁ : c.iBufLen ≤ M) :
    (r.write c).frames.length = r.frames.length + 1 := by
  have hmax' : headMaxFrameSize r.writer.segment.bytes = M := hmax
  rw [ShmRing.write, ShmWrite.writeFrame, if_neg (by omega), if_neg (by rw [hmax']; omega)]
  simp

/-- The newest position is the start, or the position of the newest frame. -/
theorem RingInv.newestPos_bounds {N M : ℕ} {r : ShmRing} (inv : RingInv N M r)
    (hN : M + 143 < N) : 52 ≤ headNewestFramePos r.bytes
      ∧ headNewestFramePos r.bytes + 44 ≤ N := by
  rw [inv.newestPos]
  cases hfr : r.frames with
  | nil => simp; omega
  | cons f h =>
      have hw := inv.layout.wellPlaced hN (hfr ▸ List.mem_cons_self : f ∈ r.frames)
      have h₁ := hw.start_le
      have h₂ := hw.finish_lt
      simp only [FrameRecord.finish] at h₂
      simp
      omega

theorem RingInv.writerInv {N M : ℕ} {r : ShmRing} (inv : RingInv N M r) (hN : M + 143 < N)
    (hseq : r.frames.length < 4294967295) : WriterInv N M r.writer where
  cursor := inv.layout.cursor_room hN
  size := inv.size
  maxFrameSize := inv.maxFrameSize
  sequence := inv.sequence ▸ hseq
  newestPos := inv.newestPos_bounds hN

theorem ShmRing.write_accepted {N M : ℕ} {r : ShmRing} (inv : RingInv N M r)
    (hN : M + 143 < N) (hN' : N < 2147483648) (hseq : r.frames.length + 1 < 4294967295)
    {c : WriteCall} (h₀ : 0 < c.iBufLen) (h₁ : c.iBufLen ≤ M) :
    ∃ g m, Accepted N M r c g m := by
  have hns : nextSequence r.writer.uiFrameSeq = r.frames.length + 1 := by
    rw [inv.sequence]
    exact WriterInv.nextSequence_of_lt hseq
  obtain ⟨seg, pos, next, hwrite, place, hseg, hgeo, hst⟩ :=
    (inv.writerInv hN (by omega)).writeFrame_stored hN hN' h₀ h₁ c.pcBuf c.pcExtras
  rw [hns] at hwrite hst
  have hnp := inv.newestPos_bounds hN
  refine ⟨⟨pos, r.frames.length + 1, c.iBufLen.toNat, c.pcBuf, c.pcExtras, next⟩, seg.bytes, {
    len := by simp; omega
    len_pos := by simp; omega
    len_le := by simp; omega
    payload := rfl
    extras := rfl
    seq := rfl
    place := place
    patched := ?_
    stored := ?_
    frames := ?_
    cursor := ?_
    sequence := ?_
    size := ?_
    touched := ?_ }⟩
  · rcases hseg with ⟨rfl, hp⟩ | ⟨rfl, hp, hr⟩
    · exact .inl ⟨rfl, hp⟩
    · exact .inr ⟨rfl, hp, hr⟩
  · simpa only [ShmRing.write, hwrite, ShmRing.bytes] using hst
  · simp only [ShmRing.write, hwrite, if_true, hst.newestPos, hst.newestSeq]
  · simp only [ShmRing.write, hwrite]
  · simp only [ShmRing.write, hwrite]
  · simp only [ShmRing.write, hwrite]
  · intro t ht
    obtain ⟨hg₁, hg₂, hg₃, hg₄, hg₅⟩ := hgeo
    simp only [ShmRing.write, hwrite, storeFrame_touched, List.mem_append] at ht
    rcases ht with ht | ht
    · right
      simp only [List.mem_cons, List.not_mem_nil, or_false] at ht
      rcases ht with rfl | rfl | rfl | rfl | rfl | rfl | rfl | rfl | rfl | rfl <;>
        dsimp only <;> omega
    · rcases hseg with ⟨rfl, -⟩ | ⟨rfl, -⟩
      · exact .inl ht
      · rcases List.mem_cons.mp ht with rfl | ht
        · right
          have hnp' : 52 ≤ headNewestFramePos r.writer.segment.bytes
            ∧ headNewestFramePos r.writer.segment.bytes + 44 ≤ N := hnp
          dsimp only
          omega
        · exact .inl ht

/-! ## What survives an accepted call -/

theorem Layout.cursor_eq {N M : ℕ} {h : List FrameRecord} {cursor : ℕ} (l : Layout N M h cursor) :
    cursor = (h.head?.map FrameRecord.slot).getD 52 := by
  cases l <;> rfl

/-- Unless the history is empty its first frame is the newest one. -/
theorem Layout.head_seq {N M : ℕ} {f : FrameRecord} {h : List FrameRecord} {cursor : ℕ}
    (l : Layout N M (f :: h) cursor) : f.seq = (f :: h).length := by
  cases l with
  | write _ _ _ seq _ => exact seq

namespace RingInv

variable {N M : ℕ} {r : ShmRing}

/-- The newest frame, from its sequence number. -/
theorem head_of_seq (inv : RingInv N M r) {f : FrameRecord} (hf : f ∈ r.frames)
    (hs : f.seq = r.frames.length) : r.frames.head? = some f := by
  cases hfr : r.frames with
  | nil =>
      rw [hfr] at hf
      cases hf
  | cons g h =>
      have hg : g.seq = r.frames.length := by
        have l := inv.layout
        rw [hfr] at l ⊢
        exact l.head_seq
      have : f = g := inv.layout.seq_inj hf (hfr ▸ List.mem_cons_self) (hs.trans hg.symm)
      simp [this]

theorem newestPos_of_seq (inv : RingInv N M r) {f : FrameRecord} (hf : f ∈ r.frames)
    (hs : f.seq = r.frames.length) : headNewestFramePos r.bytes = f.pos := by
  rw [inv.newestPos, inv.head_of_seq hf hs]
  rfl

theorem cursor_of_seq (inv : RingInv N M r) {f : FrameRecord} (hf : f ∈ r.frames)
    (hs : f.seq = r.frames.length) : r.writer.uiFramePos = f.slot := by
  rw [inv.layout.cursor_eq, inv.head_of_seq hf hs]
  rfl

/-- The newest frame is intact. -/
theorem newest_intact (inv : RingInv N M r) {f : FrameRecord} (hf : f ∈ r.frames)
    (hs : f.seq = r.frames.length) : f ∈ r.intact := by
  apply inv.layout.mem_intact hf
  intro g hg hlt
  have := inv.layout.seq_range hg
  omega

theorem wellPlaced (inv : RingInv N M r) (hN : M + 143 < N) {f : FrameRecord}
    (hf : f ∈ r.frames) : f.WellPlaced N M := inv.layout.wellPlaced hN hf

theorem mem_frames (_ : RingInv N M r) {f : FrameRecord} (hf : f ∈ r.intact) : f ∈ r.frames :=
  intactFrames_subset _ hf

end RingInv

namespace Accepted

variable {N M : ℕ} {r : ShmRing} {c : WriteCall} {f g : FrameRecord} {m : Mem}

theorem wellPlaced (acc : Accepted N M r c g m) (inv : RingInv N M r) (hN : M + 143 < N) :
    g.WellPlaced N M :=
  wellPlaced_of_placement hN (inv.layout.cursor_room hN) acc.len_pos acc.len_le acc.place

/-- The layout after the call. -/
theorem layout (acc : Accepted N M r c g m) (inv : RingInv N M r) :
    Layout N M (r.write c).frames (r.write c).writer.uiFramePos := by
  rw [acc.frames, acc.cursor]
  exact .write inv.layout acc.len_pos acc.len_le acc.seq acc.place

/-- Bytes outside the frame, its cleared slot, the newest pair of the segment
head and the link of the newest frame keep their value. -/
theorem bytes_outside (acc : Accepted N M r c g m) {x : ℕ} (h₁ : x < 4 ∨ 12 ≤ x)
    (h₂ : x < g.pos ∨ g.endPos ≤ x) (h₃ : x < g.slot ∨ g.slot + 44 ≤ x)
    (h₄ : x < headNewestFramePos r.bytes + 8 ∨ headNewestFramePos r.bytes + 12 ≤ x) :
    (r.write c).bytes x = r.bytes x := by
  rw [acc.stored.unchanged x h₁ h₂ h₃]
  rcases acc.patched with ⟨rfl, -⟩ | ⟨rfl, -⟩
  · rfl
  · exact store32_outside _ _ _ (by omega)

/-- The segment head keeps everything but the newest pair. -/
theorem bytes_head (acc : Accepted N M r c g m) (inv : RingInv N M r) (hN : M + 143 < N) {x : ℕ}
    (hx : x < 4 ∨ 12 ≤ x) (hx' : x < 52) : (r.write c).bytes x = r.bytes x := by
  have hg := acc.wellPlaced inv hN
  have h₁ := hg.start_le
  have h₂ := inv.newestPos_bounds hN
  exact acc.bytes_outside hx (by omega) (by rcases hg.slot with hs | hs <;>
    simp only [FrameRecord.finish] at * <;> omega) (by omega)

/-- A frame the call does not overwrite keeps its bytes, except that the link of
the newest frame may be patched. -/
theorem bytes_survivor (acc : Accepted N M r c g m) (inv : RingInv N M r) (hN : M + 143 < N)
    (hf : f ∈ r.intact) (hno : ¬ g.Overwrites f) {x : ℕ} (h₁ : f.pos ≤ x) (h₂ : x < f.endPos)
    (hlink : f.seq = r.frames.length → x < f.pos + 8 ∨ f.pos + 12 ≤ x) :
    (r.write c).bytes x = r.bytes x := by
  have hfm := inv.mem_frames hf
  have hfw := inv.wellPlaced hN hfm
  have hst := hfw.start_le
  have hgw := acc.wellPlaced inv hN
  have hgl := g.pos_lt_endPos
  have hout₁ : x < g.pos ∨ g.endPos ≤ x := by
    by_contra hc
    exact hno (.inl ⟨by omega, by omega⟩)
  have hout₂ : x < g.slot ∨ g.slot + 44 ≤ x := by
    by_contra hc
    exact hno (.inr ⟨by omega, by rw [shmSizeOfFrameHead_eq]; omega⟩)
  have hnewest : x < headNewestFramePos r.bytes + 8 ∨ headNewestFramePos r.bytes + 12 ≤ x := by
    have hrange := inv.layout.seq_range hfm
    obtain ⟨n, hn, hns⟩ := inv.layout.exists_seq (s := r.frames.length) (by omega) le_rfl
    rw [inv.newestPos_of_seq hn hns]
    by_cases hs : f.seq = r.frames.length
    · have : f = n := inv.layout.seq_inj hfm hn (hs.trans hns.symm)
      rw [← this]
      exact hlink hs
    · -- the newest frame is another intact frame, so its link is elsewhere
      have hdis := inv.layout.not_overwrites hf hn (by omega)
      have hnl := n.pos_lt_endPos
      by_contra hc
      exact hdis (.inl ⟨by omega, by omega⟩)
  exact acc.bytes_outside (by omega) hout₁ hout₂ hnewest

theorem link_survivor (acc : Accepted N M r c g m) (inv : RingInv N M r) (hN : M + 143 < N)
    (hf : f ∈ r.intact) (hno : ¬ g.Overwrites f) (hlt : f.seq < r.frames.length) :
    frameNextPos (r.write c).bytes f.pos = frameNextPos r.bytes f.pos := by
  have hfl := f.pos_lt_endPos
  exact load32_congr fun x h₁ h₂ =>
    acc.bytes_survivor inv hN hf hno (by omega) (by omega) (by omega)

theorem prev_survivor (acc : Accepted N M r c g m) (inv : RingInv N M r) (hN : M + 143 < N)
    (hf : f ∈ r.intact) (hno : ¬ g.Overwrites f) :
    framePrevPos (r.write c).bytes f.pos = framePrevPos r.bytes f.pos := by
  have hfl := f.pos_lt_endPos
  exact load32_congr fun x h₁ h₂ =>
    acc.bytes_survivor inv hN hf hno (by omega) (by omega) (by omega)

/-- After the call the old newest frame, if it survives, links to the new one:
the writer went on at its slot, or patched the link when it restarted. -/
theorem link_newest (acc : Accepted N M r c g m) (inv : RingInv N M r) (hN : M + 143 < N)
    (hf : f ∈ r.intact) (hno : ¬ g.Overwrites f) (hs : f.seq = r.frames.length) :
    frameNextPos (r.write c).bytes f.pos = g.pos := by
  have hfm := inv.mem_frames hf
  have hfw := inv.wellPlaced hN hfm
  have hst := hfw.start_le
  rw [acc.stored.nextPos_kept hno hst]
  rcases acc.patched with ⟨rfl, hp⟩ | ⟨rfl, hp, -⟩
  · rw [inv.lastLink f hfm hs, hp, inv.cursor_of_seq hfm hs]
  · rw [inv.newestPos_of_seq hfm hs, hp]
    exact load32_store32 _ _ (by omega)

/-- The new frame links back to the one that was the newest. -/
theorem prev_newest (acc : Accepted N M r c g m) (inv : RingInv N M r) (hN : M + 143 < N)
    (hf : f ∈ r.frames) (hs : f.seq = r.frames.length) :
    framePrevPos (r.write c).bytes g.pos = f.pos := by
  have hst := (inv.wellPlaced hN hf).start_le
  have hnp := inv.newestPos_of_seq hf hs
  have hm : headNewestFramePos m = headNewestFramePos r.bytes := by
    rcases acc.patched with ⟨rfl, -⟩ | ⟨rfl, -⟩
    · rfl
    · exact load32_store32_outside _ _ _ (by omega)
  rw [acc.stored.prevPos, hm, hnp]

/-- The first frame of the ring links back to itself: the newest position is still the start. -/
theorem prev_first (acc : Accepted N M r c g m) (inv : RingInv N M r) (hnil : r.frames = []) :
    framePrevPos (r.write c).bytes g.pos = g.pos := by
  have hnp : headNewestFramePos r.bytes = 52 := by rw [inv.newestPos, hnil]; rfl
  have hcur : r.writer.uiFramePos = 52 := by rw [inv.layout.cursor_eq, hnil]; rfl
  rw [acc.stored.prevPos]
  rcases acc.patched with ⟨rfl, hp⟩ | ⟨rfl, hp, -⟩
  · rw [hnp, hp, hcur]
  · rw [hp]
    exact Eq.trans (load32_store32_outside _ _ _ (by omega)) hnp

theorem magic (acc : Accepted N M r c g m) (inv : RingInv N M r) (hN : M + 143 < N) :
    headMagic (r.write c).bytes = headMagic r.bytes :=
  load32_congr fun _ _ _ => acc.bytes_head inv hN (by omega) (by omega)

/-- The frame just written is in memory. -/
theorem heldIn (acc : Accepted N M r c g m) (inv : RingInv N M r) (hN : M + 143 < N)
    (hN' : N < 2147483648) : g.HeldIn (r.write c).bytes where
  magic := by
    have hm : headMagic m = headMagic r.bytes := by
      have := inv.newestPos_bounds hN
      rcases acc.patched with ⟨rfl, -⟩ | ⟨rfl, -⟩
      · rfl
      · exact load32_store32_outside _ _ _ (by omega)
    rw [IsFrame, acc.stored.magic, hm, acc.magic inv hN]
  seq := acc.stored.sequence
  size := by
    have := acc.len_le
    rw [frameSize, acc.stored.size, toInt32_natCast (by omega)]
  extras := acc.stored.extras
  payload := acc.stored.payload

end Accepted

theorem FrameRecord.HeldIn.congr {f : FrameRecord} {m m' : Mem} (hh : f.HeldIn m)
    (hmagic : headMagic m' = headMagic m)
    (hbytes : ∀ x, f.pos ≤ x → x < f.endPos → x < f.pos + 8 ∨ f.pos + 12 ≤ x → m' x = m x) :
    f.HeldIn m' := by
  have hend : f.endPos = f.pos + 44 + f.len := rfl
  constructor
  · rw [IsFrame, hmagic, ← hh.magic]
    exact load32_congr fun x _ _ => hbytes x (by omega) (by omega) (by omega)
  · rw [← hh.seq]
    exact load32_congr fun x _ _ => hbytes x (by omega) (by omega) (by omega)
  · rw [← hh.size, frameSize, frameSize]
    congr 1
    exact load32_congr fun x _ _ => hbytes x (by omega) (by omega) (by omega)
  · intro i hi
    rw [shmSizeOfFrameExtras_eq] at hi
    rw [← hh.extras i hi]
    exact hbytes _ (by omega) (by omega) (by omega)
  · intro i hi
    rw [← hh.payload i hi]
    exact hbytes _ (by rw [shmSizeOfFrameHead_eq]; omega) (by rw [shmSizeOfFrameHead_eq]; omega)
      (by rw [shmSizeOfFrameHead_eq]; omega)

/-! ## The step and run lemmas -/

/-- An accepted call keeps the invariant. -/
theorem RingInv.write_accepted {N M : ℕ} {r : ShmRing} {c : WriteCall} {g : FrameRecord} {m : Mem}
    (inv : RingInv N M r) (hN : M + 143 < N) (hN' : N < 2147483648)
    (acc : Accepted N M r c g m) : RingInv N M (r.write c) := by
  have hlayout := acc.layout inv
  have hgw := acc.wellPlaced inv hN
  have hlen : (r.write c).frames.length = r.frames.length + 1 := by
    rw [acc.frames, List.length_cons]
  have hseq := acc.seq
  have hintact : ∀ f, f ∈ (r.write c).intact ↔ f = g ∨ f ∈ r.intact ∧ ¬ g.Overwrites f := by
    intro f
    rw [ShmRing.intact, acc.frames]
    exact mem_intactFrames_cons
  have hframes : ∀ f, f ∈ (r.write c).frames ↔ f = g ∨ f ∈ r.frames := by
    intro f
    rw [acc.frames, List.mem_cons]
  have hle : ∀ f ∈ r.frames, f.seq ≤ r.frames.length := fun f hf =>
    (inv.layout.seq_range hf).2
  exact {
    layout := hlayout
    size := acc.size.trans inv.size
    magic := (acc.magic inv hN).trans inv.magic
    maxFrameSize := by
      rw [← inv.maxFrameSize, headMaxFrameSize, headMaxFrameSize]
      congr 1
      exact load32_congr fun _ _ _ => acc.bytes_head inv hN (by omega) (by omega)
    sequence := by rw [acc.sequence, hlen, hseq]
    newestPos := by
      rw [acc.frames]
      exact acc.stored.newestPos
    newestSeq := by rw [hlen, ← hseq, acc.stored.newestSeq]
    held := by
      intro f hf
      rcases (hintact f).mp hf with rfl | ⟨hf, hno⟩
      · exact acc.heldIn inv hN hN'
      · exact (inv.held f hf).congr (acc.magic inv hN) fun x h₁ h₂ h₃ =>
          acc.bytes_survivor inv hN hf hno h₁ h₂ fun _ => h₃
    nextLink := by
      intro f hf g' hg' hs
      rcases (hintact f).mp hf with rfl | ⟨hf, hno⟩
      · rcases (hframes g').mp hg' with rfl | hg'
        · omega
        · have := hle g' hg'
          omega
      · rcases (hframes g').mp hg' with rfl | hg'
        · exact acc.link_newest inv hN hf hno (by omega)
        · have := hle g' hg'
          rw [acc.link_survivor inv hN hf hno (by omega)]
          exact inv.nextLink f hf g' hg' hs
    lastLink := by
      intro f hf hs
      rcases (hframes f).mp hf with rfl | hf
      · exact acc.stored.nextPos
      · have := hle f hf
        omega
    prevLink := by
      intro g' hg' f hf hs
      rcases (hintact g').mp hg' with rfl | ⟨hg', hno⟩
      · rcases (hframes f).mp hf with rfl | hf
        · omega
        · exact acc.prev_newest inv hN hf (by omega)
      · rcases (hframes f).mp hf with rfl | hf
        · have := hle g' (inv.mem_frames hg')
          omega
        · rw [acc.prev_survivor inv hN hg' hno]
          exact inv.prevLink g' hg' f hf hs
    firstLink := by
      intro g' hg' hs
      rcases (hintact g').mp hg' with rfl | ⟨hg', hno⟩
      · exact acc.prev_first inv (List.length_eq_zero_iff.mp (by omega))
      · rw [acc.prev_survivor inv hN hg' hno]
        exact inv.firstLink g' hg' hs
    cleared := by
      rw [acc.cursor]
      exact acc.stored.cleared
    touched := by
      intro t ht
      rcases acc.touched t ht with ht | ht
      · exact inv.touched t ht
      · exact ht }

/-- The size checks decide whether a call adds a frame. -/
theorem ShmRing.length_write_le (r : ShmRing) (c : WriteCall) :
    r.frames.length ≤ (r.write c).frames.length
      ∧ (r.write c).frames.length ≤ r.frames.length + 1 := by
  unfold ShmRing.write
  dsimp only
  split_ifs <;> simp

theorem ShmRing.length_run_le (r : ShmRing) (calls : List WriteCall) :
    r.frames.length ≤ (r.run calls).frames.length
      ∧ (r.run calls).frames.length ≤ r.frames.length + calls.length := by
  induction calls generalizing r with
  | nil => exact ⟨le_rfl, le_rfl⟩
  | cons c calls ih =>
      have h₁ := r.length_write_le c
      have h₂ := ih (r.write c)
      rw [List.length_cons]
      exact ⟨h₁.1.trans h₂.1, h₂.2.trans (by omega)⟩

/-- Below the sequence bound a call is refused and changes nothing, or is accepted. -/
theorem RingInv.write_cases {N M : ℕ} {r : ShmRing} (inv : RingInv N M r) (hN : M + 143 < N)
    (hN' : N < 2147483648) (c : WriteCall) (hseq : (r.write c).frames.length < 4294967295) :
    r.write c = r ∨ ∃ g m, Accepted N M r c g m := by
  by_cases hc : c.iBufLen ≤ 0 ∨ (M : ℤ) < c.iBufLen
  · exact .inl (ShmRing.write_rejected inv hc)
  · have hlen : (r.write c).frames.length = r.frames.length + 1 :=
      ShmRing.length_write inv.maxFrameSize (by omega) (by omega)
    exact .inr (ShmRing.write_accepted inv hN hN' (by omega) (by omega) (by omega))

/-- **Step.**  `WriteFrame` keeps the invariant as long as the sequence does not
come round. -/
theorem RingInv.write {N M : ℕ} {r : ShmRing} (inv : RingInv N M r) (hN : M + 143 < N)
    (hN' : N < 2147483648) (c : WriteCall) (hseq : (r.write c).frames.length < 4294967295) :
    RingInv N M (r.write c) := by
  rcases inv.write_cases hN hN' c hseq with hsame | ⟨g, m, acc⟩
  · rw [hsame]
    exact inv
  · exact inv.write_accepted hN hN' acc

/-- **Run.**  A run of fewer than `2 ^ 32 - 1` frames keeps the invariant. -/
theorem RingInv.run {N M : ℕ} {r : ShmRing} (inv : RingInv N M r) (hN : M + 143 < N)
    (hN' : N < 2147483648) {calls : List WriteCall}
    (hcalls : (r.run calls).frames.length < 4294967295) : RingInv N M (r.run calls) := by
  induction calls generalizing r with
  | nil => exact inv
  | cons c calls ih =>
      have h := (r.write c).length_run_le calls
      exact ih (inv.write hN hN' c (h.1.trans_lt hcalls)) hcalls

theorem ringInv_run (old : Mem) (info : ℕ → UInt8) {N M : ℕ} (hN : M + 143 < N)
    (hN' : N < 2147483648) {calls : List WriteCall}
    (hcalls : ((ShmRing.create old N M info).run calls).frames.length < 4294967295) :
    RingInv N M ((ShmRing.create old N M info).run calls) :=
  (ringInv_create old info hN hN').run hN hN' hcalls
