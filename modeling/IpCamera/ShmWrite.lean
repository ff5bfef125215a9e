/-
# The ring writer (`shm_write_class.cpp`)

`ShmWrite::ShmWrite` and `ShmWrite::WriteFrame` over the bytes of the segment.
Each call holds the semaphore from its first access to its last, so a call is one
transition of the state.  `uint` arithmetic is reduced modulo `2 ^ 32` where the
source computes it; sizes and positions are natural numbers.

The second half adds the history the properties speak about: one `FrameRecord`
for each accepted call, read off the segment head the call leaves behind, and
the records whose bytes no later call has stored to (`intactFrames`).
-/
import IpCamera.ShmLayout

/-- Reduction of a `uint` result. -/
def u32 (n : ℕ) : ℕ := n % 4294967296

theorem u32_of_lt {n : ℕ} (h : n < 4294967296) : u32 n = n := Nat.mod_eq_of_lt h

/-! ## The class -/

/-- A `ShmWrite` object attached to its segment. -/
structure ShmWrite where
  segment : ShmSegment
  iShmSize : ℕ
  uiFramePos : ℕ
  uiFrameSeq : ℕ

/-- The constructor `ShmWrite::ShmWrite` on a segment that holds `old`. -/
def ShmWrite.create (old : Mem) (iShmSize iMaxFrameSize : ℕ) (pcHeaderInfo : ℕ → UInt8) :
    ShmWrite where
  segment :=
    ((((((ShmSegment.mk old []).clear 0 iShmSize).put 0 shmFrameMagicNum).put 12
      iMaxFrameSize).put 16 iShmSize).put 4 shmFrameStartPosition).put 8
        shmFrameInitialSequence |>.copy 20 pcHeaderInfo shmSizeOfUserDefinedInfo
  iShmSize := iShmSize
  uiFramePos := shmFrameStartPosition
  uiFrameSeq := shmFrameInitialSequence

/-- `uiNextFramePos = uiFramePos + iBufLen + SHM_SIZE_OF_FRAME_HEAD`, then
`uiNextFramePos += complement`.  In `uiNextFramePos&3==0?0:(4 - uiNextFramePos&3)`
the comparison binds before `&`, so the test masks with `0`, always fails, and
`complement` is `(4 - uiNextFramePos) & 3`. -/
def nextFramePos (uiFramePos iBufLen : ℕ) : ℕ :=
  let uiNextFramePos := u32 (uiFramePos + iBufLen + shmSizeOfFrameHead)
  let complement :=
    if uiNextFramePos &&& (if 3 = 0 then 1 else 0) ≠ 0 then 0
    else u32 (4294967296 + 4 - uiNextFramePos) &&& 3
  u32 (uiNextFramePos + complement)

/-- The position decision of `WriteFrame`: the segment (with the newest frame's
link patched when the writer goes back to the start), the position of the frame,
and the position of the next one. -/
def ShmWrite.placeFrame (w : ShmWrite) (iBufLen : ℕ) : ShmSegment × ℕ × ℕ :=
  let uiNextFramePos := nextFramePos w.uiFramePos iBufLen
  if uiNextFramePos ≥ w.iShmSize then
    -- the frame would not fit: it goes to the start, and the newest one links there
    (w.segment.put (headNewestFramePos w.segment.bytes + 8) shmFrameStartPosition,
      shmFrameStartPosition, nextFramePos shmFrameStartPosition iBufLen)
  else if u32 (uiNextFramePos + shmSizeOfFrameHead) ≥ w.iShmSize then
    -- the next frame's head would not fit
    (w.segment, w.uiFramePos, shmFrameStartPosition)
  else
    (w.segment, w.uiFramePos, uiNextFramePos)

/-- `m_uiFrameSeq++` with the restart at `1`. -/
def nextSequence (uiFrameSeq : ℕ) : ℕ :=
  let seq := u32 (uiFrameSeq + 1)
  if seq ≥ shmFrameMaxSequence then 1 else seq

/-- The stores of `WriteFrame` once the position is decided, in program order. -/
def ShmSegment.storeFrame (s : ShmSegment) (pos next seq : ℕ) (pcBuf : ℕ → UInt8)
    (iBufLen : ℕ) (pcExtras : ℕ → UInt8) : ShmSegment :=
  let s := s.copy (pos + shmSizeOfFrameHead) pcBuf iBufLen
  let s := s.clear next shmSizeOfFrameHead
  let s := s.put (pos + 16) iBufLen
  let s := s.put (pos + 12) seq
  let s := s.put (pos + 8) next
  let s := s.put (pos + 4) (headNewestFramePos s.bytes)
  let s := s.put pos (headMagic s.bytes)
  let s := s.copy (pos + 20) pcExtras shmSizeOfFrameExtras
  let s := s.put 4 pos
  s.put 8 seq

/-- `ShmWrite::WriteFrame(pcBuf, iBufLen, pcExtras)`: the return code and the
object afterwards. -/
def ShmWrite.writeFrame (w : ShmWrite) (pcBuf : ℕ → UInt8) (iBufLen : ℤ)
    (pcExtras : ℕ → UInt8) : ℤ × ShmWrite :=
  if iBufLen ≤ 0 then (shmEnumError, w)
  else if iBufLen > headMaxFrameSize w.segment.bytes then (shmEnumWriteOverflow, w)
  else
    let len := iBufLen.toNat
    let (segment, pos, next) := w.placeFrame len
    let seq := nextSequence w.uiFrameSeq
    (shmEnumOk,
      { segment := segment.storeFrame pos next seq pcBuf len pcExtras
        iShmSize := w.iShmSize
        uiFramePos := next
        uiFrameSeq := seq })

/-! ## Runs and their history -/

/-- The arguments of one `WriteFrame` call. -/
structure WriteCall where
  pcBuf : ℕ → UInt8
  iBufLen : ℤ
  pcExtras : ℕ → UInt8

/-- An accepted frame: where it was put, its sequence number and contents, and
the slot cleared for the head of the frame after it. -/
structure FrameRecord where
  pos : ℕ
  seq : ℕ
  len : ℕ
  payload : ℕ → UInt8
  extras : ℕ → UInt8
  slot : ℕ

/-- A writer with the frames it has accepted, newest first. -/
structure ShmRing where
  writer : ShmWrite
  frames : List FrameRecord

namespace ShmRing

/-- The bytes of the segment. -/
def bytes (r : ShmRing) : Mem := r.writer.segment.bytes

/-- A freshly constructed writer. -/
def create (old : Mem) (iShmSize iMaxFrameSize : ℕ) (pcHeaderInfo : ℕ → UInt8) : ShmRing where
  writer := ShmWrite.create old iShmSize iMaxFrameSize pcHeaderInfo
  frames := []

/-- One `WriteFrame` call.  The record of an accepted frame takes its position
and sequence from the segment head after the call. -/
def write (r : ShmRing) (c : WriteCall) : ShmRing :=
  let (rtn, w) := r.writer.writeFrame c.pcBuf c.iBufLen c.pcExtras
  { writer := w
    frames :=
      if rtn = shmEnumOk then
        { pos := headNewestFramePos w.segment.bytes
          seq := headNewestFrameSeq w.segment.bytes
          len := c.iBufLen.toNat
          payload := c.pcBuf
          extras := c.pcExtras
          slot := w.uiFramePos } :: r.frames
      else r.frames }

/-- A sequence of `WriteFrame` calls. -/
def run (r : ShmRing) (calls : List WriteCall) : ShmRing := calls.foldl write r

end ShmRing

/-! ## Frames no later call has stored to -/

/-- The half-open intervals `[a, b)` and `[c, d)` share an address. -/
def Overlap (a b c d : ℕ) : Prop := a < d ∧ c < b

instance (a b c d : ℕ) : Decidable (Overlap a b c d) := inferInstanceAs (Decidable (_ ∧ _))

namespace FrameRecord

/-- The first address after the payload. -/
def endPos (f : FrameRecord) : ℕ := f.pos + shmSizeOfFrameHead + f.len

/-- Writing `g` stored to the head or payload bytes of `f`: with its own head and
payload, or with the head slot it cleared. -/
def Overwrites (g f : FrameRecord) : Prop :=
  Overlap g.pos g.endPos f.pos f.endPos
    ∨ Overlap g.slot (g.slot + shmSizeOfFrameHead) f.pos f.endPos

instance (g f : FrameRecord) : Decidable (g.Overwrites f) :=
  inferInstanceAs (Decidable (_ ∨ _))

/-- The frame is in the segment as it was written. -/
structure HeldIn (f : FrameRecord) (m : Mem) : Prop where
  magic : IsFrame m f.pos
  seq : frameSequence m f.pos = f.seq
  size : frameSize m f.pos = f.len
  extras : ∀ i < shmSizeOfFrameExtras, frameExtras m f.pos i = f.extras i
  payload : ∀ i < f.len, framePayload m f.pos i = f.payload i

end FrameRecord

/-- The frames of a history (newest first) that no later frame's stores hit. -/
def intactFrames : List FrameRecord → List FrameRecord
  | [] => []
  | g :: older => g :: (intactFrames older).filter (fun f => ¬ g.Overwrites f)

/-- The frames still intact in the ring, newest first. -/
def ShmRing.intact (r : ShmRing) : List FrameRecord := intactFrames r.frames
