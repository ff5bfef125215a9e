/-
# The ring reader (`shm_read_class.cpp`)

The operations of `ShmRead` over the bytes of the segment.  Every operation sets
`m_uiFramePos` and `m_uiFrameSeq` from its arguments before it uses them, so the
object's own copies are not state: an operation takes the caller's position and
sequence and returns the ones it stores back.
-/
import IpCamera.ShmLayout

/-- The position a reader ID keeps (`uiPos`, `uiSeq` of `SHM_INFO_STRUCT`). -/
structure ShmInfo where
  uiPos : ℕ
  uiSeq : ℕ
  deriving DecidableEq, Repr

/-- Position and sequence of an ID that has not read yet, or has been reset. -/
def ShmInfo.initial : ShmInfo := ⟨shmFrameInitialPosition, shmFrameInitialSequence⟩

/-- What `ReadFrame` copies out: payload (its length is `*piBufLen`) and extras. -/
structure FrameData where
  payload : List UInt8
  extras : List UInt8
  deriving DecidableEq, Repr

namespace ShmRead

/-- `SHM_EMPTY_CHECK`. -/
def isEmpty (m : Mem) : Bool := headNewestFrameSeq m = shmFrameInitialSequence

/-- `ShmRead::IsInitState`. -/
def isInitState (uiPos : ℕ) : Bool := uiPos = shmFrameInitialPosition

/-- `ShmRead::CheckOverflowed`: the position after the check. -/
def checkOverflowed (m : Mem) (info : ShmInfo) : ℕ :=
  if !isInitState info.uiPos then
    if ¬ IsFrame m info.uiPos ∧ info.uiSeq = frameSequence m shmFrameStartPosition then
      shmFrameStartPosition
    else info.uiPos
  else info.uiPos

/-- `ShmRead::ReadFrame` with an output buffer of `bufLen` bytes.  `pcBuf = NULL`
(only asked to step over a frame) is `wantData = false`. -/
def readFrame (m : Mem) (wantData : Bool) (bufLen : ℤ) (info : ShmInfo) :
    ℤ × Option FrameData × ShmInfo :=
  if isEmpty m then (shmEnumEmptySpace, none, info)
  else if headNewestFrameSeq m < info.uiSeq then
    -- further ahead than the next frame: the writer has started over
    if headNewestFrameSeq m ≠ info.uiSeq - 1 then (shmEnumError, none, ShmInfo.initial)
    else (shmEnumNoNewFrame, none, info)
  else
    let pos := checkOverflowed m info
    if IsFrame m pos then
      if frameSize m pos > headMaxFrameSize m then
        -- drop this frame
        (shmEnumFrameTooLarge, none, nextInfo m pos)
      else if frameSize m pos > bufLen then
        (shmEnumFrameTooLarge, none, ⟨pos, info.uiSeq⟩)
      else
        (shmEnumGetANewFrame,
          if wantData then
            some ⟨loadBytes m (pos + shmSizeOfFrameHead) (frameSize m pos).toNat,
              loadBytes m (pos + 20) shmSizeOfFrameExtras⟩
          else none,
          nextInfo m pos)
    else (shmEnumError, none, ShmInfo.initial)
where
  /-- The position after the frame at `pos`. -/
  nextInfo (m : Mem) (pos : ℕ) : ShmInfo :=
    let seq := (frameSequence m pos + 1) % 4294967296
    ⟨frameNextPos m pos, if seq ≥ shmFrameMaxSequence then 0 else seq⟩

/-- `ShmRead::Distance2Newest`. -/
def distance2Newest (m : Mem) (info : ShmInfo) : ℤ :=
  let pos := checkOverflowed m info
  if info.uiSeq = (headNewestFrameSeq m + 1) % 4294967296 then -1
  else if IsFrame m pos ∧ frameSequence m pos = info.uiSeq then
    toInt32 ((headNewestFrameSeq m + 4294967296 - info.uiSeq) % 4294967296)
  else -2

/-- `ShmRead::MoveBack`. -/
def moveBack (m : Mem) (info : ShmInfo) : ℤ × ShmInfo :=
  if isEmpty m then (shmEnumEmptySpace, info)
  else if info.uiPos = shmFrameInitialPosition then
    (shmEnumOk, ⟨headNewestFramePos m, frameSequence m (headNewestFramePos m)⟩)
  else if info.uiSeq = (headNewestFrameSeq m + 1) % 4294967296 then
    -- behind the newest frame
    (shmEnumOk, ⟨headNewestFramePos m, headNewestFrameSeq m⟩)
  else
    let pos := checkOverflowed m info
    if ¬ IsFrame m pos then (shmEnumError, ShmInfo.initial)
    -- the first frame of the ring links to itself
    else if pos = framePrevPos m pos then (shmEnumError, ShmInfo.initial)
    else if IsFrame m (framePrevPos m pos) then
      (shmEnumOk, ⟨framePrevPos m pos, frameSequence m (framePrevPos m pos)⟩)
    else (shmEnumError, ShmInfo.initial)

/-- `ShmRead::MoveForward`. -/
def moveForward (m : Mem) (info : ShmInfo) : ℤ × ShmInfo :=
  let (rtn, _, info') := readFrame m false (headMaxFrameSize m) info
  (if rtn = shmEnumGetANewFrame then 0 else -1, info')

/-- `ShmRead::Refresh`. -/
def refresh (m : Mem) : ℤ × ShmInfo :=
  (if IsFrame m (headNewestFramePos m) then shmEnumOk else shmEnumError,
    ⟨headNewestFramePos m, headNewestFrameSeq m⟩)

/-- `ShmRead::GetExtras` into a buffer that holds `pcExtras`: an error leaves the
buffer as it is. -/
def getExtras (m : Mem) (pcExtras : ℕ → UInt8) (info : ShmInfo) : ℤ × (ℕ → UInt8) :=
  let pos := checkOverflowed m info
  if IsFrame m pos then (shmEnumOk, frameExtras m pos)
  else if info.uiSeq = (headNewestFrameSeq m + 1) % 4294967296 then
    (shmEnumNextFrameOfNewest, fun _ => 0)
  else (shmEnumError, pcExtras)

end ShmRead
