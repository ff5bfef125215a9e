/-
# Layout of the shared-memory segment

The structures of `shm_base_class.h` and `shm_common.h` as offsets into the
segment, and the return codes of the library.  Sizes are those of the 32-bit
ARM target of the Makefile: `ShmVideoExtraData` starts with an
`unsigned long long`, so its 20 bytes are padded to 24.

A segment is its bytes together with the stores made to it so far; the stores
are what "the bytes the writer has touched" means.
-/
import IpCamera.ByteMemory

/-! ## Sizes and positions -/

/-- `sizeof(ShmVideoExtraData)`. -/
def shmSizeOfFrameExtras : ℕ := 24

/-- `sizeof(ShmVideoHeaderInfo)`. -/
def shmSizeOfUserDefinedInfo : ℕ := 32

/-- `sizeof(ShmHeadStruct)`. -/
def shmSizeOfShmHead : ℕ := 20 + shmSizeOfUserDefinedInfo

/-- `sizeof(ShmFrameHeadStruct)`. -/
def shmSizeOfFrameHead : ℕ := 20 + shmSizeOfFrameExtras

def shmFrameStartPosition : ℕ := shmSizeOfShmHead
def shmFrameInitialPosition : ℕ := 0
def shmFrameInitialSequence : ℕ := 0
def shmFrameMaxSequence : ℕ := 4294967295
def shmFrameMagicNum : ℕ := 0x7F7E7D7C

@[simp] theorem shmSizeOfFrameExtras_eq : shmSizeOfFrameExtras = 24 := rfl
@[simp] theorem shmSizeOfUserDefinedInfo_eq : shmSizeOfUserDefinedInfo = 32 := rfl
@[simp] theorem shmSizeOfShmHead_eq : shmSizeOfShmHead = 52 := rfl
@[simp] theorem shmSizeOfFrameHead_eq : shmSizeOfFrameHead = 44 := rfl
@[simp] theorem shmFrameStartPosition_eq : shmFrameStartPosition = 52 := rfl
@[simp] theorem shmFrameInitialPosition_eq : shmFrameInitialPosition = 0 := rfl
@[simp] theorem shmFrameInitialSequence_eq : shmFrameInitialSequence = 0 := rfl
@[simp] theorem shmFrameMaxSequence_eq : shmFrameMaxSequence = 4294967295 := rfl
@[simp] theorem shmFrameMagicNum_eq : shmFrameMagicNum = 2138996092 := rfl

/-! ## Return codes -/

def shmEnumEmptySpace : ℤ := -3
def shmEnumWriteOverflow : ℤ := -2
def shmEnumNoFrame : ℤ := -2
def shmEnumError : ℤ := -1
def shmEnumOk : ℤ := 0
def shmEnumNoNewFrame : ℤ := 0
def shmEnumFrameTooLarge : ℤ := 1
def shmEnumGetANewFrame : ℤ := 2
def shmEnumGetANewKeyFrame : ℤ := 3
def shmEnumNextFrameOfNewest : ℤ := 4

/-- `SHM_ENUM_MEDIA_TYPE`. -/
inductive ShmMediaType
  | audio
  | video
  deriving DecidableEq, Repr

/-- `SHM_ENUM_VIDEO_CODEC_TYPE_H264`. -/
def shmVideoCodecTypeH264 : UInt8 := 3

/-- `SHM_ENUM_VIDEO_FRAME_TYPE_KEY`. -/
def shmVideoFrameTypeKey : UInt8 := 1

/-! ## The head of the segment -/

/-- `m_structShmHead->uiMagic`. -/
def headMagic (m : Mem) : ℕ := load32 m 0

/-- `m_structShmHead->uiNewestFramePos`. -/
def headNewestFramePos (m : Mem) : ℕ := load32 m 4

/-- `m_structShmHead->uiNewestFrameSeq`. -/
def headNewestFrameSeq (m : Mem) : ℕ := load32 m 8

/-- `m_structShmHead->iMaxFrameSize`. -/
def headMaxFrameSize (m : Mem) : ℤ := toInt32 (load32 m 12)

/-- `m_structShmHead->iShmSize`. -/
def headShmSize (m : Mem) : ℤ := toInt32 (load32 m 16)

/-- `m_structShmHead->carrUserDefinedInfo`, a `ShmVideoHeaderInfo` or
`ShmAudioHeaderInfo`. -/
def headUserDefinedInfo (m : Mem) : ℕ → UInt8 := fun i => m (20 + i)

/-- `ShmVideoHeaderInfo::ucCodec`. -/
def headerInfoCodec (info : ℕ → UInt8) : UInt8 := info 1

/-! ## The head of a frame -/

/-- `frame->uiMagic` of the frame head at `pos`. -/
def frameMagic (m : Mem) (pos : ℕ) : ℕ := load32 m pos

/-- `frame->uiPrevFramePos`. -/
def framePrevPos (m : Mem) (pos : ℕ) : ℕ := load32 m (pos + 4)

/-- `frame->uiNextFramePos`. -/
def frameNextPos (m : Mem) (pos : ℕ) : ℕ := load32 m (pos + 8)

/-- `frame->uiSequence`. -/
def frameSequence (m : Mem) (pos : ℕ) : ℕ := load32 m (pos + 12)

/-- `frame->iFrameSize`. -/
def frameSize (m : Mem) (pos : ℕ) : ℤ := toInt32 (load32 m (pos + 16))

/-- `frame->carrExtras`. -/
def frameExtras (m : Mem) (pos : ℕ) : ℕ → UInt8 := fun i => m (pos + 20 + i)

/-- The payload that follows the frame head at `pos`. -/
def framePayload (m : Mem) (pos : ℕ) : ℕ → UInt8 := fun i => m (pos + shmSizeOfFrameHead + i)

/-- `ShmVideoExtraData::ucKeyFrameFlag`, its last byte before the padding. -/
def extrasKeyFrameFlag (extras : ℕ → UInt8) : UInt8 := extras 19

/-- The word at `pos` is the magic of the segment head: `pos` passes as a frame. -/
def IsFrame (m : Mem) (pos : ℕ) : Prop := frameMagic m pos = headMagic m

instance (m : Mem) (pos : ℕ) : Decidable (IsFrame m pos) :=
  inferInstanceAs (Decidable (_ = _))

/-! ## The segment with its stores -/

/-- A shared-memory segment: its bytes, and the blocks `(address, length)`
stored so far, latest first. -/
structure ShmSegment where
  bytes : Mem
  touched : List (ℕ × ℕ)

namespace ShmSegment

/-- `memcpy(m_pcShm + dst, src, n)`. -/
def copy (s : ShmSegment) (dst : ℕ) (src : ℕ → UInt8) (n : ℕ) : ShmSegment where
  bytes := memcpy s.bytes dst src n
  touched := (dst, n) :: s.touched

/-- `memset(m_pcShm + dst, 0, n)`. -/
def clear (s : ShmSegment) (dst n : ℕ) : ShmSegment where
  bytes := memset s.bytes dst 0 n
  touched := (dst, n) :: s.touched

/-- Assign a 32-bit field. -/
def put (s : ShmSegment) (a v : ℕ) : ShmSegment where
  bytes := store32 s.bytes a v
  touched := (a, 4) :: s.touched

end ShmSegment
