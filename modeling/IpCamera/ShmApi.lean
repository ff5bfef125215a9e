/-
# The reader interface (`shm_read.cpp`)

The operations on one reader ID: `SHM_BackNFrameNolock`, `SHM_RefreshNolock`,
`SHM_ReadFrameWithExtras` and what is built from them.  An ID's entry in the map
is its `ShmInfo`; the operations here are those of an ID that is in the map, and
each runs under the mutex of its media type.

The key-frame search of `SHM_BackNFrameNolock` is a loop with no bound of its
own, so it takes a number of iterations it may use (`fuel`) and answers `none`
when they do not suffice.  Its local `structExtraData` is not initialised in the
source: what it holds at first is the parameter `junk`.
-/
import IpCamera.ShmRead

/-- The loop of `SHM_BackNFrameNolock` with `iKeyFlag` set.  `iSteps` key frames
are still to be found after `back_cnt` moves; the result is what is left of
`iSteps`, and the position. -/
def backNKeyLoop (m : Mem) (isBack : Bool) :
    (fuel : ℕ) → (iSteps back_cnt : ℕ) → (structExtraData : ℕ → UInt8) → ShmInfo →
      Option (ℕ × ShmInfo)
  | 0, _, _, _, _ => none
  | fuel + 1, iSteps, back_cnt, structExtraData, info =>
      if iSteps = 0 then some (iSteps, info)
      else
        let (_, extra) := ShmRead.getExtras m structExtraData info
        let isKey := extrasKeyFrameFlag extra = shmVideoFrameTypeKey
        -- the frame the search starts at is not counted
        let iSteps' := if isKey ∧ back_cnt > 0 then iSteps - 1 else iSteps
        if isKey ∧ iSteps' = 0 then some (iSteps', info)
        else
          let (ret, info') :=
            if isBack then ShmRead.moveBack m info else ShmRead.moveForward m info
          if ret < 0 then some (iSteps', info')
          else backNKeyLoop m isBack fuel iSteps' (back_cnt + 1) extra info'

/-- The loop of `SHM_BackNFrameNolock` without `iKeyFlag`. -/
def backNLoop (m : Mem) (isBack : Bool) : (iSteps : ℕ) → ShmInfo → ℕ × ShmInfo
  | 0, info => (0, info)
  | iSteps + 1, info =>
      let (ret, info') := if isBack then ShmRead.moveBack m info else ShmRead.moveForward m info
      if ret < 0 then (iSteps + 1, info') else backNLoop m isBack iSteps info'

/-- `SHM_BackNFrameNolock`: a failed move puts the position back. -/
def shmBackNFrameNolock (m : Mem) (fuel : ℕ) (junk : ℕ → UInt8) (iSteps : ℤ) (iKeyFlag isBack : Bool)
    (info : ShmInfo) : Option (ℤ × ShmInfo) :=
  if iSteps > 0 then
    let moved :=
      if iKeyFlag then backNKeyLoop m isBack fuel iSteps.toNat 0 junk info
      else some (backNLoop m isBack iSteps.toNat info)
    moved.map fun (left, info') =>
      if left = 0 then (shmEnumOk, info') else (shmEnumError, info)
  else if iSteps = 0 then some (shmEnumOk, info)
  else some (shmEnumError, info)

/-- `SHM_RefreshNolock`.  `junk` is what `structExtraData` holds before it is
filled, here and in the search. -/
def shmRefreshNolock (m : Mem) (fuel : ℕ) (junk : ℕ → UInt8) (iKeyFlag : Bool) :
    Option (ℤ × ShmInfo) :=
  let (rtn, info) := ShmRead.refresh m
  if iKeyFlag then
    let (_, extra) := ShmRead.getExtras m junk info
    if extrasKeyFrameFlag extra ≠ shmVideoFrameTypeKey then
      shmBackNFrameNolock m fuel junk 1 true true info
    else some (rtn, info)
  else some (rtn, info)

/-- The key flag `SHM_ReadFrameWithExtras` refreshes with. -/
def shmSearchesKeyFrame (m : Mem) (enumMType : ShmMediaType) : Bool :=
  enumMType = .video ∧ headerInfoCodec (headUserDefinedInfo m) = shmVideoCodecTypeH264

/-- `pstructShmVideoExtras->ucKeyFrameFlag` of the extras handed out. -/
def FrameData.keyFrameFlag (d : FrameData) : UInt8 := d.extras.getD 19 0

/-- The read of `SHM_ReadFrameWithExtras` once the ID has a position. -/
def shmReadAt (m : Mem) (enumMType : ShmMediaType) (bufLen : ℤ) (info : ShmInfo) :
    ℤ × Option FrameData × ShmInfo :=
  let (rtn, data, info') := ShmRead.readFrame m true bufLen info
  let isKey := (data.map FrameData.keyFrameFlag) = some shmVideoFrameTypeKey
  (if rtn = shmEnumGetANewFrame ∧ enumMType = .video ∧ isKey then shmEnumGetANewKeyFrame else rtn,
    data, info')

/-- `SHM_ReadFrameWithExtras`: an ID in the initial state is refreshed first. -/
def shmReadFrameWithExtras (m : Mem) (fuel : ℕ) (junk : ℕ → UInt8) (enumMType : ShmMediaType)
    (bufLen : ℤ) (info : ShmInfo) : Option (ℤ × Option FrameData × ShmInfo) :=
  if ShmRead.isInitState info.uiPos then
    (shmRefreshNolock m fuel junk (shmSearchesKeyFrame m enumMType)).map fun (rtn, info') =>
      if rtn < 0 then (shmEnumNoFrame, none, info') else shmReadAt m enumMType bufLen info'
  else some (shmReadAt m enumMType bufLen info)
