/-
# The read object (`shm_read_class.cpp`)

All reader IDs of a profile share one `ShmRead` object.  Its members `m_uiFramePos`
and `m_uiFrameSeq` are where an operation works: it loads them from its arguments
and stores them back to the caller.  Here the operations are given with these
members, as the source has them; each agrees with the operation of `ShmRead` on the
caller's position, whatever the members held before.
-/
import IpCamera.ShmApi

/-- `m_uiFramePos` and `m_uiFrameSeq` of a `ShmRead` object. -/
structure ShmReadObject where
  uiFramePos : ℕ
  uiFrameSeq : ℕ
deriving DecidableEq, Repr

namespace ShmReadObject

/-- The constructor. -/
def create : ShmReadObject := ⟨shmFrameInitialPosition, shmFrameInitialSequence⟩

/-- `m_uiFramePos = *puiPos; m_uiFrameSeq = *puiSeq;` -/
def load (info : ShmInfo) (_ : ShmReadObject) : ShmReadObject := ⟨info.uiPos, info.uiSeq⟩

/-- `*puiPos = m_uiFramePos; *puiSeq = m_uiFrameSeq;` -/
def store (o : ShmReadObject) : ShmInfo := ⟨o.uiFramePos, o.uiFrameSeq⟩

/-- `CheckOverflowed` -/
def checkOverflowed (m : Mem) (o : ShmReadObject) : ShmReadObject :=
  if !ShmRead.isInitState o.uiFramePos then
    if ¬ IsFrame m o.uiFramePos ∧ o.uiFrameSeq = frameSequence m shmFrameStartPosition then
      { o with uiFramePos := shmFrameStartPosition }
    else o
  else o

/-- `m_uiFrameSeq = frame->uiSequence+1; m_uiFramePos = frame->uiNextFramePos;` and the wrap. -/
def next (m : Mem) (o : ShmReadObject) : ShmReadObject :=
  let seq := (frameSequence m o.uiFramePos + 1) % 4294967296
  ⟨frameNextPos m o.uiFramePos, if seq ≥ shmFrameMaxSequence then 0 else seq⟩

/-- `ShmRead::ReadFrame` -/
def readFrame (m : Mem) (wantData : Bool) (bufLen : ℤ) (info : ShmInfo) (o : ShmReadObject) :
    (ℤ × Option FrameData × ShmInfo) × ShmReadObject :=
  if ShmRead.isEmpty m then ((shmEnumEmptySpace, none, info), o)
  else
    let o := o.load info
    if headNewestFrameSeq m < o.uiFrameSeq then
      if headNewestFrameSeq m ≠ o.uiFrameSeq - 1 then
        ((shmEnumError, none, create.store), create)
      else ((shmEnumNoNewFrame, none, o.store), o)
    else
      let o := o.checkOverflowed m
      if IsFrame m o.uiFramePos then
        if frameSize m o.uiFramePos > headMaxFrameSize m then
          ((shmEnumFrameTooLarge, none, (o.next m).store), o.next m)
        else if frameSize m o.uiFramePos > bufLen then
          ((shmEnumFrameTooLarge, none, o.store), o)
        else
          ((shmEnumGetANewFrame,
            if wantData then
              some ⟨loadBytes m (o.uiFramePos + shmSizeOfFrameHead) (frameSize m o.uiFramePos).toNat,
                loadBytes m (o.uiFramePos + 20) shmSizeOfFrameExtras⟩
            else none,
            (o.next m).store), o.next m)
      else ((shmEnumError, none, create.store), create)

/-- `ShmRead::Distance2Newest` -/
def distance2Newest (m : Mem) (info : ShmInfo) (o : ShmReadObject) : ℤ × ShmReadObject :=
  let o := (o.load info).checkOverflowed m
  (if o.uiFrameSeq = (headNewestFrameSeq m + 1) % 4294967296 then -1
    else if IsFrame m o.uiFramePos ∧ frameSequence m o.uiFramePos = o.uiFrameSeq then
      toInt32 ((headNewestFrameSeq m + 4294967296 - o.uiFrameSeq) % 4294967296)
    else -2, o)

/-- `ShmRead::MoveBack` -/
def moveBack (m : Mem) (info : ShmInfo) (o : ShmReadObject) : (ℤ × ShmInfo) × ShmReadObject :=
  if ShmRead.isEmpty m then ((shmEnumEmptySpace, info), o)
  else
    let o := o.load info
    if o.uiFramePos = shmFrameInitialPosition then
      let o : ShmReadObject := ⟨headNewestFramePos m, frameSequence m (headNewestFramePos m)⟩
      ((shmEnumOk, o.store), o)
    else if o.uiFrameSeq = (headNewestFrameSeq m + 1) % 4294967296 then
      let o : ShmReadObject := ⟨headNewestFramePos m, headNewestFrameSeq m⟩
      ((shmEnumOk, o.store), o)
    else
      let o := o.checkOverflowed m
      if ¬ IsFrame m o.uiFramePos then ((shmEnumError, create.store), create)
      else if o.uiFramePos = framePrevPos m o.uiFramePos then ((shmEnumError, create.store), create)
      else
        let o : ShmReadObject := { o with uiFramePos := framePrevPos m o.uiFramePos }
        if IsFrame m o.uiFramePos then
          let o : ShmReadObject := { o with uiFrameSeq := frameSequence m o.uiFramePos }
          ((shmEnumOk, o.store), o)
        else ((shmEnumError, create.store), create)

/-- `ShmRead::MoveForward` -/
def moveForward (m : Mem) (info : ShmInfo) (o : ShmReadObject) : (ℤ × ShmInfo) × ShmReadObject :=
  let ((rtn, _, info), o) := o.readFrame m false (headMaxFrameSize m) info
  ((if rtn = shmEnumGetANewFrame then 0 else -1, info), o)

/-- `ShmRead::Refresh` -/
def refresh (m : Mem) (_ : ShmReadObject) : (ℤ × ShmInfo) × ShmReadObject :=
  let o : ShmReadObject := ⟨headNewestFramePos m, headNewestFrameSeq m⟩
  ((if IsFrame m o.uiFramePos then shmEnumOk else shmEnumError, o.store), o)

/-- `ShmRead::GetExtras` -/
def getExtras (m : Mem) (pcExtras : ℕ → UInt8) (info : ShmInfo) (o : ShmReadObject) :
    (ℤ × (ℕ → UInt8)) × ShmReadObject :=
  let o := (o.load info).checkOverflowed m
  (if IsFrame m o.uiFramePos then (shmEnumOk, frameExtras m o.uiFramePos)
    else if o.uiFrameSeq = (headNewestFrameSeq m + 1) % 4294967296 then
      (shmEnumNextFrameOfNewest, fun _ => 0)
    else (shmEnumError, pcExtras), o)

/-! ## The members are no state -/

variable (m : Mem) (info : ShmInfo) (o : ShmReadObject)

theorem checkOverflowed_load : (o.load info).checkOverflowed m
    = ⟨ShmRead.checkOverflowed m info, info.uiSeq⟩ := by
  unfold checkOverflowed ShmRead.checkOverflowed load
  split
  · split <;> rfl
  · rfl

theorem readFrame_fst (wantData : Bool) (bufLen : ℤ) :
    (o.readFrame m wantData bufLen info).1 = ShmRead.readFrame m wantData bufLen info := by
  unfold readFrame ShmRead.readFrame
  dsimp only
  rw [checkOverflowed_load]
  simp only [apply_ite Prod.fst]
  rfl

theorem distance2Newest_fst : (o.distance2Newest m info).1 = ShmRead.distance2Newest m info := by
  unfold distance2Newest ShmRead.distance2Newest
  rw [checkOverflowed_load]

theorem moveBack_fst : (o.moveBack m info).1 = ShmRead.moveBack m info := by
  unfold moveBack ShmRead.moveBack
  dsimp only
  rw [checkOverflowed_load]
  simp only [apply_ite Prod.fst]
  rfl

theorem moveForward_fst : (o.moveForward m info).1 = ShmRead.moveForward m info := by
  unfold moveForward ShmRead.moveForward
  rw [← readFrame_fst m info o]

theorem refresh_fst : (o.refresh m).1 = ShmRead.refresh m := rfl

theorem getExtras_fst (pcExtras : ℕ → UInt8) :
    (o.getExtras m pcExtras info).1 = ShmRead.getExtras m pcExtras info := by
  unfold getExtras ShmRead.getExtras
  rw [checkOverflowed_load]

end ShmReadObject

/-! ## The interface on a shared object -/

namespace ShmReadObject

/-- The loop of `SHM_BackNFrameNolock` with `iKeyFlag` set. -/
def keyLoop (m : Mem) (isBack : Bool) :
    (fuel : ℕ) → (iSteps back_cnt : ℕ) → (structExtraData : ℕ → UInt8) → ShmInfo →
      ShmReadObject → Option ((ℕ × ShmInfo) × ShmReadObject)
  | 0, _, _, _, _, _ => none
  | fuel + 1, iSteps, back_cnt, structExtraData, info, o =>
      if iSteps = 0 then some ((iSteps, info), o)
      else
        let ((_, extra), o) := o.getExtras m structExtraData info
        let isKey := extrasKeyFrameFlag extra = shmVideoFrameTypeKey
        let iSteps' := if isKey ∧ back_cnt > 0 then iSteps - 1 else iSteps
        if isKey ∧ iSteps' = 0 then some ((iSteps', info), o)
        else
          let ((ret, info'), o) := if isBack then o.moveBack m info else o.moveForward m info
          if ret < 0 then some ((iSteps', info'), o)
          else keyLoop m isBack fuel iSteps' (back_cnt + 1) extra info' o

/-- The loop of `SHM_BackNFrameNolock` without `iKeyFlag`. -/
def plainLoop (m : Mem) (isBack : Bool) :
    (iSteps : ℕ) → ShmInfo → ShmReadObject → (ℕ × ShmInfo) × ShmReadObject
  | 0, info, o => ((0, info), o)
  | iSteps + 1, info, o =>
      let ((ret, info'), o) := if isBack then o.moveBack m info else o.moveForward m info
      if ret < 0 then ((iSteps + 1, info'), o) else plainLoop m isBack iSteps info' o

/-- `SHM_BackNFrameNolock` -/
def backNFrameNolock (m : Mem) (fuel : ℕ) (junk : ℕ → UInt8) (iSteps : ℤ) (iKeyFlag isBack : Bool)
    (info : ShmInfo) (o : ShmReadObject) : Option ((ℤ × ShmInfo) × ShmReadObject) :=
  if iSteps > 0 then
    let moved :=
      if iKeyFlag then keyLoop m isBack fuel iSteps.toNat 0 junk info o
      else some (plainLoop m isBack iSteps.toNat info o)
    moved.map fun ((left, info'), o) =>
      if left = 0 then ((shmEnumOk, info'), o) else ((shmEnumError, info), o)
  else if iSteps = 0 then some ((shmEnumOk, info), o)
  else some ((shmEnumError, info), o)

/-- `SHM_RefreshNolock` -/
def refreshNolock (m : Mem) (fuel : ℕ) (junk : ℕ → UInt8) (iKeyFlag : Bool) (o : ShmReadObject) :
    Option ((ℤ × ShmInfo) × ShmReadObject) :=
  let ((rtn, info), o) := o.refresh m
  if iKeyFlag then
    let ((_, extra), o) := o.getExtras m junk info
    if extrasKeyFrameFlag extra ≠ shmVideoFrameTypeKey then
      o.backNFrameNolock m fuel junk 1 true true info
    else some ((rtn, info), o)
  else some ((rtn, info), o)

/-- The read of `SHM_ReadFrameWithExtras` once the ID has a position. -/
def readAt (m : Mem) (enumMType : ShmMediaType) (bufLen : ℤ) (info : ShmInfo) (o : ShmReadObject) :
    (ℤ × Option FrameData × ShmInfo) × ShmReadObject :=
  let ((rtn, data, info'), o) := o.readFrame m true bufLen info
  let isKey := (data.map FrameData.keyFrameFlag) = some shmVideoFrameTypeKey
  ((if rtn = shmEnumGetANewFrame ∧ enumMType = .video ∧ isKey then shmEnumGetANewKeyFrame else rtn,
    data, info'), o)

/-- `SHM_ReadFrameWithExtras` -/
def readFrameWithExtras (m : Mem) (fuel : ℕ) (junk : ℕ → UInt8) (enumMType : ShmMediaType)
    (bufLen : ℤ) (info : ShmInfo) (o : ShmReadObject) :
    Option ((ℤ × Option FrameData × ShmInfo) × ShmReadObject) :=
  if ShmRead.isInitState info.uiPos then
    (o.refreshNolock m fuel junk (shmSearchesKeyFrame m enumMType)).map fun ((rtn, info'), o) =>
      if rtn < 0 then ((shmEnumNoFrame, none, info'), o) else o.readAt m enumMType bufLen info'
  else some (o.readAt m enumMType bufLen info)

variable (m : Mem)

/-- One move, either way. -/
theorem move_fst (isBack : Bool) (info : ShmInfo) (o : ShmReadObject) :
    (if isBack then o.moveBack m info else o.moveForward m info).1
      = if isBack then ShmRead.moveBack m info else ShmRead.moveForward m info := by
  cases isBack
  · exact moveForward_fst m info o
  · exact moveBack_fst m info o

theorem keyLoop_fst (isBack : Bool) (fuel : ℕ) :
    ∀ (iSteps back_cnt : ℕ) (extra : ℕ → UInt8) (info : ShmInfo) (o : ShmReadObject),
      (keyLoop m isBack fuel iSteps back_cnt extra info o).map Prod.fst
        = backNKeyLoop m isBack fuel iSteps back_cnt extra info := by
  induction fuel with
  | zero => intro _ _ _ _ _; rfl
  | succ fuel ih =>
    intro iSteps back_cnt extra info o
    unfold keyLoop backNKeyLoop
    by_cases hdone : iSteps = 0
    · rw [if_pos hdone, if_pos hdone]
      rfl
    · rw [if_neg hdone, if_neg hdone, ← getExtras_fst m info o extra]
      generalize o.getExtras m extra info = p
      obtain ⟨⟨ret, extra'⟩, o₁⟩ := p
      dsimp only
      generalize (if extrasKeyFrameFlag extra' = shmVideoFrameTypeKey ∧ back_cnt > 0 then iSteps - 1
        else iSteps) = left
      by_cases hfound : extrasKeyFrameFlag extra' = shmVideoFrameTypeKey ∧ left = 0
      · rw [if_pos hfound, if_pos hfound]
        rfl
      · rw [if_neg hfound, if_neg hfound, ← move_fst m isBack info o₁]
        generalize (if isBack then o₁.moveBack m info else o₁.moveForward m info) = q
        obtain ⟨⟨ret', info'⟩, o₂⟩ := q
        dsimp only
        by_cases hfail : ret' < 0
        · rw [if_pos hfail, if_pos hfail]
          rfl
        · rw [if_neg hfail, if_neg hfail]
          exact ih _ _ _ _ _

theorem plainLoop_fst (isBack : Bool) (iSteps : ℕ) :
    ∀ (info : ShmInfo) (o : ShmReadObject),
      (plainLoop m isBack iSteps info o).1 = backNLoop m isBack iSteps info := by
  induction iSteps with
  | zero => intro _ _; rfl
  | succ iSteps ih =>
    intro info o
    unfold plainLoop backNLoop
    rw [← move_fst m isBack info o]
    generalize (if isBack then o.moveBack m info else o.moveForward m info) = q
    obtain ⟨⟨ret, info'⟩, o'⟩ := q
    dsimp only
    split
    · rfl
    · exact ih _ _

theorem backNFrameNolock_fst (fuel : ℕ) (junk : ℕ → UInt8) (iSteps : ℤ) (iKeyFlag isBack : Bool)
    (info : ShmInfo) (o : ShmReadObject) :
    (o.backNFrameNolock m fuel junk iSteps iKeyFlag isBack info).map Prod.fst
      = shmBackNFrameNolock m fuel junk iSteps iKeyFlag isBack info := by
  have hmoved : (if iKeyFlag then keyLoop m isBack fuel iSteps.toNat 0 junk info o
        else some (plainLoop m isBack iSteps.toNat info o)).map Prod.fst
      = if iKeyFlag then backNKeyLoop m isBack fuel iSteps.toNat 0 junk info
        else some (backNLoop m isBack iSteps.toNat info) := by
    cases iKeyFlag
    · exact congrArg some (plainLoop_fst m isBack iSteps.toNat info o)
    · exact keyLoop_fst m isBack fuel iSteps.toNat 0 junk info o
  unfold backNFrameNolock shmBackNFrameNolock
  split
  · dsimp only
    rw [← hmoved, Option.map_map, Option.map_map]
    congr 1
    funext p
    obtain ⟨⟨left, info'⟩, o'⟩ := p
    dsimp only [Function.comp_apply]
    split <;> rfl
  · split <;> rfl

theorem refreshNolock_fst (fuel : ℕ) (junk : ℕ → UInt8) (iKeyFlag : Bool) (o : ShmReadObject) :
    (o.refreshNolock m fuel junk iKeyFlag).map Prod.fst = shmRefreshNolock m fuel junk iKeyFlag := by
  unfold refreshNolock shmRefreshNolock
  rw [← refresh_fst m o]
  generalize o.refresh m = p
  obtain ⟨⟨rtn, info⟩, o₁⟩ := p
  dsimp only
  split
  · rw [← getExtras_fst m info o₁ junk]
    generalize o₁.getExtras m junk info = q
    obtain ⟨⟨ret, extra⟩, o₂⟩ := q
    dsimp only
    split
    · exact backNFrameNolock_fst m fuel junk 1 true true info o₂
    · rfl
  · rfl

theorem readAt_fst (enumMType : ShmMediaType) (bufLen : ℤ) (info : ShmInfo) (o : ShmReadObject) :
    (o.readAt m enumMType bufLen info).1 = shmReadAt m enumMType bufLen info := by
  unfold readAt shmReadAt
  rw [← readFrame_fst m info o]

theorem readFrameWithExtras_fst (fuel : ℕ) (junk : ℕ → UInt8) (enumMType : ShmMediaType)
    (bufLen : ℤ) (info : ShmInfo) (o : ShmReadObject) :
    (o.readFrameWithExtras m fuel junk enumMType bufLen info).map Prod.fst
      = shmReadFrameWithExtras m fuel junk enumMType bufLen info := by
  unfold readFrameWithExtras shmReadFrameWithExtras
  split
  · rw [← refreshNolock_fst m fuel junk _ o, Option.map_map, Option.map_map]
    congr 1
    funext p
    obtain ⟨⟨rtn, info'⟩, o'⟩ := p
    dsimp only [Function.comp_apply]
    split
    · rfl
    · exact readAt_fst m enumMType bufLen info' o'
  · exact congrArg some (readAt_fst m enumMType bufLen info o)

end ShmReadObject
