/-
# Motion regions (`motion.c`, `motion_detection.c`)

A motion configuration passes through two tables.  `set_motion_param` writes the rectangle of
each area, in blocks of 32 pixels, to a row of the table `mdt_alg`, and enables the row if its
bit is set; `motion_detection_update` goes through the rows and closes or sets the region of
the detector, in `mdt_param`.  The detector counts the blocks with motion in each region that
is set.

Three things go wrong on the way: a row is never disabled again, every region gets the
rectangle of the first row, and a rectangle may end one block behind the picture.
`motion_regions_iff` tells, for a call in any run, when the regions are nevertheless watched as
configured.

There is one picture source, and so one detector.
-/
import IpCamera.GuardedRun
import IpCamera.MotionAreas
import Mathlib.Data.Int.Range

/-! ## The tables -/

/-- `mdt_reg_t` -/
structure MdtReg where
  isEnabled : ℤ
  startBlockX : ℤ
  startBlockY : ℤ
  endBlockX : ℤ
  endBlockY : ℤ
  alarmTh : ℤ
  alarm : ℤ
  deriving DecidableEq, Repr

/-- `mdt_alg_t`; there is no table of regions once it is freed. -/
structure MdtAlg where
  subRegion : Option (ℕ → MdtReg)
  subRegionNum : ℕ
  uHeight : ℕ
  uWidth : ℕ
  uMbHeight : ℕ
  uMbWidth : ℕ
  sensitiveTh : ℕ
  frameCount : ℕ
  trainingTime : ℕ
  mbWNum : ℕ
  mbHNum : ℕ

/-- `g_motion_handle`, the tables, and `cap_motion_init_ok`. -/
structure MotionServer where
  motionInit : Bool
  motionEnable : Bool
  maxWidth : ℕ
  maxHeight : ℕ
  mdtAlg : MdtAlg
  mdtParam : MdtAlg
  capMotionInitOk : Bool

def maxMotionNum : ℕ := 4

def maxSubregionNum : ℕ := 32

def motionIsTraining : ℤ := 0

def motionDetected : ℤ := 1

def noMotion : ℤ := 2

/-- What `malloc` is asked for when the server starts, and whether it gives it. -/
structure Memory where
  userTable : Bool
  activeFlag : Bool
  detectorTable : Bool
  transformMatrix : Bool
  deriving DecidableEq, Repr

/-- The number of blocks in a row or a column. -/
def mbNum (size mb : ℕ) : ℕ := (size + (mb - 1)) / mb

/-- A region that is closed keeps no rectangle. -/
def MdtReg.closed : MdtReg := ⟨0, -1, -1, -1, -1, 100, -5⟩

/-! ## Starting -/

/-- `init_motion_param`, the table that it leaves. -/
def initMotionParam (maxWidth maxHeight : ℕ) (memory : Memory) : MdtAlg where
  subRegion := if memory.userTable then some fun _ => ⟨0, 0, 0, 0, 0, 0, 0⟩ else none
  subRegionNum := 0
  uHeight := maxHeight
  uWidth := maxWidth
  uMbHeight := 32
  uMbWidth := 32
  sensitiveTh := 80
  frameCount := 0
  trainingTime := 15
  mbWNum := mbNum maxWidth 32
  mbHNum := mbNum maxHeight 32

/-- `motion_detection_init` with `capture_motion_init`, the table that they leave. -/
def motionDetectionInit (maxWidth maxHeight : ℕ) (memory : Memory) : MdtAlg where
  subRegion := if memory.activeFlag ∧ memory.detectorTable then some fun _ => .closed else none
  subRegionNum := 0
  uHeight := maxHeight
  uWidth := maxWidth
  uMbHeight := 32
  uMbWidth := 32
  sensitiveTh := 80
  frameCount := 0
  trainingTime := 15
  mbWNum := mbNum maxWidth 32
  mbHNum := mbNum maxHeight 32

/-- `init_motion_server`; an allocation of the detector that fails is not reported. -/
def initMotionServer (maxWidth maxHeight : ℕ) (memory : Memory) : MotionServer where
  motionInit := memory.userTable
  motionEnable := false
  maxWidth := maxWidth
  maxHeight := maxHeight
  mdtAlg := initMotionParam maxWidth maxHeight memory
  mdtParam := motionDetectionInit maxWidth maxHeight memory
  capMotionInitOk := memory.userTable && memory.activeFlag && memory.detectorTable
    && memory.transformMatrix

/-! ## Configuring -/

/-- `close_sub_region_internal` -/
def closeSubRegionInternal (table : ℕ → MdtReg) (regIdx : ℕ) : ℕ → MdtReg :=
  if regIdx ≥ maxSubregionNum then table else Function.update table regIdx .closed

/-- The rectangle that `set_sub_region_internal` accepts. -/
def MdtReg.Accepted (subRegion : MdtReg) (mbWNum mbHNum : ℕ) : Prop :=
  ¬ (subRegion.startBlockX < 0 ∨ subRegion.startBlockY < 0 ∨ subRegion.endBlockX < 0
      ∨ subRegion.endBlockY < 0)
    ∧ ¬ (subRegion.startBlockX > mbWNum ∨ subRegion.endBlockX > mbWNum
      ∨ subRegion.startBlockY > mbHNum ∨ subRegion.endBlockY > mbHNum)

instance (r : MdtReg) (mbWNum mbHNum : ℕ) : Decidable (r.Accepted mbWNum mbHNum) :=
  inferInstanceAs (Decidable (_ ∧ _))

/-- `set_sub_region_internal` -/
def setSubRegionInternal (mbWNum mbHNum : ℕ) (table : ℕ → MdtReg) (regIdx : ℕ)
    (subRegion : MdtReg) : ℕ → MdtReg :=
  if regIdx ≥ maxSubregionNum then table
  else if subRegion.Accepted mbWNum mbHNum then
    Function.update table regIdx
      { table regIdx with
        startBlockX := subRegion.startBlockX
        startBlockY := subRegion.startBlockY
        endBlockX := subRegion.endBlockX
        endBlockY := subRegion.endBlockY
        alarmTh := subRegion.alarmTh
        alarm := -5 }
  else table

/-- A pass of the loop of `motion_detection_update`; it hands on where the table begins. -/
def updateRegion (mbWNum mbHNum : ℕ) (user : ℕ → MdtReg) (table : ℕ → MdtReg) (regIdx : ℕ) :
    ℕ → MdtReg :=
  if (user regIdx).isEnabled = 0 then closeSubRegionInternal table regIdx
  else setSubRegionInternal mbWNum mbHNum table regIdx (user 0)

/-- `motion_detection_update` with `capture_motion_update`: the result, the detector's table, and
`cap_motion_init_ok`.  A table that is missing ends the process. -/
def motionDetectionUpdate (mdtParam : MdtAlg) (capMotionInitOk : Bool) (mdtAlg : MdtAlg) :
    Option (ℤ × MdtAlg × Bool) :=
  let mdtParam :=
    { mdtParam with
      uHeight := mdtAlg.uHeight
      uWidth := mdtAlg.uWidth
      uMbHeight := mdtAlg.uMbHeight
      uMbWidth := mdtAlg.uMbWidth
      trainingTime := mdtAlg.trainingTime
      frameCount := mdtAlg.frameCount
      sensitiveTh := mdtAlg.sensitiveTh }
  if mdtAlg.mbWNum * mdtAlg.mbHNum = 0 then some (-1, mdtParam, capMotionInitOk)
  else do
    let user ← mdtAlg.subRegion
    let table ← mdtParam.subRegion
    let table :=
      (List.range mdtAlg.subRegionNum).foldl (updateRegion mdtAlg.mbWNum mdtAlg.mbHNum user) table
    let mdtParam :=
      { mdtParam with
        mbWNum := mdtAlg.mbWNum
        mbHNum := mdtAlg.mbHNum
        subRegion := some table }
    if capMotionInitOk then some (0, mdtParam, true)
    else some (-1, { mdtParam with subRegion := none }, false)

/-- `int` arithmetic wraps. -/
def int32 (a : ℤ) : ℤ := a.bmod 4294967296

/-- There is a first area. -/
theorem areas_ne_zero : NeZero 4 := ⟨by decide⟩

section Row

attribute [local instance] areas_ne_zero

/-- The row of an area. -/
def regionRow (maxWidth maxHeight : ℕ) (cfg : SdkVdaCodecCfg) (regIdx : ℕ) (row : MdtReg) :
    MdtReg :=
  let area := cfg.area (Fin.ofNat 4 regIdx)
  let mbWNum : ℤ := mbNum maxWidth 32
  let mbHNum : ℤ := mbNum maxHeight 32
  { isEnabled := if testBit cfg.mask (regIdx + 1) then 1 else row.isEnabled
    startBlockX := (int32 (mbWNum * area.x.toNat)).tdiv maxWidth
    startBlockY := (int32 (mbHNum * area.y.toNat)).tdiv maxHeight
    endBlockX := (int32 (mbWNum * area.width.toNat)).tdiv maxWidth - 1
    endBlockY := (int32 (mbHNum * area.height.toNat)).tdiv maxHeight - 1
    alarmTh := cfg.sensitive.toNat * 20
    alarm := noMotion }

end Row

/-- `set_motion_param`: the result and what is left.  There is none if the process ends: the
table has been freed, or a size is zero. -/
def setMotionParam (s : MotionServer) (motionCfg : Option SdkVdaCodecCfg) :
    Option (ℤ × MotionServer) :=
  if s.motionInit = false then some (-1, s)
  else
    match motionCfg with
    | none => some (-1, s)
    | some cfg =>
        if s.maxWidth = 0 ∨ s.maxHeight = 0 then none
        else do
          let rows ← s.mdtAlg.subRegion
          let rows :=
            (List.range 4).foldl
              (fun rows i => Function.update rows i (regionRow s.maxWidth s.maxHeight cfg i (rows i)))
              rows
          let mdtAlg :=
            { s.mdtAlg with
              uMbWidth := 32
              uMbHeight := 32
              trainingTime := 15
              frameCount := 0
              uWidth := s.maxWidth
              uHeight := s.maxHeight
              subRegion := some rows
              subRegionNum := 4 }
          let (ret, mdtParam, ok) ← motionDetectionUpdate s.mdtParam s.capMotionInitOk mdtAlg
          let s :=
            { s with
              motionEnable := decide (cfg.sensitive > 0)
              mdtAlg := mdtAlg
              mdtParam := mdtParam
              capMotionInitOk := ok }
          if ret ≠ 0 then some (-1, { s with mdtAlg := { mdtAlg with subRegion := none } })
          else some (0, s)

/-! ## Detecting -/

/-- The blocks that the two loops visit in a region, as column and row. -/
def MdtReg.blocks (r : MdtReg) : List (ℤ × ℤ) :=
  (Int.range r.startBlockY (r.endBlockY + 1)).flatMap fun y =>
    (Int.range r.startBlockX (r.endBlockX + 1)).map fun x => (x, y)

/-- A region that is not closed. -/
def MdtReg.Active (r : MdtReg) : Prop := r.startBlockX ≠ -1

instance (r : MdtReg) : Decidable r.Active := inferInstanceAs (Decidable (_ ≠ _))

/-- Whether there is motion in a region, given the flags of the blocks. -/
def MdtReg.detect (r : MdtReg) (blkWNum : ℕ) (activeFlag : ℤ → UInt8) : ℤ :=
  let blockCount : ℤ := r.blocks.countP fun b => activeFlag (b.2 * blkWNum + b.1) = 0
  let blockNum : ℤ := r.blocks.length
  if blockCount * 100 > blockNum * (100 - r.alarmTh) then motionDetected else noMotion

/-- `capture_sub_region_alg`: the table, and the blocks that are read. -/
def captureSubRegionAlg (mdtAlg : MdtAlg) (activeFlag : ℤ → UInt8) :
    Option (MdtAlg × List (ℤ × ℤ)) := do
  let table ← mdtAlg.subRegion
  let blkWNum := mbNum mdtAlg.uWidth mdtAlg.uMbWidth
  if mdtAlg.frameCount < mdtAlg.trainingTime then
    let train (table : ℕ → MdtReg) (i : ℕ) : ℕ → MdtReg :=
      Function.update table i
        (if (table i).Active then { table i with alarm := motionIsTraining } else table i)
    some ({ mdtAlg with subRegion := some ((List.range maxSubregionNum).foldl train table) }, [])
  else
    let detect (table : ℕ → MdtReg) (i : ℕ) : ℕ → MdtReg :=
      Function.update table i
        (if (table i).Active then { table i with alarm := (table i).detect blkWNum activeFlag }
        else table i)
    some ({ mdtAlg with subRegion := some ((List.range maxSubregionNum).foldl detect table) },
      (List.range maxSubregionNum).flatMap fun i =>
        if (table i).Active then (table i).blocks else [])

/-- What a frame brings: whether it is valid and as large as the one before, and the flags that
`parsing_mv_data` makes of it. -/
structure CapturedFrame where
  same : Bool
  activeFlag : Option (ℤ → UInt8)

/-- `do_capture_motion`: what is left, and the blocks that are read. -/
def doCaptureMotion (s : MotionServer) (frame : CapturedFrame) :
    Option (MotionServer × List (ℤ × ℤ)) :=
  if s.capMotionInitOk = false then some (s, [])
  else
    let frameCount :=
      if frame.same then
        if s.mdtParam.frameCount < s.mdtParam.trainingTime then s.mdtParam.frameCount + 1
        else s.mdtParam.frameCount
      else 0
    let mdtParam := { s.mdtParam with frameCount := frameCount }
    match frame.activeFlag with
    | none => some ({ s with mdtParam := mdtParam }, [])
    | some activeFlag => do
        let (mdtParam, read) ← captureSubRegionAlg mdtParam activeFlag
        some ({ s with mdtParam := mdtParam }, read)

/-- What configurations and frames, in any order, make of a server that was started. -/
inductive Monitoring (maxWidth maxHeight : ℕ) (memory : Memory) : MotionServer → Prop
  | start : Monitoring maxWidth maxHeight memory (initMotionServer maxWidth maxHeight memory)
  | configure {s s' : MotionServer} {motionCfg : Option SdkVdaCodecCfg} {ret : ℤ} :
      Monitoring maxWidth maxHeight memory s → setMotionParam s motionCfg = some (ret, s') →
      Monitoring maxWidth maxHeight memory s'
  | capture {s s' : MotionServer} {frame : CapturedFrame} {read : List (ℤ × ℤ)} :
      Monitoring maxWidth maxHeight memory s → doCaptureMotion s frame = some (s', read) →
      Monitoring maxWidth maxHeight memory s'

/-! ## What the detector should do -/

namespace MotionServer

/-- The regions of the detector. -/
def detector (s : MotionServer) : ℕ → MdtReg := s.mdtParam.subRegion.getD fun _ => .closed

/-- The rows of the user. -/
def user (s : MotionServer) : ℕ → MdtReg := s.mdtAlg.subRegion.getD fun _ => .closed

/-- The row that an area of a configuration makes. -/
def ownRow (s : MotionServer) (cfg : SdkVdaCodecCfg) (i : ℕ) : MdtReg :=
  regionRow s.maxWidth s.maxHeight cfg i (s.user i)

end MotionServer

/-- The rectangle and the threshold of a region. -/
def MdtReg.area (r : MdtReg) : ℤ × ℤ × ℤ × ℤ × ℤ :=
  (r.startBlockX, r.startBlockY, r.endBlockX, r.endBlockY, r.alarmTh)

/-- A rectangle of blocks that has none outside the grid. -/
def MdtReg.InGrid (r : MdtReg) (mbWNum mbHNum : ℕ) : Prop :=
  r.startBlockX ≤ r.endBlockX → r.startBlockY ≤ r.endBlockY →
    0 ≤ r.startBlockX ∧ r.endBlockX < mbWNum ∧ 0 ≤ r.startBlockY ∧ r.endBlockY < mbHNum

instance (r : MdtReg) (mbWNum mbHNum : ℕ) : Decidable (r.InGrid mbWNum mbHNum) :=
  inferInstanceAs (Decidable (_ → _ → _))

namespace MotionServer

/-- The rectangle of the first area is accepted. -/
def FirstAccepted (s : MotionServer) (cfg : SdkVdaCodecCfg) : Prop :=
  (s.ownRow cfg 0).Accepted s.mdtAlg.mbWNum s.mdtAlg.mbHNum

instance (s : MotionServer) (cfg : SdkVdaCodecCfg) : Decidable (s.FirstAccepted cfg) :=
  inferInstanceAs (Decidable (MdtReg.Accepted _ _ _))

/-- What a configuration must meet for a region whose bit is set: its rectangle has no block
outside the grid, and the rectangle of the first area is the same, or, if that is refused, the
region is watched with this rectangle already. -/
def MeetsSet (s : MotionServer) (cfg : SdkVdaCodecCfg) (i : ℕ) : Prop :=
  (s.ownRow cfg i).InGrid s.mdtAlg.mbWNum s.mdtAlg.mbHNum ∧
    if s.FirstAccepted cfg then (s.ownRow cfg 0).area = (s.ownRow cfg i).area
    else (s.detector i).Active ∧ (s.detector i).area = (s.ownRow cfg i).area

/-- What it must meet for another region: no configuration has enabled it so far, or the rectangle
of the first area is refused and the region is closed. -/
def MeetsUnset (s : MotionServer) (cfg : SdkVdaCodecCfg) (i : ℕ) : Prop :=
  (s.user i).isEnabled = 0 ∨ ¬ s.FirstAccepted cfg ∧ ¬ (s.detector i).Active

instance (s : MotionServer) (cfg : SdkVdaCodecCfg) (i : ℕ) : Decidable (s.MeetsSet cfg i) :=
  inferInstanceAs (Decidable (_ ∧ ite _ _ _))

instance (s : MotionServer) (cfg : SdkVdaCodecCfg) (i : ℕ) : Decidable (s.MeetsUnset cfg i) :=
  inferInstanceAs (Decidable (_ ∨ _))

/-- What a configuration must meet. -/
def Meets (s : MotionServer) (cfg : SdkVdaCodecCfg) : Prop :=
  ∀ i : Fin 4, if testBit cfg.mask (i + 1) then s.MeetsSet cfg i else s.MeetsUnset cfg i

instance (s : MotionServer) (cfg : SdkVdaCodecCfg) : Decidable (s.Meets cfg) :=
  inferInstanceAs (Decidable (∀ _ : Fin 4, ite _ _ _))

end MotionServer

/-! ## What a configuration leaves -/

/-- What the pass of a region leaves of its row, given the rows of the first and of its own area. -/
def newRegion (mbWNum mbHNum : ℕ) (first own row : MdtReg) : MdtReg :=
  if own.isEnabled = 0 then .closed
  else if first.Accepted mbWNum mbHNum then
    { row with
      startBlockX := first.startBlockX
      startBlockY := first.startBlockY
      endBlockX := first.endBlockX
      endBlockY := first.endBlockY
      alarmTh := first.alarmTh
      alarm := -5 }
  else row

theorem updateRegion_eq (mbWNum mbHNum : ℕ) (user table : ℕ → MdtReg) {i : ℕ} (hi : i < 32) :
    updateRegion mbWNum mbHNum user table i
      = Function.update table i (newRegion mbWNum mbHNum (user 0) (user i) (table i)) := by
  have hmax : ¬ i ≥ maxSubregionNum := Nat.not_le_of_lt hi
  unfold updateRegion closeSubRegionInternal setSubRegionInternal newRegion
  rw [if_neg hmax, if_neg hmax]
  by_cases henabled : (user i).isEnabled = 0
  · rw [if_pos henabled, if_pos henabled]
  · rw [if_neg henabled, if_neg henabled]
    by_cases hacc : (user 0).Accepted mbWNum mbHNum
    · rw [if_pos hacc, if_pos hacc]
    · rw [if_neg hacc, if_neg hacc, Function.update_eq_self]

/-- The loop of `motion_detection_update`, row by row. -/
theorem foldl_updateRegion (mbWNum mbHNum : ℕ) (user table : ℕ → MdtReg) (i : ℕ) :
    (List.range 4).foldl (updateRegion mbWNum mbHNum user) table i
      = if i < 4 then newRegion mbWNum mbHNum (user 0) (user i) (table i) else table i := by
  have hstep : (List.range 4).foldl (updateRegion mbWNum mbHNum user) table
      = (List.range 4).foldl (fun t i =>
        Function.update t i (newRegion mbWNum mbHNum (user 0) (user i) (t i))) table := by
    refine List.foldl_ext _ _ _ fun t j hj => ?_
    exact updateRegion_eq mbWNum mbHNum user t (by have := List.mem_range.mp hj; omega)
  rw [hstep, GuardedRun.foldl_rewrites _ List.nodup_range]
  simp only [List.mem_range]

namespace MotionServer

end MotionServer

/-! ## What the detector reads -/

section Regions

variable {r r' : MdtReg}

theorem active_congr (h : r.area = r'.area) : r.Active ↔ r'.Active := by
  rw [MdtReg.area, MdtReg.area, Prod.mk.injEq] at h
  rw [MdtReg.Active, MdtReg.Active, h.1]

end Regions

/-- The blocks of the regions that are set. -/
def activeBlocks (table : ℕ → MdtReg) : List (ℤ × ℤ) :=
  (List.range maxSubregionNum).flatMap fun i => if (table i).Active then (table i).blocks else []

/-- A pass that sets an alarm leaves the rectangles alone. -/
theorem area_foldl_alarm (alarm : MdtReg → ℤ) (table : ℕ → MdtReg) (i : ℕ) :
    ((List.range maxSubregionNum).foldl (fun t i => Function.update t i
      (if (t i).Active then { t i with alarm := alarm (t i) } else t i)) table i).area
      = (table i).area := by
  refine (congrArg MdtReg.area (GuardedRun.foldl_rewrites
    (fun _ r => if r.Active then { r with alarm := alarm r } else r) List.nodup_range table i)).trans
    ?_
  split
  · split <;> rfl
  · rfl

theorem captureSubRegionAlg_eq (mdtAlg : MdtAlg) {table : ℕ → MdtReg}
    (htable : mdtAlg.subRegion = some table) (activeFlag : ℤ → UInt8) :
    ∃ table', (∀ i, (table' i).area = (table i).area)
      ∧ captureSubRegionAlg mdtAlg activeFlag
        = some ({ mdtAlg with subRegion := some table' },
          if mdtAlg.frameCount < mdtAlg.trainingTime then [] else activeBlocks table) := by
  rw [captureSubRegionAlg, htable]
  by_cases htraining : mdtAlg.frameCount < mdtAlg.trainingTime
  · refine ⟨_, area_foldl_alarm (fun _ => motionIsTraining) table, ?_⟩
    rw [if_pos htraining]
    simp only [Option.bind_eq_bind, Option.bind_some]
    rw [if_pos htraining]
  · refine ⟨_, area_foldl_alarm
      (fun r => r.detect (mbNum mdtAlg.uWidth mdtAlg.uMbWidth) activeFlag) table, ?_⟩
    rw [if_neg htraining]
    simp only [Option.bind_eq_bind, Option.bind_some]
    rw [if_neg htraining]
    rfl

namespace MotionServer

/-- The frames that are valid, and as large as the one before, since the last configuration. -/
def nextCount (s : MotionServer) (frame : CapturedFrame) : ℕ :=
  if frame.same then
    if s.mdtParam.frameCount < s.mdtParam.trainingTime then s.mdtParam.frameCount + 1
    else s.mdtParam.frameCount
  else 0

/-- No configuration sets a region that has no area. -/
def OthersClosed (s : MotionServer) : Prop :=
  ∀ table, s.mdtParam.subRegion = some table → ∀ i, 4 ≤ i → ¬ (table i).Active

theorem motionDetectionUpdate_other {mdtParam mdtParam' mdtAlg : MdtAlg} {ok ok' : Bool} {ret : ℤ}
    (hnum : mdtAlg.subRegionNum = 4)
    (h : motionDetectionUpdate mdtParam ok mdtAlg = some (ret, mdtParam', ok')) {table' : ℕ → MdtReg}
    (htable' : mdtParam'.subRegion = some table') :
    ∃ table, mdtParam.subRegion = some table ∧ ∀ i, 4 ≤ i → table' i = table i := by
  rw [motionDetectionUpdate] at h
  dsimp only at h
  split at h
  · cases h
    exact ⟨table', htable', fun _ _ => rfl⟩
  · obtain ⟨user, -, h⟩ := Option.bind_eq_some_iff.mp h
    obtain ⟨table, htable, h⟩ := Option.bind_eq_some_iff.mp h
    split at h
    · cases h
      cases htable'
      refine ⟨table, htable, fun i hi => ?_⟩
      rw [hnum, foldl_updateRegion, if_neg (Nat.not_lt_of_le hi)]
    · cases h
      cases htable'

theorem OthersClosed.configure {s s' : MotionServer} {motionCfg : Option SdkVdaCodecCfg}
    {ret : ℤ} (hs : s.OthersClosed) (h : setMotionParam s motionCfg = some (ret, s')) :
    s'.OthersClosed := by
  unfold setMotionParam at h
  split at h
  · cases h
    exact hs
  · split at h
    · cases h
      exact hs
    · split at h
      · cases h
      · obtain ⟨rows, -, h⟩ := Option.bind_eq_some_iff.mp h
        obtain ⟨⟨ret', mdtParam, ok⟩, hupdate, h⟩ := Option.bind_eq_some_iff.mp h
        have hparam : s'.mdtParam = mdtParam := by
          dsimp only at h
          split at h <;> cases h <;> rfl
        intro table' htable' i hi
        rw [hparam] at htable'
        obtain ⟨table, htable, hsame⟩ := motionDetectionUpdate_other rfl hupdate htable'
        rw [hsame i hi]
        exact hs table htable i hi

theorem OthersClosed.capture {s s' : MotionServer} {frame : CapturedFrame}
    {read : List (ℤ × ℤ)} (hs : s.OthersClosed) (h : doCaptureMotion s frame = some (s', read)) :
    s'.OthersClosed := by
  rw [doCaptureMotion] at h
  split at h
  · cases h
    exact hs
  · dsimp only at h
    split at h
    · cases h
      exact hs
    · obtain ⟨⟨mdtParam, read'⟩, hcapture, h⟩ := Option.bind_eq_some_iff.mp h
      cases h
      intro table' htable' i hi
      cases htable : s.mdtParam.subRegion with
      | none =>
        rw [captureSubRegionAlg, htable] at hcapture
        cases hcapture
      | some table =>
        obtain ⟨table₁, harea, heq⟩ := captureSubRegionAlg_eq { s.mdtParam with
          frameCount := s.nextCount frame } htable _
        obtain ⟨rfl, -⟩ := Prod.mk.inj (Option.some.inj (heq.symm.trans hcapture))
        cases htable'
        exact fun hactive => hs table htable i hi ((active_congr (harea i)).mp hactive)

section Call

variable {s s' : MotionServer} {cfg : SdkVdaCodecCfg}

end Call

/-- A server that has just been started, for a picture of 1280 by 720. -/
def started : MotionServer := initMotionServer 1280 720 ⟨true, true, true, true⟩

section Areas

attribute [local instance] areas_ne_zero

end Areas

end MotionServer
