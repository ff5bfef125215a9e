/-
# The clock set by hand (`tutk_msg.c`, `main_msg.c`)

The app's request goes through three records: its own, `sdk_date_t` on the way to
`main_msg_systime`, and the stored one.  The stored zone does not survive, because
`os_local_time` writes its weekday as four bytes over the last four of the record; and the
reply adds 8 to the day of the month.  So what is read back is known exactly
(`tkGetNtp_tkSetNtp`), and it is never what was set.
-/
import IpCamera.EventList
import IpCamera.LocalTime

open Calendar

/-! ## The records -/

/-- `ntp_set_time` -/
structure NtpSetTime where
  year : UInt32
  month : UInt32
  date : UInt32
  hour : UInt32
  minute : UInt32
  second : UInt32
deriving DecidableEq, Repr

/-- What the handlers use of `SMsgAVIoctrlSetNtpConfigReq`. -/
structure SetNtpReq where
  mod : UInt32
  time : NtpSetTime
  timeZone : UInt8

/-- What the reply reports, `SMsgAVIoctrlGetNtpConfigResp`. -/
structure GetNtpResp where
  time : NtpSetTime
  timeZone : UInt8
deriving DecidableEq, Repr

/-- `sdk_date_t`; its last four bytes are the ones after `_time`. -/
structure SdkDate where
  time : SdkTime
  wday : UInt8
  tzone : UInt8
  ntpOrManual : UInt8
  res : UInt8
deriving DecidableEq, Repr

/-- The calendar date and the time of day. -/
def SdkTime.date (t : SdkTime) : Date := ⟨t.year.toNat, t.mon.toNat, t.day.toNat⟩

def SdkTime.timeOfDay (t : SdkTime) : TimeOfDay := ⟨t.hour.toNat, t.min.toNat, t.sec.toNat⟩

/-- A record after `memset` with zero. -/
def SdkDate.zero : SdkDate := ⟨⟨0, 0, 0, 0, 0, 0⟩, 0, 0, 0, 0⟩

/-- An `unsigned int` stored at `&wday`. -/
def SdkDate.storeWday (d : SdkDate) (weekday : ℕ) : SdkDate :=
  { d with
    wday := UInt8.ofNat weekday
    tzone := UInt8.ofNat (weekday / 256)
    ntpOrManual := UInt8.ofNat (weekday / 65536)
    res := UInt8.ofNat (weekday / 16777216) }

/-- A weekday is one byte, so the zone, the mode and the last byte become zero. -/
theorem SdkDate.tzone_storeWday (d : SdkDate) (weekday : Fin 7) :
    (d.storeWday weekday).tzone = 0 := by
  have h : (weekday : ℕ) / 256 = 0 := by omega
  rw [storeWday]
  dsimp only
  rw [h]
  rfl

/-! ## The handlers -/

/-- The system clock in seconds, and the record of `adapt_param_set_systime`. -/
structure SystemTime where
  now : ℤ
  systime : SdkDate

section Handlers

variable (clock : LocalClock)

/-- `main_msg_systime` with `SDK_PARAM_SET`; `sysTime` is what its uninitialised record holds. -/
def mainMsgSystimeSet (st : SystemTime) (systimeCfg sysTime : SdkDate) : SystemTime :=
  if systimeCfg.ntpOrManual = 2 then
    let totalSeconds := clock.osMakeTime systimeCfg.time.date systimeCfg.time.timeOfDay
    if totalSeconds ≤ 0 then st
    else
      let sysTime := { SdkDate.zero with
        time := { systimeCfg.time with
          hour := systimeCfg.time.hour - (systimeCfg.tzone.toUInt32 - 12) }
        tzone := systimeCfg.tzone }
      ⟨totalSeconds, sysTime.storeWday (clock.osLocalTime totalSeconds).wday⟩
  else if 1 = systimeCfg.ntpOrManual then
    { st with systime := { sysTime with tzone := systimeCfg.tzone } }
  else { st with systime := sysTime }

/-- `main_msg_systime` with `SDK_PARAM_GET`, on a message of zeros; the time is that of
`os_get_time`. -/
def mainMsgSystimeGet (st : SystemTime) : SdkDate :=
  let tm := clock.localtime st.now
  { SdkDate.zero with
    time := ⟨UInt32.ofNat tm.date.year, UInt32.ofNat tm.date.month, UInt32.ofNat tm.date.day,
      UInt32.ofNat tm.time.hour, UInt32.ofNat tm.time.minute, UInt32.ofNat tm.time.second⟩
    tzone := st.systime.tzone }

/-- `TK_set_ntp_req_handle` -/
def tkSetNtp (st : SystemTime) (p : SetNtpReq) (sysTime : SdkDate) : SystemTime :=
  if p.mod = 1 then
    let cfg := { mainMsgSystimeGet clock st with
      tzone := p.timeZone
      ntpOrManual := p.mod.toUInt8 }
    mainMsgSystimeSet clock st cfg sysTime
  else if p.mod = 2 then
    let timeCfg := { SdkDate.zero with
      tzone := p.timeZone
      time := ⟨p.time.year, p.time.month, p.time.date, p.time.hour, p.time.minute, p.time.second⟩
      ntpOrManual := p.mod.toUInt8 }
    mainMsgSystimeSet clock st timeCfg sysTime
  else st

/-- `TK_get_ntp_req_handle` -/
def tkGetNtp (st : SystemTime) : GetNtpResp :=
  let timeCfg := mainMsgSystimeGet clock st
  { time :=
      { year := timeCfg.time.year
        month := timeCfg.time.mon
        date := timeCfg.time.day + 8
        hour := timeCfg.time.hour
        minute := timeCfg.time.min
        second := timeCfg.time.sec }
    timeZone := timeCfg.tzone }

end Handlers

/-! ## Setting and reading -/

/-- A request in manual mode for a date and time from 1971 to 2037. -/
structure ManualTime extends SetNtpReq where
  manual : mod = 2
  year : 1971 ≤ time.year.toNat ∧ time.year.toNat ≤ 2037
  date : (⟨time.year.toNat, time.month.toNat, time.date.toNat⟩ : Date).Valid
  clock : (⟨time.hour.toNat, time.minute.toNat, time.second.toNat⟩ : TimeOfDay).Valid

/-- What is read after the clock was set by hand: the day of the month is 8 too high, and the zone
is 0. -/
theorem tkGetNtp_tkSetNtp (clock : LocalClock) (st : SystemTime) (req : ManualTime)
    (sysTime : SdkDate) :
    tkGetNtp clock (tkSetNtp clock st req.toSetNtpReq sysTime)
      = ⟨{ req.time with date := req.time.date + 8 }, 0⟩ := by
  obtain ⟨⟨mod, time, timeZone⟩, hmod, ⟨hyear, -⟩, hdate, htime⟩ := req
  dsimp only at hmod hyear hdate htime
  subst hmod
  obtain ⟨hmake, hpos⟩ := clock.osMakeTime_of_year hdate hyear
    ⟨time.hour.toNat, time.minute.toNat, time.second.toNat⟩
  obtain ⟨hread, hread'⟩ := clock.localtime_mktime _ _ hdate htime (le_of_lt hpos)
  have hmode : ¬ (2 : UInt32) = 1 := by decide
  have hbyte : (2 : UInt32).toUInt8 = 2 := rfl
  unfold tkSetNtp
  dsimp only
  rw [if_neg hmode, if_pos rfl, hbyte, mainMsgSystimeSet, if_pos rfl]
  dsimp only [SdkTime.date, SdkTime.timeOfDay]
  rw [hmake, if_neg (by omega), tkGetNtp, mainMsgSystimeGet]
  dsimp only
  rw [hread, hread', SdkDate.tzone_storeWday]
  simp only [UInt32.ofNat_toNat]

/-- For every local time, every state before and every date, time and zone: the clock that was
set by hand does not read back. -/
theorem manual_time_never_reads_back (clock : LocalClock) (st : SystemTime) (req : ManualTime)
    (sysTime : SdkDate) :
    ¬ ((tkGetNtp clock (tkSetNtp clock st req.toSetNtpReq sysTime)).time = req.time
      ∧ (tkGetNtp clock (tkSetNtp clock st req.toSetNtpReq sysTime)).timeZone = req.timeZone) := by
  rw [tkGetNtp_tkSetNtp]
  rintro ⟨htime, -⟩
  have hday : req.time.date + 8 = req.time.date := congrArg NtpSetTime.date htime
  have hzero : (8 : UInt32) = 0 := by
    simpa using hday
  exact absurd hzero (by decide)

/-- Noon of 1 June 2015, in zone 20. -/
def juneNoon : ManualTime where
  mod := 2
  time := ⟨2015, 6, 1, 12, 0, 0⟩
  timeZone := 20
  manual := rfl
  year := by decide
  date := ⟨by decide, by decide, by decide⟩
  clock := ⟨by decide, by decide, by decide⟩

/-- It reads back as 9 June, in zone 0. -/
theorem june_noon_reads_back :
    let st := tkSetNtp (zoneClock 28800 (by decide)) ⟨0, SdkDate.zero⟩ juneNoon.toSetNtpReq
      SdkDate.zero
    tkGetNtp (zoneClock 28800 (by decide)) st = ⟨⟨2015, 6, 9, 12, 0, 0⟩, 0⟩
      ∧ ¬ ((tkGetNtp (zoneClock 28800 (by decide)) st).time = juneNoon.time
        ∧ (tkGetNtp (zoneClock 28800 (by decide)) st).timeZone = juneNoon.timeZone) := by
  dsimp only
  rw [tkGetNtp_tkSetNtp]
  exact ⟨rfl, by decide⟩
