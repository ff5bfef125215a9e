/-
# Motion alarms by schedule and interval (`event_handle.c`)

A motion event passes when the schedule is on, the interval since the last event that
passed is over, and the minute lies in an enabled slot of its weekday
(`eventSchedCheck_isSome`).  Two things keep due events out: the loop looks at four of the
five slots of a day, and "no event yet" is remembered as an event at second 0.
`motion_alarms_exact_iff` says that these are the only ones.
-/
import IpCamera.LocalTime
import IpCamera.MotionAreas
import IpCamera.RecordMode

open Calendar

/-! ## The check -/

/-- `DETECT_INTERVAL_TIME` -/
def detectIntervalTime : ℕ := 5

/-- What a motion event that passes changes, and `prev_occur_time`. -/
structure EventState where
  prevOccurTime : ℤ
  recordFlags : RecordFlags
  recordAlarmTriger : ℕ
  ledStatus : ℕ
  buzzerStatus : ℕ
deriving DecidableEq, Repr

section Check

variable (clock : LocalClock)

/-- `_sched_calc` -/
def schedCalc (now : ℤ) (date : Date) (sched : SdkDayTime) : Bool :=
  if sched.startHour = sched.stopHour ∧ sched.startMin = sched.stopMin then false
  else
    let start := clock.osMakeTime date ⟨sched.startHour.toNat, sched.startMin.toNat, 0⟩
    let stop := clock.osMakeTime date ⟨sched.stopHour.toNat, sched.stopMin.toNat, 59⟩
    if start < stop then decide (now ≥ start ∧ now ≤ stop) else false

/-- `interval_time` of `event_sched_check`. -/
def SdkSchedTime.interval (schedTime : SdkSchedTime) : ℕ :=
  if schedTime.intervalTime.toNat ≥ detectIntervalTime then schedTime.intervalTime.toNat
  else detectIntervalTime

/-- The loop over `time_seg_num`. -/
def inSchedFlags (schedTime : SdkSchedTime) (now : ℤ) : Bool :=
  (List.range 4).any fun timeSegNum =>
    let sched := schedTime.weekSchedInfo (clock.osLocalTime now).wday timeSegNum
    sched.enable ≠ 0 && schedCalc clock now (clock.osLocalTime now).date sched

/-- `event_sched_check`: the new `*prev_occur_time`, if it returns 0.  The elapsed time is compared
as an unsigned number. -/
def eventSchedCheck (schedTime : SdkSchedTime) (prevOccurTime now : ℤ) : Option ℤ :=
  if schedTime.enable = 0 then none
  else if (now - prevOccurTime) % 4294967296 < schedTime.interval then none
  else if inSchedFlags clock schedTime now then some now
  else none

/-- `event_handle_motion`, and whether the event passed. -/
def eventHandleMotion (cfg : SdkMotionCfg) (now : ℤ) (s : EventState) : EventState × Bool :=
  if cfg.codecVdaCfg.enable = 0 then (s, false)
  else
    match eventSchedCheck clock cfg.schedTime s.prevOccurTime now with
    | none => (s, false)
    | some prevOccurTime =>
      ({ s with
          prevOccurTime := prevOccurTime
          recordAlarmTriger :=
            if cfg.alarmHandle.recordEnable ≠ 0 ∧ s.recordFlags = .alarm then
              s.recordAlarmTriger ||| 1
            else s.recordAlarmTriger
          ledStatus := s.ledStatus ||| 1 <<< 4
          buzzerStatus := s.buzzerStatus ||| 1 <<< 2 }, true)

/-! ## What should pass -/

/-- Minutes since midnight. -/
def SdkDayTime.startMinute (sched : SdkDayTime) : ℕ :=
  60 * sched.startHour.toNat + sched.startMin.toNat

def SdkDayTime.stopMinute (sched : SdkDayTime) : ℕ :=
  60 * sched.stopHour.toNat + sched.stopMin.toNat

/-- A motion configuration with detection on, whose enabled slots start before they stop. -/
structure WeeklyMotion extends SdkMotionCfg where
  detects : codecVdaCfg.enable ≠ 0
  earlier : ∀ weekday timeSegNum, (schedTime.weekSchedInfo weekday timeSegNum).enable ≠ 0 →
    (schedTime.weekSchedInfo weekday timeSegNum).startMinute
      < (schedTime.weekSchedInfo weekday timeSegNum).stopMinute

/-- The hour and the minute lie in this slot of the weekday, and it is enabled. -/
def Covers (schedTime : SdkSchedTime) (tm : BrokenTime) (timeSegNum : ℕ) : Prop :=
  (schedTime.weekSchedInfo tm.wday timeSegNum).enable ≠ 0
    ∧ (schedTime.weekSchedInfo tm.wday timeSegNum).startMinute
        ≤ 60 * tm.time.hour + tm.time.minute
    ∧ 60 * tm.time.hour + tm.time.minute
        ≤ (schedTime.weekSchedInfo tm.wday timeSegNum).stopMinute

/-- `MAX_TIME_SEG_NUM` -/
def maxTimeSegNum : ℕ := 5

/-- An event should pass: the schedule is on, the interval since the last one that passed is over,
and some slot covers the minute. -/
def Passes (schedTime : SdkSchedTime) (last : Option ℤ) (now : ℤ) : Prop :=
  schedTime.enable ≠ 0
    ∧ (∀ t ∈ last, (max schedTime.intervalTime.toNat detectIntervalTime : ℤ) ≤ now - t)
    ∧ ∃ timeSegNum < maxTimeSegNum, Covers schedTime (clock.localtime now) timeSegNum

/-- The event should pass, but only the fifth slot covers its minute, or it is the first one and the
clock shows less than the interval since 1970. -/
def Missed (schedTime : SdkSchedTime) (last : Option ℤ) (now : ℤ) : Prop :=
  Passes clock schedTime last now
    ∧ ((∀ timeSegNum < 4, ¬ Covers schedTime (clock.localtime now) timeSegNum)
      ∨ last = none ∧ now < max schedTime.intervalTime.toNat detectIntervalTime)

end Check

/-! ## One event -/

theorem interval_eq (schedTime : SdkSchedTime) :
    schedTime.interval = max schedTime.intervalTime.toNat detectIntervalTime := by
  unfold SdkSchedTime.interval
  split <;> omega

/-- After second 0, a slot of the day is found exactly when the minute lies in it. -/
theorem schedCalc_iff (clock : LocalClock) {now : ℤ} (hnow : 0 < now) {sched : SdkDayTime}
    (hsched : sched.startMinute < sched.stopMinute) :
    schedCalc clock now (clock.localtime now).date sched = true
      ↔ sched.startMinute
            ≤ 60 * (clock.localtime now).time.hour + (clock.localtime now).time.minute
        ∧ 60 * (clock.localtime now).time.hour + (clock.localtime now).time.minute
            ≤ sched.stopMinute := by
  have hself := clock.mktime_localtime now (le_of_lt hnow)
  have hsecond := (clock.valid now (le_of_lt hnow)).2.second
  rw [clock.mktime_time, secondOfDay] at hself
  have hstart := clock.mktime_time (clock.localtime now).date
    ⟨sched.startHour.toNat, sched.startMin.toNat, 0⟩
  have hstop := clock.mktime_time (clock.localtime now).date
    ⟨sched.stopHour.toNat, sched.stopMin.toNat, 59⟩
  unfold secondOfDay at hstart hstop
  unfold SdkDayTime.startMinute SdkDayTime.stopMinute at hsched ⊢
  have hdiffer : ¬ (sched.startHour = sched.stopHour ∧ sched.startMin = sched.stopMin) := by
    rintro ⟨hhour, hmin⟩
    rw [hhour, hmin] at hsched
    omega
  unfold schedCalc
  rw [if_neg hdiffer, clock.osMakeTime_eq_max, clock.osMakeTime_eq_max]
  dsimp only at hstart hstop ⊢
  split
  · rw [decide_eq_true_iff]
    omega
  · constructor
    · intro h
      cases h
    · intro h
      omega

/-- The loop finds a slot exactly when one of the first four covers the minute. -/
theorem inSchedFlags_iff (clock : LocalClock) (cfg : WeeklyMotion) {now : ℤ} (hnow : 0 < now) :
    inSchedFlags clock cfg.schedTime now = true
      ↔ ∃ timeSegNum < 4, Covers cfg.schedTime (clock.localtime now) timeSegNum := by
  rw [inSchedFlags, List.any_eq_true, clock.osLocalTime_of_nonneg (le_of_lt hnow)]
  apply exists_congr
  intro timeSegNum
  rw [List.mem_range, Bool.and_eq_true, decide_eq_true_iff]
  apply and_congr_right
  intro _
  apply and_congr_right
  intro henable
  exact schedCalc_iff clock hnow (cfg.earlier _ _ henable)

/-- `event_sched_check` at a time not before the last event that passed. -/
theorem eventSchedCheck_isSome (clock : LocalClock) (cfg : WeeklyMotion) {prev now : ℤ}
    (hprev : 0 ≤ prev) (hle : prev ≤ now) (hnow : now < 2147483648) :
    (eventSchedCheck clock cfg.schedTime prev now).isSome = true
      ↔ cfg.schedTime.enable ≠ 0
        ∧ (max cfg.schedTime.intervalTime.toNat detectIntervalTime : ℤ) ≤ now - prev
        ∧ ∃ timeSegNum < 4, Covers cfg.schedTime (clock.localtime now) timeSegNum := by
  have hmod : (now - prev) % 4294967296 = now - prev := by omega
  have hmax := interval_eq cfg.schedTime
  unfold eventSchedCheck
  rw [hmod]
  split
  next hoff => simp [hoff]
  next hon =>
    split
    next hshort =>
      refine iff_of_false (by simp) fun h => ?_
      have := h.2.1
      omega
    next hover =>
      have hpos : 0 < now := by
        have : detectIntervalTime = 5 := rfl
        omega
      rw [← inSchedFlags_iff clock cfg hpos]
      have helapsed :
          (max cfg.schedTime.intervalTime.toNat detectIntervalTime : ℤ) ≤ now - prev := by
        omega
      split
      next hin => simp [hon, helapsed, hin]
      next hout => simp [hout]

/-- The new time is the time of the event. -/
theorem eventSchedCheck_eq_some (clock : LocalClock) (schedTime : SdkSchedTime) {prev now t : ℤ}
    (h : eventSchedCheck clock schedTime prev now = some t) : t = now := by
  unfold eventSchedCheck at h
  split at h
  · cases h
  split at h
  · cases h
  split at h
  · exact (Option.some.inj h).symm
  · cases h

/-- What `event_handle_motion` does with detection on. -/
theorem eventHandleMotion_cases (clock : LocalClock) (cfg : WeeklyMotion) (now : ℤ)
    (s : EventState) :
    (eventSchedCheck clock cfg.schedTime s.prevOccurTime now = none
        ∧ eventHandleMotion clock cfg.toSdkMotionCfg now s = (s, false))
      ∨ ((eventSchedCheck clock cfg.schedTime s.prevOccurTime now).isSome = true
        ∧ (eventHandleMotion clock cfg.toSdkMotionCfg now s).2 = true
        ∧ (eventHandleMotion clock cfg.toSdkMotionCfg now s).1.prevOccurTime = now) := by
  unfold eventHandleMotion
  rw [if_neg cfg.detects]
  cases hcheck : eventSchedCheck clock cfg.schedTime s.prevOccurTime now with
  | none => exact .inl ⟨rfl, rfl⟩
  | some t =>
    obtain rfl := eventSchedCheck_eq_some clock cfg.schedTime hcheck
    exact .inr ⟨rfl, rfl, rfl⟩

/-! ## Sequences of events -/

section Run

variable (clock : LocalClock) (cfg : SdkMotionCfg)

/-- The state after a sequence of events. -/
def motionRun (s : EventState) (times : List ℤ) : EventState :=
  times.foldl (fun s now => (eventHandleMotion clock cfg now s).1) s

/-- The times of the events that passed. -/
def passed : EventState → List ℤ → List ℤ
  | _, [] => []
  | s, now :: times =>
    if (eventHandleMotion clock cfg now s).2 then
      now :: passed (eventHandleMotion clock cfg now s).1 times
    else passed (eventHandleMotion clock cfg now s).1 times

/-- Every event passes exactly when it should, and one that does not changes nothing. -/
def AlarmsExact (s : EventState) (times : List ℤ) : Prop :=
  ∀ before now after, times = before ++ now :: after →
    ((eventHandleMotion clock cfg now (motionRun clock cfg s before)).2 = true
        ↔ Passes clock cfg.schedTime (passed clock cfg s before).getLast? now)
      ∧ ((eventHandleMotion clock cfg now (motionRun clock cfg s before)).2 = false →
        motionRun clock cfg s (before ++ [now]) = motionRun clock cfg s before)

end Run

/-- The times of a sequence of calls: those of a 32-bit `time_t`, and none before an earlier one. -/
structure CallTimes where
  times : List ℤ
  sorted : times.Pairwise (· ≤ ·)
  range : ∀ t ∈ times, 0 ≤ t ∧ t < 2147483648

/-- `static time_t prev_occur_time = 0` -/
def EventState.boot (s : EventState) : EventState := { s with prevOccurTime := 0 }

theorem motionRun_concat (clock : LocalClock) (cfg : SdkMotionCfg) (s : EventState)
    (before : List ℤ) (now : ℤ) :
    motionRun clock cfg s (before ++ [now])
      = (eventHandleMotion clock cfg now (motionRun clock cfg s before)).1 := by
  rw [motionRun, List.foldl_append, List.foldl_cons, List.foldl_nil, motionRun]

theorem passed_concat (clock : LocalClock) (cfg : SdkMotionCfg) (s : EventState)
    (before : List ℤ) (now : ℤ) :
    passed clock cfg s (before ++ [now])
      = passed clock cfg s before
        ++ if (eventHandleMotion clock cfg now (motionRun clock cfg s before)).2 then [now]
          else [] := by
  induction before generalizing s with
  | nil =>
    rw [List.nil_append, passed, passed, passed, motionRun, List.foldl_nil]
    rfl
  | cons t before ih =>
    have hrun : motionRun clock cfg s (t :: before)
        = motionRun clock cfg (eventHandleMotion clock cfg t s).1 before := rfl
    rw [List.cons_append, passed, passed, ih, hrun]
    split <;> rfl

/-- `prev_occur_time` is the last event that passed, or second 0; and that was one of the events. -/
theorem prevOccurTime_run (clock : LocalClock) (cfg : WeeklyMotion) (s : EventState)
    (before : List ℤ) :
    (motionRun clock cfg.toSdkMotionCfg s.boot before).prevOccurTime
        = (passed clock cfg.toSdkMotionCfg s.boot before).getLast?.getD 0
      ∧ ∀ t ∈ passed clock cfg.toSdkMotionCfg s.boot before, t ∈ before := by
  induction before using List.reverseRecOn with
  | nil => exact ⟨rfl, fun _ h => absurd h List.not_mem_nil⟩
  | append_singleton before now ih =>
    obtain ⟨hprev, hmem⟩ := ih
    rw [motionRun_concat, passed_concat]
    rcases eventHandleMotion_cases clock cfg now
        (motionRun clock cfg.toSdkMotionCfg s.boot before) with ⟨-, hstep⟩ | ⟨-, hpass, hnow⟩
    · rw [hstep]
      simp only [Bool.false_eq_true, if_false, List.append_nil]
      exact ⟨hprev, fun t ht => List.mem_append_left _ (hmem t ht)⟩
    · rw [hpass, hnow, if_pos rfl, List.getLast?_concat]
      refine ⟨rfl, fun t ht => ?_⟩
      rcases List.mem_append.mp ht with ht | ht
      · exact List.mem_append_left _ (hmem t ht)
      · exact List.mem_append_right _ ht

/-- An event passes exactly when it should and is not missed. -/
theorem passes_not_missed (clock : LocalClock) (cfg : WeeklyMotion) {last : Option ℤ} {now : ℤ}
    (hlast : 0 ≤ last.getD 0 ∧ last.getD 0 ≤ now) (hnow : now < 2147483648) :
    (eventSchedCheck clock cfg.schedTime (last.getD 0) now).isSome = true
      ↔ Passes clock cfg.schedTime last now ∧ ¬ Missed clock cfg.schedTime last now := by
  rw [eventSchedCheck_isSome clock cfg hlast.1 hlast.2 hnow]
  constructor
  · rintro ⟨hon, helapsed, seg, hseg, hcovers⟩
    have hpasses : Passes clock cfg.schedTime last now := by
      refine ⟨hon, fun t ht => ?_, seg, by unfold maxTimeSegNum; omega, hcovers⟩
      rw [Option.mem_def] at ht
      rwa [ht, Option.getD_some] at helapsed
    refine ⟨hpasses, fun hmissed => ?_⟩
    rcases hmissed.2 with hnone | ⟨rfl, hearly⟩
    · exact hnone seg hseg hcovers
    · rw [Option.getD_none, Int.sub_zero] at helapsed
      omega
  · rintro ⟨hpasses, hmissed⟩
    refine ⟨hpasses.1, ?_, ?_⟩
    · cases last with
      | none =>
        by_contra hearly
        refine hmissed ⟨hpasses, .inr ⟨rfl, ?_⟩⟩
        rw [Option.getD_none, Int.sub_zero] at hearly
        omega
      | some t => exact hpasses.2.1 t rfl
    · by_contra hnone
      refine hmissed ⟨hpasses, .inl fun seg hseg hcovers => ?_⟩
      exact hnone ⟨seg, hseg, hcovers⟩

/-- For every local time, every weekly schedule and interval, and every sequence of calls: the calls
pass exactly by schedule and interval if and only if none of them is missed. -/
theorem motion_alarms_exact_iff (clock : LocalClock) (cfg : WeeklyMotion) (s : EventState)
    (calls : CallTimes) :
    AlarmsExact clock cfg.toSdkMotionCfg s.boot calls.times
      ↔ ∀ before now after, calls.times = before ++ now :: after →
          ¬ Missed clock cfg.schedTime
            (passed clock cfg.toSdkMotionCfg s.boot before).getLast? now := by
  unfold AlarmsExact
  apply forall_congr'
  intro before
  apply forall_congr'
  intro now
  apply forall_congr'
  intro after
  apply imp_congr_right
  intro hsplit
  obtain ⟨hprev, hmem⟩ := prevOccurTime_run clock cfg s before
  have hsorted := calls.sorted
  have hrange := calls.range
  rw [hsplit] at hsorted hrange
  have hnow := hrange now (by simp)
  -- the last event that passed is second 0 or an earlier call
  have hlast : 0 ≤ (passed clock cfg.toSdkMotionCfg s.boot before).getLast?.getD 0
      ∧ (passed clock cfg.toSdkMotionCfg s.boot before).getLast?.getD 0 ≤ now := by
    cases hget : (passed clock cfg.toSdkMotionCfg s.boot before).getLast? with
    | none => exact ⟨le_refl 0, hnow.1⟩
    | some t =>
      have ht := hmem t (List.mem_of_getLast? hget)
      refine ⟨(hrange t (List.mem_append_left _ ht)).1, ?_⟩
      exact (List.pairwise_append.mp hsorted).2.2 t ht now List.mem_cons_self
  have hcheck := passes_not_missed clock cfg hlast hnow.2
  rw [← hprev] at hcheck
  rw [motionRun_concat]
  rcases eventHandleMotion_cases clock cfg now
      (motionRun clock cfg.toSdkMotionCfg s.boot before) with ⟨hnone, hstep⟩ | ⟨hsome, hpass, -⟩
  · rw [hnone] at hcheck
    rw [hstep]
    constructor
    · rintro ⟨hiff, -⟩ hmissed
      exact absurd (hiff.mpr hmissed.1) (by simp)
    · intro hmissed
      refine ⟨iff_of_false (by simp) fun hpasses => ?_, fun _ => rfl⟩
      exact absurd (hcheck.mpr ⟨hpasses, hmissed⟩) (by decide)
  · obtain ⟨hpasses, hmissed⟩ := hcheck.mp hsome
    rw [hpass]
    exact iff_of_true ⟨iff_of_true rfl hpasses, fun h => absurd h (by decide)⟩ hmissed

/-- Detection on, and the same schedule every day: only the fifth slot is enabled, from 08:00 to
09:00. -/
def fifthSlot : WeeklyMotion where
  codecVdaCfg := ⟨1, 0, 0, 0, 0, fun _ => ⟨0, 0, 0, 0⟩⟩
  schedTime :=
    ⟨1, 1, 10, fun _ timeSegNum =>
      if timeSegNum = 4 then ⟨1, 8, 0, 0, 9, 0, 0⟩ else ⟨0, 0, 0, 0, 0, 0, 0⟩⟩
  alarmHandle := ⟨0, 0, 0, 0, 0, 0⟩
  detects := by decide
  earlier := by
    intro weekday timeSegNum
    dsimp only
    split
    · intro _
      decide
    · intro h
      exact absurd rfl h

/-- Half past eight on 1 June 2015, at Greenwich. -/
def halfPastEight : ℤ := (zoneClock 0 (by decide)).mktime ⟨2015, 6, 1⟩ ⟨8, 30, 0⟩

/-- Motion at half past eight is refused. -/
theorem fifth_slot_refused :
    ¬ AlarmsExact (zoneClock 0 (by decide)) fifthSlot.toSdkMotionCfg
      (EventState.boot ⟨0, .no, 0, 0, 0⟩) [halfPastEight] := by
  intro h
  have hdate : Date.Valid ⟨2015, 6, 1⟩ := ⟨by decide, by decide, by decide⟩
  have htime : TimeOfDay.Valid ⟨8, 30, 0⟩ := ⟨by decide, by decide, by decide⟩
  have hpos : 0 < halfPastEight := (zoneClock 0 (by decide)).mktime_pos _ _ hdate (by decide)
  have hlocal := ((zoneClock 0 (by decide)).localtime_mktime _ _ hdate htime (le_of_lt hpos)).2
  obtain ⟨hiff, -⟩ := h [] halfPastEight [] rfl
  have hflags : inSchedFlags (zoneClock 0 (by decide)) fifthSlot.schedTime halfPastEight = false :=
    rfl
  have hcheck : eventSchedCheck (zoneClock 0 (by decide)) fifthSlot.schedTime 0 halfPastEight
      = none := by
    unfold eventSchedCheck
    rw [hflags]
    split
    · rfl
    split <;> rfl
  have hrefused : (eventHandleMotion (zoneClock 0 (by decide)) fifthSlot.toSdkMotionCfg
      halfPastEight (EventState.boot ⟨0, .no, 0, 0, 0⟩)).2 = false := by
    rcases eventHandleMotion_cases (zoneClock 0 (by decide)) fifthSlot halfPastEight
        (EventState.boot ⟨0, .no, 0, 0, 0⟩) with ⟨-, hstep⟩ | ⟨hsome, -, -⟩
    · rw [hstep]
    · rw [show (EventState.boot ⟨0, .no, 0, 0, 0⟩).prevOccurTime = 0 from rfl, hcheck] at hsome
      cases hsome
  have hpasses : Passes (zoneClock 0 (by decide)) fifthSlot.schedTime none halfPastEight := by
    refine ⟨by decide, ?_, 4, by decide, by decide, ?_, ?_⟩
    · intro t ht
      cases ht
    · rw [show ((zoneClock 0 (by decide)).localtime halfPastEight).time = ⟨8, 30, 0⟩ from hlocal]
      decide
    · rw [show ((zoneClock 0 (by decide)).localtime halfPastEight).time = ⟨8, 30, 0⟩ from hlocal]
      decide
  have hpassed := hiff.mpr hpasses
  rw [motionRun, List.foldl_nil, hrefused] at hpassed
  cases hpassed
