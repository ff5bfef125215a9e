/-
# The recording plan (`shcedule_is_recorde_thread` and `DANAVIDEOCMD_RECPLANSET`)

The app stores a plan: some weekdays, one span of hours and a type.  One thread turns the
plan and the clock into the schedule flag, and `dana_recordstatus_thread` turns that flag
and the mode into starts and stops of the recorders.

The schedule thread keeps `FLAG`, and reads the plan again only after the app has set a
plan or the clock, or when `FLAG` does not say that today is in the plan.  Out of hours it
also turns the mode off, and only another plan turns it on.  `schedule_followed_iff` tells
from the state before the last pass of this thread whether the plan is followed after it.
-/
import IpCamera.RecordMode

/-! ## The plan and the clock -/

/-- `danavideo_rec_week_t` -/
inductive RecWeek
  | mon
  | tue
  | wed
  | thu
  | fri
  | sat
  | sun
  deriving DecidableEq, Repr

namespace RecWeek

/-- The values 1 to 7, as the loop of `get_param_recoder_cfg` takes them. -/
def all : List RecWeek := [.mon, .tue, .wed, .thu, .fri, .sat, .sun]

theorem mem_all (w : RecWeek) : w ∈ all := by
  cases w <;> decide

end RecWeek

/-- An hour, a minute and a second, in the ranges `ClockStruc` notes. -/
structure DayTime where
  hour : Fin 24
  minute : Fin 60
  second : ℕ
  deriving DecidableEq, Repr

/-- What `localtime` tells of the moment; the year of a 32-bit `long` fits an `unsigned short`. -/
structure Tm where
  tmYear : ℕ
  tmWday : Fin 7
  tmHour : Fin 24
  tmMin : Fin 60
  tmSec : ℕ
  year_lt : tmYear + 1900 < 65536

/-- `ClockStruc` -/
structure ClockStruc extends DayTime where
  year : ℕ
  week : RecWeek
  deriving DecidableEq, Repr

/-- `getCurrentTime`; `tm_wday` counts from Sunday. -/
def getCurrentTime (tm : Tm) : ClockStruc where
  hour := tm.tmHour
  minute := tm.tmMin
  second := tm.tmSec
  year := (tm.tmYear + 1900) % 65536
  week :=
    match tm.tmWday with
    | 0 => .sun
    | 1 => .mon
    | 2 => .tue
    | 3 => .wed
    | 4 => .thu
    | 5 => .fri
    | 6 => .sat

/-- `IsInTimeSpan` -/
def isInTimeSpan (now start stop : DayTime) : ℤ :=
  let iBegLessThanEnd := start.hour < stop.hour ∨ start.hour = stop.hour ∧ start.minute ≤ stop.minute
  let notBefore := now.hour > start.hour ∨ now.hour = start.hour ∧ now.minute ≥ start.minute
  let notAfter := now.hour < stop.hour ∨ now.hour = stop.hour ∧ now.minute ≤ stop.minute
  if iBegLessThanEnd then
    if notBefore ∧ notAfter then 0 else -1
  else if notBefore ∨ notAfter then 0
  else -1

/-- The entry of one weekday: `record_sched[weekday-1]`, and in it the plan of that weekday. -/
structure RecordSched where
  recordType : RecordFlags
  planFlag : ℕ
  start : DayTime
  stop : DayTime
  deriving DecidableEq, Repr

/-- `sdk_record_cfg_t` -/
structure RecordCfg where
  enable : RecordFlags
  recordTypes : RecordFlags
  enableAudio : ℕ
  recordSched : RecWeek → RecordSched

/-- After `memset`. -/
def RecordCfg.zero : RecordCfg where
  enable := .no
  recordTypes := .no
  enableAudio := 0
  recordSched _ := ⟨.no, 0, ⟨0, 0, 0⟩, ⟨0, 0, 0⟩⟩

/-- `DANAVIDEOCMD_RECPLANSET_ARG`, with the times that `sscanf` reads of its two texts. -/
structure RecPlanSetArg where
  week : List RecWeek
  startTime : DayTime
  endTime : DayTime
  status : ℕ
  deriving DecidableEq, Repr

namespace RecPlanSetArg

variable (p : RecPlanSetArg)

/-- The type of the plan; any unknown one is `RECORD_NO`. -/
def recordType : RecordFlags :=
  match p.status with
  | 1 => .fulltime
  | 2 => .alarm
  | _ => .no

/-- What the loop over the weekdays sets for one of them. -/
def setWeek (cfg : RecordCfg) (weekday : RecWeek) : RecordCfg :=
  { cfg with
    recordSched := Function.update cfg.recordSched weekday
      ⟨p.recordType, 1, p.startTime, p.endTime⟩ }

/-- The configuration that `DANAVIDEOCMD_RECPLANSET` stores. -/
def recordCfg : RecordCfg :=
  { p.week.foldl p.setWeek { RecordCfg.zero with recordTypes := p.recordType } with
    recordTypes := p.recordType
    enableAudio := 1
    enable := p.recordType }

end RecPlanSetArg

/-! ## The schedule thread -/

/-- `enum RECORDER_INFO` -/
inductive RecorderInfo
  | offRecoder
  | noWeekplan
  | currtimeNoInWeekplan
  | currenttimeInWeekplan
  deriving DecidableEq, Repr

/-- The stored configuration, what the app has set since the last pass, what the schedule thread
remembers, and the state of the recorders. -/
structure RecordSchedule where
  recordMode : RecordMode
  recordCfg : RecordCfg
  getDanaSetRecplanClick : Bool
  getDanaSetTimeClick : Bool
  flag : RecorderInfo
  tBeginTime : DayTime
  tEndTime : DayTime

namespace RecordSchedule

/-- `SHCEDULE_PLAN_RECODER` -/
def setPlanRecoder (s : RecordSchedule) (plan : Bool) : RecordSchedule :=
  { s with recordMode := s.recordMode.step (.setSchedule plan) }

/-- `record_status.record_flags` -/
def setRecordFlags (s : RecordSchedule) (recordType : RecordFlags) : RecordSchedule :=
  { s with recordMode := s.recordMode.step (.setFlags recordType) }

/-- `FLAG = get_param_recoder_cfg(&tBeginTime, &tEndTime, nowweekday)` -/
def getParamRecoderCfg (s : RecordSchedule) (nowweekday : RecWeek) : RecordSchedule :=
  if s.recordCfg.recordTypes = .no then { s.setPlanRecoder false with flag := .offRecoder }
  else
    let week := RecWeek.all.filter fun weekday => (s.recordCfg.recordSched weekday).planFlag = 1
    match week with
    | [] => { s.setPlanRecoder false with flag := .noWeekplan }
    | weekday :: _ =>
        { s with
          tBeginTime := (s.recordCfg.recordSched weekday).start
          tEndTime := (s.recordCfg.recordSched weekday).stop
          flag := if nowweekday ∈ week then .currenttimeInWeekplan else .currtimeNoInWeekplan }

/-- Both clicks are cleared. -/
def clearClicks (s : RecordSchedule) : RecordSchedule :=
  { s with getDanaSetRecplanClick := false, getDanaSetTimeClick := false }

/-- The first part of a pass: a plan or a time that has been set is noticed. -/
def noticeClick (s : RecordSchedule) (nowweekday : RecWeek) : RecordSchedule :=
  if s.getDanaSetRecplanClick = true ∨ s.getDanaSetTimeClick = true then
    s.clearClicks.getParamRecoderCfg nowweekday
  else s

/-- The second part: the schedule flag follows `FLAG` and the hours. -/
def followFlag (s : RecordSchedule) (tTimeNow : ClockStruc) : RecordSchedule :=
  match s.flag with
  | .offRecoder | .noWeekplan | .currtimeNoInWeekplan =>
      (s.setPlanRecoder false).getParamRecoderCfg tTimeNow.week
  | .currenttimeInWeekplan =>
      if isInTimeSpan tTimeNow.toDayTime s.tBeginTime s.tEndTime = 0 then s.setPlanRecoder true
      else (s.setPlanRecoder false).setRecordFlags .no

/-- A pass of `shcedule_is_recorde_thread`. -/
def shceduleIsRecorde (s : RecordSchedule) (tm : Tm) : RecordSchedule :=
  let tTimeNow := getCurrentTime tm
  if tTimeNow.year < 2017 then s.setPlanRecoder false
  else (s.noticeClick tTimeNow.week).followFlag tTimeNow

/-- `DANAVIDEOCMD_RECPLANSET` -/
def recPlanSet (s : RecordSchedule) (p : RecPlanSetArg) : RecordSchedule :=
  { s with recordCfg := p.recordCfg, getDanaSetRecplanClick := true }.setRecordFlags p.recordType

/-! ## Runs -/

/-- What happens: the app sets a plan or the time, and each of the two threads passes. -/
inductive Step
  | recPlanSet (p : RecPlanSetArg)
  | setTime
  | shceduleIsRecorde (tm : Tm)
  | danaRecordstatus

/-- One step. -/
def step (s : RecordSchedule) : Step → RecordSchedule
  | .recPlanSet p => s.recPlanSet p
  | .setTime => { s with getDanaSetTimeClick := true }
  | .shceduleIsRecorde tm => s.shceduleIsRecorde tm
  | .danaRecordstatus => { s with recordMode := s.recordMode.danaRecordstatus }

/-- The state after the steps. -/
def run (s : RecordSchedule) (steps : List Step) : RecordSchedule := steps.foldl step s

theorem run_append (s : RecordSchedule) (as bs : List Step) :
    s.run (as ++ bs) = (s.run as).run bs := List.foldl_append

theorem run_cons (s : RecordSchedule) (a : Step) (as : List Step) :
    s.run (a :: as) = (s.step a).run as := List.foldl_cons

/-- The state when the schedule thread enters its loop, the card present. -/
def start (cfg : RecordCfg) (recordTime : ℤ) (tm : Tm) : RecordSchedule :=
  getParamRecoderCfg
    { recordMode := .start cfg.recordTypes recordTime true
      recordCfg := cfg
      getDanaSetRecplanClick := false
      getDanaSetTimeClick := false
      flag := .offRecoder
      tBeginTime := ⟨0, 0, 0⟩
      tEndTime := ⟨0, 0, 0⟩ }
    (getCurrentTime tm).week

end RecordSchedule

/-! ## Following the plan -/

/-- The minute of the day. -/
def DayTime.minutes (t : DayTime) : ℕ := 60 * t.hour + t.minute

/-- Between the two, across midnight when the second is the earlier one. -/
def DayTime.Between (now start stop : DayTime) : Prop :=
  if stop.minutes < start.minutes then start.minutes ≤ now.minutes ∨ now.minutes ≤ stop.minutes
  else start.minutes ≤ now.minutes ∧ now.minutes ≤ stop.minutes

/-- The plan asks for continuous recording: a full-time plan, one of its weekdays, its hours. -/
def RecPlanSetArg.Wants (p : RecPlanSetArg) (tm : Tm) : Prop :=
  p.recordType = .fulltime ∧ (getCurrentTime tm).week ∈ p.week
    ∧ (getCurrentTime tm).Between p.startTime p.endTime

namespace RecordSchedule

/-- The run `steps`: `p` is the latest plan, the last pass of the schedule thread follows
`earlier` and reads the clock `tm`, and `dana_recordstatus_thread` has passed since. -/
structure Settled (steps earlier : List Step) (p : RecPlanSetArg) (tm : Tm) : Prop where
  latest : ∃ before since, earlier = before ++ .recPlanSet p :: since
    ∧ ∀ q, .recPlanSet q ∉ since
  passed : ∃ after, steps = earlier ++ .shceduleIsRecorde tm :: after
    ∧ (∀ q, .recPlanSet q ∉ after) ∧ (∀ t, .shceduleIsRecorde t ∉ after)
    ∧ .danaRecordstatus ∈ after

/-- The continuous recorder runs exactly when the plan asks for it. -/
def Follows (s : RecordSchedule) (p : RecPlanSetArg) (tm : Tm) : Prop :=
  s.recordMode.gNormalStatus = true ↔ p.Wants tm

/-- The plan will be read anew. -/
def Clicked (s : RecordSchedule) : Prop :=
  s.getDanaSetRecplanClick = true ∨ s.getDanaSetTimeClick = true

instance (s : RecordSchedule) : Decidable s.Clicked := inferInstanceAs (Decidable (_ ∨ _))

/-- Within the hours of a full-time plan: on a weekday of the plan the mode is still full-time, and
`FLAG` says that the day is in the plan or is found anew; on another weekday one of these fails. -/
def Meets (s : RecordSchedule) (p : RecPlanSetArg) (tm : Tm) : Prop :=
  p.recordType = .fulltime → (getCurrentTime tm).Between p.startTime p.endTime →
    ((getCurrentTime tm).week ∈ p.week → s.recordMode.recordFlags = .fulltime
      ∧ (s.Clicked ∨ s.flag = .currenttimeInWeekplan))
    ∧ ((getCurrentTime tm).week ∉ p.week → s.recordMode.recordFlags ≠ .fulltime
      ∨ s.Clicked ∨ s.flag ≠ .currenttimeInWeekplan)

end RecordSchedule

/-! ## The hours and the stored plan -/

theorem isInTimeSpan_iff (now start stop : DayTime) :
    isInTimeSpan now start stop = 0 ↔ now.Between start stop := by
  obtain ⟨⟨nh, _⟩, ⟨nm, hnm⟩, _⟩ := now
  obtain ⟨⟨bh, _⟩, ⟨bm, hbm⟩, _⟩ := start
  obtain ⟨⟨eh, _⟩, ⟨em, hem⟩, _⟩ := stop
  unfold isInTimeSpan DayTime.Between DayTime.minutes
  simp only [gt_iff_lt, ge_iff_le, Fin.mk_lt_mk, Fin.mk_le_mk, Fin.mk.injEq]
  -- the hours and minutes compare as the minutes of the day do
  have hle : bh < eh ∨ bh = eh ∧ bm ≤ em ↔ ¬ 60 * eh + em < 60 * bh + bm := by omega
  have hbefore : bh < nh ∨ nh = bh ∧ bm ≤ nm ↔ 60 * bh + bm ≤ 60 * nh + nm := by omega
  have hafter : nh < eh ∨ nh = eh ∧ nm ≤ em ↔ 60 * nh + nm ≤ 60 * eh + em := by omega
  simp only [hle, hbefore, hafter]
  split_ifs <;> simp_all

namespace RecPlanSetArg

variable (p : RecPlanSetArg)

theorem foldl_setWeek (ws : List RecWeek) (cfg : RecordCfg) (w : RecWeek) :
    (ws.foldl p.setWeek cfg).recordSched w =
      if w ∈ ws then ⟨p.recordType, 1, p.startTime, p.endTime⟩ else cfg.recordSched w :=
  GuardedRun.foldl_writes RecordCfg.recordSched
    (fun _ => ⟨p.recordType, 1, p.startTime, p.endTime⟩) (fun _ _ => Function.update_self ..)
    (fun _ _ _ hne => Function.update_of_ne hne ..) ws cfg w

/-- The stored entry of a weekday. -/
theorem recordSched_recordCfg (w : RecWeek) : p.recordCfg.recordSched w =
    if w ∈ p.week then ⟨p.recordType, 1, p.startTime, p.endTime⟩
    else ⟨.no, 0, ⟨0, 0, 0⟩, ⟨0, 0, 0⟩⟩ :=
  p.foldl_setWeek p.week _ w

/-- The weekdays that `get_param_recoder_cfg` collects are those of the plan. -/
theorem planFlag_recordCfg (w : RecWeek) :
    (p.recordCfg.recordSched w).planFlag = 1 ↔ w ∈ p.week := by
  rw [recordSched_recordCfg]
  split <;> simp_all

end RecPlanSetArg

namespace RecordSchedule

/-! ## What the steps do to the recorders -/

/-- Reading the plan can only turn the schedule flag off, besides what the thread remembers. -/
theorem getParamRecoderCfg_eq (s : RecordSchedule) (w : RecWeek) : ∃ plan flag b e,
    s.getParamRecoderCfg w = { s.setPlanRecoder plan with flag := flag, tBeginTime := b, tEndTime := e }
    ∧ (s.recordMode.shcedulePlanRecoder = false → plan = false) := by
  unfold getParamRecoderCfg
  split
  · exact ⟨false, _, s.tBeginTime, s.tEndTime, rfl, fun _ => rfl⟩
  · dsimp only
    split
    · exact ⟨false, _, s.tBeginTime, s.tEndTime, rfl, fun _ => rfl⟩
    · exact ⟨s.recordMode.shcedulePlanRecoder, _, _, _, rfl, id⟩

theorem getParamRecoderCfg_recordMode (s : RecordSchedule) (w : RecWeek) : ∃ plan,
    (s.getParamRecoderCfg w).recordMode = s.recordMode.step (.setSchedule plan)
      ∧ (s.recordMode.shcedulePlanRecoder = false → plan = false) := by
  obtain ⟨plan, flag, b, e, heq, hplan⟩ := s.getParamRecoderCfg_eq w
  exact ⟨plan, congrArg recordMode heq, hplan⟩

theorem noticeClick_recordMode (s : RecordSchedule) (w : RecWeek) : ∃ plan,
    (s.noticeClick w).recordMode = s.recordMode.step (.setSchedule plan) := by
  unfold noticeClick
  split
  · obtain ⟨plan, heq, -⟩ := s.clearClicks.getParamRecoderCfg_recordMode w
    exact ⟨plan, heq⟩
  · exact ⟨s.recordMode.shcedulePlanRecoder, rfl⟩

/-- When the day is not in the plan, the flag is off, and the plan is read for the next pass. -/
theorem followFlag_of_ne {s : RecordSchedule} (h : s.flag ≠ .currenttimeInWeekplan)
    (now : ClockStruc) :
    s.followFlag now = (s.setPlanRecoder false).getParamRecoderCfg now.week := by
  unfold followFlag
  split
  · rfl
  · rfl
  · rfl
  · exact absurd ‹_› h

/-- When it is, the hours decide, and out of hours the mode is turned off too. -/
theorem followFlag_of_eq {s : RecordSchedule} (h : s.flag = .currenttimeInWeekplan)
    (now : ClockStruc) : s.followFlag now =
      if isInTimeSpan now.toDayTime s.tBeginTime s.tEndTime = 0 then s.setPlanRecoder true
      else (s.setPlanRecoder false).setRecordFlags .no := by
  unfold followFlag
  rw [h]

theorem followFlag_recordMode (s : RecordSchedule) (now : ClockStruc) : ∃ as,
    (s.followFlag now).recordMode = s.recordMode.run as ∧ ∀ b ∈ as, b.changesMode := by
  by_cases h : s.flag = .currenttimeInWeekplan
  · rw [followFlag_of_eq h]
    split
    · exact ⟨[.setSchedule true], rfl, by simp [RecordMode.Step.changesMode]⟩
    · exact ⟨[.setSchedule false, .setFlags .no], rfl, by simp [RecordMode.Step.changesMode]⟩
  · obtain ⟨plan, heq, -⟩ := (s.setPlanRecoder false).getParamRecoderCfg_recordMode now.week
    rw [followFlag_of_ne h, heq]
    exact ⟨[.setSchedule false, .setSchedule plan], rfl, by simp [RecordMode.Step.changesMode]⟩

/-- Every step is seen by the recorders as changes of the mode and passes of the status thread. -/
theorem step_recordMode (s : RecordSchedule) (a : Step) : ∃ as,
    (s.step a).recordMode = s.recordMode.run as
      ∧ ∀ b ∈ as, b.changesMode ∨ b = .danaRecordstatus := by
  cases a with
  | recPlanSet p => exact ⟨[.setFlags p.recordType], rfl, by simp [RecordMode.Step.changesMode]⟩
  | setTime => exact ⟨[], rfl, by simp⟩
  | danaRecordstatus => exact ⟨[.danaRecordstatus], rfl, by simp⟩
  | shceduleIsRecorde tm =>
    show ∃ as, (s.shceduleIsRecorde tm).recordMode = _ ∧ _
    unfold shceduleIsRecorde
    dsimp only
    split
    · exact ⟨[.setSchedule false], rfl, by simp [RecordMode.Step.changesMode]⟩
    · obtain ⟨plan, hnotice⟩ := s.noticeClick_recordMode (getCurrentTime tm).week
      obtain ⟨as, hfollow, has⟩ :=
        (s.noticeClick (getCurrentTime tm).week).followFlag_recordMode (getCurrentTime tm)
      rw [hfollow, hnotice]
      refine ⟨.setSchedule plan :: as, rfl, ?_⟩
      intro b hb
      rcases List.mem_cons.mp hb with rfl | hb
      · exact Or.inl (Or.inr ⟨plan, rfl⟩)
      · exact Or.inl (has b hb)

/-! ## The card is in throughout -/

/-- The recorders with the card present and nothing saved: the last mode tells whether the
continuous recorder runs. -/
structure CardIn (m : RecordMode) : Prop where
  agrees : RecordMode.Agrees m
  card : m.sdCard = true
  tmpNormal : m.tmpNormalRecord = false
  tmpEvent : m.tmpEventRecord = false

theorem CardIn.normal {m : RecordMode} (h : CardIn m) :
    m.gNormalStatus = true ↔ m.recordLastStatus = .fulltime := by
  rw [h.agrees.normal, h.tmpNormal]
  simp

theorem CardIn.step {m : RecordMode} (h : CardIn m) {b : RecordMode.Step}
    (hb : b.changesMode ∨ b = .danaRecordstatus) : CardIn (m.step b) := by
  rcases hb with (⟨f, rfl⟩ | ⟨plan, rfl⟩) | rfl
  · exact ⟨h.agrees.step trivial, h.card, h.tmpNormal, h.tmpEvent⟩
  · exact ⟨h.agrees.step trivial, h.card, h.tmpNormal, h.tmpEvent⟩
  · have hp := RecordMode.danaRecordstatus_pass m
    have hmeets : m.Meets .danaRecordstatus :=
      ⟨fun _ _ => h.card, fun _ _ => h.tmpNormal, fun _ _ => h.tmpEvent⟩
    exact ⟨h.agrees.danaPass hmeets hp, hp.card.trans h.card, hp.tmpNormal.trans h.tmpNormal,
      hp.tmpEvent.trans h.tmpEvent⟩

theorem CardIn.run {m : RecordMode} (h : CardIn m) {bs : List RecordMode.Step}
    (hbs : ∀ b ∈ bs, b.changesMode ∨ b = .danaRecordstatus) : CardIn (m.run bs) :=
  (GuardedRun.guarded_of_forall hbs).invariant (I := CardIn) (fun _ _ hm hb => hm.step hb) h

theorem cardIn_start (cfg : RecordCfg) (recordTime : ℤ) (tm : Tm) :
    CardIn (start cfg recordTime tm).recordMode := by
  obtain ⟨plan, heq, -⟩ := getParamRecoderCfg_recordMode _ (getCurrentTime tm).week
  unfold start
  rw [heq]
  exact CardIn.step ⟨RecordMode.start_agrees _ _ _, rfl, rfl, rfl⟩ (Or.inl (Or.inr ⟨plan, rfl⟩))

theorem cardIn_step {s : RecordSchedule} (hs : CardIn s.recordMode) (a : Step) :
    CardIn (s.step a).recordMode := by
  obtain ⟨bs, heq, hbs⟩ := s.step_recordMode a
  rw [heq]
  exact hs.run hbs

theorem cardIn_run {s : RecordSchedule} (hs : CardIn s.recordMode) (steps : List Step) :
    CardIn (s.run steps).recordMode := by
  have hguard : GuardedRun.Guarded RecordSchedule.step (fun _ _ => True) s steps :=
    GuardedRun.guarded_of_forall fun _ _ => trivial
  exact hguard.invariant (I := fun t => CardIn t.recordMode) (fun _ a ht _ => cardIn_step ht a) hs

/-- The steps that leave the mode alone. -/
def Step.Quiet (a : Step) : Prop := a = .setTime ∨ a = .danaRecordstatus

theorem Step.Quiet.mode {a : Step} (ha : a.Quiet) (s : RecordSchedule) :
    (s.step a).recordMode.mode = s.recordMode.mode := by
  rcases ha with rfl | rfl
  · rfl
  · exact (RecordMode.danaRecordstatus_pass s.recordMode).mode_eq

/-- Once the status thread has passed, the continuous recorder runs exactly in full-time mode. -/
theorem normal_of_quiet {s : RecordSchedule} (hs : CardIn s.recordMode) {after : List Step}
    (hquiet : ∀ a ∈ after, a.Quiet) (hpass : .danaRecordstatus ∈ after) :
    (s.run after).recordMode.gNormalStatus = true ↔ s.recordMode.mode = .fulltime := by
  obtain ⟨pre, post, rfl⟩ := List.append_of_mem hpass
  have hguard : GuardedRun.Guarded RecordSchedule.step (fun _ a => a.Quiet) s
      (pre ++ .danaRecordstatus :: post) := GuardedRun.guarded_of_forall hquiet
  have hsince : GuardedRun.Since .danaRecordstatus (fun a => ¬ a.Quiet)
      (pre ++ .danaRecordstatus :: post) :=
    ⟨pre, post, rfl, fun a ha hn => hn (hquiet a (by simp [ha]))⟩
  -- the mode is kept throughout, and from that pass on it is the one seen last
  have hlast := hsince.holds (I := fun t => t.recordMode.mode = s.recordMode.mode)
    (P := fun t => t.recordMode.recordLastStatus = s.recordMode.mode)
    (fun t a ht ha => (ha.mode t).trans ht)
    (fun t ht _ => (RecordMode.danaRecordstatus_pass t.recordMode).last.trans ht)
    (fun t a ht ha _ hl => ?_) hguard rfl
  · rw [(cardIn_run hs _).normal]
    exact Eq.congr_left hlast
  · rcases ha with rfl | rfl
    · exact hl
    · exact (RecordMode.danaRecordstatus_pass t.recordMode).last.trans ht

/-! ## What the schedule thread remembers of the latest plan -/

section Plan

variable {p : RecPlanSetArg} {s : RecordSchedule}

/-- `FLAG` after the plan has been read: whether the day is in it, and then with its hours. -/
theorem getParamRecoderCfg_flag (h : s.recordCfg = p.recordCfg) (w : RecWeek) :
    (s.getParamRecoderCfg w).flag = .currenttimeInWeekplan
        ↔ p.recordType ≠ .no ∧ w ∈ p.week := by
  have hmem : ∀ v, v ∈ (RecWeek.all.filter fun weekday =>
      (s.recordCfg.recordSched weekday).planFlag = 1) ↔ v ∈ p.week := by
    intro v
    simp [RecWeek.mem_all, h, p.planFlag_recordCfg]
  have htype : s.recordCfg.recordTypes = p.recordType := by
    rw [h]
    rfl
  unfold getParamRecoderCfg
  split
  · next hoff => simp [← htype, hoff]
  next hoff =>
  rw [htype] at hoff
  generalize (RecWeek.all.filter fun weekday =>
    (s.recordCfg.recordSched weekday).planFlag = 1) = week at hmem ⊢
  cases week with
  | nil =>
    have hnot : w ∉ p.week := fun hw => absurd ((hmem w).mpr hw) List.not_mem_nil
    simp [hnot]
  | cons v vs =>
    rw [← hmem w]
    by_cases hw : w ∈ v :: vs
    · simp [hw, hoff]
    · simp [hw]

/-- The hours that are read are those of the plan: all its weekdays have the same. -/
theorem getParamRecoderCfg_times (h : s.recordCfg = p.recordCfg) {w : RecWeek}
    (hflag : (s.getParamRecoderCfg w).flag = .currenttimeInWeekplan) :
    (s.getParamRecoderCfg w).tBeginTime = p.startTime
      ∧ (s.getParamRecoderCfg w).tEndTime = p.endTime := by
  revert hflag
  unfold getParamRecoderCfg
  split
  · exact fun hflag => nomatch hflag
  dsimp only
  split
  · exact fun hflag => nomatch hflag
  · next v vs hweek =>
    intro _
    have hv : v ∈ RecWeek.all.filter fun weekday =>
        (s.recordCfg.recordSched weekday).planFlag = 1 := by
      rw [hweek]
      exact List.mem_cons_self
    have hplan : v ∈ p.week := by
      rw [List.mem_filter, h, decide_eq_true_iff, p.planFlag_recordCfg] at hv
      exact hv.2
    show (s.recordCfg.recordSched v).start = _ ∧ (s.recordCfg.recordSched v).stop = _
    rw [h, p.recordSched_recordCfg, if_pos hplan]
    exact ⟨rfl, rfl⟩

/-- Since the plan `p` was set: it is stored, the mode is its type or has been turned off, and once
the thread has noticed it, `FLAG` comes with its hours. -/
structure Remembers (p : RecPlanSetArg) (s : RecordSchedule) : Prop where
  cfg : s.recordCfg = p.recordCfg
  flags : s.recordMode.recordFlags = p.recordType ∨ s.recordMode.recordFlags = .no
  clicked : s.getDanaSetRecplanClick = true → s.recordMode.recordFlags = p.recordType
  times : s.getDanaSetRecplanClick = false → s.flag = .currenttimeInWeekplan →
    p.recordType ≠ .no ∧ s.tBeginTime = p.startTime ∧ s.tEndTime = p.endTime

theorem recPlanSet_remembers (s : RecordSchedule) (p : RecPlanSetArg) :
    Remembers p (s.step (.recPlanSet p)) :=
  ⟨rfl, Or.inl rfl, fun _ => rfl, fun h => nomatch h⟩

/-- Reading the plan: what was remembered of another one does not matter. -/
theorem remembers_getParam (hcfg : s.recordCfg = p.recordCfg)
    (hflags : s.recordMode.recordFlags = p.recordType ∨ s.recordMode.recordFlags = .no)
    (hclick : s.getDanaSetRecplanClick = false) (w : RecWeek) :
    Remembers p (s.getParamRecoderCfg w)
      ∧ (s.getParamRecoderCfg w).getDanaSetRecplanClick = false
      ∧ (s.getParamRecoderCfg w).recordMode.recordFlags = s.recordMode.recordFlags := by
  have hflag := getParamRecoderCfg_flag hcfg w
  have htimes := @getParamRecoderCfg_times p s hcfg w
  obtain ⟨plan, flag, b, e, heq, -⟩ := s.getParamRecoderCfg_eq w
  rw [heq] at hflag htimes ⊢
  refine ⟨⟨hcfg, hflags, fun hset => ?_, fun _ hf => ⟨(hflag.mp hf).1, htimes hf⟩⟩, hclick, rfl⟩
  exact absurd (hclick.symm.trans hset) Bool.false_ne_true

theorem noticeClick_of_clicked (h : s.Clicked) (w : RecWeek) :
    s.noticeClick w = s.clearClicks.getParamRecoderCfg w := if_pos h

theorem noticeClick_of_not_clicked (h : ¬ s.Clicked) (w : RecWeek) : s.noticeClick w = s :=
  if_neg h

/-- The first part of a pass leaves the mode alone, and the plan has been noticed. -/
theorem Remembers.notice (h : Remembers p s) (w : RecWeek) :
    Remembers p (s.noticeClick w)
      ∧ (s.noticeClick w).getDanaSetRecplanClick = false
      ∧ (s.noticeClick w).recordMode.recordFlags = s.recordMode.recordFlags := by
  by_cases hclick : s.Clicked
  · rw [noticeClick_of_clicked hclick]
    exact remembers_getParam (s := s.clearClicks) h.cfg h.flags rfl w
  · rw [noticeClick_of_not_clicked hclick]
    refine ⟨h, ?_, rfl⟩
    rw [← Bool.not_eq_true]
    exact fun hset => hclick (Or.inl hset)

/-- `FLAG` is then about the day of the last pass that has read the plan: this one, if something
has been set. -/
theorem Remembers.notice_flag (h : Remembers p s) (w : RecWeek) :
    (s.noticeClick w).flag = .currenttimeInWeekplan ↔
      if s.Clicked then p.recordType ≠ .no ∧ w ∈ p.week else s.flag = .currenttimeInWeekplan := by
  by_cases hclick : s.Clicked
  · rw [noticeClick_of_clicked hclick, if_pos hclick]
    exact getParamRecoderCfg_flag (s := s.clearClicks) h.cfg w
  · rw [noticeClick_of_not_clicked hclick, if_neg hclick]

/-- The second part keeps what is remembered, and leaves full-time recording on exactly when `FLAG`
says that the day is in the plan, it is within the hours and the mode is full-time. -/
theorem Remembers.follow (h : Remembers p s) (hclick : s.getDanaSetRecplanClick = false)
    (now : ClockStruc) :
    Remembers p (s.followFlag now)
      ∧ ((s.followFlag now).recordMode.mode = .fulltime ↔ s.flag = .currenttimeInWeekplan
        ∧ now.Between p.startTime p.endTime ∧ s.recordMode.recordFlags = .fulltime) := by
  by_cases hflag : s.flag = .currenttimeInWeekplan
  · obtain ⟨htype, hbegin, hend⟩ := h.times hclick hflag
    rw [followFlag_of_eq hflag, hbegin, hend]
    have hiff := isInTimeSpan_iff now.toDayTime p.startTime p.endTime
    by_cases hspan : isInTimeSpan now.toDayTime p.startTime p.endTime = 0
    · rw [if_pos hspan]
      refine ⟨⟨h.cfg, h.flags, h.clicked, h.times⟩, ?_⟩
      rw [RecordMode.mode_eq_iff _ (by decide)]
      exact ⟨fun hm => ⟨hflag, hiff.mp hspan, hm.1⟩, fun hm => ⟨hm.2.2, rfl⟩⟩
    · rw [if_neg hspan]
      refine ⟨⟨h.cfg, Or.inr rfl, fun hset => ?_, h.times⟩, ?_⟩
      · exact absurd (hclick.symm.trans hset) Bool.false_ne_true
      · rw [RecordMode.mode_eq_iff _ (by decide)]
        exact ⟨fun hm => (nomatch hm.1), fun hm => absurd (hiff.mpr hm.2.1) hspan⟩
  · obtain ⟨plan, hmode, hplan⟩ :=
      (s.setPlanRecoder false).getParamRecoderCfg_recordMode now.week
    rw [followFlag_of_ne hflag]
    refine ⟨(remembers_getParam (s := s.setPlanRecoder false) h.cfg h.flags hclick _).1, ?_⟩
    rw [hmode, hplan rfl]
    exact ⟨fun hm => (nomatch hm), fun hm => absurd hm.1 hflag⟩

/-- The step lemma: no step but another plan makes the thread forget this one. -/
theorem Remembers.step (h : Remembers p s) {a : Step} (ha : ∀ q, a ≠ .recPlanSet q) :
    Remembers p (s.step a) := by
  cases a with
  | recPlanSet q => exact absurd rfl (ha q)
  | setTime => exact ⟨h.cfg, h.flags, h.clicked, h.times⟩
  | danaRecordstatus =>
    have hflags : (s.step .danaRecordstatus).recordMode.recordFlags = s.recordMode.recordFlags :=
      (RecordMode.danaRecordstatus_pass s.recordMode).flags
    refine ⟨h.cfg, ?_, fun hset => hflags.trans (h.clicked hset), h.times⟩
    rw [hflags]
    exact h.flags
  | shceduleIsRecorde tm =>
    show Remembers p (s.shceduleIsRecorde tm)
    unfold shceduleIsRecorde
    dsimp only
    split
    · exact ⟨h.cfg, h.flags, h.clicked, h.times⟩
    · obtain ⟨hnotice, hclick, -⟩ := h.notice (getCurrentTime tm).week
      exact (hnotice.follow hclick (getCurrentTime tm)).1

theorem Remembers.run (h : Remembers p s) {steps : List Step}
    (hsteps : ∀ q, .recPlanSet q ∉ steps) : Remembers p (s.run steps) := by
  have hguard : GuardedRun.Guarded RecordSchedule.step (fun _ a => ∀ q, a ≠ .recPlanSet q) s steps :=
    GuardedRun.guarded_of_forall fun a ha q heq => hsteps q (heq ▸ ha)
  exact hguard.invariant (I := Remembers p) (fun t a ht ha => ht.step ha) h

/-- What a pass makes of the latest plan: the mode is full-time just when the plan asks for it,
exactly if the state before the pass meets the condition. -/
theorem Remembers.mode_iff (h : Remembers p s) {tm : Tm} (hyear : 2017 ≤ tm.tmYear + 1900) :
    ((s.step (.shceduleIsRecorde tm)).recordMode.mode = .fulltime ↔ p.Wants tm)
      ↔ s.Meets p tm := by
  have hnow : ¬ (getCurrentTime tm).year < 2017 := by
    have hlt := tm.year_lt
    show ¬ (tm.tmYear + 1900) % 65536 < 2017
    rw [Nat.mod_eq_of_lt hlt]
    omega
  obtain ⟨hnotice, hclick, hflags⟩ := h.notice (getCurrentTime tm).week
  have hmode := (hnotice.follow hclick (getCurrentTime tm)).2
  rw [h.notice_flag, hflags] at hmode
  show ((s.shceduleIsRecorde tm).recordMode.mode = .fulltime ↔ p.Wants tm) ↔ s.Meets p tm
  unfold shceduleIsRecorde
  dsimp only
  rw [if_neg hnow, hmode]
  unfold RecPlanSetArg.Wants Meets
  by_cases htype : p.recordType = .fulltime
  · have hno : p.recordType ≠ .no := by
      rw [htype]
      decide
    clear hnow hyear hmode hflags hclick hnotice
    by_cases hc : s.Clicked
    · simp only [if_pos hc, htype]
      tauto
    · simp only [if_neg hc, htype]
      tauto
  · -- another type: the mode is not full-time, and nothing is asked for
    have hoff : s.recordMode.recordFlags ≠ .fulltime := by
      rcases h.flags with hf | hf
      · rwa [hf]
      · rw [hf]
        decide
    simp [htype, hoff]

end Plan

/-! ## Following the plan, in every run -/

/-- For every run whose latest plan has been seen by both threads, the continuous recorder follows
the plan exactly when the state before the last pass of the schedule thread meets the condition. -/
theorem schedule_followed_iff (cfg : RecordCfg) (recordTime : ℤ) (tm₀ : Tm)
    (steps earlier : List Step) (p : RecPlanSetArg) (tm : Tm) (hyear : 2017 ≤ tm.tmYear + 1900)
    (hsettled : Settled steps earlier p tm) :
    ((start cfg recordTime tm₀).run steps).Follows p tm
      ↔ ((start cfg recordTime tm₀).run earlier).Meets p tm := by
  obtain ⟨⟨before, since, rfl, hsince⟩, after, rfl, hplan, hpass, hdana⟩ := hsettled
  have hquiet : ∀ a ∈ after, a.Quiet := by
    intro a ha
    cases a with
    | recPlanSet q => exact absurd ha (hplan q)
    | shceduleIsRecorde t => exact absurd ha (hpass t)
    | setTime => exact Or.inl rfl
    | danaRecordstatus => exact Or.inr rfl
  have hcard := cardIn_run (cardIn_start cfg recordTime tm₀) before
  rw [Follows, run_append, run_append, run_cons, run_cons]
  generalize (start cfg recordTime tm₀).run before = s at hcard ⊢
  have hremembers := (recPlanSet_remembers s p).run hsince
  have hcard := cardIn_step (cardIn_run (cardIn_step hcard (.recPlanSet p)) since)
    (.shceduleIsRecorde tm)
  have hnormal := normal_of_quiet hcard hquiet hdana
  exact (iff_congr hnormal Iff.rfl).trans (hremembers.mode_iff hyear)

/-- A full-time plan for Mondays, from eight to six. -/
def mondays : RecPlanSetArg := ⟨[.mon], ⟨8, 0, 0⟩, ⟨18, 0, 0⟩, 1⟩

/-- A moment of a Monday in 2017. -/
def monday (hour : Fin 24) : Tm := ⟨117, 1, hour, 0, 0, by decide⟩

/-- On a Monday morning the recorder runs. -/
theorem schedule_followed_monday :
    ((start .zero 10 (monday 9)).run
      [.recPlanSet mondays, .shceduleIsRecorde (monday 9), .danaRecordstatus]).Follows
      mondays (monday 9) := by
  refine (schedule_followed_iff .zero 10 (monday 9) _ [.recPlanSet mondays] mondays (monday 9)
    (by decide) ⟨⟨[], [], rfl, by simp⟩, [.danaRecordstatus], rfl, by simp⟩).mpr ?_
  intro _ _
  exact ⟨fun _ => ⟨rfl, Or.inl (Or.inl rfl)⟩, fun h => absurd List.mem_cons_self h⟩

/-- After the first Monday evening the mode is off, and the next Monday morning is not recorded. -/
theorem schedule_forgotten : ¬ ∀ cfg recordTime tm₀ steps earlier p tm, 2017 ≤ tm.tmYear + 1900 →
    Settled steps earlier p tm → ((start cfg recordTime tm₀).run steps).Follows p tm := by
  intro h
  have hf := h .zero 10 (monday 9) _
    [.recPlanSet mondays, .shceduleIsRecorde (monday 9), .danaRecordstatus,
      .shceduleIsRecorde (monday 19), .danaRecordstatus] mondays (monday 9) (by decide)
    ⟨⟨[], _, rfl, by simp⟩, [.danaRecordstatus], rfl, by simp⟩
  have hrun := hf.mpr ⟨rfl, List.mem_cons_self, (isInTimeSpan_iff _ _ _).mp (by decide)⟩
  revert hrun
  decide

end RecordSchedule
