/-
# Reading the recording plan back (`DANAVIDEOCMD_RECPLANGET`)

The handler collects the weekdays of the stored plan into the first entry of a table that is
filled with an example beforehand, and sends the whole table.

The first entry is the plan that was set, if it is open and has a weekday
(`first_matches_iff`).  The second one is always the closed plan of the example, so that no
plan reads back as the only one (`rec_plan_never_reads_back`).
-/
import IpCamera.RecordSchedule

/-! ## The handler -/

/-- `DANAVIDEO_REC_PLAN_CLOSE` and `DANAVIDEO_REC_PLAN_OPEN` -/
inductive RecPlanStatus
  | planClose
  | planOpen
  deriving DecidableEq, Repr

/-- `libdanavideo_recplanget_recplan_t`, with the first `week_count` entries of `week`. -/
structure RecPlan where
  recordNo : ℕ
  week : List RecWeek
  startTime : List Char
  endTime : List Char
  status : RecPlanStatus
  deriving DecidableEq, Repr

/-- `%02d` -/
def printTwo (n : ℕ) : List Char :=
  if n < 10 then '0' :: Nat.toDigits 10 n else Nat.toDigits 10 n

/-- `%02d:%02d:%02d` of the hour, the minute and the second. -/
def timeText (t : DayTime) : List Char :=
  printTwo t.hour ++ ':' :: (printTwo t.minute ++ ':' :: printTwo t.second)

/-- What the loop over the weekdays does for one of them. -/
def getWeek (recCfg : RecordCfg) (plan : RecPlan) (weekday : RecWeek) : RecPlan :=
  if (recCfg.recordSched weekday).planFlag ≠ 1 then plan
  else
    { plan with
      week := plan.week ++ [weekday]
      startTime := timeText (recCfg.recordSched weekday).start
      endTime := timeText (recCfg.recordSched weekday).stop }

/-- `rec_plans[0]` before the loop; its two weekdays are counted anew. -/
def examplePlan : RecPlan := ⟨0, [], "12:23:34".toList, "15:56:01".toList, .planOpen⟩

/-- `rec_plans[1]` -/
def closedPlan : RecPlan :=
  ⟨1, [.mon, .sat, .sun], "22:23:24".toList, "23:24:25".toList, .planClose⟩

/-- `DANAVIDEOCMD_RECPLANGET`: the plans of the response. -/
def recPlanGet (recCfg : RecordCfg) : List RecPlan :=
  [RecWeek.all.foldl (getWeek recCfg) examplePlan, closedPlan]

/-! ## What is reported -/

/-- The status the app means; a closed plan is set with `DANAVIDEO_REC_PLAN_CLOSE`, which is 0. -/
def RecPlanSetArg.planStatus (p : RecPlanSetArg) : RecPlanStatus :=
  if p.status = 0 then .planClose else .planOpen

/-- The plan is the one that was set. -/
structure RecPlan.Matches (plan : RecPlan) (p : RecPlanSetArg) : Prop where
  nodup : plan.week.Nodup
  mem_week : ∀ w, w ∈ plan.week ↔ w ∈ p.week
  startTime : plan.startTime = timeText p.startTime
  endTime : plan.endTime = timeText p.endTime
  status : plan.status = p.planStatus

/-- The schedule thread finds the weekdays and hours of the plan, unless it is off. -/
def RecordSchedule.Decodes (s : RecordSchedule) (p : RecPlanSetArg) : Prop :=
  ∀ nowweekday, ((s.getParamRecoderCfg nowweekday).flag = .currenttimeInWeekplan
      ↔ p.recordType ≠ .no ∧ nowweekday ∈ p.week)
    ∧ ((s.getParamRecoderCfg nowweekday).flag = .currenttimeInWeekplan →
      (s.getParamRecoderCfg nowweekday).tBeginTime = p.startTime
        ∧ (s.getParamRecoderCfg nowweekday).tEndTime = p.endTime)

/-- After the plan is set, exactly this plan is reported, and the schedule thread finds it. -/
def RecordSchedule.ReadsBack (s : RecordSchedule) (p : RecPlanSetArg) : Prop :=
  (∃ plan, recPlanGet (s.recPlanSet p).recordCfg = [plan] ∧ plan.Matches p)
    ∧ (s.recPlanSet p).Decodes p

/-- The weekday has a plan. -/
def planned (recCfg : RecordCfg) (weekday : RecWeek) : Bool :=
  decide ((recCfg.recordSched weekday).planFlag = 1)

/-- The loop over some weekdays collects those with a plan, and takes the times of the last. -/
theorem foldl_getWeek {recCfg : RecordCfg} {b e : DayTime} {ws : List RecWeek} {plan : RecPlan}
    (htimes : ∀ w ∈ ws, planned recCfg w →
      (recCfg.recordSched w).start = b ∧ (recCfg.recordSched w).stop = e) :
    ws.foldl (getWeek recCfg) plan =
      if ws.filter (planned recCfg) = [] then plan
      else
        { plan with
          week := plan.week ++ ws.filter (planned recCfg)
          startTime := timeText b
          endTime := timeText e } := by
  induction ws generalizing plan with
  | nil => rfl
  | cons w ws ih =>
    obtain ⟨hw, hws⟩ := List.forall_mem_cons.mp htimes
    rw [List.foldl_cons, ih hws]
    by_cases hplanned : planned recCfg w = true
    · obtain ⟨hb, he⟩ := hw hplanned
      have hget : getWeek recCfg plan w =
          { plan with week := plan.week ++ [w], startTime := timeText b, endTime := timeText e } := by
        rw [getWeek, if_neg (not_not.mpr (of_decide_eq_true hplanned)), hb, he]
      rw [List.filter_cons_of_pos hplanned, hget, if_neg (List.cons_ne_nil _ _)]
      by_cases hrest : ws.filter (planned recCfg) = []
      · rw [if_pos hrest, hrest]
      · rw [if_neg hrest, List.append_assoc, List.singleton_append]
    · have hget : getWeek recCfg plan w = plan :=
        if_pos fun hflag => hplanned (decide_eq_true hflag)
      rw [List.filter_cons_of_neg hplanned, hget]

theorem planned_recordCfg (p : RecPlanSetArg) (w : RecWeek) :
    planned p.recordCfg w ↔ w ∈ p.week := by
  rw [planned, decide_eq_true_iff, p.planFlag_recordCfg]

/-- The first plan reported after one is set: its weekdays in the order of the week. -/
theorem first_recordCfg (p : RecPlanSetArg) :
    RecWeek.all.foldl (getWeek p.recordCfg) examplePlan =
      if p.week = [] then examplePlan
      else ⟨0, RecWeek.all.filter (planned p.recordCfg), timeText p.startTime, timeText p.endTime,
        .planOpen⟩ := by
  have htimes : ∀ w ∈ RecWeek.all, planned p.recordCfg w →
      (p.recordCfg.recordSched w).start = p.startTime
        ∧ (p.recordCfg.recordSched w).stop = p.endTime := by
    intro w _ hplanned
    rw [p.recordSched_recordCfg, if_pos ((planned_recordCfg p w).mp hplanned)]
    exact ⟨rfl, rfl⟩
  have hempty : RecWeek.all.filter (planned p.recordCfg) = [] ↔ p.week = [] := by
    rw [List.filter_eq_nil_iff, List.eq_nil_iff_forall_not_mem]
    constructor
    · exact fun h w hw => h w (RecWeek.mem_all w) ((planned_recordCfg p w).mpr hw)
    · exact fun h w _ hplanned => h w ((planned_recordCfg p w).mp hplanned)
  rw [foldl_getWeek htimes]
  exact if_congr hempty rfl rfl

/-- The first plan is the one that was set exactly if this is not closed, and has a weekday or the
times of the example. -/
theorem first_matches_iff (p : RecPlanSetArg) :
    (RecWeek.all.foldl (getWeek p.recordCfg) examplePlan).Matches p ↔ p.status ≠ 0
      ∧ (p.week = [] → timeText p.startTime = examplePlan.startTime
        ∧ timeText p.endTime = examplePlan.endTime) := by
  have hopen : .planOpen = p.planStatus ↔ p.status ≠ 0 := by
    rw [RecPlanSetArg.planStatus]
    split <;> simp_all
  rw [first_recordCfg]
  by_cases hweek : p.week = []
  · rw [if_pos hweek]
    constructor
    · intro h
      exact ⟨hopen.mp h.status, fun _ => ⟨h.startTime.symm, h.endTime.symm⟩⟩
    · rintro ⟨hstatus, htimes⟩
      refine ⟨List.nodup_nil, fun w => ?_, (htimes hweek).1.symm, (htimes hweek).2.symm,
        hopen.mpr hstatus⟩
      rw [hweek]
      rfl
  · rw [if_neg hweek]
    constructor
    · intro h
      exact ⟨hopen.mp h.status, fun hnil => absurd hnil hweek⟩
    · rintro ⟨hstatus, -⟩
      refine ⟨List.Nodup.filter _ (by decide), fun w => ?_, rfl, rfl, hopen.mpr hstatus⟩
      rw [List.mem_filter, planned_recordCfg]
      exact and_iff_right (RecWeek.mem_all w)

/-- The schedule thread reads what was set. -/
theorem recPlanSet_decodes (s : RecordSchedule) (p : RecPlanSetArg) :
    (s.recPlanSet p).Decodes p := by
  intro w
  have hcfg : (s.recPlanSet p).recordCfg = p.recordCfg := rfl
  exact ⟨RecordSchedule.getParamRecoderCfg_flag hcfg w,
    RecordSchedule.getParamRecoderCfg_times hcfg⟩

/-- There is always a second plan. -/
theorem recPlanGet_ne_singleton (recCfg : RecordCfg) (plan : RecPlan) :
    recPlanGet recCfg ≠ [plan] := by
  intro h
  cases (List.cons.inj h).2

/-- No plan reads back as it was set: a second one is always reported with it. -/
theorem rec_plan_never_reads_back (s : RecordSchedule) (p : RecPlanSetArg) : ¬s.ReadsBack p := by
  rintro ⟨⟨plan, hplans, -⟩, -⟩
  exact recPlanGet_ne_singleton _ plan hplans

/-- An open plan for Mondays. -/
theorem rec_plan_mondays : ¬∀ (s : RecordSchedule) (p : RecPlanSetArg), s.ReadsBack p := by
  intro h
  obtain ⟨⟨plan, hplans, -⟩, -⟩ := h
    (RecordSchedule.start .zero 10 (RecordSchedule.monday 9)) RecordSchedule.mondays
  exact recPlanGet_ne_singleton _ plan hplans
