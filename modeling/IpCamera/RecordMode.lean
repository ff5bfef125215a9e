/-
# The record mode (`dana_recordstatus_thread` and `thread_sd_card_detecte`)

Two threads start and stop the same two recorders.  One compares the selected mode with
the mode it saw last, and acts only when they differ; the other saves what runs when the
card is gone, and starts it again when the card is back.  Neither knows what the other
remembers.

The invariant `Agrees` says that the last mode tells what runs or is saved for restart.
A pass that does not fit together with what is saved, or that starts the recorder
without a card, breaks it, and no later pass repairs it: `recording_follows_mode`.
-/
import IpCamera.GuardedRun
import Mathlib.Tactic

/-! ## The two recorders -/

/-- `RECORD_NO`, `RECORD_FULLTIME` and `RECORD_ALARM` -/
inductive RecordFlags
  | no
  | fulltime
  | alarm
  deriving DecidableEq, Repr

/-- `SDK_RECORD_TYPE_E` -/
inductive RecordType
  | all
  | manu
  | sched
  | motion
  | alarm
  | aed
  | bcd
  | tamper
  | motionPre
  deriving DecidableEq, Repr

/-- `record_status`, `SHCEDULE_PLAN_RECODER`, the card, what the two recorders do, and what
`thread_sd_card_detecte` has saved. -/
structure RecordMode where
  recordFlags : RecordFlags
  recordLastStatus : RecordFlags
  recordAlarmTriger : ℕ
  recordAlarmOpened : Bool
  recordAlarmTime : ℤ
  shcedulePlanRecoder : Bool
  sdCard : Bool
  gNormalStatus : Bool
  gNormalDuration : ℤ
  gEventStatus : Bool
  gEventDuration : ℤ
  tmpNormalRecord : Bool
  tmpNormalDuration : ℤ
  tmpEventRecord : Bool
  tmpEventDuration : ℤ
  deriving DecidableEq, Repr

namespace RecordMode

/-- `get_sd_stats` -/
def getSdStats (s : RecordMode) : ℤ := if s.sdCard then 0 else -1

/-- `st_get_event_status` -/
def stGetEventStatus (s : RecordMode) : ℤ := if s.gEventStatus then 1 else 0

/-- `start_normal_record_stream`, and its return value. -/
def startNormalRecordStream (s : RecordMode) (duration : ℤ) : RecordMode × ℤ :=
  if s.gNormalStatus then (s, 0)
  else ({ s with gNormalStatus := true, gNormalDuration := if 15 > duration then 15 else duration }, 0)

/-- `stop_normal_record_stream` -/
def stopNormalRecordStream (s : RecordMode) : RecordMode := { s with gNormalStatus := false }

/-- `start_event_record_stream`, and its return value. -/
def startEventRecordStream (s : RecordMode) (duration : ℤ) : RecordMode × ℤ :=
  if s.gEventStatus then (s, -1)
  else ({ s with gEventStatus := true, gEventDuration := if duration > 10 then duration else 10 }, 0)

/-- `stop_event_record_stream` -/
def stopEventRecordStream (s : RecordMode) : RecordMode := { s with gEventStatus := false }

/-- `st_record_start`, and its return value. -/
def stRecordStart (s : RecordMode) (recordType : RecordType) (duration : ℤ) : RecordMode × ℤ :=
  if s.getSdStats = -1 then (s, -1)
  else
    match recordType with
    | .manu | .sched => ((s.startNormalRecordStream duration).1, 0)
    | .motion | .alarm | .motionPre => ((s.startEventRecordStream duration).1, 0)
    | .aed | .all | .bcd | .tamper => (s, 0)

/-- `st_record_stop` -/
def stRecordStop (s : RecordMode) : RecordType → RecordMode
  | .all => s.stopNormalRecordStream.stopEventRecordStream
  | .manu | .sched => s.stopNormalRecordStream
  | .motion | .alarm | .aed | .bcd | .motionPre | .tamper => s.stopEventRecordStream

/-! ## The two threads -/

/-- Both ways out of `RECORD_ALARM` stop the recording that was opened. -/
def stopOpened (s : RecordMode) : RecordMode :=
  if s.recordAlarmOpened then { s.stRecordStop .motionPre with recordAlarmOpened := false } else s

/-- The branch of `RECORD_NO`, also taken when the schedule flag is off. -/
def recordNo (s : RecordMode) : RecordMode :=
  match s.recordLastStatus with
  | .fulltime => { s.stRecordStop .manu with recordLastStatus := .no }
  | .alarm => { s.stopOpened with recordLastStatus := .no }
  | .no => s

/-- The branch of `RECORD_FULLTIME`. -/
def recordFulltime (s : RecordMode) : RecordMode :=
  match s.recordLastStatus with
  | .no => { (s.stRecordStart .manu 300).1 with recordLastStatus := .fulltime }
  | .alarm => { (s.stopOpened.stRecordStart .manu 300).1 with recordLastStatus := .fulltime }
  | .fulltime => s

/-- `RECORD_ALARM`, and so it was in the last pass: an alarm starts an event recording, and is
cleared when that has ended. -/
def alarmTriggered (s : RecordMode) : RecordMode :=
  if 1 = s.recordAlarmTriger then
    if s.stGetEventStatus = 0 then
      let t := (s.stRecordStart .motionPre s.recordAlarmTime).1
      { t with recordAlarmTriger := t.recordAlarmTriger ||| 1 <<< 16, recordAlarmOpened := true }
    else s
  else if s.stGetEventStatus = 0 then { s with recordAlarmTriger := 0 }
  else s

/-- The branch of `RECORD_ALARM`. -/
def recordAlarm (s : RecordMode) : RecordMode :=
  match s.recordLastStatus with
  | .no => { s with recordLastStatus := .alarm }
  | .fulltime => { s.stRecordStop .manu with recordLastStatus := .alarm }
  | .alarm => s.alarmTriggered

/-- A pass of `dana_recordstatus_thread`. -/
def danaRecordstatus (s : RecordMode) : RecordMode :=
  if s.recordFlags = .no ∨ s.shcedulePlanRecoder = false then s.recordNo
  else if s.recordFlags = .fulltime ∧ s.shcedulePlanRecoder = true then s.recordFulltime
  else if s.recordFlags = .alarm then s.recordAlarm
  else s

/-- `thread_sd_card_detecte` without a card: what runs is saved and stopped. -/
def saveRunning (s : RecordMode) : RecordMode :=
  let s₁ := if s.gNormalStatus then
      { s with tmpNormalRecord := true, tmpNormalDuration := s.gNormalDuration }
        |>.stopNormalRecordStream
    else s
  if s₁.gEventStatus then
    { s₁ with tmpEventRecord := true, tmpEventDuration := s₁.gEventDuration }
      |>.stopEventRecordStream
  else s₁

/-- `thread_sd_card_detecte` with a card: what was saved is started. -/
def restartSaved (s : RecordMode) : RecordMode :=
  let s₁ := if s.tmpNormalRecord then
      { ({ s with tmpNormalRecord := false }.stRecordStart .manu s.tmpNormalDuration).1 with
        tmpNormalDuration := 0 }
    else s
  if s₁.tmpEventRecord then
    { ({ s₁ with tmpEventRecord := false }.stRecordStart .motion s₁.tmpEventDuration).1 with
      tmpEventDuration := 0 }
  else s₁

/-- A pass of `thread_sd_card_detecte`, no format under way.  Removing old files from a full card
is left out: it does not touch this state. -/
def sdCardDetecte (s : RecordMode) : RecordMode :=
  if 0 > s.getSdStats then s.saveRunning else s.restartSaved

/-! ## Runs -/

/-- What happens to the camera; each pass is one step. -/
inductive Step
  | setFlags (recordType : RecordFlags)
  | setSchedule (plan : Bool)
  | removeCard
  | insertCard
  | motionAlarm
  | pirAlarm
  | eventEnds
  | danaRecordstatus
  | sdCardDetecte
  deriving DecidableEq, Repr

/-- One step: a motion alarm (`event_handle_motion`) counts in alarm mode, one of the infrared
sensor (`pir_event_handle_motion`) always; an event recording also ends on its own. -/
def step (s : RecordMode) : Step → RecordMode
  | .setFlags recordType => { s with recordFlags := recordType }
  | .setSchedule plan => { s with shcedulePlanRecoder := plan }
  | .removeCard => { s with sdCard := false }
  | .insertCard => { s with sdCard := true }
  | .motionAlarm =>
      if s.recordFlags = .alarm then { s with recordAlarmTriger := s.recordAlarmTriger ||| 1 }
      else s
  | .pirAlarm => { s with recordAlarmTriger := s.recordAlarmTriger ||| 1 }
  | .eventEnds => { s with gEventStatus := false }
  | .danaRecordstatus => s.danaRecordstatus
  | .sdCardDetecte => s.sdCardDetecte

/-- The state after `main` has read the parameters. -/
def start (recordTypes : RecordFlags) (recordTime : ℤ) (sdCard : Bool) : RecordMode where
  recordFlags := recordTypes
  recordLastStatus := .no
  recordAlarmTriger := 0
  recordAlarmOpened := false
  recordAlarmTime := recordTime
  shcedulePlanRecoder := false
  sdCard := sdCard
  gNormalStatus := false
  gNormalDuration := 0
  gEventStatus := false
  gEventDuration := 0
  tmpNormalRecord := false
  tmpNormalDuration := 0
  tmpEventRecord := false
  tmpEventDuration := 0

/-- The state after the steps. -/
def run (s : RecordMode) (steps : List Step) : RecordMode := steps.foldl step s

/-- The steps that change the mode. -/
def Step.changesMode (a : Step) : Prop := (∃ f, a = .setFlags f) ∨ ∃ p, a = .setSchedule p

/-- The steps that change the card. -/
def Step.changesCard (a : Step) : Prop := a = .removeCard ∨ a = .insertCard

/-- The passes of the two threads. -/
def Step.isPass (a : Step) : Prop := a = .danaRecordstatus ∨ a = .sdCardDetecte

/-- A pass of `dana_recordstatus_thread` since the mode changed last, and one of
`thread_sd_card_detecte` since the card changed last. -/
def Settled (steps : List Step) : Prop :=
  GuardedRun.Since .danaRecordstatus Step.changesMode steps
    ∧ GuardedRun.Since .sdCardDetecte Step.changesCard steps

/-- The continuous recorder runs exactly in full-time mode, and an event recording only in alarm
mode. -/
structure Follows (s : RecordMode) : Prop where
  normal : s.gNormalStatus = true ↔ s.recordFlags = .fulltime ∧ s.shcedulePlanRecoder = true
  event : s.gEventStatus = true → s.recordFlags = .alarm ∧ s.shcedulePlanRecoder = true

/-- The selected mode, off while the schedule flag is. -/
def mode (s : RecordMode) : RecordFlags := if s.shcedulePlanRecoder then s.recordFlags else .no

/-- A pass of `dana_recordstatus_thread` enters full-time mode only with the card present, and
leaves full-time and alarm mode only when no recording of that mode is saved for restart. -/
def Meets (s : RecordMode) : Step → Prop
  | .danaRecordstatus =>
      (s.mode = .fulltime → s.recordLastStatus ≠ .fulltime → s.sdCard = true)
        ∧ (s.recordLastStatus = .fulltime → s.mode ≠ .fulltime → s.tmpNormalRecord = false)
        ∧ (s.recordLastStatus = .alarm → s.mode ≠ .alarm → s.tmpEventRecord = false)
  | _ => True

/-! ## What a pass does -/

section Pass

variable (s : RecordMode)

/-- A start takes effect exactly with the card present, and touches its own recorder only. -/
theorem stRecordStart_manu (duration : ℤ) : ∃ d, (s.stRecordStart .manu duration).1 =
    { s with gNormalStatus := s.gNormalStatus || s.sdCard, gNormalDuration := d } := by
  obtain ⟨_, _, _, _, _, _, card, normal, d, _, _, _, _, _, _⟩ := s
  cases card <;> cases normal
  · exact ⟨d, rfl⟩
  · exact ⟨d, rfl⟩
  · exact ⟨if 15 > duration then 15 else duration, rfl⟩
  · exact ⟨d, rfl⟩

theorem stRecordStart_motion (duration : ℤ) : ∃ d, (s.stRecordStart .motion duration).1 =
    { s with gEventStatus := s.gEventStatus || s.sdCard, gEventDuration := d } := by
  obtain ⟨_, _, _, _, _, _, card, _, _, event, d, _, _, _, _⟩ := s
  cases card <;> cases event
  · exact ⟨d, rfl⟩
  · exact ⟨d, rfl⟩
  · exact ⟨if duration > 10 then duration else 10, rfl⟩
  · exact ⟨d, rfl⟩

/-- The two types of an event recording are started alike. -/
theorem stRecordStart_motionPre (duration : ℤ) :
    s.stRecordStart .motionPre duration = s.stRecordStart .motion duration := rfl

theorem stopOpened_eq : s.stopOpened =
    { s with
      gEventStatus := s.gEventStatus && !s.recordAlarmOpened
      recordAlarmOpened := false } := by
  obtain ⟨_, _, _, opened, _, _, _, _, _, event, _, _, _, _, _⟩ := s
  cases opened <;> cases event <;> rfl

/-- What a pass of `dana_recordstatus_thread` from `s` to `t` does: the last mode becomes the
selected one, and the recorders change only with it; an alarm is opened only in alarm mode. -/
structure DanaPass (s t : RecordMode) : Prop where
  flags : t.recordFlags = s.recordFlags
  plan : t.shcedulePlanRecoder = s.shcedulePlanRecoder
  card : t.sdCard = s.sdCard
  tmpNormal : t.tmpNormalRecord = s.tmpNormalRecord
  tmpEvent : t.tmpEventRecord = s.tmpEventRecord
  last : t.recordLastStatus = s.mode
  normal : t.gNormalStatus =
    if s.recordLastStatus = s.mode then s.gNormalStatus
    else if s.mode = .fulltime then s.gNormalStatus || s.sdCard
    else if s.recordLastStatus = .fulltime then false
    else s.gNormalStatus
  /-- An event recording goes on, unless it is stopped on the way out of alarm mode. -/
  event : s.mode ≠ .alarm → t.gEventStatus =
    (s.gEventStatus && !(decide (s.recordLastStatus = .alarm) && s.recordAlarmOpened))
  /-- In alarm mode, one that runs ran before or has been opened now. -/
  alarm : s.mode = .alarm → (t.gEventStatus = true → s.gEventStatus = true ∨
      s.recordLastStatus = .alarm ∧ t.recordAlarmOpened = true)
    ∧ (s.recordAlarmOpened = true → t.recordAlarmOpened = true)

theorem mode_eq_iff {f : RecordFlags} (hf : f ≠ .no) :
    s.mode = f ↔ s.recordFlags = f ∧ s.shcedulePlanRecoder = true := by
  unfold mode
  cases s.shcedulePlanRecoder with
  | true => simp
  | false => simpa using hf.symm

/-- The branch taken is that of the selected mode. -/
theorem danaRecordstatus_eq : s.danaRecordstatus =
    match s.mode with
    | .no => s.recordNo
    | .fulltime => s.recordFulltime
    | .alarm => s.recordAlarm := by
  unfold danaRecordstatus mode
  cases s.shcedulePlanRecoder <;> cases s.recordFlags <;> rfl

theorem recordNo_pass (hm : s.mode = .no) : DanaPass s s.recordNo := by
  unfold recordNo
  cases hl : s.recordLastStatus with
  | no => constructor <;> simp [hl, hm]
  | fulltime => constructor <;> simp [hl, hm, stRecordStop, stopNormalRecordStream]
  | alarm =>
    dsimp only
    rw [stopOpened_eq]
    constructor <;> simp [hl, hm]

theorem recordFulltime_pass (hm : s.mode = .fulltime) : DanaPass s s.recordFulltime := by
  unfold recordFulltime
  cases hl : s.recordLastStatus with
  | no =>
    obtain ⟨d, hd⟩ := stRecordStart_manu s 300
    dsimp only
    rw [hd]
    constructor <;> simp [hl, hm]
  | fulltime => constructor <;> simp [hl, hm]
  | alarm =>
    obtain ⟨d, hd⟩ := stRecordStart_manu s.stopOpened 300
    dsimp only
    rw [hd, stopOpened_eq]
    constructor <;> simp [hl, hm]

/-- The alarm that is handled in alarm mode: the event recording starts, if it can, and is noted as
opened either way. -/
theorem alarmTriggered_eq : ∃ trig opened event d, s.alarmTriggered =
    { s with
      recordAlarmTriger := trig
      recordAlarmOpened := s.recordAlarmOpened || opened
      gEventStatus := s.gEventStatus || event
      gEventDuration := d }
    ∧ (event = true → opened = true) := by
  unfold alarmTriggered stGetEventStatus
  by_cases ht : 1 = s.recordAlarmTriger <;> by_cases he : s.gEventStatus = true
  · refine ⟨s.recordAlarmTriger, false, false, s.gEventDuration, ?_, id⟩
    rw [if_pos ht, if_neg (by simp [he]), Bool.or_false, Bool.or_false]
  · obtain ⟨d, hd⟩ := stRecordStart_motion s s.recordAlarmTime
    refine ⟨s.recordAlarmTriger ||| 1 <<< 16, true, s.sdCard, d, ?_, fun _ => rfl⟩
    rw [if_pos ht, if_pos (by simp [he]), stRecordStart_motionPre, hd, Bool.or_true]
  · refine ⟨s.recordAlarmTriger, false, false, s.gEventDuration, ?_, id⟩
    rw [if_neg ht, if_neg (by simp [he]), Bool.or_false, Bool.or_false]
  · refine ⟨0, false, false, s.gEventDuration, ?_, id⟩
    rw [if_neg ht, if_pos (by simp [he]), Bool.or_false, Bool.or_false]

theorem recordAlarm_pass (hm : s.mode = .alarm) : DanaPass s s.recordAlarm := by
  unfold recordAlarm
  cases hl : s.recordLastStatus with
  | no => constructor <;> simp [hl, hm]
  | fulltime => constructor <;> simp [hl, hm, stRecordStop, stopNormalRecordStream]
  | alarm =>
    obtain ⟨trig, opened, event, d, heq, hopen⟩ := alarmTriggered_eq s
    dsimp only
    rw [heq]
    constructor
    case alarm =>
      intro _
      refine ⟨fun h => ?_, fun h => by simp [h]⟩
      rcases Bool.or_eq_true_iff.mp h with h | h
      · exact Or.inl h
      · exact Or.inr ⟨hl, by simp [hopen h]⟩
    all_goals simp [hl, hm]

/-- Every pass of `dana_recordstatus_thread` is one of these. -/
theorem danaRecordstatus_pass : DanaPass s s.danaRecordstatus := by
  rw [danaRecordstatus_eq]
  cases hm : s.mode with
  | no => exact recordNo_pass s hm
  | fulltime => exact recordFulltime_pass s hm
  | alarm => exact recordAlarm_pass s hm

theorem saveRunning_eq : ∃ d e, s.saveRunning =
    { s with
      gNormalStatus := false
      gEventStatus := false
      tmpNormalRecord := s.tmpNormalRecord || s.gNormalStatus
      tmpNormalDuration := d
      tmpEventRecord := s.tmpEventRecord || s.gEventStatus
      tmpEventDuration := e } := by
  obtain ⟨_, _, _, _, _, _, _, normal, _, event, _, tmpNormal, _, tmpEvent, _⟩ := s
  cases normal <;> cases event <;> cases tmpNormal <;> cases tmpEvent <;> exact ⟨_, _, rfl⟩

theorem restartSaved_eq (hcard : s.sdCard = true) : ∃ d d' e e', s.restartSaved =
    { s with
      gNormalStatus := s.gNormalStatus || s.tmpNormalRecord
      gNormalDuration := d
      gEventStatus := s.gEventStatus || s.tmpEventRecord
      gEventDuration := e
      tmpNormalRecord := false
      tmpNormalDuration := d'
      tmpEventRecord := false
      tmpEventDuration := e' } := by
  obtain ⟨_, _, _, _, _, _, card, normal, _, event, _, tmpNormal, _, tmpEvent, _⟩ := s
  obtain rfl : card = true := hcard
  cases normal <;> cases event <;> cases tmpNormal <;> cases tmpEvent <;> exact ⟨_, _, _, _, rfl⟩

/-- What a pass of `thread_sd_card_detecte` from `s` to `t` does. -/
structure CardPass (s t : RecordMode) : Prop where
  mode : t.mode = s.mode
  last : t.recordLastStatus = s.recordLastStatus
  opened : t.recordAlarmOpened = s.recordAlarmOpened
  card : t.sdCard = s.sdCard
  normal : t.gNormalStatus = (s.sdCard && (s.gNormalStatus || s.tmpNormalRecord))
  event : t.gEventStatus = (s.sdCard && (s.gEventStatus || s.tmpEventRecord))
  tmpNormal : t.tmpNormalRecord = (!s.sdCard && (s.gNormalStatus || s.tmpNormalRecord))
  tmpEvent : t.tmpEventRecord = (!s.sdCard && (s.gEventStatus || s.tmpEventRecord))

theorem sdCardDetecte_pass : CardPass s s.sdCardDetecte := by
  unfold sdCardDetecte getSdStats
  cases hcard : s.sdCard with
  | false =>
    obtain ⟨d, e, heq⟩ := saveRunning_eq s
    rw [if_pos (by decide), heq]
    constructor <;> simp [RecordMode.mode, hcard, Bool.or_comm]
  | true =>
    obtain ⟨d, d', e, e', heq⟩ := restartSaved_eq s hcard
    rw [if_neg (by decide), heq]
    constructor <;> simp [RecordMode.mode, hcard]

end Pass

/-! ## The invariant -/

/-- The last mode tells what runs or is saved: the continuous recorder exactly in full-time mode,
an event recording only in alarm mode and noted as opened. -/
structure Agrees (s : RecordMode) : Prop where
  normal : s.recordLastStatus = .fulltime ↔ s.gNormalStatus = true ∨ s.tmpNormalRecord = true
  event : s.gEventStatus = true ∨ s.tmpEventRecord = true →
    s.recordLastStatus = .alarm ∧ s.recordAlarmOpened = true

theorem start_agrees (recordTypes : RecordFlags) (recordTime : ℤ) (sdCard : Bool) :
    Agrees (start recordTypes recordTime sdCard) := by
  constructor <;> simp [start]

section Invariant

variable {s t : RecordMode}

theorem DanaPass.mode_eq (hp : DanaPass s t) : t.mode = s.mode := by
  unfold mode
  rw [hp.flags, hp.plan]

/-- A pass that meets the condition keeps the invariant. -/
theorem Agrees.danaPass (hs : Agrees s) (hmeets : s.Meets .danaRecordstatus) (hp : DanaPass s t) :
    Agrees t := by
  obtain ⟨henter, hleave, hleave'⟩ := hmeets
  constructor
  · rw [hp.last, hp.normal, hp.tmpNormal]
    -- the recorder is touched only when the mode is not the one seen last
    by_cases hsame : s.recordLastStatus = s.mode
    · rw [if_pos hsame, ← hsame]
      exact hs.normal
    rw [if_neg hsame]
    by_cases hm : s.mode = .fulltime
    · have hcard := henter hm (by rwa [hm] at hsame)
      simp [hm, hcard]
    rw [if_neg hm]
    -- left: what ran has been stopped, and nothing is saved
    by_cases hl : s.recordLastStatus = .fulltime
    · simp [hm, hl, hleave hl hm]
    · rw [if_neg hl, ← hs.normal]
      simp [hm, hl]
  · intro h
    rw [hp.last]
    by_cases hm : s.mode = .alarm
    · obtain ⟨hevent, hopen⟩ := hp.alarm hm
      refine ⟨hm, ?_⟩
      rcases h with h | h
      · rcases hevent h with h | h
        · exact hopen (hs.event (Or.inl h)).2
        · exact h.2
      · rw [hp.tmpEvent] at h
        exact hopen (hs.event (Or.inr h)).2
    · -- out of alarm mode: what ran was opened and is stopped, and nothing is saved
      exfalso
      rw [hp.event hm, hp.tmpEvent] at h
      rcases h with h | h
      · obtain ⟨hrun, hstop⟩ := Bool.and_eq_true_iff.mp h
        obtain ⟨hl, hopen⟩ := hs.event (Or.inl hrun)
        simp [hl, hopen] at hstop
      · have hl := (hs.event (Or.inr h)).1
        rw [hleave' hl hm] at h
        exact Bool.false_ne_true h

/-- Saving and restarting only moves a recording between the two. -/
theorem CardPass.normal_or (hp : CardPass s t) :
    t.gNormalStatus = true ∨ t.tmpNormalRecord = true
      ↔ s.gNormalStatus = true ∨ s.tmpNormalRecord = true := by
  rw [hp.normal, hp.tmpNormal]
  cases s.sdCard <;> simp

theorem CardPass.event_or (hp : CardPass s t) :
    t.gEventStatus = true ∨ t.tmpEventRecord = true
      ↔ s.gEventStatus = true ∨ s.tmpEventRecord = true := by
  rw [hp.event, hp.tmpEvent]
  cases s.sdCard <;> simp

/-- So it keeps the invariant, whatever the card does. -/
theorem Agrees.cardPass (hs : Agrees s) (hp : CardPass s t) : Agrees t := by
  constructor
  · rw [hp.last, hp.normal_or]
    exact hs.normal
  · rw [hp.last, hp.opened, hp.event_or]
    exact hs.event

/-- The step lemma. -/
theorem Agrees.step {a : Step} (hs : Agrees s) (hmeets : s.Meets a) : Agrees (s.step a) := by
  cases a with
  | danaRecordstatus => exact hs.danaPass hmeets (danaRecordstatus_pass s)
  | sdCardDetecte => exact hs.cardPass (sdCardDetecte_pass s)
  | motionAlarm =>
    unfold RecordMode.step
    dsimp only
    split
    · exact ⟨hs.normal, hs.event⟩
    · exact hs
  | eventEnds =>
    refine ⟨hs.normal, fun h => hs.event ?_⟩
    rcases h with h | h
    · exact absurd h Bool.false_ne_true
    · exact Or.inr h
  | setFlags | setSchedule | removeCard | insertCard | pirAlarm => exact ⟨hs.normal, hs.event⟩

end Invariant

/-! ## What a pass establishes -/

/-- The mode seen last is the selected one. -/
def Seen (s : RecordMode) : Prop := s.recordLastStatus = s.mode

/-- Nothing is saved while the card is present. -/
def Restarted (s : RecordMode) : Prop :=
  s.sdCard = true → s.tmpNormalRecord = false ∧ s.tmpEventRecord = false

theorem danaRecordstatus_seen (s : RecordMode) : Seen s.danaRecordstatus := by
  have hp := danaRecordstatus_pass s
  exact hp.last.trans hp.mode_eq.symm

theorem sdCardDetecte_restarted (s : RecordMode) : Restarted s.sdCardDetecte := by
  have hp := sdCardDetecte_pass s
  intro hcard
  rw [hp.card] at hcard
  rw [hp.tmpNormal, hp.tmpEvent, hcard]
  exact ⟨rfl, rfl⟩

theorem Seen.step {s : RecordMode} {a : Step} (hs : Seen s) (ha : ¬ a.changesMode) :
    Seen (s.step a) := by
  cases a with
  | setFlags f => exact absurd (Or.inl ⟨f, rfl⟩) ha
  | setSchedule plan => exact absurd (Or.inr ⟨plan, rfl⟩) ha
  | danaRecordstatus => exact danaRecordstatus_seen s
  | sdCardDetecte =>
    have hp := sdCardDetecte_pass s
    exact hp.last.trans (hs.trans hp.mode.symm)
  | motionAlarm =>
    unfold RecordMode.step
    dsimp only
    split <;> exact hs
  | removeCard | insertCard | pirAlarm | eventEnds => exact hs

theorem Restarted.step {s : RecordMode} {a : Step} (hs : Restarted s) (ha : ¬ a.changesCard) :
    Restarted (s.step a) := by
  cases a with
  | removeCard => exact absurd (Or.inl rfl) ha
  | insertCard => exact absurd (Or.inr rfl) ha
  | danaRecordstatus =>
    have hp := danaRecordstatus_pass s
    intro hcard
    exact ⟨hp.tmpNormal.trans (hs (hp.card.symm.trans hcard)).1,
      hp.tmpEvent.trans (hs (hp.card.symm.trans hcard)).2⟩
  | sdCardDetecte => exact sdCardDetecte_restarted s
  | motionAlarm =>
    unfold RecordMode.step
    dsimp only
    split <;> exact hs
  | setFlags | setSchedule | pirAlarm | eventEnds => exact hs

/-- With the mode seen and nothing saved, the invariant says that recording follows the mode. -/
theorem Agrees.follows {s : RecordMode} (hs : Agrees s) (hseen : Seen s) (hrestarted : Restarted s)
    (hcard : s.sdCard = true) : Follows s := by
  obtain ⟨hn, he⟩ := hrestarted hcard
  have hmode : s.recordLastStatus = s.mode := hseen
  constructor
  · rw [← mode_eq_iff s (by decide), ← hmode, hs.normal, hn]
    simp
  · intro hevent
    rw [← mode_eq_iff s (by decide), ← hmode]
    exact (hs.event (Or.inl hevent)).1

/-! ## What the passes do not repair -/

/-- A mode that has been entered without its recorder, or that has been left with it saved. -/
def Broken (s : RecordMode) : Prop :=
  Seen s ∧ (s.mode = .fulltime ∧ s.gNormalStatus = false ∧ s.tmpNormalRecord = false
    ∨ s.mode ≠ .fulltime ∧ (s.gNormalStatus = true ∨ s.tmpNormalRecord = true)
    ∨ s.mode ≠ .alarm ∧ (s.gEventStatus = true ∨ s.tmpEventRecord = true))

section Broken

variable {s t : RecordMode}

/-- A pass that does not meet the condition breaks what it leaves. -/
theorem Agrees.broken (hs : Agrees s) (hmeets : ¬ s.Meets .danaRecordstatus) :
    Broken s.danaRecordstatus := by
  have hp := danaRecordstatus_pass s
  refine ⟨danaRecordstatus_seen s, ?_⟩
  rw [hp.mode_eq, hp.normal, hp.tmpNormal, hp.tmpEvent]
  simp only [Meets, not_and_or, not_forall, exists_prop, Bool.not_eq_true, Bool.not_eq_false]
    at hmeets
  rcases hmeets with ⟨hm, hl, hcard⟩ | ⟨hl, hm, hsaved⟩ | ⟨hl, hm, hsaved⟩
  · -- entered without a card: nothing ran, nothing was saved, and nothing is started
    left
    have hnone : ¬ (s.gNormalStatus = true ∨ s.tmpNormalRecord = true) :=
      fun h => hl (hs.normal.mpr h)
    rw [not_or, Bool.not_eq_true, Bool.not_eq_true] at hnone
    rw [if_neg (by rwa [hm]), if_pos hm, hnone.1, hcard]
    exact ⟨hm, rfl, hnone.2⟩
  · exact Or.inr (Or.inl ⟨hm, Or.inr hsaved⟩)
  · exact Or.inr (Or.inr ⟨hm, Or.inr hsaved⟩)

theorem Broken.cardPass (hs : Broken s) (hp : CardPass s t) : Broken t := by
  obtain ⟨hseen, hs⟩ := hs
  refine ⟨hp.last.trans (hseen.trans hp.mode.symm), ?_⟩
  rw [hp.mode, hp.normal_or, hp.event_or]
  rcases hs with ⟨hm, hn, ht⟩ | hs | hs
  · have hnone : ¬ (t.gNormalStatus = true ∨ t.tmpNormalRecord = true) := by
      rw [hp.normal_or, hn, ht]
      simp
    rw [not_or, Bool.not_eq_true, Bool.not_eq_true] at hnone
    exact Or.inl ⟨hm, hnone⟩
  · exact Or.inr (Or.inl hs)
  · exact Or.inr (Or.inr hs)

theorem Broken.danaPass (hs : Broken s) (hp : DanaPass s t) : Broken t := by
  obtain ⟨hseen, hs⟩ := hs
  have hl : s.recordLastStatus = s.mode := hseen
  refine ⟨hp.last.trans hp.mode_eq.symm, ?_⟩
  -- the mode is the one seen last, so nothing is started or stopped
  have hnormal : t.gNormalStatus = s.gNormalStatus := by
    rw [hp.normal, if_pos hl]
  rw [hp.mode_eq, hnormal, hp.tmpNormal, hp.tmpEvent]
  rcases hs with hs | hs | ⟨hm, hs⟩
  · exact Or.inl hs
  · exact Or.inr (Or.inl hs)
  · have hevent : t.gEventStatus = s.gEventStatus := by
      rw [hp.event hm, hl]
      simp [hm]
    rw [hevent]
    exact Or.inr (Or.inr ⟨hm, hs⟩)

theorem Broken.step {a : Step} (hs : Broken s) (ha : a = .insertCard ∨ a.isPass) :
    Broken (s.step a) := by
  rcases ha with rfl | rfl | rfl
  · exact hs
  · exact hs.danaPass (danaRecordstatus_pass s)
  · exact hs.cardPass (sdCardDetecte_pass s)

theorem Broken.not_follows (hs : Broken s) (hrestarted : Restarted s) (hcard : s.sdCard = true) :
    ¬ Follows s := by
  intro hf
  obtain ⟨hn, he⟩ := hrestarted hcard
  have hnormal := hf.normal
  have hevent := hf.event
  rw [← mode_eq_iff s (by decide)] at hnormal hevent
  rcases hs.2 with ⟨hm, hoff, -⟩ | ⟨hm, hrun⟩ | ⟨hm, hrun⟩
  · rw [hnormal.mpr hm] at hoff
    exact Bool.false_ne_true hoff.symm
  · rw [hn] at hrun
    exact hm (hnormal.mp (hrun.resolve_right Bool.false_ne_true))
  · rw [he] at hrun
    exact hm (hevent (hrun.resolve_right Bool.false_ne_true))

theorem sdCard_step {a : Step} (hcard : s.sdCard = true) (ha : a.isPass) :
    (s.step a).sdCard = true := by
  rcases ha with rfl | rfl
  · exact (danaRecordstatus_pass s).card.trans hcard
  · exact (sdCardDetecte_pass s).card.trans hcard

end Broken

/-! ## Recording follows the mode -/

theorem Step.isPass.not_changesMode {a : Step} (ha : a.isPass) : ¬ a.changesMode := by
  rcases ha with rfl | rfl <;> simp [Step.changesMode]

theorem Step.isPass.not_changesCard {a : Step} (ha : a.isPass) : ¬ a.changesCard := by
  rcases ha with rfl | rfl <;> simp [Step.changesCard]

/-- The card comes back and both threads pass, one of them once more; then any further passes. -/
def cardBack (passes : List Step) : List Step :=
  .insertCard :: .sdCardDetecte :: .danaRecordstatus :: passes

theorem settled_cardBack (steps passes : List Step)
    (hpasses : ∀ b ∈ passes, b.isPass) : Settled (steps ++ cardBack passes) := by
  constructor
  · refine ⟨steps ++ [.insertCard, .sdCardDetecte], passes, by simp [cardBack], ?_⟩
    intro b hb
    exact (hpasses b hb).not_changesMode
  · refine ⟨steps ++ [.insertCard], .danaRecordstatus :: passes, by simp [cardBack], ?_⟩
    intro b hb
    rcases List.mem_cons.mp hb with rfl | hb
    · exact Step.isPass.not_changesCard (Or.inl rfl)
    · exact (hpasses b hb).not_changesCard

/-- Such steps leave the card in and a broken state broken. -/
theorem broken_cardBack {s : RecordMode} (hs : Broken s) {passes : List Step}
    (hpasses : ∀ b ∈ passes, b.isPass) :
    (run s (cardBack passes)).sdCard = true ∧ Broken (run s (cardBack passes)) := by
  have htail : ∀ b ∈ .sdCardDetecte :: .danaRecordstatus :: passes, b.isPass := by
    intro b hb
    rcases List.mem_cons.mp hb with rfl | hb
    · exact Or.inr rfl
    rcases List.mem_cons.mp hb with rfl | hb
    · exact Or.inl rfl
    · exact hpasses b hb
  -- from the insertion on there are passes only
  have hguard : GuardedRun.Guarded step (fun _ b => b.isPass) (s.step .insertCard) _ :=
    GuardedRun.guarded_of_forall htail
  exact hguard.invariant (I := fun t => t.sdCard = true ∧ Broken t)
    (fun t b ht hb => ⟨sdCard_step ht.1 hb, ht.2.step (Or.inr hb)⟩) ⟨rfl, hs.step (Or.inl rfl)⟩

/-- If every pass meets the condition, then whenever the card is present and both threads have
passed since the last change, recording follows the mode.  After any other pass it need not: the
card comes back, both threads pass, and however often they pass again it does not follow. -/
theorem recording_follows_mode (recordTypes : RecordFlags) (recordTime : ℤ) (sdCard : Bool)
    (steps : List Step)
    (hrun : GuardedRun.Guarded step Meets (start recordTypes recordTime sdCard) steps) :
    (Settled steps → (run (start recordTypes recordTime sdCard) steps).sdCard = true →
      Follows (run (start recordTypes recordTime sdCard) steps))
    ∧ ∀ a, ¬ (run (start recordTypes recordTime sdCard) steps).Meets a →
        ∀ passes : List Step, (∀ b ∈ passes, b.isPass) →
          let all := (steps ++ [a]) ++ cardBack passes
          Settled all ∧ (run (start recordTypes recordTime sdCard) all).sdCard = true
            ∧ ¬ Follows (run (start recordTypes recordTime sdCard) all) := by
  have hinit := start_agrees recordTypes recordTime sdCard
  have hkeep : ∀ (s : RecordMode) (a : Step), Agrees s → s.Meets a → Agrees (s.step a) :=
    fun s a hs ha => hs.step ha
  have hagrees : Agrees (run (start recordTypes recordTime sdCard) steps) :=
    hrun.invariant hkeep hinit
  constructor
  · rintro ⟨hdana, hdetect⟩ hcard
    have hseen := hdana.holds hkeep (fun s _ _ => danaRecordstatus_seen s)
      (fun s a _ _ ha hs => Seen.step hs ha) hrun hinit
    have hrestarted := hdetect.holds hkeep (fun s _ _ => sdCardDetecte_restarted s)
      (fun s a _ _ ha hs => Restarted.step hs ha) hrun hinit
    exact hagrees.follows hseen hrestarted hcard
  · intro a hmeets passes hpasses all
    -- only a pass of this thread can fail the condition
    obtain rfl : a = .danaRecordstatus := by
      cases a with
      | danaRecordstatus => rfl
      | setFlags | setSchedule | removeCard | insertCard | motionAlarm | pirAlarm | eventEnds
      | sdCardDetecte => exact absurd trivial hmeets
    have hsettled : Settled all := settled_cardBack _ _ hpasses
    -- what the detector establishes it does in every run
    have hguard : GuardedRun.Guarded step (fun _ _ => True)
        (start recordTypes recordTime sdCard) all :=
      GuardedRun.guarded_of_forall fun _ _ => trivial
    have hrestarted := hsettled.2.holds (I := fun _ => True)
      (fun _ _ _ _ => trivial) (fun s _ _ => sdCardDetecte_restarted s)
      (fun s b _ _ hb hs => Restarted.step hs hb) hguard trivial
    -- the run up to this pass, and what follows it
    have hall : run (start recordTypes recordTime sdCard) all =
        run (run (start recordTypes recordTime sdCard) steps).danaRecordstatus
          (cardBack passes) := by
      unfold run
      rw [List.foldl_append, List.foldl_append]
      rfl
    obtain ⟨hcard, hbroken⟩ := broken_cardBack (hagrees.broken hmeets) hpasses
    rw [← hall] at hcard hbroken
    exact ⟨hsettled, hcard, hbroken.not_follows hrestarted hcard⟩

/-- Full-time mode is entered with the card present, and recording goes on over its removal. -/
theorem recording_follows_mode_fulltime :
    Follows (run (start .fulltime 10 true) [.setSchedule true, .danaRecordstatus, .removeCard,
      .sdCardDetecte, .insertCard, .sdCardDetecte]) := by
  refine (recording_follows_mode .fulltime 10 true _ ?_).1 ⟨?_, ?_⟩ rfl
  · simp [GuardedRun.Guarded, Meets, start, RecordMode.step, mode]
  · refine ⟨[.setSchedule true], _, rfl, ?_⟩
    simp [Step.changesMode]
  · refine ⟨[.setSchedule true, .danaRecordstatus, .removeCard, .sdCardDetecte, .insertCard], _,
      rfl, ?_⟩
    simp

/-- Switched on while the card is out, full-time recording never starts. -/
theorem fulltime_without_card : ¬ ∀ recordTypes recordTime sdCard steps, Settled steps →
    (run (start recordTypes recordTime sdCard) steps).sdCard = true →
      Follows (run (start recordTypes recordTime sdCard) steps) := by
  intro h
  have hsettled := settled_cardBack [.setSchedule true, .danaRecordstatus]
    [.sdCardDetecte, .danaRecordstatus] (by simp [Step.isPass])
  have hf := h .fulltime 10 false _ hsettled rfl
  have hrun := hf.normal.mpr ⟨rfl, rfl⟩
  revert hrun
  decide

end RecordMode
