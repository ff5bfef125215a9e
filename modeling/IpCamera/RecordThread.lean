/-
# The continuous recorder (`normal_record_thread`, `record.c`)

One pass of the loop reads at most one video frame and then audio frames until the
sound has caught up with the picture; a key frame opens a segment, and a later one
closes it when the segment is long enough.  A pass is a transition (`pass`) whose
input holds what the ring readers return and the outcomes of the file operations.

`firstStamp` and `finished` are no variables of the source: the time stamp of the
frame the current segment was opened at, and the handles as the closes left them.
-/
import IpCamera.AviComplete

/-! ## Inputs -/

/-- `sizeof(tmpbuf)`, `SHM_VIDEO_STREAM_720P_MAX_FRAME_SIZE`. -/
def tmpbufSize : ℕ := 256 * 1024

/-- A video frame for which `SHM_VideoReadFrameWithExtras` returned a length above 1; it has been
copied to `tmpbuf`. -/
structure VideoRead where
  data : List UInt8
  ucKeyFrameFlag : ℕ
  ullTimeStamp : ℕ
  read : 1 < data.length
  fits : data.length ≤ tmpbufSize

/-- An audio frame for which `SHM_AudioReadFrameWithExtras` returned a length above 1, with the
outcome of its write. -/
structure AudioRead where
  data : List UInt8
  ullTimeStamp : ℕ
  io : WriteIo
  read : 1 < data.length
  fits : data.length ≤ tmpbufSize

/-- `SDK_VIDEO_FRAME_I` -/
def sdkVideoFrameI : ℕ := 1

def VideoRead.IsKey (v : VideoRead) : Prop := v.ucKeyFrameFlag = sdkVideoFrameI

instance (v : VideoRead) : Decidable v.IsKey := inferInstanceAs (Decidable (_ = _))

/-- The input of one pass: the video frame, if there is a new one, the audio frames the reader has
for this pass, the clock, and the outcomes of the file operations. -/
structure RecordPass where
  video : Option VideoRead
  audio : List AudioRead
  utcTime : ℕ
  date : String
  openIo : OpenIo
  videoIo : WriteIo
  closeIo : CloseIo

/-! ## The thread -/

/-- The variables of `normal_record_thread`.  `running` is false once the loop has been left by
`break`. -/
structure RecordThread where
  startRecMs : ℕ
  startFlag : Bool
  ullMediaVideoMs : ℕ
  ullMediaAudioMs : ℕ
  /-- `struAExtra.ullTimeStamp` -/
  audioStamp : ℕ
  aviHandle : AviFile
  running : Bool
  firstStamp : ℕ
  finished : List AviFile

namespace RecordThread

/-- The thread before its first pass; the buffer and `struAExtra` hold anything. -/
def start (s : AviFile) (audioStamp : ℕ) : RecordThread where
  startRecMs := 0
  startFlag := false
  ullMediaVideoMs := 0
  ullMediaAudioMs := 0
  audioStamp := audioStamp
  aviHandle := s.clear
  running := true
  firstStamp := 0
  finished := []

/-- `record_switch_time`, the seconds of a segment for the duration given to
`start_normal_record_stream`. -/
def recordSwitchTime (duration : ℕ) : ℕ := if 15 > duration then 15 else duration

/-- A key frame while no segment is open opens one. -/
def openSegment (duration : ℕ) (t : RecordThread) (v : VideoRead) (p : RecordPass) :
    RecordThread :=
  if t.startFlag = false ∧ v.IsKey then
    let (ret, handle) :=
      recordNormalStart { t.aviHandle.clear with start := p.utcTime }
        (recordSwitchTime duration) 20 p.date p.openIo
    { t with
      startRecMs := v.ullTimeStamp % 4294967296
      firstStamp := v.ullTimeStamp
      aviHandle := handle
      running := !decide (ret < 0)
      startFlag := !decide (ret < 0) }
  else t

/-- `ullTimeStamp - start_rec_ms >= init_param.duration * 1000`, in `unsigned long long`; the
product, an `int`, is taken not to overflow. -/
def LongEnough (t : RecordThread) (v : VideoRead) : Prop :=
  t.aviHandle.initParam.duration * 1000
    ≤ (v.ullTimeStamp + 18446744073709551616 - t.startRecMs) % 18446744073709551616

instance (t : RecordThread) (v : VideoRead) : Decidable (t.LongEnough v) :=
  inferInstanceAs (Decidable (_ ≤ _))

/-- The segment is closed at this frame. -/
def Rotates (t : RecordThread) (v : VideoRead) : Prop :=
  t.startFlag = true ∧ v.IsKey ∧ t.LongEnough v

instance (t : RecordThread) (v : VideoRead) : Decidable (t.Rotates v) :=
  inferInstanceAs (Decidable (_ ∧ _ ∧ _))

/-- `TIMEVAL_DIFF_MS(start_rec_ms, end)`, assigned to the `unsigned int` duration. -/
def timevalDiffMs (startRecMs stamp : ℕ) : ℕ :=
  (stamp + 4294967296 - startRecMs) % 4294967296

/-- `_record_normal_stop` with the duration up to `stamp`. -/
def stopSegment (t : RecordThread) (stamp : ℕ) (io : CloseIo) : RecordThread :=
  let handle := { t.aviHandle with duration := timevalDiffMs t.startRecMs stamp }
  let (_, handle) := recordNormalStop handle io
  { t with aviHandle := handle, startFlag := false, finished := t.finished ++ [handle] }

/-- The frame as it is given to `avi_record_write_extend`: the time value is that of the latest
audio frame. -/
def videoFrame (t : RecordThread) (v : VideoRead) : AviFrame :=
  ⟨v.data, if v.IsKey then 1 else 0, (t.audioStamp, t.audioStamp)⟩

/-- A video frame goes to the open segment. -/
def writeVideo (t : RecordThread) (v : VideoRead) (io : WriteIo) : RecordThread :=
  { t with
    aviHandle :=
      (aviRecordWriteExtend t.aviHandle v.data (if v.IsKey then 1 else 0) t.audioStamp io).2 }

/-- The inner loop over the audio frames. -/
def writeAudio : List AudioRead → RecordThread → RecordThread
  | [], t => t
  | a :: as, t =>
      if t.ullMediaAudioMs < t.ullMediaVideoMs then
        writeAudio as { t with
          ullMediaAudioMs := a.ullTimeStamp
          audioStamp := a.ullTimeStamp
          aviHandle := (aviRecordWriteExtend t.aviHandle a.data 2 a.ullTimeStamp a.io).2 }
      else t

/-- The audio part of a pass. -/
def audioPart (t : RecordThread) (p : RecordPass) : RecordThread :=
  if t.startFlag = true then writeAudio p.audio t else t

/-- One pass of the loop.  After a rotation `continue` skips the rest, the frame in hand included. -/
def pass (duration : ℕ) (t : RecordThread) (p : RecordPass) : RecordThread :=
  if t.running = false then t
  else
    match p.video with
    | none => t.audioPart p
    | some v =>
        let t := openSegment duration { t with ullMediaVideoMs := v.ullTimeStamp } v p
        if t.running = false then t
        else if t.Rotates v then t.stopSegment v.ullTimeStamp p.closeIo
        else if t.startFlag = true then (t.writeVideo v p.videoIo).audioPart p
        else t

/-- The state in which the thread looks at the video frame of the pass. -/
def facing (duration : ℕ) (t : RecordThread) (v : VideoRead) (p : RecordPass) : RecordThread :=
  openSegment duration { t with ullMediaVideoMs := v.ullTimeStamp } v p

/-- At this pass the frame in hand closes the segment. -/
def ClosesAt (duration : ℕ) (t : RecordThread) (p : RecordPass) : Prop :=
  t.running = true ∧ ∃ v ∈ p.video, (t.facing duration v p).Rotates v

/-- The loop, over the passes until `g_normal_status` is cleared. -/
def run (duration : ℕ) (t : RecordThread) (ps : List RecordPass) : RecordThread :=
  ps.foldl (pass duration) t

/-- The end of the thread: an open segment is closed. -/
def finish (t : RecordThread) (io : CloseIo) : RecordThread :=
  if t.startFlag = true then t.stopSegment t.audioStamp io else t

end RecordThread

/-- Every file operation of the pass succeeds. -/
structure RecordPass.Succeeds (p : RecordPass) : Prop where
  openIo : p.openIo.AllOk
  videoIo : p.videoIo = .ok
  audioIo : ∀ a ∈ p.audio, a.io = .ok
  closeIo : p.closeIo.AllOk

/-- A key frame of two bytes. -/
def keyRead (stamp : ℕ) : VideoRead := ⟨[0, 0], sdkVideoFrameI, stamp, by decide, by decide⟩

/-- A pass with this key frame alone, every file operation succeeding. -/
def keyPass (stamp : ℕ) : RecordPass where
  video := some (keyRead stamp)
  audio := []
  utcTime := 0
  date := "20240101"
  openIo := ⟨fun _ => true, true, true, true, .full⟩
  videoIo := .ok
  closeIo := ⟨fun _ => true, .full, .full, .full, .full, fun _ => true, fun _ => .full,
    fun _ => .full, true, true⟩

theorem keyPass_succeeds (stamp : ℕ) : (keyPass stamp).Succeeds where
  openIo := ⟨fun _ => rfl, rfl, rfl, rfl, rfl⟩
  videoIo := rfl
  audioIo := fun a ha => absurd ha (by simp [keyPass])
  closeIo := ⟨fun _ => rfl, rfl, rfl, rfl, rfl, fun _ => rfl, fun _ => rfl, fun _ => rfl, rfl, rfl⟩
