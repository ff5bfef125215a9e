/-
# Segments of the continuous recorder

Every video frame from the first key frame on should be in one segment file.  When
a key frame closes a segment, the thread goes on with the next frame: the key frame
is written to neither file, and the next segment waits for another one.  The record
buffer drops a frame too when it overflows.  So nothing is lost exactly in the runs
in which neither happens (`Quiet`): `segments_complete_iff`.

`Books` is the invariant of a run: the frames of the finished files and of the open
one, and whether a frame has been lost so far.
-/
import IpCamera.SegmentLength

/-! ## Frames of the thread -/

/-- The bytes and the type of a video frame. -/
def VideoRead.image (v : VideoRead) : List UInt8 × ℤ := (v.data, if v.IsKey then 1 else 0)

/-- The video frames among `fs`, without their time values. -/
def imagesOf (fs : List AviFrame) : List (List UInt8 × ℤ) :=
  (fs.filter fun f => f.IsVideo).map fun f => (f.data, f.intra)

/-- The video frames a list of passes reads, from the first key frame on. -/
def videosFromKey (ps : List RecordPass) : List VideoRead :=
  (ps.filterMap RecordPass.video).dropWhile fun v => ¬ v.IsKey

theorem imagesOf_append (fs gs : List AviFrame) :
    imagesOf (fs ++ gs) = imagesOf fs ++ imagesOf gs := by
  simp [imagesOf]

theorem imagesOf_length (fs : List AviFrame) : (imagesOf fs).length = videoCountOf fs := by
  rw [imagesOf, List.length_map, videoCountOf, List.countP_eq_length_filter]

/-- The index entries count the video frames. -/
theorem countP_indexFrom (fs : List AviFrame) :
    ∀ o, (indexFrom o fs).countP (fun e => e.ckid = fcc00dc) = videoCountOf fs := by
  induction fs with
  | nil => intro o; rfl
  | cons f fs ih =>
    intro o
    have hckid : (f.ckid = fcc00dc) ↔ f.IsVideo := by
      unfold AviFrame.ckid
      by_cases hv : f.IsVideo
      · simp [hv]
      · rw [if_neg hv]
        exact ⟨fun h => absurd h (by decide), fun h => absurd h hv⟩
    have hcons : videoCountOf (f :: fs) = videoCountOf fs + if f.IsVideo then 1 else 0 := by
      simp [videoCountOf, List.countP_cons]
    rw [indexFrom, List.countP_cons, ih, hcons]
    show _ + (if decide (f.ckid = fcc00dc) = true then 1 else 0) = _
    simp only [decide_eq_true_eq, hckid]

namespace RecordThread

theorem videoFrame_isVideo (t : RecordThread) (v : VideoRead) : (t.videoFrame v).IsVideo := by
  unfold AviFrame.IsVideo videoFrame
  by_cases hk : v.IsKey <;> simp [hk]

theorem videoFrame_ok (t : RecordThread) (v : VideoRead) : (t.videoFrame v).Ok := by
  have hfits := v.fits
  unfold tmpbufSize at hfits
  constructor
  · left
    exact videoFrame_isVideo t v
  · have hlt : (t.videoFrame v).data.length % 2 < 2 := Nat.mod_lt _ (by decide)
    have hlen : (t.videoFrame v).data.length = v.data.length := rfl
    unfold AviFrame.chunkSize AviFrame.isAlign recBufSize
    omega

theorem videoFrame_isKey {t : RecordThread} {v : VideoRead} (hk : v.IsKey) :
    (t.videoFrame v).IsKey := by
  left
  show (if v.IsKey then (1 : ℤ) else 0) = 1
  rw [if_pos hk]

theorem imagesOf_videoFrame (t : RecordThread) (v : VideoRead) :
    imagesOf [t.videoFrame v] = [v.image] := by
  rw [imagesOf, List.filter_cons_of_pos (by simpa using videoFrame_isVideo t v)]
  rfl

/-- An audio frame as it is given to `avi_record_write_extend`. -/
def audioFrame (a : AudioRead) : AviFrame := ⟨a.data, 2, (a.ullTimeStamp, a.ullTimeStamp)⟩

theorem audioFrame_not_video (a : AudioRead) : ¬ (audioFrame a).IsVideo := by
  show ¬ ((2 : ℤ) = 1 ∨ (2 : ℤ) = 0 ∨ (2 : ℤ) = 3)
  decide

theorem audioFrame_ok (a : AudioRead) : (audioFrame a).Ok := by
  have hfits := a.fits
  unfold tmpbufSize at hfits
  constructor
  · right
    rfl
  · have hlt : (audioFrame a).data.length % 2 < 2 := Nat.mod_lt _ (by decide)
    have hlen : (audioFrame a).data.length = a.data.length := rfl
    unfold AviFrame.chunkSize AviFrame.isAlign recBufSize
    omega

/-! ## Runs in which nothing is lost -/

/-- At this pass the frame in hand finds too little room in the record buffer. -/
def OverflowsAt (duration : ℕ) (t : RecordThread) (p : RecordPass) : Prop :=
  ∃ v ∈ p.video, (t.facing duration v p).startFlag = true
    ∧ (t.facing duration v p).aviHandle.Overflows ((t.facing duration v p).videoFrame v)

/-- No pass closes a segment or overflows the record buffer. -/
def Quiet (duration : ℕ) : RecordThread → List RecordPass → Prop
  | _, [] => True
  | t, p :: ps =>
      ¬ t.ClosesAt duration p ∧ ¬ t.OverflowsAt duration p ∧ Quiet duration (t.pass duration p) ps

/-- The frames at which a segment is closed. -/
def cuts (duration : ℕ) : RecordThread → List RecordPass → List VideoRead
  | _, [] => []
  | t, p :: ps =>
      match p.video with
      | none => cuts duration (t.pass duration p) ps
      | some v =>
          if t.running = true ∧ (t.facing duration v p).Rotates v then
            v :: cuts duration (t.pass duration p) ps
          else cuts duration (t.pass duration p) ps

end RecordThread

/-- The segment files hold these video frames, each once and in order; each file begins with a key
frame, and a frame at which a segment was closed is the first of the next file. -/
def HoldSegments (files : List AviFile) (vs cuts : List VideoRead) : Prop :=
  ∃ segments : List (List AviFrame),
    List.Forall₂ (fun s fs => HoldsFrames s.file fs) files segments
      ∧ (∀ fs ∈ segments, ∃ f gs, fs = f :: gs ∧ f.IsKey)
      ∧ imagesOf segments.flatten = vs.map VideoRead.image
      ∧ (segments.tail.flatMap fun fs => imagesOf (fs.take 1)) = cuts.map VideoRead.image

/-! ## What the files and the buffer hold -/

namespace RecordThread

/-- The header of a segment. -/
def segmentHeader (duration : ℕ) : List UInt8 := startHeader (recordSwitchTime duration) 20

theorem segmentHeader_length (duration : ℕ) :
    (segmentHeader duration).length = sizeofAviHeader := startHeader_length _ _

/-- The finished files hold the frames `segs`, and the handle represents `cur` while a segment is
open. -/
structure Books (duration : ℕ) (t : RecordThread) (segs : List (List AviFrame)) (cur : Recording) :
    Prop where
  running : t.running = true
  finished : List.Forall₂ (fun s fs => HoldsFrames s.file fs) t.finished segs
  represents : t.startFlag = true → Represents (segmentHeader duration) t.aviHandle cur
  frames_ok : ∀ f ∈ cur.frames, f.Ok
  closed : t.startFlag = false → cur = .empty

section Steps

variable {duration : ℕ} {t : RecordThread} {segs : List (List AviFrame)} {cur : Recording}

/-- The thread before its first pass. -/
theorem start_books (duration : ℕ) (s : AviFile) (audioStamp : ℕ) :
    Books duration (start s audioStamp) [] .empty where
  running := rfl
  finished := .nil
  represents := fun h => absurd h (Bool.false_ne_true)
  frames_ok := fun f hf => absurd hf (by simp [Recording.frames, Recording.empty])
  closed := fun _ => rfl

/-- Opening a segment leaves the books as they are. -/
theorem Books.facing (h : Books duration t segs cur) (v : VideoRead) {p : RecordPass}
    (hio : p.openIo.AllOk) : Books duration (t.facing duration v p) segs cur := by
  unfold RecordThread.facing openSegment
  by_cases hopen : t.startFlag = false ∧ v.IsKey
  · obtain ⟨hret, hrep⟩ := recordNormalStart_represents
      (s := { t.aviHandle.clear with start := p.utcTime }) 20 p.date hio
      (recordSwitchTime_pos duration) rfl rfl
    rw [if_pos hopen]
    constructor
    case running =>
      show (!decide (_ < (0 : ℤ))) = true
      rw [hret]
      decide
    case finished => exact h.finished
    case represents =>
      intro _
      rw [h.closed hopen.1]
      exact hrep
    case frames_ok => exact h.frames_ok
    case closed =>
      intro _
      exact h.closed hopen.1
  · rw [if_neg hopen]
    exact { h with }

/-- Closing a segment. -/
theorem Books.stopSegment (h : Books duration t segs cur) (hopen : t.startFlag = true)
    {io : CloseIo} (hio : io.AllOk) (stamp : ℕ) :
    Books duration (t.stopSegment stamp io) (segs ++ [cur.frames]) .empty := by
  have hrep := h.represents hopen
  have hrep' : Represents (segmentHeader duration)
      { t.aviHandle with duration := timevalDiffMs t.startRecMs stamp } cur :=
    ⟨{ hrep.stores with }, hrep.newFlag, fun hs => { hrep.positioned hs with }⟩
  have hread := close_read hio (segmentHeader_length duration) hrep' h.frames_ok
  constructor
  case running => exact h.running
  case finished => exact List.rel_append h.finished (.cons hread .nil)
  case represents =>
    intro hs
    cases hs
  case frames_ok =>
    intro f hf
    simp [Recording.frames, Recording.empty] at hf
  case closed =>
    intro _
    rfl

/-- A write to the open segment. -/
theorem Books.write (h : Books duration t segs cur) (hopen : t.startFlag = true) {f : AviFrame}
    (hok : f.Ok) {u : RecordThread} (hrunning : u.running = t.running)
    (hfinished : u.finished = t.finished) (hflag : u.startFlag = t.startFlag)
    (hhandle : u.aviHandle = (aviRecordFrame t.aviHandle f .ok).2) :
    Books duration u segs (cur.add f) := by
  have hrep := (h.represents hopen).write (segmentHeader_length duration) hok
  have hsub : (cur.add f).frames.Sublist (cur.frames ++ [f]) := by
    rw [Recording.add_frames]
    split
    · exact List.Sublist.refl _
    · exact List.sublist_append_left _ _
  constructor
  case running =>
    rw [hrunning]
    exact h.running
  case finished =>
    rw [hfinished]
    exact h.finished
  case represents =>
    intro _
    rw [hhandle]
    exact hrep.2
  case frames_ok =>
    intro g hg
    rcases List.mem_append.mp (hsub.subset hg) with hg | hg
    · exact h.frames_ok g hg
    · rw [List.mem_singleton.mp hg]
      exact hok
  case closed =>
    intro hs
    rw [hflag, hopen] at hs
    cases hs

/-- Audio frames change neither the video frames nor the beginning of the segment. -/
theorem Books.writeAudio (as : List AudioRead) (hio : ∀ a ∈ as, a.io = .ok) :
    ∀ {t : RecordThread} {cur : Recording}, Books duration t segs cur → t.startFlag = true →
      cur.started = true →
      (RecordThread.writeAudio as t).startFlag = true
        ∧ ∃ cur', Books duration (RecordThread.writeAudio as t) segs cur' ∧ cur'.started = true
          ∧ cur.frames <+: cur'.frames ∧ imagesOf cur'.frames = imagesOf cur.frames := by
  induction as with
  | nil =>
    intro t cur h hopen hstart
    exact ⟨hopen, cur, h, hstart, List.prefix_refl _, rfl⟩
  | cons a as ih =>
    intro t cur h hopen hstart
    unfold RecordThread.writeAudio
    by_cases hlt : t.ullMediaAudioMs < t.ullMediaVideoMs
    · rw [if_pos hlt]
      -- an audio frame is older than the video frame in hand: it is written
      have hnext := h.write hopen (audioFrame_ok a)
        (u := { t with
          ullMediaAudioMs := a.ullTimeStamp
          audioStamp := a.ullTimeStamp
          aviHandle := (aviRecordWriteExtend t.aviHandle a.data 2 a.ullTimeStamp a.io).2 })
        rfl rfl rfl (by rw [aviRecordWriteExtend_eq, hio a (by simp)]; rfl)
      obtain ⟨hflag, cur', hbooks, hstart', hpre, himg⟩ :=
        ih (fun b hb => hio b (by simp [hb])) hnext hopen
          ((Recording.add_started _ _).mpr (Or.inl hstart))
      have hadd : cur.frames <+: (cur.add (audioFrame a)).frames
          ∧ imagesOf (cur.add (audioFrame a)).frames = imagesOf cur.frames := by
        rw [Recording.add_frames]
        split
        · refine ⟨List.prefix_append _ _, ?_⟩
          rw [imagesOf_append, imagesOf, imagesOf,
            List.filter_cons_of_neg (by simpa using audioFrame_not_video a)]
          simp
        · exact ⟨List.prefix_refl _, rfl⟩
      exact ⟨hflag, cur', hbooks, hstart', hadd.1.trans hpre, himg.trans hadd.2⟩
    · rw [if_neg hlt]
      exact ⟨hopen, cur, h, hstart, List.prefix_refl _, rfl⟩

/-- Once a segment is open, its recording has started. -/
def Started (t : RecordThread) (cur : Recording) : Prop :=
  t.startFlag = true → cur.started = true

theorem Books.audioPart (h : Books duration t segs cur) (hstart : Started t cur) {p : RecordPass}
    (hio : ∀ a ∈ p.audio, a.io = .ok) :
    (t.audioPart p).startFlag = t.startFlag
      ∧ ∃ cur', Books duration (t.audioPart p) segs cur' ∧ Started (t.audioPart p) cur'
        ∧ cur.frames <+: cur'.frames ∧ imagesOf cur'.frames = imagesOf cur.frames := by
  unfold RecordThread.audioPart
  by_cases hopen : t.startFlag = true
  · rw [if_pos hopen]
    obtain ⟨hflag, cur', hbooks, hstart', hpre, himg⟩ :=
      h.writeAudio p.audio hio hopen (hstart hopen)
    exact ⟨by rw [hflag, hopen], cur', hbooks, fun _ => hstart', hpre, himg⟩
  · rw [if_neg hopen]
    exact ⟨rfl, cur, h, hstart, List.prefix_refl _, rfl⟩

/-! ## One pass -/

/-- A pass without a video frame. -/
theorem pass_none {p : RecordPass} (hv : p.video = none) (hrun : t.running = true) :
    t.pass duration p = t.audioPart p := by
  unfold pass
  rw [if_neg (by rw [hrun]; decide), hv]

/-- A pass with a video frame, from the state in which the thread looks at it. -/
theorem pass_some {p : RecordPass} {v : VideoRead} (hv : p.video = some v)
    (hrun : t.running = true) (hrun' : (t.facing duration v p).running = true) :
    t.pass duration p =
      if (t.facing duration v p).Rotates v then
        (t.facing duration v p).stopSegment v.ullTimeStamp p.closeIo
      else if (t.facing duration v p).startFlag = true then
        ((t.facing duration v p).writeVideo v p.videoIo).audioPart p
      else t.facing duration v p := by
  unfold pass
  rw [if_neg (by rw [hrun]; decide), hv]
  show (if (t.facing duration v p).running = false then _ else _) = _
  rw [if_neg (by rw [hrun']; decide)]
  rfl

/-- The frame of a pass that does not close the segment is written to it, if one is open. -/
theorem Books.writeVideo (h : Books duration t segs cur) (hopen : t.startFlag = true)
    {v : VideoRead} (hacc : cur.started = true ∨ v.IsKey) :
    Books duration (t.writeVideo v .ok) segs (cur.add (t.videoFrame v))
      ∧ Started (t.writeVideo v .ok) (cur.add (t.videoFrame v))
      ∧ (cur.add (t.videoFrame v)).frames
        = if t.aviHandle.Overflows (t.videoFrame v) then cur.frames
          else cur.frames ++ [t.videoFrame v] := by
  -- the frame is a key frame or the recording has one, so it is accepted
  have hbooks := h.write (u := t.writeVideo v .ok) hopen (videoFrame_ok t v) rfl rfl rfl rfl
  have hacc' : cur.Accepts (t.videoFrame v) := hacc.imp id videoFrame_isKey
  refine ⟨hbooks, fun _ => (Recording.add_started _ _).mpr hacc', ?_⟩
  have hiff := (h.represents hopen).stores.overflows_iff (t.videoFrame v)
  rw [Recording.add_frames]
  by_cases ho : cur.Overflows (t.videoFrame v)
  · rw [if_pos (hiff.mpr ho), if_neg fun hc => hc.2 ho]
  · rw [if_neg (fun hc => ho (hiff.mp hc)), if_pos ⟨hacc', ho⟩]

/-- The video frame of the pass, if the thread should record it. -/
def taken (t : RecordThread) (p : RecordPass) : List VideoRead :=
  p.video.toList.filter fun v => t.startFlag = true ∨ v.IsKey

/-- A recording that has started begins with a key frame. -/
def KeyHead (cur : Recording) : Prop :=
  cur.started = true → ∃ f gs, cur.frames = f :: gs ∧ f.IsKey

/-- The number of video frames in the files and in the open segment. -/
def stored (segs : List (List AviFrame)) (cur : Recording) : ℕ :=
  videoCountOf (segs.flatten ++ cur.frames)

/-- A pass that records what it should. -/
structure Records (duration : ℕ) (t t' : RecordThread) (segs : List (List AviFrame))
    (cur cur' : Recording) (p : RecordPass) : Prop where
  books : Books duration t' segs cur'
  started : Started t' cur'
  flag : t'.startFlag = true ↔ t.startFlag = true ∨ t.taken p ≠ []
  images : imagesOf cur'.frames = imagesOf cur.frames ++ (t.taken p).map VideoRead.image
  keyHead : KeyHead cur → KeyHead cur'

/-- A pass that loses its frame. -/
structure Loses (duration : ℕ) (t t' : RecordThread) (segs segs' : List (List AviFrame))
    (cur cur' : Recording) (p : RecordPass) : Prop where
  books : Books duration t' segs' cur'
  started : Started t' cur'
  stored : stored segs' cur' = stored segs cur
  taken : t.taken p ≠ []

theorem KeyHead.mono {cur cur' : Recording} (h : KeyHead cur) (hpre : cur.frames <+: cur'.frames)
    (hstart : cur.started = true) : KeyHead cur' := by
  intro _
  obtain ⟨f, gs, hf, hkey⟩ := h hstart
  obtain ⟨rest, hrest⟩ := hpre
  exact ⟨f, gs ++ rest, by rw [← hrest, hf]; rfl, hkey⟩

section OnePass

variable {p : RecordPass} {v : VideoRead}

theorem taken_none (hv : p.video = none) : t.taken p = [] := by
  rw [RecordThread.taken, hv]
  rfl

/-- The frame is one to record exactly if it finds, or opens, a segment. -/
theorem taken_some (hv : p.video = some v) (hio : p.openIo.AllOk) :
    t.taken p = if (t.facing duration v p).startFlag = true then [v] else [] := by
  have hflag := facing_startFlag duration t (v := v) hio
  rw [RecordThread.taken, hv]
  by_cases hopen : (t.facing duration v p).startFlag = true
  · rw [if_pos hopen]
    exact List.filter_cons_of_pos (by simpa using hflag.mp hopen)
  · rw [if_neg hopen]
    exact List.filter_cons_of_neg (by simpa using fun hc => hopen (hflag.mpr hc))

theorem closesAt_some (hv : p.video = some v) (hrun : t.running = true) :
    t.ClosesAt duration p ↔ (t.facing duration v p).Rotates v := by
  simp [ClosesAt, hv, hrun]

theorem overflowsAt_some (hv : p.video = some v) :
    t.OverflowsAt duration p ↔ (t.facing duration v p).startFlag = true
      ∧ (t.facing duration v p).aviHandle.Overflows ((t.facing duration v p).videoFrame v) := by
  simp [OverflowsAt, hv]

/-- Without a video frame there is none to record. -/
theorem Books.records_none (h : Books duration t segs cur) (hstart : Started t cur)
    (hp : p.Succeeds) (hv : p.video = none) :
    ∃ cur', Records duration t (t.pass duration p) segs cur cur' p := by
  obtain ⟨hflag, cur', hbooks, hstart', hpre, himg⟩ := h.audioPart hstart hp.audioIo
  rw [pass_none hv h.running]
  refine ⟨cur', hbooks, hstart', ?_, ?_, ?_⟩
  · rw [hflag, taken_none hv]
    simp
  · rw [himg, taken_none hv]
    simp
  · intro hhead hcur'
    cases hopen : t.startFlag with
    | true => exact hhead.mono hpre (hstart hopen) hcur'
    | false =>
      -- no segment is open: nothing happens
      have hsame : t.audioPart p = t := by
        unfold RecordThread.audioPart
        rw [if_neg (by rw [hopen]; decide)]
      rw [hsame] at hbooks
      rw [hbooks.closed hopen] at hcur'
      cases hcur'

/-- The frame that closes the segment is not written. -/
theorem Books.loses_rotates (h : Books duration t segs cur) (hp : p.Succeeds)
    (hv : p.video = some v) (hrot : (t.facing duration v p).Rotates v) :
    ∃ segs' cur', Loses duration t (t.pass duration p) segs segs' cur cur' p := by
  have hf := h.facing v hp.openIo
  refine ⟨segs ++ [cur.frames], .empty, ?_⟩
  rw [pass_some hv h.running hf.running, if_pos hrot]
  refine ⟨hf.stopSegment hrot.1 hp.closeIo _, fun hc => absurd hc Bool.false_ne_true, ?_, ?_⟩
  · simp [stored, Recording.frames, Recording.empty]
  · rw [taken_some hv hp.openIo, if_pos hrot.1]
    simp

/-- A frame that waits for the first key frame is not to be recorded. -/
theorem Books.records_closed (h : Books duration t segs cur) (hp : p.Succeeds)
    (hv : p.video = some v) (hopen : ¬ (t.facing duration v p).startFlag = true) :
    ∃ cur', Records duration t (t.pass duration p) segs cur cur' p := by
  have hf := h.facing v hp.openIo
  have hclosed : t.startFlag = false := by
    by_contra hc
    exact hopen ((facing_startFlag duration t hp.openIo).mpr (Or.inl (by simpa using hc)))
  have htaken : t.taken p = [] := by rw [taken_some hv hp.openIo, if_neg hopen]
  refine ⟨cur, ?_⟩
  rw [pass_some hv h.running hf.running, if_neg fun hrot => hopen hrot.1, if_neg hopen]
  refine ⟨hf, fun hc => absurd hc hopen, ?_, ?_, id⟩
  · rw [htaken, hclosed]
    simpa using hopen
  · rw [htaken]
    simp

/-- A frame that does not close the open segment is handed to the recorder, which writes it unless
its buffer is full; then come the audio frames. -/
theorem Books.pass_open (h : Books duration t segs cur) (hstart : Started t cur)
    (hp : p.Succeeds) (hv : p.video = some v) (hrot : ¬ (t.facing duration v p).Rotates v)
    (hopen : (t.facing duration v p).startFlag = true) :
    (t.pass duration p).startFlag = true ∧ (cur.started = true ∨ v.IsKey)
      ∧ ∃ frames cur', Books duration (t.pass duration p) segs cur'
        ∧ Started (t.pass duration p) cur' ∧ frames <+: cur'.frames
        ∧ imagesOf cur'.frames = imagesOf frames
        ∧ frames = if (t.facing duration v p).aviHandle.Overflows
              ((t.facing duration v p).videoFrame v) then cur.frames
            else cur.frames ++ [(t.facing duration v p).videoFrame v] := by
  have hf := h.facing v hp.openIo
  have hacc : cur.started = true ∨ v.IsKey :=
    ((facing_startFlag duration t hp.openIo).mp hopen).imp hstart id
  obtain ⟨hbooks, hstart', hframes⟩ := hf.writeVideo hopen hacc
  obtain ⟨hflag, cur', hbooks', hstart'', hpre, himg⟩ := hbooks.audioPart hstart' hp.audioIo
  rw [pass_some hv h.running hf.running, if_neg hrot, if_pos hopen, hp.videoIo]
  exact ⟨hflag.trans hopen, hacc, _, cur', hbooks', hstart'', hpre, himg, hframes⟩

/-- When the record buffer has no room, it is flushed and the frame is dropped. -/
theorem Books.loses_overflow (h : Books duration t segs cur) (hstart : Started t cur)
    (hp : p.Succeeds) (hv : p.video = some v) (hrot : ¬ (t.facing duration v p).Rotates v)
    (hopen : (t.facing duration v p).startFlag = true)
    (hover : (t.facing duration v p).aviHandle.Overflows ((t.facing duration v p).videoFrame v)) :
    ∃ segs' cur', Loses duration t (t.pass duration p) segs segs' cur cur' p := by
  obtain ⟨-, -, frames, cur', hbooks, hstart', -, himg, hframes⟩ :=
    h.pass_open hstart hp hv hrot hopen
  rw [if_pos hover] at hframes
  refine ⟨segs, cur', hbooks, hstart', ?_, ?_⟩
  · unfold stored
    rw [videoCountOf_append, videoCountOf_append, ← imagesOf_length cur'.frames, himg, hframes,
      imagesOf_length]
  · rw [taken_some hv hp.openIo, if_pos hopen]
    simp

/-- Otherwise it is in the segment. -/
theorem Books.records_frame (h : Books duration t segs cur) (hstart : Started t cur)
    (hp : p.Succeeds) (hv : p.video = some v) (hrot : ¬ (t.facing duration v p).Rotates v)
    (hopen : (t.facing duration v p).startFlag = true)
    (hover : ¬ (t.facing duration v p).aviHandle.Overflows
      ((t.facing duration v p).videoFrame v)) :
    ∃ cur', Records duration t (t.pass duration p) segs cur cur' p := by
  obtain ⟨hflag, hacc, frames, cur', hbooks, hstart', hpre, himg, hframes⟩ :=
    h.pass_open hstart hp hv hrot hopen
  rw [if_neg hover] at hframes
  have htaken : t.taken p = [v] := by rw [taken_some hv hp.openIo, if_pos hopen]
  refine ⟨cur', hbooks, hstart', ?_, ?_, ?_⟩
  · rw [hflag, htaken]
    simp
  · rw [himg, hframes, imagesOf_append, imagesOf_videoFrame, htaken]
    rfl
  · intro hhead _
    rw [hframes] at hpre
    cases hcs : cur.started with
    | true =>
      have hgrow : cur.frames <+: cur'.frames := (List.prefix_append _ _).trans hpre
      exact hhead.mono hgrow hcs (hstart' hflag)
    | false =>
      -- the frame is the first of its segment
      have hkey : v.IsKey := hacc.resolve_left (by rw [hcs]; decide)
      obtain ⟨rest, hrest⟩ := hpre
      rw [Recording.frames_of_idle hcs] at hrest
      exact ⟨_, rest, hrest.symm, videoFrame_isKey hkey⟩

end OnePass

/-- What one pass does: it records what it should, unless it closes the segment or the buffer is
full. -/
theorem Books.pass (h : Books duration t segs cur) (hstart : Started t cur) {p : RecordPass}
    (hp : p.Succeeds) :
    (¬ t.ClosesAt duration p ∧ ¬ t.OverflowsAt duration p
        ∧ ∃ cur', Records duration t (t.pass duration p) segs cur cur' p)
      ∨ ((t.ClosesAt duration p ∨ t.OverflowsAt duration p)
        ∧ ∃ segs' cur', Loses duration t (t.pass duration p) segs segs' cur cur' p) := by
  cases hv : p.video with
  | none =>
    have hnone : ∀ P : VideoRead → Prop, ¬ ∃ v ∈ p.video, P v := by
      rintro P ⟨v, hmem, -⟩
      rw [hv] at hmem
      cases hmem
    exact Or.inl ⟨fun hc => hnone _ hc.2, hnone _, h.records_none hstart hp hv⟩
  | some v =>
    rw [closesAt_some hv h.running, overflowsAt_some hv]
    by_cases hrot : (t.facing duration v p).Rotates v
    · exact Or.inr ⟨Or.inl hrot, h.loses_rotates hp hv hrot⟩
    by_cases hopen : (t.facing duration v p).startFlag = true
    · by_cases hover : (t.facing duration v p).aviHandle.Overflows
          ((t.facing duration v p).videoFrame v)
      · exact Or.inr ⟨Or.inr ⟨hopen, hover⟩, h.loses_overflow hstart hp hv hrot hopen hover⟩
      · exact Or.inl ⟨hrot, fun hc => hover hc.2,
          h.records_frame hstart hp hv hrot hopen hover⟩
    · exact Or.inl ⟨hrot, fun hc => hopen hc.1, h.records_closed hp hv hopen⟩

/-! ## Runs -/

/-- Nothing has been lost of the frames `vs`: all are in the open segment, the first. -/
structure Exact (duration : ℕ) (t : RecordThread) (cur : Recording) (vs : List VideoRead) : Prop where
  books : Books duration t [] cur
  started : Started t cur
  flag : t.startFlag = true ↔ vs ≠ []
  images : imagesOf cur.frames = vs.map VideoRead.image
  keyHead : KeyHead cur

/-- One of the frames `vs` has been lost. -/
structure Lost (duration : ℕ) (t : RecordThread) (segs : List (List AviFrame)) (cur : Recording)
    (vs : List VideoRead) : Prop where
  books : Books duration t segs cur
  started : Started t cur
  stored : stored segs cur < vs.length

theorem start_exact (duration : ℕ) (s : AviFile) (audioStamp : ℕ) :
    Exact duration (start s audioStamp) .empty [] where
  books := start_books duration s audioStamp
  started := fun h => absurd h Bool.false_ne_true
  flag := ⟨fun h => absurd h Bool.false_ne_true, fun h => absurd rfl h⟩
  images := rfl
  keyHead := fun h => absurd h Bool.false_ne_true

theorem Exact.stored_eq {vs : List VideoRead} (h : Exact duration t cur vs) :
    RecordThread.stored [] cur = vs.length := by
  show videoCountOf cur.frames = _
  rw [← imagesOf_length, h.images, List.length_map]

/-- The frames the thread should have recorded after the pass. -/
def due (vs : List VideoRead) (p : RecordPass) : List VideoRead :=
  vs ++ p.video.toList.filter fun v => vs ≠ [] ∨ v.IsKey

theorem Exact.due_eq {vs : List VideoRead} (h : Exact duration t cur vs) (p : RecordPass) :
    due vs p = vs ++ t.taken p := by
  simp only [due, RecordThread.taken, h.flag]

/-- One pass keeps everything, or loses its frame. -/
theorem Exact.pass {vs : List VideoRead} (h : Exact duration t cur vs) {p : RecordPass}
    (hp : p.Succeeds) :
    (¬ t.ClosesAt duration p ∧ ¬ t.OverflowsAt duration p
        ∧ ∃ cur', Exact duration (t.pass duration p) cur' (due vs p))
      ∨ ((t.ClosesAt duration p ∨ t.OverflowsAt duration p)
        ∧ ∃ segs' cur', Lost duration (t.pass duration p) segs' cur' (due vs p)) := by
  rw [h.due_eq]
  obtain ⟨hc, ho, cur', hr⟩ | ⟨hloss, segs', cur', hl⟩ := h.books.pass h.started hp
  · left
    refine ⟨hc, ho, cur', hr.books, hr.started, ?_, ?_, hr.keyHead h.keyHead⟩
    · rw [hr.flag, h.flag, ← not_iff_not]
      simp
    · rw [hr.images, h.images, List.map_append]
  · right
    refine ⟨hloss, segs', cur', hl.books, hl.started, ?_⟩
    have hpos := List.length_pos_iff.mpr hl.taken
    rw [hl.stored, h.stored_eq, List.length_append]
    omega

/-- What is lost stays lost. -/
theorem Lost.pass {vs : List VideoRead} (h : Lost duration t segs cur vs) {p : RecordPass}
    (hp : p.Succeeds) : ∃ segs' cur', Lost duration (t.pass duration p) segs' cur' (due vs p) := by
  have hne : vs ≠ [] := by
    rintro rfl
    exact absurd h.stored (by simp)
  have hdue : (due vs p).length = vs.length + p.video.toList.length := by
    rw [due, List.length_append, List.filter_eq_self.mpr (by simp [hne])]
  have htaken : (t.taken p).length ≤ p.video.toList.length := List.length_filter_le _ _
  have hstored := h.stored
  obtain ⟨-, -, cur', hr⟩ | ⟨-, segs', cur', hl⟩ := h.books.pass h.started hp
  · refine ⟨segs, cur', hr.books, hr.started, ?_⟩
    have hcount : RecordThread.stored segs cur' = RecordThread.stored segs cur + (t.taken p).length := by
      unfold RecordThread.stored
      rw [videoCountOf_append, videoCountOf_append, ← imagesOf_length cur'.frames, hr.images,
        List.length_append, imagesOf_length, List.length_map, Nat.add_assoc]
    omega
  · refine ⟨segs', cur', hl.books, hl.started, ?_⟩
    rw [hl.stored]
    omega

theorem Lost.run {ps : List RecordPass} (hps : ∀ p ∈ ps, p.Succeeds) :
    ∀ {t : RecordThread} {segs : List (List AviFrame)} {cur : Recording} {vs : List VideoRead},
      Lost duration t segs cur vs →
        ∃ segs' cur', Lost duration (t.run duration ps) segs' cur' (ps.foldl due vs) := by
  induction ps with
  | nil => intro t segs cur vs h; exact ⟨segs, cur, h⟩
  | cons p ps ih =>
    intro t segs cur vs h
    obtain ⟨segs', cur', h'⟩ := h.pass (hps p (by simp))
    exact ih (fun q hq => hps q (by simp [hq])) h'

/-- A quiet run loses nothing, any other does. -/
theorem Exact.run {ps : List RecordPass} (hps : ∀ p ∈ ps, p.Succeeds) :
    ∀ {t : RecordThread} {cur : Recording} {vs : List VideoRead}, Exact duration t cur vs →
      (Quiet duration t ps ∧ ∃ cur', Exact duration (t.run duration ps) cur' (ps.foldl due vs))
        ∨ (¬ Quiet duration t ps
          ∧ ∃ segs' cur', Lost duration (t.run duration ps) segs' cur' (ps.foldl due vs)) := by
  induction ps with
  | nil => intro t cur vs h; exact Or.inl ⟨trivial, cur, h⟩
  | cons p ps ih =>
    intro t cur vs h
    have hps' : ∀ q ∈ ps, q.Succeeds := fun q hq => hps q (by simp [hq])
    obtain ⟨hc, ho, cur', h'⟩ | ⟨hloss, segs', cur', h'⟩ := h.pass (hps p (by simp))
    · refine (ih hps' h').imp (fun hq => ⟨⟨hc, ho, hq.1⟩, hq.2⟩) fun hq => ⟨?_, hq.2⟩
      rintro ⟨-, -, hquiet⟩
      exact hq.1 hquiet
    · refine Or.inr ⟨?_, Lost.run hps' h'⟩
      rintro ⟨hc, ho, -⟩
      exact hloss.elim hc ho

/-- What should have been recorded after a run. -/
theorem foldl_due (ps : List RecordPass) :
    ∀ vs : List VideoRead, ps.foldl due vs
      = if vs = [] then videosFromKey ps else vs ++ ps.filterMap RecordPass.video := by
  induction ps with
  | nil => intro vs; by_cases hvs : vs = [] <;> simp [hvs, videosFromKey]
  | cons p ps ih =>
    intro vs
    show ps.foldl due (due vs p) = _
    rw [ih]
    unfold due videosFromKey
    cases hv : p.video with
    | none => simp [hv]
    | some v =>
      by_cases hvs : vs = []
      · by_cases hk : v.IsKey
        · simp [hvs, hv, hk]
        · simp [hvs, hv, hk]
      · simp [hvs, hv]

theorem cuts_quiet {ps : List RecordPass} :
    ∀ {t : RecordThread}, Quiet duration t ps → cuts duration t ps = [] := by
  induction ps with
  | nil => intro t _; rfl
  | cons p ps ih =>
    rintro t ⟨hc, -, hq⟩
    unfold cuts
    cases hv : p.video with
    | none => exact ih hq
    | some v =>
      show (if t.running = true ∧ (t.facing duration v p).Rotates v then _ else _) = _
      rw [if_neg fun h => hc ⟨h.1, v, by simp [hv], h.2⟩]
      exact ih hq

/-- The end of the thread. -/
theorem Books.finish (h : Books duration t segs cur) {io : CloseIo} (hio : io.AllOk) :
    List.Forall₂ (fun s fs => HoldsFrames s.file fs) (t.finish io).finished
      (if t.startFlag = true then segs ++ [cur.frames] else segs) := by
  unfold RecordThread.finish
  by_cases hopen : t.startFlag = true
  · rw [if_pos hopen, if_pos hopen]
    exact (h.stopSegment hopen hio _).finished
  · rw [if_neg hopen, if_neg hopen]
    exact h.finished

theorem Exact.holds {vs : List VideoRead} (h : Exact duration t cur vs) {io : CloseIo}
    (hio : io.AllOk) : HoldSegments (t.finish io).finished vs [] := by
  have hfin := h.books.finish hio
  by_cases hopen : t.startFlag = true
  · rw [if_pos hopen] at hfin
    refine ⟨_, hfin, ?_, ?_, rfl⟩
    · intro fs hfs
      rw [List.mem_singleton.mp hfs]
      exact h.keyHead (h.started hopen)
    · rw [← h.images]
      simp
  · rw [if_neg hopen] at hfin
    have hvs : vs = [] := by
      by_contra hne
      exact hopen (h.flag.mpr hne)
    refine ⟨_, hfin, ?_, ?_, rfl⟩
    · intro fs hfs
      cases hfs
    · rw [hvs]
      rfl

/-- The files determine the number of video frames. -/
theorem forall₂_videoCount {files : List AviFile} {segs : List (List AviFrame)}
    (h : List.Forall₂ (fun s fs => HoldsFrames s.file fs) files segs) :
    videoCountOf segs.flatten
      = (files.map fun s => (readIndex s.file).countP fun e => e.ckid = fcc00dc).sum := by
  induction h with
  | nil => rfl
  | @cons s fs files segs hd _ ih =>
    rw [List.flatten_cons, videoCountOf_append, ih, List.map_cons, List.sum_cons, hd.2,
      countP_indexFrom]

theorem Lost.not_holds {vs : List VideoRead} (h : Lost duration t segs cur vs) {io : CloseIo}
    (hio : io.AllOk) (cs : List VideoRead) : ¬ HoldSegments (t.finish io).finished vs cs := by
  rintro ⟨segments, hfiles, -, himages, -⟩
  have hcount := congrArg List.length himages
  rw [imagesOf_length, List.length_map, forall₂_videoCount hfiles,
    ← forall₂_videoCount (h.books.finish hio)] at hcount
  have hle : videoCountOf (if t.startFlag = true then segs ++ [cur.frames] else segs).flatten
      ≤ RecordThread.stored segs cur := by
    unfold RecordThread.stored
    split
    · simp
    · rw [videoCountOf_append]
      omega
  have hstored := h.stored
  omega

end Steps

/-- Every video frame from the first key frame on is in one segment file, in order, each file begins
with a key frame, and a frame that closes a segment is the first of the next file, exactly in the
runs in which no frame closes a segment and none finds the record buffer too full. -/
theorem segments_complete_iff (duration : ℕ) (s : AviFile) (audioStamp : ℕ) (ps : List RecordPass)
    (io : CloseIo) (hps : ∀ p ∈ ps, p.Succeeds) (hio : io.AllOk) :
    HoldSegments (((start s audioStamp).run duration ps).finish io).finished (videosFromKey ps)
        (cuts duration (start s audioStamp) ps)
      ↔ Quiet duration (start s audioStamp) ps := by
  have hdue : ps.foldl due [] = videosFromKey ps := by rw [foldl_due, if_pos rfl]
  have hrun := (start_exact duration s audioStamp).run hps
  rw [hdue] at hrun
  obtain ⟨hquiet, cur, hexact⟩ | ⟨hloud, segs, cur, hlost⟩ := hrun
  · rw [cuts_quiet hquiet]
    exact iff_of_true (hexact.holds hio) hquiet
  · exact iff_of_false (hlost.not_holds hio _) hloud

/-- A segment with one key frame. -/
theorem segments_complete_short :
    HoldSegments (((start .zero 0).run 300 [keyPass 5]).finish (keyPass 0).closeIo).finished
      (videosFromKey [keyPass 5]) (cuts 300 (start .zero 0) [keyPass 5]) := by
  have hps : ∀ p ∈ [keyPass 5], p.Succeeds := by
    intro p hp
    rw [List.mem_singleton.mp hp]
    exact keyPass_succeeds 5
  apply (segments_complete_iff 300 .zero 0 [keyPass 5] _ hps (keyPass_succeeds 0).closeIo).mpr
  refine ⟨?_, ?_, trivial⟩
  · rintro ⟨-, v, hv, hrot⟩
    obtain rfl : keyRead 5 = v := by simpa [keyPass] using hv
    exact keyPass_stays 300 (by decide) rfl hrot
  · rintro ⟨v, hv, hopen, hover⟩
    have hbooks := (start_books 300 .zero 0).facing v (keyPass_succeeds 5).openIo
    rw [(hbooks.represents hopen).stores.overflows_iff] at hover
    exact hover.pending_ne (videoFrame_ok _ v) rfl

/-- Of two key frames 300 s apart the second closes the segment, and is in no file. -/
theorem segments_incomplete :
    (∀ p ∈ [keyPass 0, keyPass 300000], p.Succeeds)
      ∧ ¬ HoldSegments
          (((start .zero 0).run 300 [keyPass 0, keyPass 300000]).finish (keyPass 0).closeIo).finished
          (videosFromKey [keyPass 0, keyPass 300000])
          (cuts 300 (start .zero 0) [keyPass 0, keyPass 300000]) := by
  have hps : ∀ p ∈ [keyPass 0, keyPass 300000], p.Succeeds := by
    intro p hp
    simp only [List.mem_cons, List.not_mem_nil, or_false] at hp
    rcases hp with rfl | rfl
    · exact keyPass_succeeds 0
    · exact keyPass_succeeds 300000
  refine ⟨hps, ?_⟩
  obtain ⟨hrun, hopen, hstart, -, hdur⟩ := keyPass_opens 300 (t := start .zero 0)
    (show 0 < 4294967296 by decide) rfl rfl
  -- the second frame closes the segment
  have hloud : ¬ Quiet 300 (start .zero 0) [keyPass 0, keyPass 300000] := by
    rintro ⟨-, -, hcloses, -⟩
    refine hcloses ⟨hrun, keyRead 300000, rfl, ?_⟩
    rw [facing_else (by rw [hopen]; decide)]
    refine ⟨hopen, rfl, ?_⟩
    show _ * 1000 ≤ (_ + 18446744073709551616 - RecordThread.startRecMs _) % _
    simp only [hstart, hdur]
    decide
  obtain ⟨hquiet, -⟩ | ⟨-, segs, cur, hlost⟩ := (start_exact 300 .zero 0).run hps
  · exact absurd hquiet hloud
  · rw [foldl_due, if_pos rfl] at hlost
    exact hlost.not_holds (keyPass_succeeds 0).closeIo _

end RecordThread
