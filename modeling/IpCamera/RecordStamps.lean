/-
# The time stamps of recorded frames

Behind each chunk of a recording is the time stamp the frame was given to the recorder
with.  The continuous recorder gives audio frames their own, and video frames that of the
latest audio frame.  What should be there is what a recorder of the same frames, each with
its own capture time, would have written (`ownFrames`); as such a recorder keeps and drops
the same frames (`Alike`), a file differs from that exactly when a video frame it keeps
came with another stamp than its own.

* `stamps_own_iff` : every stamp is the frame's own exactly in the runs in which each video
  frame that is kept has the capture time of the latest audio frame.
-/
import IpCamera.SegmentRotation
import IpCamera.Playback

/-! ## Recorders of the same frames -/

theorem append_eq_iff {α : Type*} {s₁ s₂ t₁ t₂ : List α} (h : s₁.length = s₂.length) :
    s₁ ++ t₁ = s₂ ++ t₂ ↔ s₁ = s₂ ∧ t₁ = t₂ := by
  constructor
  · intro heq
    exact List.append_inj heq h
  · rintro ⟨rfl, rfl⟩
    rfl

/-- Two frames that differ in their time value at most. -/
def SameShape (f g : AviFrame) : Prop := f.data = g.data ∧ f.intra = g.intra

namespace SameShape

variable {f g : AviFrame}

theorem refl (f : AviFrame) : SameShape f f := ⟨rfl, rfl⟩

theorem chunkSize_eq (h : SameShape f g) : f.chunkSize = g.chunkSize := by
  unfold AviFrame.chunkSize AviFrame.isAlign
  rw [h.1]

theorem isKey_iff (h : SameShape f g) : f.IsKey ↔ g.IsKey := by
  unfold AviFrame.IsKey
  rw [h.2]

theorem isVideo_iff (h : SameShape f g) : f.IsVideo ↔ g.IsVideo := by
  unfold AviFrame.IsVideo
  rw [h.2]

theorem ok (h : SameShape f g) (hf : f.Ok) : g.Ok where
  kind := by
    have hkind := hf.kind
    unfold AviFrame.IsAudio at hkind ⊢
    rwa [← h.isVideo_iff, ← h.2]
  fits := h.chunkSize_eq ▸ hf.fits

theorem entry_eq (h : SameShape f g) (o : ℕ) : f.entry o = g.entry o := by
  unfold AviFrame.entry AviFrame.ckid AviFrame.flags AviFrame.size AviFrame.isAlign
  simp only [h.1, h.2, h.isVideo_iff]

/-- Their chunks are the same when their time values are, as words. -/
theorem chunks_iff (h : SameShape f g) : f.chunks = g.chunks
    ↔ f.stamp.1 % 4294967296 = g.stamp.1 % 4294967296
      ∧ f.stamp.2 % 4294967296 = g.stamp.2 % 4294967296 := by
  have hword : ∀ a b : ℕ, word a = word b ↔ a % 4294967296 = b % 4294967296 := by
    intro a b
    constructor
    · intro heq
      have ha := wordAt_word a []
      rw [heq, wordAt_word] at ha
      exact ha.symm
    · intro heq
      rw [← word_mod a, heq, word_mod]
  have hckid : f.ckid = g.ckid := congrArg IndexEntry.ckid (h.entry_eq 0)
  have halign : f.isAlign = g.isAlign := by
    unfold AviFrame.isAlign
    rw [h.1]
  rw [AviFrame.chunks, AviFrame.chunks, hckid, h.1, halign]
  simp only [List.cons.injEq, Chunk.mk.injEq, true_and, and_true]
  rw [← hword, ← hword]
  exact append_eq_iff (by simp)

end SameShape

theorem moviSize_alike {fs gs : List AviFrame} (h : List.Forall₂ SameShape fs gs) :
    moviSize fs = moviSize gs := by
  induction h with
  | nil => rfl
  | cons hfg _ ih => rw [moviSize_cons, moviSize_cons, hfg.chunkSize_eq, ih]

theorem indexFrom_alike {fs gs : List AviFrame} (h : List.Forall₂ SameShape fs gs) :
    ∀ o, indexFrom o fs = indexFrom o gs := by
  induction h with
  | nil => exact fun _ => rfl
  | cons hfg _ ih =>
    intro o
    rw [indexFrom, indexFrom, hfg.entry_eq, hfg.chunkSize_eq, ih]

theorem moviChunks_length (fs : List AviFrame) : (moviChunks fs).length = 2 * fs.length := by
  induction fs with
  | nil => rfl
  | cons f fs ih =>
    rw [← List.singleton_append, moviChunks_append, List.length_append, ih, List.length_append]
    simp [moviChunks, AviFrame.chunks]
    omega

/-- Two recordings of frames of the same shapes. -/
structure Alike (r q : Recording) : Prop where
  started : r.started = q.started
  flushed : List.Forall₂ SameShape r.flushed q.flushed
  pending : List.Forall₂ SameShape r.pending q.pending

namespace Alike

variable {r q : Recording} {f g : AviFrame}

theorem empty : Alike .empty .empty := ⟨rfl, .nil, .nil⟩

theorem frames (h : Alike r q) : List.Forall₂ SameShape r.frames q.frames :=
  List.rel_append h.flushed h.pending

theorem accepts_iff (h : Alike r q) (hfg : SameShape f g) : r.Accepts f ↔ q.Accepts g := by
  unfold Recording.Accepts
  rw [h.started, hfg.isKey_iff]

theorem overflows_iff (h : Alike r q) (hfg : SameShape f g) : r.Overflows f ↔ q.Overflows g := by
  unfold Recording.Overflows
  rw [moviSize_alike h.pending, hfg.chunkSize_eq]

/-- They keep and drop the same frames. -/
theorem add (h : Alike r q) (hfg : SameShape f g) : Alike (r.add f) (q.add g) := by
  have hskip : (r.started = false ∧ ¬ f.IsKey) ↔ (q.started = false ∧ ¬ g.IsKey) := by
    rw [h.started, hfg.isKey_iff]
  have hlast : r.pending.length + 1 = dataSaveNum ↔ q.pending.length + 1 = dataSaveNum := by
    rw [h.pending.length_eq]
  unfold Recording.add
  by_cases h₁ : r.started = false ∧ ¬ f.IsKey
  · rw [if_pos h₁, if_pos (hskip.mp h₁)]
    exact h
  · rw [if_neg h₁, if_neg (fun hc => h₁ (hskip.mpr hc))]
    by_cases h₂ : r.Overflows f
    · rw [dif_pos h₂, dif_pos ((h.overflows_iff hfg).mp h₂)]
      exact ⟨rfl, h.frames, .nil⟩
    · rw [dif_neg h₂, dif_neg (fun hc => h₂ ((h.overflows_iff hfg).mpr hc))]
      by_cases h₃ : r.pending.length + 1 = dataSaveNum
      · rw [dif_pos h₃, dif_pos (hlast.mp h₃)]
        exact ⟨rfl, List.rel_append h.flushed (List.rel_append h.pending (.cons hfg .nil)), .nil⟩
      · rw [dif_neg h₃, dif_neg (fun hc => h₃ (hlast.mpr hc))]
        exact ⟨rfl, h.flushed, List.rel_append h.pending (.cons hfg .nil)⟩

/-- One more frame, and whether the chunks are still the same. -/
theorem moviChunks_add_iff (h : Alike r q) (hfg : SameShape f g) :
    moviChunks (r.add f).frames = moviChunks (q.add g).frames
      ↔ moviChunks r.frames = moviChunks q.frames
        ∧ (r.Accepts f ∧ ¬ r.Overflows f → f.chunks = g.chunks) := by
  have hcond : (q.Accepts g ∧ ¬ q.Overflows g) ↔ (r.Accepts f ∧ ¬ r.Overflows f) := by
    rw [h.accepts_iff hfg, h.overflows_iff hfg]
  rw [Recording.add_frames, Recording.add_frames]
  simp only [hcond]
  by_cases hkeep : r.Accepts f ∧ ¬ r.Overflows f
  · have hlen : (moviChunks r.frames).length = (moviChunks q.frames).length := by
      rw [moviChunks_length, moviChunks_length, h.frames.length_eq]
    have hone : ∀ f : AviFrame, moviChunks [f] = f.chunks := fun f => List.flatMap_singleton _ f
    rw [if_pos hkeep, if_pos hkeep, moviChunks_append, moviChunks_append, hone, hone,
      append_eq_iff hlen]
    simp [hkeep]
  · rw [if_neg hkeep, if_neg hkeep]
    simp [hkeep]

/-- The same frames on both sides. -/
theorem foldl_add (fs : List AviFrame) : ∀ {r q : Recording}, Alike r q →
    Alike (fs.foldl Recording.add r) (fs.foldl Recording.add q)
      ∧ (moviChunks (fs.foldl Recording.add r).frames
          = moviChunks (fs.foldl Recording.add q).frames
        ↔ moviChunks r.frames = moviChunks q.frames) := by
  induction fs with
  | nil => exact fun h => ⟨h, Iff.rfl⟩
  | cons f fs ih =>
    intro r q h
    obtain ⟨halike, hiff⟩ := ih (h.add (.refl f))
    refine ⟨halike, hiff.trans ?_⟩
    rw [h.moviChunks_add_iff (.refl f)]
    simp

end Alike

/-! ## What the files should hold -/

/-- A frame read from one of the rings. -/
inductive RingRead
  | video (v : VideoRead)
  | audio (a : AudioRead)

namespace RingRead

/-- The time it was captured at. -/
def ullTimeStamp : RingRead → ℕ
  | .video v => v.ullTimeStamp
  | .audio a => a.ullTimeStamp

/-- The frame with its own time stamp. -/
def frame : RingRead → AviFrame
  | .video v => ⟨v.data, if v.IsKey then 1 else 0, (v.ullTimeStamp, v.ullTimeStamp)⟩
  | .audio a => RecordThread.audioFrame a

def video? : RingRead → Option VideoRead
  | .video v => some v
  | .audio _ => none

theorem frame_stamp (r : RingRead) : r.frame.stamp.1 = r.ullTimeStamp := by
  cases r with
  | video v => rfl
  | audio a => rfl

end RingRead

/-- What a recorder makes of the frames, each with its own time stamp. -/
def ownFrames (given : List RingRead) : List AviFrame :=
  (Recording.record (given.map RingRead.frame)).frames

/-- The file of a segment to which the frames `given` were handed holds those that the recorder
keeps, each with its own time stamp; the player reads it for a video frame, and it does not decrease
when the capture times do not. -/
structure OwnStamps (file : StdioFile) (given : List RingRead) : Prop where
  stored : HoldsFrames file (ownFrames given)
  timestamp : file.size < 2147483648 → ∀ heap i f, (ownFrames given)[i]? = some f → f.IsVideo →
    Playback.frameTimestamp file (Playback.readHeaderAndIndex file heap) i = f.stamp.1
  monotone : file.size < 2147483648 →
    ((given.filterMap RingRead.video?).Pairwise fun v w => v.ullTimeStamp ≤ w.ullTimeStamp) →
    ∀ heap i k f g, i < k → (ownFrames given)[i]? = some f → (ownFrames given)[k]? = some g →
      f.IsVideo → g.IsVideo →
        Playback.frameTimestamp file (Playback.readHeaderAndIndex file heap) i
          ≤ Playback.frameTimestamp file (Playback.readHeaderAndIndex file heap) k

namespace RecordThread

/-- The audio frames the inner loop reads. -/
def heard : List AudioRead → ℕ → ℕ → List AudioRead
  | [], _, _ => []
  | a :: as, audioMs, videoMs =>
      if audioMs < videoMs then a :: heard as a.ullTimeStamp videoMs else []

/-- The frames a pass hands to the open segment. -/
def handed (duration : ℕ) (t : RecordThread) (p : RecordPass) : List RingRead :=
  match p.video with
  | none =>
      if t.startFlag = true then
        (heard p.audio t.ullMediaAudioMs t.ullMediaVideoMs).map .audio
      else []
  | some v =>
      if (t.facing duration v p).startFlag = true then
        .video v :: (heard p.audio t.ullMediaAudioMs v.ullTimeStamp).map .audio
      else []

/-- The frame of the pass closes the segment. -/
def closes (duration : ℕ) (t : RecordThread) (p : RecordPass) : Bool :=
  p.video.any fun v => (t.facing duration v p).Rotates v

/-- The frames handed to each segment of a run, `given` having been handed to the open one. -/
def segmentsHanded (duration : ℕ) : RecordThread → List RingRead → List RecordPass →
    List (List RingRead)
  | t, given, [] => if t.startFlag = true then [given] else []
  | t, given, p :: ps =>
      if t.closes duration p = true then
        given :: segmentsHanded duration (t.pass duration p) [] ps
      else segmentsHanded duration (t.pass duration p) (given ++ t.handed duration p) ps

/-- The video frame is handed to a segment whose record buffer has room for it. -/
def Keeps (duration : ℕ) (t : RecordThread) (p : RecordPass) (v : VideoRead) : Prop :=
  (t.facing duration v p).startFlag = true ∧ ¬ (t.facing duration v p).Rotates v
    ∧ ¬ (t.facing duration v p).aviHandle.Overflows ((t.facing duration v p).videoFrame v)

/-- A video frame that is kept has the capture time of the latest audio frame. -/
def InStepAt (duration : ℕ) (t : RecordThread) (p : RecordPass) : Prop :=
  ∀ v ∈ p.video, t.Keeps duration p v → t.audioStamp % 4294967296 = v.ullTimeStamp

/-- So it is at every pass. -/
def InStep (duration : ℕ) : RecordThread → List RecordPass → Prop
  | _, [] => True
  | t, p :: ps => t.InStepAt duration p ∧ InStep duration (t.pass duration p) ps

/-! ## The ledger -/

/-- The books, with the finished files byte by byte, and beside the frames as the thread has stamped
them those with their own stamps. -/
structure Ledger (duration : ℕ) (t : RecordThread) (segs own : List (List AviFrame))
    (cur ideal : Recording) : Prop where
  books : Books duration t segs cur
  started : Started t cur
  done : List.Forall₂ (fun s fs => (∀ f ∈ fs, f.Ok)
    ∧ ∃ d a, Finished (segmentHeader duration) d a s.file fs) t.finished segs
  alikes : List.Forall₂ (List.Forall₂ SameShape) segs own
  alike : Alike cur ideal

section Ledger

variable {duration : ℕ} {t : RecordThread} {segs own : List (List AviFrame)}
  {cur ideal : Recording}

theorem start_ledger (duration : ℕ) (s : AviFile) (audioStamp : ℕ) :
    Ledger duration (start s audioStamp) [] [] .empty .empty where
  books := start_books duration s audioStamp
  started := fun h => absurd h Bool.false_ne_true
  done := .nil
  alikes := .nil
  alike := .empty

/-- A frame is written to the open segment, from a state `t₁` with the same books. -/
theorem Ledger.write (h : Ledger duration t segs own cur ideal) {t₁ : RecordThread}
    (hbooks : Books duration t₁ segs cur) (hdone : t₁.finished = t.finished)
    (hopen : t₁.startFlag = true) {f g : AviFrame} (hok : f.Ok) (hfg : SameShape f g)
    (hacc : cur.Accepts f) {u : RecordThread} (hrunning : u.running = t₁.running)
    (hfinished : u.finished = t₁.finished) (hflag : u.startFlag = t₁.startFlag)
    (hhandle : u.aviHandle = (aviRecordFrame t₁.aviHandle f .ok).2) :
    Ledger duration u segs own (cur.add f) (ideal.add g) where
  books := hbooks.write hopen hok hrunning hfinished hflag hhandle
  started _ := (Recording.add_started _ _).mpr hacc
  done := by
    rw [hfinished, hdone]
    exact h.done
  alikes := h.alikes
  alike := h.alike.add hfg

/-- The inner loop writes the audio frames it reads, each with its own stamp. -/
theorem Ledger.writeAudio (as : List AudioRead) (hio : ∀ a ∈ as, a.io = .ok) :
    ∀ {t : RecordThread} {cur ideal : Recording}, Ledger duration t segs own cur ideal →
      t.startFlag = true → cur.started = true →
      (RecordThread.writeAudio as t).startFlag = true
        ∧ Ledger duration (RecordThread.writeAudio as t) segs own
          (((heard as t.ullMediaAudioMs t.ullMediaVideoMs).map audioFrame).foldl .add cur)
          (((heard as t.ullMediaAudioMs t.ullMediaVideoMs).map audioFrame).foldl .add ideal) := by
  induction as with
  | nil =>
    intro t cur ideal h hopen _
    exact ⟨hopen, h⟩
  | cons a as ih =>
    intro t cur ideal h hopen hstart
    unfold RecordThread.writeAudio heard
    by_cases hlt : t.ullMediaAudioMs < t.ullMediaVideoMs
    · rw [if_pos hlt, if_pos hlt]
      have hnext := h.write h.books rfl hopen (audioFrame_ok a) (.refl _) (.inl hstart)
        (u := { t with
          ullMediaAudioMs := a.ullTimeStamp
          audioStamp := a.ullTimeStamp
          aviHandle := (aviRecordWriteExtend t.aviHandle a.data 2 a.ullTimeStamp a.io).2 })
        rfl rfl rfl (by rw [aviRecordWriteExtend_eq, hio a List.mem_cons_self]; rfl)
      exact ih (fun b hb => hio b (List.mem_cons_of_mem a hb)) hnext hopen
        ((Recording.add_started _ _).mpr (.inl hstart))
    · rw [if_neg hlt, if_neg hlt]
      exact ⟨hopen, h⟩

/-- The audio part of a pass of an open segment. -/
theorem Ledger.audioPart (h : Ledger duration t segs own cur ideal) (hopen : t.startFlag = true)
    {p : RecordPass} (hio : ∀ a ∈ p.audio, a.io = .ok) :
    ∃ fs : List AviFrame,
      fs = ((heard p.audio t.ullMediaAudioMs t.ullMediaVideoMs).map .audio).map RingRead.frame
        ∧ Ledger duration (t.audioPart p) segs own (fs.foldl .add cur) (fs.foldl .add ideal) := by
  have hfs : ((heard p.audio t.ullMediaAudioMs t.ullMediaVideoMs).map .audio).map RingRead.frame
      = (heard p.audio t.ullMediaAudioMs t.ullMediaVideoMs).map audioFrame := by
    rw [List.map_map]
    rfl
  refine ⟨_, rfl, ?_⟩
  rw [hfs, RecordThread.audioPart, if_pos hopen]
  exact (h.writeAudio p.audio hio hopen (h.started hopen)).2

/-- Opening a segment leaves what the ledger is about as it is. -/
theorem facing_same (duration : ℕ) (t : RecordThread) (v : VideoRead) (p : RecordPass) :
    (t.facing duration v p).finished = t.finished
      ∧ (t.facing duration v p).audioStamp = t.audioStamp
      ∧ (t.facing duration v p).ullMediaAudioMs = t.ullMediaAudioMs
      ∧ (t.facing duration v p).ullMediaVideoMs = v.ullTimeStamp := by
  unfold RecordThread.facing openSegment
  split
  · exact ⟨rfl, rfl, rfl, rfl⟩
  · exact ⟨rfl, rfl, rfl, rfl⟩

/-- A frame below 2^32 ms that closes a segment has not opened it. -/
theorem startFlag_of_rotates {v : VideoRead} {p : RecordPass} (hstamp : v.ullTimeStamp < 4294967296)
    (hrot : (t.facing duration v p).Rotates v) : t.startFlag = true := by
  by_contra hclosed
  have hopen : t.startFlag = false ∧ v.IsKey := ⟨by simpa using hclosed, hrot.2.1⟩
  obtain ⟨hstart, -, hdur⟩ := facing_opened duration t (v := v) (p := p) hopen
  have hlong := hrot.2.2
  have hpos := recordSwitchTime_pos duration
  unfold LongEnough at hlong
  rw [hstart, hdur, Nat.mod_eq_of_lt hstamp] at hlong
  omega

/-- Closing a segment that has started. -/
theorem Ledger.stopSegment (h : Ledger duration t segs own cur ideal) {u : RecordThread}
    (hbooks : Books duration u segs cur) (hfinished : u.finished = t.finished)
    (hopen : u.startFlag = true) (hstarted : cur.started = true) {io : CloseIo} (hio : io.AllOk)
    (stamp : ℕ) : Ledger duration (u.stopSegment stamp io) (segs ++ [cur.frames])
      (own ++ [ideal.frames]) .empty .empty := by
  have hrep := hbooks.represents hopen
  have hrep' : Represents (segmentHeader duration)
      { u.aviHandle with duration := timevalDiffMs u.startRecMs stamp } cur :=
    ⟨{ hrep.stores with }, hrep.newFlag, fun hs => { hrep.positioned hs with }⟩
  have hfin := (close_finished hio (segmentHeader_length duration) hrep' hstarted).2
  constructor
  · exact hbooks.stopSegment hopen hio stamp
  · exact fun hs => absurd hs Bool.false_ne_true
  · show List.Forall₂ _ (u.finished ++ [_]) _
    rw [hfinished]
    exact List.rel_append h.done (.cons ⟨hbooks.frames_ok, _, _, hfin⟩ .nil)
  · exact List.rel_append h.alikes (.cons h.alike.frames .nil)
  · exact .empty

/-! ## One pass -/

/-- The chunks of the open segment are those of frames with their own stamps. -/
def Agrees (cur ideal : Recording) : Prop := moviChunks cur.frames = moviChunks ideal.frames

/-- What a pass does to the ledger: it closes the segment, or it hands over its frames, and the
chunks stay those of frames with their own stamps if it is in step. -/
structure Hands (duration : ℕ) (t : RecordThread) (segs own : List (List AviFrame))
    (cur ideal cur' : Recording) (p : RecordPass) : Prop where
  ledger : Ledger duration (t.pass duration p) segs own cur'
    (((t.handed duration p).map RingRead.frame).foldl .add ideal)
  agrees : Agrees cur' (((t.handed duration p).map RingRead.frame).foldl .add ideal)
    ↔ Agrees cur ideal ∧ t.InStepAt duration p

variable {p : RecordPass}

theorem Ledger.hands_none (h : Ledger duration t segs own cur ideal) (hp : p.Succeeds)
    (hv : p.video = none) : ∃ cur', Hands duration t segs own cur ideal cur' p := by
  have hstep : t.InStepAt duration p := by
    intro v hmem
    rw [hv] at hmem
    cases hmem
  have hhanded : t.handed duration p = if t.startFlag = true then
      (heard p.audio t.ullMediaAudioMs t.ullMediaVideoMs).map .audio else [] := by
    rw [handed, hv]
  by_cases hopen : t.startFlag = true
  · obtain ⟨fs, hfs, hledger⟩ := h.audioPart hopen hp.audioIo
    rw [if_pos hopen] at hhanded
    refine ⟨fs.foldl .add cur, ?_, ?_⟩
    · rw [pass_none hv h.books.running, hhanded, ← hfs]
      exact hledger
    · rw [hhanded, ← hfs]
      exact (h.alike.foldl_add fs).2.trans (by simp [Agrees, hstep])
  · have hsame : t.audioPart p = t := if_neg hopen
    rw [if_neg hopen] at hhanded
    refine ⟨cur, ?_, ?_⟩
    · rw [pass_none hv h.books.running, hhanded, hsame]
      exact h
    · rw [hhanded]
      simp [hstep]

variable {v : VideoRead}

/-- The frame with its own time stamp, beside that with the stamp of the latest audio frame. -/
theorem videoFrame_sameShape (t : RecordThread) (v : VideoRead) :
    SameShape (t.videoFrame v) (RingRead.video v).frame := ⟨rfl, rfl⟩

theorem videoFrame_chunks_iff (t : RecordThread) (hstamp : v.ullTimeStamp < 4294967296) :
    (t.videoFrame v).chunks = (RingRead.video v).frame.chunks
      ↔ t.audioStamp % 4294967296 = v.ullTimeStamp := by
  rw [(videoFrame_sameShape t v).chunks_iff]
  show t.audioStamp % _ = v.ullTimeStamp % _ ∧ t.audioStamp % _ = v.ullTimeStamp % _ ↔ _
  rw [and_self, Nat.mod_eq_of_lt hstamp]

/-- A frame that finds no segment open, and opens none. -/
theorem Ledger.hands_closed (h : Ledger duration t segs own cur ideal) (hp : p.Succeeds)
    (hv : p.video = some v) (hopen : ¬ (t.facing duration v p).startFlag = true) :
    ∃ cur', Hands duration t segs own cur ideal cur' p := by
  have hbooks := h.books.facing v hp.openIo
  have hstep : t.InStepAt duration p := by
    intro w hmem hkeeps
    rw [hv, Option.mem_some_iff] at hmem
    rw [← hmem] at hkeeps
    exact absurd hkeeps.1 hopen
  have hhanded : t.handed duration p = [] := by
    rw [handed, hv]
    exact if_neg hopen
  refine ⟨cur, ?_, ?_⟩
  · rw [pass_some hv h.books.running hbooks.running, if_neg fun hrot => hopen hrot.1, if_neg hopen,
      hhanded]
    refine ⟨hbooks, fun hs => absurd hs hopen, ?_, h.alikes, h.alike⟩
    rw [(facing_same duration t v p).1]
    exact h.done
  · rw [hhanded]
    simp [hstep]

/-- A frame that is handed to the open segment, and the audio frames behind it. -/
theorem Ledger.hands_open (h : Ledger duration t segs own cur ideal) (hp : p.Succeeds)
    (hv : p.video = some v) (hstamp : v.ullTimeStamp < 4294967296)
    (hrot : ¬ (t.facing duration v p).Rotates v)
    (hopen : (t.facing duration v p).startFlag = true) :
    ∃ cur', Hands duration t segs own cur ideal cur' p := by
  have hbooks := h.books.facing v hp.openIo
  obtain ⟨hfinished, haudio, hms, hvideoMs⟩ := facing_same duration t v p
  have hacc : cur.started = true ∨ v.IsKey :=
    ((facing_startFlag duration t hp.openIo).mp hopen).imp h.started id
  have hledger := h.write hbooks hfinished hopen (videoFrame_ok _ v) (videoFrame_sameShape _ v)
    (hacc.imp id videoFrame_isKey) (u := (t.facing duration v p).writeVideo v .ok) rfl rfl rfl rfl
  have hagrees := h.alike.moviChunks_add_iff (videoFrame_sameShape (t.facing duration v p) v)
  have hkeeps : (cur.Accepts ((t.facing duration v p).videoFrame v)
        ∧ ¬ cur.Overflows ((t.facing duration v p).videoFrame v)) ↔ t.Keeps duration p v := by
    rw [Keeps, (hbooks.represents hopen).stores.overflows_iff]
    have : cur.Accepts ((t.facing duration v p).videoFrame v) := hacc.imp id videoFrame_isKey
    simp [this, hrot, hopen]
  have hstep : t.InStepAt duration p
      ↔ (t.Keeps duration p v → t.audioStamp % 4294967296 = v.ullTimeStamp) := by
    simp [InStepAt, hv]
  rw [hkeeps, videoFrame_chunks_iff _ hstamp, haudio, ← hstep] at hagrees
  -- the audio part
  obtain ⟨fs, hfs, haudioPart⟩ := hledger.audioPart hopen hp.audioIo
  have hhanded : (t.handed duration p).map RingRead.frame = (RingRead.video v).frame :: fs := by
    rw [handed, hv, hfs]
    dsimp only
    rw [if_pos hopen, List.map_cons]
    show _ = _ :: (((heard p.audio (t.facing duration v p).ullMediaAudioMs
      (t.facing duration v p).ullMediaVideoMs).map .audio).map RingRead.frame)
    rw [hms, hvideoMs]
  refine ⟨fs.foldl .add (cur.add ((t.facing duration v p).videoFrame v)), ?_, ?_⟩
  · rw [pass_some hv h.books.running hbooks.running, if_neg hrot, if_pos hopen, hp.videoIo, hhanded]
    exact haudioPart
  · rw [hhanded]
    exact (hledger.alike.foldl_add fs).2.trans hagrees

/-- One pass: the segment is closed, or the frames of the pass are handed to it. -/
theorem Ledger.pass (h : Ledger duration t segs own cur ideal) (hp : p.Succeeds)
    (hstamps : ∀ v ∈ p.video, v.ullTimeStamp < 4294967296) :
    (t.closes duration p = true ∧ t.InStepAt duration p
        ∧ Ledger duration (t.pass duration p) (segs ++ [cur.frames]) (own ++ [ideal.frames])
          .empty .empty)
      ∨ (t.closes duration p = false ∧ ∃ cur', Hands duration t segs own cur ideal cur' p) := by
  cases hv : p.video with
  | none =>
    right
    exact ⟨by rw [closes, hv]; rfl, h.hands_none hp hv⟩
  | some v =>
    have hstamp := hstamps v hv
    have hcloses : t.closes duration p = decide ((t.facing duration v p).Rotates v) := by
      rw [closes, hv]
      rfl
    have hbooks := h.books.facing v hp.openIo
    by_cases hrot : (t.facing duration v p).Rotates v
    · left
      rw [hcloses, pass_some hv h.books.running hbooks.running, if_pos hrot]
      refine ⟨decide_eq_true hrot, ?_, ?_⟩
      · intro w hmem hkeeps
        rw [hv, Option.mem_some_iff] at hmem
        rw [← hmem] at hkeeps
        exact absurd hrot hkeeps.2.1
      · exact h.stopSegment hbooks (facing_same duration t v p).1 hrot.1
          (h.started (startFlag_of_rotates hstamp hrot)) hp.closeIo _
    · right
      rw [hcloses]
      refine ⟨decide_eq_false hrot, ?_⟩
      by_cases hopen : (t.facing duration v p).startFlag = true
      · exact h.hands_open hp hv hstamp hrot hopen
      · exact h.hands_closed hp hv hopen

/-! ## Runs -/

/-- One more segment on each side. -/
theorem Ledger.chunks_concat_iff (h : Ledger duration t segs own cur ideal)
    (fs gs : List AviFrame) :
    (segs ++ [fs]).map moviChunks = (own ++ [gs]).map moviChunks
      ↔ segs.map moviChunks = own.map moviChunks ∧ moviChunks fs = moviChunks gs := by
  have hlen : (segs.map moviChunks).length = (own.map moviChunks).length := by
    rw [List.length_map, List.length_map, h.alikes.length_eq]
  rw [List.map_append, List.map_append, append_eq_iff hlen, List.map_singleton, List.map_singleton,
    List.singleton_inj]

/-- While no segment is open both recordings are empty. -/
theorem Ledger.agrees_of_closed (h : Ledger duration t segs own cur ideal)
    (hclosed : t.startFlag = false) : Agrees cur ideal := by
  have hcur := h.books.closed hclosed
  have hframes := h.alike.frames
  rw [hcur] at hframes
  have hnil : ideal.frames = [] := List.forall₂_nil_left_iff.mp hframes
  rw [Agrees, hnil, hcur]
  rfl

/-- The end of a run closes the segment that is open. -/
theorem Ledger.finish {given : List RingRead}
    (h : Ledger duration t segs own cur (.record (given.map RingRead.frame))) {io : CloseIo}
    (hio : io.AllOk) :
    ∃ final, List.Forall₂ (fun s fs => (∀ f ∈ fs, f.Ok)
          ∧ ∃ d a, Finished (segmentHeader duration) d a s.file fs) (t.finish io).finished final
      ∧ List.Forall₂ (List.Forall₂ SameShape) final
        (own ++ (segmentsHanded duration t given []).map ownFrames)
      ∧ (final.map moviChunks
          = (own ++ (segmentsHanded duration t given []).map ownFrames).map moviChunks
        ↔ segs.map moviChunks = own.map moviChunks
          ∧ Agrees cur (.record (given.map RingRead.frame))) := by
  rw [segmentsHanded, RecordThread.finish]
  by_cases hopen : t.startFlag = true
  · have hstop := h.stopSegment h.books rfl hopen (h.started hopen) hio t.audioStamp
    rw [if_pos hopen, if_pos hopen]
    exact ⟨segs ++ [cur.frames], hstop.done, hstop.alikes, h.chunks_concat_iff _ _⟩
  · rw [if_neg hopen, if_neg hopen]
    refine ⟨segs, h.done, ?_, ?_⟩
    · rw [List.map_nil, List.append_nil]
      exact h.alikes
    · rw [List.map_nil, List.append_nil]
      exact (and_iff_left (h.agrees_of_closed (by simpa using hopen))).symm

/-- The files of a run hold the frames `segs`, alike those with their own stamps, and have the same
chunks when the run was in step. -/
theorem Ledger.run {ps : List RecordPass} (hps : ∀ p ∈ ps, p.Succeeds)
    (hstamps : ∀ p ∈ ps, ∀ v ∈ p.video, v.ullTimeStamp < 4294967296) {io : CloseIo}
    (hio : io.AllOk) : ∀ {t : RecordThread} {segs own : List (List AviFrame)} {cur : Recording}
      {given : List RingRead},
      Ledger duration t segs own cur (.record (given.map RingRead.frame)) →
      ∃ final, List.Forall₂ (fun s fs => (∀ f ∈ fs, f.Ok)
            ∧ ∃ d a, Finished (segmentHeader duration) d a s.file fs)
          ((t.run duration ps).finish io).finished final
        ∧ List.Forall₂ (List.Forall₂ SameShape) final
          (own ++ (segmentsHanded duration t given ps).map ownFrames)
        ∧ (final.map moviChunks
            = (own ++ (segmentsHanded duration t given ps).map ownFrames).map moviChunks
          ↔ segs.map moviChunks = own.map moviChunks
            ∧ Agrees cur (.record (given.map RingRead.frame)) ∧ InStep duration t ps) := by
  induction ps with
  | nil =>
    intro t segs own cur given h
    obtain ⟨final, hdone, halikes, hiff⟩ := h.finish hio
    exact ⟨final, hdone, halikes, hiff.trans (by simp [InStep])⟩
  | cons p ps ih =>
    intro t segs own cur given h
    have ih := @ih (fun q hq => hps q (List.mem_cons_of_mem p hq))
      (fun q hq => hstamps q (List.mem_cons_of_mem p hq))
    show ∃ final, List.Forall₂ _ (((t.pass duration p).run duration ps).finish io).finished final ∧ _
    rw [segmentsHanded]
    obtain ⟨hcloses, hstep, hledger⟩ | ⟨hcloses, cur', hhands⟩ :=
      h.pass (hps p List.mem_cons_self) (hstamps p List.mem_cons_self)
    · -- the pass closes the segment
      obtain ⟨final, hdone, halikes, hiff⟩ := @ih _ _ _ _ [] hledger
      rw [if_pos hcloses, List.map_cons]
      have hlist : own ++ (ownFrames given :: (segmentsHanded duration (t.pass duration p) [] ps).map
          ownFrames) = own ++ [ownFrames given]
            ++ (segmentsHanded duration (t.pass duration p) [] ps).map ownFrames := by
        rw [List.append_assoc, List.singleton_append]
      rw [hlist]
      refine ⟨final, hdone, halikes, hiff.trans ?_⟩
      rw [h.chunks_concat_iff]
      constructor
      · rintro ⟨⟨hold, hcur⟩, -, hrest⟩
        exact ⟨hold, hcur, hstep, hrest⟩
      · rintro ⟨hold, hcur, -, hrest⟩
        exact ⟨⟨hold, hcur⟩, rfl, hrest⟩
    · have hgiven : Recording.record ((given ++ t.handed duration p).map RingRead.frame)
          = ((t.handed duration p).map RingRead.frame).foldl .add
            (.record (given.map RingRead.frame)) := by
        rw [Recording.record, List.map_append, List.foldl_append, Recording.record]
      have hledger := hhands.ledger
      rw [← hgiven] at hledger
      obtain ⟨final, hdone, halikes, hiff⟩ := ih hledger
      rw [hcloses, if_neg Bool.false_ne_true]
      refine ⟨final, hdone, halikes, hiff.trans ?_⟩
      rw [hgiven, hhands.agrees, InStep]
      simp only [and_assoc]

end Ledger

/-! ## The files -/

theorem mem_heard {as : List AudioRead} {a : AudioRead} : ∀ {audioMs videoMs : ℕ},
    a ∈ heard as audioMs videoMs → a ∈ as := by
  induction as with
  | nil => exact fun h => h
  | cons b as ih =>
    intro audioMs videoMs h
    rw [heard] at h
    split at h
    · rcases List.mem_cons.mp h with rfl | h
      · exact List.mem_cons_self
      · exact List.mem_cons_of_mem b (ih h)
    · cases h

/-- A frame handed over has been read in the pass. -/
theorem handed_stamp {duration : ℕ} {t : RecordThread} {p : RecordPass} {bound : ℕ}
    (hvideo : ∀ v ∈ p.video, v.ullTimeStamp < bound) (haudio : ∀ a ∈ p.audio, a.ullTimeStamp < bound) :
    ∀ r ∈ t.handed duration p, r.ullTimeStamp < bound := by
  have hheard : ∀ audioMs videoMs, ∀ r ∈ (heard p.audio audioMs videoMs).map RingRead.audio,
      r.ullTimeStamp < bound := by
    intro audioMs videoMs r hr
    obtain ⟨a, ha, rfl⟩ := List.mem_map.mp hr
    exact haudio a (mem_heard ha)
  intro r hr
  unfold handed at hr
  split at hr
  · split at hr
    · exact hheard _ _ r hr
    · cases hr
  · rename_i v hv
    split at hr
    · rcases List.mem_cons.mp hr with rfl | hr
      · exact hvideo v hv
      · exact hheard _ _ r hr
    · cases hr

theorem segmentsHanded_stamp {duration bound : ℕ} {ps : List RecordPass}
    (hps : ∀ p ∈ ps, (∀ v ∈ p.video, v.ullTimeStamp < bound)
      ∧ ∀ a ∈ p.audio, a.ullTimeStamp < bound) :
    ∀ {t : RecordThread} {given : List RingRead}, (∀ r ∈ given, r.ullTimeStamp < bound) →
      ∀ g ∈ segmentsHanded duration t given ps, ∀ r ∈ g, r.ullTimeStamp < bound := by
  induction ps with
  | nil =>
    intro t given hgiven g hg
    rw [segmentsHanded] at hg
    split at hg
    · rw [List.mem_singleton.mp hg]
      exact hgiven
    · cases hg
  | cons p ps ih =>
    intro t given hgiven g hg
    have ih := @ih fun q hq => hps q (List.mem_cons_of_mem p hq)
    rw [segmentsHanded] at hg
    split at hg
    · rcases List.mem_cons.mp hg with rfl | hg
      · exact hgiven
      · exact ih (fun r hr => absurd hr List.not_mem_nil) g hg
    · apply ih _ g hg
      intro r hr
      rcases List.mem_append.mp hr with hr | hr
      · exact hgiven r hr
      · exact handed_stamp (hps p List.mem_cons_self).1 (hps p List.mem_cons_self).2 r hr

end RecordThread

/-- Alike lists with the same chunks have them frame by frame. -/
theorem chunks_eq_of_moviChunks {fs gs : List AviFrame} (h : List.Forall₂ SameShape fs gs)
    (heq : moviChunks fs = moviChunks gs) : List.Forall₂ (fun f g => f.chunks = g.chunks) fs gs := by
  induction h with
  | nil => exact .nil
  | @cons f g fs gs _ _ ih =>
    have hsplit : f.chunks ++ moviChunks fs = g.chunks ++ moviChunks gs := heq
    rw [append_eq_iff (by simp [AviFrame.chunks])] at hsplit
    exact .cons hsplit.1 (ih hsplit.2)

section File

variable {hdr : List UInt8} {duration aBits : ℕ} {file : StdioFile} {fs : List AviFrame}
  {given : List RingRead}

theorem ownFrames_stamp_lt {bound : ℕ} (hgiven : ∀ r ∈ given, r.ullTimeStamp < bound)
    {f : AviFrame} (hf : f ∈ ownFrames given) : f.stamp.1 < bound := by
  obtain ⟨r, hr, rfl⟩ := List.mem_map.mp ((Recording.record_sublist _).subset hf)
  rw [r.frame_stamp]
  exact hgiven r hr

/-- With capture times that do not decrease the stamps of the video frames do not either. -/
theorem ownFrames_pairwise (hle : (given.filterMap RingRead.video?).Pairwise
      fun v w => v.ullTimeStamp ≤ w.ullTimeStamp) :
    (ownFrames given).Pairwise fun f g => f.IsVideo → g.IsVideo → f.stamp.1 ≤ g.stamp.1 := by
  apply List.Pairwise.sublist (Recording.record_sublist _)
  rw [List.pairwise_map]
  rw [List.pairwise_filterMap] at hle
  apply hle.imp
  intro r q hrq hr hq
  cases r with
  | audio a => exact absurd hr (RecordThread.audioFrame_not_video a)
  | video v =>
    cases q with
    | audio a => exact absurd hq (RecordThread.audioFrame_not_video a)
    | video w => exact hrq v rfl w rfl

/-- The player reads the stamp behind the chunk. -/
theorem frameTimestamp_finished (h : Finished hdr duration aBits file fs) (hok : ∀ f ∈ fs, f.Ok)
    (hsize : file.size < 2147483648) (heap : ℕ → IndexEntry) {i : ℕ} {f : AviFrame}
    (hf : fs[i]? = some f) (hstamp : f.stamp.1 % 4294967296 < 2147483648) :
    Playback.frameTimestamp file (Playback.readHeaderAndIndex file heap) i
      = (f.stamp.1 % 4294967296 : ℕ) := by
  have hne : fs ≠ [] := List.ne_nil_of_mem (List.mem_of_getElem? hf)
  obtain ⟨-, hentry⟩ := Playback.readHeaderAndIndex_finished h hok hsize hne heap
  obtain ⟨hlt, -⟩ := Playback.chunk_bytes h hok hsize hf
  obtain ⟨-, hword⟩ := Playback.chunk_fields h hok hsize hf
  rw [Playback.frameTimestamp, hentry i f hf]
  show toInt32 (load32 file.bytes (8 + Playback.chunkOffset fs i % 4294967296 + f.size + 8)) = _
  rw [Nat.mod_eq_of_lt (by omega), hword, toInt32, if_pos hstamp]

/-- The file of frames alike those with their own stamps holds their stamps exactly when the chunks
are the same. -/
theorem ownStamps_iff (h : Finished hdr duration aBits file fs) (hok : ∀ f ∈ fs, f.Ok)
    (halike : List.Forall₂ SameShape fs (ownFrames given))
    (hgiven : ∀ r ∈ given, r.ullTimeStamp < 2147483648) :
    OwnStamps file given ↔ moviChunks fs = moviChunks (ownFrames given) := by
  constructor
  · intro hown
    rw [← readMovi_eq hok h.body]
    exact hown.stored.1
  · intro heq
    have hchunks := chunks_eq_of_moviChunks halike heq
    have htime : file.size < 2147483648 → ∀ heap i f, (ownFrames given)[i]? = some f →
        Playback.frameTimestamp file (Playback.readHeaderAndIndex file heap) i = f.stamp.1 := by
      intro hsize heap i f hf
      have hlt := ownFrames_stamp_lt hgiven (List.mem_of_getElem? hf)
      obtain ⟨hi, hget⟩ := List.getElem?_eq_some_iff.mp hf
      have hi' : i < fs.length := by
        rw [halike.length_eq]
        exact hi
      have hshape : SameShape fs[i] f := by
        rw [← hget]
        exact halike.get hi' hi
      have hsame : fs[i].chunks = f.chunks := by
        rw [← hget]
        exact hchunks.get hi' hi
      have hstamp := (hshape.chunks_iff.mp hsame).1
      rw [Nat.mod_eq_of_lt (show f.stamp.1 < 4294967296 by omega)] at hstamp
      rw [frameTimestamp_finished h hok hsize heap (List.getElem?_eq_getElem hi') (by omega), hstamp]
    constructor
    · exact ⟨(readMovi_eq hok h.body).trans heq,
        (readIndex_eq hok h.body).trans (indexFrom_alike halike _)⟩
    · intro hsize heap i f hf _
      exact htime hsize heap i f hf
    · intro hsize hle heap i k f g hik hf hg hvf hvg
      rw [htime hsize heap i f hf, htime hsize heap k g hg]
      obtain ⟨hi, rfl⟩ := List.getElem?_eq_some_iff.mp hf
      obtain ⟨hk, rfl⟩ := List.getElem?_eq_some_iff.mp hg
      exact_mod_cast List.pairwise_iff_getElem.mp (ownFrames_pairwise hle) i k hi hk hik hvf hvg

end File

namespace RecordThread

/-- The files of a run hold own stamps when their chunks are those of frames with them. -/
theorem forall₂_ownStamps {duration : ℕ} {files : List AviFile} {final : List (List AviFrame)}
    (hdone : List.Forall₂ (fun s fs => (∀ f ∈ fs, f.Ok)
      ∧ ∃ d a, Finished (segmentHeader duration) d a s.file fs) files final) :
    ∀ {logs : List (List RingRead)}, (∀ g ∈ logs, ∀ r ∈ g, r.ullTimeStamp < 2147483648) →
      List.Forall₂ (List.Forall₂ SameShape) final (logs.map ownFrames) →
      (List.Forall₂ (fun s given => OwnStamps s.file given) files logs
        ↔ final.map moviChunks = (logs.map ownFrames).map moviChunks) := by
  induction hdone with
  | nil =>
    intro logs _ halikes
    cases logs with
    | nil => exact ⟨fun _ => rfl, fun _ => .nil⟩
    | cons g logs => cases halikes
  | cons hfile _ ih =>
    intro logs hstamps halikes
    cases logs with
    | nil => cases halikes
    | cons g logs =>
      obtain ⟨hok, d, a, hfin⟩ := hfile
      rw [List.map_cons, List.forall₂_cons] at halikes
      rw [List.forall₂_cons, ownStamps_iff hfin hok halikes.1 (hstamps g List.mem_cons_self),
        ih (fun g' hg' => hstamps g' (List.mem_cons_of_mem g hg')) halikes.2]
      simp

/-- The files of a thread that begins with an empty ledger. -/
theorem Ledger.ownStamps_iff {duration : ℕ} {t : RecordThread} {ps : List RecordPass} {io : CloseIo}
    (h : Ledger duration t [] [] .empty .empty) (hps : ∀ p ∈ ps, p.Succeeds) (hio : io.AllOk)
    (hstamps : ∀ p ∈ ps, (∀ v ∈ p.video, v.ullTimeStamp < 2147483648)
      ∧ ∀ a ∈ p.audio, a.ullTimeStamp < 2147483648) :
    List.Forall₂ (fun s given => OwnStamps s.file given) ((t.run duration ps).finish io).finished
        (segmentsHanded duration t [] ps)
      ↔ InStep duration t ps := by
  have hwide : ∀ p ∈ ps, ∀ v ∈ p.video, v.ullTimeStamp < 4294967296 := by
    intro p hp v hv
    have := (hstamps p hp).1 v hv
    omega
  have h : Ledger duration t [] [] .empty (.record (([] : List RingRead).map RingRead.frame)) := h
  obtain ⟨final, hdone, halikes, hiff⟩ := h.run hps hwide hio
  rw [List.nil_append] at halikes hiff
  have hlogs : ∀ g ∈ segmentsHanded duration t [] ps, ∀ r ∈ g, r.ullTimeStamp < 2147483648 :=
    segmentsHanded_stamp hstamps (fun r hr => absurd hr List.not_mem_nil)
  rw [forall₂_ownStamps hdone hlogs halikes, hiff]
  exact ⟨fun h => h.2.2, fun h => ⟨rfl, rfl, h⟩⟩

/-- **Every time stamp stored is the frame's own** exactly in the runs in which each video frame that
is kept has the capture time of the audio frame read last. -/
theorem stamps_own_iff (duration : ℕ) (s : AviFile) (audioStamp : ℕ) (ps : List RecordPass)
    (io : CloseIo) (hps : ∀ p ∈ ps, p.Succeeds) (hio : io.AllOk)
    (hstamps : ∀ p ∈ ps, (∀ v ∈ p.video, v.ullTimeStamp < 2147483648)
      ∧ ∀ a ∈ p.audio, a.ullTimeStamp < 2147483648) :
    List.Forall₂ (fun s given => OwnStamps s.file given)
        (((start s audioStamp).run duration ps).finish io).finished
        (segmentsHanded duration (start s audioStamp) [] ps)
      ↔ InStep duration (start s audioStamp) ps :=
  (start_ledger duration s audioStamp).ownStamps_iff hps hio hstamps

theorem keyPass_stamps (stamp : ℕ) (hstamp : stamp < 2147483648) :
    ∀ p ∈ [keyPass stamp], (∀ v ∈ p.video, v.ullTimeStamp < 2147483648)
      ∧ ∀ a ∈ p.audio, a.ullTimeStamp < 2147483648 := by
  intro p hp
  rw [List.mem_singleton.mp hp]
  constructor
  · intro v hv
    obtain rfl : keyRead stamp = v := by simpa [keyPass] using hv
    exact hstamp
  · exact fun a ha => absurd ha List.not_mem_nil

theorem keyPass_all_succeed (stamp : ℕ) : ∀ p ∈ [keyPass stamp], p.Succeeds := by
  intro p hp
  rw [List.mem_singleton.mp hp]
  exact keyPass_succeeds stamp

/-- One key frame, captured when the latest audio frame was. -/
theorem stamps_own_together :
    List.Forall₂ (fun s given => OwnStamps s.file given)
      (((start .zero 5).run 300 [keyPass 5]).finish (keyPass 0).closeIo).finished
      (segmentsHanded 300 (start .zero 5) [] [keyPass 5]) := by
  apply (stamps_own_iff 300 .zero 5 [keyPass 5] _ (keyPass_all_succeed 5)
    (keyPass_succeeds 0).closeIo (keyPass_stamps 5 (by decide))).mpr
  refine ⟨?_, trivial⟩
  intro v hv _
  obtain rfl : keyRead 5 = v := by simpa [keyPass] using hv
  rfl

/-- A key frame captured at 5, the latest audio frame's stamp being 0: it is stored with 0. -/
theorem stamps_mixed :
    ¬ List.Forall₂ (fun s given => OwnStamps s.file given)
      (((start .zero 0).run 300 [keyPass 5]).finish (keyPass 0).closeIo).finished
      (segmentsHanded 300 (start .zero 0) [] [keyPass 5]) := by
  intro hown
  have hstep := ((start_ledger 300 .zero 0).ownStamps_iff (keyPass_all_succeed 5)
    (keyPass_succeeds 0).closeIo (keyPass_stamps 5 (by decide))).mp hown
  have hio := (keyPass_succeeds 5).openIo
  have hopen := (facing_startFlag 300 (start .zero 0) (v := keyRead 5) hio).mpr (.inr rfl)
  -- an empty record buffer has room for the frame
  have hroom : ¬ ((start .zero 0).facing 300 (keyRead 5) (keyPass 5)).aviHandle.Overflows
      (((start .zero 0).facing 300 (keyRead 5) (keyPass 5)).videoFrame (keyRead 5)) := by
    intro hover
    have hbooks := (start_books 300 .zero 0).facing (keyRead 5) hio
    rw [(hbooks.represents hopen).stores.overflows_iff] at hover
    exact hover.pending_ne (videoFrame_ok _ _) rfl
  exact absurd (hstep.1 (keyRead 5) rfl ⟨hopen, keyPass_stays 300 (by decide) rfl, hroom⟩) (by decide)

end RecordThread
