/-
# When a segment is closed

The time stamp a segment begins at is kept in 32 bits, the one compared with it has
64, and the difference is handed on in 32.  Up to 2^32 ms of uptime the three agree.
Afterwards `ullTimeStamp - start_rec_ms` exceeds the true time by a multiple of
2^32, and every segment is closed by the key frame that opens it.

`Clock` is what a run keeps of the two start times; `segments_on_time_iff` says
which runs close their segments on time.
-/
import IpCamera.RecordThread

/-! ## The parameters of an open recording -/

theorem aviWriteHeader_initParam (io : OpenIo) (s : AviFile) :
    (aviWriteHeader io s).2.initParam = s.initParam := by
  unfold aviWriteHeader
  apply runSteps_preserves AviFile.initParam
  intro step hstep s'
  simp only [List.mem_cons, List.not_mem_nil, or_false] at hstep
  rcases hstep with rfl | rfl | rfl <;> rfl

theorem aviNormalRecordOpen_initParam (s : AviFile) (date : String) (io : OpenIo) :
    (aviNormalRecordOpen s date io).2.initParam = s.initParam := by
  unfold aviNormalRecordOpen
  dsimp only
  split
  · rfl
  · have hsteps := runSteps_preserves AviFile.initParam
      [checkSd (io.sdOk 0), fun s => (io.dirOk, s),
        fun s => (true, { s with
          filename := grdSdMountPoint ++ "/" ++ date ++ "/" ++ toString s.start }),
        checkSd (io.sdOk 1), fun s => (io.fileOk, { s with file := .create }),
        fun s => (io.idxOk, { s with
          idxfile := .create
          idxfilename := grdSdMountPoint ++ "/" ++ toString s.start }),
        aviWriteHeader io]
      (by
        intro step hstep s'
        simp only [List.mem_cons, List.not_mem_nil, or_false] at hstep
        rcases hstep with rfl | rfl | rfl | rfl | rfl | rfl | rfl
        case inr.inr.inr.inr.inr.inr => exact aviWriteHeader_initParam io s'
        all_goals rfl)
      { s with dataOffset := 0, videoCount := 0, audioBytes := 0, indexCount := 0 }
    split
    all_goals
      rename_i heq
      rw [heq] at hsteps
      exact hsteps

theorem recordNormalStart_initParam (s : AviFile) (recordDuration frameRate : ℕ) (date : String)
    (io : OpenIo) :
    (recordNormalStart s recordDuration frameRate date io).2.initParam.duration
      = recordDuration := by
  unfold recordNormalStart
  split
  · rw [aviNormalRecordOpen_initParam]
  · rfl

theorem AviFile.writeData_initParam (s : AviFile) (io : WriteIo) :
    (s.writeData io).2.initParam = s.initParam := by
  unfold AviFile.writeData AviFile.writeIdxfile AviFile.writeFile
  dsimp only
  split
  · rename_i heq
    obtain ⟨-, rfl⟩ := Prod.mk.inj heq
    rfl
  · rename_i heq
    obtain ⟨-, rfl⟩ := Prod.mk.inj heq
    split
    · rename_i heq'
      obtain ⟨-, rfl⟩ := Prod.mk.inj heq'
      rfl
    · rename_i heq'
      obtain ⟨-, rfl⟩ := Prod.mk.inj heq'
      rfl

theorem AviFile.storeIndex_initParam (s : AviFile) (f : AviFrame) :
    (s.storeIndex f).initParam = s.initParam := by
  unfold AviFile.storeIndex
  dsimp only
  split <;> rfl

theorem AviFile.storeFrame_initParam (s : AviFile) (f : AviFrame) (io : WriteIo) :
    (s.storeFrame f io).2.initParam = s.initParam := by
  unfold AviFile.storeFrame
  have hstore : ((s.storeChunk f).storeIndex f).initParam = s.initParam :=
    AviFile.storeIndex_initParam _ f
  dsimp only
  split
  · exact s.writeData_initParam io
  · split
    · split
      · rw [AviFile.writeData_initParam, hstore]
      · exact hstore
    · rfl

/-- A write changes none of the parameters the recording was opened with. -/
theorem aviRecordFrame_initParam (s : AviFile) (f : AviFrame) (io : WriteIo) :
    (aviRecordFrame s f io).2.initParam = s.initParam := by
  have hwrite : (aviWriteFrame s f io).2.initParam = s.initParam := by
    unfold aviWriteFrame
    split
    · rfl
    · split
      · split
        · split
          · rfl
          · exact s.reopen.storeFrame_initParam f io
        · rfl
      · exact s.storeFrame_initParam f io
  unfold aviRecordFrame
  rw [← hwrite]
  obtain ⟨ret, s'⟩ := aviWriteFrame s f io
  show (if ret < 0 then (-1, s'.failed) else (ret, s')).2.initParam = s'.initParam
  split <;> rfl

namespace RecordThread

variable {duration : ℕ} {t : RecordThread}

/-! ## The state in which the thread looks at a frame -/

theorem recordSwitchTime_pos (duration : ℕ) : 0 < recordSwitchTime duration := by
  unfold recordSwitchTime
  split <;> omega

/-- Whether a segment is open then. -/
theorem facing_startFlag (duration : ℕ) (t : RecordThread) {v : VideoRead} {p : RecordPass}
    (hio : p.openIo.AllOk) :
    (t.facing duration v p).startFlag = true ↔ t.startFlag = true ∨ v.IsKey := by
  unfold facing openSegment
  by_cases hopen : t.startFlag = false ∧ v.IsKey
  · have hret := (recordNormalStart_represents (s := { t.aviHandle.clear with start := p.utcTime })
      20 p.date hio (recordSwitchTime_pos duration) rfl rfl).1
    rw [if_pos hopen]
    simp [hret, hopen.2]
  · rw [if_neg hopen]
    simp only [not_and] at hopen
    show t.startFlag = true ↔ _
    cases h : t.startFlag with
    | true => simp
    | false => simp [hopen h]

/-- A segment opened by this frame. -/
theorem facing_opened (duration : ℕ) (t : RecordThread) {v : VideoRead} {p : RecordPass}
    (hopen : t.startFlag = false ∧ v.IsKey) :
    (t.facing duration v p).startRecMs = v.ullTimeStamp % 4294967296
      ∧ (t.facing duration v p).firstStamp = v.ullTimeStamp
      ∧ (t.facing duration v p).aviHandle.initParam.duration = recordSwitchTime duration := by
  unfold facing openSegment
  rw [if_pos hopen]
  exact ⟨rfl, rfl, recordNormalStart_initParam _ _ _ _ _⟩

/-- A segment opened before, or none. -/
theorem facing_else {v : VideoRead} {p : RecordPass} (hopen : ¬ (t.startFlag = false ∧ v.IsKey)) :
    t.facing duration v p = { t with ullMediaVideoMs := v.ullTimeStamp } := by
  unfold facing openSegment
  exact if_neg hopen

/-! ## The clock of a segment -/

/-- While a segment is open, `startRecMs` holds the low half of the time stamp it began at, and the
frames `vs` to come are not older. -/
structure Clock (duration : ℕ) (t : RecordThread) (vs : List VideoRead) : Prop where
  startRecMs : t.startRecMs = t.firstStamp % 4294967296
  configured : t.aviHandle.initParam.duration = recordSwitchTime duration
  first_le : ∀ v ∈ vs, t.firstStamp ≤ v.ullTimeStamp

/-- The clock, if a segment is open. -/
def Clocked (duration : ℕ) (t : RecordThread) (vs : List VideoRead) : Prop :=
  t.startFlag = true → Clock duration t vs

theorem Clocked.facing {v : VideoRead} {vs : List VideoRead}
    (h : Clocked duration t (v :: vs)) (hle : ∀ w ∈ vs, v.ullTimeStamp ≤ w.ullTimeStamp)
    (p : RecordPass) : Clocked duration (t.facing duration v p) (v :: vs) := by
  by_cases hopen : t.startFlag = false ∧ v.IsKey
  · -- this frame opens the segment: the clock starts with it
    obtain ⟨hstart, hfirst, hdur⟩ := facing_opened duration t (p := p) hopen
    intro _
    refine ⟨by rw [hstart, hfirst], hdur, ?_⟩
    rw [hfirst]
    intro w hw
    rcases List.mem_cons.mp hw with rfl | hw
    · exact le_refl _
    · exact hle w hw
  · rw [facing_else hopen]
    intro hs
    exact { h hs with }

/-- Writes leave the clock alone. -/
theorem writeAudio_clock (as : List AudioRead) : ∀ {t : RecordThread} {vs : List VideoRead},
    Clock duration t vs → Clock duration (writeAudio as t) vs := by
  induction as with
  | nil => intro t vs h; exact h
  | cons a as ih =>
    intro t vs h
    unfold writeAudio
    split
    · apply ih
      refine ⟨h.startRecMs, ?_, h.first_le⟩
      show (aviRecordWriteExtend _ _ _ _ _).2.initParam.duration = _
      rw [aviRecordWriteExtend_eq, aviRecordFrame_initParam]
      exact h.configured
    · exact h

theorem audioPart_clocked {vs : List VideoRead} (h : Clocked duration t vs) (p : RecordPass) :
    Clocked duration (t.audioPart p) vs := by
  unfold audioPart
  split
  · rename_i hopen
    intro _
    exact writeAudio_clock p.audio (h hopen)
  · exact h

theorem writeVideo_clocked {vs : List VideoRead} (h : Clocked duration t vs) (v : VideoRead)
    (io : WriteIo) : Clocked duration (t.writeVideo v io) vs := by
  intro hopen
  have h' := h hopen
  refine ⟨h'.startRecMs, ?_, h'.first_le⟩
  show (aviRecordWriteExtend _ _ _ _ _).2.initParam.duration = _
  rw [aviRecordWriteExtend_eq, aviRecordFrame_initParam]
  exact h'.configured

/-- One pass keeps the clock. -/
theorem Clocked.pass {p : RecordPass} {vs : List VideoRead}
    (h : Clocked duration t (p.video.toList ++ vs))
    (hle : ∀ v ∈ p.video, ∀ w ∈ vs, v.ullTimeStamp ≤ w.ullTimeStamp) :
    Clocked duration (t.pass duration p) vs := by
  have hdrop : ∀ {t : RecordThread} {v : VideoRead}, Clocked duration t (v :: vs) →
      Clocked duration t vs := by
    intro t v hv hs
    exact ⟨(hv hs).startRecMs, (hv hs).configured, fun w hw => (hv hs).first_le w (by simp [hw])⟩
  unfold RecordThread.pass
  split
  · intro hs
    exact ⟨(h hs).startRecMs, (h hs).configured, fun w hw => (h hs).first_le w (by simp [hw])⟩
  · cases hv : p.video with
    | none =>
      rw [hv] at h
      exact audioPart_clocked h p
    | some v =>
      rw [hv] at h
      have hf := hdrop (Clocked.facing h (hle v (by simp [hv])) p)
      unfold RecordThread.facing at hf
      dsimp only
      split
      · exact hf
      · split
        · intro hs
          cases hs
        · split
          · exact audioPart_clocked (writeVideo_clocked hf v _) p
          · exact hf

/-! ## On time -/

/-- The thread facing `v` closes the segment if and only if `v` is a key frame and at least the
configured time has passed since the segment's first frame; the duration it hands on is that time. -/
structure ClosesOnTime (duration : ℕ) (t : RecordThread) (v : VideoRead) : Prop where
  closes : t.Rotates v ↔ t.startFlag = true ∧ v.IsKey
    ∧ recordSwitchTime duration * 1000 ≤ v.ullTimeStamp - t.firstStamp
  duration : t.Rotates v → timevalDiffMs t.startRecMs v.ullTimeStamp = v.ullTimeStamp - t.firstStamp

/-- For a key frame in an open segment: the segment began below 2^32 ms, or it is long enough, or it
is too short even when the start time is cut to 32 bits; and if the difference to that start time
closes it, the true one fits 32 bits. -/
def InRange (duration : ℕ) (t : RecordThread) (v : VideoRead) : Prop :=
  t.startFlag = true → v.IsKey →
    (t.firstStamp < 4294967296
        ∨ recordSwitchTime duration * 1000 ≤ v.ullTimeStamp - t.firstStamp
        ∨ v.ullTimeStamp - t.firstStamp % 4294967296 < recordSwitchTime duration * 1000)
      ∧ (recordSwitchTime duration * 1000 ≤ v.ullTimeStamp - t.firstStamp % 4294967296 →
        v.ullTimeStamp - t.firstStamp < 4294967296)

/-- In every pass of the loop, `P` holds of the state in which the thread looks at its frame. -/
def EveryPass (duration : ℕ) (P : RecordThread → VideoRead → Prop) :
    RecordThread → List RecordPass → Prop
  | _, [] => True
  | t, p :: ps =>
      (t.running = true → ∀ v ∈ p.video, P (t.facing duration v p) v)
        ∧ EveryPass duration P (t.pass duration p) ps

/-- The comparison and the difference in the widths of the source. -/
theorem widths_agree_iff {first ts D : ℕ} (hle : first ≤ ts) (hts : ts < 18446744073709551616) :
    ((D ≤ (ts + 18446744073709551616 - first % 4294967296) % 18446744073709551616 ↔ D ≤ ts - first)
        ∧ (D ≤ (ts + 18446744073709551616 - first % 4294967296) % 18446744073709551616 →
          timevalDiffMs (first % 4294967296) ts = ts - first))
      ↔ (first < 4294967296 ∨ D ≤ ts - first ∨ ts - first % 4294967296 < D)
        ∧ (D ≤ ts - first % 4294967296 → ts - first < 4294967296) := by
  -- `unsigned long long` minus the 32-bit start time does not wrap, the duration does
  have hlow : first % 4294967296 ≤ ts := (Nat.mod_le _ _).trans hle
  have hlong : (ts + 18446744073709551616 - first % 4294967296) % 18446744073709551616
      = ts - first % 4294967296 := by
    omega
  have hshort : timevalDiffMs (first % 4294967296) ts = (ts - first) % 4294967296 := by
    unfold timevalDiffMs
    omega
  rw [hlong, hshort]
  constructor
  · rintro ⟨hiff, hdur⟩
    refine ⟨?_, fun h => ?_⟩
    · -- the comparison was right: either both sides hold or neither
      by_cases h : D ≤ ts - first % 4294967296
      · exact Or.inr (Or.inl (hiff.mp h))
      · omega
    · have := hdur h
      omega
  · rintro ⟨hrange, hfit⟩
    refine ⟨⟨fun h => ?_, fun h => by omega⟩, fun h => ?_⟩
    · omega
    · exact Nat.mod_eq_of_lt (hfit h)

/-- A frame is dealt with on time exactly when it is in range. -/
theorem closesOnTime_iff {v : VideoRead} {vs : List VideoRead} (h : Clocked duration t (v :: vs))
    (hwide : v.ullTimeStamp < 18446744073709551616) :
    ClosesOnTime duration t v ↔ InRange duration t v := by
  have hon : ClosesOnTime duration t v ↔
      (t.Rotates v ↔ t.startFlag = true ∧ v.IsKey
          ∧ recordSwitchTime duration * 1000 ≤ v.ullTimeStamp - t.firstStamp)
        ∧ (t.Rotates v →
          timevalDiffMs t.startRecMs v.ullTimeStamp = v.ullTimeStamp - t.firstStamp) :=
    ⟨fun hc => ⟨hc.closes, hc.duration⟩, fun hc => ⟨hc.1, hc.2⟩⟩
  rw [hon]
  unfold Rotates LongEnough InRange
  by_cases hopen : t.startFlag = true ∧ v.IsKey
  · obtain ⟨hstart, hdur, hfirst⟩ := h hopen.1
    simp only [hopen.1, hopen.2, true_and, forall_const, hstart, hdur]
    exact widths_agree_iff (hfirst v (by simp)) hwide
  · -- no key frame, or no open segment: nothing is closed, and nothing is asked
    simp only [not_and] at hopen
    constructor
    · intro _ h₁ h₂
      exact absurd h₂ (hopen h₁)
    · intro _
      exact ⟨⟨fun hc => absurd hc.2.1 (hopen hc.1), fun hc => absurd hc.2.1 (hopen hc.1)⟩,
        fun hc => absurd hc.2.1 (hopen hc.1)⟩

/-- For non-decreasing 64-bit time stamps and any outcome of the file operations: every key frame
closes its segment exactly when the true time since the segment's first frame has reached the
configured duration, and hands that time on, if and only if every frame is in range. -/
theorem segments_on_time_iff (duration : ℕ) (s : AviFile) (audioStamp : ℕ) (ps : List RecordPass)
    (hwide : ∀ v ∈ ps.filterMap RecordPass.video, v.ullTimeStamp < 18446744073709551616)
    (hmono : (ps.filterMap RecordPass.video).Pairwise fun v w => v.ullTimeStamp ≤ w.ullTimeStamp) :
    EveryPass duration (ClosesOnTime duration) (start s audioStamp) ps
      ↔ EveryPass duration (InRange duration) (start s audioStamp) ps := by
  have hclock : Clocked duration (start s audioStamp) (ps.filterMap RecordPass.video) :=
    fun h => absurd h Bool.false_ne_true
  revert hclock
  generalize start s audioStamp = t
  -- the clock is the invariant that carries the induction
  induction ps generalizing t with
  | nil => intro _; exact Iff.rfl
  | cons p ps ih =>
    intro hclock
    have hsplit : (p :: ps).filterMap RecordPass.video
        = p.video.toList ++ ps.filterMap RecordPass.video := by
      cases hv : p.video <;> simp [hv]
    rw [hsplit] at hclock hwide hmono
    obtain ⟨-, hmono', hle⟩ := List.pairwise_append.mp hmono
    have hle' : ∀ v ∈ p.video, ∀ w ∈ ps.filterMap RecordPass.video,
        v.ullTimeStamp ≤ w.ullTimeStamp := fun v hv => hle v (by simpa using hv)
    have hhead : ∀ v ∈ p.video, (ClosesOnTime duration (t.facing duration v p) v
        ↔ InRange duration (t.facing duration v p) v) := by
      intro v hv
      have hlist : p.video.toList = [v] := by
        rw [Option.mem_def.mp hv]
        rfl
      rw [hlist] at hclock hwide
      exact closesOnTime_iff (Clocked.facing hclock (hle' v hv) p) (hwide v (by simp))
    have htail := ih (fun v hv => hwide v (List.mem_append.mpr (Or.inr hv))) hmono' _
      (Clocked.pass hclock hle')
    refine and_congr (forall_congr' fun _ => ?_) htail
    exact forall_congr' fun v => forall_congr' fun hv => hhead v hv

/-- Below 2^32 ms the key frame that opens a segment does not close it. -/
theorem keyPass_stays (duration : ℕ) {stamp : ℕ} (hstamp : stamp < 4294967296)
    (hclosed : t.startFlag = false) :
    ¬ (t.facing duration (keyRead stamp) (keyPass stamp)).Rotates (keyRead stamp) := by
  obtain ⟨hstart, -, hdur⟩ := facing_opened duration t
    (v := keyRead stamp) (p := keyPass stamp) ⟨hclosed, rfl⟩
  rintro ⟨-, -, hlong⟩
  have hpos := recordSwitchTime_pos duration
  unfold LongEnough at hlong
  rw [hstart, hdur] at hlong
  simp only [keyRead, Nat.mod_eq_of_lt hstamp] at hlong
  omega

/-- A key frame that finds no segment open, at less than 2^32 ms, opens one and is written to it. -/
theorem keyPass_opens (duration : ℕ) {stamp : ℕ} (hstamp : stamp < 4294967296)
    (hrun : t.running = true) (hclosed : t.startFlag = false) :
    (t.pass duration (keyPass stamp)).running = true
      ∧ (t.pass duration (keyPass stamp)).startFlag = true
      ∧ (t.pass duration (keyPass stamp)).startRecMs = stamp
      ∧ (t.pass duration (keyPass stamp)).firstStamp = stamp
      ∧ (t.pass duration (keyPass stamp)).aviHandle.initParam.duration
          = recordSwitchTime duration := by
  have hio := (keyPass_succeeds stamp).openIo
  obtain ⟨hstart, hfirst, hdur⟩ := facing_opened duration t
    (v := keyRead stamp) (p := keyPass stamp) ⟨hclosed, rfl⟩
  have hopen : (t.facing duration (keyRead stamp) (keyPass stamp)).startFlag = true :=
    (facing_startFlag duration t hio).mpr (Or.inr rfl)
  have hrunning : (t.facing duration (keyRead stamp) (keyPass stamp)).running = true := by
    unfold facing openSegment at hopen ⊢
    rw [if_pos ⟨hclosed, rfl⟩] at hopen ⊢
    exact hopen
  have hshort := keyPass_stays duration hstamp hclosed
  have hpass : t.pass duration (keyPass stamp)
      = (t.facing duration (keyRead stamp) (keyPass stamp)).writeVideo (keyRead stamp) .ok := by
    have hwrites : ∀ t' : RecordThread, t'.audioPart (keyPass stamp) = t' := by
      intro t'
      unfold audioPart
      split <;> rfl
    unfold pass
    rw [if_neg (by rw [hrun]; decide)]
    show (if (t.facing duration (keyRead stamp) (keyPass stamp)).running = false then _ else _) = _
    rw [if_neg (by rw [hrunning]; decide)]
    show (if (t.facing duration (keyRead stamp) (keyPass stamp)).Rotates (keyRead stamp) then _
      else if (t.facing duration (keyRead stamp) (keyPass stamp)).startFlag = true then _
      else _) = _
    rw [if_neg hshort, if_pos hopen, hwrites]
    rfl
  rw [hpass]
  refine ⟨hrunning, hopen, hstart.trans (Nat.mod_eq_of_lt hstamp), hfirst, ?_⟩
  show (aviRecordWriteExtend _ _ _ _ _).2.initParam.duration = _
  rw [aviRecordWriteExtend_eq, aviRecordFrame_initParam, hdur]

/-- A segment of 300 s early after the start of the system. -/
theorem segments_on_time_early :
    EveryPass 300 (ClosesOnTime 300) (start .zero 0) [keyPass 5, keyPass 300005] := by
  apply (segments_on_time_iff 300 .zero 0 [keyPass 5, keyPass 300005] ?_ ?_).mpr
  · obtain ⟨-, hopen, -, hfirst, -⟩ := keyPass_opens 300 (t := start .zero 0)
      (show 5 < 4294967296 by decide) rfl rfl
    refine ⟨fun _ v hv => ?_, fun _ v hv => ?_, trivial⟩
    · obtain rfl : keyRead 5 = v := by simpa [keyPass] using hv
      obtain ⟨-, hfirst', -⟩ := facing_opened 300 (start .zero 0)
        (v := keyRead 5) (p := keyPass 5) ⟨rfl, rfl⟩
      intro _ _
      rw [hfirst']
      decide
    · obtain rfl : keyRead 300005 = v := by simpa [keyPass] using hv
      rw [facing_else (by rw [hopen]; decide)]
      intro _ _
      show (RecordThread.firstStamp _ < _ ∨ _) ∧ _
      simp only [hfirst]
      decide
  · intro v hv
    simp only [keyPass, List.filterMap_cons, List.filterMap_nil, List.mem_cons, List.not_mem_nil,
      or_false] at hv
    rcases hv with rfl | rfl <;> decide
  · simp [keyPass, keyRead]

/-- At 2^32 ms of uptime the key frame that opens a segment closes it. -/
theorem segments_closed_at_once :
    (∀ v ∈ [keyPass 4294967296].filterMap RecordPass.video, v.ullTimeStamp < 18446744073709551616)
      ∧ ([keyPass 4294967296].filterMap RecordPass.video).Pairwise
          (fun v w => v.ullTimeStamp ≤ w.ullTimeStamp)
      ∧ ¬ EveryPass 300 (ClosesOnTime 300) (start .zero 0) [keyPass 4294967296] := by
  refine ⟨?_, ?_, ?_⟩
  · intro v hv
    obtain rfl : v = keyRead 4294967296 := by simpa [keyPass] using hv
    decide
  · simp [keyPass]
  · rintro ⟨hpass, -⟩
    have hat := hpass rfl (keyRead 4294967296) rfl
    obtain ⟨hstart, hfirst, hdur⟩ := facing_opened 300 (start .zero 0)
      (v := keyRead 4294967296) (p := keyPass 4294967296) ⟨rfl, rfl⟩
    have hrot : (facing 300 (start .zero 0) (keyRead 4294967296) (keyPass 4294967296)).Rotates
        (keyRead 4294967296) := by
      have hopen := facing_startFlag 300 (start .zero 0) (v := keyRead 4294967296)
        (keyPass_succeeds 4294967296).openIo
      refine ⟨hopen.mpr (Or.inr rfl), rfl, ?_⟩
      unfold LongEnough
      rw [hstart, hdur]
      decide
    obtain ⟨-, -, hlong⟩ := hat.closes.mp hrot
    rw [hfirst] at hlong
    exact absurd hlong (by decide)

end RecordThread
