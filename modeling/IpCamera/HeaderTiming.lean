/-
# The time fields of a finished recording (`update_avi_header`)

When a recording is closed, `dwMicroSecPerFrame` and the scale of the video stream
get `duration * 1000 / video_count`, computed in `unsigned int`.  Here the divisions
can fail: a step has no result (`none`) where the program would be stopped.

A handle reaches `update_avi_header` through `avi_record_nornal_close` or through
`avi_record_event_close`, which agree up to the call (`headerCall`).  Every handle a
run closes has a video frame, since the first frame stored is a key frame
(`Open.counted`); but the product wraps from 4294968 ms on: `header_timing_iff`.
-/
import IpCamera.SegmentRotation
import IpCamera.AviFailures
import IpCamera.RecordFileName

/-! ## Divisions -/

/-- `/` of `unsigned int`; division by zero stops the program. -/
def udiv (a b : ℕ) : Option ℕ := if b = 0 then none else some (a / b)

theorem udiv_of_pos {b : ℕ} (hb : 0 < b) (a : ℕ) : udiv a b = some (a / b) :=
  if_neg (by omega)

/-- The quotient of a product kept to 32 bits is right exactly when the product fits. -/
theorem wrapped_quotient_iff (a : ℕ) {b : ℕ} (hpos : 0 < b) (hb : b < 4294967296) :
    a % 4294967296 / b = a / b ↔ a < 4294967296 := by
  constructor
  · intro h
    by_contra hge
    have hsplit := Nat.div_add_mod a 4294967296
    have hq : 1 ≤ a / 4294967296 := (Nat.one_le_div_iff (by decide)).mpr (by omega)
    -- a whole divisor more in the dividend is one more in the quotient
    have hmore : a % 4294967296 / b + 1 ≤ a / b := by
      rw [← Nat.add_div_right _ hpos]
      apply Nat.div_le_div_right
      omega
    omega
  · intro h
    rw [Nat.mod_eq_of_lt h]

/-- Statements run up to the first that fails, or that stops the program. -/
def runFaulting : List (AviFile → Option (Bool × AviFile)) → AviFile → Option (Bool × AviFile)
  | [], s => some (true, s)
  | step :: steps, s =>
      match step s with
      | none => none
      | some (false, s) => some (false, s)
      | some (true, s) => runFaulting steps s

/-- A statement that cannot stop the program. -/
def safe (step : AviFile → Bool × AviFile) (s : AviFile) : Option (Bool × AviFile) := some (step s)

theorem runFaulting_safe (steps : List (AviFile → Bool × AviFile)) (s : AviFile) :
    runFaulting (steps.map safe) s = some (runSteps steps s) := by
  induction steps generalizing s with
  | nil => rfl
  | cons step steps ih =>
    rw [List.map_cons, runFaulting, runSteps, safe]
    rcases step s with ⟨_ | _, s'⟩
    · rfl
    · exact ih s'

theorem runSteps_append (steps rest : List (AviFile → Bool × AviFile)) (s : AviFile) :
    runSteps (steps ++ rest) s =
      match runSteps steps s with
      | (false, s) => (false, s)
      | (true, s) => runSteps rest s := by
  induction steps generalizing s with
  | nil => rfl
  | cons step steps ih =>
    rw [List.cons_append, runSteps, runSteps]
    rcases step s with ⟨_ | _, s'⟩
    · rfl
    · exact ih s'

theorem runFaulting_append (steps : List (AviFile → Bool × AviFile))
    (rest : List (AviFile → Option (Bool × AviFile))) (s : AviFile) :
    runFaulting (steps.map safe ++ rest) s =
      match runSteps steps s with
      | (false, s) => some (false, s)
      | (true, s) => runFaulting rest s := by
  induction steps generalizing s with
  | nil => rfl
  | cons step steps ih =>
    rw [List.map_cons, List.cons_append, runFaulting, runSteps, safe]
    rcases step s with ⟨_ | _, s'⟩
    · rfl
    · exact ih s'

/-! ## The header -/

namespace AviFile

/-- `duration * 1000 / video_count`: the product is an `unsigned int`, and so is the counter, of
type `int`, as the divisor. -/
def timePerFrame (s : AviFile) : Option ℕ :=
  udiv (s.duration * 1000 % 4294967296) (s.videoCount % 4294967296)

end AviFile

/-- `update_avi_header` with its divisions.  `dwRate` is computed and not used. -/
def faultingUpdateAviHeader (io : CloseIo) (s : AviFile) : Option (Bool × AviFile) :=
  let aviLen := s.file.pos - 8
  let moviLen := s.dataOffset - sizeofAviHeader + 4
  let audioCount := s.audioBytes / sampleSize s.aBits
  runFaulting
    [safe (checkSd (io.sdOk 2)),
      safe (AviFile.patchHeader 4 aviLen (io.patch 0)),
      safe (AviFile.patchHeader (sizeofAviHeader - 8) moviLen (io.patch 1)),
      safe (AviFile.patchHeader 48 s.videoCount (io.patch 2)),
      fun t => s.timePerFrame.map fun v => AviFile.patchHeader 32 v (io.patch 3) t,
      fun t => s.timePerFrame.map fun v => AviFile.patchHeader 128 v (io.patch 4) t,
      safe (AviFile.patchHeader 140 s.videoCount (io.patch 5)),
      fun t => (udiv s.audioBytes (sampleSize s.aBits)).map fun audioCount =>
        AviFile.patchHeader 264 audioCount (io.patch 6) t,
      fun t =>
        let t := t.clampDuration
        (udiv audioCount (t.duration / 1000)).map fun _dwRate => (true, t),
      safe (AviFile.patchHeader 256 8000 (io.patch 7))] s

theorem sampleSize_pos (aBits : ℕ) : 0 < sampleSize aBits := by
  unfold sampleSize
  dsimp only
  split <;> omega

theorem AviFile.clampDuration_pos (s : AviFile) : 0 < s.clampDuration.duration / 1000 := by
  show 0 < (if s.duration < 1000 then 1000 else s.duration) / 1000
  split <;> omega

/-- The guards of the source keep the other two divisions defined. -/
theorem faultingUpdateAviHeader_some {io : CloseIo} {s : AviFile} {v : ℕ}
    (h : s.timePerFrame = some v) :
    faultingUpdateAviHeader io s = some (runSteps (headerSteps io s v) s) := by
  have hrate : (fun t : AviFile =>
      (udiv (s.audioBytes / sampleSize s.aBits) (t.clampDuration.duration / 1000)).map
        fun _dwRate => (true, t.clampDuration)) = safe fun t => (true, t.clampDuration) := by
    funext t
    rw [udiv_of_pos t.clampDuration_pos]
    rfl
  rw [← runFaulting_safe]
  unfold faultingUpdateAviHeader
  dsimp only
  rw [h, udiv_of_pos (sampleSize_pos s.aBits), hrate]
  rfl

/-- Without a video frame the first division stops the program, unless a write has failed before. -/
theorem faultingUpdateAviHeader_none {io : CloseIo} (hio : io.AllOk) {s : AviFile}
    (h : s.timePerFrame = none) : faultingUpdateAviHeader io s = none := by
  have hbefore : runSteps ((headerSteps io s 0).take 4) s
      = (true, s.setFile (((s.file.patch 4 (s.file.pos - 8)).patch (sizeofAviHeader - 8)
          (s.dataOffset - sizeofAviHeader + 4)).patch 48 s.videoCount)) := by
    simp only [headerSteps, List.take_succ_cons, List.take_zero]
    rw [runSteps_cons (checkSd_true (hio.sd 2) s)]
    show runSteps _ (s.setFile s.file) = _
    rw [runSteps_patch (hio.patch 0), runSteps_patch (hio.patch 1), runSteps_patch (hio.patch 2)]
    rfl
  unfold faultingUpdateAviHeader
  dsimp only
  refine (runFaulting_append ((headerSteps io s 0).take 4) _ s).trans ?_
  rw [hbefore, h]
  rfl

/-- The faulting version agrees with `updateAviHeader` while the counter has not wrapped. -/
theorem faultingUpdateAviHeader_eq (io : CloseIo) {s : AviFile} (hpos : 0 < s.videoCount)
    (hlt : s.videoCount < 4294967296) :
    faultingUpdateAviHeader io s = some (updateAviHeader io s) := by
  have htime : s.timePerFrame = some s.microSecPerFrame := by
    unfold AviFile.timePerFrame AviFile.microSecPerFrame
    rw [Nat.mod_eq_of_lt hlt, udiv_of_pos hpos]
  rw [faultingUpdateAviHeader_some htime, updateAviHeader_eq]

/-- A header patch that succeeds is a complete one. -/
theorem runSteps_patch_success {o : WriteOutcome} {offset v : ℕ}
    {steps : List (AviFile → Bool × AviFile)} {s s' : AviFile} {f : StdioFile}
    (h : runSteps (AviFile.patchHeader offset v o :: steps) (s.setFile f) = (true, s')) :
    runSteps steps (s.setFile (f.patch offset v)) = (true, s') := by
  cases o with
  | full => rwa [runSteps_patch rfl] at h
  | short k =>
    rw [runSteps] at h
    exact absurd (congrArg Prod.fst h) Bool.false_ne_true

/-- A success of `update_avi_header` has filled in all fields. -/
theorem headerSteps_success {io : CloseIo} {s s' : AviFile} {microSec : ℕ}
    (h : runSteps (headerSteps io s microSec) s = (true, s')) :
    s'.file = patchAll s.file (timedPatches s microSec) := by
  unfold headerSteps at h
  cases hsd : io.sdOk 2 with
  | false =>
    rw [runSteps, hsd] at h
    exact absurd (congrArg Prod.fst h) Bool.false_ne_true
  | true =>
    rw [runSteps_cons (checkSd_true hsd s)] at h
    have h₁ : runSteps _ (s.setFile s.file) = (true, s') := h
    have h₂ := runSteps_patch_success (runSteps_patch_success (runSteps_patch_success
      (runSteps_patch_success (runSteps_patch_success (runSteps_patch_success
        (runSteps_patch_success h₁))))))
    rw [runSteps_pure] at h₂
    have h₃ : runSteps _ (s.clampDuration.setFile _) = (true, s') := h₂
    obtain rfl := congrArg Prod.snd (runSteps_patch_success h₃)
    rfl

/-- Exact frame timing: `update_avi_header` divides by no zero, and where it succeeds both time
fields hold the duration in microseconds over the number of video frames, rounded down. -/
structure HeaderTiming (s : AviFile) : Prop where
  noFault : ∀ io, faultingUpdateAviHeader io s ≠ none
  fields : ∀ io s', faultingUpdateAviHeader io s = some (true, s') →
    load32 s'.file.bytes 32 = s.duration * 1000 / (s.videoCount % 4294967296)
      ∧ load32 s'.file.bytes 128 = s.duration * 1000 / (s.videoCount % 4294967296)

theorem timedPatches_disjoint (s : AviFile) (microSec : ℕ) :
    (timedPatches s microSec).Pairwise (fun p q => p.1 + 4 ≤ q.1 ∨ q.1 + 4 ≤ p.1) := by
  simp [timedPatches]

theorem timedPatches_words {s s' : AviFile} {microSec : ℕ}
    (h : s'.file = patchAll s.file (timedPatches s microSec)) :
    load32 s'.file.bytes 32 = microSec % 4294967296
      ∧ load32 s'.file.bytes 128 = microSec % 4294967296 := by
  have hword := patchAll_word _ s.file (timedPatches_disjoint s microSec)
  rw [h]
  exact ⟨hword (32, microSec) (by simp [timedPatches]),
    hword (128, microSec) (by simp [timedPatches])⟩

/-- No file operation of the close fails. -/
def CloseIo.ok : CloseIo where
  sdOk := fun _ => true
  rest := .full
  idx1 := .full
  pending := .full
  idxSize := .full
  blockRead := fun _ => true
  blockWrite := fun _ => .full
  patch := fun _ => .full
  removeOk := true
  renameOk := true

theorem CloseIo.ok_allOk : CloseIo.ok.AllOk :=
  ⟨fun _ => rfl, rfl, rfl, rfl, rfl, fun _ => rfl, fun _ => rfl, fun _ => rfl, rfl, rfl⟩

/-- The time fields are exact when the divisor is not zero and the product fits 32 bits. -/
theorem headerTiming_iff (s : AviFile) :
    HeaderTiming s ↔ 0 < s.videoCount % 4294967296 ∧ s.duration ≤ 4294967 := by
  have hmul : s.duration ≤ 4294967 ↔ s.duration * 1000 < 4294967296 := by omega
  rw [hmul]
  set count := s.videoCount % 4294967296 with hcount
  set product := s.duration * 1000 with hproduct
  have hlt : count < 4294967296 := Nat.mod_lt _ (by decide)
  have htime : 0 < count → s.timePerFrame = some (product % 4294967296 / count) :=
    fun hpos => udiv_of_pos hpos _
  have hsmall : product % 4294967296 / count < 4294967296 :=
    lt_of_le_of_lt (Nat.div_le_self _ _) (Nat.mod_lt _ (by decide))
  constructor
  · intro h
    have hpos : 0 < count := by
      by_contra hzero
      have hnone : s.timePerFrame = none := if_pos (by omega)
      exact h.noFault .ok (faultingUpdateAviHeader_none CloseIo.ok_allOk hnone)
    refine ⟨hpos, (wrapped_quotient_iff product hpos hlt).mp ?_⟩
    have hfull := headerSteps_full CloseIo.ok_allOk s (product % 4294967296 / count)
    have hfield := (h.fields .ok _ (by
      rw [faultingUpdateAviHeader_some (htime hpos), hfull])).1
    rw [(timedPatches_words rfl).1, Nat.mod_eq_of_lt hsmall] at hfield
    exact hfield
  · rintro ⟨hpos, hfits⟩
    have hexact := (wrapped_quotient_iff product hpos hlt).mpr hfits
    constructor
    case noFault =>
      intro io
      rw [faultingUpdateAviHeader_some (htime hpos)]
      exact Option.some_ne_none _
    case fields =>
      intro io s' hrun
      rw [faultingUpdateAviHeader_some (htime hpos)] at hrun
      have hwords := timedPatches_words (headerSteps_success (Option.some.inj hrun))
      rw [Nat.mod_eq_of_lt hsmall, hexact] at hwords
      exact hwords

/-! ## The two closes -/

/-- The statements of `avi_add_index` in front of `update_avi_header`. -/
def addIndexSteps (io : CloseIo) : List (AviFile → Bool × AviFile) :=
  [checkSd (io.sdOk 1),
    fun s => s.writeFile (le32 fccIdx1) 4 io.idx1,
    flushPending io,
    fun s => (true, { s with preIndexPos := 0 }),
    fun s => s.writeFile (le32 (16 * s.indexCount)) 4 io.idxSize,
    fun s => (true, { s with idxfile := s.idxfile.fseek 0 }),
    fun s => copyIndex io 0 s.indexCount s]

/-- What both closes do to a recording with frames, `rest` being what they do differently behind
`avi_add_index`. -/
def closeSteps (io : CloseIo) (rest : List (AviFile → Option (Bool × AviFile))) :
    List (AviFile → Option (Bool × AviFile)) :=
  (flushRest io :: addIndexSteps io).map safe ++ faultingUpdateAviHeader io :: rest

/-- The frame of both closes. -/
def faultingClose (rest : List (AviFile → Option (Bool × AviFile))) (s : AviFile) (io : CloseIo) :
    Option (ℤ × AviFile) :=
  if io.sdOk 0 = false then some (-1, s)
  else if s.newFlag = false then
    match runFaulting (closeSteps io rest) s with
    | none => none
    | some (false, s) => some (-1, s)
    | some (true, s) => some (0, { s with preIndexPos := 0 })
  else some (0, { s with preIndexPos := 0 })

/-- `avi_record_nornal_close` -/
def faultingNornalClose (s : AviFile) (io : CloseIo) : Option (ℤ × AviFile) :=
  faultingClose [safe fun s => (io.removeOk, s), safe (renameFinished io)] s io

/-- The renaming of an event recording.  There is no result where the source uses a null
pointer. -/
def renameEvent (stop : ℕ) (io : CloseIo) (s : AviFile) : Option (Bool × AviFile) :=
  (eventFileName s.filename.toList stop).map fun newname =>
    (io.renameOk, { s with filename := String.ofList newname })

/-- `avi_record_event_close`; `stop` is `file_info.stop`. -/
def faultingEventClose (s : AviFile) (stop : ℕ) (io : CloseIo) : Option (ℤ × AviFile) :=
  faultingClose [renameEvent stop io] s io

/-- The handle with which a close calls `update_avi_header`; none when it returns before. -/
def headerCall (io : CloseIo) (s : AviFile) : Option AviFile :=
  if io.sdOk 0 = false ∨ s.newFlag = true then none
  else
    match runSteps (flushRest io :: addIndexSteps io) s with
    | (false, _) => none
    | (true, s) => some s

/-- A close that calls `update_avi_header` goes on from there. -/
theorem faultingClose_call {io : CloseIo} {s s' : AviFile} (h : headerCall io s = some s')
    (rest : List (AviFile → Option (Bool × AviFile))) :
    faultingClose rest s io =
      match runFaulting (faultingUpdateAviHeader io :: rest) s' with
      | none => none
      | some (false, s) => some (-1, s)
      | some (true, s) => some (0, { s with preIndexPos := 0 }) := by
  unfold headerCall at h
  split at h
  · cases h
  · rename_i hcalls
    push Not at hcalls
    rw [faultingClose, if_neg hcalls.1, if_pos (by simpa using hcalls.2), closeSteps,
      runFaulting_append]
    rcases hrun : runSteps (flushRest io :: addIndexSteps io) s with ⟨_ | _, s''⟩
    · rw [hrun] at h
      cases h
    · rw [hrun] at h
      obtain rfl : s'' = s' := Option.some.inj h
      rfl

/-- A close that does not call it returns. -/
theorem faultingClose_returns {io : CloseIo} {s : AviFile} (h : headerCall io s = none)
    (rest : List (AviFile → Option (Bool × AviFile))) : faultingClose rest s io ≠ none := by
  unfold headerCall at h
  rw [faultingClose]
  split
  · exact Option.some_ne_none _
  · rename_i hsd
    split
    · rename_i hnew
      rw [if_neg (by simp [hsd, hnew])] at h
      rw [closeSteps, runFaulting_append]
      rcases hrun : runSteps (flushRest io :: addIndexSteps io) s with ⟨_ | _, s''⟩
      · exact Option.some_ne_none _
      · rw [hrun] at h
        cases h
    · exact Option.some_ne_none _

/-! ## What does not change before the call -/

/-- The fields of the handle the time fields are computed from. -/
def AviFile.timing (s : AviFile) : ℕ × ℕ := (s.duration, s.videoCount)

theorem flushPending_timing (io : CloseIo) (s : AviFile) :
    (flushPending io s).2.timing = s.timing := by
  unfold flushPending
  split <;> rfl

/-- The handle `update_avi_header` is called with has the duration and the counter of the one that
is closed. -/
theorem headerCall_timing {io : CloseIo} {s s' : AviFile} (h : headerCall io s = some s') :
    s'.timing = s.timing := by
  have hsteps := runSteps_preserves AviFile.timing (flushRest io :: addIndexSteps io)
    (by
      intro step hstep t
      simp only [addIndexSteps, List.mem_cons, List.not_mem_nil, or_false] at hstep
      rcases hstep with rfl | rfl | rfl | rfl | rfl | rfl | rfl | rfl
      case inl => exact flushRest_preserves AviFile.timing (fun _ _ _ _ => rfl) io t
      case inr.inr.inr.inl => exact flushPending_timing io t
      case inr.inr.inr.inr.inr.inr.inr => exact copyIndex_preserves AviFile.timing (fun _ _ _ => rfl) io _ 0 t
      all_goals rfl) s
  unfold headerCall at h
  split at h
  · cases h
  · rcases hrun : runSteps (flushRest io :: addIndexSteps io) s with ⟨_ | _, s''⟩
    · rw [hrun] at h
      cases h
    · rw [hrun] at h hsteps
      obtain rfl := Option.some.inj h
      exact hsteps

/-- The statements up to `avi_add_index`, in one sequence. -/
theorem addIndex_steps (io : CloseIo) (s : AviFile) :
    runSteps [flushRest io, aviAddIndex io] s
      = runSteps ((flushRest io :: addIndexSteps io) ++ [updateAviHeader io]) s := by
  have hadd : aviAddIndex io = runSteps (addIndexSteps io ++ [updateAviHeader io]) := by
    funext s
    rfl
  rw [List.cons_append, runSteps, runSteps]
  rcases flushRest io s with ⟨_ | _, s'⟩
  · rfl
  · show runSteps _ s' = runSteps _ s'
    rw [runSteps, hadd]
    rcases runSteps (addIndexSteps io ++ [updateAviHeader io]) s' with ⟨_ | _, s''⟩ <;> rfl

/-- As long as the counter has not wrapped the divisions change nothing. -/
theorem closeSteps_eq {s : AviFile} (hpos : 0 < s.videoCount) (hlt : s.videoCount < 4294967296)
    {io : CloseIo} (hsd : ¬ io.sdOk 0 = false) (hnew : s.newFlag = false)
    (rest : List (AviFile → Option (Bool × AviFile))) :
    runFaulting (closeSteps io rest) s =
      match runSteps [flushRest io, aviAddIndex io] s with
      | (false, s) => some (false, s)
      | (true, s) => runFaulting rest s := by
  rw [closeSteps, runFaulting_append, addIndex_steps, runSteps_append]
  rcases hrun : runSteps (flushRest io :: addIndexSteps io) s with ⟨_ | _, s'⟩
  · rfl
  · have hcall : headerCall io s = some s' := by
      rw [headerCall, if_neg (by simp [hsd, hnew]), hrun]
    have hcount : s'.videoCount = s.videoCount := congrArg Prod.snd (headerCall_timing hcall)
    dsimp only
    rw [runFaulting, runSteps, faultingUpdateAviHeader_eq io (by omega) (by omega)]
    rcases updateAviHeader io s' with ⟨_ | _, s''⟩ <;> rfl

/-- As long as the counter has not wrapped, `aviRecordNornalClose` is the close with its
divisions. -/
theorem faultingNornalClose_eq {s : AviFile} (hpos : 0 < s.videoCount)
    (hlt : s.videoCount < 4294967296) (io : CloseIo) :
    faultingNornalClose s io = some (aviRecordNornalClose s io) := by
  rw [faultingNornalClose, faultingClose, aviRecordNornalClose]
  by_cases hsd : io.sdOk 0 = false
  · rw [if_pos hsd, if_pos hsd]
  rw [if_neg hsd, if_neg hsd]
  by_cases hnew : s.newFlag = false
  · have hsplit := runSteps_append [flushRest io, aviAddIndex io]
      [fun s => (io.removeOk, s), renameFinished io] s
    rw [List.cons_append, List.cons_append, List.nil_append] at hsplit
    dsimp only
    rw [if_pos hnew, if_pos hnew, closeSteps_eq hpos hlt hsd hnew, hsplit]
    rcases runSteps [flushRest io, aviAddIndex io] s with ⟨_ | _, s'⟩
    · rfl
    · have hsafe := runFaulting_safe [fun s => (io.removeOk, s), renameFinished io] s'
      rw [List.map_cons, List.map_cons, List.map_nil] at hsafe
      dsimp only
      rw [hsafe]
      rcases runSteps [fun s => (io.removeOk, s), renameFinished io] s' with ⟨_ | _, s''⟩ <;> rfl
  · dsimp only
    rw [if_neg hnew, if_neg hnew]

/-- So is `aviRecordEventClose`. -/
theorem faultingEventClose_eq {s : AviFile} (hpos : 0 < s.videoCount)
    (hlt : s.videoCount < 4294967296) (stop : ℕ) (io : CloseIo) :
    faultingEventClose s stop io = aviRecordEventClose s stop io := by
  rw [faultingEventClose, faultingClose, aviRecordEventClose]
  by_cases hsd : io.sdOk 0 = false
  · rw [if_pos hsd, if_pos hsd]
  rw [if_neg hsd, if_neg hsd]
  by_cases hnew : s.newFlag = false
  · rw [if_pos hnew, if_pos hnew, closeSteps_eq hpos hlt hsd hnew]
    rcases runSteps [flushRest io, aviAddIndex io] s with ⟨_ | _, s'⟩
    · rfl
    · dsimp only
      rw [runFaulting, renameEvent]
      rcases eventFileName s'.filename.toList stop with _ | newname
      · rfl
      · cases hrename : io.renameOk <;> rfl
  · rw [if_neg hnew, if_neg hnew]

/-! ## Open recordings -/

/-- `avi_event_record_open`; `date` is the day in local time, as `YYYYMMDD`. -/
def aviEventRecordOpen (s : AviFile) (date : String) (io : OpenIo) : ℤ × AviFile :=
  let datePath := grdSdMountPoint ++ "/" ++ date
  let s := { s with
    dataOffset := 0, videoCount := 0, audioCount := 0, audioBytes := 0, indexCount := 0 }
  if recordIsFixedSize s.initParam.mode = false ∧ recordIsFixedDuration s.initParam.mode = false then
    (-1, s)
  else
    let opened :=
      runSteps
        [checkSd (io.sdOk 0), fun s => (io.dirOk, s),
          fun s => (true, { s with filename := datePath ++ "/" ++ toString s.start }),
          fun s => (io.fileOk, { s with file := .create }),
          fun s => (true, { s with idxfilename := grdSdMountPoint ++ "/" ++ toString s.start }),
          fun s => (io.idxOk, { s with idxfile := .create }),
          checkSd (io.sdOk 1),
          aviWriteHeader io] s
    match opened with
    | (false, s) => (-1, s)
    | (true, s) =>
        (0, { s with
          newFlag := true
          dataArray := memset s.dataArray 0 0 recBufSize
          bufOffset := 0
          bufIndex := 0 })

/-- `_record_event_start` -/
def recordEventStart (s : AviFile) (recordDuration frameRate : ℕ) (date : String) (io : OpenIo) :
    ℤ × AviFile :=
  let s := { s with initParam := { initRecParam with duration := recordDuration, fps := frameRate } }
  if 0 < recordDuration then aviEventRecordOpen s date io else (0, s)

/-- `local_duration`, the seconds of an event recording for the duration given to
`start_event_record_stream`. -/
def localDuration (duration : ℕ) : ℕ := if duration > 10 then duration else 10

namespace AviFile

/-- The handle of a recorder thread between a start that did not return -1 and the close. -/
inductive Open : AviFile → Prop
  | normal (s : AviFile) (start duration frameRate : ℕ) (date : String) (io : OpenIo)
      (h : 0 ≤ (recordNormalStart { s.clear with start := start }
        (RecordThread.recordSwitchTime duration) frameRate date io).1) :
      Open (recordNormalStart { s.clear with start := start }
        (RecordThread.recordSwitchTime duration) frameRate date io).2
  | event (s : AviFile) (start duration frameRate : ℕ) (date : String) (io : OpenIo)
      (h : 0 ≤ (recordEventStart { s.clear with start := start }
        (localDuration duration) frameRate date io).1) :
      Open (recordEventStart { s.clear with start := start }
        (localDuration duration) frameRate date io).2
  | write {s : AviFile} (h : Open s) (f : AviFrame) (io : WriteIo) :
      Open (aviRecordFrame s f io).2

/-- A recording with frames has a video frame; one without has an empty buffer. -/
structure Counted (s : AviFile) : Prop where
  recorded : s.newFlag = false → 0 < s.videoCount
  empty : s.newFlag = true → s.bufOffset = 0

theorem writeData_frame (s : AviFile) (io : WriteIo) :
    (s.writeData io).2.newFlag = s.newFlag ∧ (s.writeData io).2.videoCount = s.videoCount := by
  unfold writeData writeIdxfile writeFile
  dsimp only
  split
  · rename_i heq
    obtain ⟨-, rfl⟩ := Prod.mk.inj heq
    exact ⟨rfl, rfl⟩
  · rename_i heq
    obtain ⟨-, rfl⟩ := Prod.mk.inj heq
    split
    · rename_i heq'
      obtain ⟨-, rfl⟩ := Prod.mk.inj heq'
      exact ⟨rfl, rfl⟩
    · rename_i heq'
      obtain ⟨-, rfl⟩ := Prod.mk.inj heq'
      exact ⟨rfl, rfl⟩

theorem store_frame (s : AviFile) (f : AviFrame) :
    ((s.storeChunk f).storeIndex f).newFlag = s.newFlag
      ∧ ((s.storeChunk f).storeIndex f).videoCount = s.videoCount + videoCountOf [f] := by
  rw [storeIndex_eq, storeChunk_eq]
  exact ⟨rfl, rfl⟩

/-- A frame is stored with the recording open before and after; the counter only grows. -/
theorem storeFrame_frame (s : AviFile) (f : AviFrame) (io : WriteIo) :
    (s.storeFrame f io).2.newFlag = s.newFlag
      ∧ s.videoCount ≤ (s.storeFrame f io).2.videoCount := by
  obtain ⟨hnew, hcount⟩ := s.store_frame f
  unfold storeFrame
  split
  · obtain ⟨hnew', hcount'⟩ := s.writeData_frame io
    exact ⟨hnew', hcount'.ge⟩
  · split
    · obtain ⟨hnew', hcount'⟩ := ((s.storeChunk f).storeIndex f).writeData_frame io
      dsimp only
      split
      · rw [hnew', hcount', hnew, hcount]
        exact ⟨rfl, Nat.le_add_right _ _⟩
      · rw [hnew, hcount]
        exact ⟨rfl, Nat.le_add_right _ _⟩
    · exact ⟨rfl, le_refl _⟩

/-- The key frame that opens the recording is counted, unless the call fails. -/
theorem storeFrame_first {s : AviFile} (h : s.bufOffset = 0) {f : AviFrame} (hkey : f.IsKey)
    (io : WriteIo) : (s.storeFrame f io).1 = -1 ∨ 0 < (s.storeFrame f io).2.videoCount := by
  have hone : videoCountOf [f] = 1 := by simp [videoCountOf, hkey.isVideo]
  obtain ⟨-, hcount⟩ := s.store_frame f
  unfold storeFrame
  split
  · -- nothing is flushed from an empty buffer
    left
    exact (writeData_fst s io).1 (Or.inr (Or.inr (Or.inl h)))
  · right
    rw [if_pos (Or.inl hkey.isVideo)]
    obtain ⟨-, hcount'⟩ := ((s.storeChunk f).storeIndex f).writeData_frame io
    dsimp only
    split
    · rw [hcount', hcount, hone]
      omega
    · rw [hcount, hone]
      omega

theorem failed_counted (s : AviFile) : s.failed.Counted where
  recorded h := absurd h (by simp [failed])
  empty _ := rfl

theorem opened_counted {s : AviFile} (hnew : s.newFlag = true) (hbuf : s.bufOffset = 0) :
    s.Counted where
  recorded h := absurd (hnew.symm.trans h) (by decide)
  empty _ := hbuf

end AviFile

/-- A call keeps the handle counted, or fails. -/
theorem aviWriteFrame_counted {s : AviFile} (h : s.Counted) (f : AviFrame) (io : WriteIo) :
    (aviWriteFrame s f io).1 < 0 ∨ (aviWriteFrame s f io).2.Counted := by
  have hopen : ∀ {t : AviFile}, t.newFlag = false → 0 < t.videoCount → t.Counted := by
    intro t hnew hcount
    exact ⟨fun _ => hcount, fun h => absurd (hnew.symm.trans h) (by decide)⟩
  unfold aviWriteFrame
  split
  · left
    exact neg_one_lt_zero
  · split
    · rename_i hnew
      split
      · rename_i hkey
        split
        · left
          exact neg_one_lt_zero
        · rcases AviFile.storeFrame_first (s := s.reopen) (h.empty hnew) hkey io with hret | hcount
          · left
            rw [hret]
            exact neg_one_lt_zero
          · right
            exact hopen (s.reopen.storeFrame_frame f io).1 hcount
      · right
        exact h
    · rename_i hnew
      have hnew' : s.newFlag = false := by simpa using hnew
      obtain ⟨hflag, hcount⟩ := s.storeFrame_frame f io
      right
      exact hopen (hflag.trans hnew') (lt_of_lt_of_le (h.recorded hnew') hcount)

theorem aviRecordFrame_counted {s : AviFile} (h : s.Counted) (f : AviFrame) (io : WriteIo) :
    (aviRecordFrame s f io).2.Counted := by
  have hwrite := aviWriteFrame_counted h f io
  unfold aviRecordFrame
  generalize aviWriteFrame s f io = result at hwrite ⊢
  obtain ⟨ret, s'⟩ := result
  show (if ret < 0 then (-1, s'.failed) else (ret, s')).2.Counted
  split
  · exact s'.failed_counted
  · rename_i hret
    exact hwrite.resolve_left hret

/-- After an open the file waits for its first key frame. -/
theorem aviNormalRecordOpen_counted {s : AviFile} {date : String} {io : OpenIo}
    (h : 0 ≤ (aviNormalRecordOpen s date io).1) : (aviNormalRecordOpen s date io).2.Counted := by
  have hneg : ¬ 0 ≤ (-1 : ℤ) := by decide
  unfold aviNormalRecordOpen at h ⊢
  dsimp only at h ⊢
  split at h
  · exact absurd h hneg
  · rename_i hmode
    rw [if_neg hmode]
    split at h
    · exact absurd h hneg
    · exact AviFile.opened_counted rfl rfl

theorem aviEventRecordOpen_counted {s : AviFile} {date : String} {io : OpenIo}
    (h : 0 ≤ (aviEventRecordOpen s date io).1) : (aviEventRecordOpen s date io).2.Counted := by
  have hneg : ¬ 0 ≤ (-1 : ℤ) := by decide
  unfold aviEventRecordOpen at h ⊢
  dsimp only at h ⊢
  split at h
  · exact absurd h hneg
  · rename_i hmode
    rw [if_neg hmode]
    split at h
    · exact absurd h hneg
    · exact AviFile.opened_counted rfl rfl

theorem localDuration_pos (duration : ℕ) : 0 < localDuration duration := by
  unfold localDuration
  split <;> omega

/-- Every open recording is counted. -/
theorem AviFile.Open.counted {s : AviFile} (h : s.Open) : s.Counted := by
  induction h with
  | normal s start duration frameRate date io h =>
    unfold recordNormalStart at h ⊢
    dsimp only at h ⊢
    rw [if_pos (RecordThread.recordSwitchTime_pos duration)] at h ⊢
    exact aviNormalRecordOpen_counted h
  | event s start duration frameRate date io h =>
    unfold recordEventStart at h ⊢
    dsimp only at h ⊢
    rw [if_pos (localDuration_pos duration)] at h ⊢
    exact aviEventRecordOpen_counted h
  | write h f io ih => exact aviRecordFrame_counted ih f io

/-- A recording with frames whose close does not fail gets as far as the header. -/
theorem headerCall_represents {io : CloseIo} (hio : io.AllOk) {hdr : List UInt8}
    (hhdr : hdr.length = sizeofAviHeader) {s : AviFile} {r : Recording} (h : Represents hdr s r)
    (hstart : r.started = true) : ∃ s', headerCall io s = some s' := by
  have hpos := h.positioned hstart
  have hnew : s.newFlag = false := by rw [h.newFlag, hstart]; rfl
  obtain ⟨file, hflush, hfile, hfp⟩ := flushRest_full hio hhdr h.stores hpos
  obtain ⟨s', hadd, -⟩ := aviAddIndex_full hio hhdr
    (s := { s with file := file, bufIndex := 0, bufOffset := 0 }) hfile hfp h.stores.idxfile
    h.stores.idxfilePos h.stores.idxArray h.stores.preIndexPos
    (by rw [List.length_append]; exact h.stores.indexCount) h.stores.videoCount
    h.stores.audioBytes hpos.dataOffset
  have hsteps : aviAddIndex io = runSteps (addIndexSteps io ++ [updateAviHeader io]) := by
    funext t
    rfl
  rw [hsteps, runSteps_append] at hadd
  rw [headerCall, if_neg (by simp [hio.sd 0, hnew]), runSteps_cons hflush]
  generalize runSteps (addIndexSteps io) _ = result at hadd ⊢
  rcases result with ⟨_ | _, s''⟩
  · exact absurd (congrArg Prod.fst hadd) Bool.false_ne_true
  · exact ⟨s'', rfl⟩

/-! ## The continuous recorder -/

namespace RecordThread

/-- The thread's handle while a segment is open. -/
def Opened (t : RecordThread) : Prop := t.startFlag = true → t.aviHandle.Open

theorem Opened.facing {t : RecordThread} (h : t.Opened) (duration : ℕ) (v : VideoRead)
    (p : RecordPass) : (t.facing duration v p).Opened := by
  unfold RecordThread.facing openSegment
  split
  · intro hstart
    apply AviFile.Open.normal
    simpa using hstart
  · exact h

theorem Opened.writeVideo {t : RecordThread} (h : t.Opened) (v : VideoRead) (io : WriteIo) :
    (t.writeVideo v io).Opened :=
  fun hstart => .write (h hstart) _ io

theorem Opened.writeAudio (as : List AudioRead) :
    ∀ {t : RecordThread}, t.Opened → (RecordThread.writeAudio as t).Opened := by
  induction as with
  | nil => intro t h; exact h
  | cons a as ih =>
    intro t h
    rw [RecordThread.writeAudio]
    split
    · apply ih
      exact fun hstart => .write (h hstart) _ a.io
    · exact h

theorem Opened.audioPart {t : RecordThread} (h : t.Opened) (p : RecordPass) :
    (t.audioPart p).Opened := by
  unfold RecordThread.audioPart
  split
  · exact Opened.writeAudio p.audio h
  · exact h

theorem Opened.pass {t : RecordThread} (h : t.Opened) (duration : ℕ) (p : RecordPass) :
    (t.pass duration p).Opened := by
  unfold RecordThread.pass
  split
  · exact h
  · split
    · exact h.audioPart p
    · rename_i v _
      have hfacing := h.facing duration v p
      dsimp only
      split
      · exact hfacing
      · split
        · exact fun hstart => absurd hstart Bool.false_ne_true
        · split
          · exact (hfacing.writeVideo v p.videoIo).audioPart p
          · exact hfacing

/-- In every run of the continuous recorder an open segment is an open recording. -/
theorem run_opened (duration : ℕ) (s : AviFile) (audioStamp : ℕ) (ps : List RecordPass) :
    ((start s audioStamp).run duration ps).Opened := by
  have hrun : ∀ t : RecordThread, t.Opened → (t.run duration ps).Opened := by
    induction ps with
    | nil => exact fun t h => h
    | cons p ps ih => exact fun t h => ih _ (h.pass duration p)
  exact hrun _ fun hstart => absurd hstart Bool.false_ne_true

/-- The first key frame of the thread is recorded. -/
theorem keyPass_records (duration : ℕ) {stamp : ℕ} (hstamp : stamp < 4294967296) (s : AviFile)
    (audioStamp : ℕ) :
    ∃ cur, Represents (segmentHeader duration)
        ((start s audioStamp).pass duration (keyPass stamp)).aviHandle cur
      ∧ cur.started = true ∧ videoCountOf cur.frames = 1 := by
  have hio := (keyPass_succeeds stamp).openIo
  set t := start s audioStamp with ht
  have hfacing := (start_books duration s audioStamp).facing (keyRead stamp) hio
  rw [← ht] at hfacing
  have hopen : (t.facing duration (keyRead stamp) (keyPass stamp)).startFlag = true :=
    (facing_startFlag duration t hio).mpr (Or.inr rfl)
  have hnone : ∀ u : RecordThread, u.audioPart (keyPass stamp) = u := by
    intro u
    unfold RecordThread.audioPart
    split <;> rfl
  have hpass : t.pass duration (keyPass stamp)
      = (t.facing duration (keyRead stamp) (keyPass stamp)).writeVideo (keyRead stamp) .ok := by
    rw [pass_some (v := keyRead stamp) rfl rfl hfacing.running,
      if_neg (keyPass_stays duration hstamp rfl), if_pos hopen, hnone]
    rfl
  obtain ⟨hbooks, hstart, hframes⟩ := hfacing.writeVideo hopen (v := keyRead stamp) (Or.inr rfl)
  rw [← hpass] at hbooks hstart
  have hroom : ¬ (t.facing duration (keyRead stamp) (keyPass stamp)).aviHandle.Overflows
      (videoFrame (t.facing duration (keyRead stamp) (keyPass stamp)) (keyRead stamp)) := by
    rw [(hfacing.represents hopen).stores.overflows_iff]
    exact fun ho => ho.pending_ne (videoFrame_ok _ _) rfl
  have hflag : (t.pass duration (keyPass stamp)).startFlag = true := by
    rw [hpass]
    exact hopen
  refine ⟨_, hbooks.represents hflag, hstart hflag, ?_⟩
  rw [hframes, if_neg hroom]
  rfl

/-- The recorder thread after a key frame at 0 ms. -/
def oneKeyFrame : RecordThread := (start .zero 0).run 15 [keyPass 0]

theorem oneKeyFrame_open : oneKeyFrame.aviHandle.Open :=
  run_opened 15 .zero 0 [keyPass 0]
    (keyPass_opens 15 (t := start .zero 0) (show 0 < 4294967296 by decide) rfl rfl).2.1

/-- The next key frame closes its segment, with the time between the two. -/
theorem oneKeyFrame_closes (duration : ℕ) : ∃ s', headerCall .ok
      { oneKeyFrame.aviHandle with duration := duration } = some s' ∧ s'.duration = duration
    ∧ s'.videoCount = 1 := by
  obtain ⟨cur, hrep, hstart, hcount⟩ :=
    keyPass_records 15 (show 0 < 4294967296 by decide) .zero 0
  have hrep' : Represents (segmentHeader 15)
      { oneKeyFrame.aviHandle with duration := duration } cur :=
    ⟨{ hrep.stores with }, hrep.newFlag, fun hs => { hrep.positioned hs with }⟩
  obtain ⟨s', hcall⟩ := headerCall_represents CloseIo.ok_allOk (segmentHeader_length 15) hrep' hstart
  have htiming := headerCall_timing hcall
  refine ⟨s', hcall, congrArg Prod.fst htiming, (congrArg Prod.snd htiming).trans ?_⟩
  exact hrep.stores.videoCount.trans hcount

end RecordThread

/-! ## Every recording -/

/-- A close of an open recording, with the duration it is given: the time fields are exact if and
only if the duration is at most 4294967 ms and the counter has not come round to zero. -/
theorem header_timing_iff {s s' : AviFile} (hopen : s.Open) (duration : ℕ) {io : CloseIo}
    (hcall : headerCall io { s with duration := duration } = some s') :
    HeaderTiming s' ↔ duration ≤ 4294967 ∧ ∀ k, s.videoCount ≠ (k + 1) * 4294967296 := by
  have htiming := headerCall_timing hcall
  have hduration : s'.duration = duration := congrArg Prod.fst htiming
  have hcount : s'.videoCount = s.videoCount := congrArg Prod.snd htiming
  have hnew : s.newFlag = false := by
    unfold headerCall at hcall
    split at hcall
    · cases hcall
    · rename_i hcalls
      push Not at hcalls
      simpa using hcalls.2
  have hpos := hopen.counted.recorded hnew
  rw [headerTiming_iff, hduration, hcount, and_comm]
  refine and_congr_right fun _ => ?_
  constructor
  · intro hword k hk
    rw [hk, Nat.mul_mod_left] at hword
    exact absurd hword (lt_irrefl 0)
  · intro hround
    by_contra hzero
    have hdiv := Nat.div_add_mod s.videoCount 4294967296
    apply hround (s.videoCount / 4294967296 - 1)
    omega

namespace RecordThread

/-- A segment of 15 s. -/
theorem header_timing_short : ∃ s', headerCall .ok
      { oneKeyFrame.aviHandle with duration := 15000 } = some s' ∧ HeaderTiming s' := by
  obtain ⟨s', hcall, -, hcount⟩ := oneKeyFrame_closes 15000
  have hcount' : oneKeyFrame.aviHandle.videoCount = 1 :=
    (congrArg Prod.snd (headerCall_timing hcall)).symm.trans hcount
  refine ⟨s', hcall, (header_timing_iff oneKeyFrame_open 15000 hcall).mpr ⟨by decide, ?_⟩⟩
  intro k
  rw [hcount']
  omega

/-- With the next key frame at 4294968 ms the segment is closed, and its time fields are wrong. -/
theorem header_timing_wrong :
    (oneKeyFrame.facing 15 (keyRead 4294968) (keyPass 4294968)).Rotates (keyRead 4294968)
      ∧ ∃ s', headerCall .ok { oneKeyFrame.aviHandle with
          duration := timevalDiffMs oneKeyFrame.startRecMs 4294968 } = some s'
        ∧ ¬ HeaderTiming s' := by
  obtain ⟨-, hopen, hstart, -, hdur⟩ := keyPass_opens 15 (t := start .zero 0)
    (show 0 < 4294967296 by decide) rfl rfl
  have hstart' : oneKeyFrame.startRecMs = 0 := hstart
  constructor
  · have hface : oneKeyFrame.facing 15 (keyRead 4294968) (keyPass 4294968)
        = { oneKeyFrame with ullMediaVideoMs := 4294968 } :=
      facing_else fun hc => absurd (hc.1.symm.trans hopen) Bool.false_ne_true
    rw [hface]
    refine ⟨hopen, rfl, ?_⟩
    show oneKeyFrame.aviHandle.initParam.duration * 1000
      ≤ (4294968 + 18446744073709551616 - oneKeyFrame.startRecMs) % 18446744073709551616
    rw [hstart', show oneKeyFrame.aviHandle.initParam.duration = _ from hdur]
    decide
  · rw [hstart', show timevalDiffMs 0 4294968 = 4294968 by decide]
    obtain ⟨s', hcall, hduration, -⟩ := oneKeyFrame_closes 4294968
    refine ⟨s', hcall, fun h => ?_⟩
    have hbound := ((headerTiming_iff s').mp h).2
    omega

end RecordThread
