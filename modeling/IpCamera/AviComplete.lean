/-
# Which recordings are complete

Every frame whose call returned 0 should be in the finished file.  The record
buffer is flushed after `dataSaveNum` frames, or when the next frame does not fit
behind the frames it holds; in the second case that frame is lost although its
call returns 0.  So a recording is complete exactly when every group of
`dataSaveNum` frames, counted from the first key frame, fits the buffer as a whole
(`GroupsFit`): `recording_complete_iff`.
-/
import IpCamera.AviClose

/-! ## Groups of frames -/

/-- The frames from the first key frame on. -/
def fromKey (fs : List AviFrame) : List AviFrame := fs.dropWhile fun f => ¬ f.IsKey

/-- Each group of `dataSaveNum` frames fits the record buffer. -/
def GroupsFit (fs : List AviFrame) : Prop :=
  ∀ k, moviSize ((fs.drop (dataSaveNum * k)).take dataSaveNum) ≤ recBufSize

/-- The frames of the last, incomplete group. -/
def lastGroup (fs : List AviFrame) : List AviFrame :=
  fs.drop (dataSaveNum * (fs.length / dataSaveNum))

theorem lastGroup_length (fs : List AviFrame) :
    (lastGroup fs).length = fs.length % dataSaveNum := by
  rw [lastGroup, List.length_drop]
  have := Nat.div_add_mod fs.length dataSaveNum
  omega

theorem lastGroup_concat (fs : List AviFrame) (f : AviFrame) :
    lastGroup (fs ++ [f])
      = if (lastGroup fs).length + 1 = dataSaveNum then [] else lastGroup fs ++ [f] := by
  have hdiv := Nat.div_add_mod fs.length dataSaveNum
  have hmod : fs.length % dataSaveNum < dataSaveNum := Nat.mod_lt _ (by decide)
  rw [lastGroup_length]
  unfold lastGroup
  rw [List.length_append, List.length_singleton]
  split
  · rename_i hfull
    have hq : (fs.length + 1) / dataSaveNum = fs.length / dataSaveNum + 1 := by
      unfold dataSaveNum at *
      omega
    apply List.drop_of_length_le
    rw [hq, Nat.mul_add, List.length_append, List.length_singleton]
    omega
  · have hq : (fs.length + 1) / dataSaveNum = fs.length / dataSaveNum := by
      unfold dataSaveNum at *
      omega
    rw [hq, List.drop_append_of_le_length (by omega)]

/-- One frame more concerns the last group only. -/
theorem groupsFit_concat (fs : List AviFrame) (f : AviFrame) :
    GroupsFit (fs ++ [f])
      ↔ GroupsFit fs ∧ moviSize (lastGroup fs) + f.chunkSize ≤ recBufSize := by
  have hdiv := Nat.div_add_mod fs.length dataSaveNum
  have hmod : fs.length % dataSaveNum < dataSaveNum := Nat.mod_lt _ (by decide)
  set q := fs.length / dataSaveNum with hq
  -- the last group takes the new frame
  have hlast : ((fs ++ [f]).drop (dataSaveNum * q)).take dataSaveNum = lastGroup fs ++ [f] := by
    rw [List.drop_append_of_le_length (by omega)]
    apply List.take_of_length_le
    have := lastGroup_length fs
    rw [lastGroup, ← hq] at this
    rw [List.length_append, this, List.length_singleton]
    omega
  have hown : (fs.drop (dataSaveNum * q)).take dataSaveNum = lastGroup fs := by
    apply List.take_of_length_le
    have := lastGroup_length fs
    rw [lastGroup, ← hq] at this
    omega
  -- the groups before it stay as they are
  have hbefore : ∀ k < q, ((fs ++ [f]).drop (dataSaveNum * k)).take dataSaveNum
      = (fs.drop (dataSaveNum * k)).take dataSaveNum := by
    intro k hk
    have hle : dataSaveNum * k + dataSaveNum ≤ fs.length := by
      have := Nat.mul_le_mul_left dataSaveNum (show k + 1 ≤ q by omega)
      rw [Nat.mul_add, Nat.mul_one] at this
      omega
    rw [List.drop_append_of_le_length (by omega),
      List.take_append_of_le_length (by rw [List.length_drop]; omega)]
  -- behind it there is nothing, before and after
  have hafter : ∀ k, q < k → (fs ++ [f]).drop (dataSaveNum * k) = []
      ∧ fs.drop (dataSaveNum * k) = [] := by
    intro k hk
    have hle : fs.length + 1 ≤ dataSaveNum * k := by
      have := Nat.mul_le_mul_left dataSaveNum (show q + 1 ≤ k by omega)
      rw [Nat.mul_add, Nat.mul_one] at this
      omega
    constructor <;> apply List.drop_of_length_le
    · rw [List.length_append, List.length_singleton]
      omega
    · omega
  constructor
  · intro h
    have hq' := h q
    rw [hlast, moviSize_append, moviSize_cons, moviSize_nil, Nat.add_zero] at hq'
    refine ⟨fun k => ?_, hq'⟩
    rcases lt_trichotomy k q with hk | rfl | hk
    · rw [← hbefore k hk]
      exact h k
    · rw [hown]
      omega
    · rw [(hafter k hk).2]
      exact Nat.zero_le _
  · rintro ⟨h, hroom⟩ k
    rcases lt_trichotomy k q with hk | rfl | hk
    · rw [hbefore k hk]
      exact h k
    · rw [hlast, moviSize_append, moviSize_cons, moviSize_nil]
      exact hroom
    · rw [(hafter k hk).1]
      exact Nat.zero_le _

/-! ## Recordings without a loss -/

namespace Recording

/-- Frames before the first key frame leave no trace. -/
theorem record_fromKey (fs : List AviFrame) : record fs = record (fromKey fs) := by
  induction fs with
  | nil => rfl
  | cons f fs ih =>
    by_cases hkey : f.IsKey
    · rw [fromKey, List.dropWhile_cons_of_neg (by simpa using hkey)]
    · rw [fromKey, List.dropWhile_cons_of_pos (by simpa using hkey)]
      have hadd : empty.add f = empty := by
        rw [add, if_pos ⟨rfl, hkey⟩]
      show fs.foldl add (empty.add f) = _
      rw [hadd]
      exact ih

/-- A list that begins with a key frame, if it begins. -/
def KeyFirst (fs : List AviFrame) : Prop := ∀ f gs, fs = f :: gs → f.IsKey

theorem keyFirst_fromKey (fs : List AviFrame) : KeyFirst (fromKey fs) := by
  intro f gs h
  have hhead : (fromKey fs).head? = some f := by rw [h]; rfl
  have := List.head?_dropWhile_not (fun f : AviFrame => decide (¬ f.IsKey)) fs
  rw [← fromKey, hhead] at this
  simpa using this

/-- The pending frames after a frame that is kept. -/
theorem add_pending {r : Recording} {f : AviFrame} (hacc : r.Accepts f) (ho : ¬ r.Overflows f) :
    (r.add f).pending
      = if r.pending.length + 1 = dataSaveNum then [] else r.pending ++ [f] := by
  rw [add, if_neg (fun h => (not_accepts_iff r f).mpr h hacc), dif_neg ho]
  split <;> rfl

/-- No frame is lost exactly when the groups fit; then the last group is what is pending. -/
theorem record_complete (fs : List AviFrame) (hkey : KeyFirst fs) :
    ((record fs).frames = fs ↔ GroupsFit fs)
      ∧ ((record fs).frames = fs → (record fs).pending = lastGroup fs) := by
  induction fs using List.reverseRecOn with
  | nil =>
    refine ⟨⟨fun _ k => ?_, fun _ => rfl⟩, fun _ => rfl⟩
    simp
  | append_singleton fs f ih =>
    have hkey' : KeyFirst fs := by
      intro g gs hg
      exact hkey g (gs ++ [f]) (by rw [hg]; rfl)
    obtain ⟨hiff, hlast⟩ := ih hkey'
    have hacc : (record fs).Accepts f := by
      cases hfs : fs with
      | nil => exact Or.inr (hkey f [] (by rw [hfs]; rfl))
      | cons g gs => exact Or.inl (record_started ⟨g, gs, rfl, hkey' g gs hfs⟩)
    have hsub := (record_sublist fs).length_le
    have hframes : (record (fs ++ [f])).frames = fs ++ [f]
        ↔ (record fs).frames = fs ∧ ¬ (record fs).Overflows f := by
      rw [record_concat, add_frames]
      by_cases ho : (record fs).Overflows f
      · rw [if_neg fun h => h.2 ho]
        refine ⟨fun h => ?_, fun h => absurd ho h.2⟩
        rw [h] at hsub
        simp at hsub
      · rw [if_pos ⟨hacc, ho⟩]
        exact ⟨fun h => ⟨List.append_cancel_right h, ho⟩, fun h => by rw [h.1]⟩
    have hroom : (record fs).frames = fs →
        (¬ (record fs).Overflows f ↔ moviSize (lastGroup fs) + f.chunkSize ≤ recBufSize) := by
      intro h
      unfold Overflows
      rw [hlast h]
      omega
    constructor
    · rw [hframes, groupsFit_concat, ← hiff]
      exact and_congr_right hroom
    · intro h
      obtain ⟨hfs, ho⟩ := hframes.mp h
      rw [record_concat, add_pending hacc ho, lastGroup_concat, hlast hfs]

end Recording

/-! ## The calls that return 0 -/

/-- Every call from the first key frame on returns 0. -/
theorem Represents.accepted {hdr : List UInt8} (hhdr : hdr.length = sizeofAviHeader)
    {fs : List AviFrame} (hok : ∀ f ∈ fs, f.Ok) :
    ∀ {s : AviFile} {r : Recording}, Represents hdr s r →
      s.accepted (okCalls fs) = if r.started = true then fs else fromKey fs := by
  induction fs with
  | nil => intro s r _; simp [okCalls, AviFile.accepted, fromKey]
  | cons f fs ih =>
    intro s r h
    obtain ⟨hret, hrep⟩ := h.write hhdr (hok f (by simp))
    have ih' := ih (fun g hg => hok g (by simp [hg])) hrep
    show (if (aviRecordFrame s f .ok).1 = 0
      then f :: AviFile.accepted (aviRecordFrame s f .ok).2 (okCalls fs)
      else AviFile.accepted (aviRecordFrame s f .ok).2 (okCalls fs)) = _
    rw [hret, ih']
    by_cases hacc : r.Accepts f
    · rw [if_pos hacc, if_pos rfl, if_pos ((r.add_started f).mpr hacc)]
      rcases hacc with hstart | hkey
      · rw [if_pos hstart]
      · rw [fromKey, List.dropWhile_cons_of_neg (by simpa using hkey), ite_self]
    · obtain ⟨hstart, hkey⟩ := (r.not_accepts_iff f).mp hacc
      have hidle : ¬ (r.add f).started = true := fun h => hacc ((r.add_started f).mp h)
      rw [if_neg hacc, if_neg (by decide), if_neg hidle, if_neg (by simp [hstart]), fromKey,
        fromKey, List.dropWhile_cons_of_pos (by simpa using hkey)]

/-! ## Complete recordings -/

/-- The file holds exactly the chunks of these frames, in order, and one index entry for each. -/
def HoldsFrames (file : StdioFile) (fs : List AviFrame) : Prop :=
  readMovi file = moviChunks fs ∧ readIndex file = indexFrom sizeofAviHeader fs

/-- A closed file of well-formed frames holds no other list of frames. -/
theorem holdsFrames_unique {file : StdioFile} {fs gs : List AviFrame}
    (hmovi : readMovi file = moviChunks fs)
    (hindex : readIndex file = indexFrom sizeofAviHeader fs) (hsub : fs.Sublist gs) :
    HoldsFrames file gs ↔ fs = gs := by
  constructor
  · rintro ⟨-, h⟩
    apply hsub.eq_of_length
    rw [hindex] at h
    simpa using congrArg List.length h
  · rintro rfl
    exact ⟨hmovi, hindex⟩

namespace RecordSession

variable {x : RecordSession}

theorem Succeeds.accepted (hx : x.Succeeds) (hok : ∀ f ∈ x.frames, f.Ok) (s : AviFile) :
    (x.opened s).accepted x.calls = fromKey x.frames := by
  rw [hx.calls_eq, (hx.opened_represents s).accepted x.header_length hok]
  exact if_neg (by decide)

/-- The accepted frames are in the file exactly when none of them was dropped. -/
theorem Succeeds.holdsFrames_iff (hx : x.Succeeds) (hok : ∀ f ∈ x.frames, f.Ok) (s : AviFile) :
    HoldsFrames (x.closed s).file ((x.opened s).accepted x.calls)
      ↔ (Recording.record (fromKey x.frames)).frames = fromKey x.frames := by
  obtain ⟨hmovi, hindex⟩ := hx.closed_read hok s
  rw [Recording.record_fromKey] at hmovi hindex
  rw [hx.accepted hok s]
  exact holdsFrames_unique hmovi hindex (Recording.record_sublist _)

end RecordSession

/-- The frames whose calls return 0 are in the finished file, each once and in order, with one index
entry each, exactly when every group of `dataSaveNum` frames from the first key frame on fits the
record buffer. -/
theorem recording_complete_iff (x : RecordSession) (s : AviFile) (hx : x.Succeeds)
    (hok : ∀ f ∈ x.frames, f.Ok) :
    HoldsFrames (x.closed s).file ((x.opened s).accepted x.calls) ↔ GroupsFit (fromKey x.frames) := by
  rw [hx.holdsFrames_iff hok s]
  exact (Recording.record_complete _ (Recording.keyFirst_fromKey _)).1

/-- A short recording always fits. -/
theorem groupsFit_of_total {fs : List AviFrame} (h : moviSize fs ≤ recBufSize) : GroupsFit fs := by
  intro k
  have hsub : ((fs.drop (dataSaveNum * k)).take dataSaveNum).Sublist fs :=
    (List.take_sublist _ _).trans (List.drop_sublist _ _)
  exact ((hsub.map AviFrame.chunkSize).sum_le_sum (by simp)).trans h

theorem recording_complete_small :
    HoldsFrames ((RecordSession.ofFrames RecordSession.sampleFrames).closed .zero).file
      (((RecordSession.ofFrames RecordSession.sampleFrames).opened .zero).accepted
        (RecordSession.ofFrames RecordSession.sampleFrames).calls) := by
  apply (recording_complete_iff (.ofFrames RecordSession.sampleFrames) .zero
    (RecordSession.ofFrames_succeeds _) RecordSession.sampleFrames_ok).mpr
  apply groupsFit_of_total
  decide

/-- A key frame of `n` bytes. -/
def keyFrame (n : ℕ) : AviFrame := ⟨List.replicate n 0, 1, (0, 0)⟩

theorem keyFrame_key (n : ℕ) : (keyFrame n).IsKey := Or.inl rfl

theorem keyFrame_chunkSize (n : ℕ) : (keyFrame n).chunkSize = 8 + n + n % 2 + 16 := by
  simp [AviFrame.chunkSize, AviFrame.isAlign, keyFrame]

theorem keyFrame_ok {n : ℕ} (h : 8 + n + n % 2 + 16 ≤ recBufSize) : (keyFrame n).Ok :=
  ⟨Or.inl (Or.inl rfl), by rwa [keyFrame_chunkSize]⟩

/-- A frame of 300000 bytes. -/
def bigFrame : AviFrame := keyFrame 300000

/-- Of two such frames the second is lost, although both calls return 0. -/
theorem recording_incomplete :
    (RecordSession.ofFrames [bigFrame, bigFrame]).Succeeds
      ∧ (∀ f ∈ (RecordSession.ofFrames [bigFrame, bigFrame]).frames, f.Ok)
      ∧ ((RecordSession.ofFrames [bigFrame, bigFrame]).opened .zero).accepted
          (okCalls [bigFrame, bigFrame]) = [bigFrame, bigFrame]
      ∧ ¬ HoldsFrames ((RecordSession.ofFrames [bigFrame, bigFrame]).closed .zero).file
          [bigFrame, bigFrame] := by
  have hx := RecordSession.ofFrames_succeeds [bigFrame, bigFrame]
  have hok : ∀ f ∈ (RecordSession.ofFrames [bigFrame, bigFrame]).frames, f.Ok := by
    rw [RecordSession.ofFrames_frames]
    intro f hf
    obtain rfl : f = bigFrame := by simpa using hf
    exact keyFrame_ok (by decide)
  have hkey : bigFrame.IsKey := keyFrame_key 300000
  have hfrom : fromKey [bigFrame, bigFrame] = [bigFrame, bigFrame] :=
    List.dropWhile_cons_of_neg (by simpa using hkey)
  have hacc := hx.accepted hok .zero
  rw [RecordSession.ofFrames_frames, hfrom] at hacc
  have hiff := hx.holdsFrames_iff hok .zero
  rw [RecordSession.ofFrames_frames, hfrom, hacc] at hiff
  refine ⟨hx, hok, hacc, fun h => ?_⟩
  have hfit := (Recording.record_complete _ (Recording.keyFirst_fromKey _)).1.mp
    (by rw [hfrom]; exact hiff.mp h)
  rw [hfrom] at hfit
  have h₀ := hfit 0
  rw [Nat.mul_zero, List.drop_zero, List.take_of_length_le (by simp [dataSaveNum]),
    moviSize_cons, moviSize_cons, moviSize_nil, bigFrame, keyFrame_chunkSize] at h₀
  exact absurd h₀ (by decide)
