/-
# Failing file operations

`avi_record_write` answers a failure by clearing the record buffer and asking for
the file to be opened again.  The counters, the pending index entries and what is
already in the file stay as they are, so the handle is consistent afterwards only
when nothing had been recorded yet (`EmptyFailures`): `failures_consistent`.

`AviFile.Fails` says in terms of the handle before the call and of the outcomes of
its file operations when a call returns -1 (`aviRecordFrame_fails_iff`).
-/
import IpCamera.AviComplete

/-! ## When a call fails -/

/-- A flush of `entries` entries and `bytes` bytes fails: one of its writes does, or has nothing to
write. -/
def FlushFails (entries bytes : ℕ) (io : WriteIo) : Prop :=
  entries = 0 ∨ io.idxWrite ≠ .full ∨ bytes = 0 ∨ io.dataWrite ≠ .full

namespace AviFile

/-- The frame cannot be dealt with once the recording is open. -/
def StoreFails (s : AviFile) (f : AviFrame) (io : WriteIo) : Prop :=
  (s.Overflows f ∧ FlushFails s.preIndexPos s.bufOffset io)
    ∨ (¬ s.Overflows f ∧ ¬ (f.IsVideo ∨ f.IsAudio))
    ∨ (¬ s.Overflows f ∧ (f.IsVideo ∨ f.IsAudio) ∧ s.bufIndex + 1 = dataSaveNum
      ∧ FlushFails (s.preIndexPos + 1) (s.bufOffset + f.chunkSize) io)

/-- The call returns -1. -/
def Fails (s : AviFile) (f : AviFrame) (io : WriteIo) : Prop :=
  io.sdOk = false
    ∨ ((s.newFlag = true → f.IsKey)
      ∧ ((s.newFlag = true ∧ io.openOk = false) ∨ s.StoreFails f io))

end AviFile

theorem StdioFile.fwrite_fst (f : StdioFile) (src : ℕ → UInt8) (n : ℕ) (o : WriteOutcome) :
    (f.fwrite src n o).1 = true ↔ n ≠ 0 ∧ o = .full := by
  cases o with
  | full => simp [StdioFile.fwrite]
  | short k => simp [StdioFile.fwrite]

/-- A flush returns -1 when it fails and 0 otherwise. -/
theorem writeData_fst (s : AviFile) (io : WriteIo) :
    (FlushFails s.preIndexPos s.bufOffset io → (s.writeData io).1 = -1)
      ∧ (¬ FlushFails s.preIndexPos s.bufOffset io → (s.writeData io).1 = 0) := by
  set count := if s.preIndexPos > dataSaveNum then dataSaveNum else s.preIndexPos with hcount
  have hzero : count * oneIndexSize ≠ 0 ↔ s.preIndexPos ≠ 0 := by
    rw [hcount]
    unfold oneIndexSize dataSaveNum
    split <;> omega
  have hidx := s.idxfile.fwrite_fst s.idxArray (count * oneIndexSize) io.idxWrite
  have hdata := s.file.fwrite_fst s.dataArray s.bufOffset io.dataWrite
  rw [hzero] at hidx
  unfold AviFile.writeData AviFile.writeIdxfile AviFile.writeFile FlushFails
  simp only [← hcount]
  rcases h₁ : s.idxfile.fwrite s.idxArray (count * oneIndexSize) io.idxWrite with ⟨ok₁, idxfile⟩
  rcases h₂ : s.file.fwrite s.dataArray s.bufOffset io.dataWrite with ⟨ok₂, file⟩
  rw [h₁] at hidx
  rw [h₂] at hdata
  cases ok₁ with
  | false =>
    refine ⟨fun _ => rfl, fun h => ?_⟩
    have : ¬ (s.preIndexPos ≠ 0 ∧ io.idxWrite = .full) := fun h => by simpa using hidx.mpr h
    tauto
  | true =>
    simp only [h₂]
    cases ok₂ with
    | false =>
      refine ⟨fun _ => rfl, fun h => ?_⟩
      have : ¬ (s.bufOffset ≠ 0 ∧ io.dataWrite = .full) := fun h => by simpa using hdata.mpr h
      tauto
    | true =>
      refine ⟨fun h => ?_, fun _ => rfl⟩
      have h₃ := hidx.mp rfl
      have h₄ := hdata.mp rfl
      tauto

/-- A flush that does not fail is one whose writes all succeed. -/
theorem writeData_ok {s : AviFile} {io : WriteIo}
    (h : ¬ FlushFails s.preIndexPos s.bufOffset io) : s.writeData io = s.writeData .ok := by
  unfold FlushFails at h
  push Not at h
  obtain ⟨-, hidx, -, hdata⟩ := h
  unfold AviFile.writeData
  rw [hidx, hdata]
  rfl

/-- The buffer and the pending entries after a frame is stored. -/
theorem store_counts (s : AviFile) (f : AviFrame) :
    ((s.storeChunk f).storeIndex f).bufIndex = s.bufIndex + 1
      ∧ ((s.storeChunk f).storeIndex f).bufOffset = s.bufOffset + f.chunkSize
      ∧ ((s.storeChunk f).storeIndex f).preIndexPos = s.preIndexPos + 1 := by
  rw [storeIndex_eq, storeChunk_eq]
  exact ⟨rfl, rfl, rfl⟩

theorem storeFrame_fst (s : AviFile) (f : AviFrame) (io : WriteIo) :
    (s.StoreFails f io → (s.storeFrame f io).1 = -1)
      ∧ (¬ s.StoreFails f io → (s.storeFrame f io).1 = 0) := by
  obtain ⟨hindex, hoffset, hpre⟩ := store_counts s f
  have hflush := writeData_fst ((s.storeChunk f).storeIndex f) io
  rw [hoffset, hpre] at hflush
  unfold AviFile.storeFrame AviFile.StoreFails
  by_cases ho : s.Overflows f
  · rw [if_pos ho]
    have := writeData_fst s io
    simp only [ho, not_true_eq_false, false_and, or_false, true_and]
    exact this
  · rw [if_neg ho]
    by_cases hkind : f.IsVideo ∨ f.IsAudio
    · rw [if_pos hkind]
      simp only [ho, hkind, not_true_eq_false, not_false_eq_true, false_and, and_false, false_or,
        true_and, hindex]
      by_cases hfull : s.bufIndex + 1 = dataSaveNum
      · rw [if_pos hfull]
        simp only [hfull, true_and]
        exact hflush
      · rw [if_neg hfull]
        exact ⟨fun h => absurd h.1 hfull, fun _ => rfl⟩
    · rw [if_neg hkind]
      exact ⟨fun _ => rfl, fun h => absurd (Or.inr (Or.inl ⟨ho, hkind⟩)) h⟩

/-- Where nothing fails, the outcomes might as well all be good. -/
theorem storeFrame_ok {s : AviFile} {f : AviFrame} {io : WriteIo} (h : ¬ s.StoreFails f io) :
    s.storeFrame f io = s.storeFrame f .ok := by
  obtain ⟨hindex, hoffset, hpre⟩ := store_counts s f
  unfold AviFile.StoreFails at h
  push Not at h
  obtain ⟨h₁, h₂, h₃⟩ := h
  unfold AviFile.storeFrame
  by_cases ho : s.Overflows f
  · rw [if_pos ho, if_pos ho, writeData_ok (h₁ ho)]
  · have hkind := h₂ ho
    rw [if_neg ho, if_neg ho, if_pos hkind, if_pos hkind]
    simp only [hindex]
    by_cases hfull : s.bufIndex + 1 = dataSaveNum
    · rw [if_pos hfull, if_pos hfull]
      apply writeData_ok
      rw [hoffset, hpre]
      exact h₃ ho hkind hfull
    · rw [if_neg hfull, if_neg hfull]

theorem reopen_storeFails (s : AviFile) (f : AviFrame) (io : WriteIo) :
    s.reopen.StoreFails f io ↔ s.StoreFails f io := Iff.rfl

theorem recordResult_fst (p : ℤ × AviFile) :
    (recordResult p).1 = if p.1 < 0 then -1 else p.1 := by
  obtain ⟨ret, s⟩ := p
  show (if ret < 0 then (-1, s.failed) else (ret, s) : ℤ × AviFile).1 = _
  split <;> rfl

/-- A call returns -1 exactly when it fails in the sense of `Fails`. -/
theorem aviRecordFrame_fails_iff (s : AviFile) (f : AviFrame) (io : WriteIo) :
    (aviRecordFrame s f io).1 = -1 ↔ s.Fails f io := by
  have hstore : ∀ s' : AviFile, (s'.StoreFails f io ↔ s.StoreFails f io) →
      ((recordResult (s'.storeFrame f io)).1 = -1 ↔ s.StoreFails f io) := by
    intro s' hs'
    rw [recordResult_fst, ← hs']
    by_cases h : s'.StoreFails f io
    · simp [(storeFrame_fst s' f io).1 h, h]
    · simp [(storeFrame_fst s' f io).2 h, h]
  unfold aviRecordFrame aviWriteFrame AviFile.Fails
  by_cases hsd : io.sdOk = false
  · simp [hsd, recordResult]
  · rw [if_neg hsd]
    simp only [hsd]
    by_cases hnew : s.newFlag = true
    · rw [if_pos hnew]
      by_cases hkey : f.IsKey
      · rw [if_pos hkey]
        by_cases hopen : io.openOk = false
        · simp [hopen, hkey, hnew, recordResult]
        · rw [if_neg hopen, hstore s.reopen (reopen_storeFails s f io)]
          simp [hnew, hkey, hopen]
      · rw [if_neg hkey]
        simp [hnew, hkey, recordResult]
    · rw [if_neg hnew, hstore s Iff.rfl]
      simp [hnew]

theorem aviRecordFrame_ok {s : AviFile} {f : AviFrame} {io : WriteIo} (h : ¬ s.Fails f io) :
    aviRecordFrame s f io = aviRecordFrame s f .ok := by
  unfold AviFile.Fails at h
  push Not at h
  obtain ⟨hsd, hrest⟩ := h
  unfold aviRecordFrame aviWriteFrame
  rw [if_neg hsd, if_neg (show ¬ WriteIo.ok.sdOk = false by decide)]
  by_cases hnew : s.newFlag = true
  · rw [if_pos hnew, if_pos hnew]
    by_cases hkey : f.IsKey
    · obtain ⟨hopen, hstore⟩ := hrest fun _ => hkey
      rw [if_pos hkey, if_pos hkey, if_neg (hopen hnew),
        if_neg (show ¬ WriteIo.ok.openOk = false by decide),
        storeFrame_ok (s := s.reopen) hstore]
    · rw [if_neg hkey, if_neg hkey]
  · obtain ⟨-, hstore⟩ := hrest fun h => absurd h hnew
    rw [if_neg hnew, if_neg hnew, storeFrame_ok hstore]

/-! ## Calls on a handle that has recorded nothing -/

section Empty

variable {hdr : List UInt8} {s : AviFile}

/-- A handle without recorded frames, cleared, is as after the open. -/
theorem Stores.failed_represents (h : Stores hdr s [] []) :
    Represents hdr s.failed .empty where
  stores := { h with
    buffer := Filled.clear _ _
    bufOffset := rfl
    bufIndex := rfl }
  newFlag := rfl
  positioned h := absurd h (by decide)

/-- An `fwrite` of nothing returns 0 and changes nothing. -/
theorem StdioFile.fwrite_zero (f : StdioFile) (src : ℕ → UInt8) (o : WriteOutcome) :
    f.fwrite src 0 o = (false, f.put src 0) := by
  cases o with
  | full => rfl
  | short k => simp [StdioFile.fwrite]

/-- The flush of an empty handle fails at its first write. -/
theorem Stores.writeData_empty (h : Stores hdr s [] []) (io : WriteIo) :
    (s.writeData io).1 = -1 ∧ Stores hdr (s.writeData io).2 [] [] := by
  have hpre : s.preIndexPos = 0 := h.preIndexPos
  have hrun : s.writeData io
      = (-1, { s with bufIndex := 0, idxfile := s.idxfile.put s.idxArray 0 }) := by
    unfold AviFile.writeData AviFile.writeIdxfile
    simp only [hpre, Nat.zero_mul, StdioFile.fwrite_zero, show ¬ 0 > dataSaveNum by decide,
      if_false]
  have hpos : s.idxfile.pos = 0 := h.idxfilePos
  have hidx := h.idxfile.put (show s.idxfile.pos = ([] : List UInt8).length from hpos)
    s.idxArray 0
  rw [hrun]
  exact ⟨rfl, { h with idxfile := hidx, idxfilePos := hpos, bufIndex := rfl }⟩

/-- A failing call leaves an empty handle empty. -/
theorem storeFrame_empty (h : Stores hdr s [] []) {f : AviFrame} {io : WriteIo}
    (hfail : s.StoreFails f io) : Stores hdr (s.storeFrame f io).2 [] [] := by
  have hindex : s.bufIndex = 0 := h.bufIndex
  unfold AviFile.storeFrame
  by_cases ho : s.Overflows f
  · rw [if_pos ho]
    exact (h.writeData_empty io).2
  · rw [if_neg ho]
    by_cases hkind : f.IsVideo ∨ f.IsAudio
    · -- one frame alone never fills the buffer
      rcases hfail with hfail | hfail | hfail
      · exact absurd hfail.1 ho
      · exact absurd hkind hfail.2
      · have := hfail.2.2.1
        rw [hindex] at this
        exact absurd this (by decide)
    · rw [if_neg hkind]
      exact h

theorem recordResult_failed {p : ℤ × AviFile} (h : p.1 = -1) : recordResult p = (-1, p.2.failed) := by
  obtain ⟨ret, s⟩ := p
  have hneg : ret < 0 := by
    show (ret, s).1 < 0
    rw [h]
    decide
  exact if_pos hneg

theorem aviRecordFrame_empty (h : Stores hdr s [] []) {f : AviFrame} {io : WriteIo}
    (hfail : s.Fails f io) : Represents hdr (aviRecordFrame s f io).2 .empty := by
  have hstore : ∀ s' : AviFile, Stores hdr s' [] [] → s'.StoreFails f io →
      Represents hdr (recordResult (s'.storeFrame f io)).2 .empty := by
    intro s' hs' hf
    rw [recordResult_failed ((storeFrame_fst s' f io).1 hf)]
    exact (storeFrame_empty hs' hf).failed_represents
  have hsame : Represents hdr (recordResult (-1, s)).2 .empty := h.failed_represents
  unfold aviRecordFrame aviWriteFrame
  rcases hfail with hsd | ⟨hkey, hrest⟩
  · rw [if_pos hsd]
    exact hsame
  · by_cases hsd : io.sdOk = false
    · rw [if_pos hsd]
      exact hsame
    rw [if_neg hsd]
    by_cases hnew : s.newFlag = true
    · rw [if_pos hnew, if_pos (hkey hnew)]
      by_cases hopen : io.openOk = false
      · rw [if_pos hopen]
        exact hsame
      · rw [if_neg hopen]
        exact hstore s.reopen { h with } (hrest.resolve_left fun h => hopen h.2)
    · rw [if_neg hnew]
      exact hstore s h (hrest.resolve_left fun h => hnew h.1)

end Empty

/-! ## Runs -/

/-- Calls fail only while nothing has been recorded. -/
def EmptyFailures : AviFile → List RecordCall → Prop
  | _, [] => True
  | s, c :: cs =>
      (s.Fails c.frame c.io → s.indexCount = 0)
        ∧ EmptyFailures (aviRecordFrame s c.frame c.io).2 cs

/-- The handle represents a recording of frames that fit. -/
def Recorded (hdr : List UInt8) (s : AviFile) (r : Recording) : Prop :=
  Represents hdr s r ∧ ∀ f ∈ r.frames, f.Ok

/-- A call that does not fail can do something with its frame. -/
theorem Represents.takes {hdr : List UInt8} {s : AviFile} {r : Recording}
    (h : Represents hdr s r) {f : AviFrame} {io : WriteIo} (hfail : ¬ s.Fails f io)
    (hacc : r.Accepts f) : r.Takes f := by
  have hkey : s.newFlag = true → f.IsKey := by
    intro hnew
    rw [h.newFlag] at hnew
    exact hacc.resolve_left (by simpa using hnew)
  have hstore : ¬ s.StoreFails f io := fun hs => hfail (Or.inr ⟨hkey, Or.inr hs⟩)
  unfold AviFile.StoreFails at hstore
  push Not at hstore
  constructor
  · intro ho hnil
    have := hstore.1 ((h.stores.overflows_iff f).mpr ho)
    apply this
    left
    rw [h.stores.preIndexPos, hnil]
    rfl
  · intro ho
    exact hstore.2.1 fun ho' => ho ((h.stores.overflows_iff f).mp ho')

/-- One call: it succeeds, or it fails with nothing recorded. -/
theorem Recorded.step {hdr : List UInt8} (hhdr : hdr.length = sizeofAviHeader) {s : AviFile}
    {r : Recording} (h : Recorded hdr s r) {f : AviFrame} {io : WriteIo}
    (hfail : s.Fails f io → s.indexCount = 0) :
    ∃ r', Recorded hdr (aviRecordFrame s f io).2 r' := by
  obtain ⟨hrep, hok⟩ := h
  by_cases hf : s.Fails f io
  · have hcount := hfail hf
    rw [hrep.stores.indexCount] at hcount
    have hflushed : r.flushed = [] := List.length_eq_zero_iff.mp (by omega)
    have hpending : r.pending = [] := List.length_eq_zero_iff.mp (by omega)
    have hst := hrep.stores
    rw [hflushed, hpending] at hst
    exact ⟨.empty, aviRecordFrame_empty hst hf, fun g hg => by cases hg⟩
  · rw [aviRecordFrame_ok hf]
    have htakes : r.Accepts f → r.Takes f := hrep.takes hf
    refine ⟨r.add f, (hrep.write_takes hhdr htakes).2, ?_⟩
    rw [Recording.add_frames]
    intro g hg
    by_cases hadd : r.Accepts f ∧ ¬ r.Overflows f
    · rw [if_pos hadd] at hg
      rcases List.mem_append.mp hg with hg | hg
      · exact hok g hg
      · obtain rfl : g = f := by simpa using hg
        refine ⟨(htakes hadd.1).kind hadd.2, ?_⟩
        have := hadd.2
        unfold Recording.Overflows at this
        omega
    · rw [if_neg hadd] at hg
      exact hok g hg

/-- Every state of a run whose failures happen with nothing recorded. -/
theorem Recorded.run {hdr : List UInt8} (hhdr : hdr.length = sizeofAviHeader)
    (cs : List RecordCall) :
    ∀ {s : AviFile} {r : Recording}, Recorded hdr s r → EmptyFailures s cs →
      ∀ n, ∃ r', Recorded hdr (s.run (cs.take n)) r' := by
  induction cs with
  | nil =>
    intro s r h _ n
    rw [List.take_nil]
    exact ⟨r, h⟩
  | cons c cs ih =>
    intro s r h hempty n
    cases n with
    | zero => exact ⟨r, h⟩
    | succ n =>
      obtain ⟨r', h'⟩ := h.step hhdr hempty.1
      exact ih h' hempty.2 n

/-! ## Consistency -/

/-- `index_count`, `video_count` and the pending position count exactly the chunks in the file and
in the record buffer. -/
def Consistent (hdr : List UInt8) (s : AviFile) : Prop :=
  ∃ flushed pending : List AviFrame,
    s.file.contents = hdr ++ moviBytes flushed
      ∧ loadBytes s.dataArray 0 s.bufOffset = moviBytes pending
      ∧ s.indexCount = flushed.length + pending.length
      ∧ s.videoCount = videoCountOf (flushed ++ pending)
      ∧ s.preIndexPos = pending.length

theorem Represents.consistent {hdr : List UInt8} {s : AviFile} {r : Recording}
    (h : Represents hdr s r) : Consistent hdr s := by
  have hs := h.stores
  refine ⟨r.flushed, r.pending, hs.file.2, ?_, hs.indexCount, hs.videoCount, hs.preIndexPos⟩
  exact hs.buffer.loadBytes_eq (by rw [hs.bufOffset, moviBytes_length])

/-- In every run whose failing calls happen while nothing has been recorded, the handle is
consistent after each call, no store to `idx_array` leaves its slots, and a close that succeeds
leaves an index of exactly the chunks present. -/
theorem failures_consistent (x : RecordSession) (s : AviFile) (hdur : 0 < x.recordDuration)
    (hopen : x.openIo.AllOk) (hclose : x.closeIo.AllOk)
    (hrun : EmptyFailures (x.opened s) x.calls) :
    (∀ n, Consistent x.header ((x.opened s).run (x.calls.take n)))
      ∧ (∀ slot ∈ ((x.opened s).run x.calls).idxStores, slot < indexArrayMaxNumber)
      ∧ ∃ fs, HoldsFrames (x.closed s).file fs
          ∧ fs.length = ((x.opened s).run x.calls).indexCount
          ∧ videoCountOf fs = ((x.opened s).run x.calls).videoCount := by
  have hstart : Recorded x.header (x.opened s) .empty :=
    ⟨(recordNormalStart_represents (s := { s.clear with start := x.start }) x.frameRate x.date
      hopen hdur rfl rfl).2, fun f hf => by cases hf⟩
  have hall := Recorded.run x.header_length x.calls hstart hrun
  obtain ⟨r, hrep, hok⟩ := hall x.calls.length
  rw [List.take_length] at hrep
  refine ⟨?_, hrep.stores.idxStores, r.frames, ?_, ?_, ?_⟩
  · intro n
    obtain ⟨r', h', -⟩ := hall n
    exact h'.consistent
  · have hrep' : Represents x.header
        { (x.opened s).run x.calls with duration := x.duration } r :=
      ⟨{ hrep.stores with }, hrep.newFlag, fun hs => { hrep.positioned hs with }⟩
    exact close_read hclose x.header_length hrep' hok
  · rw [hrep.stores.indexCount, Recording.frames, List.length_append]
  · rw [hrep.stores.videoCount]
    rfl

/-- A call that finds the SD card gone. -/
def sdGone : WriteIo := { WriteIo.ok with sdOk := false }

/-- Calls with frames that fit fail nowhere when their file operations succeed. -/
theorem emptyFailures_ok {hdr : List UInt8} (hhdr : hdr.length = sizeofAviHeader)
    {fs : List AviFrame} (hok : ∀ f ∈ fs, f.Ok) :
    ∀ {s : AviFile} {r : Recording}, Represents hdr s r → EmptyFailures s (okCalls fs) := by
  induction fs with
  | nil => intro s r _; exact trivial
  | cons f fs ih =>
    intro s r h
    obtain ⟨hret, hrep⟩ := h.write hhdr (hok f (by simp))
    refine ⟨fun hf => ?_, ih (fun g hg => hok g (by simp [hg])) hrep⟩
    rw [← aviRecordFrame_fails_iff] at hf
    rw [show (aviRecordFrame s f .ok).1 = -1 from hf] at hret
    split at hret <;> cases hret

theorem failures_consistent_small :
    ∃ fs, HoldsFrames
      (RecordSession.closed { RecordSession.ofFrames [] with
        calls := ⟨keyFrame 2, sdGone⟩ :: okCalls RecordSession.sampleFrames } .zero).file fs := by
  set x : RecordSession := { RecordSession.ofFrames [] with
    calls := ⟨keyFrame 2, sdGone⟩ :: okCalls RecordSession.sampleFrames } with hx
  have hbase := RecordSession.ofFrames_succeeds []
  have hopened := hbase.opened_represents .zero
  have hfail : (RecordSession.opened (.ofFrames []) .zero).Fails (keyFrame 2) sdGone := Or.inl rfl
  have hsame : x.opened .zero = (RecordSession.ofFrames []).opened .zero := rfl
  have hcount : (x.opened .zero).indexCount = 0 := by
    rw [hsame]
    exact hopened.stores.indexCount
  have hrun : EmptyFailures (x.opened .zero) x.calls := by
    refine ⟨fun _ => hcount, ?_⟩
    apply emptyFailures_ok (x.header_length) _ (aviRecordFrame_empty hopened.stores hfail)
    have := RecordSession.sampleFrames_ok
    rwa [RecordSession.ofFrames_frames] at this
  obtain ⟨-, -, fs, hfs, -⟩ :=
    failures_consistent x .zero hbase.duration_pos hbase.openIo hbase.closeIo hrun
  exact ⟨fs, hfs⟩

/-! ## Failures that lose count -/

/-- When the card is gone for a call while frames are pending, these are forgotten but stay
counted. -/
theorem lost_pending {hdr : List UInt8} {s : AviFile} {r : Recording} (h : Represents hdr s r)
    (hne : r.pending ≠ []) (f : AviFrame) {io : WriteIo} (hsd : io.sdOk = false) :
    ¬ Consistent hdr (aviRecordFrame s f io).2 := by
  rintro ⟨flushed, pending, -, hbuf, -, -, hpre⟩
  have hrun : (aviRecordFrame s f io).2 = s.failed := by
    unfold aviRecordFrame aviWriteFrame
    rw [if_pos hsd, recordResult_failed rfl]
  rw [hrun] at hbuf hpre
  have hnil : pending = [] := by
    by_contra hp
    have hsize := moviSize_pos hp
    have hlen : (loadBytes s.failed.dataArray 0 s.failed.bufOffset).length = moviSize pending := by
      rw [hbuf, moviBytes_length]
    rw [loadBytes_length] at hlen
    exact absurd hsize (by rw [← hlen]; exact Nat.lt_irrefl 0)
  have hcount : r.pending.length = 0 := by
    rw [← h.stores.preIndexPos, show s.preIndexPos = s.failed.preIndexPos from rfl, hpre, hnil]
    rfl
  exact hne (List.length_eq_zero_iff.mp hcount)

/-- `n` times a key frame that is stored and one for which the card is gone. -/
def failingRounds : ℕ → List RecordCall
  | 0 => []
  | n + 1 => failingRounds n ++ [⟨keyFrame 2, .ok⟩, ⟨keyFrame 2, sdGone⟩]

/-- The handle after `n` such rounds. -/
structure AfterRounds (s : AviFile) (n : ℕ) : Prop where
  newFlag : s.newFlag = true
  bufOffset : s.bufOffset = 0
  bufIndex : s.bufIndex = 0
  preIndexPos : s.preIndexPos = n
  idxStores : ∀ k < n, 4 * k ∈ s.idxStores

theorem AfterRounds.step {s : AviFile} {n : ℕ} (h : AfterRounds s n) :
    AfterRounds (s.run [⟨keyFrame 2, .ok⟩, ⟨keyFrame 2, sdGone⟩]) (n + 1) := by
  have hroom : ¬ s.reopen.Overflows (keyFrame 2) := by
    unfold AviFile.Overflows
    rw [show s.reopen.bufOffset = 0 from h.bufOffset]
    decide
  have hkind : (keyFrame 2).IsVideo ∨ (keyFrame 2).IsAudio := Or.inl (keyFrame_key 2).isVideo
  obtain ⟨hindex, -, -⟩ := store_counts s.reopen (keyFrame 2)
  rw [show s.reopen.bufIndex = 0 from h.bufIndex] at hindex
  have hone : aviRecordFrame s (keyFrame 2) .ok
      = (0, (s.reopen.storeChunk (keyFrame 2)).storeIndex (keyFrame 2)) := by
    unfold aviRecordFrame aviWriteFrame AviFile.storeFrame
    rw [if_neg (by decide), if_pos h.newFlag, if_pos (keyFrame_key 2), if_neg (by decide),
      if_neg hroom, if_pos hkind]
    simp only [hindex, show ¬ 0 + 1 = dataSaveNum by decide, if_false]
    exact recordResult_of_nonneg (le_refl 0)
  have htwo : s.run [⟨keyFrame 2, .ok⟩, ⟨keyFrame 2, sdGone⟩]
      = ((s.reopen.storeChunk (keyFrame 2)).storeIndex (keyFrame 2)).failed := by
    show (aviRecordFrame (aviRecordFrame s (keyFrame 2) .ok).2 (keyFrame 2) sdGone).2 = _
    rw [hone]
    rfl
  rw [htwo, storeIndex_eq, storeChunk_eq]
  constructor
  case newFlag => rfl
  case bufOffset => rfl
  case bufIndex => rfl
  case preIndexPos =>
    show s.preIndexPos + 1 = n + 1
    rw [h.preIndexPos]
  case idxStores =>
    intro k hk
    show 4 * k ∈ s.idxStores ++ (List.range 4).map (4 * s.preIndexPos + ·)
    rw [List.mem_append]
    by_cases hlt : k < n
    · exact Or.inl (h.idxStores k hlt)
    · right
      rw [h.preIndexPos, show k = n by omega]
      exact List.mem_map.mpr ⟨0, by simp, rfl⟩

theorem afterRounds {s : AviFile} (h : AfterRounds s 0) (n : ℕ) :
    AfterRounds (s.run (failingRounds n)) n := by
  induction n with
  | zero => exact h
  | succ n ih =>
    have := ih.step
    unfold AviFile.run at this ⊢
    rw [failingRounds, List.foldl_append]
    exact this

/-- One stored key frame and a call that finds the card gone leave the handle inconsistent; after
513 such rounds `idx_array` has been written behind its end. -/
theorem failures_inconsistent :
    (¬ Consistent (RecordSession.ofFrames []).header
      (((RecordSession.ofFrames []).opened .zero).run [⟨keyFrame 2, .ok⟩, ⟨keyFrame 2, sdGone⟩]))
    ∧ ∃ slot ∈ (((RecordSession.ofFrames []).opened .zero).run (failingRounds 513)).idxStores,
        indexArrayMaxNumber ≤ slot := by
  have hopened := (RecordSession.ofFrames_succeeds []).opened_represents .zero
  constructor
  · have hone := hopened.write (RecordSession.header_length _) (keyFrame_ok (n := 2) (by decide))
    apply lost_pending hone.2 _ _ rfl
    have hroom : ¬ Recording.empty.Overflows (keyFrame 2) := by decide
    rw [Recording.add_pending (Or.inr (keyFrame_key 2)) hroom, if_neg (by decide)]
    exact List.cons_ne_nil _ _
  · have hrounds := afterRounds (s := (RecordSession.ofFrames []).opened .zero)
      ⟨hopened.newFlag, hopened.stores.bufOffset, hopened.stores.bufIndex,
        hopened.stores.preIndexPos, fun k hk => absurd hk (Nat.not_lt_zero k)⟩ 513
    exact ⟨4 * 512, hrounds.idxStores 512 (by decide), by decide⟩
