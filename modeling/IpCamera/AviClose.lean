/-
# The finished file

`avi_record_nornal_close` on a handle that represents a recording, every file
operation succeeding: the buffered chunks, the index chunk (copied from the
temporary index file in blocks) and the header fields known only now.

`Finished` describes the result byte by byte; `close_finished` proves it.
-/
import IpCamera.AviRecording

/-! ## Steps -/

theorem runSteps_cons {step : AviFile → Bool × AviFile} {s s' : AviFile} (h : step s = (true, s'))
    (steps : List (AviFile → Bool × AviFile)) :
    runSteps (step :: steps) s = runSteps steps s' := by
  rw [runSteps, h]

theorem runSteps_pure (g : AviFile → AviFile) (steps : List (AviFile → Bool × AviFile))
    (s : AviFile) : runSteps ((fun s => (true, g s)) :: steps) s = runSteps steps (g s) := rfl

theorem checkSd_true {ok : Bool} (h : ok = true) (s : AviFile) : checkSd ok s = (true, s) := by
  rw [checkSd, h]

theorem AviFile.writeFile_full {s : AviFile} {o : WriteOutcome} (ho : o = .full)
    (src : ℕ → UInt8) {n : ℕ} (hn : n ≠ 0) :
    s.writeFile src n o = (true, { s with file := s.file.put src n }) := by
  rw [ho, AviFile.writeFile, StdioFile.fwrite_full src hn]

theorem AviFile.writeIdxfile_full {s : AviFile} {o : WriteOutcome} (ho : o = .full)
    (src : ℕ → UInt8) {n : ℕ} (hn : n ≠ 0) :
    s.writeIdxfile src n o = (true, { s with idxfile := s.idxfile.put src n }) := by
  rw [ho, AviFile.writeIdxfile, StdioFile.fwrite_full src hn]

/-- The handle with another state of its file. -/
def AviFile.setFile (s : AviFile) (f : StdioFile) : AviFile := { s with file := f }

theorem runSteps_patch {o : WriteOutcome} (ho : o = .full) (offset v : ℕ)
    (steps : List (AviFile → Bool × AviFile)) (s : AviFile) (f : StdioFile) :
    runSteps (AviFile.patchHeader offset v o :: steps) (s.setFile f)
      = runSteps steps (s.setFile (f.patch offset v)) := by
  apply runSteps_cons
  exact AviFile.writeFile_full (s := s.setFile (f.fseek offset)) ho (le32 v) (by decide)

/-- Steps none of which changes `g`. -/
theorem runSteps_preserves {α : Type} (g : AviFile → α) :
    ∀ (steps : List (AviFile → Bool × AviFile)), (∀ step ∈ steps, ∀ s, g (step s).2 = g s) →
      ∀ s, g (runSteps steps s).2 = g s := by
  intro steps
  induction steps with
  | nil => intro _ s; rfl
  | cons step steps ih =>
    intro h s
    have hstep := h step (by simp) s
    have ih' := ih fun step' hs => h step' (by simp [hs])
    unfold runSteps
    rcases hres : step s with ⟨ok, s'⟩
    rw [hres] at hstep
    cases ok with
    | false => exact hstep
    | true => exact (ih' s').trans hstep

theorem copyIndex_preserves {α : Type} (g : AviFile → α)
    (hg : ∀ (s : AviFile) (file idxfile : StdioFile),
      g { s with file := file, idxfile := idxfile } = g s) (io : CloseIo) (left : ℕ) :
    ∀ (k : ℕ) (s : AviFile), g (copyIndex io k left s).2 = g s := by
  induction left using Nat.strong_induction_on with
  | _ left ih =>
    intro k s
    rw [copyIndex]
    split
    · rfl
    · dsimp only
      split
      · rename_i idxfile _
        exact hg s s.file idxfile
      · rename_i block idxfile _
        split
        · exact hg s s.file idxfile
        · split
          · rename_i heq
            obtain ⟨-, rfl⟩ := Prod.mk.inj heq
            exact hg s _ idxfile
          · rename_i heq
            obtain ⟨-, rfl⟩ := Prod.mk.inj heq
            exact (ih _ (by split <;> omega) _ _).trans (hg s _ idxfile)

theorem flushRest_preserves {α : Type} (g : AviFile → α)
    (hg : ∀ (s : AviFile) (file : StdioFile) (bufIndex bufOffset : ℕ),
      g { s with file := file, bufIndex := bufIndex, bufOffset := bufOffset } = g s)
    (io : CloseIo) (s : AviFile) : g (flushRest io s).2 = g s := by
  unfold flushRest
  split
  · split
    · rename_i heq
      obtain ⟨-, rfl⟩ := Prod.mk.inj heq
      exact hg s _ s.bufIndex s.bufOffset
    · rename_i heq
      obtain ⟨-, rfl⟩ := Prod.mk.inj heq
      exact hg s _ 0 0
  · rfl

/-! ## The copy of the index -/

/-- Copying `left` entries appends their bytes to the recording. -/
theorem copyIndex_full {io : CloseIo} (hio : io.AllOk) (left : ℕ) :
    ∀ (k : ℕ) (s : AviFile) (l : List UInt8), s.file.Holds l → s.file.pos = l.length →
      s.idxfile.pos + 16 * left ≤ s.idxfile.size →
      ∃ file idxfile, copyIndex io k left s = (true, { s with file := file, idxfile := idxfile })
        ∧ file.Holds (l ++ loadBytes s.idxfile.bytes s.idxfile.pos (16 * left))
        ∧ file.pos = l.length + 16 * left := by
  induction left using Nat.strong_induction_on with
  | _ left ih =>
    intro k s l hfile hpos hidx
    rw [copyIndex]
    by_cases h0 : left = 0
    · rw [if_pos h0, h0]
      exact ⟨s.file, s.idxfile, rfl, by simpa using hfile, hpos⟩
    · rw [if_neg h0]
      -- one block of `n` entries, `rest` entries remain
      set n := if 64 > left then left else 64 with hn
      set rest := if 64 > left then 0 else left - 64 with hrest
      have hsize : (if 64 > left then left * 16 else 1024) = 16 * n := by
        rw [hn]
        split <;> omega
      have hsum : left = n + rest := by
        rw [hn, hrest]
        split <;> omega
      have hn0 : 16 * n ≠ 0 := by
        rw [hn]
        split <;> omega
      have hread := StdioFile.fread_inside (f := s.idxfile) hn0 (by omega)
      simp only [hsize, hread, hio.blockRead k, Bool.true_eq_false, if_false]
      rw [AviFile.writeFile_full (hio.blockWrite k) _ hn0]
      set block : ℕ → UInt8 := fun i => s.idxfile.bytes (s.idxfile.pos + i) with hblock
      have hbytes : loadBytes block 0 (16 * n)
          = loadBytes s.idxfile.bytes s.idxfile.pos (16 * n) :=
        loadBytes_congr fun i _ => by rw [hblock, Nat.zero_add]
      have hput := hfile.put hpos block (16 * n)
      obtain ⟨file, idxfile, heq, hh, hp⟩ := ih rest (by omega) (k + 1)
        { s with
          file := s.file.put block (16 * n)
          idxfile := s.idxfile.fseek (s.idxfile.pos + 16 * n) }
        (l ++ loadBytes block 0 (16 * n)) hput (by simp [hpos])
        (by show s.idxfile.pos + 16 * n + 16 * rest ≤ s.idxfile.size; omega)
      refine ⟨file, idxfile, heq, ?_, ?_⟩
      · rw [show 16 * left = 16 * n + 16 * rest by omega, loadBytes_add, ← hbytes,
          ← List.append_assoc]
        exact hh
      · rw [hp, List.length_append, loadBytes_length]
        omega

/-! ## The header fields -/

/-- The fields `update_avi_header` writes, `microSec` being the value of the two time fields: offset
and value. -/
def timedPatches (s : AviFile) (microSec : ℕ) : List (ℕ × ℕ) :=
  [(4, s.file.pos - 8), (318, s.dataOffset - sizeofAviHeader + 4), (48, s.videoCount),
    (32, microSec), (128, microSec), (140, s.videoCount),
    (264, s.audioBytes / sampleSize s.aBits), (256, 8000)]

/-- The fields `update_avi_header` writes: offset and value. -/
def headerPatches (s : AviFile) : List (ℕ × ℕ) :=
  [(4, s.file.pos - 8), (318, s.dataOffset - sizeofAviHeader + 4), (48, s.videoCount),
    (32, s.microSecPerFrame), (128, s.microSecPerFrame), (140, s.videoCount),
    (264, s.audioBytes / sampleSize s.aBits), (256, 8000)]

def patchAll (f : StdioFile) (ps : List (ℕ × ℕ)) : StdioFile :=
  ps.foldl (fun f p => f.patch p.1 p.2) f

/-- The statements of `update_avi_header`, once the value of the time fields is known. -/
def headerSteps (io : CloseIo) (s : AviFile) (microSec : ℕ) : List (AviFile → Bool × AviFile) :=
  [checkSd (io.sdOk 2),
    AviFile.patchHeader 4 (s.file.pos - 8) (io.patch 0),
    AviFile.patchHeader (sizeofAviHeader - 8) (s.dataOffset - sizeofAviHeader + 4) (io.patch 1),
    AviFile.patchHeader 48 s.videoCount (io.patch 2),
    AviFile.patchHeader 32 microSec (io.patch 3),
    AviFile.patchHeader 128 microSec (io.patch 4),
    AviFile.patchHeader 140 s.videoCount (io.patch 5),
    AviFile.patchHeader 264 (s.audioBytes / sampleSize s.aBits) (io.patch 6),
    fun s => (true, s.clampDuration),
    AviFile.patchHeader 256 8000 (io.patch 7)]

theorem updateAviHeader_eq (io : CloseIo) (s : AviFile) :
    updateAviHeader io s = runSteps (headerSteps io s s.microSecPerFrame) s := rfl

theorem headerSteps_full {io : CloseIo} (hio : io.AllOk) (s : AviFile) (microSec : ℕ) :
    runSteps (headerSteps io s microSec) s =
      (true, s.clampDuration.setFile (patchAll s.file (timedPatches s microSec))) := by
  unfold headerSteps
  rw [runSteps_cons (checkSd_true (hio.sd 2) s)]
  show runSteps _ (s.setFile s.file) = _
  rw [runSteps_patch (hio.patch 0), runSteps_patch (hio.patch 1), runSteps_patch (hio.patch 2),
    runSteps_patch (hio.patch 3), runSteps_patch (hio.patch 4), runSteps_patch (hio.patch 5),
    runSteps_patch (hio.patch 6)]
  rw [runSteps_pure]
  show runSteps _ (s.clampDuration.setFile _) = _
  rw [runSteps_patch (hio.patch 7)]
  rfl

theorem updateAviHeader_full {io : CloseIo} (hio : io.AllOk) (s : AviFile) :
    updateAviHeader io s =
      (true, s.clampDuration.setFile (patchAll s.file (headerPatches s))) :=
  headerSteps_full hio s s.microSecPerFrame

/-- Patches inside the file keep its length. -/
theorem patchAll_size (ps : List (ℕ × ℕ)) :
    ∀ f : StdioFile, (∀ p ∈ ps, p.1 + 4 ≤ f.size) → (patchAll f ps).size = f.size := by
  induction ps with
  | nil => intro f _; rfl
  | cons p ps ih =>
    intro f h
    have hp : (f.patch p.1 p.2).size = f.size := StdioFile.patch_size p.2 (h p (by simp))
    show (patchAll (f.patch p.1 p.2) ps).size = f.size
    rw [ih _ fun q hq => by rw [hp]; exact h q (by simp [hq]), hp]

/-- A byte outside all patches. -/
theorem patchAll_outside (ps : List (ℕ × ℕ)) {x : ℕ} :
    ∀ f : StdioFile, (∀ p ∈ ps, x < p.1 ∨ p.1 + 4 ≤ x) → (patchAll f ps).bytes x = f.bytes x := by
  induction ps with
  | nil => intro f _; rfl
  | cons p ps ih =>
    intro f h
    show (patchAll (f.patch p.1 p.2) ps).bytes x = f.bytes x
    rw [ih _ fun q hq => h q (by simp [hq])]
    exact store32_outside f.bytes p.1 p.2 (h p (by simp))

/-- A patched field holds its value, the fields being pairwise disjoint. -/
theorem patchAll_word (ps : List (ℕ × ℕ)) :
    ∀ f : StdioFile, ps.Pairwise (fun p q => p.1 + 4 ≤ q.1 ∨ q.1 + 4 ≤ p.1) →
      ∀ p ∈ ps, load32 (patchAll f ps).bytes p.1 = p.2 % 4294967296 := by
  induction ps with
  | nil => intro f _ p hp; cases hp
  | cons q ps ih =>
    intro f hpair p hp
    obtain ⟨hq, hps⟩ := List.pairwise_cons.mp hpair
    show load32 (patchAll (f.patch q.1 q.2) ps).bytes p.1 = p.2 % 4294967296
    rcases List.mem_cons.mp hp with rfl | hp
    · rw [← load32_store32_mod f.bytes p.1 p.2]
      apply load32_congr
      intro x h₁ h₂
      apply patchAll_outside
      intro r hr
      have := hq r hr
      omega
    · exact ih _ hps p hp

/-! ## The result -/

/-- The header fields of a finished file that holds the frames `fs`. -/
def finalPatches (fs : List AviFrame) (duration aBits : ℕ) : List (ℕ × ℕ) :=
  let microSec := duration * 1000 % 4294967296 / videoCountOf fs
  [(4, sizeofAviHeader + moviSize fs + 8 + 16 * fs.length - 8), (318, moviSize fs + 4),
    (48, videoCountOf fs), (32, microSec), (128, microSec), (140, videoCountOf fs),
    (264, audioBytesOf fs / sampleSize aBits), (256, 8000)]

/-- The finished file of the frames `fs`: the header with its last fields filled in, the chunks,
and the index chunk. -/
structure Finished (hdr : List UInt8) (duration aBits : ℕ) (file : StdioFile)
    (fs : List AviFrame) : Prop where
  size : file.size = sizeofAviHeader + moviSize fs + 8 + 16 * fs.length
  body : aviBody file = moviBytes fs ++ idx1Bytes fs
  words : ∀ p ∈ finalPatches fs duration aBits, load32 file.bytes p.1 = p.2 % 4294967296
  kept : ∀ x < sizeofAviHeader,
    (∀ p ∈ finalPatches fs duration aBits, x < p.1 ∨ p.1 + 4 ≤ x) → file.bytes x = listMem hdr x

theorem finalPatches_disjoint (fs : List AviFrame) (duration aBits : ℕ) :
    (finalPatches fs duration aBits).Pairwise (fun p q => p.1 + 4 ≤ q.1 ∨ q.1 + 4 ≤ p.1) := by
  simp [finalPatches]

theorem finalPatches_header {fs : List AviFrame} {duration aBits : ℕ} {p : ℕ × ℕ}
    (hp : p ∈ finalPatches fs duration aBits) : p.1 + 4 ≤ sizeofAviHeader := by
  simp only [finalPatches, List.mem_cons, List.not_mem_nil, or_false] at hp
  unfold sizeofAviHeader
  rcases hp with rfl | rfl | rfl | rfl | rfl | rfl | rfl | rfl <;> simp

/-- Filling in the header of a complete file. -/
theorem finished_patchAll {hdr : List UInt8} (hhdr : hdr.length = sizeofAviHeader)
    {file : StdioFile} {fs : List AviFrame} (duration aBits : ℕ)
    (h : file.Holds (hdr ++ (moviBytes fs ++ idx1Bytes fs))) :
    Finished hdr duration aBits (patchAll file (finalPatches fs duration aBits)) fs := by
  have hsize : file.size = sizeofAviHeader + moviSize fs + 8 + 16 * fs.length := by
    rw [h.1]
    simp [idx1Bytes, hhdr]
    omega
  have hsize' : (patchAll file (finalPatches fs duration aBits)).size = file.size := by
    apply patchAll_size
    intro p hp
    have := finalPatches_header hp
    omega
  have hcont : loadBytes file.bytes 0 file.size = hdr ++ (moviBytes fs ++ idx1Bytes fs) := h.2
  have hsplit := loadBytes_eq_append hcont
  rw [hhdr, Nat.zero_add] at hsplit
  constructor
  case size => rw [hsize', hsize]
  case body =>
    unfold aviBody
    have hlen : file.size - sizeofAviHeader = (moviBytes fs ++ idx1Bytes fs).length := by
      rw [h.1, List.length_append, hhdr]
      omega
    rw [hsize', hlen]
    refine Eq.trans ?_ hsplit.2
    -- the patched words all lie in the header
    apply loadBytes_congr
    intro i _
    apply patchAll_outside
    intro p hp
    have := finalPatches_header hp
    omega
  case words => exact patchAll_word _ file (finalPatches_disjoint fs duration aBits)
  case kept =>
    intro x hx hout
    rw [patchAll_outside _ file hout]
    have hx' := congrArg (fun l : List UInt8 => l.getD x 0) hsplit.1
    simpa [loadBytes, hx, listMem] using hx'

/-- The pending entries join the others in the temporary index file. -/
theorem flushPending_full {io : CloseIo} (hio : io.AllOk) {s : AviFile}
    {flushed pending : List AviFrame}
    (hidx : s.idxfile.Holds (encodeEntries (indexFrom sizeofAviHeader flushed)))
    (hpos : s.idxfile.pos = 16 * flushed.length)
    (harr : Filled 0 s.idxArray
      (encodeEntries (indexFrom (sizeofAviHeader + moviSize flushed) pending)))
    (hpre : s.preIndexPos = pending.length) :
    ∃ idxfile, flushPending io s = (true, { s with idxfile := idxfile })
      ∧ idxfile.Holds (encodeEntries (indexFrom sizeofAviHeader (flushed ++ pending))) := by
  unfold flushPending
  rw [indexFrom_append, encodeEntries_append]
  by_cases hp : s.preIndexPos > 0
  · rw [if_pos hp, AviFile.writeIdxfile_full hio.pending _ (by unfold oneIndexSize; omega)]
    refine ⟨_, rfl, ?_⟩
    have := hidx.put (by rw [hpos, encodeEntries_length, indexFrom_length]) s.idxArray
      (s.preIndexPos * oneIndexSize)
    rwa [harr.loadBytes_eq (by
      rw [encodeEntries_length, indexFrom_length, hpre, oneIndexSize, Nat.mul_comm])] at this
  · have hnil : pending = [] := List.length_eq_zero_iff.mp (by omega)
    rw [if_neg hp, hnil]
    exact ⟨s.idxfile, rfl, by simpa [indexFrom] using hidx⟩

/-- The values `update_avi_header` takes from the handle. -/
theorem headerPatches_eq {s : AviFile} {fs : List AviFrame}
    (hpos : s.file.pos = sizeofAviHeader + moviSize fs + 8 + 16 * fs.length)
    (hoff : s.dataOffset = sizeofAviHeader + moviSize fs) (hvideo : s.videoCount = videoCountOf fs)
    (haudio : s.audioBytes = audioBytesOf fs) :
    headerPatches s = finalPatches fs s.duration s.aBits := by
  have hmovi : s.dataOffset - sizeofAviHeader + 4 = moviSize fs + 4 := by omega
  simp only [headerPatches, finalPatches, AviFile.microSecPerFrame, hpos, hmovi, hvideo, haudio]

/-- `avi_add_index` once all chunks are in the file. -/
theorem aviAddIndex_full {io : CloseIo} (hio : io.AllOk) {hdr : List UInt8}
    (hhdr : hdr.length = sizeofAviHeader) {s : AviFile} {flushed pending : List AviFrame}
    (hfile : s.file.Holds (hdr ++ moviBytes (flushed ++ pending)))
    (hpos : s.file.pos = sizeofAviHeader + moviSize (flushed ++ pending))
    (hidx : s.idxfile.Holds (encodeEntries (indexFrom sizeofAviHeader flushed)))
    (hidxpos : s.idxfile.pos = 16 * flushed.length)
    (harr : Filled 0 s.idxArray
      (encodeEntries (indexFrom (sizeofAviHeader + moviSize flushed) pending)))
    (hpre : s.preIndexPos = pending.length)
    (hcount : s.indexCount = (flushed ++ pending).length)
    (hvideo : s.videoCount = videoCountOf (flushed ++ pending))
    (haudio : s.audioBytes = audioBytesOf (flushed ++ pending))
    (hoff : s.dataOffset = sizeofAviHeader + moviSize (flushed ++ pending)) :
    ∃ s', aviAddIndex io s = (true, s')
      ∧ Finished hdr s.duration s.aBits s'.file (flushed ++ pending) := by
  set fs := flushed ++ pending with hfs
  unfold aviAddIndex
  rw [runSteps_cons (checkSd_true (hio.sd 1) s)]
  -- `idx1`
  rw [@runSteps_cons (fun s => s.writeFile (le32 fccIdx1) 4 io.idx1) s _
    (AviFile.writeFile_full hio.idx1 _ (by decide))]
  have h₁ := hfile.put (by rw [hpos, List.length_append, hhdr, moviBytes_length]) (le32 fccIdx1) 4
  obtain ⟨idxfile, heq, hentries⟩ := flushPending_full hio
    (s := { s with file := s.file.put (le32 fccIdx1) 4 }) hidx hidxpos harr hpre
  rw [← hfs] at hentries
  rw [runSteps_cons heq, runSteps_pure]
  show ∃ s', runSteps _ { s with
    file := s.file.put (le32 fccIdx1) 4, idxfile := idxfile, preIndexPos := 0 } = _ ∧ _
  -- the length of the index
  rw [@runSteps_cons (fun s => s.writeFile (le32 (16 * s.indexCount)) 4 io.idxSize) _ _
    (AviFile.writeFile_full hio.idxSize _ (by decide)), runSteps_pure]
  have h₂ := h₁.put (by
    simp only [StdioFile.put_pos, hpos, List.length_append, hhdr, moviBytes_length,
      loadBytes_length]) (le32 (16 * s.indexCount)) 4
  -- the entries
  obtain ⟨file, idxfile', hcopy, hholds, hp⟩ := copyIndex_full hio s.indexCount 0
    { s with
      file := (s.file.put (le32 fccIdx1) 4).put (le32 (16 * s.indexCount)) 4
      idxfile := idxfile.fseek 0
      preIndexPos := 0 } _ h₂
    (by
      simp only [StdioFile.put_pos, hpos, List.length_append, hhdr, moviBytes_length,
        loadBytes_length])
    (by
      show 0 + 16 * s.indexCount ≤ idxfile.size
      rw [hentries.1, encodeEntries_length, indexFrom_length, hcount, Nat.zero_add])
  rw [@runSteps_cons (fun s => copyIndex io 0 s.indexCount s) _ _ hcopy,
    runSteps_cons (updateAviHeader_full hio _)]
  refine ⟨_, rfl, ?_⟩
  have hlen : 16 * s.indexCount = idxfile.size := by
    rw [hentries.1, encodeEntries_length, indexFrom_length, hcount]
  -- together these are the chunks and the index
  have hall : file.Holds (hdr ++ (moviBytes fs ++ idx1Bytes fs)) := by
    have hcopied : loadBytes idxfile.bytes 0 (16 * s.indexCount)
        = encodeEntries (indexFrom sizeofAviHeader fs) := by
      rw [hlen]
      exact hentries.2
    have hb : hdr ++ moviBytes fs ++ loadBytes (le32 fccIdx1) 0 4
          ++ loadBytes (le32 (16 * s.indexCount)) 0 4
          ++ loadBytes idxfile.bytes 0 (16 * s.indexCount)
        = hdr ++ (moviBytes fs ++ idx1Bytes fs) := by
      rw [hcopied, idx1Bytes, hcount]
      simp [word]
    rw [← hb]
    exact hholds
  -- the fields of the header
  have hpatch : headerPatches { s with file := file, idxfile := idxfile', preIndexPos := 0 }
      = finalPatches fs s.duration s.aBits := by
    refine headerPatches_eq (s := { s with file := file, idxfile := idxfile', preIndexPos := 0 })
      ?_ hoff hvideo haudio
    show file.pos = _
    rw [hp]
    simp only [List.length_append, hhdr, moviBytes_length, loadBytes_length, hcount]
  show Finished hdr s.duration s.aBits
    (patchAll file (headerPatches { s with file := file, idxfile := idxfile', preIndexPos := 0 })) fs
  rw [hpatch]
  exact finished_patchAll hhdr s.duration s.aBits hall

theorem AviFile.buffer_empty {s : AviFile} (hindex : s.bufIndex = 0) (hoffset : s.bufOffset = 0) :
    { s with bufIndex := 0, bufOffset := 0 } = s := by
  cases s
  simp only at hindex hoffset
  subst hindex hoffset
  rfl

/-- What is left in the buffer is written behind the flushed chunks. -/
theorem flushRest_full {io : CloseIo} (hio : io.AllOk) {hdr : List UInt8}
    (hhdr : hdr.length = sizeofAviHeader) {s : AviFile} {flushed pending : List AviFrame}
    (h : Stores hdr s flushed pending) (hpos : Positioned s flushed pending) :
    ∃ file, flushRest io s = (true, { s with file := file, bufIndex := 0, bufOffset := 0 })
      ∧ file.Holds (hdr ++ moviBytes (flushed ++ pending))
      ∧ file.pos = sizeofAviHeader + moviSize (flushed ++ pending) := by
  unfold flushRest
  by_cases hne : s.bufOffset ≠ 0
  · rw [if_pos hne, AviFile.writeFile_full hio.rest _ hne]
    refine ⟨_, rfl, ?_, ?_⟩
    · have := h.file.put (by rw [hpos.filePos, List.length_append, hhdr, moviBytes_length])
        s.dataArray s.bufOffset
      rw [h.buffer.loadBytes_eq (by rw [h.bufOffset, moviBytes_length])] at this
      rwa [moviBytes_append, ← List.append_assoc]
    · show s.file.pos + s.bufOffset = _
      rw [hpos.filePos, h.bufOffset, moviSize_append, Nat.add_assoc]
  · have hzero : s.bufOffset = 0 := by omega
    have hnil : pending = [] := by
      by_contra hp
      have := moviSize_pos hp
      rw [h.bufOffset] at hzero
      omega
    have hindex : s.bufIndex = 0 := by rw [h.bufIndex, hnil]; rfl
    rw [if_neg hne]
    refine ⟨s.file, by rw [AviFile.buffer_empty hindex hzero], ?_, ?_⟩
    · have := h.file
      rwa [hnil, List.append_nil]
    · rw [hpos.filePos, hnil, List.append_nil]

/-- Closing a recording that has started. -/
theorem close_finished {io : CloseIo} (hio : io.AllOk) {hdr : List UInt8}
    (hhdr : hdr.length = sizeofAviHeader) {s : AviFile} {r : Recording} (h : Represents hdr s r)
    (hstart : r.started = true) :
    (aviRecordNornalClose s io).1 = 0
      ∧ Finished hdr s.duration s.aBits (aviRecordNornalClose s io).2.file r.frames := by
  have hpos := h.positioned hstart
  have hnew : s.newFlag = false := by rw [h.newFlag, hstart]; rfl
  obtain ⟨file, hflush, hfile, hfp⟩ := flushRest_full hio hhdr h.stores hpos
  obtain ⟨s', hadd, hfin⟩ := aviAddIndex_full hio hhdr
    (s := { s with file := file, bufIndex := 0, bufOffset := 0 }) hfile hfp h.stores.idxfile
    h.stores.idxfilePos h.stores.idxArray h.stores.preIndexPos
    (by rw [List.length_append]; exact h.stores.indexCount) h.stores.videoCount
    h.stores.audioBytes hpos.dataOffset
  unfold aviRecordNornalClose
  rw [if_neg (by simp [hio.sd 0])]
  simp only [hnew, if_true]
  rw [runSteps_cons hflush, runSteps_cons hadd]
  simp only [runSteps, hio.remove, renameFinished, hio.rename]
  exact ⟨trivial, hfin⟩

/-- Closing a recording no frame of which was written. -/
theorem close_idle {io : CloseIo} (hio : io.AllOk) {hdr : List UInt8} {s : AviFile}
    {r : Recording} (h : Represents hdr s r) (hstart : r.started = false) :
    (aviRecordNornalClose s io).1 = 0 ∧ (aviRecordNornalClose s io).2.file.Holds hdr := by
  have hnew : s.newFlag = true := by rw [h.newFlag, hstart]; rfl
  have hfile := h.stores.file
  rw [(r.idle hstart).1, moviBytes_nil, List.append_nil] at hfile
  unfold aviRecordNornalClose
  rw [if_neg (by simp [hio.sd 0])]
  simp only [hnew, Bool.true_eq_false, if_false]
  exact ⟨trivial, hfile⟩

/-- A closed recording as the reader finds it. -/
theorem close_read {io : CloseIo} (hio : io.AllOk) {hdr : List UInt8}
    (hhdr : hdr.length = sizeofAviHeader) {s : AviFile} {r : Recording} (h : Represents hdr s r)
    (hok : ∀ f ∈ r.frames, f.Ok) :
    readMovi (aviRecordNornalClose s io).2.file = moviChunks r.frames
      ∧ readIndex (aviRecordNornalClose s io).2.file = indexFrom sizeofAviHeader r.frames := by
  cases hstart : r.started with
  | true =>
    have hbody := (close_finished hio hhdr h hstart).2.body
    exact ⟨readMovi_eq hok hbody, readIndex_eq hok hbody⟩
  | false =>
    have hsize := (close_idle hio h hstart).2.1
    have hbody : aviBody (aviRecordNornalClose s io).2.file = [] := by
      unfold aviBody
      rw [hsize, hhdr, Nat.sub_self, loadBytes_zero]
    rw [Recording.frames_of_idle hstart]
    unfold readMovi readIndex
    rw [hbody]
    exact ⟨rfl, rfl⟩

/-! ## Sessions -/

namespace RecordSession

variable {x : RecordSession}

/-- The header the session's file is opened with. -/
def header (x : RecordSession) : List UInt8 := startHeader x.recordDuration x.frameRate

theorem header_length (x : RecordSession) : x.header.length = sizeofAviHeader :=
  startHeader_length _ _

theorem Succeeds.calls_eq (hx : x.Succeeds) : x.calls = okCalls x.frames := by
  have hid : x.calls.map ((fun f => RecordCall.mk f .ok) ∘ RecordCall.frame) = x.calls.map id := by
    apply List.map_congr_left
    intro c hc
    show RecordCall.mk c.frame .ok = c
    rw [← hx.calls c hc]
  rw [okCalls, frames, List.map_map, hid, List.map_id]

theorem Succeeds.opened_represents (hx : x.Succeeds) (s : AviFile) :
    Represents x.header (x.opened s) .empty :=
  (recordNormalStart_represents (s := { s.clear with start := x.start }) x.frameRate x.date
    hx.openIo hx.duration_pos rfl rfl).2

/-- The handle before the close represents the recording of the frames given. -/
theorem Succeeds.run_represents (hx : x.Succeeds) (hok : ∀ f ∈ x.frames, f.Ok) (s : AviFile) :
    Represents x.header { (x.opened s).run x.calls with duration := x.duration }
      (.record x.frames) := by
  have h := (hx.opened_represents s).run x.header_length hok
  rw [← hx.calls_eq] at h
  exact ⟨{ h.stores with }, h.newFlag, fun hs => { h.positioned hs with }⟩

theorem record_ok {fs : List AviFrame} (hok : ∀ f ∈ fs, f.Ok) :
    ∀ f ∈ (Recording.record fs).frames, f.Ok :=
  fun f hf => hok f ((Recording.record_sublist fs).subset hf)

/-- What the reader finds in the closed file. -/
theorem Succeeds.closed_read (hx : x.Succeeds) (hok : ∀ f ∈ x.frames, f.Ok) (s : AviFile) :
    readMovi (x.closed s).file = moviChunks (Recording.record x.frames).frames
      ∧ readIndex (x.closed s).file
          = indexFrom sizeofAviHeader (Recording.record x.frames).frames :=
  close_read hx.closeIo x.header_length (hx.run_represents hok s) (record_ok hok)

end RecordSession
