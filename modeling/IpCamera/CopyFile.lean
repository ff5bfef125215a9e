/-
# Copying a file (`wrapper.c`)

`os_copy_file` copies a file in blocks, with `os_readn` and `os_writen`.  Before it opens
the destination for writing it looks whether this is the source again, by the numbers
of the two inodes.  Files of different file systems can have the same number, and then
nothing is copied: `os_copy_file_copies_iff`.
-/
import IpCamera.WrapperIo

/-! ## Files -/

/-- The largest `off_t`; a longer file is not opened. -/
def offMax : ℕ := 2147483647

/-- `BUCKET_SIZE` -/
def bucketSize : ℕ := 8192

/-- `st_dev` and `st_ino` of a file. -/
structure FileId where
  dev : ℕ
  ino : ℕ
  deriving DecidableEq

/-- The regular files on all mounted file systems. -/
structure MountedFiles where
  path : String → Option FileId
  content : FileId → List UInt8

/-- What a `read` does: it moves at most one byte more than the number given, or fails. -/
inductive FileReadOutcome where
  | upTo (k : ℕ)
  | fails (errno : ℕ)

/-- How the calls of one copy go. -/
structure CopyOutcomes (fs : MountedFiles) where
  opensOld : Bool
  opensNew : Bool
  /-- The file made for a new path, or `none` when none can be made. -/
  created : Option FileId
  fresh : ∀ file ∈ created, ∀ p, fs.path p ≠ some file
  reads : ℕ → FileReadOutcome
  writes : ℕ → WriteResult
  errno : ℕ
  buf : Mem

/-- The files while one is copied, with the offsets of the two descriptors and the number of calls
made. -/
structure CopyState where
  content : FileId → List UInt8
  inOffset : ℕ
  outOffset : ℕ
  readCalls : ℕ
  writeCalls : ℕ

/-- The descriptor of a file that is read. -/
def fileReader (outcomes : ℕ → FileReadOutcome) (file : FileId) : ReadFd CopyState where
  read s n :=
    let got := ((s.content file).drop s.inOffset).take n
    match outcomes s.readCalls with
    | .upTo k =>
        (.moved (got.take (k + 1)), { s with
          readCalls := s.readCalls + 1, inOffset := s.inOffset + (got.take (k + 1)).length })
    | .fails errno => (.failed errno, { s with readCalls := s.readCalls + 1 })
  length_le {s n bytes} h := by
    dsimp only at h
    split at h
    · obtain rfl := ReadResult.moved.inj h
      exact le_trans (List.length_take_le' _ _) (List.length_take_le _ _)
    · cases h

/-- The descriptor of a file that is written. -/
def fileWriter (outcomes : ℕ → WriteResult) (file : FileId) : WriteFd CopyState where
  write s bytes :=
    match outcomes s.writeCalls with
    | .moved k =>
        let old := s.content file
        let done := bytes.take k
        (.moved done.length, { s with
          writeCalls := s.writeCalls + 1
          outOffset := s.outOffset + done.length
          content := Function.update s.content file
            (old.take s.outOffset ++ done ++ old.drop (s.outOffset + done.length)) })
    | .failed errno => (.failed errno, { s with writeCalls := s.writeCalls + 1 })
  le_length {s bytes n} h := by
    split at h
    · obtain rfl := WriteResult.moved.inj h
      exact List.length_take_le' _ _
    · cases h

/-! ## `os_copy_file` -/

/-- The loop over the blocks, with `leftlen` bytes left. -/
def copyBlocks (input : ReadFd CopyState) (output : WriteFd CopyState) :
    (fuel leftlen : ℕ) → (buf : Mem) → (errno : ℕ) → CopyState → Option (ℤ × CopyState)
  | 0, _, _, _, _ => none
  | fuel + 1, leftlen, buf, errno, s =>
      let copylen := if bucketSize < leftlen then bucketSize else leftlen
      (osReadn input fuel buf 0 copylen errno s).bind fun (nread, buf, errno, s) =>
        if nread < 0 then some (-1, s)
        else (osWriten output fuel buf 0 copylen errno s).bind fun (nwritten, errno, s) =>
          if nwritten < 0 then some (-1, s)
          else if leftlen - copylen = 0 then some (0, s)
          else copyBlocks input output fuel (leftlen - copylen) buf errno s

/-- `open` for reading: there is a file, it may be read, and is not too long. -/
def openFile (fs : MountedFiles) (p : String) (opens : Bool) : Option FileId :=
  (fs.path p).filter fun file => opens && decide ((fs.content file).length ≤ offMax)

/-- `open` with `O_RDWR | O_CREAT | O_TRUNC`. -/
def openTruncated (fs : MountedFiles) (p : String) (opens : Bool)
    (created : Option FileId) : Option (FileId × MountedFiles) :=
  match fs.path p with
  | some file => (openFile fs p opens).map fun _ =>
      (file, { fs with content := Function.update fs.content file [] })
  | none => created.map fun file =>
      (file, ⟨Function.update fs.path p (some file), Function.update fs.content file []⟩)

/-- `os_copy_file` -/
def osCopyFile (fs : MountedFiles) (o : CopyOutcomes fs) (fuel : ℕ) (oldpath newpath : String)
    (flag : ℤ) : Option (ℤ × MountedFiles) :=
  let oldlen := (openFile fs oldpath o.opensOld).map fun file => (fs.content file).length
  let newlen := (openFile fs newpath o.opensNew).map fun file => (fs.content file).length
  if flag = 1 ∧ newlen ≠ none ∧ oldlen = none then some (-1, fs)
  else if flag = 1 ∧ newlen ≠ none ∧ oldlen = newlen then some (0, fs)
  else
    match openFile fs oldpath o.opensOld with
    | none => some (-1, fs)
    | some fdin =>
        if (openFile fs newpath o.opensNew).map FileId.ino = some fdin.ino then some (0, fs)
        else
          match openTruncated fs newpath o.opensNew o.created with
          | none => some (-1, fs)
          | some (fdout, fs') =>
              (copyBlocks (fileReader o.reads fdin) (fileWriter o.writes fdout) fuel
                (fs.content fdin).length o.buf o.errno ⟨fs'.content, 0, 0, 0, 0⟩).map
                fun (ret, s) => (ret, { fs' with content := s.content })

/-! ## What the calls leave behind -/

section

variable {source target : FileId} {text : List UInt8} {s s' : CopyState}

/-- One read. -/
theorem fileReader_read {outcomes : ℕ → FileReadOutcome} {n : ℕ} {result : ReadResult}
    (hcall : (fileReader outcomes source).read s n = (result, s')) :
    s'.content = s.content ∧ s'.outOffset = s.outOffset
      ∧ s'.inOffset = s.inOffset + result.bytes.length
      ∧ result.bytes = ((s.content source).drop s.inOffset).take result.bytes.length
      ∧ (0 < n → result = .moved [] → (s.content source).length ≤ s.inOffset) := by
  rw [fileReader] at hcall
  dsimp only at hcall
  split at hcall
  · rename_i k _
    obtain ⟨rfl, rfl⟩ := Prod.mk.inj hcall
    refine ⟨rfl, rfl, rfl, ?_, fun hn hend => ?_⟩
    · rw [ReadResult.bytes, List.take_take, List.length_take, ← List.take_eq_take_min]
    · have hnil := ReadResult.moved.inj hend
      rw [List.take_take, List.take_eq_nil_iff] at hnil
      rcases hnil with h | h
      · omega
      · exact List.drop_eq_nil_iff.mp h
  · obtain ⟨rfl, rfl⟩ := Prod.mk.inj hcall
    exact ⟨rfl, rfl, rfl, rfl, fun _ h => by cases h⟩

/-- Reading moves the offset over the bytes of the file that are delivered, and nothing else. -/
theorem fileReader_calls {outcomes : ℕ → FileReadOutcome} {trace : List ReadResult}
    (h : (fileReader outcomes source).Calls s trace s') :
    s'.content = s.content ∧ s'.outOffset = s.outOffset
      ∧ s'.inOffset = s.inOffset + (delivered trace).length
      ∧ delivered trace = ((s.content source).drop s.inOffset).take (delivered trace).length := by
  have hinv := h.induct (fun got t => t.content = s.content ∧ t.outOffset = s.outOffset
      ∧ t.inOffset = s.inOffset + got.length
      ∧ got = ((s.content source).drop s.inOffset).take got.length) ⟨rfl, rfl, rfl, rfl⟩ ?_
  · exact hinv
  · rintro got t n result t' ⟨hcontent, hout, hin, hgot⟩ hcall
    obtain ⟨hcontent', hout', hin', hbytes, -⟩ := fileReader_read hcall
    rw [List.length_append]
    refine ⟨hcontent'.trans hcontent, hout'.trans hout, by omega, ?_⟩
    rw [List.take_add, ← hgot, List.drop_drop, ← hin, ← hcontent, ← hbytes]

/-- The end of the file is reported at the end only. -/
theorem fileReader_end {outcomes : ℕ → FileReadOutcome} {trace : List ReadResult}
    (h : (fileReader outcomes source).Calls s trace s') (hend : .moved [] ∈ trace) :
    (s.content source).length ≤ s'.inOffset := by
  obtain ⟨before, after, s₁, s₂, n, -, hbefore, hn, hcall, hafter⟩ := h.exists_call hend
  obtain ⟨hcontent, -⟩ := fileReader_calls hbefore
  obtain ⟨-, -, hin, -, hlen⟩ := fileReader_read hcall
  obtain ⟨-, -, hin', -⟩ := fileReader_calls hafter
  have := hlen hn rfl
  rw [hcontent] at this
  omega

/-- Writing appends to the file what is taken, when the offset is at its end. -/
theorem fileWriter_calls {outcomes : ℕ → WriteResult} {calls : List (List UInt8 × WriteResult)}
    (h : (fileWriter outcomes target).Calls s calls s')
    (hend : s.outOffset = (s.content target).length) :
    s'.content = Function.update s.content target (s.content target ++ taken calls)
      ∧ s'.inOffset = s.inOffset ∧ s'.outOffset = (s'.content target).length := by
  have hinv := h.induct (fun got t =>
      t.content = Function.update s.content target (s.content target ++ got)
      ∧ t.inOffset = s.inOffset ∧ t.outOffset = (t.content target).length)
    ⟨by rw [List.append_nil, Function.update_eq_self], rfl, hend⟩ ?_
  · exact hinv
  · rintro got t bytes result t' ⟨hcontent, hin, hout⟩ hcall
    rw [fileWriter] at hcall
    dsimp only at hcall
    split at hcall
    · obtain ⟨rfl, rfl⟩ := Prod.mk.inj hcall
      rename_i k _
      have hdrop : (t.content target).drop (t.outOffset + (bytes.take k).length) = [] := by
        apply List.drop_eq_nil_of_le
        omega
      have htake : (t.content target).take t.outOffset = t.content target := by
        rw [hout, List.take_length]
      have hold : t.content target = s.content target ++ got := by
        rw [hcontent, Function.update_self]
      have htaken : (WriteResult.moved (bytes.take k).length).taken bytes = bytes.take k := by
        rw [WriteResult.taken, List.length_take, ← List.take_eq_take_min]
      refine ⟨?_, hin, ?_⟩
      · dsimp only
        rw [hdrop, htake, hold, htaken, List.append_nil, List.append_assoc, hcontent,
          Function.update_idem]
      · dsimp only
        rw [Function.update_self, hdrop, htake, List.append_nil, List.length_append, hout]
    · obtain ⟨rfl, rfl⟩ := Prod.mk.inj hcall
      rw [WriteResult.taken, List.append_nil]
      exact ⟨hcontent, hin, hout⟩

/-! ## The loop over the blocks -/

/-- The first `off` bytes of the source are in the target. -/
structure CopiedUpTo (source target : FileId) (text : List UInt8) (off : ℕ) (s : CopyState) :
    Prop where
  source_eq : s.content source = text
  target_eq : s.content target = text.take off
  inOffset : s.inOffset = off
  outOffset : s.outOffset = off
  le : off ≤ text.length

/-- A block that is read and written. -/
theorem CopiedUpTo.block {off copylen : ℕ} (h : CopiedUpTo source target text off s)
    (hne : source ≠ target) (hle : off + copylen ≤ text.length)
    {reads : ℕ → FileReadOutcome} {writes : ℕ → WriteResult} {fuel errno errno₁ errno₂ : ℕ}
    {buf buf₁ : Mem} {s₁ s₂ : CopyState} {nread nwritten : ℤ}
    (hread : osReadn (fileReader reads source) fuel buf 0 copylen errno s
      = some (nread, buf₁, errno₁, s₁)) (hnread : ¬nread < 0)
    (hwrite : osWriten (fileWriter writes target) fuel buf₁ 0 copylen errno₁ s₁
      = some (nwritten, errno₂, s₂)) (hnwritten : ¬nwritten < 0) :
    CopiedUpTo source target text (off + copylen) s₂ := by
  obtain ⟨trace, hreads, hend⟩ := osReadnLoop_spec (le_refl copylen) hread
  obtain ⟨hcontent, hout, hin, hdel⟩ := fileReader_calls hreads
  rcases hend with ⟨rfl, -⟩ | ⟨-, hlen, hbuf, hshort⟩
  · exact absurd neg_one_lt_zero hnread
  have hfull : (delivered trace).length = copylen := by
    by_contra hlt
    have hfileEnd := fileReader_end hreads (hshort (by omega))
    rw [h.source_eq, hin, h.inOffset] at hfileEnd
    omega
  obtain ⟨calls, hwrites, rfl | ⟨-, htaken⟩⟩ := osWritenLoop_spec hwrite
  · exact absurd neg_one_lt_zero hnwritten
  have hblock : loadBytes buf₁ 0 copylen = (text.drop off).take copylen := by
    rw [hbuf, ← hfull, loadBytes_memcpy_inside, loadBytes_listMem]
    conv_lhs => rw [hdel]
    rw [h.source_eq, h.inOffset, hfull]
  have htarget : s₁.content target = text.take off := by rw [hcontent, h.target_eq]
  obtain ⟨hcontent₂, hin₂, hout₂⟩ := fileWriter_calls hwrites (by
    rw [hout, h.outOffset, htarget, List.length_take, Nat.min_eq_left h.le])
  have htarget₂ : s₂.content target = text.take (off + copylen) := by
    rw [hcontent₂, Function.update_self, htarget, htaken, hblock, List.take_add]
  refine ⟨?_, htarget₂, ?_, ?_, hle⟩
  · rw [hcontent₂, Function.update_of_ne hne, hcontent, h.source_eq]
  · rw [hin₂, hin, h.inOffset, hfull]
  · rw [hout₂, htarget₂, List.length_take, Nat.min_eq_left hle]

/-- When the loop reports success, all of the source is in the target. -/
theorem CopiedUpTo.loop {off leftlen : ℕ} (h : CopiedUpTo source target text off s)
    (hne : source ≠ target) (hleft : off + leftlen = text.length)
    {reads : ℕ → FileReadOutcome} {writes : ℕ → WriteResult} {fuel errno : ℕ} {buf : Mem}
    (hrun : copyBlocks (fileReader reads source) (fileWriter writes target) fuel leftlen buf errno s
      = some (0, s')) : CopiedUpTo source target text text.length s' := by
  induction fuel generalizing off leftlen buf errno s with
  | zero => cases hrun
  | succ fuel ih =>
    obtain ⟨copylen, hcopylen⟩ :
        ∃ n, n = if bucketSize < leftlen then bucketSize else leftlen := ⟨_, rfl⟩
    have hle : copylen ≤ leftlen := by
      rw [hcopylen]
      split <;> omega
    rw [copyBlocks] at hrun
    dsimp only at hrun
    rw [← hcopylen] at hrun
    obtain ⟨⟨nread, buf₁, errno₁, s₁⟩, hread, hrun⟩ := Option.bind_eq_some_iff.mp hrun
    split at hrun
    · cases hrun
    rename_i hnread
    obtain ⟨⟨nwritten, errno₂, s₂⟩, hwrite, hrun⟩ := Option.bind_eq_some_iff.mp hrun
    split at hrun
    · cases hrun
    rename_i hnwritten
    have hnext := h.block hne (by omega) hread hnread hwrite hnwritten
    split at hrun
    · obtain rfl : s₂ = s' := (Prod.mk.inj (Option.some.inj hrun)).2
      rwa [show off + copylen = text.length by omega] at hnext
    · exact ih hnext (by omega) hrun

end

/-! ## The whole copy -/

/-- When `os_copy_file` in its overwrite mode reports success, the destination holds what the
source did. -/
def CopyRight (fs : MountedFiles) (oldpath newpath : String) : Prop :=
  ∀ (o : CopyOutcomes fs) (fuel : ℕ) (fs' : MountedFiles),
    osCopyFile fs o fuel oldpath newpath 0 = some (0, fs') →
      ∃ source target, fs.path oldpath = some source ∧ fs'.path newpath = some target
        ∧ fs'.content target = fs.content source

/-- Both paths lead to files that can be opened, different ones with different content, and the
numbers of their inodes are the same. -/
def InodesCollide (fs : MountedFiles) (oldpath newpath : String) : Prop :=
  ∃ source target, fs.path oldpath = some source ∧ fs.path newpath = some target
    ∧ source.ino = target.ino ∧ fs.content source ≠ fs.content target
    ∧ (fs.content source).length ≤ offMax ∧ (fs.content target).length ≤ offMax

theorem openFile_eq_some {fs : MountedFiles} {p : String} {opens : Bool} {file : FileId} :
    openFile fs p opens = some file
      ↔ fs.path p = some file ∧ opens = true ∧ (fs.content file).length ≤ offMax := by
  rw [openFile, Option.filter_eq_some_iff, Bool.and_eq_true, decide_eq_true_iff]

/-- The file that is opened for writing, empty now; the others are as they were. -/
theorem openTruncated_eq_some {fs : MountedFiles} (o : CopyOutcomes fs) {newpath : String}
    {source target : FileId} {fs' : MountedFiles} (hsource : ∃ p, fs.path p = some source)
    (hino : (openFile fs newpath o.opensNew).map FileId.ino ≠ some source.ino)
    (h : openTruncated fs newpath o.opensNew o.created = some (target, fs')) :
    source ≠ target ∧ fs'.path newpath = some target ∧ fs'.content source = fs.content source
      ∧ fs'.content target = [] := by
  rw [openTruncated] at h
  split at h
  · rename_i file hpath
    obtain ⟨file', hopen, heq⟩ := Option.map_eq_some_iff.mp h
    obtain ⟨rfl, rfl⟩ := Prod.mk.inj heq
    have hne : source ≠ file := by
      rintro rfl
      obtain rfl : source = file' := by
        have hpath' := (openFile_eq_some.mp hopen).1
        rw [hpath] at hpath'
        exact Option.some.inj hpath'
      exact hino (by rw [hopen, Option.map_some])
    exact ⟨hne, hpath, Function.update_of_ne hne _ _, Function.update_self ..⟩
  · obtain ⟨file, hcreated, heq⟩ := Option.map_eq_some_iff.mp h
    obtain ⟨rfl, rfl⟩ := Prod.mk.inj heq
    have hne : source ≠ file := by
      rintro rfl
      obtain ⟨p, hp⟩ := hsource
      exact o.fresh source hcreated p hp
    exact ⟨hne, Function.update_self .., Function.update_of_ne hne _ _, Function.update_self ..⟩

/-- A copy makes at most the path it copies to. -/
theorem osCopyFile_path {fs fs₁ : MountedFiles} {c : CopyOutcomes fs} {fuel : ℕ}
    {oldpath newpath : String} {flag ret : ℤ}
    (h : osCopyFile fs c fuel oldpath newpath flag = some (ret, fs₁)) {p : String}
    (hp : p ≠ newpath) : fs₁.path p = fs.path p := by
  rw [osCopyFile] at h
  dsimp only at h
  split at h
  · rw [(Prod.mk.inj (Option.some.inj h)).2]
  split at h
  · rw [(Prod.mk.inj (Option.some.inj h)).2]
  split at h
  · rw [(Prod.mk.inj (Option.some.inj h)).2]
  split at h
  · rw [(Prod.mk.inj (Option.some.inj h)).2]
  split at h
  · rw [(Prod.mk.inj (Option.some.inj h)).2]
  rename_i fdout fs₂ hopen
  obtain ⟨⟨r, s⟩, -, heq⟩ := Option.map_eq_some_iff.mp h
  obtain rfl := (Prod.mk.inj heq).2
  rw [openTruncated] at hopen
  split at hopen
  · obtain ⟨-, -, heq⟩ := Option.map_eq_some_iff.mp hopen
    rw [← (Prod.mk.inj heq).2]
  · obtain ⟨file, -, heq⟩ := Option.map_eq_some_iff.mp hopen
    rw [← (Prod.mk.inj heq).2]
    exact Function.update_of_ne hp _ _

/-- A copy that reports success is one exactly if the paths do not lead to files with different
content and the same number. -/
theorem os_copy_file_copies_iff (fs : MountedFiles) (oldpath newpath : String) :
    CopyRight fs oldpath newpath ↔ ¬InodesCollide fs oldpath newpath := by
  constructor
  · rintro hright ⟨source, target, hsource, htarget, hino, hdiffer, hlen, hlen'⟩
    have hold : openFile fs oldpath true = some source :=
      openFile_eq_some.mpr ⟨hsource, rfl, hlen⟩
    have hnew : openFile fs newpath true = some target :=
      openFile_eq_some.mpr ⟨htarget, rfl, hlen'⟩
    have hrun : osCopyFile fs ⟨true, true, none, (fun _ h => by cases h), fun _ => .upTo 0,
        fun _ => .moved 0, 0, fun _ => 0⟩ 0 oldpath newpath 0 = some (0, fs) := by
      rw [osCopyFile]
      dsimp only
      rw [if_neg fun h => zero_ne_one h.1, if_neg fun h => zero_ne_one h.1, hold, hnew]
      dsimp only
      rw [Option.map_some, if_pos (by rw [hino])]
    obtain ⟨source', target', hsource', htarget', heq⟩ := hright _ _ _ hrun
    rw [hsource] at hsource'
    rw [htarget] at htarget'
    obtain rfl := Option.some.inj hsource'
    obtain rfl := Option.some.inj htarget'
    exact hdiffer heq.symm
  · intro hcollide o fuel fs' hrun
    rw [osCopyFile] at hrun
    dsimp only at hrun
    rw [if_neg fun h => zero_ne_one h.1, if_neg fun h => zero_ne_one h.1] at hrun
    split at hrun
    · cases (Prod.mk.inj (Option.some.inj hrun)).1
    rename_i source hold
    obtain ⟨hsource, -, hlen⟩ := openFile_eq_some.mp hold
    split at hrun
    · rename_i hino
      obtain rfl := (Prod.mk.inj (Option.some.inj hrun)).2
      obtain ⟨target, hnew, hino⟩ := Option.map_eq_some_iff.mp hino
      obtain ⟨htarget, -, hlen'⟩ := openFile_eq_some.mp hnew
      refine ⟨source, target, hsource, htarget, ?_⟩
      by_contra hdiffer
      exact hcollide ⟨source, target, hsource, htarget, hino.symm, Ne.symm hdiffer, hlen, hlen'⟩
    rename_i hino
    split at hrun
    · cases (Prod.mk.inj (Option.some.inj hrun)).1
    rename_i target fs₁ hopen
    obtain ⟨hne, hpath, hsame, hempty⟩ := openTruncated_eq_some o ⟨oldpath, hsource⟩ hino hopen
    obtain ⟨⟨ret, s⟩, hloop, heq⟩ := Option.map_eq_some_iff.mp hrun
    obtain ⟨rfl, rfl⟩ := Prod.mk.inj heq
    have hstart : CopiedUpTo source target (fs.content source) 0 ⟨fs₁.content, 0, 0, 0, 0⟩ :=
      ⟨hsame, hempty, rfl, rfl, Nat.zero_le _⟩
    have hend := hstart.loop hne (Nat.zero_add _) hloop
    refine ⟨source, target, hsource, hpath, ?_⟩
    rw [← List.take_length (l := fs.content source)]
    exact hend.target_eq

/-- Two cards with one file each: nothing is copied from one to the other. -/
theorem os_copy_file_other_card : ∃ fs oldpath newpath, ¬CopyRight fs oldpath newpath := by
  refine ⟨⟨fun p => if p = "/mnt/sd_card/param" then some ⟨1, 7⟩
      else if p = "/mnt/mtd/param" then some ⟨2, 7⟩ else none,
    fun file => if file.dev = 1 then [1] else [2]⟩, "/mnt/sd_card/param", "/mnt/mtd/param", ?_⟩
  intro hright
  obtain ⟨source, target, hsource, htarget, heq⟩ := hright ⟨true, true, none, (fun _ h => by cases h),
    fun _ => .upTo 0, fun _ => .moved 0, 0, fun _ => 0⟩ 0 _ rfl
  obtain rfl : (⟨1, 7⟩ : FileId) = source := Option.some.inj hsource
  obtain rfl : (⟨2, 7⟩ : FileId) = target := Option.some.inj htarget
  exact absurd heq (by decide)
