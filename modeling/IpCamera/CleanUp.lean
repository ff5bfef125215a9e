/-
# Making room on the card (`mmc_api.c`)

`grd_sd_del_oldest_avi_file` takes the directory with the least number, and in it
removes the `.avi` file whose first ten characters are the least number, or the whole
directory if it has no such file.  A number is what `atoi` reads of a name, so a name
that does not start with digits counts as `0`.

Proved: exactly when this removes the oldest recording (`clean_up_right_iff`).
-/
import IpCamera.SdCard

open CString

/-! ## The two searches -/

/-- What was removed from the card: `dir/file`, or all of `dir`. -/
inductive CleanUp
  | nothing
  | removed (dir file : List Char)
  | removedDir (dir : List Char)
  deriving DecidableEq, Repr

/-- A directory the first search looks at. -/
def Dirent.isSubdir (ent : Dirent) : Bool := ent.hasDirBit && !ent.isDots

/-- The loop of `find_oldest_dir`. -/
def oldestDirNumber : (min : ℤ) → List Dirent → ℤ
  | min, [] => min
  | min, ent :: ents =>
      if ent.isSubdir then
        let tmp := atoi ent.d_name
        oldestDirNumber (if tmp < min then tmp else min) ents
      else oldestDirNumber min ents

/-- `find_oldest_dir`: the name of the directory in the mount point. -/
def findOldestDir (card : SdCard) : Option (List Char) :=
  card.root.bind fun ents =>
    let min := oldestDirNumber 99999999 ents
    if 99999999 = min then none else some (printD min)

/-- A file the second search looks at. -/
def Dirent.isAviFile (ent : Dirent) : Bool := ent.hasRegBit && isAviFileFormat ent.d_name

/-- The number of a file: its first ten characters. -/
def fileNumber (fileName : List Char) : ℤ := atoll ((aviSubstring fileName 0 10).getD [])

/-- `find_oldest_file`; no result when the name overruns `min_filename`. -/
def findOldestFile (fileName : List Char) (min : ℤ) (minFilename : List Char) :
    Option (ℤ × List Char) :=
  let tmp32 := fileNumber fileName
  if tmp32 < min then
    if fileName.length ≥ 128 then none else some (tmp32, fileName)
  else some (min, minFilename)

/-- The loop of `del_oldest_file`. -/
def oldestFile : List Dirent → (min : ℤ) → (minFilename : List Char) → Option (ℤ × List Char)
  | [], min, minFilename => some (min, minFilename)
  | ent :: ents, min, minFilename =>
      if ent.isAviFile then
        (findOldestFile ent.d_name min minFilename).bind fun p => oldestFile ents p.1 p.2
      else oldestFile ents min minFilename

/-- `del_oldest_file`, with `remove` and `rm` succeeding: its return value and what it removes. -/
def delOldestFile (card : SdCard) (minDir : List Char) : Option (ℤ × CleanUp) :=
  match card.dir minDir with
  | none => some (-1, .nothing)
  | some ents =>
      (oldestFile ents 99999999999999 []).bind fun (min, minFilename) =>
        if min ≠ 99999999999999 then
          if (sdPath minDir ++ '/' :: minFilename).length ≥ 128 then none
          else some (0, .removed minDir minFilename)
        else some (3, .removedDir minDir)

/-- `grd_sd_del_oldest_avi_file` -/
def grdSdDelOldestAviFile (card : SdCard) : Option (ℤ × CleanUp) :=
  match findOldestDir card with
  | none => some (2, .nothing)
  | some minDir => (delOldestFile card minDir).map fun p => (0, p.2)

/-! ## What the searches find -/

/-- The least number, and where it comes from. -/
theorem oldestDirNumber_spec (ents : List Dirent) :
    ∀ min, oldestDirNumber min ents ≤ min
      ∧ (∀ ent ∈ ents, ent.isSubdir → oldestDirNumber min ents ≤ atoi ent.d_name)
      ∧ (oldestDirNumber min ents = min
        ∨ ∃ ent ∈ ents, ent.isSubdir ∧ atoi ent.d_name = oldestDirNumber min ents) := by
  induction ents with
  | nil =>
    intro min
    exact ⟨le_rfl, by simp, .inl rfl⟩
  | cons ent ents ih =>
    intro min
    unfold oldestDirNumber
    split
    · rename_i hdir
      dsimp only
      set next := if atoi ent.d_name < min then atoi ent.d_name else min with hnext
      have hle : next ≤ min ∧ next ≤ atoi ent.d_name := by
        rw [hnext]
        split <;> omega
      obtain ⟨hmin, hall, hfrom⟩ := ih next
      refine ⟨hmin.trans hle.1, ?_, ?_⟩
      · intro e he hedir
        rcases List.mem_cons.mp he with rfl | he
        · exact hmin.trans hle.2
        · exact hall e he hedir
      · rcases hfrom with heq | ⟨e, he, hedir, heq⟩
        · by_cases hlt : atoi ent.d_name < min
          · rw [if_pos hlt] at hnext
            exact .inr ⟨ent, by simp, hdir, by rw [heq, hnext]⟩
          · rw [if_neg hlt] at hnext
            exact .inl (heq.trans hnext)
        · exact .inr ⟨e, by simp [he], hedir, heq⟩
    · rename_i hdir
      obtain ⟨hmin, hall, hfrom⟩ := ih min
      refine ⟨hmin, ?_, ?_⟩
      · intro e he hedir
        rcases List.mem_cons.mp he with rfl | he
        · exact absurd hedir hdir
        · exact hall e he hedir
      · rcases hfrom with heq | ⟨e, he, hedir, heq⟩
        · exact .inl heq
        · exact .inr ⟨e, by simp [he], hedir, heq⟩

/-- Every `.avi` file whose number is below those before it has a name that fits `min_filename`. -/
def NamesFit : (min : ℤ) → List Dirent → Prop
  | _, [] => True
  | min, ent :: ents =>
      if ent.isAviFile ∧ fileNumber ent.d_name < min then
        ent.d_name.length < 128 ∧ NamesFit (fileNumber ent.d_name) ents
      else NamesFit min ents

theorem oldestFile_cons_keep {ent : Dirent} {ents : List Dirent} {min : ℤ} (minFilename : List Char)
    (h : ¬ (ent.isAviFile ∧ fileNumber ent.d_name < min)) :
    oldestFile (ent :: ents) min minFilename = oldestFile ents min minFilename := by
  rw [oldestFile]
  by_cases havi : ent.isAviFile
  · have hnum : ¬ fileNumber ent.d_name < min := fun hlt => h ⟨havi, hlt⟩
    rw [if_pos havi, findOldestFile, if_neg hnum, Option.bind_some]
  · rw [if_neg havi]

theorem oldestFile_cons_take {ent : Dirent} {ents : List Dirent} {min : ℤ} (minFilename : List Char)
    (h : ent.isAviFile ∧ fileNumber ent.d_name < min) (hlen : ent.d_name.length < 128) :
    oldestFile (ent :: ents) min minFilename
      = oldestFile ents (fileNumber ent.d_name) ent.d_name := by
  rw [oldestFile, if_pos h.1, findOldestFile, if_pos h.2, if_neg (by omega), Option.bind_some]

theorem oldestFile_cons_overrun {ent : Dirent} {ents : List Dirent} {min : ℤ}
    (minFilename : List Char) (h : ent.isAviFile ∧ fileNumber ent.d_name < min)
    (hlen : ¬ ent.d_name.length < 128) : oldestFile (ent :: ents) min minFilename = none := by
  rw [oldestFile, if_pos h.1, findOldestFile, if_pos h.2, if_pos (by omega), Option.bind_none]

/-- A file is first with the least number: strictly before, no smaller after. -/
structure FirstLeast (files before : List Dirent) (ent : Dirent) (after : List Dirent) : Prop where
  split : files = before ++ ent :: after
  avi : ent.isAviFile
  before_gt : ∀ f ∈ before, f.isAviFile → fileNumber ent.d_name < fileNumber f.d_name
  after_ge : ∀ f ∈ after, f.isAviFile → fileNumber ent.d_name ≤ fileNumber f.d_name

/-- A file in front that does not come before the first one of the least number. -/
theorem FirstLeast.cons {files before after : List Dirent} {ent f : Dirent}
    (hfirst : FirstLeast files before ent after)
    (hf : f.isAviFile → fileNumber ent.d_name < fileNumber f.d_name) :
    FirstLeast (f :: files) (f :: before) ent after where
  split := by
    rw [hfirst.split]
    rfl
  avi := hfirst.avi
  before_gt := List.forall_mem_cons.mpr ⟨hf, hfirst.before_gt⟩
  after_ge := hfirst.after_ge

/-- The search ends with the bound it had, or with the first file of the least number. -/
theorem oldestFile_some (files : List Dirent) :
    ∀ {min m : ℤ} {minFilename x : List Char}, oldestFile files min minFilename = some (m, x) →
      NamesFit min files
      ∧ ((m = min ∧ x = minFilename ∧ ∀ f ∈ files, f.isAviFile → min ≤ fileNumber f.d_name)
        ∨ ∃ before ent after, FirstLeast files before ent after ∧ fileNumber ent.d_name = m
          ∧ ent.d_name = x ∧ m < min) := by
  induction files with
  | nil =>
    intro min m minFilename x h
    obtain ⟨rfl, rfl⟩ := Prod.mk.inj (Option.some.inj h)
    exact ⟨trivial, .inl ⟨rfl, rfl, by simp⟩⟩
  | cons f files ih =>
    intro min m minFilename x h
    by_cases htake : f.isAviFile ∧ fileNumber f.d_name < min
    · by_cases hlen : f.d_name.length < 128
      · -- a smaller number: the first of the least is this file, or a later one below it
        rw [oldestFile_cons_take minFilename htake hlen] at h
        obtain ⟨hfit, hcases⟩ := ih h
        refine ⟨by rw [NamesFit, if_pos htake]; exact ⟨hlen, hfit⟩, .inr ?_⟩
        rcases hcases with ⟨rfl, rfl, hall⟩ | ⟨before, ent, after, hfirst, hnum, hname, hlt⟩
        · exact ⟨[], f, files, ⟨rfl, htake.1, by simp, hall⟩, rfl, rfl, htake.2⟩
        · exact ⟨f :: before, ent, after, hfirst.cons fun _ => hnum ▸ hlt, hnum, hname,
            hlt.trans htake.2⟩
      · rw [oldestFile_cons_overrun minFilename htake hlen] at h
        cases h
    · -- the bound is kept, and the file is not below it
      rw [oldestFile_cons_keep minFilename htake] at h
      obtain ⟨hfit, hcases⟩ := ih h
      have hge : f.isAviFile → min ≤ fileNumber f.d_name := fun havi =>
        not_lt.mp fun hlt => htake ⟨havi, hlt⟩
      refine ⟨by rw [NamesFit, if_neg htake]; exact hfit, ?_⟩
      rcases hcases with ⟨rfl, rfl, hall⟩ | ⟨before, ent, after, hfirst, hnum, hname, hlt⟩
      · refine .inl ⟨rfl, rfl, fun g hg hgavi => ?_⟩
        rcases List.mem_cons.mp hg with rfl | hg
        · exact hge hgavi
        · exact hall g hg hgavi
      · exact .inr ⟨f :: before, ent, after,
          hfirst.cons fun havi => hnum ▸ hlt.trans_le (hge havi), hnum, hname, hlt⟩

/-- Nothing below the bound: the search keeps it. -/
theorem oldestFile_keep (files : List Dirent) {min : ℤ} (minFilename : List Char)
    (h : ∀ f ∈ files, f.isAviFile → min ≤ fileNumber f.d_name) :
    oldestFile files min minFilename = some (min, minFilename) := by
  induction files with
  | nil => rfl
  | cons f files ih =>
    have hkeep : ¬ (f.isAviFile ∧ fileNumber f.d_name < min) := fun hf =>
      absurd (h f (by simp) hf.1) (not_le.mpr hf.2)
    rw [oldestFile_cons_keep minFilename hkeep]
    exact ih fun g hg => h g (by simp [hg])

/-- The search finds the first file of the least number. -/
theorem oldestFile_first (before : List Dirent) {ent : Dirent} {after : List Dirent} :
    ∀ {files : List Dirent} {min : ℤ} (minFilename : List Char), FirstLeast files before ent after →
      fileNumber ent.d_name < min → NamesFit min files →
      oldestFile files min minFilename = some (fileNumber ent.d_name, ent.d_name) := by
  induction before with
  | nil =>
    intro files min minFilename hfirst hlt hfit
    rw [hfirst.split, List.nil_append] at hfit ⊢
    rw [NamesFit, if_pos ⟨hfirst.avi, hlt⟩] at hfit
    rw [oldestFile_cons_take minFilename ⟨hfirst.avi, hlt⟩ hfit.1]
    exact oldestFile_keep after _ hfirst.after_ge
  | cons f before ih =>
    intro files min minFilename hfirst hlt hfit
    rw [hfirst.split, List.cons_append] at hfit ⊢
    have hrest : FirstLeast (before ++ ent :: after) before ent after :=
      ⟨rfl, hfirst.avi, fun g hg => hfirst.before_gt g (by simp [hg]), hfirst.after_ge⟩
    by_cases htake : f.isAviFile ∧ fileNumber f.d_name < min
    · rw [NamesFit, if_pos htake] at hfit
      rw [oldestFile_cons_take minFilename htake hfit.1]
      exact ih _ hrest (hfirst.before_gt f (by simp) htake.1) hfit.2
    · rw [NamesFit, if_neg htake] at hfit
      rw [oldestFile_cons_keep minFilename htake]
      exact ih _ hrest hlt hfit

/-! ## The recordings on the card -/

/-- `YYYYMMDD` as a number. -/
structure IsDate (n : ℕ) : Prop where
  year_ge : 1000 ≤ n / 10000
  year_le : n / 10000 ≤ 9999
  month_ge : 1 ≤ n / 100 % 100
  month_le : n / 100 % 100 ≤ 12
  day_ge : 1 ≤ n % 100
  day_le : n % 100 ≤ 31

/-- `<start>-<seconds>.avi` -/
def finishedName (start seconds : ℕ) : List Char :=
  Nat.toDigits 10 start ++ '-' :: (Nat.toDigits 10 seconds ++ ['.', 'a', 'v', 'i'])

namespace SdCard

variable (card : SdCard)

/-- The card has the directory of the date. -/
def DateDir (date : ℕ) : Prop :=
  IsDate date ∧ ∃ ents, card.root = some ents ∧ (⟨dtDir, Nat.toDigits 10 date⟩ : Dirent) ∈ ents

/-- The file stands in the directory of the date. -/
def HasFile (date : ℕ) (name : List Char) : Prop :=
  card.DateDir date
    ∧ ∃ files, card.dir (Nat.toDigits 10 date) = some files ∧ (⟨dtReg, name⟩ : Dirent) ∈ files

/-- A finished recording; start time and seconds are an `unsigned long long` and an `int`. -/
def Finished (date start seconds : ℕ) : Prop :=
  start < 18446744073709551616 ∧ seconds < 2147483648
    ∧ card.HasFile date (finishedName start seconds)

/-- A recording still being written. -/
def Unfinished (date start : ℕ) : Prop := card.HasFile date (Nat.toDigits 10 start)

def HoldsRecording (date : ℕ) : Prop :=
  (∃ start seconds, card.Finished date start seconds) ∨ ∃ start, card.Unfinished date start

/-- The oldest date directory. -/
def OldestDate (date : ℕ) : Prop :=
  card.DateDir date ∧ ∀ date', card.DateDir date' → date ≤ date'

/-- A finished recording with the earliest start time of the card. -/
def Earliest (date start seconds : ℕ) : Prop :=
  card.Finished date start seconds
    ∧ ∀ date' start' seconds', card.Finished date' start' seconds' → start ≤ start'

/-- What a clean-up should remove: the oldest date directory if it holds no recording, otherwise a
finished recording with the earliest start time, if there is one. -/
def Right : CleanUp → Prop
  | .removedDir dir => ∃ date, card.OldestDate date ∧ ¬ card.HoldsRecording date
      ∧ dir = Nat.toDigits 10 date
  | .removed dir file => (∃ oldest, card.OldestDate oldest ∧ card.HoldsRecording oldest)
      ∧ ∃ date start seconds, card.Earliest date start seconds
        ∧ dir = Nat.toDigits 10 date ∧ file = finishedName start seconds
  | .nothing => (∃ oldest, card.OldestDate oldest ∧ card.HoldsRecording oldest)
      ∧ ∀ date start seconds, ¬ card.Finished date start seconds

/-- The number belongs to a directory the first search looks at. -/
def DirNumber (n : ℤ) : Prop :=
  ∃ ents, card.root = some ents ∧ ∃ ent ∈ ents, ent.isSubdir ∧ atoi ent.d_name = n

/-- No directory's number is below the date. -/
def Uncaptured (date : ℕ) : Prop := ∀ n, card.DirNumber n → (date : ℤ) ≤ n

/-- In the directory of the date the first `.avi` file of the least number is a finished recording
with the earliest start time of the card, and the names before it fit the buffer. -/
def StartsWithEarliest (date : ℕ) : Prop :=
  ∃ files before ent after start seconds, card.dir (Nat.toDigits 10 date) = some files
    ∧ NamesFit 99999999999999 files ∧ FirstLeast files before ent after
    ∧ ent.d_name = finishedName start seconds ∧ card.Earliest date start seconds

/-- The directory of the date has neither an `.avi` file nor a recording. -/
def Abandoned (date : ℕ) : Prop :=
  (∃ files, card.dir (Nat.toDigits 10 date) = some files ∧ ∀ f ∈ files, ¬ f.isAviFile)
    ∧ ¬ card.HoldsRecording date

/-- The least number is no directory's name, and there is no finished recording to remove. -/
def NothingToRemove (date : ℕ) : Prop :=
  (∃ n, card.DirNumber n ∧ n < date ∧ (∀ n', card.DirNumber n' → n ≤ n') ∧ card.dir (printD n) = none)
    ∧ card.HoldsRecording date ∧ ∀ date start seconds, ¬ card.Finished date start seconds

end SdCard

/-! ## Numbers of dates and recordings -/

theorem IsDate.lt {n : ℕ} (h : IsDate n) : n < 99999999 := by
  have h₁ := h.year_le
  have h₂ := h.month_le
  have h₃ := h.day_le
  omega

theorem IsDate.atoi_toDigits {n : ℕ} (h : IsDate n) : atoi (Nat.toDigits 10 n) = n := by
  have hread := strtol_toDigits_append n stops_nil
  rw [List.append_nil] at hread
  exact atoi_of_strtol hread (by have := h.lt; omega)

theorem toDigits_injective {m n : ℕ} (h : Nat.toDigits 10 m = Nat.toDigits 10 n) : m = n := by
  rw [← Nat.ofDigitChars_ten_toDigits (n := m), h, Nat.ofDigitChars_ten_toDigits]

theorem printD_natCast (n : ℕ) : printD n = Nat.toDigits 10 n := by
  rw [printD, if_pos (by omega), Int.toNat_natCast]

/-- Only the number itself is printed as a date. -/
theorem printD_eq_toDigits {m : ℤ} {n : ℕ} (h : printD m = Nat.toDigits 10 n) : m = n := by
  rw [printD] at h
  split at h
  · have := toDigits_injective h
    omega
  · have hminus : '-' ∈ Nat.toDigits 10 n := by
      rw [← h]
      simp
    exact absurd (digits_toDigits n '-' hminus) (by decide)

theorem SdCard.DateDir.dirNumber {card : SdCard} {date : ℕ} (h : card.DateDir date) :
    card.DirNumber date := by
  obtain ⟨hdate, ents, hroot, hmem⟩ := h
  refine ⟨ents, hroot, _, hmem, ?_, hdate.atoi_toDigits⟩
  have hdots : (⟨dtDir, Nat.toDigits 10 date⟩ : Dirent).isDots = false := by
    have hdot : '.' ∉ Nat.toDigits 10 date := fun h =>
      absurd (digits_toDigits date '.' h) (by decide)
    have h₁ : Nat.toDigits 10 date ≠ ['.'] := fun h => hdot (by simp [h])
    have h₂ : Nat.toDigits 10 date ≠ ['.', '.'] := fun h => hdot (by simp [h])
    simp [Dirent.isDots, h₁, h₂]
  rw [Dirent.isSubdir, hdots]
  simp [Dirent.hasDirBit, dtDir]

theorem SdCard.OldestDate.unique {card : SdCard} {m n : ℕ} (hm : card.OldestDate m)
    (hn : card.OldestDate n) : m = n :=
  le_antisymm (hm.2 n hn.1) (hn.2 m hm.1)

/-- A file number is a number of ten characters. -/
theorem fileNumber_lt (name : List Char) : fileNumber name < 99999999999999 := by
  have hlen : ((aviSubstring name 0 10).getD []).length ≤ 10 := by
    rw [aviSubstring, if_neg (by omega)]
    simp only [Option.getD_some, List.drop_zero, List.length_take]
    split <;> omega
  have hlt := strtol_lt ((aviSubstring name 0 10).getD [])
  have hpow : (10 : ℤ) ^ ((aviSubstring name 0 10).getD []).length ≤ 10 ^ 10 :=
    pow_le_pow_right₀ (by decide) hlen
  rw [fileNumber, atoll]
  omega

theorem isAviFile_finished (start seconds : ℕ) :
    (⟨dtReg, finishedName start seconds⟩ : Dirent).isAviFile := by
  have hinfix : ['.', 'a', 'v', 'i'] <:+: finishedName start seconds :=
    ⟨Nat.toDigits 10 start ++ '-' :: Nat.toDigits 10 seconds, [], by simp [finishedName]⟩
  simp [Dirent.isAviFile, Dirent.hasRegBit, dtReg, isAviFileFormat, isAviFormat, hinfix]

theorem length_finishedName {start seconds : ℕ} (hstart : start < 18446744073709551616)
    (hsec : seconds < 2147483648) : (finishedName start seconds).length ≤ 35 := by
  have h₁ : (Nat.toDigits 10 start).length ≤ 20 :=
    (Nat.length_toDigits_le_iff (by decide) (by decide)).mpr (by omega)
  have h₂ : (Nat.toDigits 10 seconds).length ≤ 10 :=
    (Nat.length_toDigits_le_iff (by decide) (by decide)).mpr (by omega)
  simp only [finishedName, List.length_append, List.length_cons, List.length_nil]
  omega

/-- The start time can be read from the name. -/
theorem finishedName_start {start start' seconds seconds' : ℕ}
    (h : finishedName start seconds = finishedName start' seconds') : start = start' := by
  have hminus : ¬ '-'.isDigit := by decide
  have h₁ := strtol_toDigits_append start
    (stops_cons hminus (Nat.toDigits 10 seconds ++ ['.', 'a', 'v', 'i']))
  have h₂ := strtol_toDigits_append start'
    (stops_cons hminus (Nat.toDigits 10 seconds' ++ ['.', 'a', 'v', 'i']))
  rw [finishedName, finishedName] at h
  rw [h, h₂] at h₁
  exact_mod_cast h₁.symm

/-- The seconds can be read from the name. -/
theorem finishedName_seconds {start seconds seconds' : ℕ}
    (h : finishedName start seconds = finishedName start seconds') : seconds = seconds' := by
  have hrest := List.append_cancel_left h
  have hdigits := List.append_cancel_right (List.cons.inj hrest).2
  exact toDigits_injective hdigits

/-! ## When the right thing is removed -/

variable {card : SdCard} {date : ℕ}

/-- With a date directory on the card, the first search prints the least number. -/
theorem findOldestDir_of_dateDir (h : card.DateDir date) :
    ∃ m, card.DirNumber m ∧ (∀ n, card.DirNumber n → m ≤ n)
      ∧ findOldestDir card = some (printD m) := by
  obtain ⟨ents, hroot, ent, hent, hsub, hnum⟩ := h.dirNumber
  obtain ⟨-, hall, hfrom⟩ := oldestDirNumber_spec ents 99999999
  have hle := hall ent hent hsub
  have hdate := h.1.lt
  have hne : ¬ (99999999 : ℤ) = oldestDirNumber 99999999 ents := by omega
  refine ⟨oldestDirNumber 99999999 ents, ?_, ?_, ?_⟩
  · rcases hfrom with heq | ⟨e, he, hedir, heq⟩
    · exact absurd heq.symm hne
    · exact ⟨ents, hroot, e, he, hedir, heq⟩
  · rintro n ⟨ents', hroot', e, he, hedir, rfl⟩
    obtain rfl := Option.some.inj (hroot.symm.trans hroot')
    exact hall e he hedir
  · rw [findOldestDir, hroot, Option.bind_some]
    dsimp only
    rw [if_neg hne]

/-- The second search in the oldest date directory. -/
theorem delOldestFile_right_iff (hold : card.OldestDate date)
    (hopen : (card.dir (Nat.toDigits 10 date)).isSome) :
    (∃ ret outcome, delOldestFile card (Nat.toDigits 10 date) = some (ret, outcome)
        ∧ card.Right outcome)
      ↔ card.Abandoned date ∨ card.StartsWithEarliest date := by
  obtain ⟨files, hfiles⟩ := Option.isSome_iff_exists.mp hopen
  rw [delOldestFile, hfiles]
  dsimp only
  constructor
  · rintro ⟨ret, outcome, hdel, hright⟩
    obtain ⟨⟨m, x⟩, hsearch, hdel⟩ := Option.bind_eq_some_iff.mp hdel
    dsimp only at hdel
    obtain ⟨hfit, ⟨rfl, rfl, hnone⟩ | ⟨before, ent, after, hfirst, hnum, hname, hlt⟩⟩ :=
      oldestFile_some files hsearch
    · -- no `.avi` file: the directory was removed
      rw [if_neg (by simp)] at hdel
      obtain ⟨-, rfl⟩ := Prod.mk.inj (Option.some.inj hdel)
      obtain ⟨date', hold', hempty, hdir⟩ := hright
      obtain rfl := toDigits_injective hdir
      refine .inl ⟨⟨files, hfiles, fun f hf havi => ?_⟩, hempty⟩
      exact absurd (hnone f hf havi) (not_le.mpr (fileNumber_lt f.d_name))
    · -- a file was removed: it is the one with the least number, so that is the earliest
      rw [if_pos (by omega)] at hdel
      split at hdel
      · cases hdel
      · obtain ⟨-, rfl⟩ := Prod.mk.inj (Option.some.inj hdel)
        obtain ⟨-, date', start, seconds, hearliest, hdir, hfile⟩ := hright
        obtain rfl := toDigits_injective hdir
        exact .inr ⟨files, before, ent, after, start, seconds, hfiles, hfit, hfirst,
          hname.trans hfile, hearliest⟩
  · rintro (⟨⟨files', hfiles', hnone⟩, hempty⟩
      | ⟨files', before, ent, after, start, seconds, hfiles', hfit, hfirst, hname, hearliest⟩)
    · obtain rfl := Option.some.inj (hfiles.symm.trans hfiles')
      rw [oldestFile_keep files [] fun f hf havi => absurd havi (hnone f hf), Option.bind_some]
      dsimp only
      rw [if_neg (by simp)]
      exact ⟨_, _, rfl, date, hold, hempty, rfl⟩
    · obtain rfl := Option.some.inj (hfiles.symm.trans hfiles')
      have hlt := fileNumber_lt ent.d_name
      have hlen := length_finishedName hearliest.1.1 hearliest.1.2.1
      have hdatelen : (Nat.toDigits 10 date).length ≤ 8 :=
        (Nat.length_toDigits_le_iff (by decide) (by decide)).mpr (by have := hold.1.1.lt; omega)
      have hmount : grdSdMountPoint.toList.length = 12 := by decide
      rw [oldestFile_first before [] hfirst hlt hfit, Option.bind_some]
      dsimp only
      rw [if_pos (by omega), if_neg (by
        rw [hname, sdPath]
        simp only [List.length_append, List.length_cons, hmount]
        omega)]
      exact ⟨_, _, rfl, ⟨date, hold, .inl ⟨start, seconds, hearliest.1⟩⟩, date, start, seconds,
        hearliest, rfl, hname⟩

/-- A directory that is not a date directory: what is removed from it is never right. -/
theorem delOldestFile_captured {n : ℤ} {outcome : CleanUp} {ret : ℤ} (hold : card.OldestDate date)
    (hlt : n < date) (hdel : delOldestFile card (printD n) = some (ret, outcome))
    (hright : card.Right outcome) : card.dir (printD n) = none ∧ outcome = .nothing := by
  unfold delOldestFile at hdel
  split at hdel
  · rename_i hnone
    obtain ⟨-, rfl⟩ := Prod.mk.inj (Option.some.inj hdel)
    exact ⟨hnone, rfl⟩
  · -- the directory removed from has a number below every date
    exfalso
    obtain ⟨⟨m, x⟩, -, hdel⟩ := Option.bind_eq_some_iff.mp hdel
    dsimp only at hdel
    split at hdel
    · split at hdel
      · cases hdel
      · obtain ⟨-, rfl⟩ := Prod.mk.inj (Option.some.inj hdel)
        obtain ⟨-, date', start, seconds, hearliest, hdir, -⟩ := hright
        have hn := printD_eq_toDigits hdir
        have hle := hold.2 date' hearliest.1.2.2.1
        omega
    · obtain ⟨-, rfl⟩ := Prod.mk.inj (Option.some.inj hdel)
      obtain ⟨date', hold', -, hdir⟩ := hright
      have hn := printD_eq_toDigits hdir
      have hle := hold.2 date' hold'.1
      omega

theorem SdCard.HoldsRecording.dateDir (h : card.HoldsRecording date) : card.DateDir date := by
  rcases h with ⟨start, seconds, h⟩ | ⟨start, h⟩
  · exact h.2.2.1
  · exact h.1

theorem SdCard.DateDir.exists_oldest (h : card.DateDir date) :
    ∃ oldest, card.OldestDate oldest := by
  obtain ⟨oldest, hdir, hmin⟩ := Nat.lt_wfRel.wf.has_min {n | card.DateDir n} ⟨date, h⟩
  exact ⟨oldest, hdir, fun n hn => not_lt.mp (hmin n hn)⟩

/-- **When a clean-up removes the oldest recording.** -/
theorem clean_up_right_iff (card : SdCard)
    (hopen : ∀ date, card.DateDir date → (card.dir (Nat.toDigits 10 date)).isSome)
    (hrecording : ∃ date, card.HoldsRecording date) :
    (∃ ret outcome, grdSdDelOldestAviFile card = some (ret, outcome) ∧ card.Right outcome)
      ↔ ∃ date, card.OldestDate date
        ∧ (card.Uncaptured date ∧ (card.Abandoned date ∨ card.StartsWithEarliest date)
          ∨ card.NothingToRemove date) := by
  obtain ⟨date₀, hrec⟩ := hrecording
  obtain ⟨date, hold⟩ := hrec.dateDir.exists_oldest
  obtain ⟨m, hm, hmin, hfind⟩ := findOldestDir_of_dateDir hold.1
  have hle : m ≤ date := hmin date hold.1.dirNumber
  have hrun : (∃ ret outcome, grdSdDelOldestAviFile card = some (ret, outcome) ∧ card.Right outcome)
      ↔ ∃ ret outcome, delOldestFile card (printD m) = some (ret, outcome) ∧ card.Right outcome := by
    rw [grdSdDelOldestAviFile, hfind]
    dsimp only
    constructor
    · rintro ⟨ret, outcome, hrun, hright⟩
      obtain ⟨⟨ret', outcome'⟩, hdel, heq⟩ := Option.map_eq_some_iff.mp hrun
      obtain ⟨-, rfl⟩ := Prod.mk.inj heq
      exact ⟨ret', outcome', hdel, hright⟩
    · rintro ⟨ret, outcome, hdel, hright⟩
      rw [hdel]
      exact ⟨0, outcome, rfl, hright⟩
  rw [hrun]
  by_cases hcaptured : m < date
  · -- some other directory has the least number: only removing nothing can be right
    constructor
    · rintro ⟨ret, outcome, hdel, hright⟩
      obtain ⟨hnone, rfl⟩ := delOldestFile_captured hold hcaptured hdel hright
      obtain ⟨⟨oldest, hold', hholds⟩, hnofinished⟩ := hright
      obtain rfl := hold.unique hold'
      exact ⟨date, hold, .inr ⟨⟨m, hm, hcaptured, hmin, hnone⟩, hholds, hnofinished⟩⟩
    · rintro ⟨date', hold', ⟨hfree, -⟩ | ⟨⟨n, hn, -, hleast, hnone⟩, hholds, hnofinished⟩⟩
      · obtain rfl := hold.unique hold'
        exact absurd (hfree m hm) (not_le.mpr hcaptured)
      · obtain rfl := le_antisymm (hmin n hn) (hleast m hm)
        refine ⟨-1, .nothing, ?_, ⟨date', hold', hholds⟩, hnofinished⟩
        rw [delOldestFile, hnone]
  · -- the least number is the oldest date, and the second search decides
    obtain rfl : m = date := by omega
    rw [printD_natCast, delOldestFile_right_iff hold (hopen date hold.1)]
    constructor
    · exact fun h => ⟨date, hold, .inl ⟨hmin, h⟩⟩
    · rintro ⟨date', hold', ⟨-, h⟩ | ⟨⟨n, hn, hlt, -⟩, -⟩⟩
      · obtain rfl := hold.unique hold'
        exact h
      · obtain rfl := hold.unique hold'
        exact absurd (hmin n hn) (not_le.mpr hlt)

/-- A card with one finished recording of 2024-01-01, and further directories. -/
def oneDayCard (others : List Dirent) : SdCard where
  root := some (⟨dtDir, Nat.toDigits 10 20240101⟩ :: others)
  dir name :=
    if name = Nat.toDigits 10 20240101 then some [⟨dtReg, finishedName 1704067200 60⟩] else none

theorem oneDayCard_dir (others : List Dirent) :
    (oneDayCard others).dir (Nat.toDigits 10 20240101)
      = some [⟨dtReg, finishedName 1704067200 60⟩] := by
  simp only [oneDayCard, if_true]

theorem isDate_sample : IsDate 20240101 :=
  ⟨by decide, by decide, by decide, by decide, by decide, by decide⟩

theorem oneDayCard_dateDir (others : List Dirent) : (oneDayCard others).DateDir 20240101 :=
  ⟨isDate_sample, _, rfl, by simp⟩

theorem oneDayCard_finished (others : List Dirent) :
    (oneDayCard others).Finished 20240101 1704067200 60 :=
  ⟨by decide, by decide, oneDayCard_dateDir others, _, oneDayCard_dir others, by simp⟩

theorem clean_up_right_one_day :
    ∃ ret outcome, grdSdDelOldestAviFile (oneDayCard []) = some (ret, outcome)
      ∧ (oneDayCard []).Right outcome := by
  have honly : ∀ date, (oneDayCard []).DateDir date → date = 20240101 := by
    rintro date ⟨-, ents, hroot, hmem⟩
    obtain rfl := Option.some.inj hroot
    exact toDigits_injective (congrArg Dirent.d_name (List.mem_singleton.mp hmem))
  refine (clean_up_right_iff (oneDayCard []) ?_ ?_).mpr
    ⟨20240101, ⟨oneDayCard_dateDir [], fun date h => (honly date h).ge⟩, .inl ⟨?_, .inr ?_⟩⟩
  · intro date hdate
    rw [honly date hdate, oneDayCard_dir]
    rfl
  · exact ⟨20240101, .inl ⟨1704067200, 60, oneDayCard_finished []⟩⟩
  · rintro n ⟨ents, hroot, ent, hent, -, rfl⟩
    obtain rfl := Option.some.inj hroot
    rw [List.mem_singleton.mp hent]
    exact isDate_sample.atoi_toDigits.ge
  · refine ⟨_, [], _, [], 1704067200, 60, oneDayCard_dir [], ?_,
      ⟨rfl, isAviFile_finished _ _, by simp, by simp⟩, rfl, oneDayCard_finished [], ?_⟩
    · rw [NamesFit, if_pos ⟨isAviFile_finished _ _, fileNumber_lt _⟩]
      exact ⟨by decide, trivial⟩
    · rintro date start seconds ⟨-, -, hdate, files, hfiles, hmem⟩
      obtain rfl := honly date hdate
      obtain rfl := Option.some.inj (hfiles.symm.trans (oneDayCard_dir []))
      have hname := congrArg Dirent.d_name (List.mem_singleton.mp hmem)
      exact (finishedName_start hname).ge

/-- A directory without a number is taken for the oldest: nothing is removed. -/
theorem clean_up_captured :
    grdSdDelOldestAviFile (oneDayCard [⟨dtDir, "LOST.DIR".toList⟩]) = some (0, .nothing)
      ∧ ¬ ∃ ret outcome,
          grdSdDelOldestAviFile (oneDayCard [⟨dtDir, "LOST.DIR".toList⟩]) = some (ret, outcome)
            ∧ (oneDayCard [⟨dtDir, "LOST.DIR".toList⟩]).Right outcome := by
  have hrun : grdSdDelOldestAviFile (oneDayCard [⟨dtDir, "LOST.DIR".toList⟩])
      = some (0, .nothing) := by decide
  refine ⟨hrun, ?_⟩
  rintro ⟨ret, outcome, hrun', hright⟩
  obtain ⟨-, rfl⟩ := Prod.mk.inj (Option.some.inj (hrun.symm.trans hrun'))
  exact hright.2 _ _ _ (oneDayCard_finished _)
