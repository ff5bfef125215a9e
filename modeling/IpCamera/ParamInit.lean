/-
# Loading the parameter files (`adapt_param_init`)

At the start an upgrade file, if there is one, replaces the file of the defaults, and the
current files are removed so that they are made anew.  Then the defaults and the current
parameters are loaded.

A file that cannot be removed ends the routine with success and nothing loaded, and a failure
after the defaults are loaded leaves them loaded: `adapt_param_init_iff`.
-/
import IpCamera.CopyFile
import IpCamera.ParamStore

/-! ## The routine -/

/-- `PARAM_DEF_FILE_UPG` -/
def paramDefFileUpg : String := "/config/param/sysparam_upg"
/-- `PARAM_DEF_FILE` -/
def paramDefFile : String := "/config/param/.sysparam_def"
/-- `PARAM_CURR_FILE_1` -/
def paramCurrFile1 : String := "/config/param/.sysparam1"
/-- `PARAM_CURR_FILE_2` -/
def paramCurrFile2 : String := "/config/param/.sysparam2"

/-- The static variables. -/
structure ParamState where
  gParamDevType : ℕ := 0
  paramHandle : Option ParamStore := none
  defaultParamHandle : Option ParamStore := none

/-- How the calls go, each on the files it finds. -/
structure InitOutcomes where
  /-- The upgrade file, if it is there, can be opened and is a regular file. -/
  upgRegular : Bool
  unlinks : String → Bool
  /-- The path can be opened with `O_RDWR`, if it is there. -/
  opens : String → Bool
  copies : (newpath : String) → (fs : MountedFiles) → CopyOutcomes fs
  fuel : ℕ
  sdkParamLoad : MountedFiles → (fileName : String) → (fileName2 : Option String) → Option ParamStore

section

variable (o : InitOutcomes)

/-- There is an upgrade file: `os_is_file_exist` gives 1. -/
def upgIsExist (fs : MountedFiles) : Bool := (openFile fs paramDefFileUpg o.upgRegular).isSome

/-- `os_rm_file` -/
def osRmFile (fs : MountedFiles) (pathname : String) : ℤ × MountedFiles :=
  if (fs.path pathname).isSome ∧ o.unlinks pathname then
    (0, { fs with path := Function.update fs.path pathname none })
  else (-1, fs)

/-- `os_copy_file`, as it is called here. -/
def copyParamFile (fs : MountedFiles) (srcFile dstFile : String) (flag : ℤ) :
    Option (ℤ × MountedFiles) :=
  osCopyFile fs (o.copies dstFile fs) o.fuel srcFile dstFile flag

/-- `_open_file` -/
def openParamFile (fs : MountedFiles) (srcFile dstFile : String) : Option (ℤ × MountedFiles) :=
  match openFile fs dstFile (o.opens dstFile) with
  | some _ => some (0, fs)
  | none => (copyParamFile o fs srcFile dstFile 1).map fun (ret, fs) =>
      (if ret < 0 then -1 else 0, fs)

/-- The three calls of `os_rm_file`: what is returned after the first that fails. -/
def rmParamFiles : (files : List String) → MountedFiles → Option ℤ × MountedFiles
  | [], fs => (none, fs)
  | file :: files, fs =>
      let (ret, fs) := osRmFile o fs file
      if ret < 0 then (some 0, fs) else rmParamFiles files fs

/-- The block for an upgrade file: what is returned there, if the routine ends. -/
def upgradeDefault (fs : MountedFiles) : Option (Option ℤ × MountedFiles) :=
  if upgIsExist o fs then
    (copyParamFile o fs paramDefFileUpg paramDefFile 0).map fun (ret, fs) =>
      if ret < 0 then (some (-1), fs)
      else rmParamFiles o [paramDefFileUpg, paramCurrFile1, paramCurrFile2] fs
  else some (none, fs)

/-- `sizeof(sdk_sys_cfg_t)` -/
def sizeofSysCfg : ℕ := 304

/-- `_sys_cfg.dev_type` after `SDK_PARAM_GET_(0, SDK_MAIN_MSG_SYS_CFG, &_sys_cfg)`. -/
def readDevType (paramHandle : ParamStore) : ℕ :=
  load32 (listMem (sdkParamGet paramHandle (paramKey .sysCfg 0) (List.replicate sizeofSysCfg 0))) 288

/-- The rest of the routine, which loads the files. -/
def loadParams (fs : MountedFiles) (s : ParamState) : Option (ℤ × ParamState × MountedFiles) :=
  let s := { s with defaultParamHandle := o.sdkParamLoad fs paramDefFile none }
  if s.defaultParamHandle.isNone then some (-1, s, fs)
  else
    (openParamFile o fs paramDefFile paramCurrFile1).bind fun (ret, fs) =>
      if ret < 0 then some (-1, s, fs)
      else
        (openParamFile o fs paramDefFile paramCurrFile2).bind fun (ret, fs) =>
          if ret < 0 then some (-1, s, fs)
          else
            let s := { s with paramHandle := o.sdkParamLoad fs paramCurrFile1 (some paramCurrFile2) }
            match s.paramHandle with
            | some handle => some (0, { s with gParamDevType := readDevType handle }, fs)
            | none => some (-1, s, fs)

/-- `adapt_param_init`: the return value, the static variables and the files. -/
def adaptParamInit (fs : MountedFiles) (s : ParamState) : Option (ℤ × ParamState × MountedFiles) :=
  (upgradeDefault o fs).bind fun (ret, fs) =>
    match ret with
    | some ret => some (ret, s, fs)
    | none => loadParams o fs s

end

/-! ## The property -/

/-- Both handles are there after success, and none after a failure. -/
def AllOrNothing (ret : ℤ) (s : ParamState) : Prop :=
  (ret = 0 → s.paramHandle.isSome ∧ s.defaultParamHandle.isSome)
    ∧ (ret ≠ 0 → s.paramHandle = none ∧ s.defaultParamHandle = none)

/-- The files that are removed after an upgrade. -/
def removedFiles : List String := [paramDefFileUpg, paramCurrFile1, paramCurrFile2]

/-- A file can be removed. -/
def Removable (o : InitOutcomes) (fs : MountedFiles) (file : String) : Prop :=
  (fs.path file).isSome ∧ o.unlinks file

/-- The defaults were upgraded, but one of the other files is not there or cannot be removed. -/
def UpgradeStuck (o : InitOutcomes) (fs : MountedFiles) : Prop :=
  upgIsExist o fs
    ∧ (∃ ret fs', copyParamFile o fs paramDefFileUpg paramDefFile 0 = some (ret, fs') ∧ 0 ≤ ret)
    ∧ ¬∀ file ∈ removedFiles, Removable o fs file

/-- The files from which the parameters are loaded: those that are there, or, with an upgrade, those
with new defaults and without the others. -/
def LoadedFrom (o : InitOutcomes) (fs fs₁ : MountedFiles) : Prop :=
  if upgIsExist o fs then
    (∀ file ∈ removedFiles, Removable o fs file)
      ∧ ∃ ret fs', copyParamFile o fs paramDefFileUpg paramDefFile 0 = some (ret, fs') ∧ 0 ≤ ret
        ∧ fs₁ = { fs' with path := fun p => if p ∈ removedFiles then none else fs'.path p }
  else fs₁ = fs

/-- The defaults can be loaded, but one of the current files cannot be opened or made, or the
current files cannot be loaded. -/
def CurrentFails (o : InitOutcomes) (fs : MountedFiles) : Prop :=
  (o.sdkParamLoad fs paramDefFile none).isSome
    ∧ ∃ ret fs₁, openParamFile o fs paramDefFile paramCurrFile1 = some (ret, fs₁)
      ∧ (ret < 0 ∨ ∃ ret fs₂, openParamFile o fs₁ paramDefFile paramCurrFile2 = some (ret, fs₂)
        ∧ (ret < 0 ∨ o.sdkParamLoad fs₂ paramCurrFile1 (some paramCurrFile2) = none))

/-! ## Removing the files -/

variable {o : InitOutcomes} {fs fs₁ : MountedFiles}

/-- Replacing the defaults does not change what can be removed. -/
theorem removable_copied {ret : ℤ}
    (h : copyParamFile o fs paramDefFileUpg paramDefFile 0 = some (ret, fs₁)) :
    (∀ file ∈ removedFiles, Removable o fs₁ file) ↔ ∀ file ∈ removedFiles, Removable o fs file := by
  apply forall₂_congr
  intro file hfile
  have hne : file ≠ paramDefFile := by
    rintro rfl
    exact absurd hfile (by decide)
  rw [Removable, Removable, osCopyFile_path h hne]

theorem osRmFile_of_removable {file : String} (h : Removable o fs file) :
    osRmFile o fs file = (0, { fs with path := Function.update fs.path file none }) := if_pos h

theorem osRmFile_of_not_removable {file : String} (h : ¬Removable o fs file) :
    osRmFile o fs file = (-1, fs) := if_neg h

/-- If all files can be removed, all are. -/
theorem rmParamFiles_all {files : List String} (hnodup : files.Nodup)
    (h : ∀ file ∈ files, Removable o fs file) : rmParamFiles o files fs
      = (none, { fs with path := fun p => if p ∈ files then none else fs.path p }) := by
  induction files generalizing fs with
  | nil =>
    rw [rmParamFiles]
    rfl
  | cons file files ih =>
    obtain ⟨hnotMem, hnodup⟩ := List.nodup_cons.mp hnodup
    obtain ⟨hfile, hfiles⟩ := List.forall_mem_cons.mp h
    have hrest : ∀ f ∈ files,
        Removable o { fs with path := Function.update fs.path file none } f := by
      intro f hf
      have hne : f ≠ file := fun heq => hnotMem (heq ▸ hf)
      rw [Removable]
      dsimp only
      rw [Function.update_of_ne hne]
      exact hfiles f hf
    rw [rmParamFiles, osRmFile_of_removable hfile]
    dsimp only
    rw [if_neg (lt_irrefl _), ih hnodup hrest]
    refine Prod.ext rfl ?_
    rw [MountedFiles.mk.injEq]
    refine ⟨?_, rfl⟩
    funext p
    dsimp only
    by_cases hp : p = file
    · subst hp
      rw [if_pos List.mem_cons_self, Function.update_self, ite_self]
    · rw [Function.update_of_ne hp]
      exact if_congr (by rw [List.mem_cons, or_iff_right hp]) rfl rfl

/-- If one cannot be removed, the routine ends there, with success. -/
theorem rmParamFiles_stuck {files : List String} (hnodup : files.Nodup)
    (h : ¬∀ file ∈ files, Removable o fs file) : ∃ fs₁, rmParamFiles o files fs = (some 0, fs₁) := by
  induction files generalizing fs with
  | nil => exact absurd (fun file hfile => absurd hfile List.not_mem_nil) h
  | cons file files ih =>
    obtain ⟨hnotMem, hnodup⟩ := List.nodup_cons.mp hnodup
    rw [rmParamFiles]
    by_cases hfile : Removable o fs file
    · rw [osRmFile_of_removable hfile]
      dsimp only
      rw [if_neg (lt_irrefl _)]
      refine ih hnodup fun hrest => h (List.forall_mem_cons.mpr ⟨hfile, fun f hf => ?_⟩)
      have hne : f ≠ file := fun heq => hnotMem (heq ▸ hf)
      have hf' := hrest f hf
      rw [Removable] at hf'
      dsimp only at hf'
      rwa [Function.update_of_ne hne] at hf'
    · rw [osRmFile_of_not_removable hfile]
      exact ⟨fs, rfl⟩

/-! ## The block for an upgrade file -/

theorem upgradeDefault_loadedFrom (h : LoadedFrom o fs fs₁) :
    upgradeDefault o fs = some (none, fs₁) := by
  rw [LoadedFrom] at h
  rw [upgradeDefault]
  split at h
  · rename_i hupg
    obtain ⟨hremovable, ret, fs', hcopy, hret, rfl⟩ := h
    rw [if_pos hupg, hcopy, Option.map_some]
    dsimp only
    rw [if_neg (not_lt.mpr hret)]
    have hnodup : removedFiles.Nodup := by decide
    exact congrArg some (rmParamFiles_all hnodup ((removable_copied hcopy).mpr hremovable))
  · rename_i hupg
    rw [if_neg hupg, h]

theorem upgradeDefault_stuck (h : UpgradeStuck o fs) :
    ∃ fs₁, upgradeDefault o fs = some (some 0, fs₁) := by
  obtain ⟨hupg, ⟨ret, fs', hcopy, hret⟩, hstuck⟩ := h
  have hnodup : removedFiles.Nodup := by decide
  obtain ⟨fs₁, hrm⟩ := rmParamFiles_stuck hnodup fun h => hstuck ((removable_copied hcopy).mp h)
  refine ⟨fs₁, ?_⟩
  rw [upgradeDefault, if_pos hupg, hcopy, Option.map_some]
  dsimp only
  rw [if_neg (not_lt.mpr hret), ← hrm]
  rfl

/-- The routine goes on to load the files, or fails with nothing loaded, or is stuck. -/
theorem upgradeDefault_cases {ret : Option ℤ} (h : upgradeDefault o fs = some (ret, fs₁)) :
    ret = none ∧ LoadedFrom o fs fs₁ ∨ ret = some (-1) ∨ ret = some 0 ∧ UpgradeStuck o fs := by
  have hrun := h
  rw [upgradeDefault] at h
  split at h
  · rename_i hupg
    obtain ⟨⟨ret', fs'⟩, hcopy, heq⟩ := Option.map_eq_some_iff.mp h
    dsimp only at heq
    split at heq
    · obtain rfl := (Prod.mk.inj heq).1
      exact Or.inr (Or.inl rfl)
    rename_i hret
    by_cases hremovable : ∀ file ∈ removedFiles, Removable o fs file
    · have hfrom : LoadedFrom o fs _ :=
        (if_pos hupg).mpr ⟨hremovable, ret', fs', hcopy, not_lt.mp hret, rfl⟩
      rw [upgradeDefault_loadedFrom hfrom] at hrun
      obtain ⟨rfl, rfl⟩ := Prod.mk.inj (Option.some.inj hrun)
      exact Or.inl ⟨rfl, hfrom⟩
    · have hstuck : UpgradeStuck o fs := ⟨hupg, ⟨ret', fs', hcopy, not_lt.mp hret⟩, hremovable⟩
      obtain ⟨fs₂, hend⟩ := upgradeDefault_stuck hstuck
      rw [hend] at hrun
      obtain rfl := (Prod.mk.inj (Option.some.inj hrun)).1
      exact Or.inr (Or.inr ⟨rfl, hstuck⟩)
  · rename_i hupg
    obtain ⟨rfl, rfl⟩ := Prod.mk.inj (Option.some.inj h)
    exact Or.inl ⟨rfl, (if_neg hupg).mpr rfl⟩

/-! ## Loading -/

/-- When the current files fail, the routine fails and leaves the defaults loaded. -/
theorem loadParams_currentFails (h : CurrentFails o fs) : ∃ fs₁, loadParams o fs {}
    = some (-1, { defaultParamHandle := o.sdkParamLoad fs paramDefFile none }, fs₁) := by
  obtain ⟨hdefault, ret, fs₁, hopen₁, hfail⟩ := h
  obtain ⟨d, hd⟩ := Option.isSome_iff_exists.mp hdefault
  rw [loadParams, hd]
  dsimp only
  rw [Option.isNone_some, if_neg Bool.false_ne_true, hopen₁, Option.bind_some]
  dsimp only
  by_cases hret : ret < 0
  · rw [if_pos hret]
    exact ⟨fs₁, rfl⟩
  obtain ⟨ret₂, fs₂, hopen₂, hfail⟩ := hfail.resolve_left hret
  rw [if_neg hret, hopen₂, Option.bind_some]
  dsimp only
  by_cases hret₂ : ret₂ < 0
  · rw [if_pos hret₂]
    exact ⟨fs₂, rfl⟩
  rw [if_neg hret₂, hfail.resolve_left hret₂]
  exact ⟨fs₂, rfl⟩

/-- When they do not, all is loaded or nothing. -/
theorem loadParams_allOrNothing (h : ¬CurrentFails o fs) {ret : ℤ} {s : ParamState}
    (hrun : loadParams o fs {} = some (ret, s, fs₁)) : AllOrNothing ret s := by
  rw [loadParams] at hrun
  dsimp only at hrun
  split at hrun
  · rename_i hnone
    obtain ⟨rfl, hrest⟩ := Prod.mk.inj (Option.some.inj hrun)
    obtain ⟨rfl, -⟩ := Prod.mk.inj hrest
    exact ⟨fun h => absurd h (by decide), fun _ => ⟨rfl, Option.isNone_iff_eq_none.mp hnone⟩⟩
  rename_i hnotNone
  have hdefault : (o.sdkParamLoad fs paramDefFile none).isSome := by
    rw [Option.isNone_iff_eq_none] at hnotNone
    exact Option.isSome_iff_ne_none.mpr hnotNone
  obtain ⟨⟨ret₁, fs₁⟩, hopen₁, hrun⟩ := Option.bind_eq_some_iff.mp hrun
  dsimp only at hrun
  split at hrun
  · rename_i hret
    exact absurd ⟨hdefault, ret₁, fs₁, hopen₁, Or.inl hret⟩ h
  obtain ⟨⟨ret₂, fs₂⟩, hopen₂, hrun⟩ := Option.bind_eq_some_iff.mp hrun
  dsimp only at hrun
  split at hrun
  · rename_i hret
    exact absurd ⟨hdefault, ret₁, fs₁, hopen₁, Or.inr ⟨ret₂, fs₂, hopen₂, Or.inl hret⟩⟩ h
  split at hrun
  · rename_i handle hload
    obtain ⟨rfl, hrest⟩ := Prod.mk.inj (Option.some.inj hrun)
    obtain ⟨rfl, -⟩ := Prod.mk.inj hrest
    exact ⟨fun _ => ⟨by rw [hload]; rfl, hdefault⟩, fun h => absurd rfl h⟩
  · rename_i hload
    exact absurd ⟨hdefault, ret₁, fs₁, hopen₁, Or.inr ⟨ret₂, fs₂, hopen₂, Or.inr hload⟩⟩ h

/-! ## The whole routine -/

/-- Loading is all or nothing exactly if no upgrade gets stuck at a file that cannot be removed, and
the current files do not fail when the defaults are loaded. -/
theorem adapt_param_init_iff (o : InitOutcomes) (fs : MountedFiles) :
    (∀ ret s fs', adaptParamInit o fs {} = some (ret, s, fs') → AllOrNothing ret s)
      ↔ ¬UpgradeStuck o fs ∧ ∀ fs₁, LoadedFrom o fs fs₁ → ¬CurrentFails o fs₁ := by
  constructor
  · intro h
    constructor
    · intro hstuck
      obtain ⟨fs₁, hend⟩ := upgradeDefault_stuck hstuck
      have hrun : adaptParamInit o fs {} = some (0, {}, fs₁) := by
        rw [adaptParamInit, hend, Option.bind_some]
      have hloaded := ((h _ _ _ hrun).1 rfl).1
      cases hloaded
    · intro fs₁ hfrom hfails
      obtain ⟨fs', hload⟩ := loadParams_currentFails hfails
      have hrun : adaptParamInit o fs {}
          = some (-1, { defaultParamHandle := o.sdkParamLoad fs₁ paramDefFile none }, fs') := by
        rw [adaptParamInit, upgradeDefault_loadedFrom hfrom, Option.bind_some]
        exact hload
      have hnone := ((h _ _ _ hrun).2 (by decide)).2
      exact absurd hnone (Option.isSome_iff_ne_none.mp hfails.1)
  · rintro ⟨hstuck, hcurrent⟩ ret s fs' hrun
    obtain ⟨⟨ended, fs₁⟩, hupgrade, hrest⟩ := Option.bind_eq_some_iff.mp hrun
    rcases upgradeDefault_cases hupgrade with ⟨rfl, hfrom⟩ | rfl | ⟨-, hs⟩
    · exact loadParams_allOrNothing (hcurrent fs₁ hfrom) hrest
    · obtain ⟨rfl, hend⟩ := Prod.mk.inj (Option.some.inj hrest)
      obtain ⟨rfl, -⟩ := Prod.mk.inj hend
      exact ⟨fun h => absurd h (by decide), fun _ => ⟨rfl, rfl⟩⟩
    · exact absurd hs hstuck

/-- The default file and the upgrade file are there, and one of the current files. -/
def filesBeforeUpgrade : MountedFiles where
  path p :=
    if p = paramDefFileUpg then some ⟨1, 1⟩
    else if p = paramDefFile then some ⟨1, 2⟩
    else if p = paramCurrFile1 then some ⟨1, 3⟩
    else none
  content file := if file.ino = 1 then [7] else [6]

/-- Every call succeeds that can. -/
def allSucceeds : InitOutcomes where
  upgRegular := true
  unlinks _ := true
  opens _ := true
  copies _ _ := ⟨true, true, none, (fun _ h => by cases h), fun _ => .upTo 8192, fun _ => .moved 8192,
    0, fun _ => 0⟩
  fuel := 4
  sdkParamLoad _ _ _ := some fun _ => none

/-- After an upgrade on a device with one of the current files: success, and nothing is loaded. -/
theorem adapt_param_init_one_file : ¬∀ (o : InitOutcomes) (fs : MountedFiles) (ret : ℤ)
    (s : ParamState) (fs' : MountedFiles),
    adaptParamInit o fs {} = some (ret, s, fs') → AllOrNothing ret s := by
  intro h
  have hcopy : (copyParamFile allSucceeds filesBeforeUpgrade paramDefFileUpg paramDefFile 0).map
      Prod.fst = some 0 := by decide +kernel
  obtain ⟨⟨ret, fs'⟩, hcopy, hret⟩ := Option.map_eq_some_iff.mp hcopy
  obtain rfl : ret = 0 := hret
  have hstuck : UpgradeStuck allSucceeds filesBeforeUpgrade := by
    refine ⟨by decide +kernel, ⟨0, fs', hcopy, le_rfl⟩, fun hremovable => ?_⟩
    have habsent := (hremovable paramCurrFile2 (by decide)).1
    exact absurd habsent (by decide +kernel)
  obtain ⟨fs₁, hend⟩ := upgradeDefault_stuck hstuck
  have hrun : adaptParamInit allSucceeds filesBeforeUpgrade {} = some (0, {}, fs₁) := by
    rw [adaptParamInit, hend, Option.bind_some]
  have hloaded := ((h _ _ _ _ _ hrun).1 rfl).1
  cases hloaded
