/-
# The frames of a detector (`motion_detection.c`)

`do_capture_motion` keeps, from frame to frame, the sizes of the last one, a matrix of blocks that
`transform` fills only when the training starts, a grid, and the flags.  `MotionRegions` takes the
flags of a frame as given.  Here they are made, by `parsing_mv_data`, from the data that the frame
brings, and it is shown that nothing else goes into them: in any run of frames and configurations,
the matrix is the one of the frame at hand, although it is filled rarely.

So the detector with its arrays refines the one of `MotionRegions`.  A run ends early only if a
region that reaches over the blocks makes it read behind the flags.
-/
import IpCamera.MotionVectors

/-- `gm_cap_md_info_t`; a size is a width and a height. -/
structure CapMdInfo where
  mdBuf : Cells UInt8
  isValid : ℤ
  mdDim : ℕ × ℕ
  mdMb : ℕ × ℕ

/-- A detector: what `MotionRegions` knows of it, and its arrays.  `activeFlag` and `activeNum` of
`mvParam` are those of `active`. -/
structure Detector where
  server : MotionServer
  mvParam : MvCfg
  mvParsing : MvParsing
  userMotionSize : ℕ

def motionInitError : ℤ := -1

def motionParsingError : ℤ := -1

def motionIsReady : ℤ := 3

/-! ## Allocating -/

/-- `parsing_mv_initial`; `malloc` does not fail. -/
def parsingMvInitial (p : MvParsing) (mbWNum mbHNum : ℕ) : Except Stop MvParsing :=
  let userMotionSizeIn := mbWNum * mbHNum
  let p :=
    if p.parsingUserMotionSize < userMotionSizeIn then
      { p with
        transformMatrix := some ⟨userMotionSizeIn * 4, fun _ => 0⟩
        kernelMvData := some ⟨capMotionSize, fun _ => 0⟩
        parsingUserMotionSize := userMotionSizeIn }
    else p
  match p.transformMatrix, p.kernelMvData with
  | some matrix, some kernel => do
      let matrix ← matrix.memset 0 (userMotionSizeIn * 4)
      let kernel ← kernel.memset 0 capMotionSize
      .ok { p with
        isParsingInitOk := true
        transformMatrix := some matrix
        kernelMvData := some kernel
        gBlkWNum := 0
        gBlkHNum := 0
        gUserWidth := 0
        gUserHeight := 0
        gMbWNum := 0
        gMbHNum := 0 }
  | _, _ => .error .undefined

/-- `capture_motion_update` -/
def captureMotionUpdate (d : Detector) : Except Stop Detector := do
  let blkHNum := d.server.mdtParam.mbHNum
  let blkWNum := d.server.mdtParam.mbWNum
  let size := blkHNum * blkWNum
  let (activeFlag, userMotionSize) :=
    if d.userMotionSize < size then (⟨size, fun _ => 0⟩, size)
    else (d.mvParam.activeFlag, d.userMotionSize)
  let activeFlag ← activeFlag.memset 0 size
  let mvParsing ← parsingMvInitial d.mvParsing blkWNum blkHNum
  .ok { d with
    mvParam := ⟨0, 0, 0, 0, activeFlag, 0⟩
    mvParsing := mvParsing
    userMotionSize := userMotionSize }

/-- A detector without arrays. -/
def Detector.blank (server : MotionServer) : Detector where
  server := server
  mvParam := ⟨0, 0, 0, 0, ⟨0, fun _ => 0⟩, 0⟩
  mvParsing := ⟨false, none, none, 0, 0, 0, 0, 0, 0, 0⟩
  userMotionSize := 0

/-- `init_motion_server`; `capture_motion_init` allocates as an update does of a detector that has
nothing. -/
def Detector.start (maxWidth maxHeight : ℕ) : Except Stop Detector :=
  captureMotionUpdate (.blank (initMotionServer maxWidth maxHeight ⟨true, true, true, true⟩))

/-- `set_motion_param`; the update comes with a call that succeeds. -/
def Detector.configure (d : Detector) (motionCfg : Option SdkVdaCodecCfg) :
    Except Stop (ℤ × Detector) :=
  match setMotionParam d.server motionCfg with
  | none => .error .undefined
  | some (ret, server) =>
      if ret = 0 then do
        let d ← captureMotionUpdate { d with server := server }
        .ok (0, d)
      else .ok (ret, { d with server := server })

/-! ## Frames -/

/-- The frame is valid, and as large as the one before. -/
def Detector.Same (d : Detector) (capMotion : CapMdInfo) : Prop :=
  d.mvParam.kHeight = capMotion.mdDim.2 ∧ d.mvParam.kWidth = capMotion.mdDim.1
    ∧ capMotion.isValid = 1

instance (d : Detector) (capMotion : CapMdInfo) : Decidable (d.Same capMotion) :=
  inferInstanceAs (Decidable (_ ∧ _))

/-- Where the flag of a block stands. -/
def flagIndex (mdtAlg : MdtAlg) (c : ℤ × ℤ) : ℤ := c.2 * mbNum mdtAlg.uWidth mdtAlg.uMbWidth + c.1

/-- All flags that are read are there. -/
def readsInside (mdtAlg : MdtAlg) (size : ℕ) (read : List (ℤ × ℤ)) : Bool :=
  read.all fun c => decide (0 ≤ flagIndex mdtAlg c ∧ flagIndex mdtAlg c < size)

/-- `do_capture_motion`: the result, and what is left. -/
def Detector.capture (d : Detector) (capMotion : CapMdInfo) : Except Stop (ℤ × Detector) :=
  if d.server.capMotionInitOk = false then .ok (motionInitError, d)
  else do
    let mdtParam := d.server.mdtParam
    let frameCount :=
      if d.Same capMotion then
        if mdtParam.frameCount < mdtParam.trainingTime then mdtParam.frameCount + 1
        else mdtParam.frameCount
      else 0
    let mvParam :=
      if d.Same capMotion then d.mvParam
      else ⟨capMotion.mdDim.2, capMotion.mdDim.1, capMotion.mdMb.2, capMotion.mdMb.1,
        d.mvParam.activeFlag, d.mvParam.activeNum⟩
    let (ret, mvParsing, mvParam) ← parsingMvData d.mvParsing capMotion.mdBuf
      { mvParam with activeNum := 0 } mdtParam.uMbWidth mdtParam.uMbHeight mdtParam.sensitiveTh
      frameCount mdtParam.mbWNum mdtParam.mbHNum
    let mdtParam := { mdtParam with frameCount := frameCount }
    let d := { d with mvParam := mvParam, mvParsing := mvParsing }
    if ret < 0 then .ok (motionParsingError, { d with server := { d.server with mdtParam } })
    else
      match captureSubRegionAlg mdtParam fun i => mvParam.activeFlag.cell i.toNat with
      | none => .error .undefined
      | some (mdtParam, read) =>
          if readsInside mdtParam mvParam.activeFlag.size read then
            .ok (if mdtParam.frameCount < mdtParam.trainingTime then motionIsTraining
              else motionIsReady, { d with server := { d.server with mdtParam } })
          else .error .undefined

/-! ## Runs -/

/-- A configuration, or a frame. -/
inductive MotionEvent
  | configure (motionCfg : Option SdkVdaCodecCfg)
  | frame (capMotion : CapMdInfo)

def Detector.step (d : Detector) : MotionEvent → Except Stop (ℤ × Detector)
  | .configure motionCfg => d.configure motionCfg
  | .frame capMotion => d.capture capMotion

/-- A run from the start. -/
inductive DetectorRun (maxWidth maxHeight : ℕ) : List MotionEvent → Detector → Prop
  | start {d : Detector} : Detector.start maxWidth maxHeight = .ok d →
      DetectorRun maxWidth maxHeight [] d
  | step {es : List MotionEvent} {e : MotionEvent} {d d' : Detector} {ret : ℤ} :
      DetectorRun maxWidth maxHeight es d → d.step e = .ok (ret, d') →
      DetectorRun maxWidth maxHeight (es ++ [e]) d'

/-! ## What a configuration leaves -/

/-- The blocks of 32 pixels of a picture. -/
def userGrid (maxWidth maxHeight : ℕ) : UserGrid := ⟨mbNum maxWidth 32, mbNum maxHeight 32, 32, 32⟩

/-- Both tables describe the blocks of the picture. -/
structure MotionServer.Sized (maxWidth maxHeight : ℕ) (s : MotionServer) : Prop where
  width : s.maxWidth = maxWidth
  height : s.maxHeight = maxHeight
  userW : s.mdtAlg.mbWNum = mbNum maxWidth 32
  userH : s.mdtAlg.mbHNum = mbNum maxHeight 32
  userTh : s.mdtAlg.sensitiveTh = 80
  mbWNum : s.mdtParam.mbWNum = mbNum maxWidth 32
  mbHNum : s.mdtParam.mbHNum = mbNum maxHeight 32
  uMbWidth : s.mdtParam.uMbWidth = 32
  uMbHeight : s.mdtParam.uMbHeight = 32
  sensitiveTh : s.mdtParam.sensitiveTh = 80
  initOk : s.capMotionInitOk = true
  table : ∃ table, s.mdtParam.subRegion = some table

section Sized

variable {maxWidth maxHeight : ℕ} {s s' : MotionServer}

theorem sized_start (maxWidth maxHeight : ℕ) :
    (initMotionServer maxWidth maxHeight ⟨true, true, true, true⟩).Sized maxWidth maxHeight where
  width := rfl
  height := rfl
  userW := rfl
  userH := rfl
  userTh := rfl
  mbWNum := rfl
  mbHNum := rfl
  uMbWidth := rfl
  uMbHeight := rfl
  sensitiveTh := rfl
  initOk := rfl
  table := ⟨fun _ => .closed, rfl⟩

theorem mbNum_ne_zero {size : ℕ} (h : size ≠ 0) : mbNum size 32 ≠ 0 := by
  unfold mbNum
  omega

theorem MotionServer.Sized.configure (hs : s.Sized maxWidth maxHeight)
    {motionCfg : Option SdkVdaCodecCfg} {ret : ℤ}
    (h : setMotionParam s motionCfg = some (ret, s')) : s'.Sized maxWidth maxHeight := by
  unfold setMotionParam at h
  split at h
  · cases h
    exact hs
  · split at h
    · cases h
      exact hs
    · split at h
      · cases h
      rename_i hsize
      obtain ⟨rows, hrows, h⟩ := Option.bind_eq_some_iff.mp h
      obtain ⟨⟨ret', mdtParam, ok⟩, hupdate, h⟩ := Option.bind_eq_some_iff.mp h
      have hblocks : s.mdtAlg.mbWNum * s.mdtAlg.mbHNum ≠ 0 := by
        rw [hs.userW, hs.userH, ← hs.width, ← hs.height]
        exact Nat.mul_ne_zero (mbNum_ne_zero fun h => hsize (.inl h))
          (mbNum_ne_zero fun h => hsize (.inr h))
      rw [motionDetectionUpdate] at hupdate
      dsimp only at hupdate
      rw [if_neg hblocks, hs.initOk] at hupdate
      obtain ⟨_, _, hupdate⟩ := Option.bind_eq_some_iff.mp hupdate
      obtain ⟨_, _, hupdate⟩ := Option.bind_eq_some_iff.mp hupdate
      cases hupdate
      cases h
      exact ⟨hs.width, hs.height, hs.userW, hs.userH, hs.userTh, hs.userW, hs.userH, rfl, rfl,
        hs.userTh, rfl, _, rfl⟩

end Sized

/-! ## The arrays of a run -/

section Arrays

variable {p p' : MvParsing} {d d' : Detector} {mbWNum mbHNum : ℕ}

/-- If there is a grid, it is of the one size. -/
def MvParsing.KernelSized (p : MvParsing) : Prop :=
  ∀ kernel, p.kernelMvData = some kernel → kernel.size = capMotionSize

theorem UserGrid.Allocated.kernelSized {g : UserGrid} (h : g.Allocated p) : p.KernelSized := by
  intro kernel hkernel
  obtain ⟨kernel', hkernel', hsize⟩ := h.kernel
  cases hkernel.symm.trans hkernel'
  exact hsize

theorem allocated_of_parsingMvInitial {g : UserGrid} (hp : p.KernelSized)
    (hg : g.blocks = mbWNum * mbHNum) (h : parsingMvInitial p mbWNum mbHNum = .ok p') :
    g.Allocated p' := by
  unfold parsingMvInitial at h
  dsimp only at h
  split at h
  · rename_i matrix kernel hmatrix hkernel
    obtain ⟨matrix', hm, h⟩ := exists_of_bind_eq_ok h
    obtain ⟨kernel', hk, h⟩ := exists_of_bind_eq_ok h
    have hmsize := Cells.size_of_memset hm
    have hksize := Cells.size_of_memset hk
    have hkernel' : kernel.size = capMotionSize := by
      split at hkernel
      · cases hkernel
        rfl
      · exact hp kernel hkernel
    cases h
    exact ⟨rfl, ⟨matrix', rfl, by omega⟩, kernel', rfl, by omega⟩
  · cases h

theorem captureMotionUpdate_ok {g : UserGrid} (hp : d.mvParsing.KernelSized)
    (hg : g.blocks = d.server.mdtParam.mbWNum * d.server.mdtParam.mbHNum)
    (h : captureMotionUpdate d = .ok d') :
    d'.server = d.server ∧ d'.mvParam.kWidth = 0 ∧ g.Allocated d'.mvParsing
      ∧ g.blocks ≤ d'.mvParam.activeFlag.size := by
  unfold captureMotionUpdate at h
  dsimp only at h
  obtain ⟨activeFlag, hflags, h⟩ := exists_of_bind_eq_ok h
  obtain ⟨mvParsing, hparsing, h⟩ := exists_of_bind_eq_ok h
  have hsize := Cells.size_of_memset hflags
  cases h
  refine ⟨rfl, rfl, allocated_of_parsingMvInitial hp hg hparsing, ?_⟩
  rw [hg, Nat.mul_comm, hsize.2]
  exact hsize.1

end Arrays

/-! ## What holds in every run -/

namespace CapMdInfo

/-- The sizes of a frame. -/
def cfg (capMotion : CapMdInfo) (activeFlag : Cells UInt8) : MvCfg :=
  ⟨capMotion.mdDim.2, capMotion.mdDim.1, capMotion.mdMb.2, capMotion.mdMb.1, activeFlag, 0⟩

/-- A frame as the capture unit delivers it: its data fit the buffers, the blocks reach over it, and
the size of its macroblocks goes by its own size. -/
structure WellFormed (g : UserGrid) (mb : ℕ × ℕ → ℕ × ℕ) (capMotion : CapMdInfo) : Prop where
  fits : (capMotion.cfg ⟨0, fun _ => 0⟩).Fits capMotion.mdBuf.size
  covers : g.Covers (capMotion.cfg ⟨0, fun _ => 0⟩)
  mb : capMotion.mdMb = mb capMotion.mdDim

/-- There is motion in a block, by the data of the frame alone. -/
def Moves (g : UserGrid) (capMotion : CapMdInfo) (b : ℕ) : Prop :=
  g.Moves (capMotion.cfg ⟨0, fun _ => 0⟩) 80
    ((capMotion.cfg ⟨0, fun _ => 0⟩).grid capMotion.mdBuf.cell) b

instance (g : UserGrid) (capMotion : CapMdInfo) (b : ℕ) : Decidable (capMotion.Moves g b) :=
  inferInstanceAs (Decidable (_ < _))

end CapMdInfo

/-- What holds of a detector after any run. -/
structure Detector.Kept (maxWidth maxHeight : ℕ) (mb : ℕ × ℕ → ℕ × ℕ) (d : Detector) : Prop where
  monitoring : Monitoring maxWidth maxHeight ⟨true, true, true, true⟩ d.server
  sized : d.server.Sized maxWidth maxHeight
  allocated : (userGrid maxWidth maxHeight).Allocated d.mvParsing
  flags : (userGrid maxWidth maxHeight).blocks ≤ d.mvParam.activeFlag.size
  matrix : d.mvParam.kWidth ≠ 0 → (userGrid maxWidth maxHeight).Describes d.mvParam d.mvParsing
    ∧ (d.mvParam.kMbWidth, d.mvParam.kMbHeight) = mb (d.mvParam.kWidth, d.mvParam.kHeight)

section Kept

variable {maxWidth maxHeight : ℕ} {mb : ℕ × ℕ → ℕ × ℕ} {d d' : Detector} {capMotion : CapMdInfo}
  {ret : ℤ}

theorem Detector.kept_start (h : Detector.start maxWidth maxHeight = .ok d) :
    d.Kept maxWidth maxHeight mb := by
  obtain ⟨hserver, hdim, halloc, hflags⟩ := captureMotionUpdate_ok
    (g := userGrid maxWidth maxHeight) (d := .blank _) (fun _ hkernel => by cases hkernel)
    (Nat.mul_comm _ _) h
  refine ⟨hserver ▸ .start, hserver ▸ sized_start maxWidth maxHeight, halloc, hflags, ?_⟩
  exact fun hne => absurd hdim hne

theorem Detector.Kept.configure (hd : d.Kept maxWidth maxHeight mb)
    {motionCfg : Option SdkVdaCodecCfg} (h : d.configure motionCfg = .ok (ret, d')) :
    d'.Kept maxWidth maxHeight mb := by
  unfold Detector.configure at h
  split at h
  · cases h
  rename_i ret' server hset
  have hmonitoring := Monitoring.configure hd.monitoring hset
  have hsized := hd.sized.configure hset
  split at h
  · obtain ⟨d₁, hupdate, h⟩ := exists_of_bind_eq_ok h
    have hg : (userGrid maxWidth maxHeight).blocks
        = server.mdtParam.mbWNum * server.mdtParam.mbHNum := by
      rw [hsized.mbWNum, hsized.mbHNum]
      exact Nat.mul_comm _ _
    obtain ⟨hserver, hdim, halloc, hflags⟩ :=
      captureMotionUpdate_ok (d := { d with server := server }) hd.allocated.kernelSized hg hupdate
    cases h
    refine ⟨?_, ?_, halloc, hflags, fun hne => absurd hdim hne⟩
    · rw [hserver]
      exact hmonitoring
    · rw [hserver]
      exact hsized
  · cases h
    exact ⟨hmonitoring, hsized, hd.allocated, hd.flags, hd.matrix⟩

/-- The sizes with which a frame is read are its own, and if its matrix is not filled anew, it is the
right one. -/
theorem Detector.Kept.sizes (hd : d.Kept maxWidth maxHeight mb)
    (hf : capMotion.WellFormed (userGrid maxWidth maxHeight) mb) :
    (if d.Same capMotion then d.mvParam
      else ⟨capMotion.mdDim.2, capMotion.mdDim.1, capMotion.mdMb.2, capMotion.mdMb.1,
        d.mvParam.activeFlag, d.mvParam.activeNum⟩ : MvCfg)
      = { capMotion.cfg d.mvParam.activeFlag with activeNum := d.mvParam.activeNum }
    ∧ (d.Same capMotion →
      (userGrid maxWidth maxHeight).Describes (capMotion.cfg d.mvParam.activeFlag) d.mvParsing) := by
  by_cases hsame : d.Same capMotion
  · obtain ⟨hheight, hwidth, -⟩ := id hsame
    have hne : d.mvParam.kWidth ≠ 0 := by
      rw [hwidth]
      exact hf.covers.width.kernel_pos.ne'
    obtain ⟨hdescribes, hmb⟩ := hd.matrix hne
    rw [hwidth, hheight, ← hf.mb] at hmb
    have hmbw : d.mvParam.kMbWidth = capMotion.mdMb.1 := congrArg Prod.fst hmb
    have hmbh : d.mvParam.kMbHeight = capMotion.mdMb.2 := congrArg Prod.snd hmb
    have heq : d.mvParam
        = { capMotion.cfg d.mvParam.activeFlag with activeNum := d.mvParam.activeNum } := by
      rw [CapMdInfo.cfg, ← hheight, ← hwidth, ← hmbw, ← hmbh]
    refine ⟨(if_pos hsame).trans heq, fun _ => ?_⟩
    rw [heq] at hdescribes
    exact hdescribes.setFlags d.mvParam.activeFlag 0
  · exact ⟨if_neg hsame, fun h => absurd h hsame⟩

theorem CapMdInfo.WellFormed.fits_cfg {g : UserGrid} (hf : capMotion.WellFormed g mb)
    (activeFlag : Cells UInt8) : (capMotion.cfg activeFlag).Fits capMotion.mdBuf.size :=
  ⟨hf.fits.kMbWidth, hf.fits.kMbHeight, hf.fits.mbWNum, hf.fits.mbHNum, hf.fits.event, hf.fits.kernel⟩

theorem CapMdInfo.WellFormed.covers_cfg {g : UserGrid} (hf : capMotion.WellFormed g mb)
    (activeFlag : Cells UInt8) : g.Covers (capMotion.cfg activeFlag) :=
  ⟨hf.covers.width, hf.covers.height, hf.covers.below⟩

/-- What a frame leaves, if it does not read behind the flags. -/
def Detector.after (d : Detector) (mvParam : MvCfg) (mvParsing : MvParsing)
    (server : MotionServer) : Detector :=
  { d with server := server, mvParam := mvParam, mvParsing := mvParsing }

/-- A frame: its flags come from its own data, and with these the detector does what the one of
`MotionRegions` does. -/
theorem Detector.Kept.capture_eq (hd : d.Kept maxWidth maxHeight mb)
    (hf : capMotion.WellFormed (userGrid maxWidth maxHeight) mb) :
    ∃ mvParsing mvParam server read,
      server.Sized maxWidth maxHeight ∧ (userGrid maxWidth maxHeight).Allocated mvParsing
      ∧ (userGrid maxWidth maxHeight).Describes (capMotion.cfg d.mvParam.activeFlag) mvParsing
      ∧ UserGrid.FlagsTo (userGrid maxWidth maxHeight) (capMotion.cfg d.mvParam.activeFlag) 80
        ((capMotion.cfg d.mvParam.activeFlag).grid capMotion.mdBuf.cell)
        (userGrid maxWidth maxHeight).blocks mvParam
      ∧ doCaptureMotion d.server ⟨decide (d.Same capMotion),
          some fun i => mvParam.activeFlag.cell i.toNat⟩ = some (server, read)
      ∧ d.capture capMotion
        = if readsInside server.mdtParam mvParam.activeFlag.size read then
            .ok (if server.mdtParam.frameCount < server.mdtParam.trainingTime then motionIsTraining
              else motionIsReady, d.after mvParam mvParsing server)
          else .error .undefined := by
  obtain ⟨hcfg, hdescribes⟩ := hd.sizes hf
  let frameCount :=
    if d.Same capMotion then
      if d.server.mdtParam.frameCount < d.server.mdtParam.trainingTime then
        d.server.mdtParam.frameCount + 1
      else d.server.mdtParam.frameCount
    else 0
  have hcount : frameCount = 0 ∨ (userGrid maxWidth maxHeight).Describes
      (capMotion.cfg d.mvParam.activeFlag) d.mvParsing := by
    by_cases hsame : d.Same capMotion
    · exact .inr (hdescribes hsame)
    · exact .inl (if_neg hsame)
  obtain ⟨mvParsing, mvParam, hparse, halloc, hdesc, hflags⟩ := UserGrid.parsingMvData_ok
    hd.allocated (hf.fits_cfg _) (hf.covers_cfg _) (show 80 ≤ 100 by decide) hd.flags hcount
  have hparse' : parsingMvData d.mvParsing capMotion.mdBuf (capMotion.cfg d.mvParam.activeFlag)
      d.server.mdtParam.uMbWidth d.server.mdtParam.uMbHeight d.server.mdtParam.sensitiveTh frameCount
      d.server.mdtParam.mbWNum d.server.mdtParam.mbHNum = .ok (0, mvParsing, mvParam) := by
    rw [hd.sized.uMbWidth, hd.sized.uMbHeight, hd.sized.sensitiveTh, hd.sized.mbWNum,
      hd.sized.mbHNum]
    exact hparse
  obtain ⟨table, htable⟩ := hd.sized.table
  obtain ⟨table', -, hregions⟩ := captureSubRegionAlg_eq
    { d.server.mdtParam with frameCount := frameCount } htable
    fun i => mvParam.activeFlag.cell i.toNat
  let read := if frameCount < d.server.mdtParam.trainingTime then [] else activeBlocks table
  refine ⟨mvParsing, mvParam, { d.server with mdtParam := { d.server.mdtParam with
    frameCount := frameCount, subRegion := some table' } }, read, ?_, halloc, hdesc, hflags, ?_, ?_⟩
  · have hs := hd.sized
    exact ⟨hs.width, hs.height, hs.userW, hs.userH, hs.userTh, hs.mbWNum, hs.mbHNum, hs.uMbWidth,
      hs.uMbHeight, hs.sensitiveTh, hs.initOk, table', rfl⟩
  · have hinit : ¬ d.server.capMotionInitOk = false := by
      rw [hd.sized.initOk]
      decide
    unfold doCaptureMotion
    rw [if_neg hinit]
    simp only [decide_eq_true_eq]
    exact congrArg (fun o => o.bind fun r => some ({ d.server with mdtParam := r.1 }, r.2)) hregions
  · have hinit : ¬ d.server.capMotionInitOk = false := by
      rw [hd.sized.initOk]
      decide
    unfold Detector.capture
    rw [if_neg hinit]
    dsimp only
    rw [hcfg]
    refine (bind_of_ok hparse' _).trans ((if_neg (lt_irrefl (0 : ℤ))).trans ?_)
    rw [hregions]
    rfl

theorem Detector.Kept.capture (hd : d.Kept maxWidth maxHeight mb)
    (hf : capMotion.WellFormed (userGrid maxWidth maxHeight) mb)
    (h : d.capture capMotion = .ok (ret, d')) : d'.Kept maxWidth maxHeight mb := by
  obtain ⟨mvParsing, mvParam, server, read, hsized, halloc, hdesc, hflags, hdo, heq⟩ :=
    hd.capture_eq hf
  rw [heq] at h
  split at h
  · cases h
    refine ⟨.capture hd.monitoring hdo, hsized, halloc, hd.flags.trans hflags.size.ge, fun _ => ?_⟩
    show (userGrid maxWidth maxHeight).Describes mvParam mvParsing
      ∧ (mvParam.kMbWidth, mvParam.kMbHeight) = mb (mvParam.kWidth, mvParam.kHeight)
    rw [hflags.rest]
    exact ⟨hdesc.setFlags mvParam.activeFlag mvParam.activeNum, hf.mb⟩
  · cases h

/-- The invariant holds after every run. -/
theorem kept_of_run {es : List MotionEvent} (hrun : DetectorRun maxWidth maxHeight es d)
    (hes : ∀ f, .frame f ∈ es → f.WellFormed (userGrid maxWidth maxHeight) mb) :
    d.Kept maxWidth maxHeight mb := by
  induction hrun with
  | start h => exact Detector.kept_start h
  | @step es e d d' ret _ hstep ih =>
    have hd := ih fun f hf => hes f (List.mem_append_left _ hf)
    cases e with
    | configure motionCfg => exact hd.configure hstep
    | frame capMotion => exact hd.capture (hes capMotion (by simp)) hstep

/-- **The frames of a run**: the flags of a frame are those of its own data, whatever frames and
configurations came before; with them the detector does what the one of `MotionRegions` does, and
what it does is undefined only if that one reads a block behind the flags. -/
theorem frame_refines {es : List MotionEvent} (hrun : DetectorRun maxWidth maxHeight es d)
    (hes : ∀ f, .frame f ∈ es → f.WellFormed (userGrid maxWidth maxHeight) mb)
    (hf : capMotion.WellFormed (userGrid maxWidth maxHeight) mb) :
    ∃ (flag : ℕ → UInt8) (server : MotionServer) (read : List (ℤ × ℤ)),
      (∀ b < (userGrid maxWidth maxHeight).blocks,
        flag b = if capMotion.Moves (userGrid maxWidth maxHeight) b then 0 else 1)
      ∧ doCaptureMotion d.server ⟨decide (d.Same capMotion), some fun i => flag i.toNat⟩
        = some (server, read)
      ∧ ((∃ ret d', d.capture capMotion = .ok (ret, d') ∧ d'.server = server
          ∧ d'.mvParam.activeFlag.cell = flag
          ∧ d'.mvParam.activeNum = (List.range (userGrid maxWidth maxHeight).blocks).countP
            fun b => decide (capMotion.Moves (userGrid maxWidth maxHeight) b))
        ∨ d.capture capMotion = .error .undefined ∧ ∃ c ∈ read,
          ¬ (0 ≤ flagIndex server.mdtParam c
            ∧ flagIndex server.mdtParam c < d.mvParam.activeFlag.size)) := by
  have hd := kept_of_run hrun hes
  obtain ⟨mvParsing, mvParam, server, read, -, -, -, hflags, hdo, heq⟩ := hd.capture_eq hf
  refine ⟨mvParam.activeFlag.cell, server, read, hflags.flag, hdo, ?_⟩
  by_cases hinside : readsInside server.mdtParam mvParam.activeFlag.size read = true
  · rw [if_pos hinside] at heq
    exact .inl ⟨_, _, heq, rfl, rfl, hflags.num.trans (Nat.zero_add _)⟩
  · rw [if_neg hinside] at heq
    have hsize : mvParam.activeFlag.size = d.mvParam.activeFlag.size := hflags.size
    refine .inr ⟨heq, ?_⟩
    simpa only [readsInside, List.all_eq_true, decide_eq_true_eq, not_forall, exists_prop,
      hsize] using hinside

end Kept

/-- A frame of 720 lines, without motion. -/
def stillFrame : CapMdInfo := ⟨⟨capMotionSize, fun _ => 0x55⟩, 1, (1280, 720), (32, 32)⟩

theorem stillFrame_wellFormed : stillFrame.WellFormed (userGrid 1280 720) fun _ => (32, 32) :=
  ⟨⟨by decide, by decide, by decide, by decide, by decide, by decide⟩,
    ⟨⟨by decide, by decide, by decide, by decide, by decide, by decide⟩,
      ⟨by decide, by decide, by decide, by decide, by decide, by decide⟩, by decide⟩, rfl⟩

theorem frame_refines_still : ∃ (d : Detector) (flag : ℕ → UInt8) (server : MotionServer)
    (read : List (ℤ × ℤ)), Detector.start 1280 720 = .ok d
      ∧ (∀ b < 920, flag b = if stillFrame.Moves (userGrid 1280 720) b then 0 else 1)
      ∧ doCaptureMotion d.server ⟨decide (d.Same stillFrame), some fun i => flag i.toNat⟩
        = some (server, read) := by
  obtain ⟨d, hstart⟩ : ∃ d, Detector.start 1280 720 = .ok d := ⟨_, rfl⟩
  obtain ⟨flag, server, read, hflag, hdo, -⟩ := frame_refines (.start hstart)
    (fun f hf => absurd hf List.not_mem_nil) stillFrame_wellFormed
  exact ⟨d, flag, server, read, hstart, hflag, hdo⟩
