/-
# The motion flags of a frame (`parsing_mv_data.c`)

The capture unit delivers two bits for each macroblock of a frame, rows of 32 bytes.
`parsing_mv` unpacks them into a grid of bytes, in which zero stands for motion, and then drops,
in place, every zero inside the grid whose four neighbours are not zero.  `transform` covers the
grid with the blocks of the user's picture, and flags a block that has enough zeros.

The rows of the grid are written one after the other, and each may run a few cells into the next
one.  `parsing_mv_exact` says that nothing of this is left in the end, and that dropping noise in
place is the same as dropping all of it at once.  The blocks cover the grid, but they may reach a
row further down than it goes, if the picture is no whole number of macroblocks high; what they
read there is zero.
-/
import IpCamera.CheckedArray
import IpCamera.IsolatedCells
import IpCamera.MotionRegions

def capMotionSize : ℕ := 4096

/-- `mv_cfg_t` -/
structure MvCfg where
  kHeight : ℕ
  kWidth : ℕ
  kMbHeight : ℕ
  kMbWidth : ℕ
  activeFlag : Cells UInt8
  activeNum : ℕ

/-- The state of `parsing_mv_data.c` for a detector. -/
structure MvParsing where
  isParsingInitOk : Bool
  transformMatrix : Option (Cells ℤ)
  kernelMvData : Option (Cells UInt8)
  gBlkWNum : ℕ
  gBlkHNum : ℕ
  gUserWidth : ℤ
  gUserHeight : ℤ
  gMbWNum : ℕ
  gMbHNum : ℕ
  parsingUserMotionSize : ℕ

/-! ## Unpacking -/

/-- `(mv_event >> 2 * i) & 0x3` -/
def mvField (mvEvent : UInt8) (i : ℕ) : UInt8 := mvEvent >>> UInt8.ofNat (2 * i) &&& 3

/-- The four cells of a byte; the byte 85 is a case of its own. -/
def unpackByte (mvEvent : UInt8) (pixelIndex : ℕ) (kernel : Cells UInt8) :
    Except Stop (Cells UInt8) :=
  if mvEvent = 85 then do
    let kernel ← kernel.write (pixelIndex + 0) 1
    let kernel ← kernel.write (pixelIndex + 1) 1
    let kernel ← kernel.write (pixelIndex + 2) 1
    kernel.write (pixelIndex + 3) 1
  else do
    let kernel ← kernel.write (pixelIndex + 0) (mvField mvEvent 0)
    let kernel ← kernel.write (pixelIndex + 1) (mvField mvEvent 1)
    let kernel ← kernel.write (pixelIndex + 2) (mvField mvEvent 2)
    kernel.write (pixelIndex + 3) (mvField mvEvent 3)

/-- The bytes of row `a`. -/
def unpackRow (eventBuf : Cells UInt8) (mbWNum bytePerWidth a : ℕ) (kernel : Cells UInt8) :
    Except Stop (Cells UInt8) :=
  forUpTo (fun b kernel => do
    let mvEvent ← eventBuf.read (a * 32 + b)
    unpackByte mvEvent (a * mbWNum + b * 4) kernel) bytePerWidth kernel

/-- A zero all of whose neighbours are not zero is noise. -/
def dropNoise (mbWNum pixelIndex : ℕ) (kernel : Cells UInt8) : Except Stop (Cells UInt8) := do
  if (← kernel.read pixelIndex) = 0 then
    let below ← kernel.read (pixelIndex + mbWNum)
    let above ← kernel.read (pixelIndex - mbWNum)
    let right ← kernel.read (pixelIndex + 1)
    let left ← kernel.read (pixelIndex - 1)
    if below = 0 ∨ above = 0 ∨ right = 0 ∨ left = 0 then .ok kernel
    else kernel.write pixelIndex 1
  else .ok kernel

/-- The two loops over the cells that are not at the edge. -/
def dropAllNoise (mbWNum mbHNum : ℕ) (kernel : Cells UInt8) : Except Stop (Cells UInt8) :=
  forUpTo (fun i =>
    forUpTo (fun j => dropNoise mbWNum ((i + 1) * mbWNum + (j + 1))) (mbWNum - 2)) (mbHNum - 2)
    kernel

/-- `parsing_mv` -/
def parsingMv (p : MvParsing) (eventBuf : Cells UInt8) (mvParam : MvCfg) :
    Except Stop (ℤ × MvParsing) :=
  if p.isParsingInitOk = false then .ok (-1, p)
  else if mvParam.kMbWidth = 0 ∨ mvParam.kMbHeight = 0 then .error .undefined
  else
    let mbWNum := mvParam.kWidth / mvParam.kMbWidth
    let mbHNum := mvParam.kHeight / mvParam.kMbHeight
    let bytePerWidth := (mbWNum - 1) / 4 + 1
    match p.kernelMvData with
    | none => .ok (-1, p)
    | some kernel => do
        let kernel ← kernel.memset 0 capMotionSize
        let kernel ← forUpTo (unpackRow eventBuf mbWNum bytePerWidth) mbHNum kernel
        let kernel ← dropAllNoise mbWNum mbHNum kernel
        .ok (0, { p with kernelMvData := some kernel })

/-! ## Blocks -/

/-- `unsigned int` arithmetic wraps. -/
def unsigned (a : ℤ) : ℕ := (a % 4294967296).toNat

/-- `(pos * k) / (g_user * k_mb)`: the macroblock under a pixel of the user's picture.  A division
by zero ends the process, and the product of two `int`s may overflow. -/
def kernelMb (pos k : ℕ) (gUser : ℤ) (kMb : ℕ) : Except Stop ℤ :=
  let size := gUser * kMb
  if size < -2147483648 ∨ 2147483647 < size ∨ size = 0 then .error .undefined
  else .ok (int32 (unsigned (pos * k) / unsigned size : ℕ))

/-- The pixel at which a block begins, and the one at which it ends. -/
def blockFirst (uMb w : ℕ) : ℕ := unsigned (w * uMb)

def blockLast (uMb w : ℕ) : ℕ := unsigned ((w + 1) * uMb - 1)

/-- The entries of a block in `transform_matrix`. -/
def fillBlock (p : MvParsing) (mvParam : MvCfg) (uMbWidth uMbHeight h w : ℕ) (matrix : Cells ℤ) :
    Except Stop (Cells ℤ) := do
  let startX ← kernelMb (blockFirst uMbWidth w) mvParam.kWidth p.gUserWidth mvParam.kMbWidth
  let endX ← kernelMb (blockLast uMbWidth w) mvParam.kWidth p.gUserWidth mvParam.kMbWidth
  let startY ← kernelMb (blockFirst uMbHeight h) mvParam.kHeight p.gUserHeight mvParam.kMbHeight
  let endY ← kernelMb (blockLast uMbHeight h) mvParam.kHeight p.gUserHeight mvParam.kMbHeight
  let matrix ← matrix.write ((h * p.gBlkWNum + w) * 4 + 0) startX
  let matrix ← matrix.write ((h * p.gBlkWNum + w) * 4 + 1) endX
  let matrix ← matrix.write ((h * p.gBlkWNum + w) * 4 + 2) startY
  matrix.write ((h * p.gBlkWNum + w) * 4 + 3) endY

/-- The cells of the kernel that the two loops visit, as column and row. -/
def blockCells (startX endX startY endY : ℤ) : List (ℤ × ℤ) :=
  (Int.range startY (endY + 1)).flatMap fun a => (Int.range startX (endX + 1)).map fun b => (b, a)

/-- A cell of the kernel, counted if it is zero. -/
def countCell (kernel : Cells UInt8) (gMbWNum : ℕ) (s : ℕ × ℕ) (c : ℤ × ℤ) :
    Except Stop (ℕ × ℕ) :=
  if c.2 * gMbWNum + c.1 < 0 then .error .undefined
  else do
    let v ← kernel.read (c.2 * gMbWNum + c.1).toNat
    .ok (if v = 0 then s.1 + 1 else s.1, s.2 + 1)

/-- The zeros of a block, and its cells. -/
def countMb (kernel : Cells UInt8) (gMbWNum : ℕ) (cells : List (ℤ × ℤ)) : Except Stop (ℕ × ℕ) :=
  cells.foldlM (countCell kernel gMbWNum) (0, 0)

/-- Flagging a block; the flag is zero if there is motion. -/
def flagBlock (p : MvParsing) (matrix : Cells ℤ) (kernel : Cells UInt8) (sensitiveTh h w : ℕ)
    (mvParam : MvCfg) : Except Stop MvCfg := do
  let pixelPos := h * p.gBlkWNum + w
  let pixelPos4 := 4 * pixelPos
  let startX ← matrix.read (pixelPos4 + 0)
  let endX ← matrix.read (pixelPos4 + 1)
  let startY ← matrix.read (pixelPos4 + 2)
  let endY ← matrix.read (pixelPos4 + 3)
  let (mbCount, mbNum) ← countMb kernel p.gMbWNum (blockCells startX endX startY endY)
  if unsigned (mbCount * 100) > unsigned ((100 - sensitiveTh) * mbNum) then do
    let activeFlag ← mvParam.activeFlag.write pixelPos 0
    .ok { mvParam with activeFlag := activeFlag, activeNum := mvParam.activeNum + 1 }
  else do
    let activeFlag ← mvParam.activeFlag.write pixelPos 1
    .ok { mvParam with activeFlag := activeFlag }

/-- The sizes that `transform` notes down with the first frame. -/
def noteSizes (p : MvParsing) (mvParam : MvCfg) (uMbWidth uMbHeight mbWNum mbHNum : ℕ) :
    MvParsing :=
  { p with
    gBlkWNum := mbWNum
    gBlkHNum := mbHNum
    gUserWidth := int32 (mbWNum * uMbWidth)
    gUserHeight := int32 (mbHNum * uMbHeight)
    gMbWNum := mvParam.kWidth / mvParam.kMbWidth
    gMbHNum := mvParam.kHeight / mvParam.kMbHeight }

/-- The loops that fill `transform_matrix`. -/
def buildMatrix (p : MvParsing) (mvParam : MvCfg) (uMbWidth uMbHeight : ℕ) (matrix : Cells ℤ) :
    Except Stop (Cells ℤ) :=
  forUpTo (fun h => forUpTo (fillBlock p mvParam uMbWidth uMbHeight h) p.gBlkWNum) p.gBlkHNum matrix

/-- The loops that flag the blocks. -/
def flagBlocks (p : MvParsing) (matrix : Cells ℤ) (kernel : Cells UInt8) (sensitiveTh : ℕ)
    (mvParam : MvCfg) : Except Stop MvCfg :=
  forUpTo (fun h => forUpTo (flagBlock p matrix kernel sensitiveTh h) p.gBlkWNum) p.gBlkHNum mvParam

/-- `transform` -/
def transform (p : MvParsing) (mvParam : MvCfg)
    (uMbWidth uMbHeight sensitiveTh frameCount mbWNum mbHNum : ℕ) :
    Except Stop (ℤ × MvParsing × MvCfg) :=
  if p.isParsingInitOk = false then .ok (-1, p, mvParam)
  else
    match p.transformMatrix, p.kernelMvData with
    | none, _ => .ok (-1, p, mvParam)
    | some _, none => .error .undefined
    | some matrix, some kernel =>
        if frameCount = 0 then
          if mvParam.kMbWidth = 0 ∨ mvParam.kMbHeight = 0 then .error .undefined
          else do
            let p := noteSizes p mvParam uMbWidth uMbHeight mbWNum mbHNum
            let matrix ← buildMatrix p mvParam uMbWidth uMbHeight matrix
            let mvParam ← flagBlocks p matrix kernel sensitiveTh mvParam
            .ok (0, { p with transformMatrix := some matrix }, mvParam)
        else do
          let mvParam ← flagBlocks p matrix kernel sensitiveTh mvParam
          .ok (0, p, mvParam)

/-- `parsing_mv_data` -/
def parsingMvData (p : MvParsing) (eventBuf : Cells UInt8) (mvParam : MvCfg)
    (uMbWidth uMbHeight sensitiveTh frameCount mbWNum mbHNum : ℕ) :
    Except Stop (ℤ × MvParsing × MvCfg) := do
  let (ret, p) ← parsingMv p eventBuf mvParam
  if ret < 0 then .ok (-1, p, mvParam)
  else do
    let (ret, p, mvParam) ←
      transform p mvParam uMbWidth uMbHeight sensitiveTh frameCount mbWNum mbHNum
    .ok (if ret < 0 then -1 else 0, p, mvParam)

/-! ## What is unpacked -/

/-- What the event buffer holds for macroblock `x` of row `r`. -/
def mvCell (event : ℕ → UInt8) (r x : ℕ) : UInt8 := mvField (event (r * 32 + x / 4)) (x % 4)

/-- The row that writes a cell last, of `a` rows. -/
def lastRow (mbWNum a q : ℕ) : ℕ := min (q / mbWNum) (a - 1)

/-- The grid after `a` rows.  A row is written up to a whole byte; what it leaves behind its end
stays only if no row follows. -/
def unpackedAt (event : ℕ → UInt8) (mbWNum bytePerWidth a q : ℕ) : UInt8 :=
  if a ≠ 0 ∧ q - lastRow mbWNum a q * mbWNum < bytePerWidth * 4 then
    mvCell event (lastRow mbWNum a q) (q - lastRow mbWNum a q * mbWNum)
  else 0

section Unpack

variable {eventBuf kernel : Cells UInt8} {mvEvent : UInt8} {mbWNum bytePerWidth mbHNum a p : ℕ}

theorem mvField_85 {i : ℕ} (hi : i < 4) : mvField 85 i = 1 := by
  interval_cases i <;> decide

/-- The case of its own is none. -/
theorem unpackByte_eq_fields (mvEvent : UInt8) (p : ℕ) (kernel : Cells UInt8) :
    unpackByte mvEvent p kernel = (do
      let kernel ← kernel.write (p + 0) (mvField mvEvent 0)
      let kernel ← kernel.write (p + 1) (mvField mvEvent 1)
      let kernel ← kernel.write (p + 2) (mvField mvEvent 2)
      kernel.write (p + 3) (mvField mvEvent 3)) := by
  unfold unpackByte
  split
  · subst_vars
    simp only [mvField_85 (show 0 < 4 by decide), mvField_85 (show 1 < 4 by decide),
      mvField_85 (show 2 < 4 by decide), mvField_85 (show 3 < 4 by decide)]
  · rfl

theorem unpackByte_eq (mvEvent : UInt8) (h : p + 4 ≤ kernel.size) :
    unpackByte mvEvent p kernel = .ok { kernel with
      cell := fun q => if p ≤ q ∧ q < p + 4 then mvField mvEvent (q - p) else kernel.cell q } := by
  rw [unpackByte_eq_fields]
  refine (bind_of_ok (Cells.write_eq (by omega) _) _).trans ?_
  refine (bind_of_ok (Cells.write_eq (by show p + 1 < kernel.size; omega) _) _).trans ?_
  refine (bind_of_ok (Cells.write_eq (by show p + 2 < kernel.size; omega) _) _).trans ?_
  refine (Cells.write_eq (by show p + 3 < kernel.size; omega) _).trans ?_
  congr 2
  funext q
  simp only [Function.update_apply]
  by_cases hq : p ≤ q ∧ q < p + 4
  · obtain ⟨i, rfl⟩ := Nat.exists_eq_add_of_le hq.1
    have hi : i < 4 := by omega
    rw [if_pos hq, Nat.add_sub_cancel_left]
    interval_cases i <;> simp
  · rw [if_neg (by omega), if_neg (by omega), if_neg (by omega), if_neg (by omega), if_neg hq]

/-- A byte of a row, cell by cell. -/
theorem mvField_eq_mvCell (event : ℕ → UInt8) (b : ℕ) {x : ℕ} (h₁ : b * 4 ≤ x)
    (h₂ : x < b * 4 + 4) : mvField (event (a * 32 + b)) (x - b * 4) = mvCell event a x := by
  rw [mvCell, show x / 4 = b by omega, show x % 4 = x - b * 4 by omega]

theorem unpackRow_ok (kernel : Cells UInt8) (hevent : a * 32 + bytePerWidth ≤ eventBuf.size)
    (hkernel : a * mbWNum + bytePerWidth * 4 ≤ kernel.size) :
    ∃ kernel', unpackRow eventBuf mbWNum bytePerWidth a kernel = .ok kernel'
      ∧ kernel'.size = kernel.size
      ∧ ∀ q, kernel'.cell q = if a * mbWNum ≤ q ∧ q < a * mbWNum + bytePerWidth * 4
          then mvCell eventBuf.cell a (q - a * mbWNum) else kernel.cell q := by
  refine forUpTo_inv (fun b (kernel' : Cells UInt8) => kernel'.size = kernel.size ∧ ∀ q, kernel'.cell q
    = if a * mbWNum ≤ q ∧ q < a * mbWNum + b * 4
        then mvCell eventBuf.cell a (q - a * mbWNum) else kernel.cell q)
    ⟨rfl, fun q => (if_neg (by omega)).symm⟩ ?_
  rintro b hb kernel₁ ⟨hsize, hcell⟩
  have hread : eventBuf.read (a * 32 + b) = .ok (eventBuf.cell (a * 32 + b)) :=
    Cells.read_eq (by omega)
  refine ⟨_, (bind_of_ok hread _).trans (unpackByte_eq _ (by omega)), hsize, fun q => ?_⟩
  show (if a * mbWNum + b * 4 ≤ q ∧ q < a * mbWNum + b * 4 + 4
    then mvField _ (q - (a * mbWNum + b * 4)) else kernel₁.cell q) = _
  rw [hcell]
  by_cases hnew : a * mbWNum + b * 4 ≤ q ∧ q < a * mbWNum + b * 4 + 4
  · rw [if_pos hnew, if_pos (by omega), ← mvField_eq_mvCell _ b (by omega) (by omega)]
    congr 1
    omega
  · rw [if_neg hnew]
    exact if_congr (by omega) rfl rfl

theorem lastRow_succ_of_le (hW : 0 < mbWNum) {q : ℕ} (hq : a * mbWNum ≤ q) :
    lastRow mbWNum (a + 1) q = a :=
  min_eq_right ((Nat.le_div_iff_mul_le hW).mpr hq)

theorem lastRow_succ_of_lt (hW : 0 < mbWNum) {q : ℕ} (hq : q < a * mbWNum) :
    lastRow mbWNum (a + 1) q = lastRow mbWNum a q := by
  have hdiv : q / mbWNum < a := (Nat.div_lt_iff_lt_mul hW).mpr hq
  rw [lastRow, lastRow, Nat.add_sub_cancel, min_eq_left hdiv.le,
    min_eq_left (Nat.le_sub_one_of_lt hdiv)]

/-- Nothing is written behind a row before the next one. -/
theorem unpackedAt_of_ge (event : ℕ → UInt8) {q : ℕ}
    (hq : a * mbWNum + bytePerWidth * 4 ≤ q) : unpackedAt event mbWNum bytePerWidth a q = 0 := by
  refine if_neg fun h => ?_
  have hr : lastRow mbWNum a q * mbWNum ≤ a * mbWNum :=
    Nat.mul_le_mul_right _ ((min_le_right _ _).trans (Nat.sub_le _ _))
  have hlt := h.2
  omega

/-- One more row. -/
theorem unpackedAt_succ (event : ℕ → UInt8) (hW : 0 < mbWNum) (a q : ℕ) :
    unpackedAt event mbWNum bytePerWidth (a + 1) q
      = if a * mbWNum ≤ q ∧ q < a * mbWNum + bytePerWidth * 4 then mvCell event a (q - a * mbWNum)
        else unpackedAt event mbWNum bytePerWidth a q := by
  by_cases hq : a * mbWNum ≤ q
  · by_cases hend : q < a * mbWNum + bytePerWidth * 4
    · rw [if_pos ⟨hq, hend⟩, unpackedAt, lastRow_succ_of_le hW hq]
      exact if_pos ⟨by omega, by omega⟩
    · rw [if_neg fun h => hend h.2, unpackedAt_of_ge event (not_lt.mp hend), unpackedAt,
        lastRow_succ_of_le hW hq]
      exact if_neg fun h => hend (by have hlt := h.2; omega)
  · rw [if_neg fun h => hq h.1, unpackedAt, unpackedAt, lastRow_succ_of_lt hW (not_le.mp hq)]
    have ha : a ≠ 0 := by
      rintro rfl
      exact hq (by rw [Nat.zero_mul]; exact Nat.zero_le q)
    exact if_congr (and_congr_left' ⟨fun _ => ha, fun _ => Nat.succ_ne_zero a⟩) rfl rfl

/-- All rows. -/
theorem unpackRows_ok (eventBuf : Cells UInt8) (hW : 0 < mbWNum) (hzero : ∀ q, kernel.cell q = 0)
    (hevent : ∀ a < mbHNum, a * 32 + bytePerWidth ≤ eventBuf.size)
    (hkernel : ∀ a < mbHNum, a * mbWNum + bytePerWidth * 4 ≤ kernel.size) :
    ∃ kernel', forUpTo (unpackRow eventBuf mbWNum bytePerWidth) mbHNum kernel = .ok kernel'
      ∧ kernel'.size = kernel.size
      ∧ ∀ q, kernel'.cell q = unpackedAt eventBuf.cell mbWNum bytePerWidth mbHNum q := by
  refine forUpTo_inv (fun a (kernel' : Cells UInt8) => kernel'.size = kernel.size ∧ ∀ q, kernel'.cell q
    = unpackedAt eventBuf.cell mbWNum bytePerWidth a q)
    ⟨rfl, fun q => (hzero q).trans (if_neg fun h : 0 ≠ 0 ∧ _ => h.1 rfl).symm⟩ ?_
  rintro a ha kernel₁ ⟨hsize, hcell⟩
  obtain ⟨kernel₂, hrow, hsize₂, hcell₂⟩ := unpackRow_ok kernel₁ (hevent a ha)
    (hsize ▸ hkernel a ha)
  refine ⟨kernel₂, hrow, hsize₂.trans hsize, fun q => ?_⟩
  rw [hcell₂, hcell, unpackedAt_succ _ hW]

/-- Inside the grid, every cell holds what the buffer has for it. -/
theorem unpackedAt_grid (event : ℕ → UInt8) {r x : ℕ} (hr : r < mbHNum) (hx : x < mbWNum)
    (hB : mbWNum ≤ bytePerWidth * 4) :
    unpackedAt event mbWNum bytePerWidth mbHNum (r * mbWNum + x) = mvCell event r x := by
  have hdiv : (r * mbWNum + x) / mbWNum = r := by
    rw [Nat.mul_comm, Nat.mul_add_div (by omega), Nat.div_eq_of_lt hx, Nat.add_zero]
  have hrow : lastRow mbWNum mbHNum (r * mbWNum + x) = r := by
    rw [lastRow, hdiv, min_eq_left (Nat.le_sub_one_of_lt hr)]
  rw [unpackedAt, hrow, Nat.add_sub_cancel_left]
  exact if_pos ⟨by omega, by omega⟩

end Unpack

/-! ## What is left of it without noise -/

/-- The neighbours of a cell. -/
def nearCells (mbWNum p : ℕ) : List ℕ := [p + mbWNum, p - mbWNum, p + 1, p - 1]

/-- The cells that are not at the edge of the grid. -/
def innerCells (mbWNum mbHNum : ℕ) : List ℕ :=
  (List.range (mbHNum - 2)).flatMap fun i =>
    (List.range (mbWNum - 2)).map fun j => (i + 1) * mbWNum + (j + 1)

section Noise

variable {mbWNum mbHNum p q size : ℕ} {f : ℕ → UInt8}

theorem mem_innerCells : p ∈ innerCells mbWNum mbHNum ↔
    ∃ i < mbHNum - 2, ∃ j < mbWNum - 2, (i + 1) * mbWNum + (j + 1) = p := by
  simp only [innerCells, List.mem_flatMap, List.mem_map, List.mem_range]

/-- A cell inside has a row above it, and one below. -/
theorem bounds_of_mem_innerCells (h : p ∈ innerCells mbWNum mbHNum) :
    mbWNum < p ∧ p + mbWNum < mbHNum * mbWNum := by
  obtain ⟨i, hi, j, hj, rfl⟩ := mem_innerCells.mp h
  have hfirst : mbWNum ≤ (i + 1) * mbWNum := Nat.le_mul_of_pos_left _ (Nat.succ_pos i)
  have hlast : (i + 3) * mbWNum ≤ mbHNum * mbWNum := Nat.mul_le_mul_right _ (by omega)
  have hrows : (i + 3) * mbWNum = (i + 1) * mbWNum + (mbWNum + mbWNum) := by ring
  omega

theorem nearCells_symm (hp : mbWNum < p) (hq : mbWNum < q) (h : q ∈ nearCells mbWNum p) :
    p ∈ nearCells mbWNum q := by
  simp only [nearCells, List.mem_cons, List.not_mem_nil, or_false] at h ⊢
  omega

theorem dropNoise_eq (h : p + mbWNum < size) (hW : 0 < mbWNum) :
    dropNoise mbWNum p ⟨size, f⟩
      = .ok ⟨size, IsolatedCells.fillAt (nearCells mbWNum) (· = 0) 1 f p⟩ := by
  have hread : ∀ q, q ≤ p + mbWNum → (Cells.mk size f).read q = .ok (f q) := fun q hq =>
    Cells.read_eq (show q < size by omega)
  rw [dropNoise, bind_of_ok (hread p (by omega))]
  by_cases hzero : f p = 0
  · rw [if_pos hzero, bind_of_ok (hread _ le_rfl), bind_of_ok (hread _ (by omega)),
      bind_of_ok (hread _ (by omega)), bind_of_ok (hread _ (by omega))]
    by_cases hnear : f (p + mbWNum) = 0 ∨ f (p - mbWNum) = 0 ∨ f (p + 1) = 0 ∨ f (p - 1) = 0
    · have hnot : ¬ IsolatedCells.Isolated (nearCells mbWNum) (· = 0) f p := by
        rintro ⟨-, h⟩
        simp only [nearCells, List.forall_mem_cons] at h
        tauto
      rw [if_pos hnear, IsolatedCells.fillAt, if_neg hnot]
    · have hisolated : IsolatedCells.Isolated (nearCells mbWNum) (· = 0) f p := by
        refine ⟨hzero, ?_⟩
        simp only [nearCells, List.forall_mem_cons]
        exact ⟨by tauto, by tauto, by tauto, by tauto, fun q hq => absurd hq List.not_mem_nil⟩
      rw [if_neg hnear, IsolatedCells.fillAt, if_pos hisolated]
      exact Cells.write_eq (show p < size by omega) 1
  · have hnot : ¬ IsolatedCells.Isolated (nearCells mbWNum) (· = 0) f p := fun h => hzero h.1
    rw [if_neg hzero, IsolatedCells.fillAt, if_neg hnot]

/-- The noise that is dropped in place is the noise of the grid as it was unpacked. -/
theorem dropAllNoise_eq (hsize : mbHNum * mbWNum ≤ size) :
    dropAllNoise mbWNum mbHNum ⟨size, f⟩ = .ok ⟨size,
      IsolatedCells.fill (nearCells mbWNum) (· = 0) 1 (innerCells mbWNum mbHNum) f⟩ := by
  have hround : ∀ i < mbHNum - 2, ∀ g : ℕ → UInt8,
      forUpTo (fun j => dropNoise mbWNum ((i + 1) * mbWNum + (j + 1))) (mbWNum - 2) ⟨size, g⟩
        = .ok ⟨size, (List.range (mbWNum - 2)).foldl (fun g j =>
          IsolatedCells.fillAt (nearCells mbWNum) (· = 0) 1 g ((i + 1) * mbWNum + (j + 1))) g⟩ := by
    intro i hi g
    refine forUpTo_foldl (Cells.mk size) ?_ g
    intro j hj g
    have hbounds := bounds_of_mem_innerCells (mem_innerCells.mpr ⟨i, hi, j, hj, rfl⟩)
    exact dropNoise_eq (by omega) (by omega)
  refine (forUpTo_foldl (Cells.mk size) hround f).trans ?_
  rw [← IsolatedCells.foldl_fillAt (by decide) (innerCells mbWNum mbHNum) ?_ f, innerCells,
    List.foldl_flatMap]
  · simp only [List.foldl_map]
  · intro p hp q hq
    exact nearCells_symm (bounds_of_mem_innerCells hp).1 (bounds_of_mem_innerCells hq).1

end Noise

/-! ## The grid of a frame -/

namespace MvCfg

variable (mvParam : MvCfg)

/-- The macroblocks of a row, the rows, and the bytes that a row takes. -/
def mbWNum : ℕ := mvParam.kWidth / mvParam.kMbWidth

def mbHNum : ℕ := mvParam.kHeight / mvParam.kMbHeight

def bytePerWidth : ℕ := (mvParam.mbWNum - 1) / 4 + 1

/-- The data of a frame fit the event buffer and the grid. -/
structure Fits (eventSize : ℕ) : Prop where
  kMbWidth : 0 < mvParam.kMbWidth
  kMbHeight : 0 < mvParam.kMbHeight
  mbWNum : 0 < mvParam.mbWNum
  mbHNum : 0 < mvParam.mbHNum
  event : (mvParam.mbHNum - 1) * 32 + mvParam.bytePerWidth ≤ eventSize
  kernel : (mvParam.mbHNum - 1) * mvParam.mbWNum + mvParam.bytePerWidth * 4 ≤ capMotionSize

/-- What the grid holds in the end. -/
def grid (event : ℕ → UInt8) : ℕ → UInt8 :=
  IsolatedCells.fill (nearCells mvParam.mbWNum) (· = 0) 1
    (innerCells mvParam.mbWNum mvParam.mbHNum)
    (unpackedAt event mvParam.mbWNum mvParam.bytePerWidth mvParam.mbHNum)

/-- A macroblock that moves alone, and does not lie at the edge. -/
def Noise (event : ℕ → UInt8) (r x : ℕ) : Prop :=
  (0 < r ∧ r + 1 < mvParam.mbHNum) ∧ (0 < x ∧ x + 1 < mvParam.mbWNum) ∧ mvCell event r x = 0
    ∧ mvCell event (r + 1) x ≠ 0 ∧ mvCell event (r - 1) x ≠ 0
    ∧ mvCell event r (x + 1) ≠ 0 ∧ mvCell event r (x - 1) ≠ 0

instance (event : ℕ → UInt8) (r x : ℕ) : Decidable (mvParam.Noise event r x) :=
  inferInstanceAs (Decidable (_ ∧ _))

variable {mvParam} {event : ℕ → UInt8} {r x q eventSize : ℕ}

theorem mbWNum_le_bytes (mvParam : MvCfg) : mvParam.mbWNum ≤ mvParam.bytePerWidth * 4 := by
  unfold bytePerWidth
  omega

theorem Fits.grid_le (h : mvParam.Fits eventSize) :
    mvParam.mbHNum * mvParam.mbWNum ≤ capMotionSize := by
  have hrows : (mvParam.mbHNum - 1) * mvParam.mbWNum + mvParam.mbWNum
      = mvParam.mbHNum * mvParam.mbWNum := by
    rw [← Nat.succ_mul, Nat.succ_eq_add_one, Nat.sub_add_cancel h.mbHNum]
  have hbytes := mvParam.mbWNum_le_bytes
  have hkernel := h.kernel
  omega

theorem mem_innerCells_iff (hx : x < mvParam.mbWNum) :
    r * mvParam.mbWNum + x ∈ innerCells mvParam.mbWNum mvParam.mbHNum
      ↔ (0 < r ∧ r + 1 < mvParam.mbHNum) ∧ 0 < x ∧ x + 1 < mvParam.mbWNum := by
  rw [mem_innerCells]
  constructor
  · rintro ⟨i, hi, j, hj, heq⟩
    have hcol : j + 1 = x := by
      have hmod := congrArg (· % mvParam.mbWNum) heq
      simp only [Nat.mul_add_mod'] at hmod
      rwa [Nat.mod_eq_of_lt (show j + 1 < mvParam.mbWNum by omega), Nat.mod_eq_of_lt hx] at hmod
    have hrow : i + 1 = r := by
      rw [hcol] at heq
      exact Nat.eq_of_mul_eq_mul_right (by omega) (Nat.add_right_cancel heq)
    omega
  · rintro ⟨hr, hx⟩
    exact ⟨r - 1, by omega, x - 1, by omega, by rw [Nat.sub_add_cancel hr.1, Nat.sub_add_cancel hx.1]⟩

/-- Inside the grid: what the buffer has for a macroblock, unless it is noise. -/
theorem grid_eq (hr : r < mvParam.mbHNum) (hx : x < mvParam.mbWNum) :
    mvParam.grid event (r * mvParam.mbWNum + x)
      = if mvParam.Noise event r x then 1 else mvCell event r x := by
  have hcell : ∀ r' < mvParam.mbHNum, ∀ x' < mvParam.mbWNum,
      unpackedAt event mvParam.mbWNum mvParam.bytePerWidth mvParam.mbHNum (r' * mvParam.mbWNum + x')
        = mvCell event r' x' := fun r' hr' x' hx' =>
    unpackedAt_grid event hr' hx' mvParam.mbWNum_le_bytes
  rw [grid, IsolatedCells.fill, hcell r hr x hx]
  refine if_congr ?_ rfl rfl
  rw [mem_innerCells_iff hx, Noise, and_assoc]
  refine and_congr_right fun hinr => and_congr_right fun hinx => ?_
  have hbelow : r * mvParam.mbWNum + x + mvParam.mbWNum = (r + 1) * mvParam.mbWNum + x := by ring
  have habove : r * mvParam.mbWNum + x - mvParam.mbWNum = (r - 1) * mvParam.mbWNum + x := by
    obtain ⟨r', rfl⟩ := Nat.exists_eq_succ_of_ne_zero hinr.1.ne'
    rw [Nat.succ_mul, Nat.succ_eq_add_one, Nat.add_sub_cancel]
    omega
  rw [IsolatedCells.Isolated, hcell r hr x hx]
  simp only [nearCells, List.forall_mem_cons]
  rw [hbelow, habove, Nat.add_assoc, Nat.add_sub_assoc hinx.1, hcell _ (by omega) _ hx,
    hcell _ (by omega) _ hx, hcell _ hr _ (by omega), hcell _ hr _ (by omega)]
  simp only [List.not_mem_nil, false_imp_iff, implies_true, and_true]

/-- The grid that `parsing_mv` leaves. -/
theorem Fits.parsingMv_eq {eventBuf kernel : Cells UInt8} {p : MvParsing}
    (h : mvParam.Fits eventBuf.size) (hok : p.isParsingInitOk = true)
    (hkernel : p.kernelMvData = some kernel) (hsize : kernel.size = capMotionSize) :
    parsingMv p eventBuf mvParam = .ok (0, { p with
      kernelMvData := some ⟨capMotionSize, mvParam.grid eventBuf.cell⟩ }) := by
  have hpos : ¬ (mvParam.kMbWidth = 0 ∨ mvParam.kMbHeight = 0) := by
    have hw := h.kMbWidth
    have hh := h.kMbHeight
    omega
  have hzero : kernel.memset 0 capMotionSize = .ok ⟨capMotionSize, fun _ => 0⟩ :=
    hsize ▸ kernel.memset_size 0
  have hrows : ∀ a < mvParam.mbHNum, a * mvParam.mbWNum + mvParam.bytePerWidth * 4
      ≤ capMotionSize := by
    intro a ha
    have hle : a * mvParam.mbWNum ≤ (mvParam.mbHNum - 1) * mvParam.mbWNum :=
      Nat.mul_le_mul_right _ (by omega)
    have hlast := h.kernel
    omega
  obtain ⟨⟨size, cell⟩, hunpack, hunpacked, hcell⟩ := unpackRows_ok eventBuf
    h.mbWNum (fun _ => rfl : ∀ q, (Cells.mk capMotionSize fun _ => (0 : UInt8)).cell q = 0)
    (fun a ha => by have hlast := h.event; omega) hrows
  cases hunpacked
  cases funext hcell
  rw [parsingMv, if_neg (by rw [hok]; decide), if_neg hpos, hkernel]
  refine (bind_of_ok hzero _).trans ((bind_of_ok hunpack _).trans ?_)
  exact bind_of_ok (dropAllNoise_eq h.grid_le) _

end MvCfg

/-! ## The blocks of the user's picture -/

/-- The macroblock under a pixel of a picture of `n` blocks, each `u` pixels wide, of which the
capture unit sees `k` pixels, in macroblocks of `m`. -/
def mbUnder (n u k m pos : ℕ) : ℕ := pos * k / (n * u * m)

/-- The blocks reach over the picture, and the products fit an `int`. -/
structure Spans (n u k m : ℕ) : Prop where
  block_pos : 0 < u
  kernel_pos : 0 < k
  mb_pos : 0 < m
  user : k ≤ n * u
  product : n * u * k < 4294967296
  size : n * u * m ≤ 2147483647

section Spans

variable {n u k m pos w x : ℕ}

theorem unsigned_natCast {a : ℕ} (ha : a < 4294967296) : unsigned (a : ℤ) = a := by
  unfold unsigned
  omega

theorem int32_natCast {a : ℕ} (ha : a ≤ 2147483647) : int32 (a : ℤ) = a :=
  Int.bmod_eq_of_le (by omega) (by omega)

theorem Spans.n_pos (h : Spans n u k m) : 0 < n := by
  have huser := h.user
  have hk := h.kernel_pos
  refine Nat.pos_of_ne_zero ?_
  rintro rfl
  omega

theorem Spans.user_pos (h : Spans n u k m) : 0 < n * u := h.kernel_pos.trans_le h.user

/-- A pixel of the kernel is no larger than a macroblock of the user's picture. -/
theorem Spans.le_size (h : Spans n u k m) : k ≤ n * u * m :=
  h.user.trans (Nat.le_mul_of_pos_right _ h.mb_pos)

theorem Spans.kernelMb_eq (h : Spans n u k m) (hpos : pos < n * u) :
    kernelMb pos k (int32 (n * u)) m = .ok (mbUnder n u k m pos) := by
  have hsize : n * u ≤ 2147483647 := (Nat.le_mul_of_pos_right _ h.mb_pos).trans h.size
  have huser : int32 (n * u) = ((n * u : ℕ) : ℤ) := by
    rw [← Nat.cast_mul]
    exact int32_natCast hsize
  have hproduct : pos * k < 4294967296 :=
    (Nat.mul_le_mul_right k hpos.le).trans_lt h.product
  have hnonzero : 0 < n * u * m := Nat.mul_pos h.user_pos h.mb_pos
  have hquotient : pos * k / (n * u * m) ≤ 2147483647 := by
    have hle : pos * k / (n * u * m) ≤ pos := by
      calc pos * k / (n * u * m) ≤ pos * k / k := Nat.div_le_div_left h.le_size h.kernel_pos
        _ = pos := Nat.mul_div_cancel _ h.kernel_pos
    omega
  have hle := h.size
  unfold kernelMb mbUnder
  rw [huser]
  simp only [← Nat.cast_mul]
  rw [if_neg (by omega), unsigned_natCast hproduct, unsigned_natCast (by omega),
    int32_natCast hquotient]

theorem Spans.block_le (hw : w < n) : (w + 1) * u ≤ n * u := Nat.mul_le_mul_right u hw

theorem Spans.blockFirst_eq (h : Spans n u k m) (hw : w < n) : blockFirst u w = w * u := by
  have hle := Spans.block_le (u := u) hw
  have hsize : n * u ≤ n * u * m := Nat.le_mul_of_pos_right _ h.mb_pos
  have hint := h.size
  rw [Nat.succ_mul] at hle
  unfold blockFirst
  rw [← Nat.cast_mul, unsigned_natCast (by omega)]

theorem Spans.blockLast_eq (h : Spans n u k m) (hw : w < n) :
    blockLast u w = (w + 1) * u - 1 := by
  have hle := Spans.block_le (u := u) hw
  have hsize : n * u ≤ n * u * m := Nat.le_mul_of_pos_right _ h.mb_pos
  have hint := h.size
  have hpos : 0 < (w + 1) * u := Nat.mul_pos (Nat.succ_pos w) h.block_pos
  have hcast : ((w : ℤ) + 1) * u - 1 = (((w + 1) * u - 1 : ℕ) : ℤ) := by
    rw [Nat.cast_sub hpos]
    push_cast
    ring
  unfold blockLast
  rw [hcast, unsigned_natCast (by omega)]

theorem mbUnder_mono {pos' : ℕ} (h : pos ≤ pos') : mbUnder n u k m pos ≤ mbUnder n u k m pos' :=
  Nat.div_le_div_right (Nat.mul_le_mul_right k h)

/-- Every macroblock lies under a pixel. -/
theorem Spans.exists_mbUnder (h : Spans n u k m) (hx : x < k / m) :
    ∃ pos < n * u, mbUnder n u k m pos = x := by
  have hk := h.kernel_pos
  have hsize := h.le_size
  have hmul : x * m + m ≤ k := by
    rw [← Nat.succ_mul]
    exact (Nat.mul_le_mul_right m hx).trans (Nat.div_mul_le_self k m)
  have hD : x * (n * u * m) + n * u * m ≤ n * u * k := by
    calc x * (n * u * m) + n * u * m = n * u * (x * m + m) := by ring
      _ ≤ n * u * k := Nat.mul_le_mul_left _ hmul
  -- the first pixel over the macroblock
  let pos := (x * (n * u * m) + (k - 1)) / k
  have hle : pos * k ≤ x * (n * u * m) + (k - 1) := Nat.div_mul_le_self _ _
  have hlt : x * (n * u * m) + (k - 1) < pos * k + k := Nat.lt_div_mul_add hk
  refine ⟨pos, ?_, ?_⟩
  · have : pos * k < n * u * k := by omega
    exact Nat.lt_of_mul_lt_mul_right this
  · refine Nat.div_eq_of_lt_le (by omega) ?_
    rw [Nat.succ_mul]
    omega

/-- Every macroblock lies in a block. -/
theorem Spans.exists_block (h : Spans n u k m) (hx : x < k / m) :
    ∃ w < n, mbUnder n u k m (w * u) ≤ x ∧ x ≤ mbUnder n u k m ((w + 1) * u - 1) := by
  obtain ⟨pos, hpos, rfl⟩ := h.exists_mbUnder hx
  refine ⟨pos / u, Nat.div_lt_of_lt_mul (by rwa [Nat.mul_comm]), ?_, ?_⟩
  · exact mbUnder_mono (Nat.div_mul_le_self pos u)
  · refine mbUnder_mono ?_
    have := Nat.lt_div_mul_add (a := pos) h.block_pos
    rw [Nat.succ_mul]
    omega

/-- No pixel lies over more than one macroblock too many. -/
theorem Spans.mbUnder_le (h : Spans n u k m) (hpos : pos < n * u) :
    mbUnder n u k m pos ≤ k / m := by
  calc mbUnder n u k m pos ≤ n * u * k / (n * u * m) :=
        Nat.div_le_div_right (Nat.mul_le_mul_right k hpos.le)
    _ = k / m := Nat.mul_div_mul_left k m h.user_pos

/-- The last pixel lies over a macroblock too many exactly if enough of the picture is left over. -/
theorem Spans.mbUnder_last_iff (h : Spans n u k m) :
    mbUnder n u k m (n * u - 1) = k / m ↔ k ≤ n * u * (k % m) := by
  have hpos := h.user_pos
  have hle : mbUnder n u k m (n * u - 1) ≤ k / m := h.mbUnder_le (by omega)
  have hsplit : n * u * m * (k / m) + n * u * (k % m) = n * u * k := by
    rw [Nat.mul_assoc, ← Nat.mul_add, Nat.div_add_mod]
  have hlast : (n * u - 1) * k + k = n * u * k := by
    rw [← Nat.succ_mul, Nat.succ_eq_add_one, Nat.sub_add_cancel hpos]
  rw [← hle.ge_iff_eq, mbUnder, Nat.le_div_iff_mul_le (Nat.mul_pos hpos h.mb_pos),
    Nat.mul_comm (k / m)]
  omega

end Spans

/-! ## The flags of the blocks -/

/-- The blocks of the user's picture, and their size in pixels. -/
structure UserGrid where
  mbWNum : ℕ
  mbHNum : ℕ
  uMbWidth : ℕ
  uMbHeight : ℕ

namespace UserGrid

variable (g : UserGrid) (mvParam : MvCfg)

/-- The number of blocks. -/
def blocks : ℕ := g.mbHNum * g.mbWNum

/-- The column of the macroblock under a pixel, and its row. -/
def column (pos : ℕ) : ℕ := mbUnder g.mbWNum g.uMbWidth mvParam.kWidth mvParam.kMbWidth pos

def row (pos : ℕ) : ℕ := mbUnder g.mbHNum g.uMbHeight mvParam.kHeight mvParam.kMbHeight pos

/-- The entries of block `b`: its first and last column, its first and last row. -/
def entry (b : ℕ) : ℕ → ℕ
  | 0 => g.column mvParam (b % g.mbWNum * g.uMbWidth)
  | 1 => g.column mvParam ((b % g.mbWNum + 1) * g.uMbWidth - 1)
  | 2 => g.row mvParam (b / g.mbWNum * g.uMbHeight)
  | _ => g.row mvParam ((b / g.mbWNum + 1) * g.uMbHeight - 1)

/-- The macroblocks of a block. -/
def cells (b : ℕ) : List (ℤ × ℤ) :=
  blockCells (g.entry mvParam b 0) (g.entry mvParam b 1) (g.entry mvParam b 2) (g.entry mvParam b 3)

/-- A macroblock whose place in the grid holds a zero. -/
def zeroAt (kernel : ℕ → UInt8) (c : ℤ × ℤ) : Bool :=
  decide (kernel (c.2 * mvParam.mbWNum + c.1).toNat = 0)

/-- Enough macroblocks of a block hold a zero. -/
def Moves (sensitiveTh : ℕ) (kernel : ℕ → UInt8) (b : ℕ) : Prop :=
  (100 - sensitiveTh) * (g.cells mvParam b).length
    < (g.cells mvParam b).countP (zeroAt mvParam kernel) * 100

instance (sensitiveTh : ℕ) (kernel : ℕ → UInt8) (b : ℕ) :
    Decidable (g.Moves mvParam sensitiveTh kernel b) :=
  inferInstanceAs (Decidable (_ < _))

/-- The blocks reach over the picture, in both directions, and the grid has room for the row below
the last one. -/
structure Covers : Prop where
  width : Spans g.mbWNum g.uMbWidth mvParam.kWidth mvParam.kMbWidth
  height : Spans g.mbHNum g.uMbHeight mvParam.kHeight mvParam.kMbHeight
  below : (mvParam.mbHNum + 1) * mvParam.mbWNum < capMotionSize

/-- The matrix holds the entries of the blocks up to `k`. -/
structure HoldsTo (matrix : Cells ℤ) (k : ℕ) : Prop where
  size : g.blocks * 4 ≤ matrix.size
  entry : ∀ b < k, ∀ j < 4, matrix.cell (b * 4 + j) = g.entry mvParam b j

variable {g mvParam} {p : MvParsing} {matrix : Cells ℤ} {h w b k : ℕ}

theorem index_lt (hh : h < g.mbHNum) (hw : w < g.mbWNum) : h * g.mbWNum + w < g.blocks := by
  have hrow : (h + 1) * g.mbWNum ≤ g.blocks := Nat.mul_le_mul_right _ hh
  rw [Nat.succ_mul] at hrow
  omega

theorem index_mod (hw : w < g.mbWNum) : (h * g.mbWNum + w) % g.mbWNum = w := by
  rw [Nat.mul_add_mod', Nat.mod_eq_of_lt hw]

theorem index_div (hw : w < g.mbWNum) : (h * g.mbWNum + w) / g.mbWNum = h := by
  rw [Nat.mul_comm, Nat.mul_add_div (by omega), Nat.div_eq_of_lt hw, Nat.add_zero]

/-- The state notes down the sizes of a grid. -/
structure Noted (g : UserGrid) (mvParam : MvCfg) (p : MvParsing) : Prop where
  blkW : p.gBlkWNum = g.mbWNum
  blkH : p.gBlkHNum = g.mbHNum
  userWidth : p.gUserWidth = int32 (g.mbWNum * g.uMbWidth)
  userHeight : p.gUserHeight = int32 (g.mbHNum * g.uMbHeight)
  mbW : p.gMbWNum = mvParam.mbWNum

theorem noted_noteSizes (g : UserGrid) (mvParam : MvCfg) (p : MvParsing) :
    Noted g mvParam (noteSizes p mvParam g.uMbWidth g.uMbHeight g.mbWNum g.mbHNum) where
  blkW := rfl
  blkH := rfl
  userWidth := by rw [noteSizes]
  userHeight := by rw [noteSizes]
  mbW := rfl

/-- The arrays play no part in this. -/
theorem Noted.setArrays (hp : Noted g mvParam p) (matrix : Option (Cells ℤ))
    (kernel : Option (Cells UInt8)) :
    Noted g mvParam { p with transformMatrix := matrix, kernelMvData := kernel } :=
  ⟨hp.blkW, hp.blkH, hp.userWidth, hp.userHeight, hp.mbW⟩

/-- The entries of one more block. -/
theorem HoldsTo.fillBlock_ok (hm : HoldsTo g mvParam matrix (h * g.mbWNum + w))
    (hc : g.Covers mvParam) (hp : Noted g mvParam p) (hh : h < g.mbHNum) (hw : w < g.mbWNum) :
    ∃ matrix', fillBlock p mvParam g.uMbWidth g.uMbHeight h w matrix = .ok matrix'
      ∧ HoldsTo g mvParam matrix' (h * g.mbWNum + w + 1) := by
  have hindex := index_lt hh hw
  have hsize := hm.size
  have hlastX := Spans.block_le (u := g.uMbWidth) hw
  have hlastY := Spans.block_le (u := g.uMbHeight) hh
  have hposX : 0 < (w + 1) * g.uMbWidth := Nat.mul_pos (Nat.succ_pos w) hc.width.block_pos
  have hposY : 0 < (h + 1) * g.uMbHeight := Nat.mul_pos (Nat.succ_pos h) hc.height.block_pos
  have hfirstX : w * g.uMbWidth < g.mbWNum * g.uMbWidth :=
    Nat.mul_lt_mul_of_pos_right hw hc.width.block_pos
  have hfirstY : h * g.uMbHeight < g.mbHNum * g.uMbHeight :=
    Nat.mul_lt_mul_of_pos_right hh hc.height.block_pos
  unfold fillBlock
  rw [hp.blkW, hp.userWidth, hp.userHeight, hc.width.blockFirst_eq hw, hc.width.blockLast_eq hw,
    hc.height.blockFirst_eq hh, hc.height.blockLast_eq hh]
  refine ⟨_, (bind_of_ok (hc.width.kernelMb_eq hfirstX) _).trans <|
    (bind_of_ok (hc.width.kernelMb_eq (by omega)) _).trans <|
    (bind_of_ok (hc.height.kernelMb_eq hfirstY) _).trans <|
    (bind_of_ok (hc.height.kernelMb_eq (by omega)) _).trans <|
    (bind_of_ok (Cells.write_eq (by omega) _) _).trans <|
    (bind_of_ok (Cells.write_eq (by show _ < matrix.size; omega) _) _).trans <|
    (bind_of_ok (Cells.write_eq (by show _ < matrix.size; omega) _) _).trans <|
    Cells.write_eq (by show _ < matrix.size; omega) _, ?_⟩
  refine ⟨hsize, fun b hb j hj => ?_⟩
  simp only [Function.update_apply]
  by_cases hnew : b = h * g.mbWNum + w
  · subst hnew
    have hmod : (h * g.mbWNum + w) % g.mbWNum = w := index_mod hw
    have hdiv : (h * g.mbWNum + w) / g.mbWNum = h := index_div hw
    interval_cases j <;> simp [UserGrid.entry, column, row, hmod, hdiv]
  · rw [if_neg (by omega), if_neg (by omega), if_neg (by omega), if_neg (by omega)]
    exact hm.entry b (by omega) j hj

/-- The matrix of a grid. -/
theorem buildMatrix_ok (hc : g.Covers mvParam) (hp : Noted g mvParam p)
    (hsize : g.blocks * 4 ≤ matrix.size) :
    ∃ matrix', buildMatrix p mvParam g.uMbWidth g.uMbHeight matrix = .ok matrix'
      ∧ HoldsTo g mvParam matrix' g.blocks := by
  unfold buildMatrix
  rw [hp.blkW, hp.blkH]
  exact forUpTo_forUpTo_inv (fun k matrix => HoldsTo g mvParam matrix k)
    ⟨hsize, fun b hb => absurd hb (Nat.not_lt_zero b)⟩
    fun h hh w hw matrix hm => hm.fillBlock_ok hc hp hh hw

/-! ### Counting -/

theorem mem_blockCells {startX endX startY endY : ℤ} {c : ℤ × ℤ} :
    c ∈ blockCells startX endX startY endY
      ↔ (startX ≤ c.1 ∧ c.1 ≤ endX) ∧ startY ≤ c.2 ∧ c.2 ≤ endY := by
  obtain ⟨x, y⟩ := c
  simp only [blockCells, List.mem_flatMap, List.mem_map, Int.mem_range_iff, Prod.mk.injEq,
    Int.lt_add_one_iff]
  constructor
  · rintro ⟨a, ha, b, hb, rfl, rfl⟩
    exact ⟨hb, ha⟩
  · rintro ⟨hx, hy⟩
    exact ⟨y, hy, x, hx, rfl, rfl⟩

theorem length_blockCells (startX endX startY endY : ℤ) :
    (blockCells startX endX startY endY).length
      = (endY + 1 - startY).toNat * (endX + 1 - startX).toNat := by
  have hlen : ∀ m n : ℤ, (Int.range m n).length = (n - m).toNat := fun m n => by
    rw [Int.range, List.length_map, List.length_range]
  simp only [blockCells, List.length_flatMap, List.length_map, hlen, List.map_const',
    List.sum_replicate, smul_eq_mul]

theorem foldlM_countCell {kernel : Cells UInt8} {cells : List (ℤ × ℤ)}
    (hinside : ∀ c ∈ cells, 0 ≤ c.2 * (mvParam.mbWNum : ℤ) + c.1
      ∧ c.2 * (mvParam.mbWNum : ℤ) + c.1 < kernel.size) (s : ℕ × ℕ) :
    cells.foldlM (countCell kernel mvParam.mbWNum) s
      = .ok (s.1 + cells.countP (zeroAt mvParam kernel.cell), s.2 + cells.length) := by
  induction cells generalizing s with
  | nil => rfl
  | cons c cells ih =>
    obtain ⟨hnonneg, hlt⟩ := hinside c List.mem_cons_self
    have hread : countCell kernel mvParam.mbWNum s c
        = .ok (if zeroAt mvParam kernel.cell c then s.1 + 1 else s.1, s.2 + 1) := by
      rw [countCell, if_neg (by omega)]
      refine (bind_of_ok (Cells.read_eq (by omega)) _).trans ?_
      simp only [zeroAt, decide_eq_true_eq]
    rw [List.foldlM_cons]
    refine (bind_of_ok hread _).trans ?_
    rw [ih fun c hc => hinside c (List.mem_cons_of_mem _ hc), List.countP_cons, List.length_cons]
    split <;> simp only [Except.ok.injEq, Prod.mk.injEq] <;> omega

/-- The last pixel of a block comes at most as late as that of the picture. -/
theorem Covers.column_le_last (hc : g.Covers mvParam) (b : ℕ) :
    g.entry mvParam b 1 ≤ g.column mvParam (g.mbWNum * g.uMbWidth - 1) := by
  have hw : b % g.mbWNum < g.mbWNum := Nat.mod_lt b hc.width.n_pos
  exact mbUnder_mono (Nat.sub_le_sub_right (Spans.block_le hw) 1)

theorem row_le_last (hb : b < g.blocks) :
    g.entry mvParam b 3 ≤ g.row mvParam (g.mbHNum * g.uMbHeight - 1) := by
  have hh : b / g.mbWNum < g.mbHNum := Nat.div_lt_of_lt_mul (by rwa [Nat.mul_comm])
  exact mbUnder_mono (Nat.sub_le_sub_right (Spans.block_le hh) 1)

/-- A block reaches at most one row, and one column, over the grid. -/
theorem Covers.entry_le (hc : g.Covers mvParam) (hb : b < g.blocks) :
    g.entry mvParam b 1 ≤ mvParam.mbWNum ∧ g.entry mvParam b 3 ≤ mvParam.mbHNum := by
  have huX := hc.width.user_pos
  have huY := hc.height.user_pos
  exact ⟨(hc.column_le_last b).trans (hc.width.mbUnder_le (by omega)),
    (row_le_last hb).trans (hc.height.mbUnder_le (by omega))⟩

theorem Covers.cell_le (hc : g.Covers mvParam) (hb : b < g.blocks) {c : ℤ × ℤ}
    (hmem : c ∈ g.cells mvParam b) :
    (0 ≤ c.1 ∧ c.1 ≤ mvParam.mbWNum) ∧ 0 ≤ c.2 ∧ c.2 ≤ mvParam.mbHNum := by
  obtain ⟨⟨hx, hx'⟩, hy, hy'⟩ := mem_blockCells.mp hmem
  have hle := hc.entry_le hb
  omega

theorem Covers.index (hc : g.Covers mvParam) (hb : b < g.blocks) {c : ℤ × ℤ}
    (hmem : c ∈ g.cells mvParam b) :
    0 ≤ c.2 * (mvParam.mbWNum : ℤ) + c.1 ∧ c.2 * (mvParam.mbWNum : ℤ) + c.1 < capMotionSize := by
  obtain ⟨hx, hy⟩ := hc.cell_le hb hmem
  obtain ⟨x, hx0⟩ := Int.eq_ofNat_of_zero_le hx.1
  obtain ⟨y, hy0⟩ := Int.eq_ofNat_of_zero_le hy.1
  have hle : y * mvParam.mbWNum ≤ mvParam.mbHNum * mvParam.mbWNum :=
    Nat.mul_le_mul_right _ (by omega)
  have hbelow := hc.below
  rw [Nat.succ_mul] at hbelow
  have hcast : c.2 * (mvParam.mbWNum : ℤ) = ((y * mvParam.mbWNum : ℕ) : ℤ) := by
    rw [hy0]
    push_cast
    rfl
  omega

/-- A block has few enough cells. -/
theorem Covers.length_le (hc : g.Covers mvParam) (hW : 0 < mvParam.mbWNum) (hb : b < g.blocks) :
    (g.cells mvParam b).length ≤ 2 * capMotionSize := by
  have hle := hc.entry_le hb
  have hrows : mvParam.mbHNum + 1 ≤ (mvParam.mbHNum + 1) * mvParam.mbWNum :=
    Nat.le_mul_of_pos_right _ hW
  have hbelow := hc.below
  rw [cells, length_blockCells]
  calc _ ≤ (mvParam.mbHNum + 1) * (mvParam.mbWNum + 1) := Nat.mul_le_mul (by omega) (by omega)
    _ = (mvParam.mbHNum + 1) * mvParam.mbWNum + (mvParam.mbHNum + 1) := Nat.mul_succ _ _
    _ ≤ 2 * capMotionSize := by omega

/-! ### Flagging -/

/-- The comparison, which is one of `unsigned int`s, does not wrap. -/
theorem unsigned_gt_iff {sensitiveTh mbCount mbNum : ℕ} (hth : sensitiveTh ≤ 100)
    (hnum : mbNum ≤ 2 * capMotionSize) (hcount : mbCount ≤ mbNum) :
    unsigned (mbCount * 100) > unsigned ((100 - sensitiveTh) * mbNum)
      ↔ (100 - sensitiveTh) * mbNum < mbCount * 100 := by
  have hsize : capMotionSize = 4096 := rfl
  have hcast : ((100 : ℤ) - sensitiveTh) * mbNum = (((100 - sensitiveTh) * mbNum : ℕ) : ℤ) := by
    push_cast [Nat.cast_sub hth]
    ring
  have hle : (100 - sensitiveTh) * mbNum ≤ 100 * mbNum := Nat.mul_le_mul_right _ (by omega)
  have hcount' : ((mbCount : ℤ) * 100) = ((mbCount * 100 : ℕ) : ℤ) := by push_cast; ring
  rw [hcast, hcount', unsigned_natCast (by omega), unsigned_natCast (by omega)]

/-- What the flags of the first `k` blocks are. -/
structure FlagsTo (g : UserGrid) (mv : MvCfg) (sensitiveTh : ℕ) (kernel : ℕ → UInt8) (k : ℕ)
    (s : MvCfg) : Prop where
  size : s.activeFlag.size = mv.activeFlag.size
  flag : ∀ b < k, s.activeFlag.cell b = if g.Moves mv sensitiveTh kernel b then 0 else 1
  num : s.activeNum
    = mv.activeNum + (List.range k).countP fun b => decide (g.Moves mv sensitiveTh kernel b)
  rest : s = { mv with activeFlag := s.activeFlag, activeNum := s.activeNum }

theorem FlagsTo.flagBlock_ok {sensitiveTh : ℕ} {cell : ℕ → UInt8} {s : MvCfg}
    (hs : FlagsTo g mvParam sensitiveTh cell (h * g.mbWNum + w) s)
    (hc : g.Covers mvParam) (hp : Noted g mvParam p) (hm : HoldsTo g mvParam matrix g.blocks)
    (hW : 0 < mvParam.mbWNum) (hth : sensitiveTh ≤ 100)
    (hflags : g.blocks ≤ mvParam.activeFlag.size) (hh : h < g.mbHNum) (hw : w < g.mbWNum) :
    ∃ s', flagBlock p matrix ⟨capMotionSize, cell⟩ sensitiveTh h w s = .ok s'
      ∧ FlagsTo g mvParam sensitiveTh cell (h * g.mbWNum + w + 1) s' := by
  have hindex := index_lt hh hw
  have hsize := hm.size
  have hsflags : s.activeFlag.size = mvParam.activeFlag.size := hs.size
  have hread : ∀ j < 4, matrix.read (4 * (h * g.mbWNum + w) + j)
      = .ok (g.entry mvParam (h * g.mbWNum + w) j : ℤ) := by
    intro j hj
    rw [Cells.read_eq (by omega), Nat.mul_comm, hm.entry _ hindex j hj]
  have hcount : countMb ⟨capMotionSize, cell⟩ p.gMbWNum (g.cells mvParam (h * g.mbWNum + w))
      = .ok ((g.cells mvParam (h * g.mbWNum + w)).countP (zeroAt mvParam cell),
        (g.cells mvParam (h * g.mbWNum + w)).length) := by
    rw [hp.mbW, countMb, foldlM_countCell fun c hmem => hc.index hindex hmem, Nat.zero_add,
      Nat.zero_add]
  have hmoves := unsigned_gt_iff hth (hc.length_le hW hindex)
    (List.countP_le_length (p := zeroAt mvParam cell) (l := g.cells mvParam (h * g.mbWNum + w)))
  unfold flagBlock
  rw [hp.blkW]
  have hwrite : ∀ v : UInt8, s.activeFlag.write (h * g.mbWNum + w) v
      = .ok { s.activeFlag with
        cell := Function.update s.activeFlag.cell (h * g.mbWNum + w) v } := fun v =>
    Cells.write_eq (by omega) v
  have hold : ∀ (v : UInt8), ∀ b < h * g.mbWNum + w,
      Function.update s.activeFlag.cell (h * g.mbWNum + w) v b
        = if g.Moves mvParam sensitiveTh cell b then 0 else 1 := fun v b hb => by
    rw [Function.update_of_ne (by omega), hs.flag b hb]
  by_cases hmove : g.Moves mvParam sensitiveTh cell (h * g.mbWNum + w)
  · refine ⟨_, (bind_of_ok (hread 0 (by decide)) _).trans <|
      (bind_of_ok (hread 1 (by decide)) _).trans <| (bind_of_ok (hread 2 (by decide)) _).trans <|
      (bind_of_ok (hread 3 (by decide)) _).trans <| (bind_of_ok hcount _).trans <|
      (if_pos (hmoves.mpr hmove)).trans (bind_of_ok (hwrite 0) _), hsflags, ?_, ?_, ?_⟩
    · intro b hb
      rcases Nat.lt_succ_iff_lt_or_eq.mp hb with hb | rfl
      · exact hold 0 b hb
      · rw [if_pos hmove]
        exact Function.update_self _ _ _
    · show s.activeNum + 1 = _
      rw [hs.num, List.range_succ, List.countP_append, List.countP_singleton,
        if_pos (decide_eq_true hmove)]
      rfl
    · conv_lhs => rw [hs.rest]
  · refine ⟨_, (bind_of_ok (hread 0 (by decide)) _).trans <|
      (bind_of_ok (hread 1 (by decide)) _).trans <| (bind_of_ok (hread 2 (by decide)) _).trans <|
      (bind_of_ok (hread 3 (by decide)) _).trans <| (bind_of_ok hcount _).trans <|
      (if_neg fun h => hmove (hmoves.mp h)).trans (bind_of_ok (hwrite 1) _), hsflags, ?_, ?_, ?_⟩
    · intro b hb
      rcases Nat.lt_succ_iff_lt_or_eq.mp hb with hb | rfl
      · exact hold 1 b hb
      · rw [if_neg hmove]
        exact Function.update_self _ _ _
    · show s.activeNum = _
      rw [hs.num, List.range_succ, List.countP_append, List.countP_singleton,
        if_neg fun h => hmove (of_decide_eq_true h)]
      rfl
    · conv_lhs => rw [hs.rest]

/-- The flags of all blocks. -/
theorem flagBlocks_ok {sensitiveTh : ℕ} (cell : ℕ → UInt8) (hc : g.Covers mvParam)
    (hp : Noted g mvParam p) (hm : HoldsTo g mvParam matrix g.blocks) (hW : 0 < mvParam.mbWNum)
    (hth : sensitiveTh ≤ 100) (hflags : g.blocks ≤ mvParam.activeFlag.size) :
    ∃ s', flagBlocks p matrix ⟨capMotionSize, cell⟩ sensitiveTh mvParam = .ok s'
      ∧ FlagsTo g mvParam sensitiveTh cell g.blocks s' := by
  unfold flagBlocks
  rw [hp.blkW, hp.blkH]
  exact forUpTo_forUpTo_inv (fun k s => FlagsTo g mvParam sensitiveTh cell k s)
    ⟨rfl, fun b hb => absurd hb (Nat.not_lt_zero b), rfl, rfl⟩
    fun h hh w hw s hs => hs.flagBlock_ok hc hp hm hW hth hflags hh hw

/-! ### A frame -/

/-- The arrays of a detector have been allocated for a grid. -/
structure Allocated (g : UserGrid) (p : MvParsing) : Prop where
  init : p.isParsingInitOk = true
  matrix : ∃ matrix, p.transformMatrix = some matrix ∧ g.blocks * 4 ≤ matrix.size
  kernel : ∃ kernel, p.kernelMvData = some kernel ∧ kernel.size = capMotionSize

/-- The matrix, and the sizes noted down, are those of a grid. -/
structure Describes (g : UserGrid) (mvParam : MvCfg) (p : MvParsing) : Prop where
  noted : Noted g mvParam p
  matrix : ∀ matrix, p.transformMatrix = some matrix → HoldsTo g mvParam matrix g.blocks

/-- The flags play no part in this. -/
theorem Describes.setFlags (h : g.Describes mvParam p) (activeFlag : Cells UInt8) (activeNum : ℕ) :
    g.Describes { mvParam with activeFlag := activeFlag, activeNum := activeNum } p := by
  obtain ⟨hnoted, hm⟩ := h
  refine ⟨⟨hnoted.blkW, hnoted.blkH, hnoted.userWidth, hnoted.userHeight, hnoted.mbW⟩, ?_⟩
  exact fun matrix hmatrix => ⟨(hm matrix hmatrix).size, (hm matrix hmatrix).entry⟩

/-- A frame: the flags are those of its own data, and the matrix is that of its sizes. -/
theorem parsingMvData_ok {eventBuf : Cells UInt8} {sensitiveTh frameCount : ℕ}
    (hp : g.Allocated p) (hfit : mvParam.Fits eventBuf.size) (hc : g.Covers mvParam)
    (hth : sensitiveTh ≤ 100) (hflags : g.blocks ≤ mvParam.activeFlag.size)
    (hcount : frameCount = 0 ∨ g.Describes mvParam p) :
    ∃ p' s, parsingMvData p eventBuf mvParam g.uMbWidth g.uMbHeight sensitiveTh frameCount g.mbWNum
        g.mbHNum = .ok (0, p', s)
      ∧ g.Allocated p' ∧ g.Describes mvParam p'
      ∧ FlagsTo g mvParam sensitiveTh (mvParam.grid eventBuf.cell) g.blocks s := by
  obtain ⟨kernel, hkernel, hksize⟩ := hp.kernel
  obtain ⟨matrix, hmatrix, hmsize⟩ := hp.matrix
  let p₁ : MvParsing :=
    { p with kernelMvData := some ⟨capMotionSize, mvParam.grid eventBuf.cell⟩ }
  have hpos : ¬ (mvParam.kMbWidth = 0 ∨ mvParam.kMbHeight = 0) := by
    have hw := hfit.kMbWidth
    have hh := hfit.kMbHeight
    omega
  have hparsing : parsingMv p eventBuf mvParam = .ok (0, p₁) :=
    hfit.parsingMv_eq hp.init hkernel hksize
  suffices htransform : ∃ p' s, transform p₁ mvParam g.uMbWidth g.uMbHeight sensitiveTh frameCount
      g.mbWNum g.mbHNum = .ok (0, p', s) ∧ g.Allocated p' ∧ g.Describes mvParam p'
      ∧ FlagsTo g mvParam sensitiveTh (mvParam.grid eventBuf.cell) g.blocks s by
    obtain ⟨p', s, hrun, hrest⟩ := htransform
    exact ⟨p', s, (bind_of_ok hparsing _).trans (bind_of_ok hrun _), hrest⟩
  have hinit : ¬ p₁.isParsingInitOk = false := by
    show ¬ p.isParsingInitOk = false
    rw [hp.init]
    decide
  have hmatrix₁ : p₁.transformMatrix = some matrix := hmatrix
  by_cases hzero : frameCount = 0
  · have hnoted := noted_noteSizes g mvParam p₁
    obtain ⟨matrix', hbuild, hholds⟩ := buildMatrix_ok hc hnoted hmsize
    obtain ⟨s, hrun, hs⟩ :=
      flagBlocks_ok (mvParam.grid eventBuf.cell) hc hnoted hholds hfit.mbWNum hth hflags
    refine ⟨{ noteSizes p₁ mvParam g.uMbWidth g.uMbHeight g.mbWNum g.mbHNum with
      transformMatrix := some matrix' }, s, ?_, ⟨hp.init, ⟨matrix', rfl, hholds.size⟩, _, rfl, rfl⟩,
      ⟨hnoted.setArrays (some matrix') _, ?_⟩, hs⟩
    · rw [transform, if_neg hinit, hmatrix₁]
      refine (if_pos hzero).trans ((if_neg hpos).trans ?_)
      exact (bind_of_ok hbuild _).trans (bind_of_ok hrun _)
    · rintro _ ⟨⟩
      exact hholds
  · obtain ⟨hnoted, hholds⟩ := hcount.resolve_left hzero
    have hnoted₁ : Noted g mvParam p₁ := hnoted.setArrays _ _
    obtain ⟨s, hrun, hs⟩ := flagBlocks_ok (mvParam.grid eventBuf.cell) hc hnoted₁
      (hholds matrix hmatrix) hfit.mbWNum hth hflags
    refine ⟨p₁, s, ?_, ⟨hp.init, ⟨matrix, hmatrix, hmsize⟩, _, rfl, rfl⟩, ⟨hnoted₁, hholds⟩, hs⟩
    rw [transform, if_neg hinit, hmatrix₁]
    exact (if_neg hzero).trans (bind_of_ok hrun _)

/-- Every macroblock of the grid lies in a block. -/
theorem Covers.exists_block (hc : g.Covers mvParam) {x y : ℕ} (hx : x < mvParam.mbWNum)
    (hy : y < mvParam.mbHNum) : ∃ b < g.blocks, ((x : ℤ), (y : ℤ)) ∈ g.cells mvParam b := by
  obtain ⟨w, hw, hxw⟩ := hc.width.exists_block hx
  obtain ⟨h, hh, hyh⟩ := hc.height.exists_block hy
  refine ⟨h * g.mbWNum + w, index_lt hh hw, mem_blockCells.mpr ?_⟩
  have hmod : (h * g.mbWNum + w) % g.mbWNum = w := index_mod hw
  have hdiv : (h * g.mbWNum + w) / g.mbWNum = h := index_div hw
  simp only [entry, hmod, hdiv, column, row]
  omega

end UserGrid

/-! ## Main results -/

/-- **The grid of a frame**: every macroblock has its own two bits, except that one which moves
alone, and not at the edge, does not move. -/
theorem parsing_mv_exact {mvParam : MvCfg} {p : MvParsing} {eventBuf kernel : Cells UInt8}
    (hok : p.isParsingInitOk = true) (hkernel : p.kernelMvData = some kernel)
    (hsize : kernel.size = capMotionSize) (hfit : mvParam.Fits eventBuf.size) :
    ∃ kernel', parsingMv p eventBuf mvParam = .ok (0, { p with kernelMvData := some kernel' })
      ∧ kernel'.size = capMotionSize
      ∧ ∀ r < mvParam.mbHNum, ∀ x < mvParam.mbWNum, kernel'.cell (r * mvParam.mbWNum + x)
        = if mvParam.Noise eventBuf.cell r x then 1 else mvCell eventBuf.cell r x :=
  ⟨_, hfit.parsingMv_eq hok hkernel hsize, rfl, fun _ hr _ hx => MvCfg.grid_eq hr hx⟩

/-- A frame of 720 lines. -/
def hdCfg : MvCfg := ⟨720, 1280, 32, 32, ⟨920, fun _ => 0⟩, 0⟩

theorem hdCfg_fits : hdCfg.Fits capMotionSize :=
  ⟨by decide, by decide, by decide, by decide, by decide, by decide⟩

/-- What has been allocated for it. -/
def hdParsing : MvParsing :=
  ⟨true, some ⟨3680, fun _ => 0⟩, some ⟨capMotionSize, fun _ => 0⟩, 0, 0, 0, 0, 0, 0, 920⟩

theorem parsing_mv_exact_hd :
    ∃ kernel', parsingMv hdParsing ⟨capMotionSize, fun _ => 0x55⟩ hdCfg
        = .ok (0, { hdParsing with kernelMvData := some kernel' })
      ∧ kernel'.size = capMotionSize
      ∧ ∀ r < hdCfg.mbHNum, ∀ x < hdCfg.mbWNum, kernel'.cell (r * hdCfg.mbWNum + x)
        = if hdCfg.Noise (fun _ => 0x55) r x then 1 else mvCell (fun _ => 0x55) r x :=
  parsing_mv_exact rfl rfl rfl hdCfg_fits

/-- **The blocks**: every macroblock lies in one, none reaches further than a row and a column over
the grid, and when they do reach over it. -/
theorem transform_matrix_covers {g : UserGrid} {mvParam : MvCfg} {p : MvParsing} {matrix : Cells ℤ}
    (hc : g.Covers mvParam) (hsize : g.blocks * 4 ≤ matrix.size) :
    ∃ matrix', buildMatrix (noteSizes p mvParam g.uMbWidth g.uMbHeight g.mbWNum g.mbHNum) mvParam
        g.uMbWidth g.uMbHeight matrix = .ok matrix'
      ∧ (∀ x < mvParam.mbWNum, ∀ y < mvParam.mbHNum, ∃ b < g.blocks,
        (matrix'.cell (b * 4) ≤ x ∧ x ≤ matrix'.cell (b * 4 + 1))
          ∧ matrix'.cell (b * 4 + 2) ≤ y ∧ y ≤ matrix'.cell (b * 4 + 3))
      ∧ (∀ b < g.blocks, (0 ≤ matrix'.cell (b * 4) ∧ matrix'.cell (b * 4 + 1) ≤ mvParam.mbWNum)
          ∧ 0 ≤ matrix'.cell (b * 4 + 2) ∧ matrix'.cell (b * 4 + 3) ≤ mvParam.mbHNum)
      ∧ ((∃ b < g.blocks, matrix'.cell (b * 4 + 1) = mvParam.mbWNum)
        ↔ mvParam.kWidth ≤ g.mbWNum * g.uMbWidth * (mvParam.kWidth % mvParam.kMbWidth))
      ∧ ((∃ b < g.blocks, matrix'.cell (b * 4 + 3) = mvParam.mbHNum)
        ↔ mvParam.kHeight ≤ g.mbHNum * g.uMbHeight * (mvParam.kHeight % mvParam.kMbHeight)) := by
  obtain ⟨matrix', hbuild, hm⟩ :=
    UserGrid.buildMatrix_ok hc (UserGrid.noted_noteSizes g mvParam p) hsize
  have h0 : ∀ b < g.blocks, matrix'.cell (b * 4) = g.entry mvParam b 0 := fun b hb =>
    hm.entry b hb 0 (by decide)
  have h1 : ∀ b < g.blocks, matrix'.cell (b * 4 + 1) = g.entry mvParam b 1 := fun b hb =>
    hm.entry b hb 1 (by decide)
  have h2 : ∀ b < g.blocks, matrix'.cell (b * 4 + 2) = g.entry mvParam b 2 := fun b hb =>
    hm.entry b hb 2 (by decide)
  have h3 : ∀ b < g.blocks, matrix'.cell (b * 4 + 3) = g.entry mvParam b 3 := fun b hb =>
    hm.entry b hb 3 (by decide)
  have hlast : (g.mbHNum - 1) * g.mbWNum + (g.mbWNum - 1) < g.blocks :=
    UserGrid.index_lt (by have := hc.height.n_pos; omega) (by have := hc.width.n_pos; omega)
  refine ⟨matrix', hbuild, fun x hx y hy => ?_, fun b hb => ?_, ?_, ?_⟩
  · obtain ⟨b, hb, hcell⟩ := hc.exists_block hx hy
    rw [UserGrid.cells, UserGrid.mem_blockCells] at hcell
    refine ⟨b, hb, ?_⟩
    rw [h0 b hb, h1 b hb, h2 b hb, h3 b hb]
    exact hcell
  · rw [h0 b hb, h1 b hb, h2 b hb, h3 b hb]
    have hle := hc.entry_le hb
    omega
  · rw [← hc.width.mbUnder_last_iff]
    constructor
    · rintro ⟨b, hb, heq⟩
      rw [h1 b hb] at heq
      exact le_antisymm (hc.width.mbUnder_le (by have := hc.width.user_pos; omega))
        ((Int.ofNat_inj.mp heq).ge.trans (hc.column_le_last b))
    · intro heq
      refine ⟨_, hlast, ?_⟩
      have hend : ((g.mbHNum - 1) * g.mbWNum + (g.mbWNum - 1)) % g.mbWNum + 1 = g.mbWNum := by
        have hW := hc.width.n_pos
        rw [UserGrid.index_mod (by omega)]
        omega
      rw [h1 _ hlast, UserGrid.entry, hend]
      exact congrArg Nat.cast heq
  · rw [← hc.height.mbUnder_last_iff]
    constructor
    · rintro ⟨b, hb, heq⟩
      rw [h3 b hb] at heq
      exact le_antisymm (hc.height.mbUnder_le (by have := hc.height.user_pos; omega))
        ((Int.ofNat_inj.mp heq).ge.trans (UserGrid.row_le_last hb))
    · intro heq
      refine ⟨_, hlast, ?_⟩
      have hend : ((g.mbHNum - 1) * g.mbWNum + (g.mbWNum - 1)) / g.mbWNum + 1 = g.mbHNum := by
        have hW := hc.width.n_pos
        have hH := hc.height.n_pos
        rw [UserGrid.index_div (by omega)]
        omega
      rw [h3 _ hlast, UserGrid.entry, hend]
      · exact congrArg Nat.cast heq
      all_goals decide

/-- The blocks of 32 pixels of a frame of 720 lines. -/
def hdGrid : UserGrid := ⟨40, 23, 32, 32⟩

theorem hdGrid_covers : hdGrid.Covers hdCfg :=
  ⟨⟨by decide, by decide, by decide, by decide, by decide, by decide⟩,
    ⟨by decide, by decide, by decide, by decide, by decide, by decide⟩, by decide⟩

theorem transform_matrix_covers_hd :
    ∃ matrix', buildMatrix (noteSizes hdParsing hdCfg 32 32 40 23) hdCfg 32 32 ⟨3680, fun _ => 0⟩
        = .ok matrix'
      ∧ ∃ b < 920, matrix'.cell (b * 4 + 3) = 22 := by
  obtain ⟨matrix', hbuild, -, -, -, hrows⟩ := transform_matrix_covers (g := hdGrid)
    (p := hdParsing) hdGrid_covers (show 3680 ≤ (Cells.mk 3680 fun _ => (0 : ℤ)).size from le_rfl)
  exact ⟨matrix', hbuild, hrows.mpr (by decide)⟩
