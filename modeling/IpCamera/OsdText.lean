/-
# Text on the screen (`update_osd_with_hzk` in `osd.c`)

The glyphs of a text are read from the font files and set side by side in an array of bytes, eight
pixels in each.  The array is then cut into tiles of 12 by 18 pixels, the fonts of the OSD driver,
and the driver gets the tiles and the numbers under which it shows them.

This module has the function and its first half: what the array holds when all glyphs are set,
`drawText_eq`.  `OsdTiles.lean` has the second half.
-/
import IpCamera.CheckedArray
import IpCamera.Gb2312

namespace Osd

/-! ## The function -/

/-- A font file, as far as it is there. -/
abbrev FontFile := Option (ℕ → UInt8)

/-- The files of one size: `/home/font/HZK<size>` and `/home/font/ASCII<size>`. -/
structure Fonts where
  hzk : FontFile
  ascii : FontFile

/-- `open` -/
def openFont : FontFile → Except Stop (ℕ → UInt8)
  | some file => .ok file
  | none => .error .cannotOpen

/-- What lies on the stack, and in the memory from `malloc`, before anything is written there. -/
structure Remains where
  mat : ℕ → ℕ → UInt8
  matasc : ℕ → ℕ → UInt8
  hzArr : ℕ → ℕ → UInt8
  fontIndex : ℕ → UInt16

/-- The arrays of the first half, and how far the text has come. -/
structure Canvas where
  mat : Grid
  matasc : Grid
  hzArr : Grid
  idx : ℕ
  beNewline : Bool

/-- The value of a product of `int`s. -/
def asInt (x : ℤ) : Except Stop ℤ :=
  if -2147483648 ≤ x ∧ x < 2147483648 then .ok x else .error .undefined

/-- Where `lseek` leaves a file that was just opened; it refuses places before the start. -/
def seekTo (offset : ℤ) : ℕ := offset.toNat

/-- `sizes/8*horizonl_hz_n`, the bytes of a row. -/
def rowBytes (sizes hzN : ℕ) : ℕ := sizes / 8 * hzN

/-- `FONT_V` -/
def fontV (sizes : ℕ) : ℕ := sizes / 18 + if sizes % 18 = 0 then 0 else 1

/-- `FONT_H` -/
def fontH (sizes hzN : ℕ) : ℕ := sizes * hzN / 12 + if sizes * hzN % 12 = 0 then 0 else 1

/-- The width in pixels of an ASCII character. -/
def asciiSz (sizes : ℕ) : ℕ := (sizes / 8 + 1) / 2 * 8

variable (fonts : Fonts) (sizes hzN : ℕ)

/-- One round of the loop over the rows of a full character. -/
def hanziRow (i : ℕ) (d : Canvas) : Except Stop Canvas :=
  let w := rowBytes sizes hzN
  if w = 0 then .error .undefined
  else if d.idx % w + sizes / 8 ≤ w then do
    let hzArr ← d.hzArr.memcpy (i + sizes * (d.idx / w)) (d.idx % w) d.mat i (sizes / 8)
    .ok { d with hzArr := hzArr, beNewline := false }
  else do
    let hzArr ← d.hzArr.memcpy (i + sizes * (d.idx / w)) (d.idx % w) d.mat i
      (sizes / 8 * hzN - d.idx % w)
    .ok { d with hzArr := hzArr, beNewline := true }

/-- A full character: `qh` and `wh` are its row and its column in GB2312. -/
def drawHanzi (b₀ b₁ : UInt8) (d : Canvas) : Except Stop Canvas := do
  let qh := b₀ - 0xa0
  let wh := b₁ - 0xa0
  let area ← asInt (sizes * sizes)
  let offset ← asInt ((94 * ((qh.toNat : ℤ) - 1) + ((wh.toNat : ℤ) - 1)) * (area / 8))
  let file ← openFont fonts.hzk
  let mat ← d.mat.fill file (seekTo offset) (area / 8).toNat
  let d ← forUpTo (hanziRow sizes hzN) sizes { d with mat := mat }
  .ok { d with idx := d.idx + if d.beNewline then sizes / 8 / 2 else sizes / 8 }

/-- One round of the loop over the rows of an ASCII character; the loop after it reads the same
bytes again and does nothing with them. -/
def asciiRow (i : ℕ) (d : Canvas) : Except Stop Canvas :=
  let w := rowBytes sizes hzN
  if w = 0 then .error .undefined
  else do
    let hzArr ← d.hzArr.memcpy (i + sizes * (d.idx / w)) (d.idx % w) d.matasc i (asciiSz sizes / 8)
    .ok { d with hzArr := hzArr }

/-- An ASCII character. -/
def drawAscii (b : UInt8) (d : Canvas) : Except Stop Canvas := do
  let above ← asInt (b.toNat * sizes)
  let offset ← asInt (above * asciiSz sizes)
  let file ← openFont fonts.ascii
  let area ← asInt (sizes * asciiSz sizes)
  let matasc ← d.matasc.fill file (seekTo (offset / 8)) (area / 8).toNat
  let d ← forUpTo (asciiRow sizes hzN) sizes { d with matasc := matasc }
  .ok { d with idx := d.idx + asciiSz sizes / 8 }

/-- The loop over the text; behind its last byte stands a zero. -/
def drawText : List UInt8 → Canvas → Except Stop Canvas
  | [], d => .ok d
  | [b₀], d => if b₀ &&& 0x80 ≠ 0 then drawHanzi fonts sizes hzN b₀ 0 d
      else drawAscii fonts sizes hzN b₀ d
  | b₀ :: b₁ :: rest, d =>
    if b₀ &&& 0x80 ≠ 0 then do
      let d ← drawHanzi fonts sizes hzN b₀ b₁ d
      drawText rest d
    else do
      let d ← drawAscii fonts sizes hzN b₀ d
      drawText (b₁ :: rest) d

/-! ## What is asked -/

/-- A character of a text in GB2312. -/
inductive OsdChar where
  | ascii (b : UInt8) (h : b ≠ 0 ∧ b < 0x80)
  | full (hi lo : UInt8) (h : (0xa1 ≤ hi ∧ hi ≤ 0xfe) ∧ 0xa1 ≤ lo ∧ lo ≤ 0xfe)

namespace OsdChar

/-- The bytes of the text. -/
def bytes : OsdChar → List UInt8
  | ascii b _ => [b]
  | full hi lo _ => [hi, lo]

/-- How many bytes a row of the glyph has. -/
def width (sizes : ℕ) : OsdChar → ℕ
  | ascii _ _ => (sizes / 8 + 1) / 2
  | full _ _ _ => sizes / 8

/-- The place of the glyph in its file. -/
def number : OsdChar → ℕ
  | ascii b _ => b.toNat
  | full hi lo _ => 94 * (hi.toNat - 0xa1) + (lo.toNat - 0xa1)

/-- The glyphs follow each other in a file, and in a glyph its rows. -/
def glyph (hzk ascii : ℕ → UInt8) (sizes : ℕ) (g : OsdChar) (r b : ℕ) : UInt8 :=
  (match g with | .ascii _ _ => ascii | full _ _ _ => hzk)
    (g.number * (sizes * g.width sizes) + (r * g.width sizes + b))

/-- The place of the glyph is computed without overflow. -/
def InInt (sizes : ℕ) : OsdChar → Prop
  | ascii b _ => b.toNat * sizes * asciiSz sizes < 2147483648
  | g@(full _ _ _) => sizes * sizes < 2147483648 ∧ g.number * (sizes * sizes / 8) < 2147483648

end OsdChar

/-- The bytes of a text. -/
def textBytes (text : List OsdChar) : List UInt8 := text.flatMap OsdChar.bytes

/-- How many bytes a row of a text has. -/
def textWidth (sizes : ℕ) (text : List OsdChar) : ℕ := (text.map (OsdChar.width sizes)).sum

/-- A row of the glyphs of a text, side by side. -/
def textRow (hzk ascii : ℕ → UInt8) (sizes : ℕ) (text : List OsdChar) (r : ℕ) : List UInt8 :=
  text.flatMap fun g => (List.range (g.width sizes)).map (g.glyph hzk ascii sizes r)

/-! ## One character -/

/-- The arrays have the sizes they are declared with. -/
structure Canvas.Sized (d : Canvas) : Prop where
  mat : d.mat.rows = sizes ∧ d.mat.cols = sizes / 8
  matasc : d.matasc.rows = sizes ∧ d.matasc.cols = (sizes / 8 + 1) / 2
  hzArr : d.hzArr.rows = sizes ∧ d.hzArr.cols = rowBytes sizes hzN

/-- What the loop does for a character. -/
def drawChar : OsdChar → Canvas → Except Stop Canvas
  | .ascii b _ => drawAscii fonts sizes hzN b
  | .full hi lo _ => drawHanzi fonts sizes hzN hi lo

/-- The text after the drawing of a character: its bytes stand at its place, all others are as
they were. -/
structure Drawn (hzk ascii : ℕ → UInt8) (text : List OsdChar) (d d' : Canvas) : Prop where
  sized : d'.Sized sizes hzN
  idx : d'.idx = d.idx + textWidth sizes text
  cell : ∀ r < sizes, ∀ c, d'.hzArr.cell r c =
    if d.idx ≤ c ∧ c < d.idx + textWidth sizes text
      then (textRow hzk ascii sizes text r).getD (c - d.idx) 0 else d.hzArr.cell r c

variable {fonts sizes hzN} {hzk ascii : ℕ → UInt8} {d : Canvas}

theorem asInt_eq {x : ℤ} (hlow : 0 ≤ x) (hhigh : x < 2147483648) : asInt x = .ok x :=
  if_pos ⟨by omega, hhigh⟩

/-- A row of the canvas, while the text is in the first row of characters. -/
theorem hanziRow_eq (hidx : d.idx + sizes / 8 ≤ rowBytes sizes hzN) (hwidth : 0 < sizes / 8)
    {i : ℕ} {hzArr : Grid} (hcopy : d.hzArr.memcpy i d.idx d.mat i (sizes / 8) = .ok hzArr) :
    hanziRow sizes hzN i d = .ok { d with hzArr := hzArr, beNewline := false } := by
  have hmod : d.idx % rowBytes sizes hzN = d.idx := Nat.mod_eq_of_lt (by omega)
  have hdiv : d.idx / rowBytes sizes hzN = 0 := Nat.div_eq_of_lt (by omega)
  unfold hanziRow
  dsimp only
  rw [if_neg (by omega), hmod, hdiv, if_pos hidx, Nat.mul_zero, Nat.add_zero, bind_of_ok hcopy]

theorem asciiRow_eq (hidx : d.idx + asciiSz sizes / 8 ≤ rowBytes sizes hzN)
    (hwidth : 0 < asciiSz sizes / 8) {i : ℕ} {hzArr : Grid}
    (hcopy : d.hzArr.memcpy i d.idx d.matasc i (asciiSz sizes / 8) = .ok hzArr) :
    asciiRow sizes hzN i d = .ok { d with hzArr := hzArr } := by
  have hmod : d.idx % rowBytes sizes hzN = d.idx := Nat.mod_eq_of_lt (by omega)
  have hdiv : d.idx / rowBytes sizes hzN = 0 := Nat.div_eq_of_lt (by omega)
  unfold asciiRow
  dsimp only
  rw [if_neg (by omega), hmod, hdiv, Nat.mul_zero, Nat.add_zero, bind_of_ok hcopy]

/-- All rows of a full character. -/
theorem hanziRows (hd : d.Sized sizes hzN) (hsizes : 0 < sizes / 8)
    (hidx : d.idx + sizes / 8 ≤ rowBytes sizes hzN) :
    ∃ hzArr, forUpTo (hanziRow sizes hzN) sizes d
        = .ok { d with hzArr := hzArr, beNewline := false } ∧
      Grid.Copied d.hzArr d.mat d.idx (sizes / 8) sizes hzArr := by
  have hround : ∀ i < sizes, ∀ e : Canvas,
      (∃ hzArr newline, e = { d with hzArr := hzArr, beNewline := newline } ∧
        (0 < i → newline = false)) ∧ Grid.Copied d.hzArr d.mat d.idx (sizes / 8) i e.hzArr →
      ∃ e', hanziRow sizes hzN i e = .ok e' ∧
        (∃ hzArr newline, e' = { d with hzArr := hzArr, beNewline := newline } ∧
          (0 < i + 1 → newline = false)) ∧
        Grid.Copied d.hzArr d.mat d.idx (sizes / 8) (i + 1) e'.hzArr := by
    rintro i hi e ⟨⟨hzArr, newline, rfl, -⟩, hcopied⟩
    obtain ⟨g, hcopy, hg⟩ := hcopied.step (by rwa [hd.hzArr.1]) (by rwa [hd.hzArr.2])
      (by rwa [hd.mat.1]) hd.mat.2.ge
    have hrow := hanziRow_eq (d := { d with hzArr := hzArr, beNewline := newline }) hidx hsizes
      hcopy
    exact ⟨_, hrow, ⟨g, false, rfl, fun _ => rfl⟩, hg⟩
  obtain ⟨d', hrun, ⟨hzArr, newline, rfl, hnewline⟩, hcopied⟩ := forUpTo_inv _
    ⟨⟨d.hzArr, d.beNewline, rfl, fun h => absurd h (by omega)⟩, Grid.Copied.start⟩ hround
  obtain rfl := hnewline (by omega)
  exact ⟨hzArr, hrun, hcopied⟩

/-- All rows of an ASCII character. -/
theorem asciiRows (hd : d.Sized sizes hzN) (hsizes : 0 < asciiSz sizes / 8)
    (hidx : d.idx + asciiSz sizes / 8 ≤ rowBytes sizes hzN) :
    ∃ hzArr, forUpTo (asciiRow sizes hzN) sizes d = .ok { d with hzArr := hzArr } ∧
      Grid.Copied d.hzArr d.matasc d.idx (asciiSz sizes / 8) sizes hzArr := by
  have hwidth : asciiSz sizes / 8 = d.matasc.cols := by
    rw [hd.matasc.2, asciiSz]
    omega
  have hround : ∀ i < sizes, ∀ e : Canvas,
      (∃ hzArr, e = { d with hzArr := hzArr }) ∧
        Grid.Copied d.hzArr d.matasc d.idx (asciiSz sizes / 8) i e.hzArr →
      ∃ e', asciiRow sizes hzN i e = .ok e' ∧ (∃ hzArr, e' = { d with hzArr := hzArr }) ∧
        Grid.Copied d.hzArr d.matasc d.idx (asciiSz sizes / 8) (i + 1) e'.hzArr := by
    rintro i hi e ⟨⟨hzArr, rfl⟩, hcopied⟩
    obtain ⟨g, hcopy, hg⟩ := hcopied.step (by rwa [hd.hzArr.1]) (by rwa [hd.hzArr.2])
      (by rwa [hd.matasc.1]) hwidth.le
    have hrow := asciiRow_eq (d := { d with hzArr := hzArr }) hidx hsizes hcopy
    exact ⟨_, hrow, ⟨g, rfl⟩, hg⟩
  obtain ⟨d', hrun, ⟨hzArr, rfl⟩, hcopied⟩ := forUpTo_inv _
    ⟨⟨d.hzArr, rfl⟩, Grid.Copied.start⟩ hround
  exact ⟨hzArr, hrun, hcopied⟩

theorem textRow_singleton (g : OsdChar) (r : ℕ) : textRow hzk ascii sizes [g] r =
    (List.range (g.width sizes)).map (g.glyph hzk ascii sizes r) := by
  rw [textRow, List.flatMap_singleton]

theorem textWidth_singleton (g : OsdChar) : textWidth sizes [g] = g.width sizes := by
  rw [textWidth, List.map_singleton, List.sum_singleton]

/-- The rows of a glyph have been copied. -/
theorem Drawn.of_copied {g : OsdChar} {src : Grid} {d' : Canvas} (hsized : d'.Sized sizes hzN)
    (hidx : d'.idx = d.idx + g.width sizes)
    (hcopied : Grid.Copied d.hzArr src d.idx (g.width sizes) sizes d'.hzArr)
    (hsrc : ∀ r < sizes, ∀ b < g.width sizes, src.cell r b = g.glyph hzk ascii sizes r b) :
    Drawn sizes hzN hzk ascii [g] d d' := by
  refine ⟨hsized, by rw [hidx, textWidth_singleton], fun r hr c => ?_⟩
  rw [hcopied.cell, textWidth_singleton, textRow_singleton]
  by_cases hc : d.idx ≤ c ∧ c < d.idx + g.width sizes
  · have hb : c - d.idx < g.width sizes := by omega
    rw [if_pos ⟨hr, hc⟩, if_pos hc, hsrc r hr _ hb, List.getD_eq_getElem?_getD, List.getElem?_map,
      List.getElem?_range hb]
    rfl
  · rw [if_neg fun h => hc h.2, if_neg hc]

section Valid

variable (h8 : 8 ∣ sizes) (hpos : 0 < sizes)

include h8 in
theorem full_area : sizes * sizes / 8 = sizes * (sizes / 8) := by
  rw [Nat.mul_div_assoc _ h8]

theorem ascii_area : sizes * asciiSz sizes / 8 = sizes * ((sizes / 8 + 1) / 2) := by
  rw [asciiSz, ← Nat.mul_assoc, Nat.mul_div_cancel _ (by decide)]

/-- Rows and columns of GB2312 are counted from 1 on. -/
theorem toNat_sub_a0 {b : UInt8} (hb : 0xa1 ≤ b) :
    ((b - 0xa0).toNat : ℤ) - 1 = (b.toNat - 0xa1 : ℕ) := by
  have hle : 161 ≤ b.toNat := UInt8.le_iff_toNat_le.mp hb
  have hsub : (b - 0xa0).toNat = b.toNat - 160 :=
    UInt8.toNat_sub_of_le _ _ (UInt8.le_iff_toNat_le.mpr (show 160 ≤ b.toNat by omega))
  omega

include h8 hpos in
theorem drawHanzi_drawn {hi lo : UInt8} (h : (0xa1 ≤ hi ∧ hi ≤ 0xfe) ∧ 0xa1 ≤ lo ∧ lo ≤ 0xfe)
    (hd : d.Sized sizes hzN) (hfit : d.idx + sizes / 8 ≤ rowBytes sizes hzN)
    (hint : (OsdChar.full hi lo h).InInt sizes) :
    ∃ d', drawHanzi ⟨some hzk, some ascii⟩ sizes hzN hi lo d = .ok d' ∧
      Drawn sizes hzN hzk ascii [.full hi lo h] d d' := by
  obtain ⟨n, hn⟩ : ∃ n, n = 94 * (hi.toNat - 0xa1) + (lo.toNat - 0xa1) := ⟨_, rfl⟩
  have hplace : 94 * (((hi - 0xa0).toNat : ℤ) - 1) + (((lo - 0xa0).toNat : ℤ) - 1) = n := by
    rw [toNat_sub_a0 h.1.1, toNat_sub_a0 h.2.1, hn]
    omega
  have hbig : sizes * sizes < 2147483648 ∧ n * (sizes * sizes / 8) < 2147483648 := hn ▸ hint
  rw [full_area h8] at hbig
  have harea : asInt ((sizes : ℤ) * sizes) = .ok (sizes * sizes : ℕ) := by
    rw [← Nat.cast_mul]
    exact asInt_eq (by omega) (by omega)
  have heighth : ((sizes * sizes : ℕ) : ℤ) / 8 = (sizes * (sizes / 8) : ℕ) := by
    rw [← full_area h8]
    rfl
  have hoffset : asInt ((n : ℤ) * (sizes * (sizes / 8) : ℕ)) =
      .ok (n * (sizes * (sizes / 8)) : ℕ) := by
    rw [← Nat.cast_mul]
    exact asInt_eq (by omega) (by omega)
  have hopen : openFont (some hzk) = .ok hzk := rfl
  obtain ⟨mat, hfill, hrows, hcols, hmat⟩ := d.mat.fill_all hzk (n * (sizes * (sizes / 8)))
  rw [hd.mat.1, hd.mat.2] at hfill hmat
  have hsized : Canvas.Sized sizes hzN { d with mat := mat } :=
    ⟨⟨hrows.trans hd.mat.1, hcols.trans hd.mat.2⟩, hd.matasc, hd.hzArr⟩
  obtain ⟨hzArr, hrun, hcopied⟩ := hanziRows hsized (by omega) hfit
  refine ⟨{ d with
      mat := mat, hzArr := hzArr, beNewline := false, idx := d.idx + sizes / 8 }, ?_, ?_⟩
  · unfold drawHanzi
    dsimp only
    rw [hplace, bind_of_ok harea, heighth, bind_of_ok hoffset, bind_of_ok hopen, seekTo,
      Int.toNat_natCast, Int.toNat_natCast, bind_of_ok hfill, bind_of_ok hrun]
    rfl
  · refine Drawn.of_copied ⟨hsized.mat, hd.matasc, hcopied.rows.trans hd.hzArr.1,
      hcopied.cols.trans hd.hzArr.2⟩ rfl hcopied ?_
    intro r hr b hb
    rw [hmat r hr b hb, hn]
    rfl

include hpos in
theorem drawAscii_drawn {b : UInt8} (h : b ≠ 0 ∧ b < 0x80) (hd : d.Sized sizes hzN)
    (hwidth : 0 < (sizes / 8 + 1) / 2)
    (hfit : d.idx + (sizes / 8 + 1) / 2 ≤ rowBytes sizes hzN)
    (hint : (OsdChar.ascii b h).InInt sizes) :
    ∃ d', drawAscii ⟨some hzk, some ascii⟩ sizes hzN b d = .ok d' ∧
      Drawn sizes hzN hzk ascii [.ascii b h] d d' := by
  have hsz : asciiSz sizes / 8 = (sizes / 8 + 1) / 2 := Nat.mul_div_cancel _ (by decide)
  have hb : 1 ≤ b.toNat := by
    have hne : b.toNat ≠ 0 := fun hzero => h.1 (UInt8.toNat_inj.mp hzero)
    omega
  have hbig : b.toNat * sizes * asciiSz sizes < 2147483648 := hint
  have habove : b.toNat * sizes ≤ b.toNat * sizes * asciiSz sizes :=
    Nat.le_mul_of_pos_right _ (by omega)
  have harea' : sizes * asciiSz sizes ≤ b.toNat * sizes * asciiSz sizes := by
    rw [Nat.mul_assoc]
    exact Nat.le_mul_of_pos_left _ hb
  have hasInt : ∀ {n : ℕ}, n < 2147483648 → asInt n = .ok (n : ℤ) :=
    fun hn => asInt_eq (by omega) (by omega)
  have hoffset : ((b.toNat * sizes * asciiSz sizes : ℕ) : ℤ) / 8 =
      (b.toNat * (sizes * ((sizes / 8 + 1) / 2)) : ℕ) := by
    have hdvd : 8 ∣ sizes * asciiSz sizes :=
      Dvd.intro_left (sizes * ((sizes / 8 + 1) / 2)) (by rw [asciiSz, Nat.mul_assoc])
    rw [← ascii_area, ← Nat.mul_div_assoc _ hdvd, ← Nat.mul_assoc]
    rfl
  have hread : ((sizes * asciiSz sizes : ℕ) : ℤ) / 8 = (sizes * ((sizes / 8 + 1) / 2) : ℕ) := by
    rw [← ascii_area]
    rfl
  have hopen : openFont (some ascii) = .ok ascii := rfl
  obtain ⟨matasc, hfill, hrows, hcols, hmat⟩ :=
    d.matasc.fill_all ascii (b.toNat * (sizes * ((sizes / 8 + 1) / 2)))
  rw [hd.matasc.1, hd.matasc.2] at hfill hmat
  have hsized : Canvas.Sized sizes hzN { d with matasc := matasc } :=
    ⟨hd.mat, ⟨hrows.trans hd.matasc.1, hcols.trans hd.matasc.2⟩, hd.hzArr⟩
  obtain ⟨hzArr, hrun, hcopied⟩ := asciiRows hsized (by omega) (by rwa [hsz])
  rw [hsz] at hcopied
  refine ⟨{ d with matasc := matasc, hzArr := hzArr, idx := d.idx + asciiSz sizes / 8 }, ?_, ?_⟩
  · unfold drawAscii
    rw [← Nat.cast_mul, bind_of_ok (hasInt (by omega)), ← Nat.cast_mul,
      bind_of_ok (hasInt hbig), bind_of_ok hopen, ← Nat.cast_mul, bind_of_ok (hasInt (by omega)),
      hoffset, hread, seekTo, Int.toNat_natCast, Int.toNat_natCast, bind_of_ok hfill,
      bind_of_ok hrun]
  · refine Drawn.of_copied ⟨hd.mat, hsized.matasc, hcopied.rows.trans hd.hzArr.1,
      hcopied.cols.trans hd.hzArr.2⟩ (congrArg (d.idx + ·) hsz) hcopied ?_
    intro r hr i hi
    rw [hmat r hr i hi]
    rfl

include h8 hpos in
/-- **A character is drawn behind the ones before it.** -/
theorem drawChar_drawn (g : OsdChar) (hd : d.Sized sizes hzN)
    (hfit : d.idx + g.width sizes ≤ rowBytes sizes hzN) (hint : g.InInt sizes) :
    ∃ d', drawChar ⟨some hzk, some ascii⟩ sizes hzN g d = .ok d' ∧
      Drawn sizes hzN hzk ascii [g] d d' := by
  have hwidth : 0 < sizes / 8 := Nat.div_pos (Nat.le_of_dvd hpos h8) (by decide)
  cases g with
  | ascii b h => exact drawAscii_drawn hpos h hd (by omega) hfit hint
  | full hi lo h => exact drawHanzi_drawn h8 hpos h hd hfit hint

theorem asInt_error {x : ℤ} (h : 2147483648 ≤ x) : asInt x = .error .undefined :=
  if_neg (by omega)

/-- A place that does not fit the `int` is not computed. -/
theorem drawChar_undefined {g : OsdChar} (hint : ¬ g.InInt sizes) :
    drawChar fonts sizes hzN g d = .error .undefined := by
  cases g with
  | ascii b h =>
    have hbig : 2147483648 ≤ b.toNat * sizes * asciiSz sizes := not_lt.mp hint
    show drawAscii fonts sizes hzN b d = _
    unfold drawAscii
    rw [← Nat.cast_mul]
    rcases lt_or_ge (b.toNat * sizes) 2147483648 with habove | habove
    · rw [bind_of_ok (asInt_eq (by omega) (by omega)), ← Nat.cast_mul,
        bind_of_error (asInt_error (by omega))]
    · rw [bind_of_error (asInt_error (by omega))]
  | full hi lo h =>
    obtain ⟨n, hn⟩ : ∃ n, n = 94 * (hi.toNat - 0xa1) + (lo.toNat - 0xa1) := ⟨_, rfl⟩
    have hplace : 94 * (((hi - 0xa0).toNat : ℤ) - 1) + (((lo - 0xa0).toNat : ℤ) - 1) = n := by
      rw [toNat_sub_a0 h.1.1, toNat_sub_a0 h.2.1, hn]
      omega
    have hbig : ¬ (sizes * sizes < 2147483648 ∧ n * (sizes * sizes / 8) < 2147483648) := hn ▸ hint
    show drawHanzi fonts sizes hzN hi lo d = _
    unfold drawHanzi
    dsimp only
    rw [hplace, ← Nat.cast_mul]
    rcases lt_or_ge (sizes * sizes) 2147483648 with harea | harea
    · have hoffset : (n : ℤ) * ((sizes * sizes : ℕ) / 8) = (n * (sizes * sizes / 8) : ℕ) := by
        push_cast
        rfl
      rw [bind_of_ok (asInt_eq (by omega) (by omega)), hoffset,
        bind_of_error (asInt_error (by omega))]
    · rw [bind_of_error (asInt_error (by omega))]

/-! ## The text -/

theorem length_textRow (text : List OsdChar) (r : ℕ) :
    (textRow hzk ascii sizes text r).length = textWidth sizes text := by
  simp only [textRow, textWidth, List.length_flatMap, List.length_map, List.length_range]

theorem textRow_append (t u : List OsdChar) (r : ℕ) : textRow hzk ascii sizes (t ++ u) r =
    textRow hzk ascii sizes t r ++ textRow hzk ascii sizes u r := List.flatMap_append

theorem textWidth_append (t u : List OsdChar) :
    textWidth sizes (t ++ u) = textWidth sizes t + textWidth sizes u := by
  rw [textWidth, List.map_append, List.sum_append, textWidth, textWidth]

/-- One part of the text after the other. -/
theorem Drawn.trans {t u : List OsdChar} {d₁ d₂ : Canvas} (ht : Drawn sizes hzN hzk ascii t d d₁)
    (hu : Drawn sizes hzN hzk ascii u d₁ d₂) : Drawn sizes hzN hzk ascii (t ++ u) d d₂ := by
  have hlength : ∀ r, (textRow hzk ascii sizes t r).length = textWidth sizes t :=
    length_textRow t
  refine ⟨hu.sized, ?_, fun r hr c => ?_⟩
  · rw [hu.idx, ht.idx, textWidth_append, Nat.add_assoc]
  rw [hu.cell r hr, ht.cell r hr, ht.idx, textWidth_append, textRow_append]
  by_cases hc : d.idx ≤ c ∧ c < d.idx + textWidth sizes t
  · rw [if_neg (by omega), if_pos hc, if_pos ⟨hc.1, by omega⟩,
      List.getD_append _ _ _ _ (by rw [hlength]; omega)]
  · rw [if_neg hc]
    by_cases hlater : d.idx + textWidth sizes t ≤ c ∧
        c < d.idx + textWidth sizes t + textWidth sizes u
    · rw [if_pos hlater, if_pos ⟨by omega, by omega⟩,
        List.getD_append_right _ _ _ _ (by rw [hlength]; omega), hlength]
      congr 1
      omega
    · rw [if_neg hlater, if_neg (by omega)]

theorem full_bit {b : UInt8} (h : 0xa1 ≤ b) : b &&& 0x80 ≠ 0 := by
  revert h
  exact forall_byte (P := fun b => 0xa1 ≤ b → b &&& 0x80 ≠ 0) (by decide +kernel) b

theorem bind_ok_self {α : Type} (x : Except Stop α) : (x >>= Except.ok) = x := by
  cases x with
  | ok a => rfl
  | error e => rfl

/-- The loop goes on with the bytes of the next character. -/
theorem drawText_cons (g : OsdChar) (text : List OsdChar) (d : Canvas) :
    drawText fonts sizes hzN (textBytes (g :: text)) d =
      (drawChar fonts sizes hzN g d >>= drawText fonts sizes hzN (textBytes text)) := by
  cases g with
  | ascii b h =>
    have hbit : ¬ b &&& 0x80 ≠ 0 := not_not.mpr (ascii_bit h.2)
    show drawText fonts sizes hzN (b :: textBytes text) d = _
    cases htext : textBytes text with
    | nil =>
      rw [drawText, if_neg hbit]
      exact (bind_ok_self _).symm
    | cons b₁ rest =>
      rw [drawText, if_neg hbit]
      rfl
  | full hi lo h =>
    show drawText fonts sizes hzN (hi :: lo :: textBytes text) d = _
    rw [drawText, if_pos (full_bit h.1.1)]
    rfl

include h8 hpos in
/-- **The glyphs of the text stand side by side.** -/
theorem drawText_drawn (text : List OsdChar) (hd : d.Sized sizes hzN)
    (hfit : d.idx + textWidth sizes text ≤ rowBytes sizes hzN)
    (hint : ∀ g ∈ text, g.InInt sizes) :
    ∃ d', drawText ⟨some hzk, some ascii⟩ sizes hzN (textBytes text) d = .ok d' ∧
      Drawn sizes hzN hzk ascii text d d' := by
  induction text generalizing d with
  | nil =>
    refine ⟨d, rfl, hd, rfl, fun r _ c => ?_⟩
    rw [show textWidth sizes [] = 0 from rfl, if_neg (by omega)]
  | cons g text ih =>
    rw [show g :: text = [g] ++ text from rfl, textWidth_append, textWidth_singleton] at hfit
    obtain ⟨d₁, hchar, h₁⟩ : ∃ d₁, drawChar ⟨some hzk, some ascii⟩ sizes hzN g d = .ok d₁ ∧
      Drawn sizes hzN hzk ascii [g] d d₁ :=
        drawChar_drawn h8 hpos g hd (by omega) (hint g List.mem_cons_self)
    have hidx : d₁.idx = d.idx + g.width sizes := by rw [h₁.idx, textWidth_singleton]
    obtain ⟨d₂, hrest, h₂⟩ := ih h₁.sized (by omega) fun g hg => hint g (List.mem_cons_of_mem _ hg)
    refine ⟨d₂, ?_, h₁.trans h₂⟩
    rw [drawText_cons, bind_of_ok hchar, hrest]

include h8 hpos in
/-- A glyph whose place does not fit the `int` ends the run. -/
theorem drawText_undefined (text : List OsdChar) (hd : d.Sized sizes hzN)
    (hfit : d.idx + textWidth sizes text ≤ rowBytes sizes hzN)
    (hint : ¬ ∀ g ∈ text, g.InInt sizes) :
    drawText ⟨some hzk, some ascii⟩ sizes hzN (textBytes text) d = .error .undefined := by
  induction text generalizing d with
  | nil => exact absurd (List.forall_mem_nil _) hint
  | cons g text ih =>
    rw [drawText_cons]
    by_cases hg : g.InInt sizes
    · rw [show g :: text = [g] ++ text from rfl, textWidth_append, textWidth_singleton] at hfit
      obtain ⟨d₁, hchar, h₁⟩ : ∃ d₁, drawChar ⟨some hzk, some ascii⟩ sizes hzN g d = .ok d₁ ∧
        Drawn sizes hzN hzk ascii [g] d d₁ := drawChar_drawn h8 hpos g hd (by omega) hg
      have hidx : d₁.idx = d.idx + g.width sizes := by rw [h₁.idx, textWidth_singleton]
      rw [bind_of_ok hchar]
      exact ih h₁.sized (by omega) fun hall => hint (List.forall_mem_cons.mpr ⟨hg, hall⟩)
    · rw [bind_of_error (drawChar_undefined hg)]

end Valid

end Osd
