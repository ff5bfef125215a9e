/-
# The tiles of the OSD driver (`update_osd_with_hzk` in `osd.c`)

The rows of the array of pixels are cut into words of 12 bits, three bytes into two words, with a
branch of its own for each number of bytes that is left over.  Then the bits of each word change
their places for the driver.

`packTiles_eq`: every word has its twelve pixels.  `osd_draws_text_iff`: when the screen shows the
text.
-/
import Mathlib.Tactic.IntervalCases
import IpCamera.OsdText

namespace Osd

/-! ## The function -/

/-- `hzk`, the fonts of the driver: the words of the lines of each tile. -/
structure Tiles where
  rows : ℕ
  cols : ℕ
  fbitmap : ℕ → ℕ → ℕ → UInt16

/-- `hzk[r][c].fbitmap[l] = w` -/
def Tiles.store (hzk : Tiles) (r c l : ℕ) (w : UInt16) : Except Stop Tiles :=
  if r < hzk.rows ∧ c < hzk.cols ∧ l < 18 then
    .ok { hzk with
      fbitmap := fun r' c' l' => if r' = r ∧ c' = c ∧ l' = l then w else hzk.fbitmap r' c' l' }
  else .error .undefined

/-- One round of the loop that takes three bytes of row `i`, from `j` on. -/
def packThree (sizes hzN : ℕ) (hzArr : Grid) (i t : ℕ) (hzk : Tiles) : Except Stop Tiles :=
  let w := rowBytes sizes hzN
  let j := 3 * t
  if w % 3 = 1 ∧ j = w - 1 then do
    let b₀ ← hzArr.read i j
    hzk.store (i / 18) (j * 8 / 12) (i % 18) (b₀.toUInt16 <<< 4)
  else if w % 3 = 2 ∧ j = w - 2 then do
    let b₀ ← hzArr.read i j
    let b₁ ← hzArr.read i (j + 1)
    let hzk ← hzk.store (i / 18) (j * 8 / 12) (i % 18)
      ((b₀.toUInt16 <<< 4) ||| ((b₁ &&& 0xf0) >>> 4).toUInt16)
    hzk.store (i / 18) (j * 8 / 12 + 1) (i % 18) ((b₁ &&& 0xf).toUInt16 <<< 8)
  else do
    let b₀ ← hzArr.read i j
    let b₁ ← hzArr.read i (j + 1)
    let b₂ ← hzArr.read i (j + 2)
    let hzk ← hzk.store (i / 18) (j * 8 / 12) (i % 18)
      ((b₀.toUInt16 <<< 4) ||| ((b₁ &&& 0xf0) >>> 4).toUInt16)
    hzk.store (i / 18) (j * 8 / 12 + 1) (i % 18) (((b₁ &&& 0xf).toUInt16 <<< 8) ||| b₂.toUInt16)

/-- The loops over the rows and over the bytes of a row. -/
def packTiles (sizes hzN : ℕ) (hzArr : Grid) : Tiles → Except Stop Tiles :=
  forUpTo (fun i => forUpTo (packThree sizes hzN hzArr i) ((sizes * hzN / 8 + 2) / 3)) sizes

/-- `gm_osd_font_update_t` -/
structure FontUpdate where
  fontIdx : ℤ
  bitmap : List UInt16

/-- The word as the driver takes it. -/
def driverWord (f : UInt16) : UInt16 := (f >>> 4) ||| ((f &&& 0xf) <<< 12)

/-- What `gm_update_new_font` gets, call by call. -/
def fontUpdates (fontIdx : ℤ) (vWords hWords : ℕ) (hzk : Tiles) : List FontUpdate :=
  (List.range vWords).flatMap fun i => (List.range hWords).map fun j =>
    { fontIdx := fontIdx + (i * hWords + j : ℕ)
      bitmap := (List.range 18).map fun k => driverWord (hzk.fbitmap i j k) }

/-- `gm_osd_font2_t`, as far as it differs from call to call. -/
structure OsdFont where
  enabled : ℤ
  winIdx : ℤ
  x : ℤ
  y : ℤ
  hWords : ℕ
  vWords : ℕ
  fontIndexLen : ℕ
  fontIndex : List UInt16
  winAlpha100 : Bool
  fontPaletteIdx : ℕ

/-- `font_index[i] = (unsigned short)(font_idx + i)` -/
def setFontIndex (fontIdx : ℤ) (i : ℕ) (fontIndex : List UInt16) : Except Stop (List UInt16) :=
  if i < fontIndex.length then .ok (fontIndex.set i (UInt16.ofInt (fontIdx + i)))
  else .error .undefined

/-- What the driver gets. -/
structure Shown where
  updates : List FontUpdate
  osdFont : OsdFont

/-- `"Rec "` -/
def recText : List UInt8 := [0x52, 0x65, 0x63, 0x20]

/-- `update_osd_with_hzk`.  The largest of the arrays is `hzk` with 40 bytes for a tile; where no
memory can hold it there is no run. -/
def updateOsdWithHzk (fonts : Fonts) (remains : Remains) (sizes : ℕ) (winIdx fontIdx : ℤ)
    (hzN : ℕ) (enable : ℤ) (incode : List UInt8) (x y : ℤ) : Except Stop Shown :=
  if 2147483648 ≤ 40 * (fontV sizes * fontH sizes hzN) then .error .undefined
  else do
    let d ← drawText fonts sizes hzN incode
      { mat := ⟨sizes, sizes / 8, remains.mat⟩
        matasc := ⟨sizes, (sizes / 8 + 1) / 2, remains.matasc⟩
        hzArr := ⟨sizes, rowBytes sizes hzN, remains.hzArr⟩
        idx := 0
        beNewline := false }
    let hzk ← packTiles sizes hzN d.hzArr ⟨fontV sizes, fontH sizes hzN, fun _ _ _ => 0⟩
    let words := fontV sizes * fontH sizes hzN
    let fontIndex ← forUpTo (setFontIndex fontIdx) words
      ((List.range words).map remains.fontIndex)
    .ok
      { updates := fontUpdates fontIdx (fontV sizes) (fontH sizes hzN) hzk
        osdFont :=
          { enabled := enable
            winIdx := winIdx
            x := x
            y := y
            hWords := fontH sizes hzN
            vWords := fontV sizes
            fontIndexLen := words * 2
            fontIndex := fontIndex
            winAlpha100 := incode ≠ recText
            fontPaletteIdx := if incode = recText then 2 else 1 } }

/-! ## Words of twelve pixels -/

/-- The twelve pixels of a word of a row. -/
def tileWord (f : ℕ → UInt8) (q : ℕ) : UInt16 :=
  if q % 2 = 0 then
    ((f (3 * (q / 2))).toUInt16 <<< 4) ||| ((f (3 * (q / 2) + 1) &&& 0xf0) >>> 4).toUInt16
  else ((f (3 * (q / 2) + 1) &&& 0xf).toUInt16 <<< 8) ||| (f (3 * (q / 2) + 2)).toUInt16

/-- The pixels of a row of bytes, the highest bit of a byte first. -/
def rowPixel (f : ℕ → UInt8) (c : ℕ) : Bool := (f (c / 8)).toBitVec.getLsbD (7 - c % 8)

/-- Where the driver looks for a pixel of a line. -/
def linePixel (w : UInt16) (p : ℕ) : Bool := w.toBitVec.getLsbD (if p < 8 then 7 - p else 23 - p)

theorem linePixel_even (b₀ b₁ : UInt8) {p : ℕ} (hp : p < 12) :
    linePixel (driverWord ((b₀.toUInt16 <<< 4) ||| ((b₁ &&& 0xf0) >>> 4).toUInt16)) p =
      if p < 8 then b₀.toBitVec.getLsbD (7 - p) else b₁.toBitVec.getLsbD (15 - p) := by
  unfold linePixel driverWord
  interval_cases p <;> simp

theorem linePixel_odd (b₁ b₂ : UInt8) {p : ℕ} (hp : p < 12) :
    linePixel (driverWord (((b₁ &&& 0xf).toUInt16 <<< 8) ||| b₂.toUInt16)) p =
      if p < 4 then b₁.toBitVec.getLsbD (3 - p) else b₂.toBitVec.getLsbD (11 - p) := by
  unfold linePixel driverWord
  interval_cases p <;> simp

/-- **The driver shows the pixels of the row.** -/
theorem linePixel_tileWord (f : ℕ → UInt8) (q : ℕ) {p : ℕ} (hp : p < 12) :
    linePixel (driverWord (tileWord f q)) p = rowPixel f (12 * q + p) := by
  unfold tileWord rowPixel
  by_cases hq : q % 2 = 0
  · rw [if_pos hq, linePixel_even _ _ hp]
    by_cases hp8 : p < 8
    · rw [if_pos hp8, show (12 * q + p) / 8 = 3 * (q / 2) by omega,
        show 7 - (12 * q + p) % 8 = 7 - p by omega]
    · rw [if_neg hp8, show (12 * q + p) / 8 = 3 * (q / 2) + 1 by omega,
        show 7 - (12 * q + p) % 8 = 15 - p by omega]
  · rw [if_neg hq, linePixel_odd _ _ hp]
    by_cases hp4 : p < 4
    · rw [if_pos hp4, show (12 * q + p) / 8 = 3 * (q / 2) + 1 by omega,
        show 7 - (12 * q + p) % 8 = 3 - p by omega]
    · rw [if_neg hp4, show (12 * q + p) / 8 = 3 * (q / 2) + 2 by omega,
        show 7 - (12 * q + p) % 8 = 11 - p by omega]

/-! ## The loops over the rows -/

/-- A row of bytes, with zeros behind its end. -/
def rowOf (hzArr : Grid) (r c : ℕ) : UInt8 := if c < hzArr.cols then hzArr.cell r c else 0

/-- The rows before `i` are cut up, and of row `i` the words before `q`. -/
structure Packed (sizes hzN : ℕ) (hzArr : Grid) (i q : ℕ) (hzk : Tiles) : Prop where
  rows : hzk.rows = fontV sizes
  cols : hzk.cols = fontH sizes hzN
  word : ∀ r c l, l < 18 → hzk.fbitmap r c l =
    if c < fontH sizes hzN ∧ (18 * r + l < i ∨ 18 * r + l = i ∧ c < q)
      then tileWord (rowOf hzArr (18 * r + l)) c else 0

variable {sizes hzN : ℕ} {hzArr : Grid} {i q : ℕ} {hzk : Tiles}

/-- One more word of a row. -/
theorem Packed.store (h : Packed sizes hzN hzArr i q hzk) (hi : i < sizes)
    (hq : q < fontH sizes hzN) {w : UInt16} (hw : w = tileWord (rowOf hzArr i) q) :
    ∃ hzk', hzk.store (i / 18) q (i % 18) w = .ok hzk' ∧
      Packed sizes hzN hzArr i (q + 1) hzk' := by
  have hrow : i / 18 < hzk.rows := by
    rw [h.rows, fontV]
    split
    · omega
    · omega
  refine ⟨_, if_pos ⟨hrow, by rwa [h.cols], Nat.mod_lt _ (by decide)⟩, h.rows, h.cols, ?_⟩
  intro r c l hl
  show (if r = i / 18 ∧ c = q ∧ l = i % 18 then w else hzk.fbitmap r c l) = _
  by_cases hthis : r = i / 18 ∧ c = q ∧ l = i % 18
  · have hline : 18 * r + l = i := by omega
    rw [if_pos hthis, if_pos ⟨by omega, Or.inr ⟨hline, by omega⟩⟩, hline, hthis.2.1, hw]
  · rw [if_neg hthis, h.word r c l hl]
    exact if_congr (by omega) rfl rfl

/-- The last word of the row is done, and the next row begins. -/
theorem Packed.next (h : Packed sizes hzN hzArr i q hzk) (hq : fontH sizes hzN ≤ q) :
    Packed sizes hzN hzArr (i + 1) 0 hzk := by
  refine ⟨h.rows, h.cols, fun r c l hl => ?_⟩
  rw [h.word r c l hl]
  exact if_congr (by omega) rfl rfl

/-- A row has two words for three bytes, and one or two for the rest. -/
theorem fontH_eq (h8 : 8 ∣ sizes) : fontH sizes hzN = (2 * rowBytes sizes hzN + 2) / 3 := by
  obtain ⟨k, rfl⟩ := h8
  have hbytes : 8 * k * hzN = 8 * rowBytes (8 * k) hzN := by
    rw [rowBytes, Nat.mul_div_cancel_left _ (by decide), Nat.mul_assoc]
  rw [fontH, hbytes]
  split
  · omega
  · omega

/-- Behind the last word nothing is left to do. -/
theorem Packed.mono (h : Packed sizes hzN hzArr i q hzk) (hq : fontH sizes hzN ≤ q) {m : ℕ}
    (hm : q ≤ m) : Packed sizes hzN hzArr i m hzk := by
  refine ⟨h.rows, h.cols, fun r c l hl => ?_⟩
  rw [h.word r c l hl]
  exact if_congr (by omega) rfl rfl

theorem tileWord_even (f : ℕ → UInt8) (t : ℕ) : tileWord f (2 * t) =
    ((f (3 * t)).toUInt16 <<< 4) ||| ((f (3 * t + 1) &&& 0xf0) >>> 4).toUInt16 := by
  rw [tileWord, if_pos (by omega), Nat.mul_div_cancel_left _ (by decide)]

theorem tileWord_odd (f : ℕ → UInt8) (t : ℕ) : tileWord f (2 * t + 1) =
    ((f (3 * t + 1) &&& 0xf).toUInt16 <<< 8) ||| (f (3 * t + 2)).toUInt16 := by
  rw [tileWord, if_neg (by omega), show (2 * t + 1) / 2 = t by omega]

theorem read_rowOf (hi : i < hzArr.rows) {j : ℕ} (hj : j < hzArr.cols) :
    hzArr.read i j = .ok (rowOf hzArr i j) := by
  rw [Grid.read_eq hi hj, rowOf, if_pos hj]

theorem rowOf_end {j : ℕ} (hj : hzArr.cols ≤ j) : rowOf hzArr i j = 0 := if_neg (by omega)

/-- **One round takes three bytes, or what is left of them.** -/
theorem packThree_packed (h8 : 8 ∣ sizes) {t : ℕ} (hrows : hzArr.rows = sizes)
    (hcols : hzArr.cols = rowBytes sizes hzN) (hi : i < sizes) (ht : 3 * t < rowBytes sizes hzN)
    (h : Packed sizes hzN hzArr i (2 * t) hzk) :
    ∃ hzk', packThree sizes hzN hzArr i t hzk = .ok hzk' ∧
      Packed sizes hzN hzArr i (2 * (t + 1)) hzk' := by
  have hH : fontH sizes hzN = (2 * rowBytes sizes hzN + 2) / 3 := fontH_eq h8
  have hread : ∀ {j}, j < rowBytes sizes hzN → hzArr.read i j = .ok (rowOf hzArr i j) :=
    fun hj => read_rowOf (by omega) (by omega)
  unfold packThree
  dsimp only
  rw [show 3 * t * 8 / 12 = 2 * t by omega]
  by_cases hone : rowBytes sizes hzN % 3 = 1 ∧ 3 * t = rowBytes sizes hzN - 1
  · -- one byte is left, and one word
    have hword : (rowOf hzArr i (3 * t)).toUInt16 <<< 4 = tileWord (rowOf hzArr i) (2 * t) := by
      rw [tileWord_even, rowOf_end (show hzArr.cols ≤ 3 * t + 1 by omega)]
      simp
    obtain ⟨hzk', hstore, h'⟩ := h.store hi (by omega) hword
    rw [if_pos hone, bind_of_ok (hread ht), hstore]
    exact ⟨hzk', rfl, h'.mono (by omega) (by omega)⟩
  · obtain ⟨hzk₁, hstore₁, h₁⟩ := h.store hi (by omega) (tileWord_even _ t).symm
    rw [if_neg hone]
    by_cases htwo : rowBytes sizes hzN % 3 = 2 ∧ 3 * t = rowBytes sizes hzN - 2
    · -- two bytes are left; the second word ends with zeros
      have hword : (rowOf hzArr i (3 * t + 1) &&& 0xf).toUInt16 <<< 8
          = tileWord (rowOf hzArr i) (2 * t + 1) := by
        rw [tileWord_odd, rowOf_end (show hzArr.cols ≤ 3 * t + 2 by omega)]
        simp
      obtain ⟨hzk₂, hstore₂, h₂⟩ := h₁.store hi (by omega) hword
      rw [if_pos htwo, bind_of_ok (hread ht), bind_of_ok (hread (by omega)), bind_of_ok hstore₁,
        hstore₂]
      exact ⟨hzk₂, rfl, h₂⟩
    · obtain ⟨hzk₂, hstore₂, h₂⟩ := h₁.store hi (by omega) (tileWord_odd _ t).symm
      rw [if_neg htwo, bind_of_ok (hread ht), bind_of_ok (hread (by omega)),
        bind_of_ok (hread (by omega)), bind_of_ok hstore₁, hstore₂]
      exact ⟨hzk₂, rfl, h₂⟩

/-- **All rows.** -/
theorem packTiles_packed (h8 : 8 ∣ sizes) (hrows : hzArr.rows = sizes)
    (hcols : hzArr.cols = rowBytes sizes hzN) :
    ∃ hzk, packTiles sizes hzN hzArr ⟨fontV sizes, fontH sizes hzN, fun _ _ _ => 0⟩ = .ok hzk ∧
      Packed sizes hzN hzArr sizes 0 hzk := by
  have hH : fontH sizes hzN = (2 * rowBytes sizes hzN + 2) / 3 := fontH_eq h8
  have hbytes : sizes * hzN / 8 = rowBytes sizes hzN := by
    rw [rowBytes, Nat.mul_comm, Nat.mul_div_assoc _ h8, Nat.mul_comm]
  have hstart : Packed sizes hzN hzArr 0 0 ⟨fontV sizes, fontH sizes hzN, fun _ _ _ => 0⟩ :=
    ⟨rfl, rfl, fun r c l _ => (if_neg (by omega)).symm⟩
  refine forUpTo_inv (fun i => Packed sizes hzN hzArr i 0) hstart fun i hi hzk h => ?_
  have hround : ∀ t < (sizes * hzN / 8 + 2) / 3, ∀ hzk,
      Packed sizes hzN hzArr i (2 * t) hzk →
        ∃ hzk', packThree sizes hzN hzArr i t hzk = .ok hzk' ∧
          Packed sizes hzN hzArr i (2 * (t + 1)) hzk' :=
    fun t ht hzk => packThree_packed h8 hrows hcols hi (by omega)
  obtain ⟨hzk', hrun, h'⟩ := forUpTo_inv (fun t => Packed sizes hzN hzArr i (2 * t)) h hround
  exact ⟨hzk', hrun, h'.next (by omega)⟩

/-! ## What is asked -/

/-- A pixel of the glyphs of a text, side by side; to the right of the last one there is nothing. -/
def textPixel (hzk ascii : ℕ → UInt8) (sizes : ℕ) (text : List OsdChar) (r : ℕ) : ℕ → Bool :=
  rowPixel fun b => (textRow hzk ascii sizes text r).getD b 0

/-- A run stays inside the arrays, and every pixel of its tiles is that of the text. -/
def DrawsText (hzk ascii : ℕ → UInt8) (sizes hzN : ℕ) (fontIdx : ℤ) (text : List OsdChar)
    (run : Except Stop Shown) : Prop :=
  ∃ shown, run = .ok shown ∧ ∀ r < sizes, ∀ c < hzN * sizes,
    ∃ u, shown.updates[r / 18 * fontH sizes hzN + c / 12]? = some u ∧
      u.fontIdx = fontIdx + (r / 18 * fontH sizes hzN + c / 12 : ℕ) ∧
      linePixel (u.bitmap.getD (r % 18) 0) (c % 12) = textPixel hzk ascii sizes text r c

/-- The arrays fit into memory, the places of the glyphs into the `int`, and to the right of the
text the array of pixels is empty when the function is called. -/
structure Drawable (remains : Remains) (sizes hzN : ℕ) (text : List OsdChar) : Prop where
  arrays : 40 * (fontV sizes * fontH sizes hzN) < 2147483648
  places : ∀ g ∈ text, g.InInt sizes
  blank : ∀ r < sizes, ∀ b, textWidth sizes text ≤ b → b < rowBytes sizes hzN →
    remains.hzArr r b = 0

/-! ## The run -/

/-- The calls go through the tiles row by row. -/
theorem getElem?_flatMap_range {α : Type} (f : ℕ → ℕ → α) {v h i j : ℕ} (hi : i < v) (hj : j < h) :
    ((List.range v).flatMap fun i => (List.range h).map (f i))[i * h + j]? = some (f i j) := by
  have hlength : ∀ v,
      ((List.range v).flatMap fun i => (List.range h).map (f i)).length = v * h := by
    intro v
    simp only [List.length_flatMap, List.length_map, List.length_range, List.map_const',
      List.sum_replicate_nat]
  induction v with
  | zero => omega
  | succ v ih =>
    rw [List.range_succ, List.flatMap_append, List.flatMap_singleton]
    by_cases hlast : i = v
    · rw [List.getElem?_append_right (by rw [hlength, hlast]; omega), hlength, hlast,
        Nat.add_sub_cancel_left, List.getElem?_map, List.getElem?_range hj]
      rfl
    · have hplace : i * h + j < v * h := by
        calc i * h + j < (i + 1) * h := by rw [Nat.succ_mul]; omega
          _ ≤ v * h := Nat.mul_le_mul_right _ (by omega)
      rw [List.getElem?_append_left (by rw [hlength]; exact hplace)]
      exact ih (by omega)

/-- The entries of `font_index` are set inside their array. -/
theorem setFontIndex_run (fontIdx : ℤ) (fontIndex : List UInt16) :
    ∃ l, forUpTo (setFontIndex fontIdx) fontIndex.length fontIndex = .ok l := by
  have hround : ∀ i < fontIndex.length, ∀ l : List UInt16, l.length = fontIndex.length →
      ∃ l', setFontIndex fontIdx i l = .ok l' ∧ l'.length = fontIndex.length :=
    fun i hi l hl => ⟨_, if_pos (by omega), by rw [List.length_set, hl]⟩
  obtain ⟨l, hrun, -⟩ := forUpTo_inv (fun _ (l : List UInt16) => l.length = fontIndex.length)
    rfl hround
  exact ⟨l, hrun⟩

section Run

variable (hzk ascii : ℕ → UInt8) (remains : Remains) (winIdx fontIdx enable x y : ℤ)
variable (text : List OsdChar)

/-- Where the driver shows a pixel, it is that of the array after the text is drawn. -/
theorem pixel_of_packed {d : Canvas} {t : Tiles} (h8 : 8 ∣ sizes)
    (hcols : d.hzArr.cols = rowBytes sizes hzN) (ht : Packed sizes hzN d.hzArr sizes 0 t)
    {r c : ℕ} (hr : r < sizes) (hc : c < hzN * sizes) :
    ∃ u, (fontUpdates fontIdx (fontV sizes) (fontH sizes hzN) t)[r / 18 * fontH sizes hzN
        + c / 12]? = some u ∧ u.fontIdx = fontIdx + (r / 18 * fontH sizes hzN + c / 12 : ℕ) ∧
      linePixel (u.bitmap.getD (r % 18) 0) (c % 12) = rowPixel (d.hzArr.cell r) c := by
  have hwidth : hzN * sizes = 8 * rowBytes sizes hzN := by
    rw [rowBytes, ← Nat.mul_assoc, Nat.mul_div_cancel' h8, Nat.mul_comm]
  have hH : fontH sizes hzN = (2 * rowBytes sizes hzN + 2) / 3 := fontH_eq h8
  have hrow : r / 18 < fontV sizes := by
    rw [fontV]
    split
    · omega
    · omega
  have hcol : c / 12 < fontH sizes hzN := by omega
  refine ⟨_, getElem?_flatMap_range _ hrow hcol, rfl, ?_⟩
  have hline : 18 * (r / 18) + r % 18 = r := Nat.div_add_mod r 18
  rw [List.getD_eq_getElem?_getD, List.getElem?_map,
    List.getElem?_range (Nat.mod_lt _ (by decide)), Option.map_some, Option.getD_some,
    ht.word _ _ _ (Nat.mod_lt _ (by decide)), hline, if_pos ⟨hcol, Or.inl hr⟩,
    linePixel_tileWord _ _ (Nat.mod_lt _ (by decide)), Nat.div_add_mod, rowPixel, rowPixel, rowOf,
    if_pos (by omega)]

variable (sizes hzN)

/-- **What the screen shows**: the text, and to its right what was in the array before. -/
theorem update_shows (h8 : 8 ∣ sizes) (hpos : 0 < sizes)
    (hfit : textWidth sizes text ≤ rowBytes sizes hzN)
    (harrays : 40 * (fontV sizes * fontH sizes hzN) < 2147483648)
    (hplaces : ∀ g ∈ text, g.InInt sizes) :
    ∃ shown, updateOsdWithHzk ⟨some hzk, some ascii⟩ remains sizes winIdx fontIdx hzN enable
        (textBytes text) x y = .ok shown ∧
      ∀ r < sizes, ∀ c < hzN * sizes,
        ∃ u, shown.updates[r / 18 * fontH sizes hzN + c / 12]? = some u ∧
          u.fontIdx = fontIdx + (r / 18 * fontH sizes hzN + c / 12 : ℕ) ∧
          linePixel (u.bitmap.getD (r % 18) 0) (c % 12) = rowPixel (fun b =>
            if b < textWidth sizes text then (textRow hzk ascii sizes text r).getD b 0
            else remains.hzArr r b) c := by
  obtain ⟨d, hd⟩ : ∃ d : Canvas, d = ⟨⟨sizes, sizes / 8, remains.mat⟩,
    ⟨sizes, (sizes / 8 + 1) / 2, remains.matasc⟩, ⟨sizes, rowBytes sizes hzN, remains.hzArr⟩, 0,
      false⟩ := ⟨_, rfl⟩
  have hsized : d.Sized sizes hzN := by
    rw [hd]
    exact ⟨⟨rfl, rfl⟩, ⟨rfl, rfl⟩, ⟨rfl, rfl⟩⟩
  have hidx : d.idx = 0 := by rw [hd]
  obtain ⟨d', htext, hdrawn⟩ : ∃ d', drawText ⟨some hzk, some ascii⟩ sizes hzN (textBytes text) d
      = .ok d' ∧ Drawn sizes hzN hzk ascii text d d' :=
    drawText_drawn h8 hpos text hsized (by omega) hplaces
  obtain ⟨t, hpack, hpacked⟩ := packTiles_packed h8 hdrawn.sized.hzArr.1 hdrawn.sized.hzArr.2
  obtain ⟨l, hindex⟩ := setFontIndex_run fontIdx
    ((List.range (fontV sizes * fontH sizes hzN)).map remains.fontIndex)
  rw [List.length_map, List.length_range] at hindex
  have hrun : ∃ font, updateOsdWithHzk ⟨some hzk, some ascii⟩ remains sizes winIdx fontIdx hzN
      enable (textBytes text) x y =
        .ok ⟨fontUpdates fontIdx (fontV sizes) (fontH sizes hzN) t, font⟩ := by
    unfold updateOsdWithHzk
    rw [if_neg (by omega), ← hd, bind_of_ok htext, bind_of_ok hpack]
    exact ⟨_, bind_of_ok hindex _⟩
  obtain ⟨font, hrun⟩ := hrun
  refine ⟨_, hrun, fun r hr c hc => ?_⟩
  obtain ⟨u, hu, hfont, hpixel⟩ := pixel_of_packed fontIdx h8 hdrawn.sized.hzArr.2 hpacked hr hc
  refine ⟨u, hu, hfont, hpixel.trans ?_⟩
  rw [rowPixel, rowPixel, hdrawn.cell r hr, hidx, hd]
  simp only [Nat.zero_le, true_and, Nat.zero_add, Nat.sub_zero]

/-- Otherwise the run is undefined. -/
theorem update_undefined (h8 : 8 ∣ sizes) (hpos : 0 < sizes)
    (hfit : textWidth sizes text ≤ rowBytes sizes hzN)
    (h : ¬ (40 * (fontV sizes * fontH sizes hzN) < 2147483648 ∧ ∀ g ∈ text, g.InInt sizes)) :
    updateOsdWithHzk ⟨some hzk, some ascii⟩ remains sizes winIdx fontIdx hzN enable
      (textBytes text) x y = .error .undefined := by
  unfold updateOsdWithHzk
  by_cases harrays : 40 * (fontV sizes * fontH sizes hzN) < 2147483648
  · rw [if_neg (by omega)]
    refine bind_of_error (drawText_undefined h8 hpos text ⟨⟨rfl, rfl⟩, ⟨rfl, rfl⟩, rfl, rfl⟩ ?_
      fun hall => h ⟨harrays, hall⟩) _
    rwa [Nat.zero_add]
  · rw [if_pos (by omega)]

end Run

/-- A byte without pixels is zero. -/
theorem eq_zero_of_pixels {f : ℕ → UInt8} {b : ℕ}
    (h : ∀ c, 8 * b ≤ c → c < 8 * b + 8 → rowPixel f c = false) : f b = 0 := by
  rw [← UInt8.toBitVec_inj]
  refine BitVec.eq_of_getLsbD_eq fun i hi => ?_
  have hpixel := h (8 * b + (7 - i)) (by omega) (by omega)
  rw [rowPixel, show (8 * b + (7 - i)) / 8 = b by omega,
    show 7 - (8 * b + (7 - i)) % 8 = i by omega] at hpixel
  rw [hpixel]
  exact BitVec.getLsbD_zero.symm

end Osd

open Osd

/-- **When the screen shows the text**: the arrays fit into memory, the places of the glyphs into
the `int`, and the array of pixels was empty to the right of the text. -/
theorem osd_draws_text_iff (hzk ascii : ℕ → UInt8) (remains : Remains) (sizes hzN : ℕ)
    (winIdx fontIdx enable x y : ℤ) (text : List OsdChar) (h8 : 8 ∣ sizes) (hpos : 0 < sizes)
    (hfit : 8 * textWidth sizes text ≤ hzN * sizes) :
    DrawsText hzk ascii sizes hzN fontIdx text (updateOsdWithHzk ⟨some hzk, some ascii⟩ remains
        sizes winIdx fontIdx hzN enable (textBytes text) x y) ↔
      Drawable remains sizes hzN text := by
  have hwidth : hzN * sizes = 8 * rowBytes sizes hzN := by
    rw [rowBytes, ← Nat.mul_assoc, Nat.mul_div_cancel' h8, Nat.mul_comm]
  have hbytes : textWidth sizes text ≤ rowBytes sizes hzN := by omega
  constructor
  · rintro ⟨shown, hrun, hpixels⟩
    have hfits : 40 * (fontV sizes * fontH sizes hzN) < 2147483648 ∧ ∀ g ∈ text, g.InInt sizes := by
      by_contra h
      have hnone := update_undefined sizes hzN hzk ascii remains winIdx fontIdx enable x y text h8
        hpos hbytes h
      cases hnone.symm.trans hrun
    obtain ⟨shown', hrun', hshows⟩ := update_shows sizes hzN hzk ascii remains winIdx fontIdx
      enable x y text h8 hpos hbytes hfits.1 hfits.2
    obtain rfl : shown' = shown := Except.ok.inj (hrun'.symm.trans hrun)
    refine ⟨hfits.1, hfits.2, fun r hr b hb hrow => ?_⟩
    -- the pixels of the byte are those of the empty place to the right of the text
    refine eq_zero_of_pixels (f := remains.hzArr r) fun c hlow hhigh => ?_
    obtain ⟨u, hu, -, hpixel⟩ := hpixels r hr c (by omega)
    obtain ⟨u', hu', -, hpixel'⟩ := hshows r hr c (by omega)
    obtain rfl : u = u' := Option.some_inj.mp (hu.symm.trans hu')
    rw [hpixel] at hpixel'
    have hempty : (textRow hzk ascii sizes text r).getD (c / 8) 0 = 0 :=
      List.getD_eq_default _ _ (by rw [length_textRow]; omega)
    rw [textPixel, rowPixel, rowPixel, hempty, if_neg (by omega)] at hpixel'
    rw [rowPixel, ← hpixel']
    exact BitVec.getLsbD_zero
  · intro h
    obtain ⟨shown, hrun, hshows⟩ := update_shows sizes hzN hzk ascii remains winIdx fontIdx
      enable x y text h8 hpos hbytes h.arrays h.places
    refine ⟨shown, hrun, fun r hr c hc => ?_⟩
    obtain ⟨u, hu, hfont, hpixel⟩ := hshows r hr c hc
    refine ⟨u, hu, hfont, hpixel.trans ?_⟩
    rw [textPixel, rowPixel, rowPixel]
    split
    · rfl
    · rw [h.blank r hr (c / 8) (by omega) (by omega),
        List.getD_eq_default _ _ (by rw [length_textRow]; omega)]

/-- An `A` and a full character, in an array that was empty. -/
theorem osd_draws_two_chars :
    DrawsText (fun _ => 0x3c) (fun _ => 0x18) 16 2 100
      [.ascii 0x41 (by decide), .full 0xb0 0xa1 (by decide)]
      (updateOsdWithHzk ⟨some fun _ => 0x3c, some fun _ => 0x18⟩
        ⟨fun _ _ => 0xff, fun _ _ => 0xff, fun _ _ => 0, fun _ => 0⟩ 16 1 100 2 1
        (textBytes [.ascii 0x41 (by decide), .full 0xb0 0xa1 (by decide)]) 0 0) := by
  refine (osd_draws_text_iff _ _ _ 16 2 1 100 1 0 0 _ (by decide) (by decide) (by decide)).mpr
    ⟨by decide, ?_, fun _ _ _ _ _ => rfl⟩
  refine List.forall_mem_cons.mpr ⟨?_, List.forall_mem_singleton.mpr ?_⟩
  · show 0x41 * 16 * 8 < 2147483648
    decide
  · exact ⟨by decide, by decide⟩

/-- One `A`, whose glyph is empty, in an array of two full characters with remains in it. -/
theorem osd_shows_remains :
    ¬ DrawsText (fun _ => 0) (fun _ => 0) 16 2 100 [.ascii 0x41 (by decide)]
      (updateOsdWithHzk ⟨some fun _ => 0, some fun _ => 0⟩
        ⟨fun _ _ => 0, fun _ _ => 0, fun _ _ => 0xff, fun _ => 0⟩ 16 1 100 2 1
        (textBytes [.ascii 0x41 (by decide)]) 0 0) := by
  rintro ⟨shown, hrun, hpixels⟩
  have hplaces : ∀ g ∈ [OsdChar.ascii 0x41 (by decide)], g.InInt 16 := by
    refine List.forall_mem_singleton.mpr ?_
    show 0x41 * 16 * 8 < 2147483648
    decide
  obtain ⟨shown', hrun', hshows⟩ := update_shows 16 2 (fun _ => 0) (fun _ => 0)
    ⟨fun _ _ => 0, fun _ _ => 0, fun _ _ => 0xff, fun _ => 0⟩ 1 100 1 0 0
    [OsdChar.ascii 0x41 (by decide)] (by decide) (by decide) (by decide)
    (by decide) hplaces
  obtain rfl : shown' = shown := Except.ok.inj (hrun'.symm.trans hrun)
  obtain ⟨u, hu, -, hpixel⟩ := hpixels 0 (by decide) 8 (by decide)
  obtain ⟨u', hu', -, hpixel'⟩ := hshows 0 (by decide) 8 (by decide)
  obtain rfl : u = u' := Option.some_inj.mp (hu.symm.trans hu')
  rw [hpixel] at hpixel'
  revert hpixel'
  decide
