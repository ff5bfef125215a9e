/-
# GB2312 and UTF-8 (`gb2312.c`)

`GB2312ToUTF_8` goes over a text in GB2312, copies the ASCII characters and writes three
bytes for each of the others; `UTF_8ToGB2312` takes three bytes for each character that
is not ASCII.  In UTF-8 characters below `U+0800` have two bytes, so both are right
exactly for texts without these: `gb2312_utf8_iff`.

The two tables are not spelled out; what is used of them is that the second one lists
the places that are filled in the first one, by increasing code point.
-/
import Mathlib.Data.List.GetD
import IpCamera.Bisection
import IpCamera.RiffChunks

/-- `ERROR`, the entry of an empty place. -/
def gbError : ℕ := 0xFFFF

/-- `gb2312_forward` and `gb2312_backward`. -/
structure Gb2312Tables where
  forward : ℕ → ℕ → ℕ
  backward : List (ℕ × ℕ)
  mem_backward : ∀ r c, (r, c) ∈ backward ↔ r < 94 ∧ c < 94 ∧ forward r c ≠ gbError
  sorted : backward.Pairwise fun p q => forward p.1 p.2 < forward q.1 q.2
  /-- What stands in the table are code points, none of them of ASCII, in 16 bits. -/
  scalar : ∀ r c, r < 94 → c < 94 → forward r c ≠ gbError →
    0x80 ≤ forward r c ∧ forward r c < 0x10000 ∧ (forward r c).isValidChar

/-! ## The functions -/

namespace Gb2312Tables

/-- `gb2312_to_unicode` -/
def gb2312ToUnicode (T : Gb2312Tables) (r c : UInt8) : ℤ :=
  if 94 ≤ r then -1 else if 94 ≤ c then -1 else T.forward r.toNat c.toNat

/-- The code point of an entry of `gb2312_backward`. -/
def valueAt (T : Gb2312Tables) (k : ℕ) : ℕ :=
  T.forward (T.backward.getD k (0, 0)).1 (T.backward.getD k (0, 0)).2

/-- `unicode_to_gb2312`; `none` where it stores nothing.  The search takes at most one round more
than there are entries. -/
def unicodeToGb2312 (T : Gb2312Tables) (unicode : ℕ) : Option (ℕ × ℕ) :=
  (Bisection.bisect T.valueAt unicode (T.backward.length + 1) (-1) T.backward.length).map
    fun k => T.backward.getD k (0, 0)

end Gb2312Tables

variable (T : Gb2312Tables)

/-- `Gb2312ToUnicode`, the `WCHAR` of two bytes. -/
def gb2312ToUnicode (b₀ b₁ : UInt8) : ℕ :=
  (T.gb2312ToUnicode (b₀ - 0xa0 - 1) (b₁ - 0xa0 - 1) % 65536).toNat

/-- `UnicodeToUTF_8` -/
def unicodeToUtf8 (w : ℕ) : List UInt8 :=
  let hi := UInt8.ofNat (w / 256)
  let lo := UInt8.ofNat w
  [(0xE0 : UInt8) ||| ((hi &&& 0xF0) >>> 4),
    ((0x80 : UInt8) ||| ((hi &&& 0x0F) <<< 2)) + ((lo &&& 0xC0) >>> 6),
    (0x80 : UInt8) ||| (lo &&& 0x3F)]

/-- `UTF_8ToUnicode`, the `WCHAR` of three bytes. -/
def utf8ToUnicode (b₀ b₁ b₂ : UInt8) : ℕ :=
  let hi := ((b₀ &&& 0x0F) <<< 4) + ((b₁ >>> 2) &&& 0x0F)
  let lo := ((b₁ &&& 0x03) <<< 6) + (b₂ &&& 0x3F)
  hi.toNat * 256 + lo.toNat

/-- `UnicodeToGB2312` into two bytes; one that is not found leaves in them what was there. -/
def unicodeToGB2312 (pOut : UInt8 × UInt8) (uData : ℕ) : UInt8 × UInt8 :=
  let (r, c) := ((T.unicodeToGb2312 uData).map fun p => (UInt8.ofNat p.1, UInt8.ofNat p.2)).getD pOut
  (r + (0xa0 + 1), c + (0xa0 + 1))

/-- The loop of `GB2312ToUTF_8`; `rst` is what is written so far. -/
def gb2312ToUtf8Loop (pText : Mem) (pLen : ℕ) : (fuel i : ℕ) → (rst : List UInt8) → List UInt8
  | 0, _, rst => rst
  | fuel + 1, i, rst =>
      if i < pLen then
        if pText i &&& 0x80 = 0 then gb2312ToUtf8Loop pText pLen fuel (i + 1) (rst ++ [pText i])
        else gb2312ToUtf8Loop pText pLen fuel (i + 2)
          (rst ++ unicodeToUtf8 (gb2312ToUnicode T (pText i) (pText (i + 1))))
      else rst

/-- `GB2312ToUTF_8`: what stands before the terminating zero. -/
def gb2312ToUtf8 (pText : Mem) (pLen : ℕ) : List UInt8 := gb2312ToUtf8Loop T pText pLen pLen 0 []

/-- The loop of `UTF_8ToGB2312`; `newBuf` is what is written so far. -/
def utf8ToGb2312Loop (pText : Mem) (pLen : ℕ) :
    (fuel i : ℕ) → (ctemp : UInt8 × UInt8) → (newBuf : List UInt8) → List UInt8
  | 0, _, _, newBuf => newBuf
  | fuel + 1, i, ctemp, newBuf =>
      if i < pLen then
        if pText i &&& 0x80 = 0 then
          utf8ToGb2312Loop pText pLen fuel (i + 1) ctemp (newBuf ++ [pText i])
        else
          let wtemp := utf8ToUnicode (pText i) (pText (i + 1)) (pText (i + 2))
          let ctemp := unicodeToGB2312 T ctemp wtemp
          utf8ToGb2312Loop pText pLen fuel (i + 3) ctemp (newBuf ++ [ctemp.1, ctemp.2])
      else newBuf

/-- `UTF_8ToGB2312`: what stands before the terminating zero. -/
def utf8ToGb2312 (pText : Mem) (pLen : ℕ) : List UInt8 :=
  utf8ToGb2312Loop T pText pLen pLen 0 (0, 0) []

/-! ## Texts -/

/-- A character of a valid text. -/
inductive GbChar where
  | ascii (b : UInt8) (h : b < 0x80)
  | pair (r c : ℕ) (hr : r < 94) (hc : c < 94) (h : T.forward r c ≠ gbError)

namespace GbChar

variable {T}

/-- Its bytes in GB2312. -/
def bytes : GbChar T → List UInt8
  | ascii b _ => [b]
  | pair r c _ _ _ => [UInt8.ofNat (r + 0xa1), UInt8.ofNat (c + 0xa1)]

/-- Its code point. -/
def codePoint : GbChar T → Char
  | ascii b _ => Char.ofNat b.toNat
  | pair r c _ _ _ => Char.ofNat (T.forward r c)

/-- What `GB2312ToUTF_8` writes for it. -/
def written : GbChar T → List UInt8
  | ascii b _ => [b]
  | pair r c _ _ _ => unicodeToUtf8 (T.forward r c)

end GbChar

/-! ## One character -/

section

variable {T}

/-- A statement about bytes, byte by byte. -/
theorem forall_byte {P : UInt8 → Prop} (h : ∀ n < 256, P (UInt8.ofNat n)) (b : UInt8) : P b := by
  have hb := h b.toNat b.toNat_lt
  rwa [UInt8.ofNat_toNat] at hb

theorem high_bits (b : UInt8) :
    (0xE0 : UInt8) ||| ((b &&& 0xF0) >>> 4) = UInt8.ofNat (b.toNat / 16 + 0xe0) := by
  apply forall_byte (P := fun b => (0xE0 : UInt8) ||| ((b &&& 0xF0) >>> 4)
    = UInt8.ofNat (b.toNat / 16 + 0xe0))
  decide +kernel

theorem middle_bits (hi lo : UInt8) :
    ((0x80 : UInt8) ||| ((hi &&& 0x0F) <<< 2)) + ((lo &&& 0xC0) >>> 6)
      = UInt8.ofNat (hi.toNat % 16 * 4 + lo.toNat / 64 + 0x80) := by
  have hhi : ∀ b : UInt8, (0x80 : UInt8) ||| ((b &&& 0x0F) <<< 2)
      = UInt8.ofNat (b.toNat % 16 * 4 + 0x80) := forall_byte (by decide +kernel)
  have hlo : ∀ b : UInt8, (b &&& 0xC0) >>> 6 = UInt8.ofNat (b.toNat / 64) :=
    forall_byte (by decide +kernel)
  rw [hhi, hlo, ← UInt8.ofNat_add]
  congr 1
  omega

theorem low_bits (b : UInt8) :
    (0x80 : UInt8) ||| (b &&& 0x3F) = UInt8.ofNat (b.toNat % 64 + 0x80) := by
  apply forall_byte (P := fun b => (0x80 : UInt8) ||| (b &&& 0x3F)
    = UInt8.ofNat (b.toNat % 64 + 0x80))
  decide +kernel

theorem unicodeToUtf8_eq {w : ℕ} (h : w < 0x10000) :
    unicodeToUtf8 w = [UInt8.ofNat (w / 4096 + 0xe0), UInt8.ofNat (w / 64 % 64 + 0x80),
      UInt8.ofNat (w % 64 + 0x80)] := by
  have hhi : (UInt8.ofNat (w / 256)).toNat = w / 256 := by
    apply UInt8.toNat_ofNat_of_lt'
    show w / 256 < 256
    omega
  have hlo : (UInt8.ofNat w).toNat = w % 256 := UInt8.toNat_ofNat'
  rw [unicodeToUtf8, high_bits, middle_bits, low_bits, hhi, hlo]
  have h₁ : w / 256 / 16 = w / 4096 := by omega
  have h₂ : w / 256 % 16 * 4 + w % 256 / 64 = w / 64 % 64 := by omega
  have h₃ : w % 256 % 64 = w % 64 := by omega
  rw [h₁, h₂, h₃]

theorem val_ofNat {w : ℕ} (hvalid : w.isValidChar) : (Char.ofNat w).val.toNat = w := by
  rw [Char.ofNat, dif_pos hvalid]
  rfl

/-- From `U+0800` on these are the bytes of UTF-8. -/
theorem unicodeToUtf8_eq_utf8EncodeChar {w : ℕ} (hlow : 0x800 ≤ w) (hhigh : w < 0x10000)
    (hvalid : w.isValidChar) : unicodeToUtf8 w = String.utf8EncodeChar (Char.ofNat w) := by
  rw [unicodeToUtf8_eq hhigh, String.utf8EncodeChar, val_ofNat hvalid, if_neg (by omega),
    if_neg (by omega), if_pos (by omega)]
  have h₁ : w / 4096 % 16 = w / 4096 := by omega
  rw [h₁]

/-- `UTF_8ToUnicode` of these bytes. -/
theorem utf8ToUnicode_eq {w : ℕ} (h : w < 0x10000) :
    utf8ToUnicode (UInt8.ofNat (w / 4096 + 0xe0)) (UInt8.ofNat (w / 64 % 64 + 0x80))
      (UInt8.ofNat (w % 64 + 0x80)) = w := by
  have h₀ : ∀ n < 16, (UInt8.ofNat (n + 0xe0) &&& 0x0F) <<< 4 = UInt8.ofNat (n * 16) := by
    decide +kernel
  have h₁ : ∀ n < 64, (UInt8.ofNat (n + 0x80) >>> 2) &&& 0x0F = UInt8.ofNat (n / 4) := by
    decide +kernel
  have h₂ : ∀ n < 64, (UInt8.ofNat (n + 0x80) &&& 0x03) <<< 6 = UInt8.ofNat (n % 4 * 64) := by
    decide +kernel
  have h₃ : ∀ n < 64, UInt8.ofNat (n + 0x80) &&& 0x3F = UInt8.ofNat n := by decide +kernel
  rw [utf8ToUnicode, h₀ _ (by omega), h₁ _ (by omega), h₂ _ (by omega), h₃ _ (by omega),
    ← UInt8.ofNat_add, ← UInt8.ofNat_add, UInt8.toNat_ofNat_of_lt' (show _ < 256 by omega),
    UInt8.toNat_ofNat_of_lt' (show _ < 256 by omega)]
  omega

theorem ascii_bit {b : UInt8} (h : b < 0x80) : b &&& 0x80 = 0 :=
  forall_byte (P := fun b => b < 0x80 → b &&& 0x80 = 0) (by decide +kernel) b h

theorem gb_bit {r : ℕ} (h : r < 94) : ¬UInt8.ofNat (r + 0xa1) &&& 0x80 = 0 := by
  have hall : ∀ n < 94, ¬UInt8.ofNat (n + 0xa1) &&& 0x80 = 0 := by decide +kernel
  exact hall r h

theorem utf8_bit {n : ℕ} (h : n < 16) : ¬UInt8.ofNat (n + 0xe0) &&& 0x80 = 0 := by
  have hall : ∀ n < 16, ¬UInt8.ofNat (n + 0xe0) &&& 0x80 = 0 := by decide +kernel
  exact hall n h

/-- `Gb2312ToUnicode` of the two bytes of a place. -/
theorem gb2312ToUnicode_eq {r c : ℕ} (hr : r < 94) (hc : c < 94) (h : T.forward r c ≠ gbError) :
    gb2312ToUnicode T (UInt8.ofNat (r + 0xa1)) (UInt8.ofNat (c + 0xa1)) = T.forward r c := by
  have hsub : ∀ n < 94, UInt8.ofNat (n + 0xa1) - 0xa0 - 1 = UInt8.ofNat n := by decide +kernel
  have hlt : ∀ n < 94, ¬94 ≤ UInt8.ofNat n ∧ (UInt8.ofNat n).toNat = n := by decide +kernel
  obtain ⟨-, hhigh, -⟩ := T.scalar r c hr hc h
  rw [gb2312ToUnicode, hsub r hr, hsub c hc, Gb2312Tables.gb2312ToUnicode, if_neg (hlt r hr).1,
    if_neg (hlt c hc).1, (hlt r hr).2, (hlt c hc).2]
  omega

/-- The code points of the second table increase. -/
theorem Gb2312Tables.strictMonoOn_valueAt (T : Gb2312Tables) :
    StrictMonoOn T.valueAt (Set.Iio T.backward.length) := by
  intro a ha b hb hab
  have ha' : a < T.backward.length := ha
  have hb' : b < T.backward.length := hb
  have h := List.pairwise_iff_getElem.mp T.sorted a b ha' hb' hab
  rwa [Gb2312Tables.valueAt, Gb2312Tables.valueAt, List.getD_eq_getElem _ _ ha',
    List.getD_eq_getElem _ _ hb']

/-- The search finds the place of a character. -/
theorem Gb2312Tables.unicodeToGb2312_eq (T : Gb2312Tables) {r c : ℕ} (hr : r < 94) (hc : c < 94)
    (h : T.forward r c ≠ gbError) : T.unicodeToGb2312 (T.forward r c) = some (r, c) := by
  obtain ⟨k, hk, hplace⟩ := List.mem_iff_getElem.mp ((T.mem_backward r c).mpr ⟨hr, hc, h⟩)
  have hget : T.backward.getD k (0, 0) = (r, c) := by rw [List.getD_eq_getElem _ _ hk, hplace]
  have hvalue : T.valueAt k = T.forward r c := by rw [Gb2312Tables.valueAt, hget]
  rw [Gb2312Tables.unicodeToGb2312, Bisection.bisect_eq_some T.strictMonoOn_valueAt hvalue
    (le_refl _) (by omega) (by omega) (le_refl _) (by omega), Option.map_some, hget]

theorem unicodeToGB2312_eq (pOut : UInt8 × UInt8) {r c : ℕ} (hr : r < 94) (hc : c < 94)
    (h : T.forward r c ≠ gbError) : unicodeToGB2312 T pOut (T.forward r c)
      = (UInt8.ofNat (r + 0xa1), UInt8.ofNat (c + 0xa1)) := by
  rw [unicodeToGB2312, T.unicodeToGb2312_eq hr hc h]
  show (UInt8.ofNat r + 161, UInt8.ofNat c + 161) = _
  rw [UInt8.ofNat_add, UInt8.ofNat_add]
  rfl

/-! ## Whole texts -/

/-- The bytes of a text in GB2312. -/
def gbBytes (cs : List (GbChar T)) : List UInt8 := cs.flatMap GbChar.bytes

/-- The bytes of a text in UTF-8. -/
def utf8Bytes (cs : List (GbChar T)) : List UInt8 :=
  cs.flatMap fun c => String.utf8EncodeChar c.codePoint

theorem loadBytes_one {m : Mem} {a : ℕ} {b : UInt8} (h : loadBytes m a 1 = [b]) : m a = b := by
  rw [loadBytes_succ] at h
  exact (List.cons.inj h).1

theorem loadBytes_two {m : Mem} {a : ℕ} {b₀ b₁ : UInt8} (h : loadBytes m a 2 = [b₀, b₁]) :
    m a = b₀ ∧ m (a + 1) = b₁ := by
  rw [loadBytes_succ] at h
  obtain ⟨h₀, h₁⟩ := List.cons.inj h
  exact ⟨h₀, loadBytes_one h₁⟩

theorem loadBytes_three {m : Mem} {a : ℕ} {b₀ b₁ b₂ : UInt8} (h : loadBytes m a 3 = [b₀, b₁, b₂]) :
    m a = b₀ ∧ m (a + 1) = b₁ ∧ m (a + 2) = b₂ := by
  rw [loadBytes_succ] at h
  obtain ⟨h₀, h₁⟩ := List.cons.inj h
  exact ⟨h₀, loadBytes_two h₁⟩

/-- `GB2312ToUTF_8` writes a byte or three for each character. -/
theorem gb2312ToUtf8Loop_eq {m : Mem} {pLen : ℕ} (cs : List (GbChar T)) {fuel i : ℕ}
    (rst : List UInt8) (hfuel : cs.length ≤ fuel) (hlen : i + (gbBytes cs).length = pLen)
    (hm : loadBytes m i (gbBytes cs).length = gbBytes cs) :
    gb2312ToUtf8Loop T m pLen fuel i rst = rst ++ cs.flatMap GbChar.written := by
  induction cs generalizing fuel i rst with
  | nil =>
    have hend : ¬i < pLen := by
      rw [← hlen]
      exact Nat.lt_irrefl i
    rw [List.flatMap_nil, List.append_nil]
    cases fuel with
    | zero => rfl
    | succ fuel => rw [gb2312ToUtf8Loop, if_neg hend]
  | cons c cs ih =>
    cases fuel with
    | zero => exact absurd hfuel (Nat.not_succ_le_zero _)
    | succ fuel =>
      have hbytes : gbBytes (c :: cs) = c.bytes ++ gbBytes cs := rfl
      rw [hbytes] at hlen hm
      obtain ⟨hfirst, hrest⟩ := loadBytes_eq_append hm
      rw [List.length_append] at hlen
      rw [gb2312ToUtf8Loop, List.flatMap_cons, ← List.append_assoc]
      cases c with
      | ascii b hb =>
        have hlen' : i + (1 + (gbBytes cs).length) = pLen := hlen
        have hb' : m i = b := loadBytes_one hfirst
        rw [if_pos (by omega), hb', if_pos (ascii_bit hb)]
        exact ih _ (Nat.le_of_succ_le_succ hfuel) (by omega) hrest
      | pair r c hr hc h =>
        have hlen' : i + (2 + (gbBytes cs).length) = pLen := hlen
        obtain ⟨hb₀, hb₁⟩ := loadBytes_two hfirst
        rw [if_pos (by omega), hb₀, hb₁, if_neg (gb_bit hr), gb2312ToUnicode_eq hr hc h]
        exact ih _ (Nat.le_of_succ_le_succ hfuel) (by omega) hrest

/-- `UTF_8ToGB2312` of what `GB2312ToUTF_8` writes. -/
theorem utf8ToGb2312Loop_eq {m : Mem} {pLen : ℕ} (cs : List (GbChar T)) {fuel i : ℕ}
    (ctemp : UInt8 × UInt8) (newBuf : List UInt8) (hfuel : cs.length ≤ fuel)
    (hlen : i + (cs.flatMap GbChar.written).length = pLen)
    (hm : loadBytes m i (cs.flatMap GbChar.written).length = cs.flatMap GbChar.written) :
    utf8ToGb2312Loop T m pLen fuel i ctemp newBuf = newBuf ++ gbBytes cs := by
  induction cs generalizing fuel i ctemp newBuf with
  | nil =>
    have hend : ¬i < pLen := by
      rw [← hlen]
      exact Nat.lt_irrefl i
    rw [gbBytes, List.flatMap_nil, List.append_nil]
    cases fuel with
    | zero => rfl
    | succ fuel => rw [utf8ToGb2312Loop, if_neg hend]
  | cons c cs ih =>
    cases fuel with
    | zero => exact absurd hfuel (Nat.not_succ_le_zero _)
    | succ fuel =>
      rw [List.flatMap_cons] at hlen hm
      obtain ⟨hfirst, hrest⟩ := loadBytes_eq_append hm
      rw [List.length_append] at hlen
      have hbytes : gbBytes (c :: cs) = c.bytes ++ gbBytes cs := rfl
      rw [utf8ToGb2312Loop, hbytes, ← List.append_assoc]
      cases c with
      | ascii b hb =>
        have hlen' : i + (1 + (cs.flatMap GbChar.written).length) = pLen := hlen
        have hb' : m i = b := loadBytes_one hfirst
        rw [if_pos (by omega), hb', if_pos (ascii_bit hb)]
        exact ih _ _ (Nat.le_of_succ_le_succ hfuel) (by omega) hrest
      | pair r c hr hc h =>
        obtain ⟨-, hhigh, -⟩ := T.scalar r c hr hc h
        have hwritten : (GbChar.pair r c hr hc h).written = _ := unicodeToUtf8_eq hhigh
        rw [hwritten] at hfirst hrest hlen
        have hlen' : i + (3 + (cs.flatMap GbChar.written).length) = pLen := hlen
        obtain ⟨hb₀, hb₁, hb₂⟩ := loadBytes_three hfirst
        rw [if_pos (by omega), hb₀, hb₁, hb₂, if_neg (utf8_bit (by omega)), utf8ToUnicode_eq hhigh]
        dsimp only
        rw [unicodeToGB2312_eq ctemp hr hc h]
        exact ih _ _ (Nat.le_of_succ_le_succ hfuel) (by omega) hrest

end

/-! ## What the converters should do -/

section

variable {T}

/-- `GB2312ToUTF_8` of the text is the UTF-8 of its code points, and `UTF_8ToGB2312` of that is the
text. -/
def Gb2312RoundTrip (cs : List (GbChar T)) : Prop :=
  (∀ m, loadBytes m 0 (gbBytes cs).length = gbBytes cs →
      gb2312ToUtf8 T m (gbBytes cs).length = utf8Bytes cs)
    ∧ ∀ m, loadBytes m 0 (utf8Bytes cs).length = utf8Bytes cs →
      utf8ToGb2312 T m (utf8Bytes cs).length = gbBytes cs

/-- A character that has two bytes in UTF-8. -/
def GbChar.TwoBytes : GbChar T → Prop
  | .ascii _ _ => False
  | .pair r c _ _ _ => T.forward r c < 0x800

/-- The three bytes are those of UTF-8 for all other characters. -/
theorem GbChar.written_eq {c : GbChar T} (h : ¬c.TwoBytes) :
    c.written = String.utf8EncodeChar c.codePoint := by
  cases c with
  | ascii b hb =>
    have hlt : b.toNat < 128 := hb
    have hval : (Char.ofNat b.toNat).val.toNat = b.toNat := val_ofNat (Or.inl (by omega))
    rw [GbChar.written, GbChar.codePoint, String.utf8EncodeChar, hval, if_pos (by omega),
      UInt8.ofNat_toNat]
  | pair r c hr hc hf =>
    obtain ⟨-, hhigh, hvalid⟩ := T.scalar r c hr hc hf
    exact unicodeToUtf8_eq_utf8EncodeChar (Nat.not_lt.mp h) hhigh hvalid

/-- A character of two bytes takes a byte less in UTF-8 than is written. -/
theorem GbChar.length_lt {c : GbChar T} (h : c.TwoBytes) :
    (String.utf8EncodeChar c.codePoint).length < c.written.length := by
  cases c with
  | ascii b hb => exact absurd h id
  | pair r c hr hc hf =>
    obtain ⟨hlow, hhigh, hvalid⟩ := T.scalar r c hr hc hf
    have htwo : T.forward r c < 0x800 := h
    rw [GbChar.codePoint, GbChar.written, unicodeToUtf8_eq hhigh, String.utf8EncodeChar,
      val_ofNat hvalid, if_neg (by omega), if_pos (by omega)]
    exact Nat.lt_succ_self 2

theorem GbChar.length_le (c : GbChar T) :
    (String.utf8EncodeChar c.codePoint).length ≤ c.written.length := by
  by_cases h : c.TwoBytes
  · exact (GbChar.length_lt h).le
  · rw [GbChar.written_eq h]

theorem length_utf8Bytes_le (cs : List (GbChar T)) :
    (utf8Bytes cs).length ≤ (cs.flatMap GbChar.written).length := by
  induction cs with
  | nil => exact le_refl 0
  | cons c cs ih =>
    have hc := c.length_le
    rw [utf8Bytes, List.flatMap_cons, List.flatMap_cons, List.length_append, List.length_append]
    exact Nat.add_le_add hc ih

theorem length_utf8Bytes_lt {cs : List (GbChar T)} {c : GbChar T} (hmem : c ∈ cs)
    (htwo : c.TwoBytes) : (utf8Bytes cs).length < (cs.flatMap GbChar.written).length := by
  induction cs with
  | nil => cases hmem
  | cons c' cs ih =>
    have hc := c'.length_le
    have hcs := length_utf8Bytes_le cs
    rw [utf8Bytes, List.flatMap_cons, List.flatMap_cons, List.length_append, List.length_append]
    cases hmem with
    | head => exact Nat.add_lt_add_of_lt_of_le (GbChar.length_lt htwo) hcs
    | tail _ hmem => exact Nat.add_lt_add_of_le_of_lt hc (ih hmem)

/-- Every character has a byte at least. -/
theorem length_le_flatMap {f : GbChar T → List UInt8} (hf : ∀ c, 1 ≤ (f c).length)
    (cs : List (GbChar T)) : cs.length ≤ (cs.flatMap f).length := by
  induction cs with
  | nil => exact le_refl 0
  | cons c cs ih =>
    have hc := hf c
    rw [List.flatMap_cons, List.length_append, List.length_cons]
    omega

theorem length_gbBytes (cs : List (GbChar T)) : cs.length ≤ (gbBytes cs).length := by
  apply length_le_flatMap
  intro c
  cases c with
  | ascii b hb => exact le_refl 1
  | pair r c hr hc h => exact Nat.le_succ 1

theorem length_written (cs : List (GbChar T)) :
    cs.length ≤ (cs.flatMap GbChar.written).length := by
  apply length_le_flatMap
  intro c
  cases c with
  | ascii b hb => exact le_refl 1
  | pair r c hr hc h => exact Nat.le_add_left 1 2

/-- The converters are right for exactly the texts without characters of two bytes. -/
theorem gb2312_utf8_iff (cs : List (GbChar T)) :
    Gb2312RoundTrip cs ↔ ∀ c ∈ cs, ¬c.TwoBytes := by
  have hto : ∀ m, loadBytes m 0 (gbBytes cs).length = gbBytes cs →
      gb2312ToUtf8 T m (gbBytes cs).length = cs.flatMap GbChar.written := by
    intro m hm
    exact gb2312ToUtf8Loop_eq cs [] (length_gbBytes cs) (Nat.zero_add _) hm
  constructor
  · rintro ⟨hright, -⟩ c hc htwo
    have heq := hright (listMem (gbBytes cs)) (loadBytes_listMem _)
    rw [hto _ (loadBytes_listMem _)] at heq
    exact absurd (congrArg List.length heq) (Nat.ne_of_gt (length_utf8Bytes_lt hc htwo))
  · intro hnone
    have hsame : utf8Bytes cs = cs.flatMap GbChar.written := by
      rw [utf8Bytes, List.flatMap_def, List.flatMap_def]
      congr 1
      apply List.map_congr_left
      intro c hc
      exact (GbChar.written_eq (hnone c hc)).symm
    refine ⟨fun m hm => (hto m hm).trans hsame.symm, fun m hm => ?_⟩
    rw [hsame] at hm ⊢
    exact utf8ToGb2312Loop_eq cs _ [] (length_written cs) (Nat.zero_add _) hm

end

/-- The part of the tables with the two characters U+03B1 and U+554A. -/
def twoPlaces : Gb2312Tables where
  forward r c := if r = 5 ∧ c = 32 then 0x03B1 else if r = 15 ∧ c = 0 then 0x554A else gbError
  backward := [(5, 32), (15, 0)]
  mem_backward r c := by
    by_cases h₁ : r = 5 ∧ c = 32
    · obtain ⟨rfl, rfl⟩ := h₁
      decide
    by_cases h₂ : r = 15 ∧ c = 0
    · obtain ⟨rfl, rfl⟩ := h₂
      decide
    · simp [h₁, h₂]
  sorted := by decide
  scalar r c hr hc h := by
    split
    · decide
    · split
      · decide
      · rename_i h₁ h₂
        rw [if_neg h₁, if_neg h₂] at h
        exact absurd rfl h

/-- The letter U+03B1 gets three bytes. -/
theorem gb2312_alpha : ∃ (T : Gb2312Tables) (cs : List (GbChar T)), ¬Gb2312RoundTrip cs := by
  refine ⟨twoPlaces, [.pair 5 32 (by decide) (by decide) (by decide)], ?_⟩
  rintro ⟨hright, -⟩
  exact absurd (hright (listMem [0xA6, 0xC1]) (by decide)) (by decide)
