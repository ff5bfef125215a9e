/-
# Numbers in text (`wrapper.c`)

`os_str2number` reads a decimal number, or a hexadecimal one behind `0x`, into 32 bits.
Its helpers go over the digits and give up when the next one would not fit; each has
its own test for that, and both are the exact one (`atoul_eq`, `atoulx_eq`).
-/
import Mathlib.Tactic

/-! ## Numerals -/

namespace Numeral

/-- The value of digits behind a value; `none` at a character that is no digit. -/
def read (base : ℕ) (digit : Char → Option ℕ) : ℕ → List Char → Option ℕ
  | v, [] => some v
  | v, c :: s => (digit c).bind fun d => read base digit (v * base + d) s

/-- The same, but no value on the way may reach the limit. -/
def readBelow (limit base : ℕ) (digit : Char → Option ℕ) : ℕ → List Char → Option ℕ
  | v, [] => some v
  | v, c :: s => (digit c).bind fun d =>
      if v * base + d < limit then readBelow limit base digit (v * base + d) s else none

variable {limit base : ℕ} {digit : Char → Option ℕ}

/-- Digits do not make the value smaller. -/
theorem le_of_read (hbase : 0 < base) {s : List Char} {v n : ℕ} (h : read base digit v s = some n) :
    v ≤ n := by
  induction s generalizing v with
  | nil => exact (Option.some.inj h).le
  | cons c s ih =>
    obtain ⟨d, -, hrest⟩ := Option.bind_eq_some_iff.mp h
    have hle := ih hrest
    have hmul : v ≤ v * base := Nat.le_mul_of_pos_right v hbase
    omega

/-- A value that is too large on the way is too large at the end. -/
theorem readBelow_eq_some (hbase : 0 < base) {s : List Char} {v n : ℕ} (hv : v < limit) :
    readBelow limit base digit v s = some n ↔ read base digit v s = some n ∧ n < limit := by
  induction s generalizing v with
  | nil =>
    rw [readBelow, read]
    constructor
    · intro h
      exact ⟨h, Option.some.inj h ▸ hv⟩
    · exact fun h => h.1
  | cons c s ih =>
    rw [readBelow, read]
    rcases hd : digit c with _ | d
    · simp
    rw [Option.bind_some, Option.bind_some]
    by_cases hlt : v * base + d < limit
    · rw [if_pos hlt, ih hlt]
    · rw [if_neg hlt]
      constructor
      · intro h
        cases h
      · rintro ⟨h, hn⟩
        have hle := le_of_read hbase h
        omega

end Numeral

/-! ## The functions -/

/-- `_atoul` from a value on: what is returned, and what is left in `*pulValue`. -/
def atoulFrom : List Char → (ulResult : ℕ) → ℤ × ℕ
  | [], ulResult => (0, ulResult)
  | c :: str, ulResult =>
      if c.isDigit then
        if ulResult < 429496729 ∨ ulResult = 429496729 ∧ c < '6' then
          atoulFrom str ((ulResult * 10 + c.toNat - 48) % 4294967296)
        else (-1, ulResult)
      else (-1, ulResult)

/-- `_atoul` -/
def atoul (str : List Char) : ℤ × ℕ := atoulFrom str 0

/-- `_atoulx` from a value on. -/
def atoulxFrom : List Char → (ulResult : ℕ) → ℤ × ℕ
  | [], ulResult => (0, ulResult)
  | c :: str, ulResult =>
      let ch := c.toUpper
      if ch.isDigit ∨ 'A' ≤ ch ∧ ch ≤ 'F' then
        if ulResult < 0x10000000 then
          atoulxFrom str (((ulResult <<< 4) % 4294967296
            + if ch ≤ '9' then ch.toNat - '0'.toNat else ch.toNat - 'A'.toNat + 10) % 4294967296)
        else (-1, ulResult)
      else (-1, ulResult)

/-- `_atoulx` -/
def atoulx (str : List Char) : ℤ × ℕ := atoulxFrom str 0

/-- `os_str2number`: what is returned, and `*pulValue` after it. -/
def osStr2number (str : List Char) (pulValue : ℕ) : ℤ × ℕ :=
  match str with
  | '0' :: x :: rest =>
      if x = 'x' ∨ x = 'X' then
        if rest = [] then (-1, pulValue) else atoulx rest
      else atoul str
  | _ => atoul str

/-! ## What the helpers read -/

/-- The value of a decimal digit. -/
def decDigit (c : Char) : Option ℕ := if c.isDigit then some (c.toNat - '0'.toNat) else none

/-- The value of a hexadecimal digit of either case. -/
def hexDigit (c : Char) : Option ℕ :=
  if c.isDigit then some (c.toNat - '0'.toNat)
  else if 'a' ≤ c ∧ c ≤ 'f' then some (c.toNat - 'a'.toNat + 10)
  else if 'A' ≤ c ∧ c ≤ 'F' then some (c.toNat - 'A'.toNat + 10)
  else none

theorem atoulFrom_eq (s : List Char) {v : ℕ} (hv : v < 4294967296) {n : ℕ} :
    atoulFrom s v = (0, n) ↔ Numeral.readBelow 4294967296 10 decDigit v s = some n := by
  induction s generalizing v with
  | nil => simp [atoulFrom, Numeral.readBelow]
  | cons c s ih =>
    rw [atoulFrom, Numeral.readBelow, decDigit]
    by_cases hdigit : c.isDigit
    · have hrange := Char.isDigit_iff_toNat.mp hdigit
      have h0 : '0'.toNat = 48 := rfl
      have h9 : '9'.toNat = 57 := rfl
      have h6 : c < '6' ↔ c.toNat < 54 := Iff.rfl
      rw [if_pos hdigit, if_pos hdigit, Option.bind_some]
      have hfits : (v < 429496729 ∨ v = 429496729 ∧ c < '6')
          ↔ v * 10 + (c.toNat - '0'.toNat) < 4294967296 := by
        rw [h6]
        omega
      by_cases hlt : v * 10 + (c.toNat - '0'.toNat) < 4294967296
      · have hvalue : (v * 10 + c.toNat - 48) % 4294967296 = v * 10 + (c.toNat - '0'.toNat) := by
          omega
        rw [if_pos (hfits.mpr hlt), if_pos hlt, hvalue]
        exact ih hlt
      · rw [if_neg fun h => hlt (hfits.mp h), if_neg hlt]
        simp
    · rw [if_neg hdigit, if_neg hdigit]
      simp

/-- The test and the value of `_atoulx` for one character. -/
theorem hexDigit_eq (c : Char) :
    hexDigit c = if c.toUpper.isDigit ∨ 'A' ≤ c.toUpper ∧ c.toUpper ≤ 'F' then
      some (if c.toUpper ≤ '9' then c.toUpper.toNat - '0'.toNat
        else c.toUpper.toNat - 'A'.toNat + 10) else none := by
  by_cases hascii : c.toNat < 128
  · have hall : ∀ k < 128, hexDigit (Char.ofNat k) =
        if (Char.ofNat k).toUpper.isDigit ∨ 'A' ≤ (Char.ofNat k).toUpper
            ∧ (Char.ofNat k).toUpper ≤ 'F' then
          some (if (Char.ofNat k).toUpper ≤ '9' then (Char.ofNat k).toUpper.toNat - '0'.toNat
            else (Char.ofNat k).toUpper.toNat - 'A'.toNat + 10) else none := by
      decide +kernel
    have h := hall c.toNat hascii
    rwa [Char.ofNat_toNat] at h
  · have hupper : c.toUpper = c := by
      apply dif_neg
      rintro ⟨-, hz⟩
      have hz' : c.toNat ≤ 122 := hz
      omega
    have hdigit : ¬c.isDigit := by
      rw [Char.isDigit_iff_toNat]
      rintro ⟨-, h9⟩
      have h9' : c.toNat ≤ 57 := h9
      omega
    have hf : ¬('a' ≤ c ∧ c ≤ 'f') := by
      rintro ⟨-, h⟩
      have h' : c.toNat ≤ 102 := h
      omega
    have hF : ¬('A' ≤ c ∧ c ≤ 'F') := by
      rintro ⟨-, h⟩
      have h' : c.toNat ≤ 70 := h
      omega
    rw [hupper, hexDigit, if_neg hdigit, if_neg hf, if_neg hF, if_neg (not_or.mpr ⟨hdigit, hF⟩)]

theorem hexDigit_lt {c : Char} {d : ℕ} (h : hexDigit c = some d) : d < 16 := by
  have h0 : '0'.toNat = 48 := rfl
  have ha : 'a'.toNat = 97 := rfl
  have hA : 'A'.toNat = 65 := rfl
  rw [hexDigit] at h
  split at h
  · rename_i hdigit
    obtain ⟨-, h9⟩ := Char.isDigit_iff_toNat.mp hdigit
    have h9' : c.toNat ≤ 57 := h9
    have hd := Option.some.inj h
    omega
  split at h
  · rename_i hrange
    have hf : c.toNat ≤ 102 := hrange.2
    have hd := Option.some.inj h
    omega
  split at h
  · rename_i hrange
    have hF : c.toNat ≤ 70 := hrange.2
    have hd := Option.some.inj h
    omega
  · cases h

theorem atoulxFrom_eq (s : List Char) {v : ℕ} (hv : v < 4294967296) {n : ℕ} :
    atoulxFrom s v = (0, n) ↔ Numeral.readBelow 4294967296 16 hexDigit v s = some n := by
  induction s generalizing v with
  | nil => simp [atoulxFrom, Numeral.readBelow]
  | cons c s ih =>
    have hdigit := hexDigit_eq c
    rw [atoulxFrom, Numeral.readBelow]
    by_cases hhex : c.toUpper.isDigit ∨ 'A' ≤ c.toUpper ∧ c.toUpper ≤ 'F'
    · rw [if_pos hhex] at hdigit ⊢
      have hlt := hexDigit_lt hdigit
      generalize (if c.toUpper ≤ '9' then c.toUpper.toNat - '0'.toNat
        else c.toUpper.toNat - 'A'.toNat + 10) = d at hdigit hlt ⊢
      rw [hdigit, Option.bind_some]
      by_cases hfits : v < 0x10000000
      · have hvalue : ((v <<< 4) % 4294967296 + d) % 4294967296 = v * 16 + d := by
          rw [Nat.shiftLeft_eq]
          omega
        rw [if_pos hfits, if_pos (by omega), hvalue]
        exact ih (by omega)
      · rw [if_neg hfits, if_neg (by omega)]
        simp
    · rw [if_neg hhex] at hdigit ⊢
      rw [hdigit]
      simp

/-! ## What `os_str2number` reads -/

/-- The text is a numeral of the base with this value. -/
def IsNumeral (base : ℕ) (digit : Char → Option ℕ) (s : List Char) (n : ℕ) : Prop :=
  s ≠ [] ∧ Numeral.read base digit 0 s = some n

theorem atoul_eq {s : List Char} (hs : s ≠ []) {n : ℕ} :
    atoul s = (0, n) ↔ IsNumeral 10 decDigit s n ∧ n < 4294967296 := by
  rw [atoul, atoulFrom_eq s (by decide), Numeral.readBelow_eq_some (by decide) (by decide),
    IsNumeral]
  exact ⟨fun h => ⟨⟨hs, h.1⟩, h.2⟩, fun h => ⟨h.1.2, h.2⟩⟩

theorem atoulx_eq {s : List Char} (hs : s ≠ []) {n : ℕ} :
    atoulx s = (0, n) ↔ IsNumeral 16 hexDigit s n ∧ n < 4294967296 := by
  rw [atoulx, atoulxFrom_eq s (by decide), Numeral.readBelow_eq_some (by decide) (by decide),
    IsNumeral]
  exact ⟨fun h => ⟨⟨hs, h.1⟩, h.2⟩, fun h => ⟨h.1.2, h.2⟩⟩

/-- A text that starts like a hexadecimal number is no decimal one. -/
theorem not_isNumeral_marked {x : Char} (hx : x = 'x' ∨ x = 'X') (rest : List Char) (n : ℕ) :
    ¬IsNumeral 10 decDigit ('0' :: x :: rest) n := by
  rintro ⟨-, h⟩
  rcases hx with rfl | rfl
  · cases h
  · cases h

/-- The helpers return 0 or -1. -/
theorem atoulFrom_ret (s : List Char) (v : ℕ) :
    (atoulFrom s v).1 = 0 ∨ (atoulFrom s v).1 = -1 := by
  induction s generalizing v with
  | nil => exact Or.inl rfl
  | cons c s ih =>
    rw [atoulFrom]
    split
    · split
      · exact ih _
      · exact Or.inr rfl
    · exact Or.inr rfl

theorem atoulxFrom_ret (s : List Char) (v : ℕ) :
    (atoulxFrom s v).1 = 0 ∨ (atoulxFrom s v).1 = -1 := by
  induction s generalizing v with
  | nil => exact Or.inl rfl
  | cons c s ih =>
    rw [atoulxFrom]
    split
    · split
      · exact ih _
      · exact Or.inr rfl
    · exact Or.inr rfl

theorem osStr2number_ret (s : List Char) (pulValue : ℕ) :
    (osStr2number s pulValue).1 = 0 ∨ (osStr2number s pulValue).1 = -1 := by
  unfold osStr2number
  split
  · split
    · split
      · exact Or.inr rfl
      · exact atoulxFrom_ret _ 0
    · exact atoulFrom_ret _ 0
  · exact atoulFrom_ret _ 0

/-- A text that is not empty is accepted exactly if it is a decimal numeral or, behind `0x` or `0X`, a
hexadecimal one, of a number of 32 bits, and that is the value; all others are refused. -/
theorem os_str2number_iff {s : List Char} (hs : s ≠ []) (pulValue : ℕ) :
    (∀ n, osStr2number s pulValue = (0, n) ↔ n < 4294967296 ∧ (IsNumeral 10 decDigit s n
        ∨ ∃ x rest, (x = 'x' ∨ x = 'X') ∧ s = '0' :: x :: rest ∧ IsNumeral 16 hexDigit rest n))
      ∧ ((osStr2number s pulValue).1 = 0 ∨ (osStr2number s pulValue).1 = -1) := by
  refine ⟨fun n => ?_, osStr2number_ret s pulValue⟩
  unfold osStr2number
  split
  · rename_i x rest
    by_cases hx : x = 'x' ∨ x = 'X'
    · rw [if_pos hx]
      by_cases hrest : rest = []
      · rw [if_pos hrest]
        constructor
        · intro h
          cases h
        · rintro ⟨-, h | ⟨x', rest', -, heq, h⟩⟩
          · exact absurd h (not_isNumeral_marked hx rest n)
          · cases heq
            exact absurd hrest h.1
      · rw [if_neg hrest, atoulx_eq hrest]
        constructor
        · rintro ⟨h, hn⟩
          exact ⟨hn, Or.inr ⟨x, rest, hx, rfl, h⟩⟩
        · rintro ⟨hn, h | ⟨x', rest', -, heq, h⟩⟩
          · exact absurd h (not_isNumeral_marked hx rest n)
          · cases heq
            exact ⟨h, hn⟩
    · rw [if_neg hx, atoul_eq hs]
      constructor
      · rintro ⟨h, hn⟩
        exact ⟨hn, Or.inl h⟩
      · rintro ⟨hn, h | ⟨x', rest', hx', heq, -⟩⟩
        · exact ⟨h, hn⟩
        · cases heq
          exact absurd hx' hx
  · rename_i hother
    rw [atoul_eq hs]
    constructor
    · rintro ⟨h, hn⟩
      exact ⟨hn, Or.inl h⟩
    · rintro ⟨hn, h | ⟨x, rest, -, heq, -⟩⟩
      · exact ⟨h, hn⟩
      · exact absurd heq (hother x rest)

/-- The largest number of 32 bits. -/
theorem os_str2number_largest :
    (∀ n, osStr2number "0xffFFffFF".toList 7 = (0, n) ↔ n < 4294967296
        ∧ (IsNumeral 10 decDigit "0xffFFffFF".toList n ∨ ∃ x rest, (x = 'x' ∨ x = 'X')
          ∧ "0xffFFffFF".toList = '0' :: x :: rest ∧ IsNumeral 16 hexDigit rest n))
      ∧ ((osStr2number "0xffFFffFF".toList 7).1 = 0 ∨ (osStr2number "0xffFFffFF".toList 7).1 = -1) :=
  os_str2number_iff (by decide) 7

/-- The prefix may be `0X`. -/
theorem os_str2number_upper_prefix :
    ¬∀ (s : List Char) (pulValue n : ℕ), osStr2number s pulValue = (0, n) ↔
      n < 4294967296 ∧ (IsNumeral 10 decDigit s n
        ∨ ∃ rest, s = '0' :: 'x' :: rest ∧ IsNumeral 16 hexDigit rest n) := by
  intro h
  obtain ⟨-, hdec | ⟨rest, heq, -⟩⟩ := (h ['0', 'X', '1', 'F'] 0 31).mp (by decide)
  · exact not_isNumeral_marked (Or.inr rfl) _ _ hdec
  · cases heq
