/-
# The packed time code (`avi_search_api.c`)

`time_to_u64t` prints the six fields of a time side by side and reads them as one number;
`u64t_to_time` prints the number and cuts the fields out of its digits.  The lists of recordings
are sorted by this number.

`time_code_exact`: the code can be undone, and it keeps the order of times.
-/
import IpCamera.EventList
import IpCamera.SdCard

open CString

/-! ## The functions -/

/-- What `sprintf` leaves in an array of 20 characters; nothing if it writes behind its end. -/
def sprintf20 (text : List Char) : Option (List Char) :=
  if text.length < 20 then some text else none

/-- The fields side by side. -/
def SdkTime.text (p : SdkTime) : List Char :=
  printPadded 4 p.year.toNat ++ printPadded 2 p.mon.toNat ++ printPadded 2 p.day.toNat
    ++ printPadded 2 p.hour.toNat ++ printPadded 2 p.min.toNat ++ printPadded 2 p.sec.toNat

/-- `time_to_u64t` -/
def timeToU64t (p : SdkTime) : Option ℕ := (sprintf20 p.text).map fun tmp => toUint64 (atoll tmp)

/-- `(long long)` of an unsigned number. -/
def toInt64 (n : ℕ) : ℤ := if n < 9223372036854775808 then n else n - 18446744073709551616

/-- The number at a place of the text; an array that `avi_substring` leaves alone is empty. -/
def fieldAt (tmpStr : List Char) (start stop : ℕ) : UInt32 :=
  UInt32.ofInt (atoi ((aviSubstring tmpStr start stop).getD []))

/-- `u64t_to_time` -/
def u64tToTime (tmp64 : ℕ) : Option SdkTime :=
  (sprintf20 (printD (toInt64 tmp64))).map fun tmpStr =>
    { year := fieldAt tmpStr 0 (0 + 4)
      mon := fieldAt tmpStr 4 (4 + 2)
      day := fieldAt tmpStr 6 (6 + 2)
      hour := fieldAt tmpStr 8 (8 + 2)
      min := fieldAt tmpStr 10 (10 + 2)
      sec := fieldAt tmpStr 12 (12 + 2) }

/-! ## What is asked -/

namespace SdkTime

/-- The fields have as many digits as they have places. -/
structure FitsCode (t : SdkTime) : Prop where
  year : 1000 ≤ t.year ∧ t.year ≤ 9999
  mon : t.mon ≤ 99
  day : t.day ≤ 99
  hour : t.hour ≤ 99
  min : t.min ≤ 99
  sec : t.sec ≤ 99

/-- The first field in which two times differ is less. -/
def Earlier (t u : SdkTime) : Prop :=
  t.year < u.year ∨ t.year = u.year ∧ (t.mon < u.mon ∨ t.mon = u.mon ∧ (t.day < u.day ∨
    t.day = u.day ∧ (t.hour < u.hour ∨ t.hour = u.hour ∧ (t.min < u.min ∨
      t.min = u.min ∧ t.sec < u.sec))))

/-- The number that the fields make up. -/
def code (t : SdkTime) : ℕ :=
  100 * (100 * (100 * (100 * (100 * t.year.toNat + t.mon.toNat) + t.day.toNat) + t.hour.toNat)
    + t.min.toNat) + t.sec.toNat

variable {t u : SdkTime}

theorem FitsCode.lt_hundred (h : t.FitsCode) : t.mon.toNat < 100 ∧ t.day.toNat < 100 ∧
    t.hour.toNat < 100 ∧ t.min.toNat < 100 ∧ t.sec.toNat < 100 := by
  have hmon := UInt32.le_iff_toNat_le.mp h.mon
  have hday := UInt32.le_iff_toNat_le.mp h.day
  have hhour := UInt32.le_iff_toNat_le.mp h.hour
  have hmin := UInt32.le_iff_toNat_le.mp h.min
  have hsec := UInt32.le_iff_toNat_le.mp h.sec
  rw [show (99 : UInt32).toNat = 99 from rfl] at hmon hday hhour hmin hsec
  omega

theorem FitsCode.year_bounds (h : t.FitsCode) : 1000 ≤ t.year.toNat ∧ t.year.toNat < 10000 := by
  have hlow := UInt32.le_iff_toNat_le.mp h.year.1
  have hhigh := UInt32.le_iff_toNat_le.mp h.year.2
  rw [show (1000 : UInt32).toNat = 1000 from rfl] at hlow
  rw [show (9999 : UInt32).toNat = 9999 from rfl] at hhigh
  omega

/-- The order of the codes is that of the times. -/
theorem code_lt_iff (ht : t.FitsCode) (hu : u.FitsCode) : t.code < u.code ↔ t.Earlier u := by
  have ht' := ht.lt_hundred
  have hu' := hu.lt_hundred
  simp only [Earlier, code, UInt32.lt_iff_toNat_lt, ← UInt32.toNat_inj]
  omega

/-! ## The digits of the code -/

/-- The year needs no zeros in front. -/
theorem FitsCode.year_digits (h : t.FitsCode) :
    printPadded 4 t.year.toNat = Nat.toDigits 10 t.year.toNat ∧
      (Nat.toDigits 10 t.year.toNat).length = 4 := by
  have hyear := h.year_bounds
  have hle : (Nat.toDigits 10 t.year.toNat).length ≤ 4 :=
    (Nat.length_toDigits_le_iff (by decide) (by decide)).mpr hyear.2
  have hge : ¬ (Nat.toDigits 10 t.year.toNat).length ≤ 3 := by
    rw [Nat.length_toDigits_le_iff (by decide) (by decide)]
    omega
  exact ⟨printPadded_of_le (by omega), by omega⟩

/-- **The text of a time is the text of its code.** -/
theorem FitsCode.text_eq (h : t.FitsCode) : t.text = Nat.toDigits 10 t.code := by
  obtain ⟨hmon, hday, hhour, hmin, hsec⟩ := h.lt_hundred
  have hyear := h.year_bounds
  have hpair : ∀ {n m : ℕ}, 0 < n → m < 100 →
      Nat.toDigits 10 n ++ printPadded 2 m = Nat.toDigits 10 (100 * n + m) :=
    fun hn hm => toDigits_append_printPadded hn 1 hm
  rw [text, h.year_digits.1, hpair (by omega) hmon, hpair (by omega) hday, hpair (by omega) hhour,
    hpair (by omega) hmin, hpair (by omega) hsec]
  rfl

theorem FitsCode.code_lt (h : t.FitsCode) : t.code < 10 ^ 14 := by
  have hyear := h.year_bounds
  have hrest := h.lt_hundred
  unfold code
  omega

theorem FitsCode.length_text (h : t.FitsCode) : t.text.length ≤ 14 := by
  rw [h.text_eq]
  exact (Nat.length_toDigits_le_iff (by decide) (by decide)).mpr h.code_lt

/-- The code of a time. -/
theorem FitsCode.timeToU64t_eq (h : t.FitsCode) : timeToU64t t = some t.code := by
  have hlength := h.length_text
  have hcode := h.code_lt
  have hread : strtol t.text = t.code := by
    have hdigits := strtol_toDigits_append t.code stops_nil
    rwa [List.append_nil, ← h.text_eq] at hdigits
  rw [timeToU64t, sprintf20, if_pos (by omega), Option.map_some,
    atoll_of_strtol hread (by omega), toUint64_natCast (by omega)]

/-- A field is cut out where it was printed. -/
theorem fieldAt_append (pre post : List Char) {start width : ℕ} {v : UInt32}
    (hstart : pre.length = start) (hwidth : 0 < width) (hv : v.toNat < 10 ^ width)
    (hint : v.toNat < 2147483648) :
    fieldAt (pre ++ (printPadded width v.toNat ++ post)) start (start + width) = v := by
  have hfield : (printPadded width v.toNat).length = width := length_printPadded hwidth hv
  have hlength : (pre ++ (printPadded width v.toNat ++ post)).length
      = start + (width + post.length) := by
    rw [List.length_append, List.length_append, hstart, hfield]
  have hsub : aviSubstring (pre ++ (printPadded width v.toNat ++ post)) start (start + width)
      = some (printPadded width v.toNat) := by
    rw [aviSubstring, if_neg (by omega)]
    dsimp only
    rw [if_neg (by omega), List.drop_left' hstart, List.take_left' (by omega)]
  have hmod : (v.toNat : ℤ) % 4294967296 = v.toNat := Int.emod_eq_of_lt (by omega) (by omega)
  rw [fieldAt, hsub, Option.getD_some, atoi_of_strtol (strtol_printPadded _ _) hint, UInt32.ofInt]
  show UInt32.ofNat ((v.toNat : ℤ) % 4294967296).toNat = v
  rw [hmod, Int.toNat_natCast, UInt32.ofNat_toNat]

/-- The fields are cut out of the text of the time. -/
theorem FitsCode.u64tToTime_eq (h : t.FitsCode) : u64tToTime t.code = some t := by
  obtain ⟨hmon, hday, hhour, hmin, hsec⟩ := h.lt_hundred
  have hyear := h.year_bounds
  have hcode := h.code_lt
  have hlength := h.length_text
  have hprint : printD (toInt64 t.code) = t.text := by
    rw [toInt64, if_pos (by omega), printD, if_pos (by omega), Int.toNat_natCast, h.text_eq]
  rw [u64tToTime, hprint, sprintf20, if_pos (by omega), Option.map_some]
  have htwo : ∀ {n : ℕ}, n < 100 → (printPadded 2 n).length = 2 :=
    fun hn => length_printPadded (by decide) hn
  have hfour : (printPadded 4 t.year.toNat).length = 4 := length_printPadded (by decide) hyear.2
  have hcut : ∀ (pre post : List Char) {start width : ℕ} {v : UInt32}, pre.length = start →
      0 < width → width ≤ 4 → v.toNat < 10 ^ width →
      t.text = pre ++ (printPadded width v.toNat ++ post) →
      fieldAt t.text start (start + width) = v := by
    intro pre post start width v hstart hwidth hle hv htext
    have hpow : 10 ^ width ≤ 10 ^ 4 := Nat.pow_le_pow_right (by decide) hle
    rw [htext]
    exact fieldAt_append pre post hstart hwidth hv (by omega)
  have htext : t.text = printPadded 4 t.year.toNat ++ (printPadded 2 t.mon.toNat ++
      (printPadded 2 t.day.toNat ++ (printPadded 2 t.hour.toNat ++ (printPadded 2 t.min.toNat ++
        (printPadded 2 t.sec.toNat ++ []))))) := by
    simp only [text, List.append_assoc, List.append_nil]
  have hyearAt : fieldAt t.text 0 (0 + 4) = t.year :=
    hcut [] _ rfl (by decide) (by decide) hyear.2 htext
  have hmonAt : fieldAt t.text 4 (4 + 2) = t.mon :=
    hcut _ _ hfour (by decide) (by decide) hmon htext
  -- one field after the other goes over to the front
  rw [← List.append_assoc] at htext
  have hdayAt : fieldAt t.text 6 (6 + 2) = t.day :=
    hcut _ _ (by rw [List.length_append, hfour, htwo hmon]) (by decide) (by decide) hday htext
  rw [← List.append_assoc] at htext
  have hhourAt : fieldAt t.text 8 (8 + 2) = t.hour :=
    hcut _ _ (by simp only [List.length_append, hfour, htwo hmon, htwo hday]) (by decide)
      (by decide) hhour htext
  rw [← List.append_assoc] at htext
  have hminAt : fieldAt t.text 10 (10 + 2) = t.min :=
    hcut _ _ (by simp only [List.length_append, hfour, htwo hmon, htwo hday, htwo hhour])
      (by decide) (by decide) hmin htext
  rw [← List.append_assoc] at htext
  have hsecAt : fieldAt t.text 12 (12 + 2) = t.sec :=
    hcut _ _ (by simp only [List.length_append, hfour, htwo hmon, htwo hday, htwo hhour, htwo hmin])
      (by decide) (by decide) hsec htext
  rw [hyearAt, hmonAt, hdayAt, hhourAt, hminAt, hsecAt]

end SdkTime

/-- **The packed time code round-trips and keeps order.** -/
theorem time_code_exact (t u : SdkTime) (ht : t.FitsCode) (hu : u.FitsCode) :
    ∃ a b, timeToU64t t = some a ∧ timeToU64t u = some b ∧ u64tToTime a = some t ∧
      (a < b ↔ t.Earlier u) :=
  ⟨t.code, u.code, ht.timeToU64t_eq, hu.timeToU64t_eq, ht.u64tToTime_eq,
    SdkTime.code_lt_iff ht hu⟩

/-- The last second of a year, and the first of the next. -/
theorem time_code_exact_new_year :
    ∃ a b, timeToU64t ⟨2015, 12, 31, 23, 59, 59⟩ = some a ∧
      timeToU64t ⟨2016, 1, 1, 0, 0, 0⟩ = some b ∧
      u64tToTime a = some ⟨2015, 12, 31, 23, 59, 59⟩ ∧
      (a < b ↔ SdkTime.Earlier ⟨2015, 12, 31, 23, 59, 59⟩ ⟨2016, 1, 1, 0, 0, 0⟩) :=
  time_code_exact _ _ ⟨by decide, by decide, by decide, by decide, by decide, by decide⟩
    ⟨by decide, by decide, by decide, by decide, by decide, by decide⟩
