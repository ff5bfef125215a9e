/-
# Local time (`wrapper.c`)

`os_make_time` and `os_local_time` are `mktime` and `localtime_r` of the C library with
their arguments checked.  A `LocalClock` is a local time for which the two are inverse and
hours, minutes and seconds count on from midnight; `zoneClock` is the one of a time zone
at a fixed distance from UTC.
-/
import IpCamera.Calendar

open Calendar

/-! ## The C library -/

/-- The parts of `struct tm` that are read. -/
structure BrokenTime where
  date : Date
  time : TimeOfDay
  wday : Fin 7
deriving DecidableEq

/-- A local time without summer time.  `mktime` takes the month and the year as they are written,
and a time beyond the end of the day counts on. -/
structure LocalClock where
  mktime : Date → TimeOfDay → ℤ
  localtime : ℤ → BrokenTime
  valid : ∀ s, 0 ≤ s → (localtime s).date.Valid ∧ (localtime s).time.Valid
  mktime_localtime : ∀ s, 0 ≤ s → mktime (localtime s).date (localtime s).time = s
  localtime_mktime : ∀ d t, d.Valid → t.Valid → 0 ≤ mktime d t →
    (localtime (mktime d t)).date = d ∧ (localtime (mktime d t)).time = t
  mktime_time : ∀ d t, mktime d t = mktime d ⟨0, 0, 0⟩ + secondOfDay t
  mktime_pos : ∀ d t, d.Valid → 1971 ≤ d.year → 0 < mktime d t

namespace LocalClock

/-- `os_make_time` -/
def osMakeTime (clock : LocalClock) (d : Date) (t : TimeOfDay) : ℤ :=
  let ret := clock.mktime d t
  if ret < 0 then 0 else ret

/-- `os_local_time` -/
def osLocalTime (clock : LocalClock) (utc : ℤ) : BrokenTime :=
  clock.localtime (if utc < 0 then 0 else utc)

theorem osLocalTime_of_nonneg (clock : LocalClock) {utc : ℤ} (h : 0 ≤ utc) :
    clock.osLocalTime utc = clock.localtime utc := by
  rw [osLocalTime, if_neg (by omega)]

theorem osMakeTime_eq_max (clock : LocalClock) (d : Date) (t : TimeOfDay) :
    clock.osMakeTime d t = max 0 (clock.mktime d t) := by
  unfold osMakeTime
  dsimp only
  split <;> omega

/-- From 1971 on a time is made without a check failing. -/
theorem osMakeTime_of_year (clock : LocalClock) {d : Date} (hd : d.Valid) (hyear : 1971 ≤ d.year)
    (t : TimeOfDay) : clock.osMakeTime d t = clock.mktime d t ∧ 0 < clock.mktime d t := by
  have hpos := clock.mktime_pos d t hd hyear
  exact ⟨by rw [osMakeTime_eq_max]; omega, hpos⟩

end LocalClock

/-! ## A fixed time zone -/

/-- 1 January 1970, counted from 1900. -/
def epochDay : ℕ := 25567

theorem dayNumber_epoch : dayNumber ⟨1970, 1, 1⟩ = epochDay := by
  decide +kernel

/-- Years do not start before the years before them. -/
theorem sum_yearLength_mono {y z : ℕ} (h : y ≤ z) :
    ∑ i ∈ Finset.Ico 1900 y, yearLength i ≤ ∑ i ∈ Finset.Ico 1900 z, yearLength i :=
  Finset.sum_le_sum_of_subset (Finset.Ico_subset_Ico_right h)

theorem epochDay_add_year : ∑ i ∈ Finset.Ico 1900 1971, yearLength i = epochDay + 365 := by
  decide +kernel

/-- The seconds from 1900 to local time `s`, at `gmtoff` seconds east of Greenwich. -/
def secondsOf (gmtoff s : ℤ) : ℕ := (s + gmtoff + epochDay * 86400).toNat

/-- The clock of a time zone less than a day from UTC. -/
def zoneClock (gmtoff : ℤ) (h : -86400 < gmtoff ∧ gmtoff < 86400) : LocalClock where
  mktime d t := dayNumber d * 86400 + secondOfDay t - epochDay * 86400 - gmtoff
  localtime s :=
    ⟨dateOf (secondsOf gmtoff s / 86400), timeOf (secondsOf gmtoff s % 86400),
      ⟨(secondsOf gmtoff s / 86400 + 1) % 7, Nat.mod_lt _ (by decide)⟩⟩
  valid s _ := ⟨valid_dateOf _, valid_timeOf (Nat.mod_lt _ (by decide))⟩
  mktime_localtime s hs := by
    dsimp only
    rw [dayNumber_dateOf, secondOfDay_timeOf]
    unfold secondsOf epochDay
    omega
  localtime_mktime d t hd ht _ := by
    have hlt := secondOfDay_lt ht
    have hseconds :
        secondsOf gmtoff (dayNumber d * 86400 + secondOfDay t - epochDay * 86400 - gmtoff)
          = dayNumber d * 86400 + secondOfDay t := by
      unfold secondsOf
      omega
    have hday : (dayNumber d * 86400 + secondOfDay t) / 86400 = dayNumber d := by omega
    have hsecond : (dayNumber d * 86400 + secondOfDay t) % 86400 = secondOfDay t := by omega
    dsimp only
    rw [hseconds, hday, hsecond]
    exact ⟨dateOf_dayNumber hd, timeOf_secondOfDay ht⟩
  mktime_time d t := by
    have hzero : secondOfDay ⟨0, 0, 0⟩ = 0 := rfl
    rw [hzero]
    omega
  mktime_pos d t hd hyear := by
    have hsum := sum_yearLength_mono hyear
    rw [epochDay_add_year] at hsum
    have hday : epochDay + 365 ≤ dayNumber d := by
      unfold dayNumber
      omega
    omega
