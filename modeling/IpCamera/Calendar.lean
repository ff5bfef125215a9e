/-
# Calendar dates and seconds

A row of blocks of positive lengths: a position is the number of a block and a place in
it (`locate`), and this is the only way to write it (`locate_of_eq`).  The Gregorian
calendar is two such rows, the years from 1900 on (as in C's `struct tm`) and the months of
a year, so that days and dates, and seconds and times, are converted into each other without
loss.
-/
import Mathlib.Algebra.BigOperators.Intervals
import Mathlib.Algebra.Order.BigOperators.Group.Finset
import Mathlib.Tactic

namespace Calendar

/-! ## Positions in a row of blocks -/

section Blocks

variable (f : ℕ → ℕ)

/-- The block of a position and the place in it, from block `k` on; `fuel` blocks are tried. -/
def locate : (fuel k n : ℕ) → ℕ × ℕ
  | 0, k, n => (k, n)
  | fuel + 1, k, n => if n < f k then (k, n) else locate fuel (k + 1) (n - f k)

variable {f}

theorem locate_spec (hf : ∀ i, 0 < f i) {fuel k n : ℕ} (hfuel : n ≤ fuel) :
    k ≤ (locate f fuel k n).1 ∧ (locate f fuel k n).2 < f (locate f fuel k n).1
      ∧ n = (∑ i ∈ Finset.Ico k (locate f fuel k n).1, f i) + (locate f fuel k n).2 := by
  induction fuel generalizing k n with
  | zero =>
    obtain rfl : n = 0 := Nat.le_zero.mp hfuel
    exact ⟨Nat.le_refl k, hf k, by simp [locate]⟩
  | succ fuel ih =>
    have hk := hf k
    rw [locate]
    split
    next hlt => exact ⟨Nat.le_refl k, hlt, by simp⟩
    next hge =>
      obtain ⟨hle, hlt, hsum⟩ := ih (k := k + 1) (n := n - f k) (by omega)
      refine ⟨by omega, hlt, ?_⟩
      rw [Finset.sum_eq_sum_Ico_succ_bot (by omega)]
      omega

/-- A position is in one block only. -/
theorem block_unique {k i j r s : ℕ} (hi : k ≤ i) (hj : k ≤ j) (hr : r < f i) (hs : s < f j)
    (heq : (∑ a ∈ Finset.Ico k i, f a) + r = (∑ a ∈ Finset.Ico k j, f a) + s) :
    i = j ∧ r = s := by
  -- the end of a block is no later than the start of a later one
  have hend : ∀ {i j : ℕ}, k ≤ i → i < j →
      (∑ a ∈ Finset.Ico k i, f a) + f i ≤ ∑ a ∈ Finset.Ico k j, f a := by
    intro i j hki hij
    rw [← Finset.sum_Ico_succ_top hki]
    exact Finset.sum_le_sum_of_subset (Finset.Ico_subset_Ico_right hij)
  rcases Nat.lt_trichotomy i j with hlt | rfl | hgt
  · have := hend hi hlt
    omega
  · exact ⟨rfl, by omega⟩
  · have := hend hj hgt
    omega

theorem locate_of_eq (hf : ∀ i, 0 < f i) {fuel k n j r : ℕ} (hfuel : n ≤ fuel) (hj : k ≤ j)
    (hr : r < f j) (hn : n = (∑ i ∈ Finset.Ico k j, f i) + r) : locate f fuel k n = (j, r) := by
  obtain ⟨hle, hlt, hsum⟩ := locate_spec hf (k := k) hfuel
  obtain ⟨hblock, hplace⟩ := block_unique hle hj hlt hr (hsum.symm.trans hn)
  exact Prod.ext hblock hplace

end Blocks

/-! ## Days -/

/-- A leap year of the Gregorian calendar. -/
def isLeap (y : ℕ) : Bool := y % 4 = 0 && (y % 100 ≠ 0 || y % 400 = 0)

def yearLength (y : ℕ) : ℕ := if isLeap y then 366 else 365

/-- The days of a month; the months are numbered from 1. -/
def monthLength (y m : ℕ) : ℕ :=
  if m = 2 then if isLeap y then 29 else 28
  else if m = 4 ∨ m = 6 ∨ m = 9 ∨ m = 11 then 30 else 31

theorem yearLength_pos (y : ℕ) : 0 < yearLength y := by
  unfold yearLength
  split <;> decide

theorem monthLength_pos (y m : ℕ) : 0 < monthLength y m := by
  unfold monthLength
  split
  · split <;> decide
  · split <;> decide

theorem sum_monthLength (y : ℕ) : ∑ m ∈ Finset.Ico 1 13, monthLength y m = yearLength y := by
  unfold yearLength monthLength
  cases isLeap y <;> decide

/-- A day of the calendar. -/
structure Date where
  year : ℕ
  month : ℕ
  day : ℕ
deriving DecidableEq, Repr

/-- A date from 1900 on that the calendar has. -/
structure Date.Valid (d : Date) : Prop where
  year : 1900 ≤ d.year
  month : 1 ≤ d.month ∧ d.month ≤ 12
  day : 1 ≤ d.day ∧ d.day ≤ monthLength d.year d.month

/-- The days from 1 January 1900 to a date. -/
def dayNumber (d : Date) : ℕ :=
  (∑ y ∈ Finset.Ico 1900 d.year, yearLength y)
    + ((∑ m ∈ Finset.Ico 1 d.month, monthLength d.year m) + (d.day - 1))

/-- The date that many days after 1 January 1900. -/
def dateOf (n : ℕ) : Date :=
  let year := locate yearLength n 1900 n
  let month := locate (monthLength year.1) year.2 1 year.2
  ⟨year.1, month.1, month.2 + 1⟩

/-- The days of a year before a date in it. -/
theorem daysBefore_lt {d : Date} (hd : d.Valid) :
    (∑ m ∈ Finset.Ico 1 d.month, monthLength d.year m) + (d.day - 1) < yearLength d.year := by
  obtain ⟨hmonth, hmonth'⟩ := hd.month
  obtain ⟨hday, hday'⟩ := hd.day
  have hsucc := Finset.sum_Ico_succ_top hmonth (monthLength d.year)
  have hsub : ∑ m ∈ Finset.Ico 1 (d.month + 1), monthLength d.year m
      ≤ ∑ m ∈ Finset.Ico 1 13, monthLength d.year m :=
    Finset.sum_le_sum_of_subset (Finset.Ico_subset_Ico_right (by omega))
  rw [sum_monthLength] at hsub
  omega

theorem dateOf_dayNumber {d : Date} (hd : d.Valid) : dateOf (dayNumber d) = d := by
  have hyear := locate_of_eq yearLength_pos (Nat.le_refl _) hd.year (daysBefore_lt hd)
    (rfl : dayNumber d = _)
  have hday : d.day - 1 < monthLength d.year d.month := by
    have := hd.day
    omega
  have hmonth := locate_of_eq (monthLength_pos d.year) (Nat.le_refl _) hd.month.1 hday
    (rfl : (∑ m ∈ Finset.Ico 1 d.month, monthLength d.year m) + (d.day - 1) = _)
  unfold dateOf
  rw [hyear]
  dsimp only
  rw [hmonth]
  have hpred : d.day - 1 + 1 = d.day := Nat.sub_add_cancel hd.day.1
  rw [hpred]

theorem dateOf_spec (n : ℕ) : (dateOf n).Valid ∧ dayNumber (dateOf n) = n := by
  obtain ⟨hyear, hplace, hn⟩ := locate_spec yearLength_pos (k := 1900) (Nat.le_refl n)
  obtain ⟨hmonth, hday, hr⟩ := locate_spec (monthLength_pos (locate yearLength n 1900 n).1)
    (k := 1) (Nat.le_refl (locate yearLength n 1900 n).2)
  refine ⟨⟨hyear, ⟨hmonth, ?_⟩, ⟨by simp [dateOf], ?_⟩⟩, ?_⟩
  · -- a month after December would start after the end of the year
    by_contra hlt
    have hsub : ∑ m ∈ Finset.Ico 1 13, monthLength (locate yearLength n 1900 n).1 m
        ≤ ∑ m ∈ Finset.Ico 1 (dateOf n).month, monthLength (locate yearLength n 1900 n).1 m :=
      Finset.sum_le_sum_of_subset (Finset.Ico_subset_Ico_right (by omega))
    rw [sum_monthLength] at hsub
    have heq : (dateOf n).month
        = (locate (monthLength (locate yearLength n 1900 n).1) (locate yearLength n 1900 n).2 1
            (locate yearLength n 1900 n).2).1 := rfl
    rw [heq] at hsub
    omega
  · exact hday
  · rw [dayNumber, dateOf]
    dsimp only
    omega

theorem valid_dateOf (n : ℕ) : (dateOf n).Valid := (dateOf_spec n).1

theorem dayNumber_dateOf (n : ℕ) : dayNumber (dateOf n) = n := (dateOf_spec n).2

/-! ## Seconds -/

/-- A time of a day. -/
structure TimeOfDay where
  hour : ℕ
  minute : ℕ
  second : ℕ
deriving DecidableEq, Repr

/-- A time that a clock shows. -/
structure TimeOfDay.Valid (t : TimeOfDay) : Prop where
  hour : t.hour < 24
  minute : t.minute < 60
  second : t.second < 60

/-- The seconds from midnight to a time; hours and minutes beyond the day count on. -/
def secondOfDay (t : TimeOfDay) : ℕ := 3600 * t.hour + 60 * t.minute + t.second

/-- The time of a second of the day. -/
def timeOf (n : ℕ) : TimeOfDay := ⟨n / 3600, n / 60 % 60, n % 60⟩

theorem secondOfDay_lt {t : TimeOfDay} (ht : t.Valid) : secondOfDay t < 86400 := by
  obtain ⟨hhour, hminute, hsecond⟩ := ht
  unfold secondOfDay
  omega

theorem timeOf_secondOfDay {t : TimeOfDay} (ht : t.Valid) : timeOf (secondOfDay t) = t := by
  obtain ⟨hour, minute, second⟩ := t
  obtain ⟨hhour, hminute, hsecond⟩ := ht
  dsimp only at hhour hminute hsecond
  unfold timeOf secondOfDay
  dsimp only
  rw [TimeOfDay.mk.injEq]
  omega

theorem valid_timeOf {n : ℕ} (hn : n < 86400) : (timeOf n).Valid :=
  ⟨by simp only [timeOf]; omega, by simp only [timeOf]; omega, by simp only [timeOf]; omega⟩

theorem secondOfDay_timeOf (n : ℕ) : secondOfDay (timeOf n) = n := by
  simp only [secondOfDay, timeOf]
  omega

end Calendar
