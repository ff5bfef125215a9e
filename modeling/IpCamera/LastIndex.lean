/-
# The last place of a character (`last_index_at` in `avi_common_api.c`)

The scan runs down from the length of the string; `n` is lowered in the condition of the loop and
once more in the subscript.  Here every position it looks at is kept, and what stands in front of
the string is not known.

`last_index_exact_iff`: when the last index is returned and no position outside the string is
looked at.
-/
import IpCamera.SdCard

namespace LastIndex

/-- The character at a position: before the string stands what memory holds there. -/
def charAt (front : ℕ → Char) (str : List Char) : (p : ℤ) → Char
  | .ofNat i => str.getD i '\x00'
  | .negSucc i => front i

/-- What a call does: the positions it looks at, in order, and what it returns; nothing once the
`int` overflows. -/
structure Scan where
  examined : List ℤ
  returned : Option ℤ

/-- The rounds from the second on, after one that looks at `p`. -/
def Scan.after (rest : Scan) (p : ℤ) : Scan := ⟨p :: rest.examined, rest.returned⟩

@[simp]
theorem Scan.examined_after (rest : Scan) (p : ℤ) :
    (rest.after p).examined = p :: rest.examined := rfl

@[simp]
theorem Scan.returned_after (rest : Scan) (p : ℤ) : (rest.after p).returned = rest.returned := rfl

/-- How often an `int` can still be lowered. -/
@[irreducible] def roundsLeft (n : ℤ) : ℕ := (n + 2147483648).toNat

/-- The rounds of `while (n--)`, with `n` as the condition finds it. -/
def scanFrom (front : ℕ → Char) (str : List Char) (c : Char) (n : ℤ) : Scan :=
  if n = 0 then ⟨[], some (-1)⟩
  else if n - 2 < -2147483648 then ⟨[], none⟩
  else if c = charAt front str (n - 2) then ⟨[n - 2], some (n - 2)⟩
  else (scanFrom front str c (n - 1)).after (n - 2)
termination_by roundsLeft n
decreasing_by
  unfold roundsLeft
  omega

/-- `last_index_at`: the length goes into an `int`. -/
def lastIndexScan (front : ℕ → Char) (str : List Char) (c : Char) : Scan :=
  scanFrom front str c (toInt32 (str.length % 4294967296))

/-! ## What is asked -/

/-- The largest index at which the character occurs; `-1` if there is none. -/
def IsLastIndex (str : List Char) (c : Char) (r : ℤ) : Prop :=
  (∃ i : ℕ, r = i ∧ str[i]? = some c ∧ ∀ j, i < j → str[j]? ≠ some c) ∨ r = -1 ∧ c ∉ str

/-- The last index is returned, and only positions of the string are looked at. -/
def Scan.Exact (scan : Scan) (str : List Char) (c : Char) : Prop :=
  (∃ r, scan.returned = some r ∧ IsLastIndex str c r) ∧
    ∀ p ∈ scan.examined, 0 ≤ p ∧ p < str.length

/-- The character stands among those that are looked at, and at none of the later places.  For a
length that fits the `int`: the string is empty, or the character occurs in it and is not its last
one. -/
def Reaches (str : List Char) (c : Char) (n : ℤ) : Prop :=
  n = 0 ∧ c ∉ str ∨ 0 < n ∧ c ∈ str.take (n.toNat - 1) ∧ c ∉ str.drop (n.toNat - 1)

variable {front : ℕ → Char} {str : List Char} {c : Char}

/-! ## The rounds -/

theorem scanFrom_zero : scanFrom front str c 0 = ⟨[], some (-1)⟩ := by
  rw [scanFrom, if_pos rfl]

/-- One round. -/
theorem scanFrom_succ (n : ℕ) : scanFrom front str c (n + 1 : ℕ) =
    if c = charAt front str (n - 1) then ⟨[(n : ℤ) - 1], some (n - 1)⟩
    else (scanFrom front str c n).after (n - 1) := by
  have hlook : ((n + 1 : ℕ) : ℤ) - 2 = n - 1 := by omega
  have hnext : ((n + 1 : ℕ) : ℤ) - 1 = n := by omega
  rw [scanFrom, if_neg (by omega), if_neg (by omega), hlook, hnext]

/-- In the last round the position before the string is looked at. -/
theorem scanFrom_one : scanFrom front str c 1 = ⟨[-1], some (-1)⟩ := by
  show scanFrom front str c (0 + 1 : ℕ) = _
  rw [scanFrom_succ, Nat.cast_zero, zero_sub, scanFrom_zero]
  exact ite_self _

/-- A round before the last one looks at a character of the string. -/
theorem scanFrom_add_two {n : ℕ} (hn : n < str.length) : scanFrom front str c (n + 2 : ℕ) =
    if str[n] = c then ⟨[(n : ℤ)], some n⟩
    else (scanFrom front str c (n + 1 : ℕ)).after n := by
  have hchar : charAt front str n = str[n] := (List.getElem_eq_getD _).symm
  have hlook : ((n + 1 : ℕ) : ℤ) - 1 = n := by omega
  rw [scanFrom_succ, hlook, hchar]
  by_cases hfound : str[n] = c
  · rw [if_pos hfound, if_pos hfound.symm]
  · rw [if_neg hfound, if_neg (Ne.symm hfound)]

theorem examined_add_two {n : ℕ} (hn : n < str.length) :
    (scanFrom front str c (n + 2 : ℕ)).examined =
      if str[n] = c then [(n : ℤ)] else n :: (scanFrom front str c (n + 1 : ℕ)).examined := by
  rw [scanFrom_add_two hn]
  by_cases hfound : str[n] = c
  · rw [if_pos hfound, if_pos hfound]
  · rw [if_neg hfound, if_neg hfound, Scan.examined_after]

theorem returned_add_two {n : ℕ} (hn : n < str.length) :
    (scanFrom front str c (n + 2 : ℕ)).returned =
      if str[n] = c then some (n : ℤ) else (scanFrom front str c (n + 1 : ℕ)).returned := by
  rw [scanFrom_add_two hn]
  by_cases hfound : str[n] = c
  · rw [if_pos hfound, if_pos hfound]
  · rw [if_neg hfound, if_neg hfound, Scan.returned_after]

theorem lastIndexAt_add_two {n : ℕ} (hn : n < str.length) : lastIndexAt str c (n + 2) =
    if str[n] = c then (n : ℤ) else lastIndexAt str c (n + 1) := by
  rw [lastIndexAt]
  simp only [Nat.succ_pos, true_and, Nat.add_sub_cancel, List.getElem?_eq_getElem hn,
    Option.some_inj, Nat.cast_succ, add_sub_cancel_right]

theorem lastIndexAt_one : lastIndexAt str c 1 = -1 := by
  rw [lastIndexAt, if_neg (by omega), lastIndexAt]

theorem mem_take_add_one {n : ℕ} (hn : n < str.length) :
    c ∈ str.take (n + 1) ↔ str[n] = c ∨ c ∈ str.take n := by
  rw [List.take_add_one, List.getElem?_eq_getElem hn, Option.toList_some, List.mem_append,
    List.mem_singleton, or_comm, eq_comm]

/-- What is returned does not depend on what stands before the string. -/
theorem scanFrom_returned (n : ℕ) (hn : n ≤ str.length) :
    (scanFrom front str c n).returned = some (lastIndexAt str c n) := by
  induction n with
  | zero => rw [Nat.cast_zero, scanFrom_zero, lastIndexAt]
  | succ n ih =>
    cases n with
    | zero => rw [Nat.zero_add, Nat.cast_one, scanFrom_one, lastIndexAt_one]
    | succ n =>
      rw [returned_add_two (by omega), lastIndexAt_add_two (by omega), ih (by omega),
        apply_ite some]

/-- Every position that is looked at lies below the end of the string. -/
theorem scanFrom_examined_lt (n : ℕ) (hn : n ≤ str.length) :
    ∀ p ∈ (scanFrom front str c n).examined, p < str.length := by
  induction n with
  | zero =>
    rw [Nat.cast_zero, scanFrom_zero]
    exact List.forall_mem_nil _
  | succ n ih =>
    cases n with
    | zero =>
      rw [Nat.zero_add, Nat.cast_one, scanFrom_one]
      exact List.forall_mem_singleton.mpr (by omega)
    | succ n =>
      have hfirst : (n : ℤ) < str.length := by omega
      rw [examined_add_two (by omega)]
      split
      · exact List.forall_mem_singleton.mpr hfirst
      · exact List.forall_mem_cons.mpr ⟨hfirst, ih (by omega)⟩

/-- The scan stays behind the front of the string if it finds the character. -/
theorem scanFrom_examined_nonneg (n : ℕ) (hn : n < str.length) :
    (∀ p ∈ (scanFrom front str c (n + 1 : ℕ)).examined, 0 ≤ p) ↔ c ∈ str.take n := by
  induction n with
  | zero =>
    rw [Nat.zero_add, Nat.cast_one, scanFrom_one, List.forall_mem_singleton, List.take_zero]
    exact iff_of_false (by omega) List.not_mem_nil
  | succ n ih =>
    rw [examined_add_two (by omega), mem_take_add_one (by omega)]
    by_cases hfound : str[n] = c
    · rw [if_pos hfound, List.forall_mem_singleton]
      exact iff_of_true (by omega) (Or.inl hfound)
    · rw [if_neg hfound, List.forall_mem_cons, ih (by omega), or_iff_right hfound,
        and_iff_right (by omega)]

/-! ## What is returned -/

/-- Places without the character may follow. -/
theorem IsLastIndex.append {rest : List Char} {r : ℤ} (h : IsLastIndex str c r) (hrest : c ∉ rest) :
    IsLastIndex (str ++ rest) c r := by
  rcases h with ⟨i, rfl, hi, hlater⟩ | ⟨rfl, habsent⟩
  · refine Or.inl ⟨i, rfl, ?_, fun j hj hget => ?_⟩
    · have hlt : i < str.length := (List.getElem?_eq_some_iff.mp hi).1
      rw [List.getElem?_append_left hlt, hi]
    · rw [List.getElem?_append] at hget
      split at hget
      · exact hlater j hj hget
      · exact hrest (List.mem_of_getElem? hget)
  · exact Or.inr ⟨rfl, by rw [List.mem_append]; exact not_or.mpr ⟨habsent, hrest⟩⟩

/-- What the scan returns is the last index among the characters before the last one. -/
theorem lastIndexAt_isLast (n : ℕ) (hn : n < str.length) :
    IsLastIndex (str.take n) c (lastIndexAt str c (n + 1)) := by
  induction n with
  | zero => exact Or.inr ⟨lastIndexAt_one, List.not_mem_nil⟩
  | succ n ih =>
    rw [lastIndexAt_add_two (by omega)]
    split
    next hfound =>
      refine Or.inl ⟨n, rfl, ?_, fun j hj hget => ?_⟩
      · rw [List.getElem?_take_of_lt (by omega), List.getElem?_eq_getElem (by omega), hfound]
      · rw [List.getElem?_take, if_neg (by omega)] at hget
        cases hget
    next hother =>
      rw [List.take_add_one, List.getElem?_eq_getElem (by omega)]
      refine (ih (by omega)).append ?_
      rw [Option.toList_some, List.mem_singleton]
      exact fun h => hother h.symm

/-- An index that is the last one has no later occurrence. -/
theorem IsLastIndex.not_mem_drop {m : ℕ} {r : ℤ} (h : IsLastIndex str c r)
    (htake : IsLastIndex (str.take m) c r) (hmem : c ∈ str.take m) : c ∉ str.drop m := by
  rcases htake with ⟨i, rfl, hi, -⟩ | ⟨-, habsent⟩
  · have hlt : i < m := by
      have := (List.getElem?_eq_some_iff.mp hi).1
      rw [List.length_take] at this
      omega
    rcases h with ⟨i', hi', -, hlater⟩ | ⟨hi', -⟩
    · intro hdrop
      obtain ⟨j, hj⟩ := List.mem_iff_getElem?.mp hdrop
      rw [List.getElem?_drop] at hj
      exact hlater (m + j) (by omega) hj
    · omega
  · exact absurd hmem habsent

/-! ## When it is exact -/

/-- A scan from a length on. -/
theorem exact_scanFrom_iff (n : ℕ) (hn : n ≤ str.length) :
    (scanFrom front str c n).Exact str c ↔ Reaches str c n := by
  have hreturned : (scanFrom front str c n).returned = some (lastIndexAt str c n) :=
    scanFrom_returned n hn
  cases n with
  | zero =>
    rw [Scan.Exact, Reaches, Nat.cast_zero, scanFrom_zero]
    constructor
    · rintro ⟨⟨r, hr, hlast⟩, -⟩
      rcases hlast with ⟨i, rfl, -⟩ | ⟨-, habsent⟩
      · cases hr
      · exact Or.inl ⟨rfl, habsent⟩
    · rintro (⟨-, habsent⟩ | ⟨hlt, -⟩)
      · exact ⟨⟨-1, rfl, Or.inr ⟨rfl, habsent⟩⟩, List.forall_mem_nil _⟩
      · omega
  | succ n =>
    have hlast : IsLastIndex (str.take n) c (lastIndexAt str c (n + 1)) := lastIndexAt_isLast n hn
    have hinside : (∀ p ∈ (scanFrom front str c (n + 1 : ℕ)).examined, 0 ≤ p) ↔ c ∈ str.take n :=
      scanFrom_examined_nonneg n hn
    have hpred : ((n + 1 : ℕ) : ℤ).toNat - 1 = n := by omega
    rw [Reaches, hpred]
    constructor
    · rintro ⟨⟨r, hr, hwhole⟩, hexamined⟩
      obtain rfl : lastIndexAt str c (n + 1) = r := Option.some_inj.mp (hreturned.symm.trans hr)
      have hmem : c ∈ str.take n := hinside.mp fun p hp => (hexamined p hp).1
      exact Or.inr ⟨by omega, hmem, hwhole.not_mem_drop hlast hmem⟩
    · rintro (⟨hzero, -⟩ | ⟨-, hmem, hrest⟩)
      · omega
      · refine ⟨⟨_, hreturned, ?_⟩, fun p hp => ?_⟩
        · have hwhole := hlast.append hrest
          rwa [List.take_append_drop] at hwhole
        · exact ⟨hinside.mpr hmem p hp, scanFrom_examined_lt (n + 1) hn p hp⟩

/-- A length that the `int` takes for a negative number leads out of the string at once. -/
theorem not_exact_of_neg {n : ℤ} (hn : n < 0) : ¬ (scanFrom front str c n).Exact str c := by
  rintro ⟨⟨r, hr, -⟩, hexamined⟩
  rw [scanFrom, if_neg (by omega)] at hr hexamined
  split at hr
  · cases hr
  · rw [if_neg (by assumption)] at hexamined
    have hfirst : 0 ≤ n - 2 ∧ n - 2 < str.length := by
      split at hexamined
      · exact hexamined _ List.mem_cons_self
      · exact hexamined _ List.mem_cons_self
    omega

end LastIndex

open LastIndex

/-- **When the last index is returned from inside the string**: for an ordinary length, if the
string is empty, or the character occurs in it and is not its last one. -/
theorem last_index_exact_iff (front : ℕ → Char) (str : List Char) (c : Char) :
    (lastIndexScan front str c).Exact str c ↔
      Reaches str c (toInt32 (str.length % 4294967296)) := by
  rw [lastIndexScan]
  rcases lt_or_ge (toInt32 (str.length % 4294967296)) 0 with hneg | hnonneg
  · refine iff_of_false (not_exact_of_neg hneg) ?_
    rintro (⟨hzero, -⟩ | ⟨hpos, -⟩)
    · omega
    · omega
  · obtain ⟨n, hn⟩ := Int.eq_ofNat_of_zero_le hnonneg
    have hle : n ≤ str.length := by
      rw [toInt32] at hn
      split at hn
      · omega
      · omega
    rw [hn]
    exact exact_scanFrom_iff n hle

/-- The `/` at the end of a name is not found, and the position before the name is looked at. -/
theorem last_index_misses_last :
    lastIndexScan (fun _ => '\x00') ['a', '/'] '/' = ⟨[0, -1], some (-1)⟩ ∧
      ¬ ∀ (front : ℕ → Char) (str : List Char) (c : Char),
        (lastIndexScan front str c).Exact str c := by
  have hscan : lastIndexScan (fun _ => '\x00') ['a', '/'] '/' = ⟨[0, -1], some (-1)⟩ := by
    have hlength : toInt32 (['a', '/'].length % 4294967296) = (0 + 2 : ℕ) := by
      simp [toInt32]
    rw [lastIndexScan, hlength, scanFrom_add_two (by decide), if_neg (by decide), Nat.zero_add,
      Nat.cast_one, scanFrom_one]
    rfl
  refine ⟨hscan, fun hall => ?_⟩
  have hexamined := (hall (fun _ => '\x00') ['a', '/'] '/').2 (-1)
  rw [hscan] at hexamined
  have := (hexamined (by decide)).1
  omega
