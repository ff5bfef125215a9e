/-
# Numbers in C strings

`strtol` and its relatives on lists of characters, and `%d`.  What they read of a
string that starts with digits is the value of its leading digits, and it is less
than the power of ten of their number.
-/
import Mathlib.Data.List.TakeWhile
import Mathlib.Data.Nat.Digits.Defs
import Mathlib.Tactic

namespace CString

/-- `isspace` in the C locale. -/
def isSpace (c : Char) : Bool := c = ' ' || (9 ≤ c.toNat && c.toNat ≤ 13)

/-- The digits a string starts with. -/
def leadingDigits (s : List Char) : List Char := s.takeWhile Char.isDigit

/-- The number read in base ten: white space, a sign, and digits up to the first other
character. -/
def strtol (s : List Char) : ℤ :=
  match s.dropWhile isSpace with
  | '-' :: s => -(Nat.ofDigitChars 10 (leadingDigits s) 0 : ℤ)
  | '+' :: s => Nat.ofDigitChars 10 (leadingDigits s) 0
  | s => Nat.ofDigitChars 10 (leadingDigits s) 0

/-- `atoi` on a target with a `long` of 32 bits: a number out of range is its limit. -/
def atoi (s : List Char) : ℤ := max (-2147483648) (min 2147483647 (strtol s))

/-- `atoll`. -/
def atoll (s : List Char) : ℤ := max (-9223372036854775808) (min 9223372036854775807 (strtol s))

/-- What `%d` prints. -/
def printD (n : ℤ) : List Char :=
  if 0 ≤ n then Nat.toDigits 10 n.toNat else '-' :: Nat.toDigits 10 (-n).toNat

/-- A string of digits only. -/
def Digits (s : List Char) : Prop := ∀ c ∈ s, c.isDigit

/-- A string that does not go on with a digit. -/
def Stops (s : List Char) : Prop := ∀ c, s.head? = some c → ¬ c.isDigit

theorem digits_toDigits (n : ℕ) : Digits (Nat.toDigits 10 n) :=
  fun _ hc => Nat.isDigit_of_mem_toDigits (by decide) (by decide) hc

theorem stops_nil : Stops [] := by
  intro c hc
  cases hc

theorem stops_cons {c : Char} (hc : ¬c.isDigit) (t : List Char) : Stops (c :: t) := by
  intro d hd
  obtain rfl := Option.some.inj hd
  exact hc

/-- A beginning of such a string is one. -/
theorem Stops.take {s : List Char} (h : Stops s) (n : ℕ) : Stops (s.take n) := by
  intro c hc
  apply h
  cases s with
  | nil => exact absurd hc (by simp)
  | cons d s =>
    cases n with
    | zero => cases hc
    | succ n => exact hc

theorem leadingDigits_append {s t : List Char} (hs : Digits s) (ht : Stops t) :
    leadingDigits (s ++ t) = s := by
  induction s with
  | nil =>
    cases t with
    | nil => rfl
    | cons c t => exact List.takeWhile_cons_of_neg (ht c rfl)
  | cons c s ih =>
    have hc : c.isDigit := hs c (by simp)
    rw [List.cons_append, leadingDigits, List.takeWhile_cons_of_pos hc]
    congr 1
    exact ih fun d hd => hs d (by simp [hd])

theorem digit_le_nine {c : Char} (hc : c.isDigit) : c.toNat - '0'.toNat ≤ 9 := by
  have h := (Char.isDigit_iff_toNat).mp hc
  have h0 : '0'.toNat = 48 := rfl
  have h9 : '9'.toNat = 57 := rfl
  omega

/-- The value of `n` digits has `n` digits at most. -/
theorem ofDigitChars_lt {s : List Char} (hs : Digits s) :
    Nat.ofDigitChars 10 s 0 < 10 ^ s.length := by
  induction s with
  | nil => simp
  | cons c s ih =>
    have hc := digit_le_nine (hs c (by simp))
    have ih' := ih fun d hd => hs d (by simp [hd])
    rw [Nat.ofDigitChars_cons, Nat.ofDigitChars_eq_ofDigitChars_zero, List.length_cons, pow_succ]
    have hmul : 10 ^ s.length * (10 * 0 + (c.toNat - '0'.toNat)) ≤ 10 ^ s.length * 9 :=
      Nat.mul_le_mul_left _ (by omega)
    omega

theorem ofDigitChars_leadingDigits_lt (s : List Char) :
    Nat.ofDigitChars 10 (leadingDigits s) 0 < 10 ^ s.length := by
  have hdigits : Digits (leadingDigits s) := fun c hc => (List.all_eq_true.mp List.all_takeWhile) c hc
  have hlen : (leadingDigits s).length ≤ s.length := (List.takeWhile_sublist _).length_le
  exact (ofDigitChars_lt hdigits).trans_le (Nat.pow_le_pow_right (by decide) hlen)

/-- What is read of a string is below the power of ten of its length. -/
theorem strtol_lt (s : List Char) : strtol s < 10 ^ s.length := by
  have hdrop : (s.dropWhile isSpace).length ≤ s.length := (List.dropWhile_sublist _).length_le
  have hpow : ∀ t : List Char, t.length ≤ s.length →
      (Nat.ofDigitChars 10 (leadingDigits t) 0 : ℤ) < 10 ^ s.length := by
    intro t ht
    have hlt := (ofDigitChars_leadingDigits_lt t).trans_le
      (Nat.pow_le_pow_right (by decide) ht)
    exact_mod_cast hlt
  unfold strtol
  split
  · have hpos : (0 : ℤ) < 10 ^ s.length := by positivity
    omega
  · rename_i t heq
    rw [heq, List.length_cons] at hdrop
    exact hpow t (by omega)
  · exact hpow _ hdrop

theorem isSpace_of_isDigit {c : Char} (hc : c.isDigit) : isSpace c = false := by
  have h := (Char.isDigit_iff_toNat).mp hc
  have hne : c ≠ ' ' := by
    rintro rfl
    exact absurd h.1 (by decide)
  have hlt : 13 < c.toNat := by
    have h0 : '0'.toNat = 48 := rfl
    omega
  simp [isSpace, hne, hlt]

/-- A string that starts with a digit has neither white space nor a sign in front. -/
theorem strtol_of_digit {c : Char} (hc : c.isDigit) (s : List Char) :
    strtol (c :: s) = Nat.ofDigitChars 10 (leadingDigits (c :: s)) 0 := by
  unfold strtol
  rw [List.dropWhile_cons_of_neg (by simp [isSpace_of_isDigit hc])]
  split
  · rename_i heq
    obtain ⟨rfl, -⟩ := List.cons.inj heq
    exact absurd hc (by decide)
  · rename_i heq
    obtain ⟨rfl, -⟩ := List.cons.inj heq
    exact absurd hc (by decide)
  · rfl

/-- Reading digits, whatever other text follows. -/
theorem strtol_digits_append {s t : List Char} (hs : Digits s) (hne : s ≠ []) (ht : Stops t) :
    strtol (s ++ t) = Nat.ofDigitChars 10 s 0 := by
  have hlead := leadingDigits_append hs ht
  match s, hne with
  | c :: ds, _ =>
    rw [List.cons_append, strtol_of_digit (hs c (by simp)), ← List.cons_append, hlead]

/-- Reading a printed number back. -/
theorem strtol_toDigits_append (n : ℕ) {t : List Char} (ht : Stops t) :
    strtol (Nat.toDigits 10 n ++ t) = n := by
  rw [strtol_digits_append (digits_toDigits n) Nat.toDigits_ne_nil ht,
    Nat.ofDigitChars_ten_toDigits]

theorem atoll_of_strtol {s : List Char} {n : ℕ} (h : strtol s = n) (hn : n < 9223372036854775808) :
    atoll s = n := by
  rw [atoll, h]
  omega

theorem atoi_of_strtol {s : List Char} {n : ℕ} (h : strtol s = n) (hn : n < 2147483648) :
    atoi s = n := by
  rw [atoi, h]
  omega

/-- `sscanf` with `%d`: nothing where no number begins. -/
def scanD (s : List Char) : Option ℤ :=
  let t := s.dropWhile isSpace
  let t := if t.head? = some '-' ∨ t.head? = some '+' then t.tail else t
  if t.head?.any Char.isDigit then some (strtol s) else none

theorem scanD_toDigits (n : ℕ) : scanD (Nat.toDigits 10 n) = some (n : ℤ) := by
  have hnum : strtol (Nat.toDigits 10 n) = n := by
    simpa using strtol_toDigits_append n stops_nil
  cases hdigits : Nat.toDigits 10 n with
  | nil => exact absurd hdigits Nat.toDigits_ne_nil
  | cons c ds =>
    have hc : c.isDigit := digits_toDigits n c (hdigits ▸ List.mem_cons_self)
    have hsign : ¬ (c = '-' ∨ c = '+') := by
      rintro (rfl | rfl)
      · exact absurd hc (by decide)
      · exact absurd hc (by decide)
    rw [hdigits] at hnum
    rw [scanD, List.dropWhile_cons_of_neg (by simp [isSpace_of_isDigit hc])]
    simp [hsign, hc, hnum]

/-! ## Numbers with zeros in front -/

/-- What `%lu` prints with a width that is filled up with zeros. -/
def printPadded (width n : ℕ) : List Char :=
  List.replicate (width - (Nat.toDigits 10 n).length) '0' ++ Nat.toDigits 10 n

theorem printPadded_of_le {width n : ℕ} (h : width ≤ (Nat.toDigits 10 n).length) :
    printPadded width n = Nat.toDigits 10 n := by
  rw [printPadded, Nat.sub_eq_zero_of_le h]
  rfl

theorem digits_printPadded (width n : ℕ) : Digits (printPadded width n) := by
  intro c hc
  rcases List.mem_append.mp hc with hc | hc
  · obtain rfl := List.eq_of_mem_replicate hc
    decide
  · exact digits_toDigits n c hc

theorem printPadded_ne_nil (width n : ℕ) : printPadded width n ≠ [] :=
  List.append_ne_nil_of_right_ne_nil _ Nat.toDigits_ne_nil

theorem length_printPadded {width n : ℕ} (hwidth : 0 < width) (hn : n < 10 ^ width) :
    (printPadded width n).length = width := by
  have hle := (Nat.length_toDigits_le_iff (by decide) hwidth).mpr hn
  rw [printPadded, List.length_append, List.length_replicate]
  omega

theorem ofDigitChars_printPadded (width n : ℕ) :
    Nat.ofDigitChars 10 (printPadded width n) 0 = n := by
  rw [printPadded, Nat.ofDigitChars_append, Nat.ofDigitChars_replicate_zero, Nat.mul_zero,
    Nat.ofDigitChars_ten_toDigits]

/-- The zeros in front change nothing. -/
theorem strtol_printPadded (width n : ℕ) : strtol (printPadded width n) = n := by
  have h := strtol_digits_append (digits_printPadded width n) (printPadded_ne_nil width n)
    stops_nil
  rwa [List.append_nil, ofDigitChars_printPadded] at h

/-- One more place. -/
theorem printPadded_succ (width n : ℕ) :
    printPadded (width + 2) n = printPadded (width + 1) (n / 10) ++ Nat.toDigits 10 (n % 10) := by
  have hmod : Nat.toDigits 10 (n % 10) = [(n % 10).digitChar] :=
    Nat.toDigits_of_lt_base (Nat.mod_lt n (by decide))
  rcases Nat.lt_or_ge n 10 with hlt | hge
  · rw [Nat.div_eq_of_lt hlt, Nat.mod_eq_of_lt hlt, printPadded, printPadded, Nat.toDigits_zero,
      Nat.toDigits_of_lt_base hlt]
    show List.replicate (width + 1) '0' ++ [n.digitChar]
      = List.replicate width '0' ++ ['0'] ++ [n.digitChar]
    rw [List.replicate_succ']
  · have hdigits : Nat.toDigits 10 n = Nat.toDigits 10 (n / 10) ++ [(n % 10).digitChar] :=
      Nat.toDigits_of_base_le (by decide) hge
    have hzeros : width + 2 - ((Nat.toDigits 10 (n / 10)).length + 1)
        = width + 1 - (Nat.toDigits 10 (n / 10)).length := by omega
    rw [printPadded, printPadded, hmod, hdigits, List.length_append, List.length_singleton, hzeros,
      List.append_assoc]

/-- Digits with a full width behind a number are those of a longer number. -/
theorem toDigits_append_printPadded {n : ℕ} (hn : 0 < n) (width : ℕ) {m : ℕ}
    (hm : m < 10 ^ (width + 1)) :
    Nat.toDigits 10 n ++ printPadded (width + 1) m = Nat.toDigits 10 (10 ^ (width + 1) * n + m) := by
  induction width generalizing m with
  | zero =>
    rw [Nat.zero_add, pow_one] at hm ⊢
    rw [printPadded_of_le Nat.length_toDigits_pos, Nat.toDigits_append_toDigits (by decide) hn hm]
  | succ width ih =>
    have hdiv : m / 10 < 10 ^ (width + 1) := by
      rw [Nat.div_lt_iff_lt_mul (by decide), ← pow_succ]
      exact hm
    rw [printPadded_succ, ← List.append_assoc, ih hdiv,
      Nat.toDigits_append_toDigits (by decide) (by positivity) (Nat.mod_lt m (by decide)),
      pow_succ (n := width + 1)]
    congr 1
    have hsplit := Nat.div_add_mod m 10
    linarith

/-! ## Strings in buffers -/

/-- The string in a buffer ends at the first zero. -/
def stringOf (buf : List Char) : List Char := buf.takeWhile (· ≠ '\x00')

theorem stringOf_of_not_mem {s : List Char} (hs : '\x00' ∉ s) : stringOf s = s :=
  List.takeWhile_eq_self_iff.mpr fun _ hc => decide_eq_true (ne_of_mem_of_not_mem hc hs)

theorem stringOf_append_zero {s : List Char} (hs : '\x00' ∉ s) (rest : List Char) :
    stringOf (s ++ '\x00' :: rest) = s := by
  have hall : ∀ c ∈ s, decide (c ≠ '\x00') = true := fun c hc =>
    decide_eq_true (ne_of_mem_of_not_mem hc hs)
  rw [stringOf, List.takeWhile_append_of_pos hall, List.takeWhile_cons_of_neg (by simp),
    List.append_nil]

/-! ## Searching -/

/-- `strstr`: the string from the first occurrence on. -/
def strstr (needle : List Char) : List Char → Option (List Char)
  | [] => if needle = [] then some [] else none
  | c :: s => if needle <+: c :: s then some (c :: s) else strstr needle s

theorem strstr_of_prefix {needle s : List Char} (h : needle <+: s) : strstr needle s = some s := by
  cases s with
  | nil => rw [strstr, if_pos (List.prefix_nil.mp h)]
  | cons c s => rw [strstr, if_pos h]

theorem strstr_eq_none_iff {needle s : List Char} : strstr needle s = none ↔ ¬ needle <:+: s := by
  induction s with
  | nil =>
    rw [strstr, List.infix_nil]
    by_cases h : needle = []
    · simp [h]
    · simp [h]
  | cons c s ih =>
    rw [strstr, List.infix_cons_iff]
    by_cases h : needle <+: c :: s
    · simp [h]
    · rw [if_neg h, ih, or_iff_right h]

/-- The first occurrence is not before its first character. -/
theorem strstr_append {c : Char} {pre : List Char} (hc : c ∉ pre) (needle rest : List Char) :
    strstr (c :: needle) (pre ++ (c :: needle ++ rest)) = some (c :: needle ++ rest) := by
  induction pre with
  | nil => exact strstr_of_prefix (List.prefix_append _ _)
  | cons d pre ih =>
    obtain ⟨hd, hc⟩ := not_or.mp (fun h => hc (List.mem_cons.mpr h))
    rw [List.cons_append, strstr, if_neg]
    · exact ih hc
    · intro h
      exact hd (List.cons_prefix_cons.mp h).1

theorem suffix_of_strstr {needle s t : List Char} (h : strstr needle s = some t) : t <:+ s := by
  induction s with
  | nil =>
    rw [strstr] at h
    split at h
    · exact Option.some.inj h ▸ List.suffix_rfl
    · cases h
  | cons c s ih =>
    rw [strstr] at h
    split at h
    · exact Option.some.inj h ▸ List.suffix_rfl
    · exact (ih h).trans (List.suffix_cons c s)

theorem prefix_of_strstr {needle s t : List Char} (h : strstr needle s = some t) : needle <+: t := by
  induction s with
  | nil =>
    rw [strstr] at h
    split at h
    · rename_i hnil
      exact hnil ▸ List.nil_prefix
    · cases h
  | cons c s ih =>
    rw [strstr] at h
    split at h
    · rename_i hprefix
      exact Option.some.inj h ▸ hprefix
    · exact ih h

end CString
