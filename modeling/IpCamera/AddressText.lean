/-
# Addresses in text (`wrapper.c`)

`os_check_ip_addr` counts the dots of a text and then takes the parts between them one
by one, skipping empty ones: it accepts exactly four numbers up to 255 with single dots
between them (`os_check_ip_addr_iff`).

`os_check_mac_addr` accepts six pairs of hexadecimal digits with colons, which
`_os_mac2int` reads as six bytes (`os_mac_addr_exact`).
-/
import Mathlib.Data.List.TakeWhile
import IpCamera.CString

open CString

/-! ## `os_check_ip_addr` -/

/-- `strsep(stringp, ".")`: the token, and `*stringp` after it. -/
def strsepDot : Option (List Char) → Option (List Char) × Option (List Char)
  | none => (none, none)
  | some s =>
      (some (s.takeWhile (· ≠ '.')), match s.dropWhile (· ≠ '.') with
        | [] => none
        | _ :: rest => some rest)

/-- `os_strsep`, which skips empty tokens, for as many of them as there is fuel. -/
def osStrsep : (fuel : ℕ) → (stringp : Option (List Char)) →
    Option (List Char) × Option (List Char)
  | 0, stringp => (none, stringp)
  | fuel + 1, stringp =>
      match strsepDot stringp with
      | (some [], stringp) => osStrsep fuel stringp
      | p => p

/-- The switch over the characters of an address: the number of marks, or `none` at a character
that is neither a digit nor the mark. -/
def countMarks (digit : Char → Bool) (mark : Char) : (buf : List Char) → (flag : ℕ) → Option ℕ
  | [], flag => some flag
  | c :: buf, flag =>
      if digit c then countMarks digit mark buf flag
      else if c = mark then countMarks digit mark buf (flag + 1)
      else none

/-- The first loop of `os_check_ip_addr`. -/
def countDots : (buf : List Char) → (flag : ℕ) → Option ℕ := countMarks Char.isDigit '.'

/-- The second loop, with `n` parts still to look at. -/
def checkParts (fuel : ℕ) : (n : ℕ) → (ptr : Option (List Char)) → ℤ
  | 0, _ => 0
  | n + 1, ptr =>
      match osStrsep fuel ptr with
      | (none, _) => -1
      | (some tmp, ptr) =>
          if 255 < atoi tmp ∨ 3 < tmp.length ∨ tmp.head? = some '0' ∧ tmp.length ≠ 1 then -1
          else checkParts fuel n ptr

/-- `os_check_ip_addr`; a text of up to 15 characters has at most 16 tokens. -/
def osCheckIpAddr (ipaddr : List Char) : ℤ :=
  if 15 < ipaddr.length then -1
  else
    match countDots ipaddr 0 with
    | none => -1
    | some flag => if flag ≠ 3 then -1 else checkParts 17 4 (some ipaddr)

/-! ## Parts with dots between them -/

/-- The parts of a text that is left, with dots between them; nothing is left without parts. -/
def joined : List (List Char) → Option (List Char)
  | [] => none
  | [p] => some p
  | p :: q :: ps => (joined (q :: ps)).map fun rest => p ++ '.' :: rest

theorem joined_cons_isSome (p : List Char) (ps : List (List Char)) :
    ∃ s, joined (p :: ps) = some s := by
  induction ps generalizing p with
  | nil => exact ⟨p, rfl⟩
  | cons q ps ih =>
    obtain ⟨rest, hrest⟩ := ih q
    exact ⟨p ++ '.' :: rest, by rw [joined, hrest, Option.map_some]⟩

/-- Every text is made of parts without dots, one more than it has dots. -/
theorem exists_parts (s : List Char) : ∃ p ps, joined (p :: ps) = some s
    ∧ ps.length = s.count '.' ∧ ∀ q ∈ p :: ps, '.' ∉ q ∧ ∀ c ∈ q, c ∈ s := by
  induction s with
  | nil => exact ⟨[], [], rfl, rfl, by simp⟩
  | cons c s ih =>
    obtain ⟨p, ps, hjoined, hlen, hparts⟩ := ih
    by_cases hc : c = '.'
    · subst hc
      refine ⟨[], p :: ps, by rw [joined, hjoined]; rfl, ?_, ?_⟩
      · rw [List.length_cons, hlen, List.count_cons_self]
      · intro q hq
        cases hq with
        | head => exact ⟨List.not_mem_nil, fun c hc => absurd hc List.not_mem_nil⟩
        | tail _ hq =>
          exact ⟨(hparts q hq).1, fun c hc => List.mem_cons_of_mem _ ((hparts q hq).2 c hc)⟩
    · refine ⟨c :: p, ps, ?_, ?_, ?_⟩
      · cases ps with
        | nil =>
          rw [joined] at hjoined ⊢
          rw [Option.some.inj hjoined]
        | cons q ps =>
          rw [joined] at hjoined ⊢
          obtain ⟨rest, hrest, rfl⟩ := Option.map_eq_some_iff.mp hjoined
          rw [hrest]
          rfl
      · rw [hlen, List.count_cons_of_ne hc]
      · intro q hq
        cases hq with
        | head =>
          have hp := hparts p List.mem_cons_self
          refine ⟨?_, ?_⟩
          · intro hmem
            cases hmem with
            | head => exact hc rfl
            | tail _ hmem => exact hp.1 hmem
          · intro d hd
            cases hd with
            | head => exact List.mem_cons_self
            | tail _ hd => exact List.mem_cons_of_mem _ (hp.2 d hd)
        | tail _ hq =>
          have hq' := hparts q (List.mem_cons_of_mem _ hq)
          exact ⟨hq'.1, fun d hd => List.mem_cons_of_mem _ (hq'.2 d hd)⟩

/-- `strsep` takes the first part off. -/
theorem strsepDot_joined {p : List Char} (hp : '.' ∉ p) (ps : List (List Char)) :
    strsepDot (joined (p :: ps)) = (some p, joined ps) := by
  have hne : ∀ c ∈ p, decide (c ≠ '.') = true := by
    intro c hc
    refine decide_eq_true ?_
    rintro rfl
    exact hp hc
  cases ps with
  | nil =>
    have hdrop : p.dropWhile (fun c => decide (c ≠ '.')) = [] := List.dropWhile_eq_nil_iff.mpr hne
    show strsepDot (some p) = (some p, none)
    rw [strsepDot, hdrop, List.takeWhile_eq_self_iff.mpr hne]
  | cons q ps =>
    obtain ⟨rest, hrest⟩ := joined_cons_isSome q ps
    have htake : (p ++ '.' :: rest).takeWhile (fun c => decide (c ≠ '.')) = p := by
      rw [List.takeWhile_append_of_pos hne, List.takeWhile_cons_of_neg (by decide),
        List.append_nil]
    have hdrop : (p ++ '.' :: rest).dropWhile (fun c => decide (c ≠ '.')) = '.' :: rest := by
      rw [List.dropWhile_append_of_pos hne, List.dropWhile_cons_of_neg (by decide)]
    rw [joined, hrest, Option.map_some, strsepDot, htake, hdrop]

/-- More fuel than parts is enough. -/
theorem osStrsep_fuel (ps : List (List Char)) {fuel : ℕ} (hfuel : ps.length < fuel)
    (hdots : ∀ p ∈ ps, '.' ∉ p) : osStrsep (fuel + 1) (joined ps) = osStrsep fuel (joined ps) := by
  induction ps generalizing fuel with
  | nil =>
    obtain ⟨fuel, rfl⟩ : ∃ f, fuel = f + 1 := ⟨fuel - 1, by omega⟩
    rfl
  | cons p ps ih =>
    obtain ⟨fuel, rfl⟩ : ∃ f, fuel = f + 1 := ⟨fuel - 1, by omega⟩
    rw [List.length_cons] at hfuel
    have htake := strsepDot_joined (hdots p List.mem_cons_self) ps
    have hless : ps.length < fuel := by omega
    have hrest := ih hless fun q hq => hdots q (List.mem_cons_of_mem _ hq)
    show (match strsepDot (joined (p :: ps)) with
        | (some [], stringp) => osStrsep (fuel + 1) stringp
        | t => t) = match strsepDot (joined (p :: ps)) with
        | (some [], stringp) => osStrsep fuel stringp
        | t => t
    rw [htake]
    cases p with
    | nil => exact hrest
    | cons c p => rfl

/-- What the second loop asks of a part. -/
def PartOk (tmp : List Char) : Prop :=
  ¬(255 < atoi tmp ∨ 3 < tmp.length ∨ tmp.head? = some '0' ∧ tmp.length ≠ 1)

/-- With as many parts as are looked at, or fewer, all are there, and none is empty. -/
theorem checkParts_joined (ps : List (List Char)) {fuel n : ℕ} (hn : ps.length ≤ n)
    (hfuel : ps.length < fuel) (hdots : ∀ p ∈ ps, '.' ∉ p) :
    checkParts fuel n (joined ps) = 0 ↔ ps.length = n ∧ ∀ p ∈ ps, p ≠ [] ∧ PartOk p := by
  obtain ⟨fuel, rfl⟩ : ∃ f, fuel = f + 1 := ⟨fuel - 1, by omega⟩
  induction ps generalizing n with
  | nil =>
    cases n with
    | zero => simp [checkParts]
    | succ n => simp [checkParts, joined, osStrsep, strsepDot]
  | cons p ps ih =>
    cases n with
    | zero => exact absurd hn (Nat.not_succ_le_zero _)
    | succ n =>
      have hps : ∀ q ∈ ps, '.' ∉ q := fun q hq => hdots q (List.mem_cons_of_mem _ hq)
      have hlen : ps.length ≤ n := Nat.le_of_succ_le_succ hn
      rw [List.length_cons] at hfuel
      have htake := strsepDot_joined (hdots p List.mem_cons_self) ps
      cases p with
      | nil =>
        -- an empty part is skipped, and then one is missing
        have hskip : checkParts (fuel + 1) (n + 1) (joined ([] :: ps))
            = checkParts (fuel + 1) (n + 1) (joined ps) := by
          rw [checkParts, checkParts, osStrsep, htake, osStrsep_fuel ps (by omega) hps]
        rw [hskip, ih (by omega) hps (by omega)]
        constructor
        · rintro ⟨h, -⟩
          omega
        · rintro ⟨-, h⟩
          exact absurd rfl (h [] List.mem_cons_self).1
      | cons c p =>
        have htoken : osStrsep (fuel + 1) (joined ((c :: p) :: ps))
            = (some (c :: p), joined ps) := by
          rw [osStrsep, htake]
        rw [checkParts, htoken]
        dsimp only
        split
        · rename_i hbad
          constructor
          · intro h
            exact absurd h (by decide)
          · rintro ⟨-, h⟩
            exact absurd hbad (h (c :: p) List.mem_cons_self).2
        · rename_i hgood
          rw [ih hlen hps (by omega), List.length_cons, Nat.add_right_cancel_iff]
          refine and_congr_right fun _ => ?_
          rw [List.forall_mem_cons]
          exact (and_iff_right ⟨List.cons_ne_nil c p, hgood⟩).symm

/-! ## Numbers up to 255 -/

/-- A decimal number between 0 and 255, without a leading zero. -/
def IpNumber (p : List Char) : Prop :=
  p ≠ [] ∧ Digits p ∧ Nat.ofDigitChars 10 p 0 ≤ 255 ∧ (p.head? = some '0' → p.length = 1)

theorem strtol_digits {p : List Char} (hp : Digits p) (hne : p ≠ []) :
    strtol p = Nat.ofDigitChars 10 p 0 := by
  have h := strtol_digits_append hp hne (t := []) (fun c hc => by cases hc)
  rwa [List.append_nil] at h

/-- Digits without a leading zero have at least the value of the power of ten. -/
theorem pow_le_ofDigitChars {c : Char} {p : List Char} (hdigits : Digits (c :: p)) (hc : c ≠ '0') :
    10 ^ p.length ≤ Nat.ofDigitChars 10 (c :: p) 0 := by
  have hone : 1 ≤ c.toNat - '0'.toNat := by
    have h0 : '0'.toNat = 48 := rfl
    have hrange := Char.isDigit_iff_toNat.mp (hdigits c List.mem_cons_self)
    have hne : c.toNat ≠ 48 := by
      intro h
      exact hc (Char.toNat_inj.mp h)
    omega
  rw [Nat.ofDigitChars_cons, Nat.ofDigitChars_eq_ofDigitChars_zero]
  calc 10 ^ p.length = 10 ^ p.length * 1 := (Nat.mul_one _).symm
    _ ≤ 10 ^ p.length * (10 * 0 + (c.toNat - '0'.toNat)) := Nat.mul_le_mul_left _ (by omega)
    _ ≤ _ := Nat.le_add_right _ _

theorem partOk_iff {p : List Char} (hp : Digits p) (hne : p ≠ []) : PartOk p ↔ IpNumber p := by
  have hvalue := strtol_digits hp hne
  have hatoi : 255 < atoi p ↔ 255 < Nat.ofDigitChars 10 p 0 := by
    rw [atoi, hvalue]
    omega
  rw [PartOk, IpNumber, hatoi]
  constructor
  · intro h
    refine ⟨hne, hp, by omega, fun hzero => ?_⟩
    by_contra hlen
    exact h (Or.inr (Or.inr ⟨hzero, hlen⟩))
  · rintro ⟨-, -, hle, hzero⟩ (hlt | hlen | ⟨hhead, hlen⟩)
    · omega
    · cases p with
      | nil => exact hne rfl
      | cons c p =>
        rw [List.length_cons] at hlen
        have hc : c ≠ '0' := by
          rintro rfl
          have := hzero rfl
          rw [List.length_cons] at this
          omega
        have hpow := pow_le_ofDigitChars hp hc
        have hmono : 10 ^ 3 ≤ 10 ^ p.length := Nat.pow_le_pow_right (by decide) (by omega)
        omega
    · exact hlen (hzero hhead)

/-! ## What is accepted -/

/-- A text that is counted has digits and marks only. -/
theorem countMarks_eq_some {digit : Char → Bool} {mark : Char} (hmark : digit mark = false)
    {s : List Char} {flag n : ℕ} : countMarks digit mark s flag = some n
      ↔ (∀ c ∈ s, digit c ∨ c = mark) ∧ n = flag + s.count mark := by
  induction s generalizing flag with
  | nil =>
    rw [countMarks, List.count_nil, Option.some_inj, Nat.add_zero]
    exact ⟨fun h => ⟨fun c hc => absurd hc List.not_mem_nil, h.symm⟩, fun h => h.2.symm⟩
  | cons c s ih =>
    rw [countMarks]
    by_cases hdigit : digit c
    · have hne : c ≠ mark := by
        rintro rfl
        rw [hmark] at hdigit
        cases hdigit
      rw [if_pos hdigit, ih, List.count_cons_of_ne hne, List.forall_mem_cons,
        and_iff_right (Or.inl hdigit)]
    · rw [if_neg hdigit]
      by_cases heq : c = mark
      · subst heq
        rw [if_pos rfl, ih, List.count_cons_self, List.forall_mem_cons,
          and_iff_right (Or.inr rfl)]
        refine and_congr_right fun _ => ?_
        omega
      · rw [if_neg heq]
        constructor
        · intro h
          cases h
        · rintro ⟨h, -⟩
          exact absurd (h c List.mem_cons_self) (not_or.mpr ⟨hdigit, heq⟩)

theorem countDots_eq_some {s : List Char} {flag n : ℕ} :
    countDots s flag = some n ↔ (∀ c ∈ s, c.isDigit ∨ c = '.') ∧ n = flag + s.count '.' :=
  countMarks_eq_some (by decide)

/-- Four numbers with single dots between them. -/
def IpText (s : List Char) : Prop :=
  ∃ p₁ p₂ p₃ p₄, IpNumber p₁ ∧ IpNumber p₂ ∧ IpNumber p₃ ∧ IpNumber p₄
    ∧ s = p₁ ++ '.' :: (p₂ ++ '.' :: (p₃ ++ '.' :: p₄))

theorem IpNumber.length_le {p : List Char} (h : IpNumber p) : p.length ≤ 3 := by
  have hok := (partOk_iff h.2.1 h.1).mpr h
  by_contra hlen
  exact hok (Or.inr (Or.inl (by omega)))

theorem IpNumber.dot_notMem {p : List Char} (h : IpNumber p) : '.' ∉ p := by
  intro hmem
  exact absurd (h.2.1 _ hmem) (by decide)

theorem IpNumber.chars {p : List Char} (h : IpNumber p) : ∀ c ∈ p, c.isDigit ∨ c = '.' :=
  fun c hc => Or.inl (h.2.1 c hc)

theorem IpText.length_le {s : List Char} (h : IpText s) : s.length ≤ 15 := by
  obtain ⟨p₁, p₂, p₃, p₄, h₁, h₂, h₃, h₄, rfl⟩ := h
  have l₁ := h₁.length_le
  have l₂ := h₂.length_le
  have l₃ := h₃.length_le
  have l₄ := h₄.length_le
  simp only [List.length_append, List.length_cons]
  omega

theorem IpText.countDots_eq {s : List Char} (h : IpText s) : countDots s 0 = some 3 := by
  obtain ⟨p₁, p₂, p₃, p₄, h₁, h₂, h₃, h₄, rfl⟩ := h
  rw [countDots_eq_some]
  constructor
  · simp only [List.forall_mem_append, List.forall_mem_cons]
    exact ⟨h₁.chars, Or.inr trivial, h₂.chars, Or.inr trivial, h₃.chars, Or.inr trivial, h₄.chars⟩
  · simp only [List.count_append, List.count_cons_self, List.count_eq_zero_of_not_mem h₁.dot_notMem,
      List.count_eq_zero_of_not_mem h₂.dot_notMem, List.count_eq_zero_of_not_mem h₃.dot_notMem,
      List.count_eq_zero_of_not_mem h₄.dot_notMem]

/-- A text is accepted exactly if it is four numbers up to 255, without leading zeros, with single
dots between them. -/
theorem os_check_ip_addr_iff (s : List Char) : osCheckIpAddr s = 0 ↔ IpText s := by
  constructor
  · intro h
    rw [osCheckIpAddr] at h
    split at h
    · exact absurd h (by decide)
    split at h
    · exact absurd h (by decide)
    rename_i flag hflag
    split at h
    · exact absurd h (by decide)
    rename_i hthree
    obtain ⟨hchars, hcount⟩ := countDots_eq_some.mp hflag
    obtain ⟨p, ps, hjoined, hlen, hparts⟩ := exists_parts s
    rw [← hjoined, checkParts_joined (p :: ps) (by rw [List.length_cons]; omega)
      (by rw [List.length_cons]; omega) fun q hq => (hparts q hq).1] at h
    have hnumber : ∀ q ∈ p :: ps, IpNumber q := by
      intro q hq
      have hdigits : Digits q := by
        intro c hc
        have hne : c ≠ '.' := by
          rintro rfl
          exact (hparts q hq).1 hc
        exact (hchars c ((hparts q hq).2 c hc)).resolve_right hne
      exact (partOk_iff hdigits (h.2 q hq).1).mp (h.2 q hq).2
    obtain ⟨q, r, t, rfl⟩ := List.length_eq_three.mp (show ps.length = 3 by omega)
    refine ⟨p, q, r, t, hnumber p (by simp), hnumber q (by simp), hnumber r (by simp),
      hnumber t (by simp), ?_⟩
    exact (Option.some.inj hjoined).symm
  · intro h
    have hlen := h.length_le
    have hcount := h.countDots_eq
    obtain ⟨p₁, p₂, p₃, p₄, h₁, h₂, h₃, h₄, rfl⟩ := h
    rw [osCheckIpAddr, if_neg (by omega), hcount]
    dsimp only
    rw [if_neg (fun h => h rfl)]
    have hjoined : joined [p₁, p₂, p₃, p₄]
        = some (p₁ ++ '.' :: (p₂ ++ '.' :: (p₃ ++ '.' :: p₄))) := rfl
    have hall : ∀ p ∈ [p₁, p₂, p₃, p₄], IpNumber p := by
      simp only [List.forall_mem_cons]
      exact ⟨h₁, h₂, h₃, h₄, fun p hp => absurd hp List.not_mem_nil⟩
    rw [← hjoined, checkParts_joined _ (Nat.le_refl 4) (show 4 < 17 by decide)
      fun p hp => (hall p hp).dot_notMem]
    refine ⟨rfl, fun p hp => ?_⟩
    have hnumber := hall p hp
    exact ⟨hnumber.1, (partOk_iff hnumber.2.1 hnumber.1).mpr hnumber⟩

/-! ## `os_check_mac_addr` -/

def isHexDigit (c : Char) : Bool :=
  c.isDigit || decide ('a' ≤ c ∧ c ≤ 'f') || decide ('A' ≤ c ∧ c ≤ 'F')

/-- The loop of `os_check_mac_addr`. -/
def countColons : (buf : List Char) → (flag : ℕ) → Option ℕ := countMarks isHexDigit ':'

/-- `os_check_mac_addr`; `none` is `NULL`. -/
def osCheckMacAddr : (macaddr : Option (List Char)) → ℤ
  | none => -1
  | some macaddr =>
      if macaddr.length ≠ 17 then -1
      else
        match countColons macaddr 0 with
        | none => -1
        | some flag =>
            if flag ≠ 5 then -1
            else if macaddr[2]? ≠ some ':' ∨ macaddr[5]? ≠ some ':' ∨ macaddr[8]? ≠ some ':'
                ∨ macaddr[11]? ≠ some ':' ∨ macaddr[14]? ≠ some ':' then -1
            else 0

/-- The value of one digit in `_os_mac2int`; at another character `n` is kept. -/
def hexNibble (c : Char) (n : ℕ) : ℕ :=
  if 48 ≤ c.toNat ∧ c.toNat ≤ 57 then c.toNat - 48
  else if 65 ≤ c.toNat ∧ c.toNat ≤ 70 then c.toNat - 55
  else if 97 ≤ c.toNat then c.toNat - 87
  else n

/-- The loop of `_os_mac2int`, which goes on by three characters; behind the text the terminator
is read. -/
def osMac2intLoop : (macaddr : List Char) → (n₁ n₂ : ℕ) → List ℕ
  | [], _, _ => []
  | [c], n₁, n₂ => [hexNibble c n₁ * 16 + hexNibble '\x00' n₂]
  | [c, d], n₁, n₂ => [hexNibble c n₁ * 16 + hexNibble d n₂]
  | c :: d :: _ :: rest, n₁, n₂ =>
      (hexNibble c n₁ * 16 + hexNibble d n₂) :: osMac2intLoop rest (hexNibble c n₁) (hexNibble d n₂)

/-- `_os_mac2int`: what it stores in `p`. -/
def osMac2int (macaddr : List Char) : List ℕ := osMac2intLoop macaddr 0 0

/-! ## Pairs with colons between them -/

/-- Pairs of characters, with colons between the pairs. -/
def macJoin : List (Char × Char) → List Char
  | [] => []
  | [g] => [g.1, g.2]
  | g :: h :: gs => g.1 :: g.2 :: ':' :: macJoin (h :: gs)

/-- Six pairs of hexadecimal digits with colons between them. -/
def MacText (s : List Char) : Prop :=
  ∃ gs : List (Char × Char), gs.length = 6 ∧ (∀ g ∈ gs, isHexDigit g.1 ∧ isHexDigit g.2)
    ∧ s = macJoin gs

/-- A byte as two hexadecimal digits in lower case. -/
def hexPair (b : ℕ) : Char × Char := (Nat.digitChar (b / 16), Nat.digitChar (b % 16))

theorem macJoin_map_toLower (gs : List (Char × Char)) :
    (macJoin gs).map Char.toLower = macJoin (gs.map fun g => (g.1.toLower, g.2.toLower)) := by
  induction gs with
  | nil => rfl
  | cons g gs ih =>
    cases gs with
    | nil => rfl
    | cons h gs =>
      rw [macJoin, List.map_cons, List.map_cons, List.map_cons, ih]
      rfl

/-- The characters of the pairs, and the colons between them. -/
theorem count_macJoin (g : Char × Char) (gs : List (Char × Char)) :
    (macJoin (g :: gs)).count ':'
      = gs.length + ((g :: gs).flatMap fun g => [g.1, g.2]).count ':' := by
  induction gs generalizing g with
  | nil => rw [List.length_nil, Nat.zero_add]; rfl
  | cons h gs ih =>
    rw [List.flatMap_cons, List.count_append, macJoin, List.length_cons]
    have hsplit : (g.1 :: g.2 :: ':' :: macJoin (h :: gs)).count ':'
        = [g.1, g.2].count ':' + (':' :: macJoin (h :: gs)).count ':' := by
      rw [← List.count_append]
      rfl
    rw [hsplit, List.count_cons_self, ih]
    omega

theorem mem_macJoin {g : Char × Char} {gs : List (Char × Char)} (hg : g ∈ gs) :
    g.1 ∈ macJoin gs ∧ g.2 ∈ macJoin gs := by
  induction gs with
  | nil => cases hg
  | cons h gs ih =>
    cases gs with
    | nil =>
      cases List.mem_singleton.mp hg
      simp [macJoin]
    | cons k gs =>
      rw [macJoin]
      cases hg with
      | head => simp
      | tail _ hg =>
        have htail := ih hg
        simp [htail.1, htail.2]

/-- Nothing but the pairs and the colons is there. -/
theorem of_mem_macJoin {c : Char} {gs : List (Char × Char)} (hc : c ∈ macJoin gs) :
    (∃ g ∈ gs, c = g.1 ∨ c = g.2) ∨ c = ':' := by
  induction gs with
  | nil => cases hc
  | cons g gs ih =>
    have hcase : c = g.1 ∨ c = g.2 ∨ c = ':' ∨ c ∈ macJoin gs := by
      cases gs with
      | nil =>
        rw [macJoin, List.mem_cons, List.mem_singleton] at hc
        exact hc.imp_right Or.inl
      | cons h gs => simpa [macJoin] using hc
    rcases hcase with h | h | h | h
    · exact Or.inl ⟨g, List.mem_cons_self, Or.inl h⟩
    · exact Or.inl ⟨g, List.mem_cons_self, Or.inr h⟩
    · exact Or.inr h
    · refine (ih h).imp_left ?_
      rintro ⟨k, hk, hck⟩
      exact ⟨k, List.mem_cons_of_mem _ hk, hck⟩

/-- Seventeen characters with colons at the five places are six pairs. -/
theorem exists_macJoin {s : List Char} (hlen : s.length = 17) (h₂ : s[2]? = some ':')
    (h₅ : s[5]? = some ':') (h₈ : s[8]? = some ':') (h₁₁ : s[11]? = some ':')
    (h₁₄ : s[14]? = some ':') : ∃ gs, gs.length = 6 ∧ s = macJoin gs := by
  match s, hlen with
  | [a₁, b₁, c₁, a₂, b₂, c₂, a₃, b₃, c₃, a₄, b₄, c₄, a₅, b₅, c₅, a₆, b₆], _ =>
    cases h₂
    cases h₅
    cases h₈
    cases h₁₁
    cases h₁₄
    exact ⟨[(a₁, b₁), (a₂, b₂), (a₃, b₃), (a₄, b₄), (a₅, b₅), (a₆, b₆)], rfl, rfl⟩

/-! ## Reading the pairs -/

theorem isHexDigit_lt {c : Char} (hc : isHexDigit c) : c.toNat < 128 := by
  rw [isHexDigit, Bool.or_eq_true, Bool.or_eq_true, decide_eq_true_iff, decide_eq_true_iff,
    Char.isDigit_iff_toNat] at hc
  rcases hc with (⟨-, h⟩ | ⟨-, h⟩) | ⟨-, h⟩
  · have h9 : c.toNat ≤ 57 := h
    omega
  · have hf : c.toNat ≤ 102 := h
    omega
  · have hF : c.toNat ≤ 70 := h
    omega

/-- What `_os_mac2int` makes of a hexadecimal digit does not depend on the digit before, and is
printed as the digit in lower case. -/
theorem hexNibble_eq {c : Char} (hc : isHexDigit c) (n : ℕ) :
    hexNibble c n < 16 ∧ Nat.digitChar (hexNibble c n) = c.toLower := by
  have hall : ∀ k < 128, isHexDigit (Char.ofNat k) → hexNibble (Char.ofNat k) 0 < 16
      ∧ Nat.digitChar (hexNibble (Char.ofNat k) 0) = (Char.ofNat k).toLower
      ∧ (48 ≤ (Char.ofNat k).toNat ∧ (Char.ofNat k).toNat ≤ 57
        ∨ 65 ≤ (Char.ofNat k).toNat ∧ (Char.ofNat k).toNat ≤ 70
        ∨ 97 ≤ (Char.ofNat k).toNat) := by
    decide +kernel
  have h := hall c.toNat (isHexDigit_lt hc)
  rw [Char.ofNat_toNat] at h
  obtain ⟨hlt, hprint, hrange⟩ := h hc
  have hsame : hexNibble c n = hexNibble c 0 := by
    rw [hexNibble, hexNibble]
    rcases hrange with h | h | h
    · rw [if_pos h, if_pos h]
    · rw [if_pos h, if_pos h]
    · rw [if_pos h, if_pos h]
  rw [hsame]
  exact ⟨hlt, hprint⟩

/-- Each pair is one byte, and the byte prints as the pair in lower case. -/
theorem osMac2intLoop_macJoin {gs : List (Char × Char)}
    (hgs : ∀ g ∈ gs, isHexDigit g.1 ∧ isHexDigit g.2) (n₁ n₂ : ℕ) :
    (osMac2intLoop (macJoin gs) n₁ n₂).map hexPair
        = gs.map (fun g => (g.1.toLower, g.2.toLower))
      ∧ ∀ b ∈ osMac2intLoop (macJoin gs) n₁ n₂, b < 256 := by
  induction gs generalizing n₁ n₂ with
  | nil => exact ⟨rfl, fun b hb => absurd hb List.not_mem_nil⟩
  | cons g gs ih =>
    obtain ⟨hg, hrest⟩ := List.forall_mem_cons.mp hgs
    obtain ⟨hlt₁, hprint₁⟩ := hexNibble_eq hg.1 n₁
    obtain ⟨hlt₂, hprint₂⟩ := hexNibble_eq hg.2 n₂
    have hbyte : hexNibble g.1 n₁ * 16 + hexNibble g.2 n₂ < 256 := by omega
    have hpair : hexPair (hexNibble g.1 n₁ * 16 + hexNibble g.2 n₂)
        = (g.1.toLower, g.2.toLower) := by
      have hdiv : (hexNibble g.1 n₁ * 16 + hexNibble g.2 n₂) / 16 = hexNibble g.1 n₁ := by omega
      have hmod : (hexNibble g.1 n₁ * 16 + hexNibble g.2 n₂) % 16 = hexNibble g.2 n₂ := by omega
      rw [hexPair, hdiv, hmod, hprint₁, hprint₂]
    cases gs with
    | nil =>
      rw [macJoin, osMac2intLoop, List.map_cons, List.map_cons, hpair]
      exact ⟨rfl, fun b hb => List.mem_singleton.mp hb ▸ hbyte⟩
    | cons h gs =>
      obtain ⟨hmap, hsmall⟩ := ih hrest (hexNibble g.1 n₁) (hexNibble g.2 n₂)
      rw [macJoin, osMac2intLoop, List.map_cons, List.map_cons, hpair, hmap]
      exact ⟨rfl, List.forall_mem_cons.mpr ⟨hbyte, hsmall⟩⟩

/-- Only pairs of hexadecimal digits with colons between them are accepted. -/
theorem macText_of_osCheckMacAddr {s : List Char} (h : osCheckMacAddr (some s) = 0) :
    MacText s := by
  rw [osCheckMacAddr] at h
  split at h
  · exact absurd h (by decide)
  rename_i hlen
  split at h
  · exact absurd h (by decide)
  rename_i flag hflag
  split at h
  · exact absurd h (by decide)
  rename_i hfive
  split at h
  · exact absurd h (by decide)
  rename_i hplaces
  rw [not_or, not_or, not_or, not_or, not_not, not_not, not_not, not_not, not_not] at hplaces
  obtain ⟨h₂, h₅, h₈, h₁₁, h₁₄⟩ := hplaces
  obtain ⟨hchars, hcount⟩ := (countMarks_eq_some (by decide)).mp hflag
  obtain ⟨gs, hsix, rfl⟩ := exists_macJoin (not_not.mp hlen) h₂ h₅ h₈ h₁₁ h₁₄
  -- five colons stand between the pairs, so none is in a pair
  have hnone : (gs.flatMap fun g => [g.1, g.2]).count ':' = 0 := by
    cases gs with
    | nil => rfl
    | cons g gs =>
      have hall := count_macJoin g gs
      rw [List.length_cons] at hsix
      omega
  have hhex : ∀ g ∈ gs, ∀ c ∈ [g.1, g.2], c ∈ macJoin gs → isHexDigit c := by
    intro g hg c hc hmem
    refine (hchars c hmem).resolve_right ?_
    rintro rfl
    exact List.count_eq_zero.mp hnone (List.mem_flatMap.mpr ⟨g, hg, hc⟩)
  refine ⟨gs, hsix, fun g hg => ⟨?_, ?_⟩, rfl⟩
  · exact hhex g hg g.1 List.mem_cons_self (mem_macJoin hg).1
  · exact hhex g hg g.2 (List.mem_cons_of_mem _ List.mem_cons_self) (mem_macJoin hg).2

/-- Six pairs of hexadecimal digits with colons between them are accepted. -/
theorem MacText.accepted {s : List Char} (h : MacText s) : osCheckMacAddr (some s) = 0 := by
  obtain ⟨gs, hsix, hhex, rfl⟩ := h
  have hchars : ∀ c ∈ macJoin gs, isHexDigit c ∨ c = ':' := by
    intro c hc
    rcases of_mem_macJoin hc with ⟨g, hg, rfl | rfl⟩ | hcolon
    · exact Or.inl (hhex g hg).1
    · exact Or.inl (hhex g hg).2
    · exact Or.inr hcolon
  have hnone : ':' ∉ gs.flatMap fun g => [g.1, g.2] := by
    intro hmem
    obtain ⟨g, hg, hc⟩ := List.mem_flatMap.mp hmem
    have hcolon : ¬isHexDigit ':' := by decide
    rw [List.mem_cons, List.mem_singleton] at hc
    rcases hc with hc | hc
    · exact hcolon (hc ▸ (hhex g hg).1)
    · exact hcolon (hc ▸ (hhex g hg).2)
  have hcount : countColons (macJoin gs) 0 = some 5 := by
    refine (countMarks_eq_some (by decide)).mpr ⟨hchars, ?_⟩
    cases gs with
    | nil => cases hsix
    | cons g gs =>
      rw [List.length_cons] at hsix
      rw [count_macJoin, List.count_eq_zero.mpr hnone]
      omega
  match gs, hsix, hcount with
  | [g₁, g₂, g₃, g₄, g₅, g₆], _, hcount =>
    rw [osCheckMacAddr, if_neg (fun h => h rfl), hcount]
    dsimp only
    rw [if_neg (fun h => h rfl)]
    rfl

theorem os_check_mac_addr_iff (s : List Char) : osCheckMacAddr (some s) = 0 ↔ MacText s :=
  ⟨macText_of_osCheckMacAddr, MacText.accepted⟩

/-- Only six pairs of hexadecimal digits with colons between them are accepted, and the bytes read
from them print as the text, up to letter case. -/
theorem os_mac_addr_exact (s : List Char) (h : osCheckMacAddr (some s) = 0) :
    MacText s ∧ (osMac2int s).length = 6 ∧ (∀ b ∈ osMac2int s, b < 256)
      ∧ macJoin ((osMac2int s).map hexPair) = s.map Char.toLower := by
  have htext := (os_check_mac_addr_iff s).mp h
  obtain ⟨gs, hsix, hhex, rfl⟩ := id htext
  obtain ⟨hmap, hsmall⟩ := osMac2intLoop_macJoin hhex 0 0
  refine ⟨htext, ?_, hsmall, ?_⟩
  · have hlen := congrArg List.length hmap
    rw [List.length_map, List.length_map, hsix] at hlen
    exact hlen
  · rw [osMac2int, hmap, macJoin_map_toLower]

theorem os_mac_addr_mixed_case : osCheckMacAddr (some "00:1a:2B:ff:FF:9C".toList) = 0
    ∧ osMac2int "00:1a:2B:ff:FF:9C".toList = [0, 26, 43, 255, 255, 156]
    ∧ macJoin ((osMac2int "00:1a:2B:ff:FF:9C".toList).map hexPair)
      = "00:1a:2B:ff:FF:9C".toList.map Char.toLower :=
  have h : osCheckMacAddr (some "00:1a:2B:ff:FF:9C".toList) = 0 := by decide +kernel
  ⟨h, by decide +kernel, (os_mac_addr_exact _ h).2.2.2⟩
