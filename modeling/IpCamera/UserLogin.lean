/-
# Remote login (`AuthCallBackFn`, `tutk_Server.c`)

The user array is a table of 16 entries in memory; a name and a password are fields
of 32 bytes, and the strings in them are compared by `strcmp`.  The search ends at
the first entry whose name equals the account, or behind the table; the password of
that place decides.

So an unknown account reads behind the table, and the empty account finds an unused
entry: `login_exact_iff` says for which tables, accounts and passwords the function
does what a login should.
-/
import IpCamera.ByteMemory

/-! ## Strings in memory -/

/-- `strcmp(m + a, s) == 0`; `s` is given without its terminator. -/
def strEq (m : Mem) (a : ℕ) : List UInt8 → Bool
  | [] => m a = 0
  | c :: cs => m a = c ∧ strEq m (a + 1) cs

/-- How many bytes of `m` this `strcmp` reads. -/
def strReads (m : Mem) (a : ℕ) : List UInt8 → ℕ
  | [] => 1
  | c :: cs => if m a = c then 1 + strReads m (a + 1) cs else 1

/-- The string in the `n` bytes of a field. -/
def fieldString (m : Mem) (a n : ℕ) : List UInt8 := (loadBytes m a n).takeWhile (· ≠ 0)

theorem strReads_pos (m : Mem) (a : ℕ) (s : List UInt8) : 0 < strReads m a s := by
  cases s with
  | nil => exact Nat.one_pos
  | cons c cs =>
    unfold strReads
    split
    · omega
    · exact Nat.one_pos

theorem strEq_iff (m : Mem) (s : List UInt8) :
    ∀ a, strEq m a s = true ↔ loadBytes m a s.length = s ∧ m (a + s.length) = 0 := by
  induction s with
  | nil =>
    intro a
    simp [strEq, loadBytes]
  | cons c cs ih =>
    intro a
    have hload : loadBytes m a (cs.length + 1) = m a :: loadBytes m (a + 1) cs.length := by
      have h := loadBytes_add m a 1 cs.length
      rw [Nat.add_comm 1 cs.length] at h
      rw [h]
      rfl
    have hend : a + (cs.length + 1) = a + 1 + cs.length := by omega
    rw [List.length_cons, hload, hend, strEq]
    simp only [Bool.decide_and, Bool.and_eq_true, decide_eq_true_eq, ih, List.cons.injEq]
    tauto

/-- A string that fits the field is its content if it compares equal. -/
theorem fieldString_of_strEq {m : Mem} {a n : ℕ} {s : List UInt8} (hs : ∀ c ∈ s, c ≠ 0)
    (hlen : s.length ≤ n) (h : strEq m a s = true) : fieldString m a n = s := by
  obtain ⟨hload, hend⟩ := (strEq_iff m s a).mp h
  unfold fieldString
  obtain ⟨k, rfl⟩ : ∃ k, n = s.length + k := ⟨n - s.length, by omega⟩
  rw [loadBytes_add, hload, List.takeWhile_append_of_pos (by simpa using hs)]
  cases k with
  | zero => simp [loadBytes]
  | succ k =>
    have hcons : loadBytes m (a + s.length) (k + 1)
        = m (a + s.length) :: loadBytes m (a + s.length + 1) k := by
      have hsplit := loadBytes_add m (a + s.length) 1 k
      rw [Nat.add_comm 1 k] at hsplit
      rw [hsplit]
      rfl
    rw [hcons, List.takeWhile_cons_of_neg (by simp [hend]), List.append_nil]

theorem fieldString_length_le (m : Mem) (a n : ℕ) : (fieldString m a n).length ≤ n := by
  have h := (List.takeWhile_sublist (· ≠ 0) (l := loadBytes m a n)).length_le
  rwa [loadBytes_length] at h

/-! ## The function -/

/-- `MAX_USER_NUM` -/
def maxUserNum : ℕ := 16
/-- `MAX_USER_NAME_LEN` -/
def maxUserNameLen : ℕ := 32
/-- `MAX_PASSWD_LEN` -/
def maxPasswdLen : ℕ := 32
/-- `sizeof(sdk_user_right_t)`: the user, two words of rights and two arrays of `MAX_CHANN_NUM`
bytes. -/
def sizeofUserRight : ℕ := maxUserNameLen + maxPasswdLen + 4 + 4 + 2 + 2
/-- `sizeof(user_array)` -/
def sizeofUserArray : ℕ := maxUserNum * sizeofUserRight

/-- `user_array[i].user.user_name` -/
def userName (i : ℕ) : ℕ := i * sizeofUserRight
/-- `user_array[i].user.user_pwd` -/
def userPwd (i : ℕ) : ℕ := i * sizeofUserRight + maxUserNameLen

/-- `"admin"` -/
def admin : List UInt8 := [0x61, 0x64, 0x6d, 0x69, 0x6e]

/-- The last `left` passes of the search, from entry `i` on. -/
def findUser (m : Mem) (viewAcc : List UInt8) : ℕ → ℕ → ℕ
  | 0, i => i
  | left + 1, i => if strEq m (userName i) viewAcc = true then i else findUser m viewAcc left (i + 1)

/-- The array the search runs over: the one read first, or, if its first user is not admin, the one
read again after the default user has been set.  Bytes from `sizeofUserArray` on are whatever lies
behind the array. -/
def loginTable (userArray reread : Mem) : Mem :=
  if strEq userArray (userName 0) admin = true then userArray else reread

/-- `AuthCallBackFn` -/
def authCallBackFn (userArray reread : Mem) (viewAcc viewPwd : List UInt8) : ℤ :=
  let m := loginTable userArray reread
  let i := findUser m viewAcc maxUserNum 0
  if strEq m (userPwd i) viewPwd = true then 1 else 0

/-- Byte `x` belongs to the string at `a`, its terminator included. -/
def InString (m : Mem) (a x : ℕ) : Prop := a ≤ x ∧ ∀ y, a ≤ y → y < x → m y ≠ 0

/-- `AuthCallBackFn` reads byte `x` of the array: to print the first user, to compare its name with
admin, in the search, or to compare the password. -/
def AuthReads (m : Mem) (viewAcc viewPwd : List UInt8) (x : ℕ) : Prop :=
  let i := findUser m viewAcc maxUserNum 0
  InString m (userName 0) x ∨ InString m (userPwd 0) x
    ∨ (userName 0 ≤ x ∧ x < userName 0 + strReads m (userName 0) admin)
    ∨ (∃ j < maxUserNum, j ≤ i ∧ userName j ≤ x ∧ x < userName j + strReads m (userName j) viewAcc)
    ∨ (userPwd i ≤ x ∧ x < userPwd i + strReads m (userPwd i) viewPwd)

/-! ## What a login should be -/

/-- Some configured entry has exactly this name and this password. -/
def ConfiguredUser (m : Mem) (viewAcc viewPwd : List UInt8) : Prop :=
  ∃ i < maxUserNum, fieldString m (userName i) maxUserNameLen ≠ []
    ∧ fieldString m (userName i) maxUserNameLen = viewAcc
    ∧ fieldString m (userPwd i) maxPasswdLen = viewPwd

/-- Only the table is read, and access is granted exactly to configured users. -/
structure LoginExact (userArray reread : Mem) (viewAcc viewPwd : List UInt8) : Prop where
  reads : ∀ x, AuthReads userArray viewAcc viewPwd x → x < sizeofUserArray
  grants : authCallBackFn userArray reread viewAcc viewPwd = 1
    ↔ ConfiguredUser userArray viewAcc viewPwd

/-- Entry `i` is the first whose name compares equal to the account. -/
structure FirstMatch (m : Mem) (viewAcc : List UInt8) (i : ℕ) : Prop where
  lt : i < maxUserNum
  here : strEq m (userName i) viewAcc = true
  before : ∀ j < i, strEq m (userName j) viewAcc = false

/-- The first password, the names up to entry `i` and its password end, or differ, inside the
array. -/
structure InsideTable (m : Mem) (viewAcc viewPwd : List UInt8) (i : ℕ) : Prop where
  first : ∃ x, userPwd 0 ≤ x ∧ x < sizeofUserArray ∧ m x = 0
  names : ∀ j ≤ i, userName j + strReads m (userName j) viewAcc ≤ sizeofUserArray
  pwd : userPwd i + strReads m (userPwd i) viewPwd ≤ sizeofUserArray

/-- The account is the name of an entry, the first one `i`; the comparisons stay inside the array;
and a proper account finds its password at entry `i` if it has one, while the empty account, or a
string longer than its field, does not. -/
def LoginProper (m : Mem) (viewAcc viewPwd : List UInt8) : Prop :=
  ∃ i, FirstMatch m viewAcc i ∧ InsideTable m viewAcc viewPwd i
    ∧ if viewAcc ≠ [] ∧ viewAcc.length ≤ maxUserNameLen ∧ viewPwd.length ≤ maxPasswdLen then
        ∀ j < maxUserNum, fieldString m (userName j) maxUserNameLen = viewAcc →
          fieldString m (userPwd j) maxPasswdLen = viewPwd → strEq m (userPwd i) viewPwd = true
      else strEq m (userPwd i) viewPwd = false

/-! ## The search -/

section Search

variable {m : Mem} {viewAcc viewPwd : List UInt8}

/-- The search stops at the first match, or behind the table. -/
theorem findUser_spec (left : ℕ) : ∀ i, i + left = maxUserNum →
    (∀ j < i, strEq m (userName j) viewAcc = false) →
      FirstMatch m viewAcc (findUser m viewAcc left i)
        ∨ (findUser m viewAcc left i = maxUserNum
          ∧ ∀ j < maxUserNum, strEq m (userName j) viewAcc = false) := by
  induction left with
  | zero =>
    intro i hi hbefore
    obtain rfl : i = maxUserNum := hi
    exact Or.inr ⟨rfl, hbefore⟩
  | succ left ih =>
    intro i hi hbefore
    unfold findUser
    by_cases hhere : strEq m (userName i) viewAcc = true
    · rw [if_pos hhere]
      exact Or.inl ⟨by omega, hhere, hbefore⟩
    · rw [if_neg hhere]
      apply ih (i + 1) (by omega)
      intro j hj
      rcases Nat.lt_succ_iff_lt_or_eq.mp hj with hj | rfl
      · exact hbefore j hj
      · simpa using hhere

theorem FirstMatch.unique {i j : ℕ} (hi : FirstMatch m viewAcc i) (hj : FirstMatch m viewAcc j) :
    i = j := by
  rcases lt_trichotomy i j with hlt | heq | hlt
  · have := hj.before i hlt
    rw [hi.here] at this
    cases this
  · exact heq
  · have := hi.before j hlt
    rw [hj.here] at this
    cases this

/-- An unknown account reads behind the table. -/
theorem reads_behind (hnone : findUser m viewAcc maxUserNum 0 = maxUserNum) :
    ∃ x, AuthReads m viewAcc viewPwd x ∧ sizeofUserArray ≤ x := by
  refine ⟨userPwd maxUserNum, ?_, by decide⟩
  unfold AuthReads
  rw [hnone]
  have hpos := strReads_pos m (userPwd maxUserNum) viewPwd
  exact Or.inr (Or.inr (Or.inr (Or.inr ⟨le_rfl, by omega⟩)))

/-- Staying inside the array, for an account that is found. -/
theorem reads_inside_iff {i : ℕ} (hi : FirstMatch m viewAcc i)
    (hfind : findUser m viewAcc maxUserNum 0 = i) :
    (∀ x, AuthReads m viewAcc viewPwd x → x < sizeofUserArray)
      ↔ InsideTable m viewAcc viewPwd i := by
  have hpos := strReads_pos m
  constructor
  · intro h
    unfold AuthReads at h
    rw [hfind] at h
    refine ⟨?_, ?_, ?_⟩
    · -- otherwise the string at the first password covers the byte behind the array
      by_contra hnone
      push Not at hnone
      have hin : InString m (userPwd 0) sizeofUserArray :=
        ⟨by decide, fun y h₁ h₂ => hnone y h₁ h₂⟩
      exact lt_irrefl _ (h _ (Or.inr (Or.inl hin)))
    · intro j hj
      have hj' := hpos (userName j) viewAcc
      have hlast := h (userName j + strReads m (userName j) viewAcc - 1)
        (Or.inr (Or.inr (Or.inr (Or.inl ⟨j, hj.trans_lt hi.lt, hj, by omega, by omega⟩))))
      omega
    · have hi' := hpos (userPwd i) viewPwd
      have hlast := h (userPwd i + strReads m (userPwd i) viewPwd - 1)
        (Or.inr (Or.inr (Or.inr (Or.inr ⟨by omega, by omega⟩))))
      omega
  · intro h x hx
    obtain ⟨z, hz₁, hz₂, hz₃⟩ := h.first
    unfold AuthReads at hx
    rw [hfind] at hx
    have hstring : ∀ a, a ≤ z → InString m a x → x < sizeofUserArray := by
      intro a ha hin
      by_contra hge
      exact hin.2 z ha (by omega) hz₃
    rcases hx with hx | hx | hx | ⟨j, -, hj, hx⟩ | hx
    · exact hstring _ (Nat.zero_le _) hx
    · exact hstring _ hz₁ hx
    · -- the name admin ends within its field
      have hreads : strReads m (userName 0) admin ≤ 6 := by
        simp only [admin, strReads]
        split <;> (try split) <;> (try split) <;> (try split) <;> (try split) <;> omega
      have hzero : userName 0 = 0 := rfl
      have hsize : sizeofUserArray = 1216 := rfl
      omega
    · have := h.names j hj
      omega
    · have := h.pwd
      omega

/-- Access, for an account that is found. -/
theorem grants_iff {i : ℕ} (hi : FirstMatch m viewAcc i) (hacc : ∀ c ∈ viewAcc, c ≠ 0)
    (hpwd : ∀ c ∈ viewPwd, c ≠ 0) :
    (strEq m (userPwd i) viewPwd = true ↔ ConfiguredUser m viewAcc viewPwd) ↔
      if viewAcc ≠ [] ∧ viewAcc.length ≤ maxUserNameLen ∧ viewPwd.length ≤ maxPasswdLen then
        ∀ j < maxUserNum, fieldString m (userName j) maxUserNameLen = viewAcc →
          fieldString m (userPwd j) maxPasswdLen = viewPwd → strEq m (userPwd i) viewPwd = true
      else strEq m (userPwd i) viewPwd = false := by
  split
  · rename_i hproper
    -- the first match has the name, and with the password it is the entry
    have hgrant : strEq m (userPwd i) viewPwd = true → ConfiguredUser m viewAcc viewPwd := by
      intro h
      have hname := fieldString_of_strEq hacc hproper.2.1 hi.here
      refine ⟨i, hi.lt, ?_, hname, fieldString_of_strEq hpwd hproper.2.2 h⟩
      rw [hname]
      exact hproper.1
    constructor
    · intro h j hj hname hword
      exact h.mpr ⟨j, hj, by rw [hname]; exact hproper.1, hname, hword⟩
    · intro h
      refine ⟨hgrant, ?_⟩
      rintro ⟨j, hj, -, hname, hword⟩
      exact h j hj hname hword
  · rename_i himproper
    -- no entry has an empty name, or a string longer than its field
    have hnone : ¬ ConfiguredUser m viewAcc viewPwd := by
      rintro ⟨j, -, hne, hname, hword⟩
      refine himproper ⟨?_, ?_, ?_⟩
      · rwa [hname] at hne
      · rw [← hname]
        exact fieldString_length_le _ _ _
      · rw [← hword]
        exact fieldString_length_le _ _ _
    rw [iff_false_right hnone]
    simp

end Search

/-- For every table whose first user is admin, every account and every password: the function reads
the table only, and grants access exactly to configured users, if and only if the login is
proper. -/
theorem login_exact_iff (userArray reread : Mem) (viewAcc viewPwd : List UInt8)
    (hacc : ∀ c ∈ viewAcc, c ≠ 0) (hpwd : ∀ c ∈ viewPwd, c ≠ 0)
    (hadmin : strEq userArray (userName 0) admin = true) :
    LoginExact userArray reread viewAcc viewPwd ↔ LoginProper userArray viewAcc viewPwd := by
  have htable : loginTable userArray reread = userArray := if_pos hadmin
  have hsplit : LoginExact userArray reread viewAcc viewPwd ↔
      (∀ x, AuthReads userArray viewAcc viewPwd x → x < sizeofUserArray)
        ∧ (authCallBackFn userArray reread viewAcc viewPwd = 1
          ↔ ConfiguredUser userArray viewAcc viewPwd) :=
    ⟨fun h => ⟨h.reads, h.grants⟩, fun h => ⟨h.1, h.2⟩⟩
  rw [hsplit]
  have hsearch : FirstMatch userArray viewAcc (findUser userArray viewAcc maxUserNum 0)
      ∨ (findUser userArray viewAcc maxUserNum 0 = maxUserNum
        ∧ ∀ j < maxUserNum, strEq userArray (userName j) viewAcc = false) :=
    findUser_spec maxUserNum 0 (Nat.zero_add _) (fun j hj => absurd hj (Nat.not_lt_zero j))
  obtain hi | ⟨hnone, hall⟩ := hsearch
  · set i := findUser userArray viewAcc maxUserNum 0 with hfind
    have hret : authCallBackFn userArray reread viewAcc viewPwd = 1
        ↔ strEq userArray (userPwd i) viewPwd = true := by
      unfold authCallBackFn
      rw [htable]
      show (if strEq userArray (userPwd i) viewPwd = true then (1 : ℤ) else 0) = 1 ↔ _
      split
      · rename_i h
        exact iff_of_true rfl h
      · rename_i h
        exact iff_of_false (by decide) h
    rw [hret, reads_inside_iff hi hfind.symm, grants_iff hi hacc hpwd]
    constructor
    · rintro ⟨hinside, hproper⟩
      exact ⟨i, hi, hinside, hproper⟩
    · rintro ⟨j, hj, hinside, hproper⟩
      obtain rfl := hi.unique hj
      exact ⟨hinside, hproper⟩
  · -- an unknown account
    constructor
    · rintro ⟨hreads, -⟩
      have hbehind : ∃ x, AuthReads userArray viewAcc viewPwd x ∧ sizeofUserArray ≤ x :=
        reads_behind hnone
      obtain ⟨x, hx, hge⟩ := hbehind
      exact absurd (hreads x hx) (by omega)
    · rintro ⟨i, hi, -⟩
      have := hall i hi.lt
      rw [hi.here] at this
      cases this

/-- A table with one user, admin, whose password is `1`. -/
def sampleUsers : Mem := fun x => if x < 5 then admin.getD x 0 else if x = 32 then 0x31 else 0

theorem login_exact_admin : LoginExact sampleUsers sampleUsers admin [0x31] := by
  apply (login_exact_iff sampleUsers sampleUsers admin [0x31] (by simp [admin]) (by simp)
    (by decide)).mpr
  refine ⟨0, ⟨by decide, by decide, fun j hj => absurd hj (Nat.not_lt_zero j)⟩,
    ⟨⟨33, by decide, by decide, by decide⟩, ?_, by decide⟩, ?_⟩
  · intro j hj
    obtain rfl : j = 0 := Nat.le_zero.mp hj
    decide
  · rw [if_pos (by decide)]
    intro j _ _ _
    decide

/-- The empty account with the empty password is granted access. -/
theorem login_empty_granted :
    strEq sampleUsers (userName 0) admin = true ∧ ¬ LoginExact sampleUsers sampleUsers [] [] := by
  refine ⟨by decide, fun h => ?_⟩
  obtain ⟨i, -, hne, hname, -⟩ := h.grants.mp (by decide)
  exact hne hname
