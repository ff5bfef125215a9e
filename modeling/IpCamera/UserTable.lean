/-
# The user table (`main_msg_user`)

Sixteen entries with a name and a password; an entry without a name is free.  The five
operations search the table with comparisons of their own, and a free entry equals the
empty name in all of them.

The abstract side is a map from names to passwords, changed by the operations that were
accepted.  In every run the table holds exactly this map (`Inv`); `users_as_map_iff` tells
which operations also answer as the map would.
-/
import IpCamera.UserLogin
import IpCamera.GuardedRun

/-! ## The entries -/

/-- A NUL-terminated string in a field of 32 bytes (`MAX_USER_NAME_LEN`, `MAX_PASSWD_LEN`), without
its terminator. -/
structure UserString where
  chars : List UInt8
  nonzero : ∀ c ∈ chars, c ≠ 0
  length_lt : chars.length < 32
  deriving DecidableEq

namespace UserString

/-- The empty string. -/
def empty : UserString := ⟨[], by decide +kernel, by decide +kernel⟩

/-- `"admin"` -/
def root : UserString := ⟨admin, by decide +kernel, by decide +kernel⟩

theorem chars_eq_nil {s : UserString} : s.chars = [] ↔ s = empty := by
  cases s
  simp [empty]

/-- `!memcmp(s, "admin", strlen(s))`; the literal has a terminator too. -/
def memcmpAdmin (s : UserString) : Prop := s.chars = (admin ++ [0]).take s.chars.length

instance (s : UserString) : Decidable s.memcmpAdmin := inferInstanceAs (Decidable (_ = _))

/-- This comparison finds the beginnings of admin, the empty one among them. -/
theorem memcmpAdmin_iff (s : UserString) : s.memcmpAdmin ↔ s.chars <+: admin := by
  unfold memcmpAdmin
  rw [← List.prefix_iff_eq_take, List.prefix_concat_iff]
  constructor
  · rintro (h | h)
    · -- the terminator is no byte of the string
      have hzero : (0 : UInt8) ∈ s.chars := by
        rw [h]
        exact List.mem_append_right _ List.mem_cons_self
      exact absurd rfl (s.nonzero 0 hzero)
    · exact h
  · exact Or.inr

end UserString

/-- `sdk_user_t` -/
structure SdkUser where
  userName : UserString
  userPwd : UserString
  deriving DecidableEq

/-- `sdk_user_right_t` -/
structure UserRight extends SdkUser where
  localRight : UInt32
  remoteRight : UInt32
  localBackupRight : UInt8 × UInt8
  netPreviewRight : UInt8 × UInt8
  deriving DecidableEq

/-- After `memset`. -/
def UserRight.zero : UserRight := ⟨⟨.empty, .empty⟩, 0, 0, (0, 0), (0, 0)⟩

/-- The errors in `pmsg->ack`. -/
inductive UserErr
  | pass
  | userNotExist
  | rootUser
  | tooManyUser
  | userAlreadyExist
  deriving DecidableEq, Repr

/-- `SDK_USER_OP_E`, with what `pmsg->data` holds. -/
inductive UserOp
  | aaa (user : SdkUser)
  | add (userRight : UserRight)
  | del (user : SdkUser)
  | modi (userRight : UserRight)
  | query

/-! ## The operations -/

/-- `user_array`, as the store keeps it. -/
abbrev UserTable := List UserRight

/-- What an operation answers: an error, or the entries in `pmsg->data`. -/
abbrev UserAnswer := Except UserErr (List UserRight)

namespace UserTable

/-- `_msg_user_aaa`; the size of the answer is 0. -/
def msgUserAaa (t : UserTable) (user : SdkUser) : UserAnswer :=
  match t.find? fun e => e.userName = user.userName with
  | some e => if e.userPwd = user.userPwd then .ok [] else .error .pass
  | none => .error .userNotExist

/-- `_msg_user_del` -/
def msgUserDel (t : UserTable) (user : SdkUser) : UserTable × UserAnswer :=
  if user.userName.memcmpAdmin then (t, .error .rootUser)
  else
    match t.findIdx? fun e => e.userName = user.userName ∧ e.userPwd = user.userPwd with
    | some i => (t.set i .zero, .ok [])
    | none => (t, .error .userNotExist)

/-- `_msg_user_add` -/
def msgUserAdd (t : UserTable) (userRight : UserRight) : UserTable × UserAnswer :=
  match t.findIdx? fun e => e.userName = userRight.userName with
  | some _ => (t, .error .userAlreadyExist)
  | none =>
    match t.findIdx? fun e => e.userName.chars.length = 0 with
    | some i => (t.set i userRight, .ok [])
    | none => (t, .error .tooManyUser)

/-- `_msg_user_modif`: of the first entry only the password changes. -/
def msgUserModif (t : UserTable) (userRight : UserRight) : UserTable × UserAnswer :=
  match t.findIdx? fun e => e.userName = userRight.userName with
  | some 0 =>
      (t.modify 0 fun e => { e with userName := .root, userPwd := userRight.userPwd }, .ok [])
  | some (i + 1) => (t.set (i + 1) userRight, .ok [])
  | none => (t, .error .userNotExist)

/-- `_msg_user_query` -/
def msgUserQuery (t : UserTable) : UserAnswer :=
  .ok (t.filter fun e => e.userName.chars.length ≠ 0)

/-- `main_msg_user` -/
def mainMsgUser (t : UserTable) : UserOp → UserTable × UserAnswer
  | .aaa user => (t, t.msgUserAaa user)
  | .add userRight => t.msgUserAdd userRight
  | .del user => t.msgUserDel user
  | .modi userRight => t.msgUserModif userRight
  | .query => (t, t.msgUserQuery)

/-- Slot 0 is admin, the others are empty. -/
def start (root : UserRight) : UserTable :=
  { root with userName := .root } :: List.replicate (maxUserNum - 1) .zero

end UserTable

/-! ## The map -/

/-- The current users with their passwords. -/
abbrev UserMap := UserString → Option UserString

/-- What an operation that has been accepted does to the map; a user that is not there cannot be
modified. -/
def UserMap.accept (m : UserMap) : UserOp → UserMap
  | .add u => Function.update m u.userName (some u.userPwd)
  | .del user => Function.update m user.userName none
  | .modi u => if (m u.userName).isSome then Function.update m u.userName (some u.userPwd) else m
  | .aaa _ | .query => m

/-- The table, and beside it the map of the users that were added and not deleted since. -/
structure UserState where
  table : UserTable
  users : UserMap

namespace UserState

/-- The answer to an operation. -/
def answer (s : UserState) (op : UserOp) : UserAnswer := (s.table.mainMsgUser op).2

/-- The operation is not refused. -/
def Accepts (s : UserState) (op : UserOp) : Prop := ∃ es, s.answer op = .ok es

/-- One operation. -/
def step (s : UserState) (op : UserOp) : UserState where
  table := (s.table.mainMsgUser op).1
  users :=
    match s.answer op with
    | .ok _ => s.users.accept op
    | .error _ => s.users

/-- Admin is the only user. -/
def start (root : UserRight) : UserState where
  table := .start root
  users := Function.update (fun _ => none) .root (some root.userPwd)

/-- The operation behaves as one on a map from names to passwords. -/
structure AsMap (s : UserState) (op : UserOp) : Prop where
  aaa : ∀ user, op = .aaa user → (s.Accepts op ↔ s.users user.userName = some user.userPwd)
  del : ∀ user, op = .del user → user.userName ≠ .root →
    s.users user.userName = some user.userPwd → s.Accepts op
  add : ∀ u, op = .add u → ¬ s.Accepts op → u.userName = .empty ∨ (s.users u.userName).isSome
    ∨ ∀ e ∈ s.table, e.userName ≠ .empty
  query : op = .query → ∃ es, s.answer op = .ok es ∧ (es.map fun e => e.userName).Nodup
    ∧ ∀ n p, s.users n = some p ↔ ∃ e ∈ es, e.userName = n ∧ e.userPwd = p
  refused : ¬ s.Accepts op → (s.step op).table = s.table
  root : ∃ e, (s.step op).table[0]? = some e ∧ e.userName = .root
  distinct : ∀ (i j : ℕ) e e', (s.step op).table[i]? = some e → (s.step op).table[j]? = some e' →
    e.userName = e'.userName → e.userName ≠ .empty → i = j

/-- No login with the empty name and the password of the first free entry, and no current user is
deleted, with the right password, whose name is a beginning of admin. -/
def Meets (s : UserState) : UserOp → Prop
  | .aaa user => user.userName = .empty → ∀ e,
      (s.table.find? fun e => e.userName = .empty) = some e → user.userPwd ≠ e.userPwd
  | .del user => user.userName.chars <+: admin → user.userName ≠ .root →
      s.users user.userName ≠ some user.userPwd
  | _ => True

end UserState

/-! ## The table holds the map -/

namespace UserTable

variable {t : UserTable} {i : ℕ} {old e' : UserRight}

theorem exists_of_findIdx {p : UserRight → Bool} (h : t.findIdx? p = some i) :
    ∃ e, t[i]? = some e ∧ p e = true := by
  obtain ⟨hi, hp, -⟩ := List.findIdx?_eq_some_iff_getElem.mp h
  exact ⟨t[i], List.getElem?_eq_getElem hi, hp⟩

/-- Non-empty names are pairwise distinct. -/
def Distinct (t : UserTable) : Prop :=
  ∀ (i j : ℕ) e e', t[i]? = some e → t[j]? = some e' → e.userName = e'.userName →
    e.userName ≠ .empty → i = j

/-- The name is in the table, with this password. -/
def Holds (t : UserTable) (n p : UserString) : Prop :=
  n ≠ .empty ∧ ∃ e ∈ t, e.userName = n ∧ e.userPwd = p

/-- What an entry is after one has been replaced. -/
theorem getElem_set_cases {j : ℕ} {e : UserRight} (h : (List.set t i e')[j]? = some e) :
    j = i ∧ e = e' ∨ j ≠ i ∧ t[j]? = some e := by
  by_cases hji : j = i
  · subst hji
    rw [List.getElem?_set_self'] at h
    obtain ⟨_, -, he⟩ := Option.map_eq_some_iff.mp h
    exact Or.inl ⟨rfl, he.symm⟩
  · rw [List.getElem?_set_ne (Ne.symm hji)] at h
    exact Or.inr ⟨hji, h⟩

/-- An entry is replaced by one whose name no other entry has. -/
theorem Distinct.set (h : Distinct t) (hfresh : ∀ j e, j ≠ i → t[j]? = some e →
    e.userName = e'.userName → e.userName = .empty) : Distinct (List.set t i e') := by
  intro j l e f hj hl hname hne
  rcases getElem_set_cases hj with ⟨rfl, rfl⟩ | ⟨hji, hj'⟩
  · rcases getElem_set_cases hl with ⟨rfl, -⟩ | ⟨hli, hl'⟩
    · rfl
    · rw [hname] at hne
      exact absurd (hfresh l f hli hl' hname.symm) hne
  · rcases getElem_set_cases hl with ⟨rfl, rfl⟩ | ⟨-, hl'⟩
    · exact absurd (hfresh j e hji hj' hname) hne
    · exact h j l e f hj' hl' hname hne

/-- The users after an entry has been replaced: the new one, and those that the old one was not. -/
theorem Distinct.holds_set (h : Distinct t) (hold : t[i]? = some old) (n p : UserString) :
    Holds (List.set t i e') n p ↔ n ≠ .empty
      ∧ (e'.userName = n ∧ e'.userPwd = p ∨ old.userName ≠ n ∧ Holds t n p) := by
  have hi : i < t.length := (List.getElem?_eq_some_iff.mp hold).1
  constructor
  · rintro ⟨hne, e, he, hname, hpwd⟩
    obtain ⟨j, hj⟩ := List.mem_iff_getElem?.mp he
    rcases getElem_set_cases hj with ⟨-, rfl⟩ | ⟨hji, hj⟩
    · exact ⟨hne, Or.inl ⟨hname, hpwd⟩⟩
    · refine ⟨hne, Or.inr ⟨?_, hne, e, List.mem_of_getElem? hj, hname, hpwd⟩⟩
      intro hn
      exact hji (h j i e old hj hold (hname.trans hn.symm) (by rwa [hname]))
  · rintro ⟨hne, ⟨hname, hpwd⟩ | ⟨hn, -, e, he, hname, hpwd⟩⟩
    · exact ⟨hne, e', List.mem_set hi e', hname, hpwd⟩
    · obtain ⟨j, hj⟩ := List.mem_iff_getElem?.mp he
      have hji : i ≠ j := by
        rintro rfl
        obtain rfl : old = e := Option.some.inj (hold.symm.trans hj)
        exact hn hname
      refine ⟨hne, e, List.mem_of_getElem? (i := j) ?_, hname, hpwd⟩
      rwa [List.getElem?_set_ne hji]

/-! ## What the operations do -/

theorem length_eq_zero_iff {e : UserRight} :
    e.userName.chars.length = 0 ↔ e.userName = .empty := by
  rw [List.length_eq_zero_iff, UserString.chars_eq_nil]

theorem msgUserAdd_cases (t : UserTable) (u : UserRight) :
    ((∃ e ∈ t, e.userName = u.userName) ∧ t.mainMsgUser (.add u) = (t, .error .userAlreadyExist))
      ∨ ((∀ e ∈ t, e.userName ≠ u.userName) ∧ ∃ i old, t[i]? = some old ∧ old.userName = .empty
        ∧ t.mainMsgUser (.add u) = (List.set t i u, .ok []))
      ∨ ((∀ e ∈ t, e.userName ≠ .empty) ∧ t.mainMsgUser (.add u) = (t, .error .tooManyUser)) := by
  simp only [mainMsgUser]
  unfold msgUserAdd
  cases hname : t.findIdx? fun e => e.userName = u.userName with
  | some i =>
    obtain ⟨e, he, hp⟩ := exists_of_findIdx hname
    exact Or.inl ⟨⟨e, List.mem_of_getElem? he, of_decide_eq_true hp⟩, rfl⟩
  | none =>
    have hnew := List.findIdx?_eq_none_iff.mp hname
    cases hfree : t.findIdx? fun e => e.userName.chars.length = 0 with
    | some i =>
      obtain ⟨old, hold, hp⟩ := exists_of_findIdx hfree
      refine Or.inr (Or.inl ⟨fun e he => of_decide_eq_false (hnew e he), i, old, hold, ?_, rfl⟩)
      exact length_eq_zero_iff.mp (of_decide_eq_true hp)
    | none =>
      have hfull := List.findIdx?_eq_none_iff.mp hfree
      refine Or.inr (Or.inr ⟨fun e he hempty => ?_, rfl⟩)
      exact of_decide_eq_false (hfull e he) (length_eq_zero_iff.mpr hempty)

theorem msgUserDel_cases (t : UserTable) (user : SdkUser) :
    (user.userName.chars <+: admin ∧ t.mainMsgUser (.del user) = (t, .error .rootUser))
      ∨ (¬ user.userName.chars <+: admin ∧ ∃ i old, t[i]? = some old
        ∧ old.userName = user.userName ∧ old.userPwd = user.userPwd
        ∧ t.mainMsgUser (.del user) = (List.set t i .zero, .ok []))
      ∨ ((∀ e ∈ t, ¬ (e.userName = user.userName ∧ e.userPwd = user.userPwd))
        ∧ t.mainMsgUser (.del user) = (t, .error .userNotExist)) := by
  simp only [mainMsgUser]
  unfold msgUserDel
  by_cases hroot : user.userName.memcmpAdmin
  · rw [if_pos hroot]
    exact Or.inl ⟨(UserString.memcmpAdmin_iff _).mp hroot, rfl⟩
  rw [if_neg hroot]
  rw [UserString.memcmpAdmin_iff] at hroot
  cases hfind : t.findIdx? fun e => e.userName = user.userName ∧ e.userPwd = user.userPwd with
  | some i =>
    obtain ⟨old, hold, hp⟩ := exists_of_findIdx hfind
    obtain ⟨hname, hpwd⟩ := of_decide_eq_true hp
    exact Or.inr (Or.inl ⟨hroot, i, old, hold, hname, hpwd, rfl⟩)
  | none =>
    have hnone := List.findIdx?_eq_none_iff.mp hfind
    exact Or.inr (Or.inr ⟨fun e he => of_decide_eq_false (hnone e he), rfl⟩)

theorem msgUserModif_cases (t : UserTable) (u : UserRight) :
    (∃ i old e', t[i]? = some old ∧ old.userName = u.userName ∧ (i = 0 → e'.userName = .root)
        ∧ (i ≠ 0 → e'.userName = u.userName) ∧ e'.userPwd = u.userPwd
        ∧ t.mainMsgUser (.modi u) = (List.set t i e', .ok []))
      ∨ t.mainMsgUser (.modi u) = (t, .error .userNotExist) := by
  simp only [mainMsgUser]
  unfold msgUserModif
  cases hfind : t.findIdx? fun e => e.userName = u.userName with
  | none => exact Or.inr rfl
  | some i =>
    obtain ⟨old, hold, hp⟩ := exists_of_findIdx hfind
    refine Or.inl ?_
    cases i with
    | zero =>
      refine ⟨0, old, { old with userName := .root, userPwd := u.userPwd }, hold,
        of_decide_eq_true hp, fun _ => rfl, fun h => absurd rfl h, rfl, ?_⟩
      cases t with
      | nil => exact nomatch hold
      | cons e t =>
        obtain rfl := Option.some.inj hold
        rfl
    | succ i =>
      exact ⟨i + 1, old, u, hold, of_decide_eq_true hp, nofun, fun _ => rfl, rfl, rfl⟩

end UserTable

namespace UserState

open UserTable

/-- Slot 0 is admin, the names are distinct, and the table holds the map. -/
structure Inv (s : UserState) : Prop where
  root : ∃ e, s.table[0]? = some e ∧ e.userName = .root
  distinct : Distinct s.table
  users : ∀ n p, s.users n = some p ↔ Holds s.table n p

theorem start_inv (root : UserRight) : Inv (start root) := by
  have hzero : ∀ (j : ℕ) e, (UserTable.start root)[j + 1]? = some e → e.userName = .empty := by
    intro j e he
    have hmem : e ∈ List.replicate (maxUserNum - 1) UserRight.zero := List.mem_of_getElem? he
    rw [List.eq_of_mem_replicate hmem]
    rfl
  refine ⟨⟨_, rfl, rfl⟩, ?_, ?_⟩
  · intro i j e e' hi hj hname hne
    cases i with
    | succ i => exact absurd (hzero i e hi) hne
    | zero =>
      cases j with
      | zero => rfl
      | succ j => exact absurd (hname.trans (hzero j e' hj)) hne
  · intro n p
    show Function.update (fun _ => none) UserString.root (some root.userPwd) n = some p ↔ _
    constructor
    · intro h
      by_cases hn : n = .root
      · rw [hn, Function.update_self] at h
        obtain rfl := Option.some.inj h
        exact ⟨by rw [hn]; decide, _, List.mem_cons_self, hn.symm, rfl⟩
      · rw [Function.update_of_ne hn] at h
        exact nomatch h
    · rintro ⟨hne, e, he, rfl, rfl⟩
      rcases List.mem_cons.mp he with rfl | he
      · rw [Function.update_self]
      · rw [List.eq_of_mem_replicate he] at hne
        exact absurd rfl hne

section Steps

variable {s : UserState} {i : ℕ} {old e' : UserRight}

/-- An entry is replaced, and the map changes with it. -/
theorem Inv.set (h : Inv s) (hold : s.table[i]? = some old)
    (hroot : i = 0 → e'.userName = .root)
    (hfresh : ∀ j e, j ≠ i → s.table[j]? = some e → e.userName = e'.userName →
      e.userName = .empty)
    {m : UserMap} (hm : ∀ n p, m n = some p ↔ n ≠ .empty
      ∧ (e'.userName = n ∧ e'.userPwd = p ∨ old.userName ≠ n ∧ s.users n = some p)) :
    Inv ⟨List.set s.table i e', m⟩ := by
  refine ⟨?_, h.distinct.set hfresh, fun n p => ?_⟩
  · obtain ⟨e, he, hname⟩ := h.root
    by_cases hi : i = 0
    · subst hi
      refine ⟨e', ?_, hroot rfl⟩
      have hlt := (List.getElem?_eq_some_iff.mp hold).1
      exact List.getElem?_set_self hlt
    · refine ⟨e, ?_, hname⟩
      show (List.set s.table i e')[0]? = _
      rwa [List.getElem?_set_ne hi]
  · show m n = some p ↔ Holds (List.set s.table i e') n p
    rw [hm, h.distinct.holds_set hold, h.users]

theorem step_of_eq {op : UserOp} {t : UserTable} {es : List UserRight}
    (h : s.table.mainMsgUser op = (t, .ok es)) : s.step op = ⟨t, s.users.accept op⟩ := by
  unfold step answer
  rw [h]

theorem step_of_error {op : UserOp} {t : UserTable} {e : UserErr}
    (h : s.table.mainMsgUser op = (t, .error e)) : s.step op = ⟨t, s.users⟩ := by
  unfold step answer
  rw [h]

/-- The user of an entry that has a name. -/
theorem Inv.users_of_getElem (h : Inv s) (hold : s.table[i]? = some old)
    (hne : old.userName ≠ .empty) : s.users old.userName = some old.userPwd :=
  (h.users _ _).mpr ⟨hne, old, List.mem_of_getElem? hold, rfl, rfl⟩

theorem Inv.users_empty (h : Inv s) : s.users .empty = none := by
  cases hp : s.users .empty with
  | none => rfl
  | some p => exact absurd rfl ((h.users _ _).mp hp).1

theorem Inv.ne_empty (h : Inv s) {n p : UserString} (hp : s.users n = some p) : n ≠ .empty :=
  ((h.users n p).mp hp).1

theorem update_iff (m : UserMap) (n' : UserString) (v : Option UserString) (n p : UserString) :
    Function.update m n' v n = some p ↔ n' = n ∧ v = some p ∨ n' ≠ n ∧ m n = some p := by
  by_cases hn : n' = n
  · subst hn
    simp
  · rw [Function.update_of_ne (Ne.symm hn)]
    simp [hn]

theorem update_some_iff (m : UserMap) (n' p' n p : UserString) :
    Function.update m n' (some p') n = some p ↔ n' = n ∧ p' = p ∨ n' ≠ n ∧ m n = some p := by
  rw [update_iff, Option.some.injEq]

theorem update_none_iff (m : UserMap) (n' n p : UserString) :
    Function.update m n' none n = some p ↔ n' ≠ n ∧ m n = some p := by
  rw [update_iff]
  simp

theorem Inv.add (h : Inv s) (u : UserRight) : Inv (s.step (.add u)) := by
  rcases msgUserAdd_cases s.table u with ⟨-, heq⟩ | ⟨hnew, i, old, hold, hempty, heq⟩ | ⟨-, heq⟩
  · rw [step_of_error heq]
    exact h
  · rw [step_of_eq heq]
    refine h.set hold ?_ (fun j e _ he hname => absurd hname (hnew e (List.mem_of_getElem? he))) ?_
    · rintro rfl
      obtain ⟨e, he, hroot⟩ := h.root
      obtain rfl := Option.some.inj (hold.symm.trans he)
      rw [hroot] at hempty
      exact absurd hempty (by decide)
    · intro n p
      -- the new name is not empty, since a free entry has that one, and was in no entry
      have hune : u.userName ≠ .empty := fun hu =>
        hnew old (List.mem_of_getElem? hold) (hempty.trans hu.symm)
      have hnone : s.users u.userName ≠ some p := by
        rw [Ne, h.users]
        rintro ⟨-, e, he, hname, -⟩
        exact hnew e he hname
      show Function.update s.users u.userName (some u.userPwd) n = some p ↔ _
      rw [update_some_iff, hempty]
      constructor
      · rintro (⟨rfl, hp⟩ | ⟨hn, hp⟩)
        · exact ⟨hune, Or.inl ⟨rfl, hp⟩⟩
        · have hne := h.ne_empty hp
          exact ⟨hne, Or.inr ⟨Ne.symm hne, hp⟩⟩
      · rintro ⟨hne, ⟨rfl, hp⟩ | ⟨-, hp⟩⟩
        · exact Or.inl ⟨rfl, hp⟩
        · refine Or.inr ⟨?_, hp⟩
          rintro rfl
          exact hnone hp
  · rw [step_of_error heq]
    exact h

theorem Inv.del (h : Inv s) (user : SdkUser) : Inv (s.step (.del user)) := by
  rcases msgUserDel_cases s.table user with
    ⟨-, heq⟩ | ⟨hroot, i, old, hold, hname, -, heq⟩ | ⟨-, heq⟩
  · rw [step_of_error heq]
    exact h
  · rw [step_of_eq heq]
    refine h.set hold ?_ (fun _ _ _ _ hzero => hzero) fun n p => ?_
    · rintro rfl
      obtain ⟨e, he, hname'⟩ := h.root
      obtain rfl := Option.some.inj (hold.symm.trans he)
      rw [← hname, hname'] at hroot
      exact absurd (List.prefix_refl admin) hroot
    · show Function.update s.users user.userName none n = some p ↔ _
      rw [update_none_iff, hname]
      constructor
      · rintro ⟨hn, hp⟩
        exact ⟨h.ne_empty hp, Or.inr ⟨hn, hp⟩⟩
      · rintro ⟨hne, ⟨hzero, -⟩ | hp⟩
        · exact absurd hzero.symm hne
        · exact hp
  · rw [step_of_error heq]
    exact h

theorem Inv.modi (h : Inv s) (u : UserRight) : Inv (s.step (.modi u)) := by
  rcases msgUserModif_cases s.table u with ⟨i, old, e', hold, hname, hzero, hsucc, hpwd, heq⟩ | heq
  · -- the new entry keeps the name
    have hsame : e'.userName = u.userName := by
      by_cases hi : i = 0
      · obtain ⟨e, he, hroot⟩ := h.root
        subst hi
        obtain rfl := Option.some.inj (hold.symm.trans he)
        rw [hzero rfl, ← hname, hroot]
      · exact hsucc hi
    rw [step_of_eq heq]
    refine h.set hold hzero (fun j e hji he hej => ?_) fun n p => ?_
    · by_contra hne
      exact hji (h.distinct j i e old he hold (hej.trans (hsame.trans hname.symm)) hne)
    · show (if (s.users u.userName).isSome then _ else s.users) n = some p ↔ _
      rw [hsame, hname, hpwd]
      by_cases hempty : u.userName = .empty
      · rw [hempty, h.users_empty, if_neg (by simp)]
        constructor
        · intro hp
          have hne := h.ne_empty hp
          exact ⟨hne, Or.inr ⟨Ne.symm hne, hp⟩⟩
        · rintro ⟨hne, ⟨hn, -⟩ | hp⟩
          · exact absurd hn.symm hne
          · exact hp.2
      · have hsome := h.users_of_getElem hold (by rwa [hname])
        rw [hname] at hsome
        rw [if_pos (by rw [hsome]; rfl), update_some_iff]
        constructor
        · rintro (⟨rfl, hp⟩ | ⟨hn, hp⟩)
          · exact ⟨hempty, Or.inl ⟨rfl, hp⟩⟩
          · exact ⟨h.ne_empty hp, Or.inr ⟨hn, hp⟩⟩
        · exact fun hp => hp.2
  · rw [step_of_error heq]
    exact h

theorem step_aaa (s : UserState) (user : SdkUser) : s.step (.aaa user) = s := by
  unfold step
  cases s.answer (.aaa user) <;> rfl

/-- The step lemma. -/
theorem Inv.step (h : Inv s) (op : UserOp) : Inv (s.step op) := by
  cases op with
  | aaa user =>
    rw [step_aaa]
    exact h
  | add u => exact h.add u
  | del user => exact h.del user
  | modi u => exact h.modi u
  | query => exact h

/-! ## The answers -/

theorem accepts_of_ok {op : UserOp} {t : UserTable} {es : List UserRight}
    (h : s.table.mainMsgUser op = (t, .ok es)) : s.Accepts op := ⟨es, congrArg Prod.snd h⟩

theorem not_accepts_of_error {op : UserOp} {t : UserTable} {e : UserErr}
    (h : s.table.mainMsgUser op = (t, .error e)) : ¬ s.Accepts op := by
  rintro ⟨es, hes⟩
  exact nomatch hes.symm.trans (congrArg Prod.snd h)

/-- A login is decided by the first entry with the name. -/
theorem accepts_aaa_iff (user : SdkUser) : s.Accepts (.aaa user) ↔
    ∃ e, (s.table.find? fun e => e.userName = user.userName) = some e
      ∧ e.userPwd = user.userPwd := by
  show (∃ es, s.table.msgUserAaa user = .ok es) ↔ _
  unfold msgUserAaa
  cases s.table.find? fun e => e.userName = user.userName with
  | none => simp
  | some e =>
    dsimp only
    split <;> simp_all

/-- With a name, that entry is the only one. -/
theorem Inv.accepts_aaa_iff (h : Inv s) {user : SdkUser} (hne : user.userName ≠ .empty) :
    s.Accepts (.aaa user) ↔ s.users user.userName = some user.userPwd := by
  rw [UserState.accepts_aaa_iff, h.users]
  constructor
  · rintro ⟨e, he, hpwd⟩
    exact ⟨hne, e, List.mem_of_find?_eq_some he, of_decide_eq_true (List.find?_some he :), hpwd⟩
  · rintro ⟨-, e, he, hname, hpwd⟩
    cases hfind : s.table.find? fun e => e.userName = user.userName with
    | none => exact absurd hname (by simpa using List.find?_eq_none.mp hfind e he)
    | some e' =>
      have hname' : e'.userName = user.userName := of_decide_eq_true (List.find?_some hfind :)
      obtain ⟨i, hi⟩ := List.mem_iff_getElem?.mp he
      obtain ⟨j, hj⟩ := List.mem_iff_getElem?.mp (List.mem_of_find?_eq_some hfind)
      obtain rfl := h.distinct i j e e' hi hj (hname.trans hname'.symm) (by rwa [hname])
      obtain rfl := Option.some.inj (hi.symm.trans hj)
      exact ⟨e, rfl, hpwd⟩

theorem Inv.aaa_iff (h : Inv s) (user : SdkUser) :
    (s.Accepts (.aaa user) ↔ s.users user.userName = some user.userPwd)
      ↔ s.Meets (.aaa user) := by
  by_cases hempty : user.userName = .empty
  · -- there is no such user
    rw [UserState.accepts_aaa_iff, Meets, hempty, h.users_empty]
    simp only [reduceCtorEq, iff_false, not_exists, not_and, forall_const]
    exact forall_congr' fun e => imp_congr_right fun _ => not_congr eq_comm
  · exact iff_of_true (h.accepts_aaa_iff hempty) fun he => absurd he hempty

theorem Inv.del_iff (h : Inv s) (user : SdkUser) :
    (user.userName ≠ .root → s.users user.userName = some user.userPwd → s.Accepts (.del user))
      ↔ s.Meets (.del user) := by
  rcases msgUserDel_cases s.table user with
    ⟨hroot, heq⟩ | ⟨hroot, _, _, -, -, -, heq⟩ | ⟨hnone, heq⟩
  · have hrefused := not_accepts_of_error heq
    exact ⟨fun hdel _ hne hp => hrefused (hdel hne hp), fun hm hne hp => absurd hp (hm hroot hne)⟩
  · exact iff_of_true (fun _ _ => accepts_of_ok heq) fun hpre => absurd hpre hroot
  · have hno : s.users user.userName ≠ some user.userPwd := by
      rw [Ne, h.users]
      rintro ⟨-, e, he, hname, hpwd⟩
      exact hnone e he ⟨hname, hpwd⟩
    exact iff_of_true (fun _ hp => absurd hp hno) fun _ _ => hno

theorem Inv.add_refused (h : Inv s) (u : UserRight) (hrefused : ¬ s.Accepts (.add u)) :
    u.userName = .empty ∨ (s.users u.userName).isSome ∨ ∀ e ∈ s.table, e.userName ≠ .empty := by
  rcases msgUserAdd_cases s.table u with ⟨⟨e, he, hname⟩, -⟩ | ⟨-, _, _, -, -, heq⟩ | ⟨hfull, -⟩
  · by_cases hempty : u.userName = .empty
    · exact Or.inl hempty
    · obtain ⟨i, hi⟩ := List.mem_iff_getElem?.mp he
      have hsome := h.users_of_getElem hi (by rwa [hname])
      rw [hname] at hsome
      exact Or.inr (Or.inl (by rw [hsome]; rfl))
  · exact absurd (accepts_of_ok heq) hrefused
  · exact Or.inr (Or.inr hfull)

/-- A refused operation leaves the table unchanged. -/
theorem refused_table {op : UserOp} (hrefused : ¬ s.Accepts op) : (s.step op).table = s.table := by
  cases op with
  | aaa user => rfl
  | query => rfl
  | add u =>
    rcases msgUserAdd_cases s.table u with ⟨-, heq⟩ | ⟨-, _, _, -, -, heq⟩ | ⟨-, heq⟩
    · rw [step_of_error heq]
    · exact absurd (accepts_of_ok heq) hrefused
    · rw [step_of_error heq]
  | del user =>
    rcases msgUserDel_cases s.table user with ⟨-, heq⟩ | ⟨-, _, _, -, -, -, heq⟩ | ⟨-, heq⟩
    · rw [step_of_error heq]
    · exact absurd (accepts_of_ok heq) hrefused
    · rw [step_of_error heq]
  | modi u =>
    rcases msgUserModif_cases s.table u with ⟨_, _, _, -, -, -, -, -, heq⟩ | heq
    · exact absurd (accepts_of_ok heq) hrefused
    · rw [step_of_error heq]

/-- The query lists every current user once, with its password. -/
theorem Inv.query (h : Inv s) : ∃ es, s.answer .query = .ok es
    ∧ (es.map fun e => e.userName).Nodup
    ∧ ∀ n p, s.users n = some p ↔ ∃ e ∈ es, e.userName = n ∧ e.userPwd = p := by
  refine ⟨_, rfl, ?_, fun n p => ?_⟩
  · have hpair : s.table.Pairwise fun e e' =>
        e.userName = e'.userName → e.userName = .empty := by
      rw [List.pairwise_iff_getElem]
      intro i j hi hj hlt hname
      by_contra hne
      exact hlt.ne (h.distinct i j _ _ (List.getElem?_eq_getElem hi) (List.getElem?_eq_getElem hj)
        hname hne)
    rw [List.Nodup, List.pairwise_map]
    refine (hpair.filter _).imp_of_mem fun {e e'} he _ hee hname => ?_
    exact of_decide_eq_true (List.mem_filter.mp he).2 (length_eq_zero_iff.mpr (hee hname))
  · rw [h.users]
    constructor
    · rintro ⟨hne, e, he, hname, hpwd⟩
      refine ⟨e, List.mem_filter.mpr ⟨he, decide_eq_true ?_⟩, hname, hpwd⟩
      rwa [Ne, length_eq_zero_iff, hname]
    · rintro ⟨e, he, hname, hpwd⟩
      obtain ⟨he, hlen⟩ := List.mem_filter.mp he
      have hne := of_decide_eq_true hlen
      rw [Ne, length_eq_zero_iff, hname] at hne
      exact ⟨hne, e, he, hname, hpwd⟩

/-- An operation behaves as on a map exactly if it meets the condition. -/
theorem Inv.asMap_iff (h : Inv s) (op : UserOp) : s.AsMap op ↔ s.Meets op := by
  have hstep := h.step op
  constructor
  · intro hmap
    cases op with
    | aaa user => exact (h.aaa_iff user).mp (hmap.aaa user rfl)
    | del user => exact (h.del_iff user).mp (hmap.del user rfl)
    | add | modi | query => trivial
  · intro hmeets
    constructor
    case aaa =>
      rintro user rfl
      exact (h.aaa_iff user).mpr hmeets
    case del =>
      rintro user rfl
      exact (h.del_iff user).mpr hmeets
    case add =>
      rintro u rfl
      exact h.add_refused u
    case query =>
      rintro rfl
      exact h.query
    case refused => exact refused_table
    case root => exact hstep.root
    case distinct => exact hstep.distinct

end Steps

/-- In every run from a table with admin only, the operations all behave as on a map from names to
passwords exactly if they all meet the condition. -/
theorem users_as_map_iff (root : UserRight) (ops : List UserOp) :
    GuardedRun.Guarded step AsMap (start root) ops
      ↔ GuardedRun.Guarded step Meets (start root) ops :=
  GuardedRun.guarded_congr (fun _ op h => h.step op) (fun _ op h => h.asMap_iff op)
    (start_inv root)

/-- The empty name logs in with the empty password, the one of a free entry. -/
theorem empty_name_logs_in :
    ¬ ∀ root ops, GuardedRun.Guarded step AsMap (start root) ops := by
  intro h
  have hmap := (h .zero [.aaa ⟨.empty, .empty⟩]).1
  have huser := (hmap.aaa _ rfl).mp ⟨[], rfl⟩
  rw [(start_inv .zero).users_empty] at huser
  exact nomatch huser

end UserState
