/-
# The login follows the user operations

`main_msg_user` works on the table of the users; `AuthCallBackFn` searches the bytes of this table.
`login_follows_users` joins the two: after any operations, a login with a name reads the table only
exactly if the name is that of a current user, and is then granted exactly if the password is the
user's.  What stands behind the terminators of the strings in the bytes does not matter.
-/
import IpCamera.UserTable

/-! ## Strings that end -/

section Strings

variable {m : Mem} {s t : List UInt8}

/-- Memory holds one string at a place. -/
theorem strEq_unique (hs : ∀ c ∈ s, c ≠ 0) (ht : ∀ c ∈ t, c ≠ 0) {a : ℕ}
    (h : strEq m a s = true) (h' : strEq m a t = true) : s = t := by
  induction s generalizing t a with
  | nil =>
    cases t with
    | nil => rfl
    | cons d t =>
      simp only [strEq, Bool.decide_and, Bool.and_eq_true, decide_eq_true_eq] at h h'
      exact absurd (h'.1.symm.trans h) (ht d List.mem_cons_self)
  | cons c s ih =>
    cases t with
    | nil =>
      simp only [strEq, Bool.decide_and, Bool.and_eq_true, decide_eq_true_eq] at h h'
      exact absurd (h.1.symm.trans h') (hs c List.mem_cons_self)
    | cons d t =>
      simp only [strEq, Bool.decide_and, Bool.and_eq_true, decide_eq_true_eq, Bool.decide_eq_true]
        at h h'
      rw [h.1.symm.trans h'.1, ih (fun x hx => hs x (List.mem_cons_of_mem _ hx))
        (fun x hx => ht x (List.mem_cons_of_mem _ hx)) h.2 h'.2]

/-- A comparison ends with the string that is stored. -/
theorem strReads_le (ht : ∀ c ∈ t, c ≠ 0) {a : ℕ} (h : strEq m a s = true) :
    strReads m a t ≤ s.length + 1 := by
  induction t generalizing s a with
  | nil => exact Nat.le_add_left _ _
  | cons d t ih =>
    rw [strReads]
    split
    · rename_i hd
      cases s with
      | nil =>
        simp only [strEq, decide_eq_true_eq] at h
        exact absurd (hd.symm.trans h) (ht d List.mem_cons_self)
      | cons c s =>
        simp only [strEq, Bool.decide_and, Bool.and_eq_true, decide_eq_true_eq,
          Bool.decide_eq_true] at h
        have := ih (fun x hx => ht x (List.mem_cons_of_mem _ hx)) h.2
        rw [List.length_cons]
        omega
    · omega

end Strings

/-! ## The table in memory -/

/-- The array holds the table. -/
structure StoresTable (m : Mem) (t : UserTable) : Prop where
  length : t.length = maxUserNum
  name : ∀ (i : ℕ) e, t[i]? = some e → strEq m (userName i) e.userName.chars = true
  pwd : ∀ (i : ℕ) e, t[i]? = some e → strEq m (userPwd i) e.userPwd.chars = true

namespace StoresTable

variable {m : Mem} {t : UserTable} {acc pwd : List UInt8} {i : ℕ}

theorem getElem (h : StoresTable m t) (hi : i < maxUserNum) : ∃ e, t[i]? = some e :=
  ⟨_, List.getElem?_eq_getElem (h.length.symm ▸ hi)⟩

/-- The comparison with a name finds the entries that have it. -/
theorem name_iff (h : StoresTable m t) (hacc : ∀ c ∈ acc, c ≠ 0) {e : UserRight}
    (he : t[i]? = some e) : strEq m (userName i) acc = true ↔ e.userName.chars = acc := by
  constructor
  · exact fun heq => strEq_unique e.userName.nonzero hacc (h.name i e he) heq
  · rintro rfl
    exact h.name i e he

theorem pwd_iff (h : StoresTable m t) (hpwd : ∀ c ∈ pwd, c ≠ 0) {e : UserRight}
    (he : t[i]? = some e) : strEq m (userPwd i) pwd = true ↔ e.userPwd.chars = pwd := by
  constructor
  · exact fun heq => strEq_unique e.userPwd.nonzero hpwd (h.pwd i e he) heq
  · rintro rfl
    exact h.pwd i e he

/-- Every string ends in its field. -/
theorem inside (h : StoresTable m t) (hacc : ∀ c ∈ acc, c ≠ 0) (hpwd : ∀ c ∈ pwd, c ≠ 0)
    (hi : i < maxUserNum) : InsideTable m acc pwd i := by
  have hsize : sizeofUserArray = 1216 := rfl
  have hnum : maxUserNum = 16 := rfl
  have hplace : ∀ j, userName j = j * 76 ∧ userPwd j = j * 76 + 32 := fun _ => ⟨rfl, rfl⟩
  refine ⟨?_, fun j hj => ?_, ?_⟩
  · obtain ⟨e, he⟩ := h.getElem (show 0 < maxUserNum by decide)
    have hlt := e.userPwd.length_lt
    refine ⟨userPwd 0 + e.userPwd.chars.length, Nat.le_add_right _ _, ?_, ?_⟩
    · rw [(hplace 0).2]
      omega
    · exact ((strEq_iff m _ _).mp (h.pwd 0 e he)).2
  · obtain ⟨e, he⟩ := h.getElem (hj.trans_lt hi)
    have hlt := e.userName.length_lt
    have hreads := strReads_le hacc (h.name j e he)
    rw [(hplace j).1] at hreads ⊢
    omega
  · obtain ⟨e, he⟩ := h.getElem hi
    have hlt := e.userPwd.length_lt
    have hreads := strReads_le hpwd (h.pwd i e he)
    rw [(hplace i).2] at hreads ⊢
    omega

/-- The search stops at the first entry with the name. -/
theorem search (h : StoresTable m t) (hacc : ∀ c ∈ acc, c ≠ 0) :
    (∃ e, t[findUser m acc maxUserNum 0]? = some e ∧ e.userName.chars = acc
        ∧ FirstMatch m acc (findUser m acc maxUserNum 0))
      ∨ findUser m acc maxUserNum 0 = maxUserNum ∧ ∀ e ∈ t, e.userName.chars ≠ acc := by
  obtain hfirst | ⟨hbehind, hnone⟩ := @findUser_spec m acc maxUserNum 0
    (Nat.zero_add _) fun j hj => absurd hj (Nat.not_lt_zero j)
  · obtain ⟨e, he⟩ := h.getElem hfirst.lt
    exact .inl ⟨e, he, (h.name_iff hacc he).mp hfirst.here, hfirst⟩
  · refine .inr ⟨hbehind, fun e he heq => ?_⟩
    obtain ⟨j, hj⟩ := List.mem_iff_getElem?.mp he
    have hlt : j < maxUserNum := h.length ▸ (List.getElem?_eq_some_iff.mp hj).1
    have := hnone j hlt
    rw [(h.name_iff hacc hj).mpr heq] at this
    cases this

end StoresTable

/-! ## Operations and logins -/

namespace UserState

/-- The table keeps its length. -/
theorem step_length (s : UserState) (op : UserOp) : (s.step op).table.length = s.table.length := by
  cases op with
  | aaa user => rfl
  | query => rfl
  | add u =>
    obtain ⟨-, heq⟩ | ⟨-, _, _, -, -, heq⟩ | ⟨-, heq⟩ := UserTable.msgUserAdd_cases s.table u
    · rw [step_of_error heq]
    · rw [step_of_eq heq]
      exact List.length_set
    · rw [step_of_error heq]
  | del user =>
    obtain ⟨-, heq⟩ | ⟨-, _, _, -, -, -, heq⟩ | ⟨-, heq⟩ := UserTable.msgUserDel_cases s.table user
    · rw [step_of_error heq]
    · rw [step_of_eq heq]
      exact List.length_set
    · rw [step_of_error heq]
  | modi u =>
    obtain ⟨_, _, _, -, -, -, -, -, heq⟩ | heq := UserTable.msgUserModif_cases s.table u
    · rw [step_of_eq heq]
      exact List.length_set
    · rw [step_of_error heq]

/-- What holds of the users after any operations. -/
theorem inv_run (root : UserRight) (ops : List UserOp) :
    Inv (ops.foldl step (start root)) :=
  (GuardedRun.guarded_of_forall (Q := fun _ => True) fun _ _ => trivial).invariant
    (fun _ op h _ => h.step op) (start_inv root)

/-- After any operations, and for every account with a name: the login reads the table only exactly
if the account is a current user; and then it is granted exactly with the user's password. -/
theorem login_follows_users (root : UserRight) (ops : List UserOp) (userArray reread : Mem)
    (viewAcc viewPwd : List UInt8) (hacc : ∀ c ∈ viewAcc, c ≠ 0) (hpwd : ∀ c ∈ viewPwd, c ≠ 0)
    (hname : viewAcc ≠ []) (hstores : StoresTable userArray (ops.foldl step (start root)).table) :
    ((∀ x, AuthReads userArray viewAcc viewPwd x → x < sizeofUserArray) ↔
        ∃ n p, n.chars = viewAcc ∧ (ops.foldl step (start root)).users n = some p)
      ∧ ∀ n p, n.chars = viewAcc → (ops.foldl step (start root)).users n = some p →
          (authCallBackFn userArray reread viewAcc viewPwd = 1 ↔ p.chars = viewPwd) := by
  have hinv := inv_run root ops
  generalize ops.foldl step (start root) = s at *
  -- the first user is admin, so that the table is not read again
  have htable : loginTable userArray reread = userArray := by
    obtain ⟨e, he, hroot⟩ := hinv.root
    have hadmin : e.userName.chars = admin := by rw [hroot]; rfl
    exact if_pos (hadmin ▸ hstores.name 0 e he)
  obtain ⟨e, he, heq, hfirst⟩ | ⟨hbehind, hnone⟩ := hstores.search hacc
  · have hne : e.userName ≠ .empty := fun h => hname (by rw [← heq, h]; rfl)
    have huser := hinv.users_of_getElem he hne
    have hinside := hstores.inside hacc hpwd hfirst.lt
    refine ⟨iff_of_true ((reads_inside_iff hfirst rfl).mpr hinside) ⟨_, _, heq, huser⟩, ?_⟩
    intro n p hn hp
    have hsame : n = e.userName := by
      cases n
      cases hchars : e.userName
      simp_all
    rw [hsame, huser] at hp
    obtain rfl := Option.some.inj hp
    rw [← hstores.pwd_iff hpwd he, authCallBackFn, htable]
    show (if strEq userArray (userPwd _) viewPwd = true then (1 : ℤ) else 0) = 1 ↔ _
    split <;> simp [*]
  · have hunknown : ∀ n p, n.chars = viewAcc → s.users n ≠ some p := by
      intro n p hn hp
      obtain ⟨-, e, he, hsame, -⟩ := (hinv.users n p).mp hp
      exact hnone e he (by rw [hsame, hn])
    refine ⟨iff_of_false (fun hreads => ?_) ?_, fun n p hn hp => absurd hp (hunknown n p hn)⟩
    · have hout : ∃ x, AuthReads userArray viewAcc viewPwd x ∧ sizeofUserArray ≤ x :=
        reads_behind hbehind
      obtain ⟨x, hx, hge⟩ := hout
      exact absurd (hreads x hx) (Nat.not_lt.mpr hge)
    · rintro ⟨n, p, hn, hp⟩
      exact hunknown n p hn hp

/-- The user admin, whose password is `1`. -/
def sampleRoot : UserRight :=
  ⟨⟨.root, ⟨[0x31], by decide +kernel, by decide +kernel⟩⟩, 0, 0, (0, 0), (0, 0)⟩

/-- The bytes of a table with this user only. -/
theorem login_follows_users_admin :
    ((∀ x, AuthReads sampleUsers admin [0x31] x → x < sizeofUserArray) ↔
        ∃ n p, n.chars = admin ∧ (start sampleRoot).users n = some p)
      ∧ ∀ n p, n.chars = admin → (start sampleRoot).users n = some p →
          (authCallBackFn sampleUsers sampleUsers admin [0x31] = 1 ↔ p.chars = [0x31]) := by
  refine login_follows_users _ [] sampleUsers sampleUsers admin [0x31] (by simp [admin]) (by simp)
    (by simp [admin]) ⟨rfl, fun i e he => ?_, fun i e he => ?_⟩
  all_goals
    have hi : i < 16 := (List.getElem?_eq_some_iff.mp he).1
    interval_cases i <;> obtain rfl := Option.some.inj he <;> decide

end UserState
