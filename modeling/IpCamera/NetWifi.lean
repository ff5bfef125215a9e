/-
# The credentials of a wireless network (`netwifi.c`)

`start_sta` joins a network by command lines for `wpa_cli`, each run by the shell.  The name and
the password go into them between quotes, after `grd_wifi_ssid_escape` has put a backslash before
some of their characters, in place.  Between single quotes the shell keeps these backslashes, and
the single quote itself, which would end the text, is not among the characters.

`credentials_delivered_iff` tells which names and passwords reach `wpa_cli` as they are.
The branch of the RTL8188 chip is modelled.
-/
import IpCamera.CString
import IpCamera.PosixShell

open CString PosixShell

/-! ## `grd_wifi_ssid_escape` -/

/-- `ssid[x] = c`: behind its end the buffer has nothing to write to. -/
def putChar (ssid : List Char) (x : ℕ) (c : Char) : Option (List Char) :=
  if x < ssid.length then some (ssid.set x c) else none

/-- What each of the three branches does for its character: the `c` at `x` gets a backslash. -/
def escapeIf (special c : Char) (s : List Char × ℕ) : Option (List Char × ℕ) :=
  if s.1[s.2]? = some special then do
    let ssid ← putChar s.1 s.2 '\\'
    let ssid ← putChar ssid (s.2 + 1) c
    some (ssid, s.2 + 1)
  else some s

/-- One turn of the loop, for `ssid_name[y] = c`. -/
def escapeChar (c : Char) (s : List Char × ℕ) : Option (List Char × ℕ) := do
  let ssid ← putChar s.1 s.2 c
  let s ← escapeIf '`' c (ssid, s.2)
  let s ← escapeIf '"' c s
  let s ← escapeIf '\\' c s
  some (s.1, s.2 + 1)

/-- The loop and the end of the string. -/
def escapeLoop : List Char → List Char × ℕ → Option (List Char)
  | [], s => putChar s.1 s.2 '\x00'
  | c :: name, s => (escapeChar c s).bind (escapeLoop name)

/-- `grd_wifi_ssid_escape`: the string is copied to `ssid_name`, of 32 characters, and written back.
Without an end in the buffer, the copy reads and writes behind both. -/
def grdWifiSsidEscape (ssid : List Char) : Option (List Char) :=
  if '\x00' ∈ ssid ∧ (stringOf ssid).length < 32 then escapeLoop (stringOf ssid) (ssid, 0)
  else none

/-! ## `start_sta` -/

/-- `sdk_wifi_cfg_t`, the fields that `start_sta` uses: their strings. -/
structure SdkWifiCfg where
  ssid : List Char
  pwd : List Char
  authMode : ℕ
  secrity : List Char
  deriving DecidableEq, Repr

/-- The name and the password fit their fields. -/
structure SdkWifiCfg.Fits (wifiParam : SdkWifiCfg) : Prop where
  ssid_le : wifiParam.ssid.length ≤ 32
  pwd_le : wifiParam.pwd.length ≤ 32
  ssid_zero : '\x00' ∉ wifiParam.ssid
  pwd_zero : '\x00' ∉ wifiParam.pwd

/-- `strncpy` of a string into a buffer of that size. -/
def strncpyChars (size : ℕ) (s : List Char) : List Char :=
  (s ++ List.replicate size '\x00').take size

/-- The credentials that are printed into command lines. -/
inductive Credential
  | ssid
  | pwd
  deriving DecidableEq, Repr

def SdkWifiCfg.get (wifiParam : SdkWifiCfg) : Credential → List Char
  | .ssid => wifiParam.ssid
  | .pwd => wifiParam.pwd

/-- A command line for `system_ex`, and what it was built from. -/
structure WpaCommand where
  cmd : List Char
  credential : Option Credential
  deriving DecidableEq, Repr

/-- What `snprintf` leaves of a line in `cmd`, of 256 characters. -/
def snprintfCmd (line : List Char) : List Char := line.take 255

/-- `wpa_cli -iwlan0` and a subcommand for the network. -/
def wpaCli (subcommand : String) (networkId : ℤ) : List Char :=
  "wpa_cli -iwlan0 ".toList ++ subcommand.toList ++ ' ' :: printD networkId

/-- `set_network %d` and a fixed setting. -/
def setNetwork (networkId : ℤ) (setting : String) : WpaCommand :=
  ⟨snprintfCmd (wpaCli "set_network" networkId ++ ' ' :: setting.toList), none⟩

/-- `set_network %d key '"%s"'`, for a key and a credential. -/
def setQuoted (networkId : ℤ) (key : String) (value : List Char) (credential : Credential) :
    WpaCommand :=
  ⟨snprintfCmd (wpaCli "set_network" networkId ++ ' ' :: key.toList ++ " '\"".toList ++ value
    ++ "\"'".toList), some credential⟩

/-- The commands for `WEP`, in both its modes. -/
def wepCommands (networkId : ℤ) (authMode : ℕ) (pwd : List Char) : List WpaCommand :=
  (if authMode = 3 then
    [setNetwork networkId "key_mgmt NONE",
     setQuoted networkId "wep_key0" pwd .pwd,
     setNetwork networkId "wep_tx_keyidx 0"]
   else []) ++
  (if authMode = 4 then
    [setNetwork networkId "key_mgmt NONE",
     setNetwork networkId "auth_alg SHARED",
     setQuoted networkId "wep_key0" pwd .pwd,
     setNetwork networkId "wep_tx_keyidx 0"]
   else [])

/-- The commands after `add_network`, which has answered `networkId`. -/
def staCommands (networkId : ℤ) (wifiParam : SdkWifiCfg) (ssid pwd : List Char) : List WpaCommand :=
  [setNetwork networkId "scan_ssid 1", setQuoted networkId "ssid" ssid .ssid] ++
  (if "NONE".toList <:+: wifiParam.secrity then [setNetwork networkId "key_mgmt NONE"]
   else if "WEP".toList <:+: wifiParam.secrity then wepCommands networkId wifiParam.authMode pwd
   else []) ++
  (if "WPA".toList <:+: wifiParam.secrity then
    [setNetwork networkId "key_mgmt WPA-PSK", setQuoted networkId "psk" pwd .pwd]
   else []) ++
  [⟨snprintfCmd (wpaCli "select_network" networkId), none⟩,
   ⟨snprintfCmd (wpaCli "enable_network" networkId), none⟩]

/-- `start_sta`: the command lines, if both strings were escaped inside their buffers. -/
def startSta (wifiParam : SdkWifiCfg) (networkId : ℤ) : Option (List WpaCommand) := do
  let ssid ← grdWifiSsidEscape (strncpyChars 32 wifiParam.ssid)
  let pwd ← grdWifiSsidEscape (strncpyChars 32 wifiParam.pwd)
  some (staCommands networkId wifiParam (stringOf ssid) (stringOf pwd))

/-! ## What is asked of it -/

/-- The shell reads the line as one `wpa_cli` command, its last argument the value between double
quotes. -/
def Delivers (cmd value : List Char) : Prop :=
  ∃ args, command cmd = some ("wpa_cli".toList :: args) ∧
    args.getLast? = some ('"' :: value ++ ['"'])

/-- No write leaves its buffer, and every credential is delivered as it is. -/
def Delivered (wifiParam : SdkWifiCfg) (networkId : ℤ) : Prop :=
  ∃ cmds, startSta wifiParam networkId = some cmds ∧
    ∀ c ∈ cmds, ∀ f, c.credential = some f → Delivers c.cmd (wifiParam.get f)

/-- The characters that get a backslash. -/
def Escaped (c : Char) : Prop := c = '`' ∨ c = '"' ∨ c = '\\'

instance : DecidablePred Escaped := fun _ => inferInstanceAs (Decidable (_ ∨ _))

/-- A string without a quote of either kind, a backquote or a backslash. -/
def PlainText (s : List Char) : Prop := ∀ c ∈ s, c ≠ '\'' ∧ ¬ Escaped c

instance : DecidablePred PlainText := fun s => List.decidableBAll (fun c => c ≠ '\'' ∧ ¬ Escaped c) s

/-- The security of the network asks for the password. -/
def SdkWifiCfg.SendsPwd (wifiParam : SdkWifiCfg) : Prop :=
  "WPA".toList <:+: wifiParam.secrity ∨
    ¬ "NONE".toList <:+: wifiParam.secrity ∧ "WEP".toList <:+: wifiParam.secrity ∧
      (wifiParam.authMode = 3 ∨ wifiParam.authMode = 4)

/-! ## Escaping in place -/

/-- A string with the backslashes that it gets. -/
def escapeText (s : List Char) : List Char :=
  s.flatMap fun c => if Escaped c then ['\\', c] else [c]

theorem escapeText_nil : escapeText [] = [] := rfl

theorem escapeText_cons_of_escaped {c : Char} (hc : Escaped c) (s : List Char) :
    escapeText (c :: s) = '\\' :: c :: escapeText s := by
  rw [escapeText, List.flatMap_cons, if_pos hc]
  rfl

theorem escapeText_cons_of_not {c : Char} (hc : ¬ Escaped c) (s : List Char) :
    escapeText (c :: s) = c :: escapeText s := by
  rw [escapeText, List.flatMap_cons, if_neg hc]
  rfl

theorem length_escapeText (s : List Char) :
    (escapeText s).length = s.length + s.countP fun c => Escaped c := by
  induction s with
  | nil => rfl
  | cons c s ih =>
    by_cases hc : Escaped c
    · rw [escapeText_cons_of_escaped hc, List.countP_cons_of_pos (by simpa using hc),
        List.length_cons, List.length_cons, List.length_cons, ih]
      omega
    · rw [escapeText_cons_of_not hc, List.countP_cons_of_neg (by simpa using hc), List.length_cons,
        List.length_cons, ih]
      omega

theorem escapeText_eq_iff (s : List Char) : escapeText s = s ↔ ∀ c ∈ s, ¬ Escaped c := by
  constructor
  · intro h
    have hlen := congrArg List.length h
    rw [length_escapeText] at hlen
    have hzero : (s.countP fun c => Escaped c) = 0 := by omega
    simpa [List.countP_eq_zero] using hzero
  · intro h
    induction s with
    | nil => rfl
    | cons c s ih =>
      rw [escapeText_cons_of_not (h c List.mem_cons_self),
        ih fun d hd => h d (List.mem_cons_of_mem c hd)]

theorem mem_escapeText {s : List Char} {d : Char} : d ∈ escapeText s → d = '\\' ∨ d ∈ s := by
  intro hd
  obtain ⟨c, hc, hd⟩ := List.mem_flatMap.mp hd
  split at hd
  · rcases List.mem_cons.mp hd with hd | hd
    · exact .inl hd
    · exact .inr (List.mem_singleton.mp hd ▸ hc)
  · exact .inr (List.mem_singleton.mp hd ▸ hc)

theorem putChar_append (pre rest : List Char) (r c : Char) :
    putChar (pre ++ r :: rest) pre.length c = some (pre ++ c :: rest) := by
  rw [putChar, if_pos (by simp)]
  simp

theorem putChar_end (pre : List Char) (c : Char) : putChar pre pre.length c = none := by
  rw [putChar, if_neg (lt_irrefl _)]

theorem putChar_succ (pre rest : List Char) (d c : Char) :
    putChar (pre ++ d :: rest) (pre.length + 1) c
      = (putChar ((pre ++ [d]) ++ rest) (pre ++ [d]).length c) := by
  rw [List.length_append, List.length_singleton, List.append_assoc, List.singleton_append]

theorem escapeIf_of_ne {special d : Char} (hd : d ≠ special) (c : Char) (pre rest : List Char) :
    escapeIf special c (pre ++ d :: rest, pre.length) = some (pre ++ d :: rest, pre.length) := by
  rw [escapeIf, if_neg (by simpa using hd)]

theorem escapeIf_eq (special c : Char) (pre rest : List Char) (r : Char) :
    escapeIf special c (pre ++ special :: r :: rest, pre.length)
      = some (pre ++ '\\' :: c :: rest, pre.length + 1) := by
  rw [escapeIf, if_pos (by simp)]
  dsimp only
  rw [putChar_append, Option.bind_eq_bind, Option.bind_some, putChar_succ, putChar_append]
  simp

theorem escapeIf_end (special c : Char) (pre : List Char) :
    escapeIf special c (pre ++ [special], pre.length) = none := by
  rw [escapeIf, if_pos (by simp)]
  dsimp only
  rw [putChar_append, Option.bind_eq_bind, Option.bind_some, putChar_succ, List.append_nil,
    putChar_end]
  rfl

/-- The two cases in which a branch leaves the character. -/
theorem escapeIf_succ {special c : Char} (hc : c ≠ special) (pre rest : List Char) :
    escapeIf special c (pre ++ '\\' :: c :: rest, pre.length + 1)
      = some (pre ++ '\\' :: c :: rest, pre.length + 1) := by
  have h := escapeIf_of_ne hc c (pre ++ ['\\']) rest
  rwa [List.length_append, List.length_singleton, List.append_assoc, List.singleton_append] at h

theorem escapeChar_of_not {c : Char} (hc : ¬ Escaped c) (pre rest : List Char) (r : Char) :
    escapeChar c (pre ++ r :: rest, pre.length) = some (pre ++ c :: rest, pre.length + 1) := by
  obtain ⟨hback, hquote, hslash⟩ : c ≠ '`' ∧ c ≠ '"' ∧ c ≠ '\\' := by simpa [Escaped] using hc
  simp only [escapeChar, putChar_append, Option.bind_eq_bind, Option.bind_some,
    escapeIf_of_ne hback, escapeIf_of_ne hquote, escapeIf_of_ne hslash]

theorem escapeChar_of_escaped {c : Char} (hc : Escaped c) (pre rest : List Char) (r r' : Char) :
    escapeChar c (pre ++ r :: r' :: rest, pre.length)
      = some (pre ++ '\\' :: c :: rest, pre.length + 2) := by
  rcases hc with rfl | rfl | rfl
  all_goals
    simp only [escapeChar, putChar_append, Option.bind_eq_bind, Option.bind_some]
  · rw [escapeIf_eq, Option.bind_some, escapeIf_succ (by decide), Option.bind_some,
      escapeIf_succ (by decide), Option.bind_some]
  · rw [escapeIf_of_ne (by decide), Option.bind_some, escapeIf_eq, Option.bind_some,
      escapeIf_succ (by decide), Option.bind_some]
  · rw [escapeIf_of_ne (by decide), Option.bind_some, escapeIf_of_ne (by decide), Option.bind_some,
      escapeIf_eq, Option.bind_some]

theorem escapeChar_full (c : Char) (pre : List Char) : escapeChar c (pre, pre.length) = none := by
  simp only [escapeChar, putChar_end]
  rfl

theorem escapeChar_end {c : Char} (hc : Escaped c) (pre : List Char) (r : Char) :
    escapeChar c (pre ++ [r], pre.length) = none := by
  rcases hc with rfl | rfl | rfl
  all_goals
    simp only [escapeChar, putChar_append, Option.bind_eq_bind, Option.bind_some]
  · rw [escapeIf_end, Option.bind_none]
  · rw [escapeIf_of_ne (by decide), Option.bind_some, escapeIf_end, Option.bind_none]
  · rw [escapeIf_of_ne (by decide), Option.bind_some, escapeIf_of_ne (by decide), Option.bind_some,
      escapeIf_end, Option.bind_none]

/-- The loop, from any place in the buffer: the text and its end fit behind it or a write leaves the
buffer. -/
theorem escapeLoop_append (name pre rest : List Char) :
    escapeLoop name (pre ++ rest, pre.length)
      = if (escapeText name).length < rest.length then
          some (pre ++ escapeText name ++ '\x00' :: rest.drop ((escapeText name).length + 1))
        else none := by
  induction name generalizing pre rest with
  | nil =>
    cases rest with
    | nil =>
      rw [escapeLoop, List.append_nil, putChar_end]
      exact (if_neg (Nat.not_lt_zero _)).symm
    | cons r rest =>
      rw [escapeLoop, putChar_append, escapeText_nil, List.append_nil]
      exact (if_pos (Nat.succ_pos _)).symm
  | cons c name ih =>
    rw [escapeLoop]
    by_cases hc : Escaped c
    · rw [escapeText_cons_of_escaped hc]
      match rest with
      | [] =>
        rw [List.append_nil, escapeChar_full]
        exact (if_neg (Nat.not_lt_zero _)).symm
      | [r] =>
        rw [escapeChar_end hc, Option.bind_none, if_neg (by simp)]
      | r :: r' :: rest =>
        have hih := ih (pre ++ ['\\', c]) rest
        rw [List.length_append, List.append_assoc] at hih
        rw [escapeChar_of_escaped hc, Option.bind_some]
        simpa using hih
    · rw [escapeText_cons_of_not hc]
      cases rest with
      | nil =>
        rw [List.append_nil, escapeChar_full]
        exact (if_neg (Nat.not_lt_zero _)).symm
      | cons r rest =>
        have hih := ih (pre ++ [c]) rest
        rw [List.length_append, List.append_assoc] at hih
        rw [escapeChar_of_not hc, Option.bind_some]
        simpa using hih

/-! ## The whole buffer -/

theorem strncpyChars_of_lt {size : ℕ} {s : List Char} (hlt : s.length < size) :
    strncpyChars size s = s ++ '\x00' :: List.replicate (size - s.length - 1) '\x00' := by
  obtain ⟨k, hk⟩ := Nat.exists_eq_add_of_lt hlt
  have hle : size - s.length ≤ size := Nat.sub_le _ _
  rw [strncpyChars, List.take_append, List.take_of_length_le hlt.le, List.take_replicate,
    Nat.min_eq_left hle, ← List.replicate_succ, hk]
  congr 2
  omega

theorem strncpyChars_of_le {size : ℕ} {s : List Char} (hle : size ≤ s.length) :
    strncpyChars size s = s.take size := by
  rw [strncpyChars, List.take_append_of_le_length hle]

theorem le_length_escapeText (s : List Char) : s.length ≤ (escapeText s).length := by
  rw [length_escapeText]
  exact Nat.le_add_right _ _

/-- `grd_wifi_ssid_escape` on a field: it stays in the buffer exactly when the text with its
backslashes leaves room for the end. -/
theorem grdWifiSsidEscape_strncpy {s : List Char} (hle : s.length ≤ 32) (hzero : '\x00' ∉ s) :
    (32 ≤ (escapeText s).length ∧ grdWifiSsidEscape (strncpyChars 32 s) = none) ∨
      (escapeText s).length < 32 ∧
        ∃ ssid, grdWifiSsidEscape (strncpyChars 32 s) = some ssid ∧
          stringOf ssid = escapeText s := by
  rcases Nat.lt_or_ge s.length 32 with hlt | hge
  · have hbuf := strncpyChars_of_lt hlt
    have hstring : stringOf (strncpyChars 32 s) = s := by
      rw [hbuf, stringOf_append_zero hzero]
    have hlength : (strncpyChars 32 s).length = 32 := by
      rw [strncpyChars, List.length_take, List.length_append, List.length_replicate]
      omega
    have hloop := escapeLoop_append s [] (strncpyChars 32 s)
    rw [List.nil_append, List.length_nil, hlength, List.nil_append] at hloop
    have hmem : '\x00' ∈ strncpyChars 32 s := by
      rw [hbuf]
      exact List.mem_append_right s List.mem_cons_self
    rw [grdWifiSsidEscape, hstring, if_pos ⟨hmem, hlt⟩, hloop]
    rcases Nat.lt_or_ge (escapeText s).length 32 with hfit | hfull
    · right
      rw [if_pos hfit]
      refine ⟨hfit, _, rfl, stringOf_append_zero ?_ _⟩
      intro hin
      rcases mem_escapeText hin with h | h
      · exact absurd h (by decide)
      · exact hzero h
    · exact .inl ⟨hfull, if_neg (Nat.not_lt.mpr hfull)⟩
  · left
    refine ⟨hge.trans (le_length_escapeText s), ?_⟩
    rw [grdWifiSsidEscape, strncpyChars_of_le hge, List.take_of_length_le hle, if_neg]
    exact fun h => hzero h.1

/-! ## The command lines -/

theorem Ordinary.of_isDigit {c : Char} (hc : c.isDigit) : Ordinary c := by
  have hspecial : "|&;<>()$`\n*?[".toList.all (fun d => !d.isDigit) = true := by decide
  have hquote : "'\"\\ \t#~".toList.all (fun d => !d.isDigit) = true := by decide
  refine ⟨fun hmem => ?_, fun hmem => ?_⟩
  · simpa [hc] using List.all_eq_true.mp hspecial c hmem
  · simpa [hc] using List.all_eq_true.mp hquote c hmem

theorem ordinary_printD (n : ℤ) : ∀ c ∈ printD n, Ordinary c := by
  intro c hc
  rw [printD] at hc
  split at hc
  · exact Ordinary.of_isDigit (digits_toDigits _ c hc)
  · rcases List.mem_cons.mp hc with rfl | hc
    · decide
    · exact Ordinary.of_isDigit (digits_toDigits _ c hc)

theorem printD_ne_nil (n : ℤ) : printD n ≠ [] := by
  rw [printD]
  split
  · exact Nat.toDigits_ne_nil
  · exact List.cons_ne_nil _ _

theorem length_printD_le {n : ℤ} (hlo : -2147483648 ≤ n) (hhi : n < 2147483648) :
    (printD n).length ≤ 11 := by
  have hten : ∀ m : ℕ, m < 10 ^ 10 → (Nat.toDigits 10 m).length ≤ 10 := by
    intro m hm
    exact (Nat.length_toDigits_le_iff (by decide) (by decide)).mpr hm
  rw [printD]
  split
  · exact (hten _ (by omega)).trans (by decide)
  · exact Nat.succ_le_succ (hten _ (by omega))

/-- The words in front of a credential. -/
def quotedWords (networkId : ℤ) (key : String) : List (List Char) :=
  ["wpa_cli".toList, "-iwlan0".toList, "set_network".toList, printD networkId, key.toList]

/-- A key that `start_sta` sets to a credential. -/
def CredentialKey (key : String) : Prop := key ∈ ["ssid", "wep_key0", "psk"]

theorem ordinary_quotedWords {key : String} (hkey : CredentialKey key) (networkId : ℤ) :
    ∀ t ∈ quotedWords networkId key, t ≠ [] ∧ ∀ c ∈ t, Ordinary c := by
  have hwords : ∀ {t : List Char}, t ≠ [] ∧ t.all (fun c => decide (Ordinary c)) = true →
      t ≠ [] ∧ ∀ c ∈ t, Ordinary c :=
    fun h => ⟨h.1, fun c hc => of_decide_eq_true (List.all_eq_true.mp h.2 c hc)⟩
  have hkeys : ∀ k ∈ ["ssid", "wep_key0", "psk"],
      k.toList ≠ [] ∧ k.toList.all (fun c => decide (Ordinary c)) = true := by
    decide
  have hfixed : ∀ t ∈ ["wpa_cli".toList, "-iwlan0".toList, "set_network".toList],
      t ≠ [] ∧ t.all (fun c => decide (Ordinary c)) = true := by
    decide
  intro t ht
  rcases List.mem_append.mp (show t ∈ ["wpa_cli".toList, "-iwlan0".toList, "set_network".toList] ++
    [printD networkId, key.toList] from ht) with ht | ht
  · exact hwords (hfixed t ht)
  · rcases List.mem_cons.mp ht with rfl | ht
    · exact ⟨printD_ne_nil networkId, ordinary_printD networkId⟩
    · exact List.mem_singleton.mp ht ▸ hwords (hkeys key hkey)

theorem setQuoted_cmd {networkId : ℤ} (hlo : -2147483648 ≤ networkId) (hhi : networkId < 2147483648)
    {key : String} (hkey : CredentialKey key) {value : List Char} (hvalue : value.length < 32)
    (f : Credential) :
    (setQuoted networkId key value f).cmd
      = ((quotedWords networkId key).flatMap fun t => t ++ [' '])
        ++ '\'' :: (('"' :: value ++ ['"']) ++ ['\'']) := by
  have hkeys : ∀ k ∈ ["ssid", "wep_key0", "psk"], k.toList.length ≤ 8 := by decide
  have hid := length_printD_le hlo hhi
  have hline : wpaCli "set_network" networkId ++ ' ' :: key.toList ++ " '\"".toList ++ value
      ++ "\"'".toList = ((quotedWords networkId key).flatMap fun t => t ++ [' '])
        ++ '\'' :: (('"' :: value ++ ['"']) ++ ['\'']) := by
    have hfront : "wpa_cli -iwlan0 ".toList
        = "wpa_cli".toList ++ ' ' :: "-iwlan0".toList ++ [' '] := by
      decide
    have hopen : " '\"".toList = [' ', '\'', '"'] := by decide
    have hclose : "\"'".toList = ['"', '\''] := by decide
    unfold wpaCli quotedWords
    rw [hfront, hopen, hclose]
    generalize "wpa_cli".toList = name
    generalize "-iwlan0".toList = interface
    generalize "set_network".toList = subcommand
    simp
  have hlength : (((quotedWords networkId key).flatMap fun t => t ++ [' '])
      ++ '\'' :: (('"' :: value ++ ['"']) ++ ['\''])).length ≤ 255 := by
    have := hkeys key hkey
    simp only [quotedWords, List.flatMap_cons, List.flatMap_nil, List.length_append,
      List.length_cons, List.length_nil]
    simp only [show "wpa_cli".toList.length = 7 from rfl, show "-iwlan0".toList.length = 7 from rfl,
      show "set_network".toList.length = 11 from rfl]
    omega
  rw [setQuoted]
  dsimp only
  rw [snprintfCmd, hline, List.take_of_length_le hlength]

/-! ## Which values are delivered -/

/-- Outside quotes or between single quotes. -/
def OutOrSingle (s : State) : Prop := s.mode = .plain ∨ s.mode = .single

theorem OutOrSingle.step {s s' : State} {c : Char} (hs : OutOrSingle s)
    (hc : s.mode = .plain → c ≠ '"' ∧ c ≠ '\\') (h : PosixShell.step s c = some s') :
    OutOrSingle s' := by
  rcases hs with hmode | hmode
  · obtain ⟨hdouble, hback⟩ := hc hmode
    rw [PosixShell.step, hmode] at h
    dsimp only at h
    rw [if_neg hdouble, if_neg hback] at h
    split at h
    · exact Option.some.inj h ▸ .inr rfl
    split at h
    · exact Option.some.inj h ▸ .inl hmode
    split at h
    · cases h
    · exact Option.some.inj h ▸ .inl hmode
  · rw [PosixShell.step, hmode] at h
    dsimp only at h
    split at h
    · exact Option.some.inj h ▸ .inl rfl
    · exact Option.some.inj h ▸ .inr hmode

/-- A character with its backslash. -/
theorem run_escaped {s s' : State} (hs : OutOrSingle s) (hquote : s.Unquoted) {c : Char}
    (hc : Escaped c) (h : run s ['\\', c] = some s') : OutOrSingle s' ∧ s'.Unquoted := by
  have hne : c ≠ '\'' ∧ c ≠ '\n' := by
    rcases hc with rfl | rfl | rfl
    all_goals decide
  rcases hs with hmode | hmode
  · have hback : PosixShell.step s '\\' = some { s with mode := .escape } := by
      rw [PosixShell.step, hmode]
      rfl
    rw [run_cons, hback, Option.bind_some, run_cons, PosixShell.step] at h
    dsimp only at h
    rw [if_neg hne.2, Option.bind_some, run_nil] at h
    obtain ⟨hword, hwords⟩ := hquote.push hne.1
    exact Option.some.inj h ▸ ⟨.inl rfl, hword, hwords⟩
  · obtain ⟨t, ht, h⟩ := Option.bind_eq_some_iff.mp h
    obtain ⟨t', ht', h⟩ := Option.bind_eq_some_iff.mp h
    have hnot : ∀ {u : State} {d : Char}, u.mode = .single → u.mode = .plain → d ≠ '"' ∧ d ≠ '\\' :=
      fun hsingle hplain => absurd (hsingle.symm.trans hplain) (by decide)
    have htmode : t.mode = .single := by
      rw [PosixShell.step, hmode] at ht
      exact Option.some.inj ht ▸ hmode
    have htquote := hquote.step (.inr hmode) ht
    rw [← Option.some.inj h]
    exact ⟨OutOrSingle.step (.inr htmode) (hnot htmode) ht', htquote.step (.inr htmode) ht'⟩

/-- Through the text with its backslashes the reader never gets between double quotes. -/
theorem run_escapeText {t : List Char} {s s' : State} (hs : OutOrSingle s) (hquote : s.Unquoted)
    (h : run s (escapeText t) = some s') : OutOrSingle s' ∧ s'.Unquoted := by
  induction t generalizing s with
  | nil => exact Option.some.inj h ▸ ⟨hs, hquote⟩
  | cons c t ih =>
    by_cases hc : Escaped c
    · rw [escapeText_cons_of_escaped hc, show '\\' :: c :: escapeText t = ['\\', c] ++ escapeText t
        from rfl, run_append] at h
      obtain ⟨u, hu, h⟩ := Option.bind_eq_some_iff.mp h
      obtain ⟨hmode, huquote⟩ := run_escaped hs hquote hc hu
      exact ih hmode huquote h
    · rw [escapeText_cons_of_not hc, run_cons] at h
      obtain ⟨u, hu, h⟩ := Option.bind_eq_some_iff.mp h
      have hne : c ≠ '"' ∧ c ≠ '\\' := ⟨fun h => hc (.inr (.inl h)), fun h => hc (.inr (.inr h))⟩
      exact ih (hs.step (fun _ => hne) hu) (hquote.step hs hu) h

/-- No word of a command line for a credential has a single quote in it. -/
theorem not_mem_of_command {ts : List (List Char)} (hts : ∀ t ∈ ts, t ≠ [] ∧ ∀ c ∈ t, Ordinary c)
    {t : List Char} {words : List (List Char)}
    (h : command ((ts.flatMap fun t => t ++ [' ']) ++ '\'' :: (('"' :: escapeText t ++ ['"'])
      ++ ['\''])) = some words) : ∀ w ∈ words, '\'' ∉ w := by
  have hwords : (⟨.plain, none, ts⟩ : State).Unquoted := by
    refine ⟨fun w hw => absurd hw (by simp), fun w hw hmem => ?_⟩
    exact ((hts w hw).2 _ hmem).2 (by decide)
  have hopen : run ⟨.plain, none, ts⟩ ['\'', '"'] = some ⟨.single, some ['"'], ts⟩ := rfl
  have hopened : (⟨.single, some ['"'], ts⟩ : State).Unquoted := by
    refine ⟨?_, hwords.2⟩
    rintro w ⟨⟩
    decide
  rw [show '\'' :: (('"' :: escapeText t ++ ['"']) ++ ['\''])
    = ['\'', '"'] ++ (escapeText t ++ ['"', '\'']) by simp, command, run_append, State.start,
    run_words hts, Option.bind_some, List.nil_append, run_append, hopen, Option.bind_some,
    run_append] at h
  obtain ⟨s, hs, h⟩ := Option.bind_eq_some_iff.mp h
  obtain ⟨u, hu, hs⟩ := Option.bind_eq_some_iff.mp hs
  obtain ⟨hmode, hquote⟩ := run_escapeText (.inr rfl) hopened hu
  split at h
  case isFalse => cases h
  case isTrue hplain =>
  rw [← Option.some.inj h]
  rcases hmode with hmode | hmode
  · -- the last double quote would stay open
    have hend : run u ['"', '\''] = some { u.quote.push '\'' with mode := .double } := by
      rw [run_cons, PosixShell.step, hmode]
      rfl
    rw [hend] at hs
    rw [← Option.some.inj hs] at hplain
    cases hplain
  · have hpush : run u ['"', '\''] = some { u.push '"' with mode := .plain } := by
      rw [run_cons, PosixShell.step, hmode]
      dsimp only
      rw [if_neg (by decide), Option.bind_some, run_cons, PosixShell.step]
      simp only [State.push, hmode]
      rfl
    rw [hpush] at hs
    rw [← Option.some.inj hs]
    have hword := hquote.push (c := '"') (by decide)
    exact (State.Unquoted.flush (s := { u.push '"' with mode := .plain }) ⟨hword.1, hword.2⟩).2

/-- A command line delivers its credential exactly when that is plain text. -/
theorem delivers_setQuoted_iff {networkId : ℤ} (hlo : -2147483648 ≤ networkId)
    (hhi : networkId < 2147483648) {key : String} (hkey : CredentialKey key) {s : List Char}
    (hfit : (escapeText s).length < 32) (f : Credential) :
    Delivers (setQuoted networkId key (escapeText s) f).cmd s ↔ PlainText s := by
  have hts := ordinary_quotedWords hkey networkId
  rw [Delivers, setQuoted_cmd hlo hhi hkey hfit]
  constructor
  · rintro ⟨args, hcommand, hlast⟩
    have hquote : '\'' ∉ s := by
      intro hmem
      refine not_mem_of_command hts hcommand ('"' :: s ++ ['"']) ?_ ?_
      · exact List.mem_cons_of_mem _ (List.mem_of_getLast? hlast)
      · exact List.mem_append_left _ (List.mem_cons_of_mem _ hmem)
    have harg : '\'' ∉ '"' :: escapeText s ++ ['"'] := by
      intro hmem
      rcases List.mem_append.mp hmem with hmem | hmem
      · rcases List.mem_cons.mp hmem with h | hmem
        · exact absurd h (by decide)
        · rcases mem_escapeText hmem with h | h
          · exact absurd h (by decide)
          · exact hquote h
      · exact absurd hmem (by decide)
    rw [command_quoted hts harg] at hcommand
    have hargs : args = ["-iwlan0".toList, "set_network".toList, printD networkId, key.toList]
        ++ ['"' :: escapeText s ++ ['"']] := (List.cons.inj (Option.some.inj hcommand)).2.symm
    rw [hargs, List.getLast?_concat, Option.some.injEq] at hlast
    have hsame : escapeText s = s :=
      List.append_cancel_right (List.cons.inj hlast).2
    exact fun c hc => ⟨ne_of_mem_of_not_mem hc hquote, (escapeText_eq_iff s).mp hsame c hc⟩
  · intro hplain
    have hsame : escapeText s = s := (escapeText_eq_iff s).mpr fun c hc => (hplain c hc).2
    have harg : '\'' ∉ '"' :: s ++ ['"'] := by
      intro hmem
      rcases List.mem_append.mp hmem with hmem | hmem
      · rcases List.mem_cons.mp hmem with h | hmem
        · exact absurd h (by decide)
        · exact (hplain _ hmem).1 rfl
      · exact absurd hmem (by decide)
    rw [hsame, command_quoted hts harg]
    exact ⟨_, rfl, List.getLast?_concat⟩

/-! ## The commands of `start_sta` -/

variable {networkId : ℤ} {wifiParam : SdkWifiCfg} {ssid pwd : List Char}

theorem ssid_sent :
    setQuoted networkId "ssid" ssid .ssid ∈ staCommands networkId wifiParam ssid pwd := by
  simp [staCommands]

theorem pwd_sent (ssid : List Char) (hsends : wifiParam.SendsPwd) :
    ∃ key, CredentialKey key ∧
      setQuoted networkId key pwd .pwd ∈ staCommands networkId wifiParam ssid pwd := by
  rcases hsends with hwpa | ⟨hnone, hwep, hmode⟩
  · refine ⟨"psk", by simp [CredentialKey], ?_⟩
    rw [staCommands, if_pos hwpa]
    simp
  · refine ⟨"wep_key0", by simp [CredentialKey], ?_⟩
    rw [staCommands, if_neg hnone, if_pos hwep, wepCommands]
    rcases hmode with hmode | hmode
    · rw [if_pos hmode]
      simp
    · rw [if_pos hmode]
      simp

/-- The command lines that carry a credential. -/
theorem credential_cases {c : WpaCommand} (hc : c ∈ staCommands networkId wifiParam ssid pwd)
    {f : Credential} (hf : c.credential = some f) :
    (f = .ssid ∧ c = setQuoted networkId "ssid" ssid .ssid) ∨
      f = .pwd ∧ wifiParam.SendsPwd ∧
        ∃ key, CredentialKey key ∧ c = setQuoted networkId key pwd .pwd := by
  have hplain : ∀ {setting : String}, c ≠ setNetwork networkId setting := by
    rintro setting rfl
    cases hf
  rw [staCommands] at hc
  rcases List.mem_append.mp hc with hc | hc
  · rcases List.mem_append.mp hc with hc | hc
    · rcases List.mem_append.mp hc with hc | hc
      · rcases List.mem_cons.mp hc with hc | hc
        · exact absurd hc hplain
        · obtain rfl := List.mem_singleton.mp hc
          exact .inl ⟨(Option.some.inj hf).symm, rfl⟩
      · split at hc
        · exact absurd (List.mem_singleton.mp hc) hplain
        case isFalse hnone =>
        split at hc
        case isFalse => cases hc
        case isTrue hwep =>
        rw [wepCommands] at hc
        have hkey : c = setQuoted networkId "wep_key0" pwd .pwd ∧
            (wifiParam.authMode = 3 ∨ wifiParam.authMode = 4) := by
          rcases List.mem_append.mp hc with hc | hc
          · split at hc
            · simp only [List.mem_cons, List.not_mem_nil, or_false, hplain, false_or] at hc
              exact ⟨hc, .inl ‹_›⟩
            · cases hc
          · split at hc
            · simp only [List.mem_cons, List.not_mem_nil, or_false, hplain, false_or] at hc
              exact ⟨hc, .inr ‹_›⟩
            · cases hc
        obtain ⟨rfl, hmode⟩ := hkey
        exact .inr ⟨(Option.some.inj hf).symm, .inr ⟨hnone, hwep, hmode⟩, "wep_key0",
          by simp [CredentialKey], rfl⟩
    · split at hc
      case isFalse => cases hc
      case isTrue hwpa =>
      rcases List.mem_cons.mp hc with hc | hc
      · exact absurd hc hplain
      · obtain rfl := List.mem_singleton.mp hc
        exact .inr ⟨(Option.some.inj hf).symm, .inl hwpa, "psk", by simp [CredentialKey], rfl⟩
  · rcases List.mem_cons.mp hc with rfl | hc
    · cases hf
    · obtain rfl := List.mem_singleton.mp hc
      cases hf

/-- `start_sta` keeps its writes in the buffers and delivers the credentials exactly when both
strings leave room for their backslashes and an end, and those that are sent have no quote of
either kind, no backquote and no backslash. -/
theorem credentials_delivered_iff (wifiParam : SdkWifiCfg) (hfits : wifiParam.Fits) (networkId : ℤ)
    (hlo : -2147483648 ≤ networkId) (hhi : networkId < 2147483648) :
    Delivered wifiParam networkId ↔
      wifiParam.ssid.length ≤ 31 ∧ PlainText wifiParam.ssid ∧
        wifiParam.pwd.length + (wifiParam.pwd.countP fun c => Escaped c) ≤ 31 ∧
        (wifiParam.SendsPwd → PlainText wifiParam.pwd) := by
  have hssid := grdWifiSsidEscape_strncpy hfits.ssid_le hfits.ssid_zero
  have hpwd := grdWifiSsidEscape_strncpy hfits.pwd_le hfits.pwd_zero
  rw [← length_escapeText]
  constructor
  · rintro ⟨cmds, hcmds, hall⟩
    obtain ⟨ssid, hssid', hcmds⟩ := Option.bind_eq_some_iff.mp hcmds
    obtain ⟨pwd, hpwd', hcmds⟩ := Option.bind_eq_some_iff.mp hcmds
    rcases hssid with ⟨-, hnone⟩ | ⟨hssidFit, ssid', hsome, hssidText⟩
    · exact absurd (hnone.symm.trans hssid') (by simp)
    obtain rfl := Option.some.inj (hsome.symm.trans hssid')
    rcases hpwd with ⟨-, hnone⟩ | ⟨hpwdFit, pwd', hsome, hpwdText⟩
    · exact absurd (hnone.symm.trans hpwd') (by simp)
    obtain rfl := Option.some.inj (hsome.symm.trans hpwd')
    rw [hssidText, hpwdText] at hcmds
    obtain rfl := Option.some.inj hcmds
    have hssidPlain : PlainText wifiParam.ssid :=
      (delivers_setQuoted_iff hlo hhi (by simp [CredentialKey]) hssidFit .ssid).mp
        (hall _ ssid_sent .ssid rfl)
    have hle := le_length_escapeText wifiParam.ssid
    refine ⟨by omega, hssidPlain, by omega, fun hsends => ?_⟩
    obtain ⟨key, hkey, hsent⟩ := pwd_sent (escapeText wifiParam.ssid) hsends
    exact (delivers_setQuoted_iff hlo hhi hkey hpwdFit .pwd).mp (hall _ hsent .pwd rfl)
  · rintro ⟨hssidLe, hssidPlain, hpwdLe, hpwdPlain⟩
    have hsame : escapeText wifiParam.ssid = wifiParam.ssid :=
      (escapeText_eq_iff _).mpr fun c hc => (hssidPlain c hc).2
    rcases hssid with ⟨hfull, -⟩ | ⟨hssidFit, ssid, hssid, hssidText⟩
    · rw [hsame] at hfull
      omega
    rcases hpwd with ⟨hfull, -⟩ | ⟨hpwdFit, pwd, hpwd, hpwdText⟩
    · omega
    refine ⟨staCommands networkId wifiParam (escapeText wifiParam.ssid)
      (escapeText wifiParam.pwd), ?_, ?_⟩
    · rw [startSta, hssid, hpwd, ← hssidText, ← hpwdText]
      rfl
    · intro c hc f hf
      rcases credential_cases hc hf with ⟨rfl, rfl⟩ | ⟨rfl, hsends, key, hkey, rfl⟩
      · exact (delivers_setQuoted_iff hlo hhi (by simp [CredentialKey]) hssidFit .ssid).mpr
          hssidPlain
      · exact (delivers_setQuoted_iff hlo hhi hkey hpwdFit .pwd).mpr (hpwdPlain hsends)

/-- A home network. -/
theorem credentials_delivered_home :
    Delivered ⟨"home".toList, "12345678".toList, 0, "WPA2".toList⟩ 0 :=
  (credentials_delivered_iff ⟨"home".toList, "12345678".toList, 0, "WPA2".toList⟩
    ⟨by decide, by decide, by decide, by decide⟩ 0 (by decide) (by decide)).mpr
    ⟨by decide, by decide, by decide, fun _ => by decide⟩

/-- A network whose name ends the quotes: the shell goes on with a command of its own. -/
theorem ssid_reboots :
    ¬ Delivered ⟨"a';reboot;'".toList, "12345678".toList, 0, "WPA2".toList⟩ 0 := by
  rintro ⟨cmds, hcmds, hall⟩
  have hsent : (startSta ⟨"a';reboot;'".toList, "12345678".toList, 0, "WPA2".toList⟩ 0).map
      (fun cmds => decide (setQuoted 0 "ssid" "a';reboot;'".toList .ssid ∈ cmds)) = some true := by
    decide
  rw [hcmds, Option.map_some, Option.some.injEq, decide_eq_true_iff] at hsent
  obtain ⟨args, hcommand, -⟩ := hall _ hsent .ssid rfl
  have hnone : command (setQuoted 0 "ssid" "a';reboot;'".toList .ssid).cmd = none := by decide
  rw [hnone] at hcommand
  cases hcommand
