/-
# The wireless configuration file (`testdanavideo.c`, `net.c`)

`set_wifi_config` writes the name and the password of a network as two lines, unless the file
looks as if it had them already; `get_wifi_config` and `check_parse_result` read them back.  The
readers take the file in pieces of at most 63 characters and look for the key words anywhere in a
piece, and `set_wifi_config` compares with buffers that hold 31 characters.

`wifi_config_round_trip_iff` tells from which files which credentials are read back.

A file that is there can be read.
-/
import IpCamera.CString
import IpCamera.LineScan

open CString LineInput LineScan

/-! ## Reading -/

/-- The strings in `ssid_buf` and `pwd_buf`. -/
structure WifiBuffers where
  ssid : List Char
  pwd : List Char
  deriving DecidableEq, Repr

/-- `pData` has 64 characters, one of them for the end of the string. -/
def dataRoom : ℕ := 63

/-- The string in `pData` after its newlines became ends. -/
def lineText (pData : List Char) : List Char := pData.takeWhile fun c => c ≠ '\x00' ∧ c ≠ '\n'

/-- What `snprintf` leaves of a string in a buffer. -/
def snprintfString (size : ℕ) (str : List Char) : List Char := str.take (size - 1)

/-- The body of the loop of both readers. -/
def parseData (ssidLen pwdLen : ℕ) (bufs : WifiBuffers) (pData : List Char) : WifiBuffers :=
  match strstr "SSID=".toList (lineText pData) with
  | some str => { bufs with ssid := snprintfString ssidLen (str.drop 5) }
  | none =>
    match strstr "PASSWORD=".toList (lineText pData) with
    | some str => { bufs with pwd := snprintfString pwdLen (str.drop 9) }
    | none => bufs

/-- The loop. -/
def parseFile (ssidLen pwdLen : ℕ) (fpInfo : Stream) (bufs : WifiBuffers) : WifiBuffers :=
  whileFgets dataRoom (by decide) (fun pData bufs => .yield (parseData ssidLen pwdLen bufs pData))
    fpInfo bufs

/-- `get_wifi_config` -/
def getWifiConfig (ssidLen pwdLen : ℕ) (file : Option (List Char)) (bufs : WifiBuffers) :
    ℤ × WifiBuffers :=
  match file with
  | none => (-1, bufs)
  | some text => (0, parseFile ssidLen pwdLen ⟨text, false⟩ bufs)

/-- `check_parse_result` -/
def checkParseResult (ssidLen pwdLen : ℕ) (file : Option (List Char)) (bufs : WifiBuffers) :
    ℤ × WifiBuffers :=
  match file with
  | none => (0, bufs)
  | some text => (0, parseFile ssidLen pwdLen ⟨text, false⟩ bufs)

/-! ## Writing -/

/-- What the two `fprintf` write. -/
def configText (ssid pwd : List Char) : List Char :=
  "SSID=".toList ++ ssid ++ '\n' :: ("PASSWORD=".toList ++ pwd ++ ['\n'])

/-- `set_wifi_config`, and the file after it; `opens` tells whether the file can be opened for
writing. -/
def setWifiConfig (opens : Bool) (file : Option (List Char)) (mySsid myPwd : List Char) :
    ℤ × Option (List Char) :=
  let (state, pre) := getWifiConfig 32 32 file ⟨[], []⟩
  if state = 0 ∧ pre.ssid = mySsid ∧ pre.pwd = myPwd then (0, file)
  else if opens then (0, some (configText mySsid myPwd))
  else (-1, file)

/-! ## What is asked of them -/

/-- Whenever `set_wifi_config` reports success, both readers find what was set, whatever was in the
buffers. -/
def RoundTrips (file : Option (List Char)) (ssid pwd : List Char) : Prop :=
  ∀ opens file', setWifiConfig opens file ssid pwd = (0, file') → ∀ bufs,
    (getWifiConfig 64 64 file' bufs).2 = ⟨ssid, pwd⟩ ∧
      (checkParseResult 64 64 file' bufs).2 = ⟨ssid, pwd⟩

/-- A string that can be stored as one line. -/
def OneLine (s : List Char) : Prop := '\n' ∉ s ∧ '\x00' ∉ s

instance : DecidablePred OneLine := fun _ => inferInstanceAs (Decidable (_ ∧ _))

/-- The name that a piece of the file stores. -/
def ssidValue (pData : List Char) : Option (List Char) :=
  (strstr "SSID=".toList (lineText pData)).map (List.drop 5)

/-- The password that a piece stores, if it stores no name. -/
def pwdValue (pData : List Char) : Option (List Char) :=
  if "SSID=".toList <:+: lineText pData then none
  else (strstr "PASSWORD=".toList (lineText pData)).map (List.drop 9)

/-- The last name in a file. -/
def storedSsid (text : List Char) : Option (List Char) :=
  ((pieces dataRoom text).filterMap ssidValue).getLast?

/-- The last password in a file. -/
def storedPwd (text : List Char) : Option (List Char) :=
  ((pieces dataRoom text).filterMap pwdValue).getLast?

/-- The beginnings of what a file stores are these credentials: `set_wifi_config` takes it for
up to date. -/
def LooksStored (file : Option (List Char)) (ssid pwd : List Char) : Prop :=
  ∃ text ∈ file, ((storedSsid text).getD []).take 31 = ssid ∧
    ((storedPwd text).getD []).take 31 = pwd

/-- Both values are there, and not longer than the buffers of `set_wifi_config`. -/
def StoredShort (file : Option (List Char)) : Prop :=
  ∃ text ∈ file, (∃ s ∈ storedSsid text, s.length ≤ 31) ∧ ∃ p ∈ storedPwd text, p.length ≤ 31

/-! ## The readers find the last values -/

theorem parseData_eq (ssidLen pwdLen : ℕ) (bufs : WifiBuffers) (pData : List Char) :
    parseData ssidLen pwdLen bufs pData
      = ⟨((ssidValue pData).map (snprintfString ssidLen)).getD bufs.ssid,
          ((pwdValue pData).map (snprintfString pwdLen)).getD bufs.pwd⟩ := by
  rw [parseData, ssidValue, pwdValue]
  cases hssid : strstr "SSID=".toList (lineText pData) with
  | some str =>
    have hinfix : "SSID=".toList <:+: lineText pData := by
      by_contra hnot
      rw [strstr_eq_none_iff.mpr hnot] at hssid
      cases hssid
    rw [if_pos hinfix]
    rfl
  | none =>
    rw [if_neg (strstr_eq_none_iff.mp hssid)]
    cases strstr "PASSWORD=".toList (lineText pData) with
    | some str => rfl
    | none => rfl

/-- Over many pieces the last value of each kind stays. -/
theorem foldl_parseData (ssidLen pwdLen : ℕ) (bufs : WifiBuffers) (ps : List (List Char)) :
    ps.foldl (parseData ssidLen pwdLen) bufs
      = ⟨((ps.filterMap ssidValue).getLast?.map (snprintfString ssidLen)).getD bufs.ssid,
          ((ps.filterMap pwdValue).getLast?.map (snprintfString pwdLen)).getD bufs.pwd⟩ := by
  induction ps using List.reverseRecOn with
  | nil => rfl
  | append_singleton ps pData ih =>
    rw [List.foldl_append, List.foldl_cons, List.foldl_nil, ih, parseData_eq, List.filterMap_append,
      List.filterMap_append]
    cases hssid : ssidValue pData with
    | none =>
      cases hpwd : pwdValue pData with
      | none => simp [hssid, hpwd]
      | some p => simp [hssid, hpwd]
    | some s =>
      cases hpwd : pwdValue pData with
      | none => simp [hssid, hpwd]
      | some p => simp [hssid, hpwd]

theorem parseFile_stored (ssidLen pwdLen : ℕ) (text : List Char) (bufs : WifiBuffers) :
    parseFile ssidLen pwdLen ⟨text, false⟩ bufs
      = ⟨((storedSsid text).map (snprintfString ssidLen)).getD bufs.ssid,
          ((storedPwd text).map (snprintfString pwdLen)).getD bufs.pwd⟩ := by
  rw [parseFile, whileFgets_eq, runPieces_yield, ForInStep.value_yield, foldl_parseData, storedSsid,
    storedPwd]

/-! ## The length of a value -/

theorem lineText_of_oneLine {t : List Char} (ht : OneLine t) : lineText t = t := by
  refine List.takeWhile_eq_self_iff.mpr fun c hc => decide_eq_true ?_
  exact ⟨ne_of_mem_of_not_mem hc ht.2, ne_of_mem_of_not_mem hc ht.1⟩

theorem lineText_append_newline {t : List Char} (ht : OneLine t) : lineText (t ++ ['\n']) = t := by
  have hall : ∀ c ∈ t, decide (c ≠ '\x00' ∧ c ≠ '\n') = true := fun c hc =>
    decide_eq_true ⟨ne_of_mem_of_not_mem hc ht.2, ne_of_mem_of_not_mem hc ht.1⟩
  rw [lineText, List.takeWhile_append_of_pos hall, List.takeWhile_cons_of_neg (by simp),
    List.append_nil]

theorem length_strstr_drop (needle : List Char) {text s : List Char}
    (hs : (strstr needle text).map (List.drop needle.length) = some s) :
    s.length + needle.length ≤ text.length := by
  obtain ⟨str, hstr, rfl⟩ := Option.map_eq_some_iff.mp hs
  have hsuffix := (suffix_of_strstr hstr).length_le
  have hprefix := (prefix_of_strstr hstr).length_le
  rw [List.length_drop]
  omega

theorem length_lineText {pData text : List Char} (hp : pData ∈ pieces dataRoom text) :
    (lineText pData).length ≤ dataRoom :=
  (List.takeWhile_prefix _).length_le.trans (length_piece_le hp)

/-- A stored name fits a buffer of 64 characters. -/
theorem length_storedSsid {text s : List Char} (hs : storedSsid text = some s) : s.length ≤ 58 := by
  obtain ⟨pData, hp, hvalue⟩ := List.mem_filterMap.mp (List.mem_of_getLast? hs)
  have hle := length_strstr_drop "SSID=".toList hvalue
  have hroom := length_lineText hp
  rw [show "SSID=".toList.length = 5 from rfl] at hle
  rw [dataRoom] at hroom
  omega

/-- A stored password fits a buffer of 64 characters. -/
theorem length_storedPwd {text p : List Char} (hp : storedPwd text = some p) : p.length ≤ 54 := by
  obtain ⟨pData, hmem, hvalue⟩ := List.mem_filterMap.mp (List.mem_of_getLast? hp)
  rw [pwdValue] at hvalue
  split at hvalue
  · cases hvalue
  · have hle := length_strstr_drop "PASSWORD=".toList hvalue
    have hroom := length_lineText hmem
    rw [show "PASSWORD=".toList.length = 9 from rfl] at hle
    rw [dataRoom] at hroom
    omega

theorem snprintfString_of_le {size : ℕ} {str : List Char} (h : str.length ≤ size - 1) :
    snprintfString size str = str := List.take_of_length_le h

/-- With buffers of 64 characters and whatever is in them, a reader gives the credentials exactly
when the file stores them. -/
theorem parseFile_iff (text ssid pwd : List Char) :
    (∀ bufs, parseFile 64 64 ⟨text, false⟩ bufs = ⟨ssid, pwd⟩) ↔
      storedSsid text = some ssid ∧ storedPwd text = some pwd := by
  constructor
  · intro h
    -- two buffers with different contents: a value that is not stored would stay
    have hone := h ⟨[], []⟩
    have htwo := h ⟨['x'], ['x']⟩
    rw [parseFile_stored] at hone htwo
    obtain ⟨hssid, hpwd⟩ := WifiBuffers.mk.inj hone
    obtain ⟨hssid', hpwd'⟩ := WifiBuffers.mk.inj htwo
    constructor
    · cases hstored : storedSsid text with
      | none =>
        rw [hstored] at hssid hssid'
        exact absurd (hssid.trans hssid'.symm) (by decide)
      | some s =>
        rw [hstored, Option.map_some, Option.getD_some,
          snprintfString_of_le ((length_storedSsid hstored).trans (by decide))] at hssid
        rw [hssid]
    · cases hstored : storedPwd text with
      | none =>
        rw [hstored] at hpwd hpwd'
        exact absurd (hpwd.trans hpwd'.symm) (by decide)
      | some p =>
        rw [hstored, Option.map_some, Option.getD_some,
          snprintfString_of_le ((length_storedPwd hstored).trans (by decide))] at hpwd
        rw [hpwd]
  · rintro ⟨hssid, hpwd⟩ bufs
    rw [parseFile_stored, hssid, hpwd, Option.map_some, Option.map_some, Option.getD_some,
      Option.getD_some, snprintfString_of_le ((length_storedSsid hssid).trans (by decide)),
      snprintfString_of_le ((length_storedPwd hpwd).trans (by decide))]

/-! ## What a written file stores -/

section Written

variable {ssid pwd : List Char}

theorem OneLine.append {s t : List Char} (hs : OneLine s) (ht : OneLine t) : OneLine (s ++ t) :=
  ⟨fun h => (List.mem_append.mp h).elim hs.1 ht.1, fun h => (List.mem_append.mp h).elim hs.2 ht.2⟩

/-- The line of the name is one piece. -/
theorem pieces_configText (hssid : OneLine ssid) (hle : ssid.length ≤ 32) (pwd : List Char) :
    pieces dataRoom (configText ssid pwd) = ("SSID=".toList ++ ssid ++ ['\n'])
      :: pieces dataRoom ("PASSWORD=".toList ++ pwd ++ ['\n']) := by
  have hline : OneLine ("SSID=".toList ++ ssid) := OneLine.append (by decide) hssid
  have hlength : ("SSID=".toList ++ ssid).length < dataRoom := by
    rw [List.length_append, show "SSID=".toList.length = 5 from rfl, dataRoom]
    omega
  rw [configText, pieces_append (by decide) hline.1, pieces_of_lt hline.1 hlength,
    List.singleton_append]

/-- The line of a password of at most 54 characters is a piece, and perhaps a newline is left. -/
theorem pieces_password (hpwd : OneLine pwd) (hle : pwd.length ≤ 54) :
    ∃ pData rest, pieces dataRoom ("PASSWORD=".toList ++ pwd ++ ['\n']) = pData :: rest ∧
      lineText pData = "PASSWORD=".toList ++ pwd ∧ ∀ p ∈ rest, lineText p = [] := by
  have hline : OneLine ("PASSWORD=".toList ++ pwd) := OneLine.append (by decide) hpwd
  have hlength : ("PASSWORD=".toList ++ pwd).length = 9 + pwd.length := by
    rw [List.length_append]
    rfl
  rcases Nat.lt_or_ge ("PASSWORD=".toList ++ pwd).length dataRoom with hlt | hge
  · rw [pieces_of_lt hline.1 hlt]
    exact ⟨_, [], rfl, lineText_append_newline hline, fun p hp => absurd hp List.not_mem_nil⟩
  · have hfull : ("PASSWORD=".toList ++ pwd).length = dataRoom := by
      rw [dataRoom] at hge ⊢
      omega
    rw [pieces_of_ne_nil (by decide) (by simp), line_of_le hline.1 hge,
      List.take_of_length_le hfull.le, List.drop_of_length_le hfull.le]
    refine ⟨_, _, rfl, lineText_of_oneLine hline, ?_⟩
    intro p hp
    rw [pieces_of_lt (t := []) List.not_mem_nil (by decide), List.mem_singleton] at hp
    rw [hp]
    rfl

theorem ssidValue_of_nil {p : List Char} (hp : lineText p = []) : ssidValue p = none := by
  rw [ssidValue, hp]
  rfl

theorem pwdValue_of_nil {p : List Char} (hp : lineText p = []) : pwdValue p = none := by
  rw [pwdValue, hp]
  rfl

/-- Only the password can bring a key word into its line. -/
theorem strstr_ssid_password (pwd : List Char) :
    strstr "SSID=".toList ("PASSWORD=".toList ++ pwd) = strstr "SSID=".toList pwd := by
  rfl

/-- A file stores what was written to it exactly when the password has at most 54 characters and
does not contain `SSID=`. -/
theorem stored_configText_iff (hssid : OneLine ssid) (hssidLe : ssid.length ≤ 32)
    (hpwd : OneLine pwd) :
    (storedSsid (configText ssid pwd) = some ssid ∧ storedPwd (configText ssid pwd) = some pwd) ↔
      pwd.length ≤ 54 ∧ ¬ "SSID=".toList <:+: pwd := by
  have hline : OneLine ("SSID=".toList ++ ssid) := OneLine.append (by decide) hssid
  have hstrstr : strstr "SSID=".toList ("SSID=".toList ++ ssid) = some ("SSID=".toList ++ ssid) :=
    strstr_of_prefix (List.prefix_append _ _)
  have hssidValue : ssidValue ("SSID=".toList ++ ssid ++ ['\n']) = some ssid := by
    rw [ssidValue, lineText_append_newline hline, hstrstr]
    rfl
  have hssidPwd : pwdValue ("SSID=".toList ++ ssid ++ ['\n']) = none := by
    rw [pwdValue, lineText_append_newline hline, if_pos (List.prefix_append _ _).isInfix]
  have hpieces : pwd.length ≤ 54 → ∃ pData, lineText pData = "PASSWORD=".toList ++ pwd ∧
      storedSsid (configText ssid pwd) = some ((ssidValue pData).getD ssid) ∧
      storedPwd (configText ssid pwd) = pwdValue pData := by
    intro hle
    obtain ⟨pData, rest, hpieces, htext, hrest⟩ := pieces_password hpwd hle
    have hrestSsid : rest.filterMap ssidValue = [] :=
      List.filterMap_eq_nil_iff.mpr fun p hp => ssidValue_of_nil (hrest p hp)
    have hrestPwd : rest.filterMap pwdValue = [] :=
      List.filterMap_eq_nil_iff.mpr fun p hp => pwdValue_of_nil (hrest p hp)
    refine ⟨pData, htext, ?_, ?_⟩
    · rw [storedSsid, pieces_configText hssid hssidLe, hpieces, List.filterMap_cons_some hssidValue]
      cases hvalue : ssidValue pData with
      | none => rw [List.filterMap_cons_none hvalue, hrestSsid]; rfl
      | some s => rw [List.filterMap_cons_some hvalue, hrestSsid]; rfl
    · rw [storedPwd, pieces_configText hssid hssidLe, hpieces, List.filterMap_cons_none hssidPwd]
      cases hvalue : pwdValue pData with
      | none => rw [List.filterMap_cons_none hvalue, hrestPwd]; rfl
      | some p => rw [List.filterMap_cons_some hvalue, hrestPwd]; rfl
  constructor
  · rintro ⟨-, hpwdStored⟩
    have hle := length_storedPwd hpwdStored
    obtain ⟨pData, htext, -, hvalue⟩ := hpieces hle
    refine ⟨hle, fun hinfix => ?_⟩
    have hin : "SSID=".toList <:+: lineText pData := by
      rw [htext]
      exact hinfix.trans (List.suffix_append _ _).isInfix
    rw [hvalue, pwdValue, if_pos hin] at hpwdStored
    cases hpwdStored
  · rintro ⟨hle, hinfix⟩
    obtain ⟨pData, htext, hssidStored, hpwdStored⟩ := hpieces hle
    have hnone : strstr "SSID=".toList (lineText pData) = none := by
      rw [htext, strstr_ssid_password, strstr_eq_none_iff]
      exact hinfix
    rw [hssidStored, hpwdStored, ssidValue, hnone, pwdValue, if_neg (strstr_eq_none_iff.mp hnone),
      htext, strstr_of_prefix (List.prefix_append _ _)]
    exact ⟨rfl, rfl⟩

end Written

/-! ## The round trip -/

/-- The test with which `set_wifi_config` begins. -/
theorem looksStored_iff (file : Option (List Char)) (ssid pwd : List Char) :
    ((getWifiConfig 32 32 file ⟨[], []⟩).1 = 0 ∧ (getWifiConfig 32 32 file ⟨[], []⟩).2.ssid = ssid ∧
      (getWifiConfig 32 32 file ⟨[], []⟩).2.pwd = pwd) ↔ LooksStored file ssid pwd := by
  cases file with
  | none =>
    refine iff_of_false (fun h => absurd h.1 (by decide)) ?_
    rintro ⟨text, hfile, -⟩
    cases hfile
  | some text =>
    have htake : ∀ stored : Option (List Char),
        (stored.map (snprintfString 32)).getD [] = (stored.getD []).take 31 := by
      intro stored
      cases stored with
      | none => rfl
      | some s => rfl
    rw [getWifiConfig, parseFile_stored, LooksStored]
    dsimp only
    rw [htake, htake]
    constructor
    · rintro ⟨-, hssid, hpwd⟩
      exact ⟨text, rfl, hssid, hpwd⟩
    · rintro ⟨text', hfile, hssid, hpwd⟩
      obtain rfl := Option.some.inj hfile
      exact ⟨rfl, hssid, hpwd⟩

section RoundTrip

variable {file : Option (List Char)} {ssid pwd : List Char}

theorem setWifiConfig_of_looksStored (h : LooksStored file ssid pwd) (opens : Bool) :
    setWifiConfig opens file ssid pwd = (0, file) := by
  rw [setWifiConfig]
  exact if_pos ((looksStored_iff file ssid pwd).mpr h)

theorem setWifiConfig_of_not_looksStored (h : ¬ LooksStored file ssid pwd) (opens : Bool) :
    setWifiConfig opens file ssid pwd
      = if opens then (0, some (configText ssid pwd)) else (-1, file) := by
  rw [setWifiConfig]
  exact if_neg fun hlooks => h ((looksStored_iff file ssid pwd).mp hlooks)

/-- Both readers give the credentials exactly when there is a file and it stores them. -/
theorem readers_iff (file : Option (List Char)) (ssid pwd : List Char) :
    (∀ bufs, (getWifiConfig 64 64 file bufs).2 = ⟨ssid, pwd⟩ ∧
      (checkParseResult 64 64 file bufs).2 = ⟨ssid, pwd⟩) ↔
        ∃ text ∈ file, storedSsid text = some ssid ∧ storedPwd text = some pwd := by
  cases file with
  | none =>
    constructor
    · intro h
      have hone : (⟨[], []⟩ : WifiBuffers) = ⟨ssid, pwd⟩ := (h ⟨[], []⟩).1
      have htwo : (⟨['x'], []⟩ : WifiBuffers) = ⟨ssid, pwd⟩ := (h ⟨['x'], []⟩).1
      exact absurd (hone.trans htwo.symm) (by decide)
    · rintro ⟨text, hfile, -⟩
      cases hfile
  | some text =>
    have hboth : (∀ bufs, (getWifiConfig 64 64 (some text) bufs).2 = ⟨ssid, pwd⟩ ∧
        (checkParseResult 64 64 (some text) bufs).2 = ⟨ssid, pwd⟩) ↔
          ∀ bufs, parseFile 64 64 ⟨text, false⟩ bufs = ⟨ssid, pwd⟩ :=
      forall_congr' fun bufs => and_self_iff
    rw [hboth, parseFile_iff]
    constructor
    · exact fun h => ⟨text, rfl, h⟩
    · rintro ⟨text', hfile, h⟩
      obtain rfl := Option.some.inj hfile
      exact h

/-- Where nothing is written, the old values are read. -/
theorem roundTrips_old_iff (hlooks : LooksStored file ssid pwd) :
    RoundTrips file ssid pwd ↔
      ∃ text ∈ file, storedSsid text = some ssid ∧ storedPwd text = some pwd := by
  rw [← readers_iff]
  constructor
  · exact fun h => h true file (setWifiConfig_of_looksStored hlooks true)
  · intro h opens file' hset
    rw [setWifiConfig_of_looksStored hlooks] at hset
    rw [← (Prod.mk.inj hset).2]
    exact h

/-- Where the file is written, the new text is read. -/
theorem roundTrips_new_iff (hlooks : ¬ LooksStored file ssid pwd) :
    RoundTrips file ssid pwd ↔
      storedSsid (configText ssid pwd) = some ssid ∧
        storedPwd (configText ssid pwd) = some pwd := by
  have hreaders := readers_iff (some (configText ssid pwd)) ssid pwd
  constructor
  · intro h
    have hset : setWifiConfig true file ssid pwd = (0, some (configText ssid pwd)) :=
      setWifiConfig_of_not_looksStored hlooks true
    obtain ⟨text, hfile, hstored⟩ := hreaders.mp (h true _ hset)
    obtain rfl := Option.some.inj hfile
    exact hstored
  · intro h opens file' hset
    rw [setWifiConfig_of_not_looksStored hlooks] at hset
    cases opens with
    | true =>
      rw [← (Prod.mk.inj hset).2]
      exact hreaders.mpr ⟨_, rfl, h⟩
    | false => exact absurd (Prod.mk.inj hset).1 (by decide)

/-- Values that look equal are equal exactly when they are short enough to tell. -/
theorem stored_iff_storedShort (hlooks : LooksStored file ssid pwd) :
    (∃ text ∈ file, storedSsid text = some ssid ∧ storedPwd text = some pwd) ↔
      StoredShort file := by
  obtain ⟨text, hfile, hssidLooks, hpwdLooks⟩ := hlooks
  constructor
  · rintro ⟨text', hfile', hssidStored, hpwdStored⟩
    obtain rfl := Option.some.inj (hfile.symm.trans hfile')
    rw [hssidStored, Option.getD_some, List.take_eq_self_iff] at hssidLooks
    rw [hpwdStored, Option.getD_some, List.take_eq_self_iff] at hpwdLooks
    exact ⟨text, hfile, ⟨ssid, hssidStored, hssidLooks⟩, pwd, hpwdStored, hpwdLooks⟩
  · rintro ⟨text', hfile', ⟨s, hs, hsLe⟩, p, hp, hpLe⟩
    obtain rfl := Option.some.inj (hfile.symm.trans hfile')
    rw [Option.mem_def] at hs hp
    rw [hs, Option.getD_some, List.take_of_length_le hsLe] at hssidLooks
    rw [hp, Option.getD_some, List.take_of_length_le hpLe] at hpwdLooks
    exact ⟨text, hfile, hssidLooks ▸ hs, hpwdLooks ▸ hp⟩

/-- From any file, success of `set_wifi_config` means that the credentials are read back exactly
when either the file already looked as if it had them and its values are short enough to tell, or it
did not and the password has at most 54 characters and does not contain `SSID=`. -/
theorem wifi_config_round_trip_iff (file : Option (List Char)) (ssid pwd : List Char)
    (hssid : OneLine ssid) (hssidLe : ssid.length ≤ 32) (hpwd : OneLine pwd) :
    RoundTrips file ssid pwd ↔
      (LooksStored file ssid pwd → StoredShort file) ∧
        (¬ LooksStored file ssid pwd → pwd.length ≤ 54 ∧ ¬ "SSID=".toList <:+: pwd) := by
  by_cases hlooks : LooksStored file ssid pwd
  · rw [roundTrips_old_iff hlooks, stored_iff_storedShort hlooks]
    constructor
    · exact fun h => ⟨fun _ => h, fun hnot => absurd hlooks hnot⟩
    · exact fun h => h.1 hlooks
  · rw [roundTrips_new_iff hlooks, stored_configText_iff hssid hssidLe hpwd]
    constructor
    · exact fun h => ⟨fun hyes => absurd hyes hlooks, fun _ => h⟩
    · exact fun h => h.2 hlooks

end RoundTrip

/-- The first credentials of a camera. -/
theorem wifi_config_round_trip_home : RoundTrips none "home".toList "12345678".toList :=
  (wifi_config_round_trip_iff none "home".toList "12345678".toList (by decide) (by decide)
    (by decide)).mpr
    ⟨fun h => absurd h (by rintro ⟨text, hfile, -⟩; cases hfile),
      fun _ => ⟨by decide, by decide⟩⟩

/-- A password of 55 characters does not fit the buffer of the readers with its key word. -/
theorem long_password_lost : ¬ RoundTrips none "home".toList (List.replicate 55 'a') := by
  intro h
  have hset : setWifiConfig true none "home".toList (List.replicate 55 'a')
      = (0, some (configText "home".toList (List.replicate 55 'a'))) := rfl
  obtain ⟨text, -, -, hpwd⟩ := (readers_iff _ _ _).mp (h true _ hset)
  have hle := length_storedPwd hpwd
  rw [List.length_replicate] at hle
  omega
