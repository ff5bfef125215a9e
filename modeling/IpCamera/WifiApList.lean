/-
# The list of access points (`testdanavideo.c`)

`get_wifi_AP_list` reads the output of `iwlist`, cell by cell, into a table for the app.  Its
counter of entries is not initialised: it starts with whatever is on the stack.

`ap_list_exact_iff` tells for which counters and which outputs the table is the list of the cells.
-/
import IpCamera.CString
import IpCamera.LineScan

open CString LineInput LineScan

/-! ## The table -/

/-- `DANAVIDEO_WIFI_ENCTYPE_*` -/
inductive WifiEnctype
  | invalid
  | none
  | wep
  | wpaTkip
  | wpaAes
  | wpa2Tkip
  | wpa2Aes
  deriving DecidableEq, Repr

/-- The values of the enumeration. -/
def WifiEnctype.code : WifiEnctype → UInt32
  | .invalid => 0
  | .none => 1
  | .wep => 2
  | .wpaTkip => 3
  | .wpaAes => 4
  | .wpa2Tkip => 5
  | .wpa2Aes => 6

/-- `libdanavideo_wifiinfo_t`; `essid` is the string in the field. -/
structure WifiInfo where
  essid : List Char
  encType : UInt32
  quality : UInt32
  deriving DecidableEq, Repr

/-- `pApInfo`, and the memory around it. -/
abbrev WifiTable := ℤ → WifiInfo

/-! ## `get_wifi_AP_list` -/

/-- The bits of `sec_mode`. -/
structure SecMode where
  wep : Bool
  wpa : Bool
  wpa2 : Bool
  deriving DecidableEq, Repr

/-- The bits of `groupType`. -/
structure GroupType where
  ccmp : Bool
  tkip : Bool
  deriving DecidableEq, Repr

def SecMode.zero : SecMode := ⟨false, false, false⟩

def GroupType.zero : GroupType := ⟨false, false⟩

/-- The bits that a line with `IE:` sets. -/
def SecMode.add (secMode : SecMode) (buffer : List Char) : SecMode where
  wep := secMode.wep || decide ("WEP".toList <:+: buffer)
  wpa := secMode.wpa || decide ("WPA".toList <:+: buffer)
  wpa2 := secMode.wpa2 || decide ("WPA2".toList <:+: buffer)

/-- The bits that a line with `Group Cipher :` sets. -/
def GroupType.add (groupType : GroupType) (buffer : List Char) : GroupType where
  ccmp := groupType.ccmp || decide ("CCMP".toList <:+: buffer)
  tkip := groupType.tkip || decide ("TKIP".toList <:+: buffer)

/-- The variables of the loop; `isApinfoEnd` lives in one turn. -/
structure ApScan where
  pApInfo : WifiTable
  count : ℤ
  isApinfoHead : Bool
  isAuthOn : Bool
  secMode : SecMode
  groupType : GroupType

namespace ApScan

/-- An assignment to `pApInfo[count]`. -/
def setEntry (s : ApScan) (f : WifiInfo → WifiInfo) : ApScan :=
  { s with pApInfo := Function.update s.pApInfo s.count (f (s.pApInfo s.count)) }

/-- The branches for a line, and `isApinfoEnd`; `none` is the `break`.  What an earlier line left
in the buffer behind the end of a shorter one counts as nothing. -/
def readLine (iMaxCount : ℕ) (buffer : List Char) (s : ApScan) : Option (ApScan × Bool) :=
  if "Address".toList <:+: buffer ∧ s.isApinfoHead = false then
    if (iMaxCount : ℤ) ≤ s.count then none else some ({ s with isApinfoHead := true }, false)
  else
    match strstr "ESSID".toList buffer with
    | some ptmp =>
      let name := (ptmp.drop 7).takeWhile (· ≠ '"')
      some (s.setEntry fun ap => { ap with essid := name.take 32 }, false)
    | none =>
      if "IE:".toList <:+: buffer then some ({ s with secMode := s.secMode.add buffer }, false)
      else if "Encryption key:on".toList <:+: buffer then some ({ s with isAuthOn := true }, false)
      else if "Encryption key:off".toList <:+: buffer then
        some ({ s with isAuthOn := false }, false)
      else if "Group Cipher :".toList <:+: buffer then
        some ({ s with groupType := s.groupType.add buffer }, false)
      else
        match strstr "Quality".toList buffer with
        | some ptmp =>
          match scanD ((ptmp.drop 8).takeWhile (· ≠ '/')) with
          | some quality =>
            some (s.setEntry fun ap => { ap with quality := UInt32.ofInt quality }, true)
          | none => some (s, true)
        | none => some (s, false)

/-- The assignments to `enc_type` at the end of a cell, in their order. -/
def encType (isAuthOn : Bool) (secMode : SecMode) (groupType : GroupType) (enc : UInt32) : UInt32 :=
  let enc := if isAuthOn = false then WifiEnctype.none.code else enc
  let enc := if isAuthOn ∧ secMode = ⟨true, false, false⟩ then WifiEnctype.wep.code else enc
  let enc := if isAuthOn ∧ secMode.wpa ∧ groupType.ccmp then WifiEnctype.wpaAes.code else enc
  let enc := if isAuthOn ∧ secMode.wpa ∧ groupType.tkip then WifiEnctype.wpaTkip.code else enc
  let enc := if isAuthOn ∧ secMode.wpa2 ∧ groupType.ccmp then WifiEnctype.wpa2Aes.code else enc
  if isAuthOn ∧ secMode.wpa2 ∧ groupType.tkip then WifiEnctype.wpa2Tkip.code else enc

/-- The end of a cell. -/
def endAp (s : ApScan) : ApScan :=
  let s := s.setEntry fun ap =>
    { ap with encType := encType s.isAuthOn s.secMode s.groupType ap.encType }
  { s with
    isAuthOn := false
    secMode := SecMode.zero
    groupType := GroupType.zero
    isApinfoHead := false
    count := s.count + 1 }

/-- One turn of the loop. -/
def turn (iMaxCount : ℕ) (buffer : List Char) (s : ApScan) : ForInStep ApScan :=
  match s.readLine iMaxCount (stringOf buffer) with
  | none => .done s
  | some (s, isApinfoEnd) => .yield (if isApinfoEnd then s.endAp else s)

/-- The variables before the loop, for a counter that holds `count`. -/
def start (pApInfo : WifiTable) (count : ℤ) : ApScan :=
  ⟨pApInfo, count, false, false, SecMode.zero, GroupType.zero⟩

end ApScan

/-- `buffer` has 256 characters. -/
def apRoom : ℕ := 255

/-- `get_wifi_AP_list` on the output of `iwlist`: the table, and `*pOutcount`. -/
def getWifiApList (output : List Char) (iMaxCount : ℕ) (count : ℤ) (pApInfo : WifiTable) :
    WifiTable × ℤ :=
  let s := whileFgets apRoom (by decide) (ApScan.turn iMaxCount) ⟨output, false⟩
    (ApScan.start pApInfo count)
  (s.pApInfo, s.count)

/-! ## The output of `iwlist` -/

/-- The words that the loop looks for. -/
def apWords : List (List Char) :=
  ["Address", "ESSID", "IE:", "WEP", "WPA", "WPA2", "Encryption key:on", "Encryption key:off",
    "Group Cipher :", "CCMP", "TKIP", "Quality"].map String.toList

/-- A line of the output. -/
abbrev ApLine := ScanLine apRoom apWords

/-- What a line in a cell is about. -/
inductive ApLineKind
  | essid
  | ie
  | keyOn
  | keyOff
  | cipher
  | quality
  | other
  deriving DecidableEq, Repr

/-- The kind of a line by its first key word, in the order in which they count. -/
def apLineKind (text : List Char) : ApLineKind :=
  if "ESSID".toList <:+: text then .essid
  else if "IE:".toList <:+: text then .ie
  else if "Encryption key:on".toList <:+: text then .keyOn
  else if "Encryption key:off".toList <:+: text then .keyOff
  else if "Group Cipher :".toList <:+: text then .cipher
  else if "Quality".toList <:+: text then .quality
  else .other

/-- A line that names no cell and tells nothing about one. -/
def Unrelated (l : ApLine) : Prop :=
  ¬ "Address".toList <:+: l.text ∧ apLineKind l.text = .other

/-- A line in a cell that is neither its name nor its end. -/
def Detail (l : ApLine) : Prop := apLineKind l.text ≠ .essid ∧ apLineKind l.text ≠ .quality

/-- `ESSID:"name"`, on a line that one read takes. -/
structure ApName (room : ℕ) where
  pre : List Char
  essid : List Char
  post : List Char
  first : 'E' ∉ pre
  quote : '"' ∉ essid
  newline : '\n' ∉ pre ++ ("ESSID:\"".toList ++ (essid ++ '"' :: post))
  zero : '\x00' ∉ pre ++ ("ESSID:\"".toList ++ (essid ++ '"' :: post))
  short : (pre ++ ("ESSID:\"".toList ++ (essid ++ '"' :: post))).length < room

namespace ApName

variable {room : ℕ}

def text (n : ApName room) : List Char :=
  n.pre ++ ("ESSID:\"".toList ++ (n.essid ++ '"' :: n.post))

theorem zero_text (n : ApName room) : '\x00' ∉ n.text ++ ['\n'] := by
  intro h
  rcases List.mem_append.mp h with h | h
  · exact n.zero h
  · exact absurd h (by decide)

theorem pieces_text (n : ApName room) : pieces room (n.text ++ ['\n']) = [n.text ++ ['\n']] :=
  pieces_of_lt (fun h => n.newline h) n.short

/-- The line from its key word on. -/
theorem strstr_text (n : ApName room) : strstr "ESSID".toList (n.text ++ ['\n'])
    = some ("ESSID".toList ++ (":\"".toList ++ (n.essid ++ '"' :: (n.post ++ ['\n'])))) := by
  have h := strstr_append n.first "SSID".toList
    (":\"".toList ++ (n.essid ++ '"' :: (n.post ++ ['\n'])))
  rw [text]
  simpa using h

/-- The name is what stands up to the second quote. -/
theorem takeWhile_text (n : ApName room) :
    ((("ESSID".toList ++ (":\"".toList ++ (n.essid ++ '"' :: (n.post ++ ['\n'])))).drop
      7).takeWhile (· ≠ '"')) = n.essid := by
  have hall : ∀ c ∈ n.essid, decide (c ≠ '"') = true := fun c hc =>
    decide_eq_true (ne_of_mem_of_not_mem hc n.quote)
  show ((n.essid ++ '"' :: (n.post ++ ['\n'])).takeWhile (· ≠ '"')) = n.essid
  rw [List.takeWhile_append_of_pos hall, List.takeWhile_cons_of_neg (by simp), List.append_nil]

end ApName

/-- `Quality=92/100` -/
structure ApQuality where
  pre : List Char
  quality : ℕ
  post : List Char
  first : 'Q' ∉ pre
  range : quality < 2147483648
  newline : '\n' ∉ pre ++ ("Quality=".toList ++ (Nat.toDigits 10 quality ++ '/' :: post))
  zero : '\x00' ∉ pre ++ ("Quality=".toList ++ (Nat.toDigits 10 quality ++ '/' :: post))
  short : (pre ++ ("Quality=".toList ++ (Nat.toDigits 10 quality ++ '/' :: post))).length < apRoom
  kind : apLineKind (pre ++ ("Quality=".toList ++ (Nat.toDigits 10 quality ++ '/' :: post)))
    = .quality

def ApQuality.text (q : ApQuality) : List Char :=
  q.pre ++ ("Quality=".toList ++ (Nat.toDigits 10 q.quality ++ '/' :: q.post))

/-- A cell, from its `Address` line to its `Quality` line. -/
structure ApCell where
  address : ApLine
  before : List ApLine
  name : ApName apRoom
  after : List ApLine
  quality : ApQuality
  isAddress : "Address".toList <:+: address.text
  detail : ∀ l ∈ before ++ after, Detail l

/-- An output: cells, and perhaps unrelated lines around them. -/
structure ApOutput where
  head : List ApLine
  cells : List ApCell
  tail : List ApLine
  head_unrelated : ∀ l ∈ head, Unrelated l
  tail_unrelated : ∀ l ∈ tail, Unrelated l

def ApCell.lines (cell : ApCell) : List (List Char) :=
  cell.address.text :: (cell.before.map ScanLine.text ++ cell.name.text ::
    (cell.after.map ScanLine.text ++ [cell.quality.text]))

def ApOutput.text (output : ApOutput) : List Char :=
  textOf (output.head.map ScanLine.text ++ (output.cells.flatMap ApCell.lines ++
    output.tail.map ScanLine.text))

/-- What a line says about the key. -/
def keyValue (text : List Char) : Option Bool :=
  match apLineKind text with
  | .keyOn => some true
  | .keyOff => some false
  | _ => none

/-- The last word of lines about the key. -/
def lastKey (ts : List (List Char)) : Option Bool := (ts.filterMap keyValue).getLast?

/-- Some line of this kind has the word. -/
def NamedIn (kind : ApLineKind) (word : String) (ts : List (List Char)) : Prop :=
  ∃ t ∈ ts, apLineKind t = kind ∧ word.toList <:+: t

instance (kind : ApLineKind) (word : String) (ts : List (List Char)) :
    Decidable (NamedIn kind word ts) :=
  inferInstanceAs (Decidable (∃ t ∈ ts, _))

namespace ApCell

/-- The lines that tell about the encryption. -/
def detailTexts (cell : ApCell) : List (List Char) := (cell.before ++ cell.after).map ScanLine.text

/-- The last line about the key says that it is on. -/
def keyOn (cell : ApCell) : Prop := lastKey cell.detailTexts = some true

instance (cell : ApCell) : Decidable cell.keyOn := inferInstanceAs (Decidable (_ = _))

/-- Some `IE:` line names it. -/
def ieNames (cell : ApCell) (word : String) : Prop := NamedIn .ie word cell.detailTexts

/-- Some `Group Cipher :` line names it. -/
def cipherNames (cell : ApCell) (word : String) : Prop := NamedIn .cipher word cell.detailTexts

instance (cell : ApCell) (word : String) : Decidable (cell.ieNames word) :=
  inferInstanceAs (Decidable (NamedIn _ _ _))

instance (cell : ApCell) (word : String) : Decidable (cell.cipherNames word) :=
  inferInstanceAs (Decidable (NamedIn _ _ _))

/-- The type that the cell's own lines name: none where the key is off; the newest of the
generations that they name, with the cipher; `WEP` only where no `WPA` is named. -/
def enctype (cell : ApCell) : Option WifiEnctype :=
  if ¬ cell.keyOn then some .none
  else if cell.ieNames "WPA2" ∧ cell.cipherNames "TKIP" then some .wpa2Tkip
  else if cell.ieNames "WPA2" ∧ cell.cipherNames "CCMP" then some .wpa2Aes
  else if cell.ieNames "WPA" ∧ cell.cipherNames "TKIP" then some .wpaTkip
  else if cell.ieNames "WPA" ∧ cell.cipherNames "CCMP" then some .wpaAes
  else if cell.ieNames "WEP" ∧ ¬ cell.ieNames "WPA" ∧ ¬ cell.ieNames "WPA2" then some .wep
  else none

end ApCell

/-- An entry tells a cell's own name, type and quality. -/
structure Reports (ap : WifiInfo) (cell : ApCell) : Prop where
  essid : ap.essid = cell.name.essid
  encType : cell.enctype.map WifiEnctype.code = some ap.encType
  quality : ap.quality = UInt32.ofNat cell.quality.quality

/-- Whatever was in the table: the entries are the first cells as far as they fit, and nothing is
written outside the table. -/
def ApListExact (output : ApOutput) (iMaxCount : ℕ) (count : ℤ) : Prop :=
  ∀ pApInfo, (getWifiApList output.text iMaxCount count pApInfo).2
      = (min output.cells.length iMaxCount : ℕ) ∧
    (∀ i cell, i < iMaxCount → output.cells[i]? = some cell →
      Reports ((getWifiApList output.text iMaxCount count pApInfo).1 i) cell) ∧
    ∀ j : ℤ, j < 0 ∨ iMaxCount ≤ j →
      (getWifiApList output.text iMaxCount count pApInfo).1 j = pApInfo j

/-! ## One line -/

theorem apWords_ne : ∀ w ∈ apWords, w ≠ [] ∧ '\n' ∉ w := by decide

/-- What a line of a cell does to the variables. -/
def ApScan.note (text : List Char) (s : ApScan) : ApScan :=
  match apLineKind text with
  | .ie => { s with secMode := s.secMode.add text }
  | .keyOn => { s with isAuthOn := true }
  | .keyOff => { s with isAuthOn := false }
  | .cipher => { s with groupType := s.groupType.add text }
  | _ => s

/-- What lines of a cell do one after the other. -/
def ApScan.notes (ts : List (List Char)) (s : ApScan) : ApScan := ts.foldl (fun s t => s.note t) s

/-- Behind the first line of a cell. -/
def ApScan.inCell (pApInfo : WifiTable) (count : ℤ) : ApScan :=
  { ApScan.start pApInfo count with isApinfoHead := true }

/-- The name of a cell is stored. -/
def ApScan.setName (s : ApScan) (essid : List Char) : ApScan :=
  s.setEntry fun ap => { ap with essid := essid.take 32 }

/-- The quality of a cell is stored. -/
def ApScan.setQuality (s : ApScan) (quality : ℕ) : ApScan :=
  s.setEntry fun ap => { ap with quality := UInt32.ofNat quality }

section Line

variable {iMaxCount : ℕ} {s : ApScan} {p t : List Char}

theorem apLineKind_congr (h : ∀ w ∈ apWords, w <:+: p ↔ w <:+: t) :
    apLineKind p = apLineKind t := by
  have hessid := h "ESSID".toList (by decide)
  have hie := h "IE:".toList (by decide)
  have hon := h "Encryption key:on".toList (by decide)
  have hoff := h "Encryption key:off".toList (by decide)
  have hcipher := h "Group Cipher :".toList (by decide)
  have hquality := h "Quality".toList (by decide)
  unfold apLineKind
  rw [if_congr hessid rfl rfl, if_congr hie rfl rfl, if_congr hon rfl rfl,
    if_congr hoff rfl rfl, if_congr hcipher rfl rfl, if_congr hquality rfl rfl]

/-- Only the key words of a line count. -/
theorem note_congr (h : ∀ w ∈ apWords, w <:+: p ↔ w <:+: t) (s : ApScan) : s.note p = s.note t := by
  have hsec : s.secMode.add p = s.secMode.add t := by
    rw [SecMode.add, SecMode.add, decide_eq_decide.mpr (h "WEP".toList (by decide)),
      decide_eq_decide.mpr (h "WPA".toList (by decide)),
      decide_eq_decide.mpr (h "WPA2".toList (by decide))]
  have hgroup : s.groupType.add p = s.groupType.add t := by
    rw [GroupType.add, GroupType.add, decide_eq_decide.mpr (h "CCMP".toList (by decide)),
      decide_eq_decide.mpr (h "TKIP".toList (by decide))]
  rw [ApScan.note, ApScan.note, apLineKind_congr h, hsec, hgroup]

/-- A line that is not taken for the beginning of a cell, nor for its name or its end. -/
theorem readLine_note (hhead : ¬ ("Address".toList <:+: t ∧ s.isApinfoHead = false))
    (hessid : apLineKind t ≠ .essid) (hquality : apLineKind t ≠ .quality) :
    s.readLine iMaxCount t = some (s.note t, false) := by
  unfold ApScan.readLine ApScan.note
  rw [if_neg hhead]
  unfold apLineKind at hessid hquality ⊢
  by_cases h : "ESSID".toList <:+: t
  · exact absurd (if_pos h) hessid
  rw [strstr_eq_none_iff.mpr h, if_neg h]
  rw [if_neg h] at hquality
  dsimp only
  by_cases hie : "IE:".toList <:+: t
  · rw [if_pos hie, if_pos hie]
  rw [if_neg hie, if_neg hie]
  rw [if_neg hie] at hquality
  by_cases hon : "Encryption key:on".toList <:+: t
  · rw [if_pos hon, if_pos hon]
  rw [if_neg hon, if_neg hon]
  rw [if_neg hon] at hquality
  by_cases hoff : "Encryption key:off".toList <:+: t
  · rw [if_pos hoff, if_pos hoff]
  rw [if_neg hoff, if_neg hoff]
  rw [if_neg hoff] at hquality
  by_cases hcipher : "Group Cipher :".toList <:+: t
  · rw [if_pos hcipher, if_pos hcipher]
  rw [if_neg hcipher, if_neg hcipher]
  rw [if_neg hcipher] at hquality
  by_cases h' : "Quality".toList <:+: t
  · exact absurd (if_pos h') hquality
  rw [strstr_eq_none_iff.mpr h', if_neg h']

theorem note_of_other (ht : apLineKind t = .other) (s : ApScan) : s.note t = s := by
  rw [ApScan.note, ht]

theorem turn_of_readLine (hp : '\x00' ∉ p) {isApinfoEnd : Bool} {s' : ApScan}
    (h : s.readLine iMaxCount p = some (s', isApinfoEnd)) :
    ApScan.turn iMaxCount p s = .yield (if isApinfoEnd then s'.endAp else s') := by
  rw [ApScan.turn, stringOf_of_not_mem hp, h]

/-- A piece without key words changes nothing. -/
theorem turn_blank (hp : ScanLine.Blank apWords p) (s : ApScan) :
    ApScan.turn iMaxCount p s = .yield s := by
  have hno : ∀ w ∈ apWords, w <:+: p ↔ w <:+: [] := by
    intro w hw
    refine iff_of_false (hp.words w hw) fun h => ?_
    exact (apWords_ne w hw).1 (List.infix_nil.mp h)
  have hkind : apLineKind p = .other := (apLineKind_congr hno).trans (by decide)
  have haddress : ¬ "Address".toList <:+: p := hp.words _ (by decide)
  rw [turn_of_readLine hp.zero (readLine_note (fun h => haddress h.1) (by simp [hkind])
    (by simp [hkind])), note_of_other hkind]
  rfl

/-- A line that is not about an access point changes nothing. -/
theorem turn_unrelated {l : ApLine} (hl : Unrelated l) (hp : l.Shows p) (s : ApScan) :
    ApScan.turn iMaxCount p s = .yield s := by
  have hkind : apLineKind p = .other := (apLineKind_congr hp.words_iff).trans hl.2
  have haddress : ¬ "Address".toList <:+: p := fun h =>
    hl.1 ((hp.words_iff _ (by decide)).mp h)
  rw [turn_of_readLine hp.zero (readLine_note (fun h => haddress h.1) (by simp [hkind])
    (by simp [hkind])), note_of_other hkind]
  rfl

/-- A detail of a cell. -/
theorem turn_detail {l : ApLine} (hl : Detail l) (hp : l.Shows p) (hhead : s.isApinfoHead = true) :
    ApScan.turn iMaxCount p s = .yield (s.note l.text) := by
  have hkind := apLineKind_congr hp.words_iff
  rw [turn_of_readLine hp.zero (readLine_note (by simp [hhead]) (hkind ▸ hl.1) (hkind ▸ hl.2)),
    note_congr hp.words_iff]
  rfl

/-- The first line of a cell, with room in the table. -/
theorem turn_address {l : ApLine} (hl : "Address".toList <:+: l.text) (hp : l.Shows p)
    (hhead : s.isApinfoHead = false) (hroom : s.count < iMaxCount) :
    ApScan.turn iMaxCount p s = .yield { s with isApinfoHead := true } := by
  have haddress : "Address".toList <:+: p := (hp.words_iff _ (by decide)).mpr hl
  have hread : s.readLine iMaxCount p = some ({ s with isApinfoHead := true }, false) := by
    unfold ApScan.readLine
    rw [if_pos ⟨haddress, hhead⟩, if_neg (not_le.mpr hroom)]
  rw [turn_of_readLine hp.zero hread]
  rfl

/-- The first line of a cell, with the table full. -/
theorem turn_address_full {l : ApLine} (hl : "Address".toList <:+: l.text) (hp : l.Shows p)
    (hhead : s.isApinfoHead = false) (hfull : (iMaxCount : ℤ) ≤ s.count) :
    ApScan.turn iMaxCount p s = .done s := by
  have haddress : "Address".toList <:+: p := (hp.words_iff _ (by decide)).mpr hl
  have hread : s.readLine iMaxCount p = none := by
    unfold ApScan.readLine
    rw [if_pos ⟨haddress, hhead⟩, if_pos hfull]
  rw [ApScan.turn, stringOf_of_not_mem hp.zero, hread]

/-- The name of a cell. -/
theorem turn_name (n : ApName apRoom) (hhead : s.isApinfoHead = true) :
    ApScan.turn iMaxCount (n.text ++ ['\n']) s = .yield (s.setName n.essid) := by
  have hread : s.readLine iMaxCount (n.text ++ ['\n']) = some (s.setName n.essid, false) := by
    have hnot : ¬ ("Address".toList <:+: n.text ++ ['\n'] ∧ s.isApinfoHead = false) := by
      simp [hhead]
    unfold ApScan.readLine
    rw [if_neg hnot, n.strstr_text]
    dsimp only
    rw [n.takeWhile_text, ApScan.setName]
  rw [turn_of_readLine n.zero_text hread]
  rfl

theorem kind_eq_quality (ht : apLineKind t = .quality) :
    ¬ "ESSID".toList <:+: t ∧ ¬ "IE:".toList <:+: t ∧ ¬ "Encryption key:on".toList <:+: t ∧
      ¬ "Encryption key:off".toList <:+: t ∧ ¬ "Group Cipher :".toList <:+: t := by
  unfold apLineKind at ht
  split at ht
  · cases ht
  next hessid =>
  split at ht
  · cases ht
  next hie =>
  split at ht
  · cases ht
  next hon =>
  split at ht
  · cases ht
  next hoff =>
  split at ht
  · cases ht
  next hcipher => exact ⟨hessid, hie, hon, hoff, hcipher⟩

theorem ofInt_natCast {n : ℕ} (hn : n < 2147483648) : UInt32.ofInt n = UInt32.ofNat n := by
  rw [UInt32.ofInt, Int.emod_eq_of_lt (by omega) (by omega), Int.toNat_natCast]

/-- The end of a cell. -/
theorem turn_quality (q : ApQuality) (hhead : s.isApinfoHead = true) :
    ApScan.turn iMaxCount (q.text ++ ['\n']) s
      = .yield (s.setQuality q.quality).endAp := by
  have hzero : '\x00' ∉ q.text ++ ['\n'] := by
    intro h
    rcases List.mem_append.mp h with h | h
    · exact q.zero h
    · exact absurd h (by decide)
  have hkind : apLineKind (q.text ++ ['\n']) = .quality := by
    have hwords : ∀ w ∈ apWords, w <:+: q.text ++ ['\n'] ↔ w <:+: q.text := fun w hw =>
      infix_append_newline (apWords_ne w hw).2 (apWords_ne w hw).1
    exact (apLineKind_congr hwords).trans q.kind
  obtain ⟨hessid, hie, hon, hoff, hcipher⟩ := kind_eq_quality hkind
  have hstrstr : strstr "Quality".toList (q.text ++ ['\n']) = some ("Quality".toList ++
      ('=' :: (Nat.toDigits 10 q.quality ++ '/' :: (q.post ++ ['\n'])))) := by
    have h := strstr_append q.first "uality".toList
      ('=' :: (Nat.toDigits 10 q.quality ++ '/' :: (q.post ++ ['\n'])))
    rw [ApQuality.text]
    simpa using h
  have hdigits : ((("Quality".toList ++ ('=' :: (Nat.toDigits 10 q.quality ++ '/' ::
      (q.post ++ ['\n'])))).drop 8).takeWhile (· ≠ '/')) = Nat.toDigits 10 q.quality := by
    have hall : ∀ c ∈ Nat.toDigits 10 q.quality, decide (c ≠ '/') = true := by
      intro c hc
      refine decide_eq_true ?_
      rintro rfl
      exact absurd (digits_toDigits _ _ hc) (by decide)
    show ((Nat.toDigits 10 q.quality ++ '/' :: (q.post ++ ['\n'])).takeWhile (· ≠ '/')) = _
    rw [List.takeWhile_append_of_pos hall, List.takeWhile_cons_of_neg (by simp), List.append_nil]
  have hread : s.readLine iMaxCount (q.text ++ ['\n'])
      = some (s.setQuality q.quality, true) := by
    have hnot : ¬ ("Address".toList <:+: q.text ++ ['\n'] ∧ s.isApinfoHead = false) := by
      simp [hhead]
    unfold ApScan.readLine
    rw [if_neg hnot, strstr_eq_none_iff.mpr hessid]
    dsimp only
    rw [if_neg hie, if_neg hon, if_neg hoff, if_neg hcipher, hstrstr]
    dsimp only
    rw [hdigits, scanD_toDigits]
    dsimp only
    rw [ofInt_natCast q.range, ApScan.setQuality]
  rw [turn_of_readLine hzero hread]
  rfl

end Line

/-! ## The lines of a cell -/

theorem namedIn_append (kind : ApLineKind) (word : String) (ts : List (List Char)) (t : List Char) :
    NamedIn kind word (ts ++ [t]) ↔
      NamedIn kind word ts ∨ apLineKind t = kind ∧ word.toList <:+: t := by
  constructor
  · rintro ⟨u, hu, h⟩
    rcases List.mem_append.mp hu with hu | hu
    · exact .inl ⟨u, hu, h⟩
    · exact .inr (List.mem_singleton.mp hu ▸ h)
  · rintro (⟨u, hu, h⟩ | h)
    · exact ⟨u, List.mem_append_left _ hu, h⟩
    · exact ⟨t, List.mem_append_right _ (List.mem_singleton_self t), h⟩

theorem lastKey_append (ts : List (List Char)) (t : List Char) :
    lastKey (ts ++ [t]) = (keyValue t).or (lastKey ts) := by
  rw [lastKey, List.filterMap_append]
  cases h : keyValue t with
  | none =>
    rw [List.filterMap_cons_none h, List.filterMap_nil, List.append_nil]
    rfl
  | some on =>
    rw [List.filterMap_cons_some h, List.filterMap_nil, List.getLast?_concat]
    rfl

/-- What lines of a cell do together. -/
theorem notes_eq (ts : List (List Char)) (s : ApScan) :
    s.notes ts =
      { s with
        isAuthOn := (lastKey ts).getD s.isAuthOn
        secMode :=
          ⟨s.secMode.wep || decide (NamedIn .ie "WEP" ts),
            s.secMode.wpa || decide (NamedIn .ie "WPA" ts),
            s.secMode.wpa2 || decide (NamedIn .ie "WPA2" ts)⟩
        groupType :=
          ⟨s.groupType.ccmp || decide (NamedIn .cipher "CCMP" ts),
            s.groupType.tkip || decide (NamedIn .cipher "TKIP" ts)⟩ } := by
  induction ts using List.reverseRecOn with
  | nil => simp [ApScan.notes, NamedIn, lastKey]
  | append_singleton ts t ih =>
    unfold ApScan.notes at ih ⊢
    rw [List.foldl_append, List.foldl_cons, List.foldl_nil, ih, lastKey_append]
    simp only [namedIn_append]
    cases hkind : apLineKind t with
    | ie => simp [ApScan.note, keyValue, hkind, SecMode.add, Bool.or_assoc]
    | cipher => simp [ApScan.note, keyValue, hkind, GroupType.add, Bool.or_assoc]
    | _ => simp [ApScan.note, keyValue, hkind]

theorem note_setName (essid t : List Char) (s : ApScan) :
    (s.setName essid).note t = (s.note t).setName essid := by
  unfold ApScan.note
  split
  all_goals rfl

/-- The place of the name among the lines does not matter. -/
theorem notes_setName (essid : List Char) (ts : List (List Char)) (s : ApScan) :
    (s.setName essid).notes ts = (s.notes ts).setName essid := by
  unfold ApScan.notes
  induction ts generalizing s with
  | nil => rfl
  | cons t ts ih => rw [List.foldl_cons, note_setName, ih, List.foldl_cons]

theorem isApinfoHead_notes (ts : List (List Char)) (s : ApScan) :
    (s.notes ts).isApinfoHead = s.isApinfoHead := by
  rw [notes_eq]

section Cell

variable {iMaxCount : ℕ}

theorem runPieces_details {ls : List ApLine} (hls : ∀ l ∈ ls, Detail l) {s : ApScan}
    (hhead : s.isApinfoHead = true) :
    runPieces (ApScan.turn iMaxCount) (linePieces apRoom (ls.map ScanLine.text)) s
      = .yield (s.notes (ls.map ScanLine.text)) := by
  induction ls generalizing s with
  | nil => rfl
  | cons l ls ih =>
    have hl : runPieces (ApScan.turn iMaxCount) (pieces apRoom (l.text ++ ['\n'])) s
        = .yield (s.note l.text) :=
      l.runPieces_line (by decide) apWords_ne
        (fun p hp => turn_detail (hls l List.mem_cons_self) hp hhead) fun q hq => turn_blank hq _
    have hhead' : (s.note l.text).isApinfoHead = true := (isApinfoHead_notes [l.text] s).trans hhead
    rw [List.map_cons, linePieces, List.flatMap_cons, runPieces_of_yield hl]
    exact ih (fun m hm => hls m (List.mem_cons_of_mem l hm)) hhead'

theorem runPieces_unrelated {ls : List ApLine} (hls : ∀ l ∈ ls, Unrelated l) (s : ApScan) :
    runPieces (ApScan.turn iMaxCount) (linePieces apRoom (ls.map ScanLine.text)) s = .yield s := by
  induction ls with
  | nil => rfl
  | cons l ls ih =>
    have hl : runPieces (ApScan.turn iMaxCount) (pieces apRoom (l.text ++ ['\n'])) s = .yield s :=
      l.runPieces_line (by decide) apWords_ne
        (fun p hp => turn_unrelated (hls l List.mem_cons_self) hp s) fun q hq => turn_blank hq _
    rw [List.map_cons, linePieces, List.flatMap_cons, runPieces_of_yield hl]
    exact ih fun m hm => hls m (List.mem_cons_of_mem l hm)

/-- What the list gets for a cell; where the cell names no type, the old one stays. -/
def ApCell.entry (cell : ApCell) (ap : WifiInfo) : WifiInfo :=
  ⟨cell.name.essid.take 32, (cell.enctype.map WifiEnctype.code).getD ap.encType,
    UInt32.ofNat cell.quality.quality⟩

/-- The assignments at the end of a cell store the type that it names. -/
theorem encType_enctype (cell : ApCell) (enc : UInt32) :
    ApScan.encType (decide cell.keyOn)
      ⟨decide (cell.ieNames "WEP"), decide (cell.ieNames "WPA"), decide (cell.ieNames "WPA2")⟩
      ⟨decide (cell.cipherNames "CCMP"), decide (cell.cipherNames "TKIP")⟩ enc
      = (cell.enctype.map WifiEnctype.code).getD enc := by
  unfold ApScan.encType ApCell.enctype
  by_cases hon : cell.keyOn
  · by_cases hwpa2 : cell.ieNames "WPA2"
    all_goals by_cases hwpa : cell.ieNames "WPA"
    all_goals by_cases htkip : cell.cipherNames "TKIP"
    all_goals by_cases hccmp : cell.cipherNames "CCMP"
    all_goals by_cases hwep : cell.ieNames "WEP"
    all_goals simp [hon, hwpa2, hwpa, htkip, hccmp, hwep]
  · simp [hon]

/-- With the table full, the first line of a cell ends the loop. -/
theorem runPieces_cell_full (cell : ApCell) {pApInfo : WifiTable} {count : ℤ}
    (hfull : (iMaxCount : ℤ) ≤ count) (ps : List (List Char)) :
    runPieces (ApScan.turn iMaxCount) (linePieces apRoom cell.lines ++ ps)
      (ApScan.start pApInfo count) = .done (ApScan.start pApInfo count) := by
  have haddress : runPieces (ApScan.turn iMaxCount) (pieces apRoom (cell.address.text ++ ['\n']))
      (ApScan.start pApInfo count) = .done (ApScan.start pApInfo count) :=
    cell.address.runPieces_done (by decide) apWords_ne fun p hp =>
      turn_address_full cell.isAddress hp rfl hfull
  rw [ApCell.lines, linePieces_cons, List.append_assoc, runPieces_append, haddress]

/-- The variables behind a cell. -/
theorem endAp_cell (cell : ApCell) (pApInfo : WifiTable) (count : ℤ) :
    (((((ApScan.inCell pApInfo count).notes (cell.before.map ScanLine.text)).setName
        cell.name.essid).notes (cell.after.map ScanLine.text)).setQuality
          cell.quality.quality).endAp
      = ApScan.start (Function.update pApInfo count (cell.entry (pApInfo count))) (count + 1) := by
  have hnotes : ((ApScan.inCell pApInfo count).notes (cell.before.map ScanLine.text)).notes
      (cell.after.map ScanLine.text)
        = { ApScan.inCell pApInfo count with
            isAuthOn := decide cell.keyOn
            secMode :=
              ⟨decide (cell.ieNames "WEP"), decide (cell.ieNames "WPA"),
                decide (cell.ieNames "WPA2")⟩
            groupType :=
              ⟨decide (cell.cipherNames "CCMP"), decide (cell.cipherNames "TKIP")⟩ } := by
    have hkey : (lastKey cell.detailTexts).getD false = decide cell.keyOn := by
      have hkeyOn : decide cell.keyOn = decide (lastKey cell.detailTexts = some true) :=
        decide_eq_decide.mpr Iff.rfl
      rw [hkeyOn]
      cases lastKey cell.detailTexts with
      | none => rfl
      | some on =>
        cases on with
        | false => rfl
        | true => rfl
    have happend : ((ApScan.inCell pApInfo count).notes (cell.before.map ScanLine.text)).notes
        (cell.after.map ScanLine.text) = (ApScan.inCell pApInfo count).notes cell.detailTexts := by
      rw [ApCell.detailTexts, List.map_append, ApScan.notes, ApScan.notes, ApScan.notes,
        List.foldl_append]
    rw [happend, notes_eq, ← hkey]
    rfl
  have henc := encType_enctype cell (pApInfo count).encType
  rw [notes_setName, hnotes]
  unfold ApScan.endAp ApScan.setQuality ApScan.setName ApScan.setEntry ApScan.inCell ApScan.start
  dsimp only
  rw [Function.update_idem, Function.update_idem, Function.update_self, Function.update_self, henc]
  rfl

/-- With room in the table, a cell adds its entry. -/
theorem runPieces_cell (cell : ApCell) {pApInfo : WifiTable} {count : ℤ}
    (hroom : count < iMaxCount) (ps : List (List Char)) :
    runPieces (ApScan.turn iMaxCount) (linePieces apRoom cell.lines ++ ps)
        (ApScan.start pApInfo count)
      = runPieces (ApScan.turn iMaxCount) ps
          (ApScan.start (Function.update pApInfo count (cell.entry (pApInfo count)))
            (count + 1)) := by
  have hquality : pieces apRoom (cell.quality.text ++ ['\n']) = [cell.quality.text ++ ['\n']] :=
    pieces_of_lt (fun h => cell.quality.newline h) cell.quality.short
  have haddress : runPieces (ApScan.turn iMaxCount) (pieces apRoom (cell.address.text ++ ['\n']))
      (ApScan.start pApInfo count) = .yield (ApScan.inCell pApInfo count) :=
    cell.address.runPieces_line (by decide) apWords_ne
      (fun p hp => turn_address cell.isAddress hp rfl hroom) fun q hq => turn_blank hq _
  have hbefore : runPieces (ApScan.turn iMaxCount)
      (linePieces apRoom (cell.before.map ScanLine.text)) (ApScan.inCell pApInfo count)
        = .yield ((ApScan.inCell pApInfo count).notes (cell.before.map ScanLine.text)) :=
    runPieces_details (fun l hl => cell.detail l (List.mem_append_left cell.after hl)) rfl
  have hcell := endAp_cell cell pApInfo count
  have hhead : ((ApScan.inCell pApInfo count).notes
      (cell.before.map ScanLine.text)).isApinfoHead = true := isApinfoHead_notes _ _
  generalize (ApScan.inCell pApInfo count).notes (cell.before.map ScanLine.text) = s at *
  have hafter : runPieces (ApScan.turn iMaxCount)
      (linePieces apRoom (cell.after.map ScanLine.text)) (s.setName cell.name.essid)
        = .yield ((s.setName cell.name.essid).notes (cell.after.map ScanLine.text)) :=
    runPieces_details (fun l hl => cell.detail l (List.mem_append_right cell.before hl)) hhead
  have hhead' : ((s.setName cell.name.essid).notes
      (cell.after.map ScanLine.text)).isApinfoHead = true :=
    (isApinfoHead_notes _ _).trans hhead
  rw [ApCell.lines, linePieces_cons, linePieces_append, linePieces_cons, linePieces_append,
    linePieces_cons, cell.name.pieces_text, hquality]
  simp only [List.append_assoc]
  rw [runPieces_of_yield haddress, runPieces_of_yield hbefore, List.singleton_append, runPieces,
    turn_name cell.name hhead]
  dsimp only
  rw [runPieces_of_yield hafter, List.singleton_append, runPieces, turn_quality _ hhead', hcell]
  rfl

end Cell

/-! ## The whole output -/

/-- What the cells make of the table and the counter. -/
def fillTable (iMaxCount : ℕ) : List ApCell → ℤ → WifiTable → WifiTable × ℤ
  | [], count, pApInfo => (pApInfo, count)
  | cell :: cells, count, pApInfo =>
    if count < iMaxCount then
      fillTable iMaxCount cells (count + 1)
        (Function.update pApInfo count (cell.entry (pApInfo count)))
    else (pApInfo, count)

section Fill

variable {iMaxCount : ℕ} {count : ℤ} {pApInfo : WifiTable} {cells : List ApCell}

theorem runPieces_cells {tail : List ApLine} (htail : ∀ l ∈ tail, Unrelated l)
    (cells : List ApCell) (count : ℤ) (pApInfo : WifiTable) :
    (runPieces (ApScan.turn iMaxCount)
        (linePieces apRoom (cells.flatMap ApCell.lines ++ tail.map ScanLine.text))
        (ApScan.start pApInfo count)).value
      = ApScan.start (fillTable iMaxCount cells count pApInfo).1
          (fillTable iMaxCount cells count pApInfo).2 := by
  induction cells generalizing count pApInfo with
  | nil =>
    rw [List.flatMap_nil, List.nil_append, runPieces_unrelated htail]
    rfl
  | cons cell cells ih =>
    rw [List.flatMap_cons, List.append_assoc, linePieces_append, fillTable]
    by_cases hroom : count < iMaxCount
    · rw [runPieces_cell cell hroom, if_pos hroom]
      exact ih _ _
    · rw [runPieces_cell_full cell (not_lt.mp hroom), if_neg hroom]
      rfl

theorem newline_apTexts (ls : List ApLine) : ∀ t ∈ ls.map ScanLine.text, '\n' ∉ t :=
  List.forall_mem_map.mpr fun l _ => l.newline

theorem ApCell.newline_lines (cell : ApCell) : ∀ t ∈ cell.lines, '\n' ∉ t := by
  simp only [ApCell.lines, List.forall_mem_cons, List.forall_mem_append]
  exact ⟨cell.address.newline, newline_apTexts _, cell.name.newline, newline_apTexts _,
    cell.quality.newline, fun t ht => absurd ht List.not_mem_nil⟩

/-- **On an output of cells the loop fills the table cell by cell.** -/
theorem getWifiApList_eq (output : ApOutput) (iMaxCount : ℕ) (count : ℤ) (pApInfo : WifiTable) :
    getWifiApList output.text iMaxCount count pApInfo
      = fillTable iMaxCount output.cells count pApInfo := by
  have hnewline : ∀ t ∈ output.head.map ScanLine.text ++ (output.cells.flatMap ApCell.lines ++
      output.tail.map ScanLine.text), '\n' ∉ t := by
    simp only [List.forall_mem_append, List.forall_mem_flatMap]
    exact ⟨newline_apTexts _, fun cell _ => cell.newline_lines, newline_apTexts _⟩
  rw [getWifiApList, whileFgets_eq, ApOutput.text, pieces_textOf (by decide) hnewline,
    linePieces_append, runPieces_of_yield (runPieces_unrelated output.head_unrelated _),
    runPieces_cells output.tail_unrelated]
  rfl

theorem fillTable_of_le (hfull : (iMaxCount : ℤ) ≤ count) (cells : List ApCell) :
    fillTable iMaxCount cells count pApInfo = (pApInfo, count) := by
  cases cells with
  | nil => rfl
  | cons cell cells => rw [fillTable, if_neg (not_lt.mpr hfull)]

/-- The counter counts the cells up to the capacity. -/
theorem fillTable_count (hle : count ≤ iMaxCount) :
    (fillTable iMaxCount cells count pApInfo).2 = min (count + cells.length) iMaxCount := by
  induction cells generalizing count pApInfo with
  | nil =>
    rw [fillTable, List.length_nil]
    omega
  | cons cell cells ih =>
    rw [fillTable, List.length_cons]
    by_cases hroom : count < iMaxCount
    · rw [if_pos hroom, ih (by omega)]
      omega
    · rw [if_neg hroom]
      dsimp only
      omega

/-- Nothing is written in front of the first entry, nor behind the table. -/
theorem fillTable_outside {j : ℤ} (hj : j < count ∨ (iMaxCount : ℤ) ≤ j) :
    (fillTable iMaxCount cells count pApInfo).1 j = pApInfo j := by
  induction cells generalizing count pApInfo with
  | nil => rfl
  | cons cell cells ih =>
    rw [fillTable]
    by_cases hroom : count < iMaxCount
    · rw [if_pos hroom, ih (by omega), Function.update_of_ne (by omega)]
    · rw [if_neg hroom]

/-- Every cell that fits has its entry. -/
theorem fillTable_entry (count : ℤ) (pApInfo : WifiTable) {i : ℕ} {cell : ApCell}
    (hcell : cells[i]? = some cell) (hi : count + i < iMaxCount) :
    (fillTable iMaxCount cells count pApInfo).1 (count + i)
      = cell.entry (pApInfo (count + i)) := by
  induction cells generalizing count pApInfo i with
  | nil => cases hcell
  | cons first cells ih =>
    rw [fillTable, if_pos (by omega)]
    cases i with
    | zero =>
      obtain rfl := Option.some.inj hcell
      rw [Nat.cast_zero, add_zero, fillTable_outside (.inl (by omega)), Function.update_self]
    | succ i =>
      have hshift : count + ((i + 1 : ℕ) : ℤ) = count + 1 + i := by omega
      rw [hshift] at hi ⊢
      rw [ih _ _ hcell hi, Function.update_of_ne (by omega)]

theorem fillTable_entry_zero (pApInfo : WifiTable) {i : ℕ} {cell : ApCell}
    (hcell : cells[i]? = some cell) (hi : i < iMaxCount) :
    (fillTable iMaxCount cells 0 pApInfo).1 i = cell.entry (pApInfo i) := by
  have h := fillTable_entry 0 pApInfo hcell (by omega : (0 : ℤ) + i < iMaxCount)
  rwa [zero_add] at h

end Fill

/-- An entry is right exactly when the name fits and a type is named, whatever it was. -/
theorem reports_entry_iff (cell : ApCell) (ap : WifiInfo) :
    Reports (cell.entry ap) cell ↔ cell.name.essid.length ≤ 32 ∧ cell.enctype ≠ none := by
  constructor
  · intro h
    refine ⟨(List.take_eq_self_iff _).mp h.essid, fun hnone => ?_⟩
    have henc := h.encType
    rw [hnone] at henc
    cases henc
  · rintro ⟨hname, henc⟩
    obtain ⟨enc, henc⟩ := Option.ne_none_iff_exists'.mp henc
    refine ⟨List.take_of_length_le hname, ?_, rfl⟩
    rw [ApCell.entry, henc]
    rfl

/-- A table whose entries differ from a quality. -/
def otherQuality (quality : UInt32) : WifiTable := fun _ => ⟨[], 0, quality + 1⟩

theorem otherQuality_ne (quality : UInt32) (j : ℤ) :
    (otherQuality quality j).quality ≠ quality := by
  intro h
  have hsame := congrArg UInt32.toNat (show quality + 1 = quality from h)
  rw [UInt32.toNat_add, UInt32.toNat_one] at hsame
  have hlt := quality.toNat_lt
  omega

theorem mem_take_iff {α : Type*} {l : List α} {n : ℕ} {a : α} :
    a ∈ l.take n ↔ ∃ i < n, l[i]? = some a := by
  rw [List.mem_iff_getElem?]
  refine exists_congr fun i => ?_
  rw [List.getElem?_take]
  split
  case isTrue hlt => exact ⟨fun h => ⟨hlt, h⟩, fun h => h.2⟩
  case isFalse hge => exact iff_of_false nofun fun h => hge h.1

section Exact

variable {output : ApOutput} {iMaxCount : ℕ} {count : ℤ}

/-- With a negative counter the first cell would be stored in front of the table. -/
theorem ApListExact.count_nonneg (h : ApListExact output iMaxCount count) : 0 ≤ count := by
  by_contra hneg
  have hlt : count < 0 := not_le.mp hneg
  unfold ApListExact at h
  simp only [getWifiApList_eq] at h
  cases hcells : output.cells with
  | nil =>
    obtain ⟨hcount, -⟩ := h fun _ => ⟨[], 0, 0⟩
    rw [fillTable_count (by omega), hcells, List.length_nil] at hcount
    omega
  | cons cell cells =>
    obtain ⟨-, -, hout⟩ := h (otherQuality (UInt32.ofNat cell.quality.quality))
    have hfirst : output.cells[0]? = some cell := by
      rw [hcells]
      rfl
    have hentry : (fillTable iMaxCount output.cells count
        (otherQuality (UInt32.ofNat cell.quality.quality))).1 (count + (0 : ℕ)) = _ :=
      fillTable_entry count _ hfirst (by omega)
    rw [Nat.cast_zero, add_zero, hout count (.inl hlt)] at hentry
    have hsame : (otherQuality (UInt32.ofNat cell.quality.quality) count).quality
        = UInt32.ofNat cell.quality.quality := by
      rw [hentry]
      rfl
    exact otherQuality_ne _ count hsame

/-- With a positive counter the first entry would never be stored. -/
theorem ApListExact.count_nonpos (h : ApListExact output iMaxCount count) : count ≤ 0 := by
  by_contra hpos
  have hgt : 0 < count := not_le.mp hpos
  unfold ApListExact at h
  simp only [getWifiApList_eq] at h
  have hle : count ≤ (min output.cells.length iMaxCount : ℕ) := by
    obtain ⟨hcount, -⟩ := h fun _ => ⟨[], 0, 0⟩
    rw [← hcount]
    rcases le_total count iMaxCount with hle | hge
    · rw [fillTable_count hle]
      omega
    · rw [fillTable_of_le hge]
  cases hcells : output.cells with
  | nil =>
    rw [hcells, List.length_nil] at hle
    omega
  | cons cell cells =>
    obtain ⟨-, hentries, -⟩ := h (otherQuality (UInt32.ofNat cell.quality.quality))
    have hreports := hentries 0 cell (by omega) (by rw [hcells]; rfl)
    rw [Nat.cast_zero, fillTable_outside (.inl hgt)] at hreports
    exact otherQuality_ne _ 0 hreports.quality

end Exact

/-- **The list of access points** is that of the output, whatever was in the table, exactly when the
counter starts with zero and every cell that is reported has a name of at most 32 characters and,
if its key is on, lines that name a type. -/
theorem ap_list_exact_iff (output : ApOutput) (iMaxCount : ℕ) (count : ℤ) :
    ApListExact output iMaxCount count ↔
      count = 0 ∧ ∀ cell ∈ output.cells.take iMaxCount,
        cell.name.essid.length ≤ 32 ∧ cell.enctype ≠ none := by
  constructor
  · intro h
    have hzero : count = 0 := le_antisymm h.count_nonpos h.count_nonneg
    subst hzero
    refine ⟨rfl, fun cell hcell => ?_⟩
    obtain ⟨i, hi, hcell⟩ := mem_take_iff.mp hcell
    obtain ⟨-, hentries, -⟩ := h fun _ => ⟨[], 0, 0⟩
    have hreports := hentries i cell hi hcell
    rw [getWifiApList_eq, fillTable_entry_zero _ hcell hi] at hreports
    exact (reports_entry_iff cell _).mp hreports
  · rintro ⟨rfl, hcells⟩ pApInfo
    rw [getWifiApList_eq]
    refine ⟨?_, ?_, ?_⟩
    · rw [fillTable_count (by omega)]
      omega
    · intro i cell hi hcell
      rw [fillTable_entry_zero pApInfo hcell hi]
      exact (reports_entry_iff cell _).mpr (hcells cell (mem_take_iff.mpr ⟨i, hi, hcell⟩))
    · exact fun j hj => fillTable_outside hj

/-- A line of text as the loop sees it. -/
def apLine (text : String) (newline : '\n' ∉ text.toList) (zero : '\x00' ∉ text.toList)
    (hle : text.toList.length ≤ apRoom) : ApLine :=
  ScanLine.ofShort (fun w hw => (apWords_ne w hw).1) text.toList newline zero hle

/-- A protected network. -/
def homeCell : ApCell where
  address := apLine "Cell 01 - Address: D4:12:BB:08:CB:64" (by decide) (by decide) (by decide)
  before := []
  name :=
    ⟨[], "home".toList, [], by decide, by decide, by decide, by decide, by decide⟩
  after :=
    [apLine "Frequency:2.412 GHz (Channel 1)" (by decide) (by decide) (by decide),
      apLine "Encryption key:on" (by decide) (by decide) (by decide),
      apLine "IE: IEEE 802.11i/WPA2 Version 1" (by decide) (by decide) (by decide),
      apLine "Group Cipher : CCMP" (by decide) (by decide) (by decide)]
  quality :=
    ⟨[], 92, "100  Signal level=92/100".toList, by decide, by decide, by decide, by decide,
      by decide, by decide⟩
  isAddress := by decide
  detail := by
    intro l hl
    simp only [List.nil_append, List.mem_cons, List.not_mem_nil, or_false] at hl
    rcases hl with rfl | rfl | rfl | rfl
    all_goals exact ⟨by decide, by decide⟩

/-- A scan that finds it. -/
def homeOutput : ApOutput :=
  ⟨[], [homeCell], [], fun _ h => absurd h List.not_mem_nil, fun _ h => absurd h List.not_mem_nil⟩

theorem home_listed : ApListExact homeOutput 20 0 := by
  refine (ap_list_exact_iff homeOutput 20 0).mpr ⟨rfl, fun cell hcell => ?_⟩
  obtain rfl : cell = homeCell := List.mem_singleton.mp hcell
  exact ⟨by decide, by decide⟩

/-- With a one on the stack the counter says two, and the first entry is what it was. -/
theorem one_on_the_stack : ¬ ApListExact homeOutput 20 1 := by
  intro h
  obtain ⟨hcount, -⟩ := h fun _ => ⟨[], 0, 0⟩
  rw [getWifiApList_eq, fillTable_count (by decide)] at hcount
  exact absurd hcount (by decide)
