/-
# The cells of a scan (`net.c`)

The output of `iwlist` as `check_iwlist_scanning` reads it: the line about the key ends a cell, and
what the cell still tells behind that line goes astray.  An `IE:` line is booked to the next cell,
and a name with `Address` in it begins a node of its own, which takes the place of the next cell.

`scanLoop_text` tells the list of nodes for every output.
-/
import IpCamera.AccessPointScan
import IpCamera.WifiApList

open CString LineInput LineScan LinkedCells

/-! ## The output of `iwlist` -/

/-- The words that the loop looks for. -/
def scanWords : List (List Char) :=
  ["Address", "ESSID", "Channel", "IE:", "WPA", "WEP", "Encryption key:on",
    "Encryption key:off"].map String.toList

theorem scanWords_ne : ∀ w ∈ scanWords, w ≠ [] ∧ '\n' ∉ w := by decide

/-- A line of the output that does not begin a cell. -/
structure ScanText extends ScanLine scanRoom scanWords where
  address : ¬ "Address".toList <:+: text

/-- What a line is about. -/
inductive ScanKind
  | essid
  | channel
  | ie
  | keyOn
  | keyOff
  | other
  deriving DecidableEq, Repr

/-- The kind of a line by its first key word, in the order in which they count. -/
def scanKind (text : List Char) : ScanKind :=
  if "ESSID".toList <:+: text then .essid
  else if "Channel".toList <:+: text then .channel
  else if "IE:".toList <:+: text then .ie
  else if "Encryption key:on".toList <:+: text then .keyOn
  else if "Encryption key:off".toList <:+: text then .keyOff
  else .other

/-- A line in a cell that is neither its name nor about its key. -/
def Passing (l : ScanText) : Prop :=
  scanKind l.text = .channel ∨ scanKind l.text = .ie ∨ scanKind l.text = .other

/-- `Cell 01 - Address: D4:12:BB:08:CB:64` -/
structure ScanAddress where
  pre : List Char
  mac : List Char
  first : 'A' ∉ pre
  mac_le : mac.length ≤ 17
  newline : '\n' ∉ pre ++ ("Address: ".toList ++ mac)
  zero : '\x00' ∉ pre ++ ("Address: ".toList ++ mac)
  short : (pre ++ ("Address: ".toList ++ mac)).length < scanRoom
  kind : scanKind (pre ++ ("Address: ".toList ++ mac)) = .other

def ScanAddress.text (a : ScanAddress) : List Char := a.pre ++ ("Address: ".toList ++ a.mac)

/-- A cell: its address, and behind it in any order its name, the line about its key, and passing
lines. -/
structure ScanCell where
  address : ScanAddress
  early : List ScanText
  mid : List ScanText
  late : List ScanText
  name : ApName scanRoom
  key : ScanText
  nameFirst : Bool
  passing : ∀ l ∈ early ++ mid ++ late, Passing l
  isKey : scanKind key.text = .keyOn ∨ scanKind key.text = .keyOff

/-- An output: cells, and perhaps lines around them that tell nothing. -/
structure ScanOutput where
  head : List ScanText
  cells : List ScanCell
  tail : List ScanText
  head_other : ∀ l ∈ head, scanKind l.text = .other
  tail_other : ∀ l ∈ tail, scanKind l.text = .other

/-- The texts of lines. -/
def texts (ls : List ScanText) : List (List Char) := ls.map fun l => l.text

namespace ScanCell

/-- The passing lines in front of the key. -/
def beforeKey (cell : ScanCell) : List ScanText :=
  if cell.nameFirst then cell.early ++ cell.mid else cell.early

/-- The passing lines behind the key. -/
def behindKey (cell : ScanCell) : List ScanText :=
  if cell.nameFirst then cell.late else cell.mid ++ cell.late

def lines (cell : ScanCell) : List (List Char) :=
  cell.address.text :: (texts cell.early ++
    if cell.nameFirst then
      cell.name.text :: (texts cell.mid ++ cell.key.text :: texts cell.late)
    else cell.key.text :: (texts cell.mid ++ cell.name.text :: texts cell.late))

/-- The key is on. -/
def keyOn (cell : ScanCell) : Bool := scanKind cell.key.text = .keyOn

end ScanCell

def ScanOutput.text (scan : ScanOutput) : List Char :=
  textOf (texts scan.head ++ (scan.cells.flatMap ScanCell.lines ++ texts scan.tail))

/-! ## What goes astray -/

/-- A cell, and the cell in front of it. -/
abbrev CellAt := Option ScanCell × ScanCell

/-- The cells, each with the one in front of it. -/
def cellsFrom (prev : Option ScanCell) : List ScanCell → List CellAt
  | [] => []
  | cell :: cells => (prev, cell) :: cellsFrom (some cell) cells

/-- The name stands behind the key and names `Address`: it is taken for the beginning of a cell. -/
def ScanCell.Masks (cell : ScanCell) : Prop :=
  cell.nameFirst = false ∧ "Address".toList <:+: cell.name.text

instance (cell : ScanCell) : Decidable cell.Masks := inferInstanceAs (Decidable (_ ∧ _))

/-- The address of the node that begins with the name. -/
def ScanCell.maskMac (cell : ScanCell) : List Char :=
  macText ((strstr "Address".toList (cell.name.text ++ ['\n'])).getD [])

/-- The name under which a cell is listed: its first 32 characters, none if it masks. -/
def ScanCell.listedSsid (cell : ScanCell) : List Char :=
  if cell.Masks then [] else cell.name.essid.take 32

/-- The address under which a cell is listed. -/
def CellAt.listedMac (c : CellAt) : List Char :=
  match c.1 with
  | some prev => if prev.Masks then prev.maskMac else c.2.address.mac
  | none => c.2.address.mac

/-- The lines that are booked to a cell: those behind the key of the cell in front of it, and its
own in front of its key. -/
def CellAt.booked (c : CellAt) : List ScanText :=
  (match c.1 with
  | some prev => prev.behindKey
  | none => []) ++ c.2.beforeKey

/-! ## One line -/

section Line

variable {t : ScanList} {p u : List Char}

theorem scanKind_congr (h : ∀ w ∈ scanWords, w <:+: p ↔ w <:+: u) : scanKind p = scanKind u := by
  have hessid := h "ESSID".toList (by decide)
  have hchannel := h "Channel".toList (by decide)
  have hie := h "IE:".toList (by decide)
  have hon := h "Encryption key:on".toList (by decide)
  have hoff := h "Encryption key:off".toList (by decide)
  unfold scanKind
  rw [if_congr hessid rfl rfl, if_congr hchannel rfl rfl, if_congr hie rfl rfl,
    if_congr hon rfl rfl, if_congr hoff rfl rfl]

theorem ieMode_congr (h : ∀ w ∈ scanWords, w <:+: p ↔ w <:+: u) (secMode : ℕ) :
    ScanVars.ieMode p secMode = ScanVars.ieMode u secMode := by
  have hwpa := h "WPA".toList (by decide)
  have hwep := h "WEP".toList (by decide)
  unfold ScanVars.ieMode
  rw [if_congr hwpa rfl rfl, if_congr hwep rfl rfl]

/-- What a line does, by its kind; the text of a name is not looked at here. -/
theorem readField_eq (hessid : scanKind u ≠ .essid) (t : ScanList) :
    t.readField u =
      match scanKind u with
      | .channel => t.setPap id
      | .ie => some { t with secMode := ScanVars.ieMode u t.secMode }
      | .keyOn => t.endAp true
      | .keyOff => t.endAp false
      | _ => some t := by
  unfold ScanList.readField
  unfold scanKind at hessid ⊢
  by_cases h : "ESSID".toList <:+: u
  · exact absurd (if_pos h) hessid
  rw [strstr_eq_none_iff.mpr h, if_neg h]
  dsimp only
  by_cases hchannel : "Channel".toList <:+: u
  · rw [if_pos hchannel, if_pos hchannel]
  rw [if_neg hchannel, if_neg hchannel]
  by_cases hie : "IE:".toList <:+: u
  · rw [if_pos hie, if_pos hie]
  rw [if_neg hie, if_neg hie]
  by_cases hon : "Encryption key:on".toList <:+: u
  · rw [if_pos hon, if_pos hon]
  rw [if_neg hon, if_neg hon]
  by_cases hoff : "Encryption key:off".toList <:+: u
  · rw [if_pos hoff, if_pos hoff]
  rw [if_neg hoff, if_neg hoff]

theorem readLine_of_address (h : ¬ "Address".toList <:+: u) (t : ScanList) :
    t.readLine u = t.readField u := by
  unfold ScanList.readLine
  rw [strstr_eq_none_iff.mpr h]

theorem readLine_blank (hp : ScanLine.Blank scanWords p) (t : ScanList) :
    t.readLine (stringOf p) = some t := by
  have hno : ∀ w ∈ scanWords, w <:+: p ↔ w <:+: [] := by
    intro w hw
    refine iff_of_false (hp.words w hw) fun h => ?_
    exact (scanWords_ne w hw).1 (List.infix_nil.mp h)
  have hkind : scanKind p = .other := (scanKind_congr hno).trans (by decide)
  rw [stringOf_of_not_mem hp.zero, readLine_of_address (hp.words _ (by decide)),
    readField_eq (by simp [hkind]), hkind]

/-- A node is there that `pap` can point to. -/
def ScanList.HasPap (t : ScanList) : Prop := t.current ≠ none ∨ t.closed ≠ []

theorem setPap_id (ht : t.HasPap) : t.setPap id = some t := by
  obtain ⟨closed, current, secMode⟩ := t
  cases current with
  | some ap => rfl
  | none =>
    have hclosed : closed ≠ [] := ht.resolve_left fun h => h rfl
    rcases List.eq_nil_or_concat closed with rfl | ⟨aps, ap, rfl⟩
    · exact absurd rfl hclosed
    · rw [ScanList.setPap]
      dsimp only
      rw [List.concat_eq_append, changeLast_concat]
      rfl

/-- What a line does to `sec_mode`. -/
def secStep (secMode : ℕ) (l : ScanText) : ℕ :=
  if scanKind l.text = .ie then ScanVars.ieMode l.text secMode else secMode

variable {l : ScanText}

theorem readLine_shows (hp : l.Shows p) (hessid : scanKind l.text ≠ .essid) (t : ScanList) :
    t.readLine (stringOf p) =
      match scanKind l.text with
      | .channel => t.setPap id
      | .ie => some { t with secMode := ScanVars.ieMode l.text t.secMode }
      | .keyOn => t.endAp true
      | .keyOff => t.endAp false
      | _ => some t := by
  have hkind := scanKind_congr hp.words_iff
  have haddress : ¬ "Address".toList <:+: p := fun h =>
    l.address ((hp.words_iff _ (by decide)).mp h)
  rw [stringOf_of_not_mem hp.zero, readLine_of_address haddress, readField_eq (hkind ▸ hessid),
    hkind, ieMode_congr hp.words_iff]

/-- A run over pieces. -/
def runScan (ps : List (List Char)) (t : ScanList) : Option ScanList :=
  ps.foldlM (fun t p => t.readLine (stringOf p)) t

theorem runScan_append (ps qs : List (List Char)) (t : ScanList) :
    runScan (ps ++ qs) t = (runScan ps t).bind (runScan qs) := by
  unfold runScan
  rw [List.foldlM_append]
  rfl

theorem runScan_blank {ps : List (List Char)} (hps : ∀ p ∈ ps, ScanLine.Blank scanWords p)
    (t : ScanList) : runScan ps t = some t := by
  induction ps with
  | nil => rfl
  | cons p ps ih =>
    unfold runScan at ih ⊢
    rw [List.foldlM_cons, readLine_blank (hps p List.mem_cons_self)]
    exact ih fun q hq => hps q (List.mem_cons_of_mem p hq)

/-- A line does what its first piece does. -/
theorem runScan_line (l : ScanLine scanRoom scanWords) {r : Option ScanList}
    (hfirst : ∀ p, l.Shows p → t.readLine (stringOf p) = r) :
    runScan (pieces scanRoom (l.text ++ ['\n'])) t = r := by
  obtain ⟨p, ps, hpieces, hp, hps⟩ := l.exists_pieces (by decide) scanWords_ne
  unfold runScan
  rw [hpieces, List.foldlM_cons, hfirst p hp]
  cases r with
  | none => rfl
  | some t' => exact runScan_blank hps t'

theorem runScan_passing (hl : Passing l) (ht : t.HasPap) :
    runScan (pieces scanRoom (l.text ++ ['\n'])) t
      = some { t with secMode := secStep t.secMode l } := by
  refine runScan_line l.toScanLine fun p hp => ?_
  have hessid : scanKind l.text ≠ .essid := by
    rcases hl with h | h | h
    all_goals simp [h]
  rw [readLine_shows hp hessid, secStep]
  rcases hl with h | h | h
  · rw [h]
    exact setPap_id ht
  · rw [h, if_pos rfl]
  · rw [h]
    rfl

theorem runScan_other (hl : scanKind l.text = .other) (t : ScanList) :
    runScan (pieces scanRoom (l.text ++ ['\n'])) t = some t := by
  refine runScan_line l.toScanLine fun p hp => ?_
  rw [readLine_shows hp (by simp [hl]), hl]

theorem runScan_key {cell : ScanCell} (t : ScanList) :
    runScan (pieces scanRoom (cell.key.text ++ ['\n'])) t = t.endAp cell.keyOn := by
  refine runScan_line cell.key.toScanLine fun p hp => ?_
  rcases cell.isKey with h | h
  · rw [readLine_shows hp (by simp [h]), h, ScanCell.keyOn, h]
    rfl
  · rw [readLine_shows hp (by simp [h]), h, ScanCell.keyOn, h]
    rfl

/-- The address line begins a cell, unless the cell in front of it has begun one already. -/
theorem runScan_address (a : ScanAddress) (t : ScanList) :
    runScan (pieces scanRoom (a.text ++ ['\n'])) t
      = some { t with current := some (t.current.getD ⟨[], a.mac, []⟩) } := by
  have hpieces : pieces scanRoom (a.text ++ ['\n']) = [a.text ++ ['\n']] :=
    pieces_of_lt (fun h => a.newline h) a.short
  have hzero : '\x00' ∉ a.text ++ ['\n'] := by
    intro h
    rcases List.mem_append.mp h with h | h
    · exact a.zero h
    · exact absurd h (by decide)
  have hstrstr : strstr "Address".toList (a.text ++ ['\n'])
      = some ("Address".toList ++ (": ".toList ++ (a.mac ++ ['\n']))) := by
    have h := strstr_append a.first "ddress".toList (": ".toList ++ (a.mac ++ ['\n']))
    rw [ScanAddress.text]
    simpa using h
  have hmac : macText ("Address".toList ++ (": ".toList ++ (a.mac ++ ['\n']))) = a.mac := by
    have hall : ∀ c ∈ a.mac, decide (c ≠ '\n') = true := by
      intro c hc
      refine decide_eq_true (ne_of_mem_of_not_mem hc fun h => a.newline ?_)
      exact List.mem_append_right _ (List.mem_append_right _ h)
    show (((a.mac ++ ['\n']).takeWhile (· ≠ '\n')).take 17) = a.mac
    rw [List.takeWhile_append_of_pos hall, List.takeWhile_cons_of_neg (by simp), List.append_nil,
      List.take_of_length_le a.mac_le]
  have hkind : scanKind (a.text ++ ['\n']) = .other := by
    have hwords : ∀ w ∈ scanWords, w <:+: a.text ++ ['\n'] ↔ w <:+: a.text := fun w hw =>
      infix_append_newline (scanWords_ne w hw).2 (scanWords_ne w hw).1
    exact (scanKind_congr hwords).trans a.kind
  unfold runScan
  rw [hpieces, List.foldlM_cons, stringOf_of_not_mem hzero]
  unfold ScanList.readLine
  rw [hstrstr]
  obtain ⟨closed, current, secMode⟩ := t
  cases current with
  | none =>
    dsimp only
    rw [hmac]
    rfl
  | some ap =>
    dsimp only
    rw [readField_eq (by simp [hkind]), hkind]
    rfl

theorem readField_name (n : ApName scanRoom) (t : ScanList) :
    t.readField (n.text ++ ['\n']) = t.setPap fun ap => { ap with ssid := n.essid.take 32 } := by
  unfold ScanList.readField
  rw [n.strstr_text]
  dsimp only
  rw [ssidText, n.takeWhile_text]

/-- The name of the node in the making. -/
theorem runScan_name_current (n : ApName scanRoom) (closed : List ApNode) (ap : ApNode)
    (secMode : ℕ) :
    runScan (pieces scanRoom (n.text ++ ['\n'])) ⟨closed, some ap, secMode⟩
      = some ⟨closed, some { ap with ssid := n.essid.take 32 }, secMode⟩ := by
  have hread : ScanList.readLine (n.text ++ ['\n']) ⟨closed, some ap, secMode⟩
      = ScanList.readField (n.text ++ ['\n']) ⟨closed, some ap, secMode⟩ := by
    unfold ScanList.readLine
    cases strstr "Address".toList (n.text ++ ['\n']) with
    | none => rfl
    | some ptmp => rfl
  unfold runScan
  rw [n.pieces_text, List.foldlM_cons, stringOf_of_not_mem n.zero_text, hread, readField_name]
  rfl

/-- The name behind the key goes to the node of its cell, unless it names `Address`. -/
theorem runScan_name_closed {n : ApName scanRoom} (hn : ¬ "Address".toList <:+: n.text)
    (closed : List ApNode) (ap : ApNode) (secMode : ℕ) :
    runScan (pieces scanRoom (n.text ++ ['\n'])) ⟨closed ++ [ap], none, secMode⟩
      = some ⟨closed ++ [{ ap with ssid := n.essid.take 32 }], none, secMode⟩ := by
  have haddress : ¬ "Address".toList <:+: n.text ++ ['\n'] := by
    rwa [infix_append_newline (by decide) (by decide)]
  unfold runScan
  rw [n.pieces_text, List.foldlM_cons, stringOf_of_not_mem n.zero_text,
    readLine_of_address haddress, readField_name, ScanList.setPap]
  dsimp only
  rw [changeLast_concat]
  rfl

/-- A name with `Address` behind the key begins a node. -/
theorem runScan_name_masks {n : ApName scanRoom} (hn : "Address".toList <:+: n.text)
    (closed : List ApNode) (secMode : ℕ) :
    runScan (pieces scanRoom (n.text ++ ['\n'])) ⟨closed, none, secMode⟩
      = some ⟨closed, some ⟨[], macText ((strstr "Address".toList (n.text ++ ['\n'])).getD []), []⟩,
          secMode⟩ := by
  have haddress : "Address".toList <:+: n.text ++ ['\n'] := by
    rwa [infix_append_newline (by decide) (by decide)]
  unfold runScan
  rw [n.pieces_text, List.foldlM_cons, stringOf_of_not_mem n.zero_text]
  unfold ScanList.readLine
  cases hptmp : strstr "Address".toList (n.text ++ ['\n']) with
  | none => exact absurd haddress (strstr_eq_none_iff.mp hptmp)
  | some ptmp => rfl

end Line

/-! ## A cell -/

theorem runScan_others {ls : List ScanText} (hls : ∀ l ∈ ls, scanKind l.text = .other)
    (t : ScanList) : runScan (linePieces scanRoom (texts ls)) t = some t := by
  induction ls with
  | nil => rfl
  | cons l ls ih =>
    rw [texts, List.map_cons, linePieces_cons, runScan_append,
      runScan_other (hls l List.mem_cons_self), Option.bind_some]
    exact ih fun m hm => hls m (List.mem_cons_of_mem l hm)

/-- Passing lines leave their mark in `sec_mode` only. -/
theorem runScan_passings {ls : List ScanText} (hls : ∀ l ∈ ls, Passing l) {t : ScanList}
    (ht : t.HasPap) :
    runScan (linePieces scanRoom (texts ls)) t
      = some { t with secMode := ls.foldl secStep t.secMode } := by
  induction ls generalizing t with
  | nil => rfl
  | cons l ls ih =>
    rw [texts, List.map_cons, linePieces_cons, runScan_append,
      runScan_passing (hls l List.mem_cons_self) ht, Option.bind_some]
    exact ih (t := { t with secMode := secStep t.secMode l })
      (fun m hm => hls m (List.mem_cons_of_mem l hm)) ht

/-- The node that a masking cell leaves in the making. -/
def maskNode (prev : Option ScanCell) : Option ApNode :=
  prev.bind fun cell => if cell.Masks then some ⟨[], cell.maskMac, []⟩ else none

/-- What a cell leaves to the next one. -/
def behind (prev : Option ScanCell) : List ScanText :=
  match prev with
  | some cell => cell.behindKey
  | none => []

/-- The node of a cell. -/
def CellAt.node (c : CellAt) : ApNode :=
  ⟨c.2.listedSsid, c.listedMac,
    ScanList.booked c.2.keyOn (c.booked.foldl secStep 0) []⟩

/-- In front of a cell. -/
def scanAt (closed : List ApNode) (prev : Option ScanCell) : ScanList :=
  ⟨closed, maskNode prev, (behind prev).foldl secStep 0⟩

theorem getD_maskNode (prev : Option ScanCell) (cell : ScanCell) :
    (maskNode prev).getD ⟨[], cell.address.mac, []⟩ = ⟨[], CellAt.listedMac (prev, cell), []⟩ := by
  cases prev with
  | none => rfl
  | some p =>
    rw [maskNode, Option.bind_some, CellAt.listedMac]
    dsimp only
    by_cases h : p.Masks
    · rw [if_pos h, if_pos h]
      rfl
    · rw [if_neg h, if_neg h]
      rfl

namespace ScanCell

variable {cell : ScanCell}

theorem early_passing : ∀ l ∈ cell.early, Passing l := fun l hl =>
  cell.passing l (List.mem_append_left _ (List.mem_append_left _ hl))

theorem mid_passing : ∀ l ∈ cell.mid, Passing l := fun l hl =>
  cell.passing l (List.mem_append_left _ (List.mem_append_right _ hl))

theorem late_passing : ∀ l ∈ cell.late, Passing l := fun l hl =>
  cell.passing l (List.mem_append_right _ hl)

end ScanCell

theorem hasPap_current (closed : List ApNode) (ap : ApNode) (secMode : ℕ) :
    ScanList.HasPap ⟨closed, some ap, secMode⟩ := .inl (Option.some_ne_none ap)

theorem hasPap_closed (closed : List ApNode) (ap : ApNode) (secMode : ℕ) :
    ScanList.HasPap ⟨closed ++ [ap], none, secMode⟩ := .inr (by simp)

/-- The name in front of the key is that of the node in the making. -/
theorem runScan_nameFirst {cell : ScanCell} (hfirst : cell.nameFirst = true) (closed : List ApNode)
    (mac : List Char) (secMode : ℕ) :
    runScan (linePieces scanRoom
        (cell.name.text :: (texts cell.mid ++ cell.key.text :: texts cell.late)))
        ⟨closed, some ⟨[], mac, []⟩, secMode⟩
      = some ⟨closed ++ [⟨cell.listedSsid, mac,
            ScanList.booked cell.keyOn (cell.mid.foldl secStep secMode) []⟩],
          maskNode (some cell), cell.late.foldl secStep 0⟩ := by
  have hmasks : ¬ cell.Masks := fun h => absurd (hfirst.symm.trans h.1) (by decide)
  have hssid : cell.listedSsid = cell.name.essid.take 32 := if_neg hmasks
  have hmask : maskNode (some cell) = none := if_neg hmasks
  rw [linePieces_cons, runScan_append, runScan_name_current, Option.bind_some, linePieces_append,
    runScan_append, runScan_passings cell.mid_passing (hasPap_current _ _ _), Option.bind_some,
    linePieces_cons, runScan_append, runScan_key, hssid, hmask, ScanList.endAp, Option.map_some,
    Option.bind_some, runScan_passings cell.late_passing (hasPap_closed _ _ _)]

/-- The name behind the key comes when its node is linked. -/
theorem runScan_keyFirst {cell : ScanCell} (hfirst : cell.nameFirst = false)
    (closed : List ApNode) (mac : List Char) (secMode : ℕ) :
    runScan (linePieces scanRoom
        (cell.key.text :: (texts cell.mid ++ cell.name.text :: texts cell.late)))
        ⟨closed, some ⟨[], mac, []⟩, secMode⟩
      = some ⟨closed ++ [⟨cell.listedSsid, mac, ScanList.booked cell.keyOn secMode []⟩],
          maskNode (some cell), (cell.mid ++ cell.late).foldl secStep 0⟩ := by
  rw [linePieces_cons, runScan_append, runScan_key, ScanList.endAp, Option.map_some,
    Option.bind_some, linePieces_append, runScan_append,
    runScan_passings cell.mid_passing (hasPap_closed _ _ _), Option.bind_some, linePieces_cons,
    runScan_append, List.foldl_append]
  by_cases hname : "Address".toList <:+: cell.name.text
  · have hmasks : cell.Masks := ⟨hfirst, hname⟩
    have hssid : cell.listedSsid = [] := if_pos hmasks
    have hmask : maskNode (some cell) = some ⟨[], cell.maskMac, []⟩ := if_pos hmasks
    rw [runScan_name_masks hname, Option.bind_some,
      runScan_passings cell.late_passing (hasPap_current _ _ _), hmask, hssid]
    rfl
  · have hmasks : ¬ cell.Masks := fun h => hname h.2
    have hssid : cell.listedSsid = cell.name.essid.take 32 := if_neg hmasks
    have hmask : maskNode (some cell) = none := if_neg hmasks
    rw [runScan_name_closed hname, Option.bind_some,
      runScan_passings cell.late_passing (hasPap_closed _ _ _), hmask, hssid]

/-- **A cell closes one node.** -/
theorem runScan_cell (closed : List ApNode) (prev : Option ScanCell) (cell : ScanCell) :
    runScan (linePieces scanRoom cell.lines) (scanAt closed prev)
      = some (scanAt (closed ++ [CellAt.node (prev, cell)]) (some cell)) := by
  have hbooked : CellAt.booked (prev, cell) = behind prev ++ cell.beforeKey := rfl
  rw [ScanCell.lines, linePieces_cons, linePieces_append, runScan_append, runScan_address,
    Option.bind_some, scanAt]
  dsimp only
  rw [getD_maskNode, runScan_append,
    runScan_passings cell.early_passing (hasPap_current _ _ _), Option.bind_some]
  dsimp only
  rw [← List.foldl_append]
  cases hfirst : cell.nameFirst with
  | true =>
    have hbefore : cell.beforeKey = cell.early ++ cell.mid := if_pos hfirst
    have hbehind : cell.behindKey = cell.late := if_pos hfirst
    rw [if_pos rfl, runScan_nameFirst hfirst, ← List.foldl_append, List.append_assoc, ← hbefore,
      ← hbooked, ← hbehind]
    rfl
  | false =>
    have hbefore : cell.beforeKey = cell.early := if_neg (by simp [hfirst])
    have hbehind : cell.behindKey = cell.mid ++ cell.late := if_neg (by simp [hfirst])
    rw [if_neg (by decide), runScan_keyFirst hfirst, ← hbefore, ← hbooked, ← hbehind]
    rfl

/-! ## A scan -/

/-- Every cell closes one node. -/
theorem runScan_cells (closed : List ApNode) (prev : Option ScanCell) (cells : List ScanCell) :
    ∃ prev', runScan (linePieces scanRoom (cells.flatMap ScanCell.lines)) (scanAt closed prev)
      = some (scanAt (closed ++ (cellsFrom prev cells).map CellAt.node) prev') := by
  induction cells generalizing closed prev with
  | nil =>
    refine ⟨prev, ?_⟩
    rw [cellsFrom, List.map_nil, List.append_nil]
    rfl
  | cons cell cells ih =>
    obtain ⟨prev', hrun⟩ := ih (closed ++ [CellAt.node (prev, cell)]) (some cell)
    refine ⟨prev', ?_⟩
    rw [List.flatMap_cons, linePieces_append, runScan_append, runScan_cell, Option.bind_some, hrun,
      List.append_assoc]
    rfl

theorem newline_texts (ls : List ScanText) : ∀ u ∈ texts ls, '\n' ∉ u :=
  List.forall_mem_map.mpr fun l _ => l.newline

theorem ScanCell.newline_lines (cell : ScanCell) : ∀ u ∈ cell.lines, '\n' ∉ u := by
  have hname : '\n' ∉ cell.name.text := cell.name.newline
  rw [ScanCell.lines, List.forall_mem_cons, List.forall_mem_append]
  refine ⟨cell.address.newline, newline_texts _, ?_⟩
  split
  · simp only [List.forall_mem_cons, List.forall_mem_append]
    exact ⟨hname, newline_texts _, cell.key.newline, newline_texts _⟩
  · simp only [List.forall_mem_cons, List.forall_mem_append]
    exact ⟨cell.key.newline, newline_texts _, hname, newline_texts _⟩

theorem length_cellsFrom (prev : Option ScanCell) (cells : List ScanCell) :
    (cellsFrom prev cells).length = cells.length := by
  induction cells generalizing prev with
  | nil => rfl
  | cons cell cells ih => exact congrArg Nat.succ (ih (some cell))

/-- **The list that the first loop makes has one node for each cell.** -/
theorem scanLoop_text (scan : ScanOutput) :
    ∃ s l t, scanLoop scan.text = some s ∧ Holds s l t ∧
      l.map (fun p => p.2.node) = (cellsFrom none scan.cells).map CellAt.node := by
  have hnewline : ∀ u ∈ texts scan.head ++ (scan.cells.flatMap ScanCell.lines ++ texts scan.tail),
      '\n' ∉ u := by
    simp only [List.forall_mem_append, List.forall_mem_flatMap]
    exact ⟨newline_texts _, fun cell _ => cell.newline_lines, newline_texts _⟩
  obtain ⟨prev, hcells⟩ := runScan_cells [] none scan.cells
  have hrun : runScan (pieces scanRoom scan.text) ScanList.start
      = some (scanAt ((cellsFrom none scan.cells).map CellAt.node) prev) := by
    rw [ScanOutput.text, pieces_textOf (by decide) hnewline, linePieces_append, linePieces_append,
      runScan_append, runScan_others scan.head_other, Option.bind_some, runScan_append]
    show (runScan _ (scanAt [] none)).bind _ = _
    rw [hcells, Option.bind_some, runScan_others scan.tail_other, List.nil_append]
  obtain ⟨s, l, hloop, hholds⟩ := runPieces_scan holds_start hrun
  refine ⟨s, l, _, ?_, hholds, hholds.closed⟩
  rw [scanLoop, whileFgets_eq, hloop]
  rfl
