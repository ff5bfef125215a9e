/-
# Choosing an access point from a scan (`net.c`)

`check_iwlist_scanning` reports the last cell that is listed under the wanted name, with the
security that the lines booked to that cell tell.

`choice_exact_iff` tells from which scans the choice is right.
-/
import IpCamera.AccessPointCells

open CString LineInput LineScan LinkedCells

/-! ## What is asked -/

namespace ScanCell

/-- Some `IE:` line of the cell has the word. -/
def ieNames (cell : ScanCell) (word : String) : Prop :=
  ∃ l ∈ cell.early ++ cell.mid ++ cell.late, scanKind l.text = .ie ∧ word.toList <:+: l.text

/-- The security of the cell, as far as its lines tell it. -/
structure Secures (cell : ScanCell) (secrity : List Char) : Prop where
  off : cell.keyOn = false → secrity = "NONE".toList
  wpa : cell.keyOn = true → cell.ieNames "WPA" → secrity = "WPA-PSK".toList
  wep : cell.keyOn = true → ¬ cell.ieNames "WPA" → cell.ieNames "WEP" → secrity = "WEP".toList

end ScanCell

/-- Every node of the list that the loop has made is freed once, and nothing else. -/
def FreesList (s : ScanVars) (r : ScanChoice) : Prop :=
  ∃ l, Linked s.heap l ∧ first l = s.headNext ∧ r.freed = addresses l ∧ r.freed.Nodup ∧
    ∀ a, r.heap a = if a ∈ r.freed then none else s.heap a

/-- The function ends and frees the list; it returns 1 exactly when some cell has the wanted name,
and then reports the address and the security of such a cell. -/
def ChoiceExact (scan : ScanOutput) (inSsid inKey : List Char) : Prop :=
  ∀ item, ∃ s r, scanLoop scan.text = some s ∧
    (∀ fuel, scan.cells.length < fuel →
      checkIwlistScanning fuel scan.text inSsid inKey item = some r) ∧
    FreesList s r ∧
    (r.iMatched = 1 ↔ ∃ cell ∈ scan.cells, cell.name.essid = inSsid) ∧
    (r.iMatched = 1 → ∃ cell ∈ scan.cells, cell.name.essid = inSsid ∧
      r.item.bssid = cell.address.mac ∧ cell.Secures r.item.secrity)

/-! ## What is told -/

/-- The last of some lines that is an `IE:` line and names `WPA` or `WEP`. -/
def lastIe (ls : List ScanText) : Option ScanText :=
  (ls.filter fun l =>
    scanKind l.text = .ie ∧ ("WPA".toList <:+: l.text ∨ "WEP".toList <:+: l.text)).getLast?

/-- What is booked to a cell tells the security of `cell`. -/
structure CellAt.TellsOf (c : CellAt) (cell : ScanCell) : Prop where
  off : cell.keyOn = false → c.2.keyOn = false
  wpa : cell.keyOn = true → cell.ieNames "WPA" →
    c.2.keyOn = true ∧ ∃ l ∈ lastIe c.booked, "WPA".toList <:+: l.text
  wep : cell.keyOn = true → ¬ cell.ieNames "WPA" → cell.ieNames "WEP" →
    c.2.keyOn = true ∧ ∃ l ∈ lastIe c.booked, ¬ "WPA".toList <:+: l.text

/-- The last cell that is listed under a name. -/
def lastListed (scan : ScanOutput) (inSsid : List Char) : Option CellAt :=
  ((cellsFrom none scan.cells).filter fun c => c.2.listedSsid = inSsid).getLast?

/-! ## The choice -/

theorem lastMatch_node (inSsid : List Char) (cs : List CellAt) :
    lastMatch inSsid (cs.map CellAt.node)
      = (cs.filter fun c => c.2.listedSsid = inSsid).getLast?.map CellAt.node := by
  unfold lastMatch
  rw [List.filter_map, List.getLast?_map]
  rfl

/-- What the function returns, reports and frees. -/
theorem checkIwlistScanning_eq (scan : ScanOutput) (inSsid inKey : List Char)
    (item : WifiItemConfig) :
    ∃ s r, scanLoop scan.text = some s ∧
      (∀ fuel, scan.cells.length < fuel →
        checkIwlistScanning fuel scan.text inSsid inKey item = some r) ∧
      FreesList s r ∧
      r.item = ((lastListed scan inSsid).map fun c => nodeItem inKey c.node).getD item ∧
      r.iMatched = if lastListed scan inSsid = none then 0 else 1 := by
  obtain ⟨s, l, t, hloop, hholds, hnodes⟩ := scanLoop_text scan
  have hlength : l.length = scan.cells.length := by
    have h := congrArg List.length hnodes
    rwa [List.length_map, List.length_map, length_cellsFrom] at h
  have hlast : lastMatch inSsid (l.map fun p => p.2.node)
      = (lastListed scan inSsid).map CellAt.node := by
    rw [hnodes, lastMatch_node]
    rfl
  have hmatch := fun fuel (hfuel : l.length < fuel) =>
    matchLoop_eq inSsid inKey (r := ⟨s.heap, [], item, 0⟩) hholds.linked hholds.nodup hfuel
  obtain ⟨heap, -, hheap⟩ := hmatch (l.length + 1) (Nat.lt_succ_self l.length)
  refine ⟨s, ⟨heap, addresses l, ((lastListed scan inSsid).map fun c => nodeItem inKey c.node).getD
    item, if lastListed scan inSsid = none then 0 else 1⟩, hloop, ?_, ?_, rfl, rfl⟩
  · intro fuel hfuel
    obtain ⟨heap', hrun, hheap'⟩ := hmatch fuel (hlength ▸ hfuel)
    have hsame : heap' = heap := by
      funext a
      rw [hheap' a, hheap a]
    rw [checkIwlistScanning, hloop, Option.bind_some, hholds.head, hrun, hsame, hlast]
    cases lastListed scan inSsid with
    | none => rfl
    | some c => rfl
  · exact ⟨l, hholds.linked, hholds.head.symm, rfl, hholds.nodup, hheap⟩

/-! ## The security -/

theorem lastIe_concat (ls : List ScanText) (l : ScanText) :
    lastIe (ls ++ [l])
      = if scanKind l.text = .ie ∧ ("WPA".toList <:+: l.text ∨ "WEP".toList <:+: l.text) then some l
        else lastIe ls := by
  unfold lastIe
  rw [List.filter_append]
  by_cases h : scanKind l.text = .ie ∧ ("WPA".toList <:+: l.text ∨ "WEP".toList <:+: l.text)
  · rw [if_pos h, List.filter_singleton, decide_eq_true h, cond_true]
    exact List.getLast?_concat
  · rw [if_neg h, List.filter_singleton, decide_eq_false h, cond_false, List.append_nil]

/-- The last `IE:` line that names either settles `sec_mode`. -/
theorem foldl_secStep (ls : List ScanText) :
    ls.foldl secStep 0
      = ((lastIe ls).map fun l => if "WPA".toList <:+: l.text then 2 else 1).getD 0 := by
  induction ls using List.reverseRecOn with
  | nil => rfl
  | append_singleton ls l ih =>
    rw [List.foldl_append, List.foldl_cons, List.foldl_nil, ih, lastIe_concat, secStep]
    unfold ScanVars.ieMode
    by_cases hie : scanKind l.text = .ie
    · rw [if_pos hie]
      by_cases hwpa : "WPA".toList <:+: l.text
      · rw [if_pos hwpa, if_pos ⟨hie, .inl hwpa⟩, Option.map_some, if_pos hwpa]
        rfl
      rw [if_neg hwpa]
      by_cases hwep : "WEP".toList <:+: l.text
      · rw [if_pos hwep, if_pos ⟨hie, .inr hwep⟩, Option.map_some, if_neg hwpa]
        rfl
      · rw [if_neg hwep, if_neg fun h => h.2.elim hwpa hwep]
    · rw [if_neg hie, if_neg fun h => hie h.1]

theorem getD_eq_two_iff (p : ScanText → Prop) [DecidablePred p] (o : Option ScanText) :
    (o.map fun l => if p l then 2 else 1).getD 0 = 2 ↔ ∃ l ∈ o, p l := by
  cases o with
  | none => simp
  | some l =>
    by_cases h : p l
    · simp [h]
    · simp [h]

theorem getD_eq_one_iff (p : ScanText → Prop) [DecidablePred p] (o : Option ScanText) :
    (o.map fun l => if p l then 2 else 1).getD 0 = 1 ↔ ∃ l ∈ o, ¬ p l := by
  cases o with
  | none => simp
  | some l =>
    by_cases h : p l
    · simp [h]
    · simp [h]

/-- What is booked to a node without a security yet. -/
theorem booked_eq_iff (keyOn : Bool) (secMode : ℕ) :
    (ScanList.booked keyOn secMode [] = "NONE".toList ↔ keyOn = false) ∧
    (ScanList.booked keyOn secMode [] = "WPA-PSK".toList ↔ keyOn = true ∧ secMode = 2) ∧
    (ScanList.booked keyOn secMode [] = "WEP".toList ↔ keyOn = true ∧ secMode = 1) := by
  cases keyOn with
  | false => simp [ScanList.booked]
  | true =>
    by_cases h1 : secMode = 1
    · simp [ScanList.booked, h1]
    · by_cases h2 : secMode = 2
      · simp [ScanList.booked, h2]
      · simp [ScanList.booked, h1, h2]

/-- A node has the security of a cell exactly when what is booked to it tells that. -/
theorem secures_iff (c : CellAt) (cell : ScanCell) :
    cell.Secures c.node.secrity ↔ c.TellsOf cell := by
  obtain ⟨hoff, hwpa, hwep⟩ := booked_eq_iff c.2.keyOn (c.booked.foldl secStep 0)
  rw [foldl_secStep, getD_eq_two_iff] at hwpa
  rw [foldl_secStep, getD_eq_one_iff] at hwep
  rw [foldl_secStep] at hoff
  have hnode : c.node.secrity = ScanList.booked c.2.keyOn (c.booked.foldl secStep 0) [] := rfl
  rw [hnode, foldl_secStep]
  constructor
  · intro h
    exact ⟨fun h1 => hoff.mp (h.off h1), fun h1 h2 => hwpa.mp (h.wpa h1 h2),
      fun h1 h2 h3 => hwep.mp (h.wep h1 h2 h3)⟩
  · intro h
    exact ⟨fun h1 => hoff.mpr (h.off h1), fun h1 h2 => hwpa.mpr (h.wpa h1 h2),
      fun h1 h2 h3 => hwep.mpr (h.wep h1 h2 h3)⟩

/-! ## When the choice is right -/

theorem length_macText_le (ptmp : List Char) : (macText ptmp).length ≤ 17 :=
  List.length_take_le _ _

theorem CellAt.length_listedMac_le (c : CellAt) : c.listedMac.length ≤ 17 := by
  obtain ⟨prev, cell⟩ := c
  cases prev with
  | none => exact cell.address.mac_le
  | some p =>
    rw [listedMac]
    dsimp only
    by_cases h : p.Masks
    · rw [if_pos h]
      exact length_macText_le _
    · rw [if_neg h]
      exact cell.address.mac_le

theorem length_booked_le (keyOn : Bool) (secMode : ℕ) :
    (ScanList.booked keyOn secMode []).length ≤ 7 := by
  unfold ScanList.booked
  split
  · decide
  split
  · decide
  split
  · decide
  · decide

/-- The item has room for the address and the security. -/
theorem nodeItem_node (inKey : List Char) (c : CellAt) :
    (nodeItem inKey c.node).bssid = c.listedMac ∧
      (nodeItem inKey c.node).secrity = c.node.secrity :=
  ⟨List.take_of_length_le (c.length_listedMac_le.trans (by decide)),
    List.take_of_length_le ((length_booked_le _ _).trans (by decide))⟩

/-- The right cells for an item. -/
theorem reported_iff (inSsid inKey : List Char) (scan : ScanOutput) (c : CellAt) :
    (∃ cell ∈ scan.cells, cell.name.essid = inSsid ∧
        (nodeItem inKey c.node).bssid = cell.address.mac ∧
        cell.Secures (nodeItem inKey c.node).secrity) ↔
      ∃ cell ∈ scan.cells, cell.name.essid = inSsid ∧ c.listedMac = cell.address.mac ∧
        c.TellsOf cell := by
  obtain ⟨hbssid, hsecrity⟩ := nodeItem_node inKey c
  rw [hbssid, hsecrity]
  refine exists_congr fun cell => and_congr_right fun _ => and_congr_right fun _ => ?_
  exact and_congr_right fun _ => secures_iff c cell

/-- What a right choice says about what the function does. -/
theorem ChoiceExact.outcome {scan : ScanOutput} {inSsid inKey : List Char}
    (h : ChoiceExact scan inSsid inKey) (item : WifiItemConfig) :
    ∃ r : ScanChoice,
      r.item = ((lastListed scan inSsid).map fun c => nodeItem inKey c.node).getD item ∧
      r.iMatched = (if lastListed scan inSsid = none then 0 else 1) ∧
      (r.iMatched = 1 ↔ ∃ cell ∈ scan.cells, cell.name.essid = inSsid) ∧
      (r.iMatched = 1 → ∃ cell ∈ scan.cells, cell.name.essid = inSsid ∧
        r.item.bssid = cell.address.mac ∧ cell.Secures r.item.secrity) := by
  obtain ⟨s, r, -, hrun, -, hreturns, hreports⟩ := h item
  obtain ⟨s', r', -, hrun', -, hitem, hmatched⟩ := checkIwlistScanning_eq scan inSsid inKey item
  have hr : r' = r := by
    have hfuel := Nat.lt_succ_self scan.cells.length
    exact Option.some.inj ((hrun' _ hfuel).symm.trans (hrun _ hfuel))
  subst hr
  exact ⟨r', hitem, hmatched, hreturns, hreports⟩

/-- **The choice is right exactly when a cell with the wanted name is listed under it if there is
one, and the last cell listed under it has the address and tells the security of a cell with that
name.** -/
theorem choice_exact_iff (scan : ScanOutput) (inSsid inKey : List Char) :
    ChoiceExact scan inSsid inKey ↔
      ((∃ cell ∈ scan.cells, cell.name.essid = inSsid) → lastListed scan inSsid ≠ none) ∧
      ∀ c ∈ lastListed scan inSsid, ∃ cell ∈ scan.cells, cell.name.essid = inSsid ∧
        c.listedMac = cell.address.mac ∧ c.TellsOf cell := by
  constructor
  · intro h
    obtain ⟨r, hitem, hmatched, hreturns, hreports⟩ := h.outcome ⟨0, [], [], [], []⟩
    refine ⟨fun hcell hnone => ?_, fun c hc => ?_⟩
    · have hone := hreturns.mpr hcell
      rw [hmatched, if_pos hnone] at hone
      exact absurd hone (by decide)
    · have hc : lastListed scan inSsid = some c := hc
      rw [hc, if_neg (Option.some_ne_none c)] at hmatched
      rw [hc, Option.map_some, Option.getD_some] at hitem
      have hright := hreports hmatched
      rw [hitem] at hright
      exact (reported_iff inSsid inKey scan c).mp hright
  · rintro ⟨hlisted, hright⟩ item
    obtain ⟨s, r, hloop, hrun, hfrees, hitem, hmatched⟩ :=
      checkIwlistScanning_eq scan inSsid inKey item
    refine ⟨s, r, hloop, hrun, hfrees, ?_⟩
    cases hlast : lastListed scan inSsid with
    | none =>
      rw [hlast, if_pos rfl] at hmatched
      have hzero : r.iMatched ≠ 1 := by
        rw [hmatched]
        decide
      exact ⟨iff_of_false hzero fun hcell => hlisted hcell hlast, fun h => absurd h hzero⟩
    | some c =>
      rw [hlast, if_neg (Option.some_ne_none c)] at hmatched
      rw [hlast, Option.map_some, Option.getD_some] at hitem
      have hcell := (reported_iff inSsid inKey scan c).mpr (hright c hlast)
      rw [hitem]
      refine ⟨iff_of_true hmatched ?_, fun _ => hcell⟩
      obtain ⟨cell, hmem, hname, -⟩ := hcell
      exact ⟨cell, hmem, hname⟩

/-! ## A cell as `iwlist` prints it -/

/-- A short line. -/
def ScanText.ofShort (text : List Char) (newline : '\n' ∉ text) (zero : '\x00' ∉ text)
    (hle : text.length ≤ scanRoom) (address : ¬ "Address".toList <:+: text) : ScanText :=
  ⟨ScanLine.ofShort (fun w hw => (scanWords_ne w hw).1) text newline zero hle, address⟩

/-- A protected cell; its `IE:` line stands behind the key. -/
def wpaCell : ScanCell where
  address :=
    { pre := "Cell 01 - ".toList
      mac := "D4:12:BB:08:CB:64".toList
      first := by decide
      mac_le := by decide
      newline := by decide
      zero := by decide
      short := by decide
      kind := by decide }
  early := []
  mid := []
  late := [ScanText.ofShort "IE: IEEE 802.11i/WPA2 Version 1".toList
    (fun h => absurd h (by decide)) (fun h => absurd h (by decide)) (by decide) (by decide)]
  name :=
    { pre := []
      essid := "home".toList
      post := []
      first := fun h => absurd h (by decide)
      quote := fun h => absurd h (by decide)
      newline := fun h => absurd h (by decide)
      zero := fun h => absurd h (by decide)
      short := by decide }
  key := ScanText.ofShort "Encryption key:on".toList
    (fun h => absurd h (by decide)) (fun h => absurd h (by decide)) (by decide) (by decide)
  nameFirst := false
  passing := by
    intro l hl
    rcases List.mem_singleton.mp hl with rfl
    exact .inr (.inl (by decide))
  isKey := .inl (by decide)

def wpaScan : ScanOutput where
  head := []
  cells := [wpaCell]
  tail := []
  head_other := fun _ hl => absurd hl List.not_mem_nil
  tail_other := fun _ hl => absurd hl List.not_mem_nil

theorem lastListed_single {scan : ScanOutput} {cell : ScanCell} {inSsid : List Char}
    (hcells : scan.cells = [cell]) (hssid : cell.listedSsid = inSsid) :
    lastListed scan inSsid = some (none, cell) := by
  rw [lastListed, hcells, cellsFrom, cellsFrom, List.filter_singleton, decide_eq_true hssid]
  rfl

/-- The same cell without protection. -/
def openCell : ScanCell :=
  { wpaCell with
    late := []
    key := ScanText.ofShort "Encryption key:off".toList (by decide) (by decide) (by decide)
      (by decide)
    passing := fun _ hl => absurd hl List.not_mem_nil
    isKey := .inr (by decide) }

def openScan : ScanOutput := { wpaScan with cells := [openCell] }

/-- The open cell is chosen. -/
theorem open_chosen : ChoiceExact openScan "home".toList "secret".toList := by
  have hlast : lastListed openScan "home".toList = some (none, openCell) :=
    lastListed_single rfl (by decide)
  refine (choice_exact_iff openScan "home".toList "secret".toList).mpr ⟨fun _ => ?_, ?_⟩
  · rw [hlast]
    exact Option.some_ne_none _
  · intro c hc
    rw [hlast] at hc
    obtain rfl := Option.some.inj hc
    have hoff : openCell.keyOn = false := by decide
    refine ⟨openCell, List.mem_singleton_self _, rfl, rfl, fun _ => hoff, ?_, ?_⟩
    · exact fun hon => absurd (hoff.symm.trans hon) (by decide)
    · exact fun hon => absurd (hoff.symm.trans hon) (by decide)

/-- The protected cell is reported without a security. -/
theorem wpa_unsecured : ¬ ChoiceExact wpaScan "home".toList "secret".toList := by
  intro h
  obtain ⟨r, hitem, -, hreturns, hreports⟩ := h.outcome ⟨0, [], [], [], []⟩
  have hlast : lastListed wpaScan "home".toList = some (none, wpaCell) :=
    lastListed_single rfl (by decide)
  rw [hlast] at hitem
  obtain ⟨cell, hcell, -, -, hsecures⟩ :=
    hreports (hreturns.mpr ⟨wpaCell, List.mem_singleton_self _, rfl⟩)
  have hcell : cell = wpaCell := List.mem_singleton.mp hcell
  subst hcell
  have hwpa := hsecures.wpa (by decide) ⟨_, List.mem_singleton_self _, by decide, by decide⟩
  rw [hitem] at hwpa
  exact absurd hwpa (by decide)
