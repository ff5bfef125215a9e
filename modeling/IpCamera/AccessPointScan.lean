/-
# Reading a scan into a list (`net.c`)

The loop of `check_iwlist_scanning` makes a linked list of the access points in the output of
`iwlist`, as it lies in memory: nodes by address, with the pointers `pap` and `pcur` into them.
The line about the encryption key links the node and ends the cell, whatever the cell has still
to tell.  An access through a null pointer has no result.

`ScanList` is the same loop without memory: the finished nodes in order, and the one in the making.
`runPieces_scan` relates the two.
-/
import IpCamera.CString
import IpCamera.LineScan
import IpCamera.LinkedCells
import Mathlib.Data.Int.Lemmas

open CString LineInput LineScan LinkedCells

/-! ## The loop -/

/-- `Ap_Info` without the link; the strings in its fields. -/
structure ApInfo where
  channel : UInt8
  ssid : List Char
  mac : List Char
  secrity : List Char
  deriving DecidableEq, Repr

/-- After `memset`. -/
def ApInfo.zero : ApInfo := ⟨0, [], [], []⟩

/-- The variables of the loop, and memory; `top` is the last address that `malloc` has given, and
`headNext` is `head.next`. -/
structure ScanVars where
  heap : Heap ApInfo
  top : ℕ
  headNext : ℕ
  pap : ℕ
  pcur : ℕ
  isAuthOn : ℤ
  secMode : ℕ
  isApinfoHead : Bool

/-- The text behind `Address:` and a blank, up to the end of the line. -/
def macText (ptmp : List Char) : List Char := ((ptmp.drop 9).takeWhile (· ≠ '\n')).take 17

/-- The text behind `ESSID:` and a quote, up to the next quote. -/
def ssidText (ptmp : List Char) : List Char := ((ptmp.drop 7).takeWhile (· ≠ '"')).take 32

namespace ScanVars

def start : ScanVars := ⟨fun _ => none, 0, 0, 0, 0, -1, 0, false⟩

/-- `malloc` of a node, which is filled in. -/
def malloc (s : ScanVars) (ap : ApInfo) : ScanVars :=
  { s with
    heap := Function.update s.heap (s.top + 1) (some ⟨ap, 0⟩)
    top := s.top + 1
    pap := s.top + 1 }

/-- An assignment to a field of `*pap`. -/
def setPap (s : ScanVars) (f : ApInfo → ApInfo) : Option ScanVars :=
  (s.heap s.pap).map fun c =>
    { s with heap := Function.update s.heap s.pap (some ⟨f c.val, c.next⟩) }

/-- What a line with `IE:` does to `sec_mode`. -/
def ieMode (buf : List Char) (secMode : ℕ) : ℕ :=
  if "WPA".toList <:+: buf then 2 else if "WEP".toList <:+: buf then 1 else secMode

/-- The branches for a line that does not begin a cell. -/
def readField (buf : List Char) (s : ScanVars) : Option ScanVars :=
  match strstr "ESSID".toList buf with
  | some ptmp => s.setPap fun ap => { ap with ssid := ssidText ptmp }
  | none =>
    match strstr "Channel".toList buf with
    | some ptmp => s.setPap fun ap => { ap with channel := UInt8.ofInt (atoi (ptmp.drop 8)) }
    | none =>
      if "IE:".toList <:+: buf then some { s with secMode := ieMode buf s.secMode }
      else if "Encryption key:on".toList <:+: buf then some { s with isAuthOn := 1 }
      else if "Encryption key:off".toList <:+: buf then some { s with isAuthOn := 0 }
      else some s

/-- The branches for a line.  What an earlier line left in the buffer behind the end of a shorter
one counts as nothing. -/
def readLine (buf : List Char) (s : ScanVars) : Option ScanVars :=
  match strstr "Address".toList buf, s.isApinfoHead with
  | some ptmp, false =>
    some { s.malloc { ApInfo.zero with mac := macText ptmp } with isApinfoHead := true }
  | _, _ => s.readField buf

/-- The security that is booked when a cell ends. -/
def book (isAuthOn : ℤ) (secMode : ℕ) (ap : ApInfo) : ApInfo :=
  if isAuthOn = 0 then { ap with secrity := "NONE".toList }
  else if secMode = 1 then { ap with secrity := "WEP".toList }
  else if secMode = 2 then { ap with secrity := "WPA-PSK".toList }
  else ap

/-- `*pap` becomes the last node of the list. -/
def link (s : ScanVars) : Option ScanVars :=
  if s.headNext = 0 then some { s with headNext := s.pap, pcur := s.pap, isApinfoHead := false }
  else
    (s.heap s.pcur).map fun c =>
      { s with
        heap := Function.update s.heap s.pcur (some ⟨c.val, s.pap⟩)
        pcur := s.pap
        isApinfoHead := false }

/-- What follows the branches. -/
def endAp (s : ScanVars) : Option ScanVars :=
  if 0 ≤ s.isAuthOn then
    (s.setPap (book s.isAuthOn s.secMode)).bind fun s =>
      link { s with secMode := 0, isAuthOn := -1 }
  else some s

/-- One turn of the loop. -/
def turn (buf : List Char) (s : Option ScanVars) : ForInStep (Option ScanVars) :=
  match s.bind fun s => (s.readLine (stringOf buf)).bind endAp with
  | none => .done none
  | some s => .yield (some s)

end ScanVars

/-- `buf` has 1024 characters. -/
def scanRoom : ℕ := 1023

/-- The loop over the output of `iwlist`. -/
def scanLoop (output : List Char) : Option ScanVars :=
  whileFgets scanRoom (by decide) ScanVars.turn ⟨output, false⟩ (some ScanVars.start)

/-! ## Looking through the list -/

/-- `WiFi_Item_Config`, what is set of it. -/
structure WifiItemConfig where
  status : ℤ
  ssid : List Char
  pwd : List Char
  bssid : List Char
  secrity : List Char
  deriving DecidableEq, Repr

/-- What `check_iwlist_scanning` leaves: memory, the addresses given to `free`, the item and its
return value. -/
structure ScanChoice where
  heap : Heap ApInfo
  freed : List ℕ
  item : WifiItemConfig
  iMatched : ℤ

/-- The item for a node. -/
def matchedItem (inKey : List Char) (ap : ApInfo) : WifiItemConfig :=
  ⟨1, ap.ssid.take 32, inKey.take 31, ap.mac.take 19, ap.secrity.take 22⟩

/-- The loop over the list, which frees every node. -/
def matchLoop (inSsid inKey : List Char) :
    (fuel : ℕ) → (pcur : ℕ) → ScanChoice → Option ScanChoice
  | 0, _, _ => none
  | fuel + 1, pcur, r =>
    if pcur = 0 then some r
    else
      (r.heap pcur).bind fun c =>
        let r :=
          if c.val.ssid = inSsid then { r with item := matchedItem inKey c.val, iMatched := 1 }
          else r
        matchLoop inSsid inKey fuel c.next
          { r with heap := Function.update r.heap pcur none, freed := r.freed ++ [pcur] }

/-- `check_iwlist_scanning`, with at most `fuel` rounds of the second loop. -/
def checkIwlistScanning (fuel : ℕ) (output inSsid inKey : List Char) (item : WifiItemConfig) :
    Option ScanChoice :=
  (scanLoop output).bind fun s =>
    matchLoop inSsid inKey fuel s.headNext ⟨s.heap, [], item, 0⟩

/-! ## The loop without memory -/

/-- What is reported of a node. -/
structure ApNode where
  ssid : List Char
  mac : List Char
  secrity : List Char
  deriving DecidableEq, Repr

def ApInfo.node (ap : ApInfo) : ApNode := ⟨ap.ssid, ap.mac, ap.secrity⟩

/-- The linked nodes, the one in the making, and `sec_mode`. -/
structure ScanList where
  closed : List ApNode
  current : Option ApNode
  secMode : ℕ
  deriving DecidableEq, Repr

namespace ScanList

def start : ScanList := ⟨[], none, 0⟩

/-- The last node is changed. -/
def changeLast (f : ApNode → ApNode) : List ApNode → Option (List ApNode)
  | [] => none
  | [ap] => some [f ap]
  | ap :: aps => (changeLast f aps).map (ap :: ·)

/-- `*pap` is the node in the making, or the last one. -/
def setPap (t : ScanList) (f : ApNode → ApNode) : Option ScanList :=
  match t.current with
  | some ap => some { t with current := some (f ap) }
  | none => (changeLast f t.closed).map fun aps => { t with closed := aps }

/-- The security that is booked. -/
def booked (keyOn : Bool) (secMode : ℕ) (secrity : List Char) : List Char :=
  if keyOn = false then "NONE".toList
  else if secMode = 1 then "WEP".toList
  else if secMode = 2 then "WPA-PSK".toList
  else secrity

/-- The end of a cell; without a node in the making the last one would get a link to itself. -/
def endAp (keyOn : Bool) (t : ScanList) : Option ScanList :=
  t.current.map fun ap =>
    ⟨t.closed ++ [{ ap with secrity := booked keyOn t.secMode ap.secrity }], none, 0⟩

/-- A line that does not begin a cell. -/
def readField (buf : List Char) (t : ScanList) : Option ScanList :=
  match strstr "ESSID".toList buf with
  | some ptmp => t.setPap fun ap => { ap with ssid := ssidText ptmp }
  | none =>
    if "Channel".toList <:+: buf then t.setPap id
    else if "IE:".toList <:+: buf then some { t with secMode := ScanVars.ieMode buf t.secMode }
    else if "Encryption key:on".toList <:+: buf then t.endAp true
    else if "Encryption key:off".toList <:+: buf then t.endAp false
    else some t

/-- A line. -/
def readLine (buf : List Char) (t : ScanList) : Option ScanList :=
  match strstr "Address".toList buf, t.current with
  | some ptmp, none => some { t with current := some ⟨[], macText ptmp, []⟩ }
  | _, _ => t.readField buf

end ScanList

/-! ## What memory holds -/

/-- Where `pap` points: to the node in the making, or to the last one. -/
def Points (s : ScanVars) (l : List (ℕ × ApInfo)) : Option ApNode → Prop
  | some ap => s.isApinfoHead = true ∧ s.pap ≠ 0 ∧ s.pap ∉ addresses l ∧
      ∃ v, s.heap s.pap = some ⟨v, 0⟩ ∧ v.node = ap
  | none => s.isApinfoHead = false ∧ ∀ a ∈ (addresses l).getLast?, s.pap = a

/-- Memory holds the list of nodes. -/
structure Holds (s : ScanVars) (l : List (ℕ × ApInfo)) (t : ScanList) : Prop where
  linked : Linked s.heap l
  nodup : (addresses l).Nodup
  head : s.headNext = first l
  last : ∀ a ∈ (addresses l).getLast?, s.pcur = a
  closed : l.map (fun p => p.2.node) = t.closed
  fresh : ∀ a, s.top < a → s.heap a = none
  auth : s.isAuthOn = -1
  secMode : s.secMode = t.secMode
  points : Points s l t.current

theorem holds_start : Holds ScanVars.start [] ScanList.start where
  linked := trivial
  nodup := List.nodup_nil
  head := rfl
  last := fun a ha => absurd ha (by simp [addresses])
  closed := rfl
  fresh := fun _ _ => rfl
  auth := rfl
  secMode := rfl
  points := ⟨rfl, fun a ha => absurd ha (by simp [addresses])⟩

theorem getLast_addresses (pre : List (ℕ × ApInfo)) (a : ℕ) (v : ApInfo) :
    (addresses (pre ++ [(a, v)])).getLast? = some a := by
  rw [addresses_append, addresses_cons]
  exact List.getLast?_concat

theorem live_of_mem {heap : Heap ApInfo} {l : List (ℕ × ApInfo)} (h : Linked heap l) {a : ℕ}
    (ha : a ∈ addresses l) : ∃ c, heap a = some c := by
  obtain ⟨⟨a, v⟩, hmem, rfl⟩ := List.mem_map.mp ha
  obtain ⟨pre, post, rfl⟩ := List.append_of_mem hmem
  exact ⟨_, h.cell.2⟩

/-- A write to a live node leaves what is above the last one unused. -/
theorem fresh_update {heap : Heap ApInfo} {top a : ℕ} {c : Cell ApInfo}
    (hfresh : ∀ b, top < b → heap b = none) (hcell : heap a = some c)
    (x : Option (Cell ApInfo)) : ∀ b, top < b → Function.update heap a x b = none := by
  intro b hb
  have hba : b ≠ a := by
    rintro rfl
    rw [hfresh b hb] at hcell
    cases hcell
  rw [Function.update_of_ne hba, hfresh b hb]

theorem changeLast_concat (f : ApNode → ApNode) (aps : List ApNode) (ap : ApNode) :
    ScanList.changeLast f (aps ++ [ap]) = some (aps ++ [f ap]) := by
  induction aps with
  | nil => rfl
  | cons ap' aps ih =>
    cases aps with
    | nil => rfl
    | cons ap'' aps =>
      rw [List.cons_append, List.cons_append, ScanList.changeLast, ← List.cons_append, ih]
      · rfl
      · exact fun h => absurd h (by simp)

namespace Holds

variable {s : ScanVars} {l : List (ℕ × ApInfo)} {t t' : ScanList}

theorem setSecMode (h : Holds s l t) (secMode : ℕ) :
    Holds { s with secMode := secMode } l { t with secMode := secMode } :=
  { h with secMode := rfl, points := h.points }

/-- A cell begins. -/
theorem malloc (h : Holds s l t) (ap : ApInfo) :
    Holds { s.malloc ap with isApinfoHead := true } l { t with current := some ap.node } := by
  have hnotin : s.top + 1 ∉ addresses l := by
    intro hmem
    obtain ⟨c, hc⟩ := live_of_mem h.linked hmem
    rw [h.fresh _ (Nat.lt_succ_self s.top)] at hc
    cases hc
  exact
    { linked := h.linked.frame_update hnotin _
      nodup := h.nodup
      head := h.head
      last := h.last
      closed := h.closed
      fresh := fun a ha => by
        have ha : s.top + 1 < a := ha
        show Function.update s.heap (s.top + 1) _ a = none
        rw [Function.update_of_ne (by omega), h.fresh a (by omega)]
      auth := h.auth
      secMode := h.secMode
      points := ⟨rfl, Nat.succ_ne_zero _, hnotin, ap, Function.update_self _ _ _, rfl⟩ }

/-- A field of the node in the making, or of the last one, is set. -/
theorem setPap (h : Holds s l t) {f : ApInfo → ApInfo} {g : ApNode → ApNode}
    (hfg : ∀ v, (f v).node = g v.node) (ht : t.setPap g = some t') :
    ∃ s' l', s.setPap f = some s' ∧ Holds s' l' t' := by
  have hpoints := h.points
  unfold ScanList.setPap at ht
  cases hcurrent : t.current with
  | some ap =>
    rw [hcurrent] at ht hpoints
    obtain ⟨hhead, hne, hnotin, v, hcell, hnode⟩ := hpoints
    refine ⟨_, l, by rw [ScanVars.setPap, hcell]; rfl, ?_⟩
    rw [← Option.some.inj ht]
    exact
      { linked := h.linked.frame_update hnotin _
        nodup := h.nodup
        head := h.head
        last := h.last
        closed := h.closed
        fresh := fresh_update h.fresh hcell _
        auth := h.auth
        secMode := h.secMode
        points := ⟨hhead, hne, hnotin, f v, Function.update_self _ _ _, hnode ▸ hfg v⟩ }
  | none =>
    rw [hcurrent] at ht hpoints
    obtain ⟨aps, haps, rfl⟩ := Option.map_eq_some_iff.mp ht
    rcases List.eq_nil_or_concat l with rfl | ⟨pre, ⟨a, v⟩, rfl⟩
    · rw [← h.closed] at haps
      cases haps
    rw [List.concat_eq_append] at h hpoints
    have hpap : s.pap = a := hpoints.2 a (getLast_addresses pre a v)
    have hcell : s.heap a = some ⟨v, 0⟩ := h.linked.cell.2
    refine ⟨_, pre ++ [(a, f v)], by rw [ScanVars.setPap, hpap, hcell]; rfl, ?_⟩
    have haddresses : addresses (pre ++ [(a, f v)]) = addresses (pre ++ [(a, v)]) := by
      rw [addresses_append, addresses_append]
      rfl
    have hclosed := h.closed
    rw [List.map_append, List.map_singleton] at hclosed
    rw [← hclosed, changeLast_concat] at haps
    have hfirst : first (pre ++ [(a, f v)]) = first (pre ++ [(a, v)]) :=
      first_append_congr pre rfl
    exact
      { linked := h.linked.modify h.nodup (f v)
        nodup := haddresses ▸ h.nodup
        head := h.head.trans hfirst.symm
        last := haddresses ▸ h.last
        closed := by
          rw [List.map_append, List.map_singleton, hfg]
          exact Option.some.inj haps
        fresh := fresh_update h.fresh hcell _
        auth := h.auth
        secMode := h.secMode
        points := ⟨hpoints.1, fun b hb => hpap ▸ hpoints.2 b (haddresses ▸ hb)⟩ }

/-- What is booked, without memory. -/
theorem book_node (keyOn : Bool) (secMode : ℕ) (v : ApInfo) :
    (ScanVars.book (if keyOn then 1 else 0) secMode v).node
      = { v.node with secrity := ScanList.booked keyOn secMode v.node.secrity } := by
  rw [ScanVars.book, ScanList.booked]
  cases keyOn with
  | false => rfl
  | true =>
    by_cases hone : secMode = 1
    · simp [hone, ApInfo.node]
    · by_cases htwo : secMode = 2
      · simp [htwo, ApInfo.node]
      · simp [hone, htwo, ApInfo.node]

/-- The node in the making becomes the last one. -/
theorem link (h : Holds s l t) {ap : ApNode} (hcurrent : t.current = some ap) :
    ∃ s' l', s.link = some s' ∧ Holds s' l' ⟨t.closed ++ [ap], none, t.secMode⟩ := by
  have hpoints := h.points
  rw [hcurrent] at hpoints
  obtain ⟨-, hne, hnotin, v, hcell, hnode⟩ := hpoints
  unfold ScanVars.link
  rcases List.eq_nil_or_concat l with rfl | ⟨pre, ⟨a, u⟩, rfl⟩
  · refine ⟨_, [(s.pap, v)], if_pos h.head, ?_⟩
    exact
      { linked := ⟨hne, hcell, trivial⟩
        nodup := List.nodup_singleton _
        head := rfl
        last := fun b hb => Option.some.inj hb
        closed := by
          rw [List.map_singleton, hnode, ← h.closed]
          rfl
        fresh := h.fresh
        auth := h.auth
        secMode := h.secMode
        points := ⟨rfl, fun b hb => Option.some.inj hb⟩ }
  · rw [List.concat_eq_append] at h hnotin
    have hpcur : s.pcur = a := h.last a (getLast_addresses pre a u)
    have hlast : s.heap a = some ⟨u, 0⟩ := h.linked.cell.2
    have hheadNext : s.headNext ≠ 0 := by
      rw [h.head, Ne, h.linked.first_eq_zero]
      simp
    have haddresses : addresses (pre ++ [(a, u), (s.pap, v)])
        = addresses (pre ++ [(a, u)]) ++ [s.pap] := by
      simp [addresses]
    have hlast' : (addresses (pre ++ [(a, u), (s.pap, v)])).getLast? = some s.pap := by
      rw [haddresses]
      exact List.getLast?_concat
    have hfirst : first (pre ++ [(a, u), (s.pap, v)]) = first (pre ++ [(a, u)]) :=
      first_append_congr pre rfl
    rw [if_neg hheadNext, hpcur, hlast]
    refine ⟨_, pre ++ [(a, u), (s.pap, v)], rfl, ?_⟩
    exact
      { linked := h.linked.concat h.nodup hne hnotin hcell
        nodup := by
          rw [haddresses, List.nodup_append]
          refine ⟨h.nodup, List.nodup_singleton _, ?_⟩
          rintro b hb c hc rfl
          exact hnotin (List.mem_singleton.mp hc ▸ hb)
        head := h.head.trans hfirst.symm
        last := fun b hb => Option.some.inj (hlast'.symm.trans hb)
        closed := by
          have hclosed := h.closed
          rw [List.map_append, List.map_singleton] at hclosed
          rw [List.map_append, List.map_cons, List.map_singleton, hnode, ← hclosed,
            List.append_assoc]
          rfl
        fresh := fresh_update h.fresh hlast _
        auth := h.auth
        secMode := h.secMode
        points := ⟨rfl, fun b hb => Option.some.inj (hlast'.symm.trans hb)⟩ }

/-- The end of a cell: its security is booked, then it is linked. -/
theorem endAp (h : Holds s l t) (keyOn : Bool) (ht : t.endAp keyOn = some t') :
    ∃ s' l', ScanVars.endAp { s with isAuthOn := if keyOn then 1 else 0 } = some s' ∧
      Holds s' l' t' := by
  obtain ⟨ap, hcurrent, rfl⟩ := Option.map_eq_some_iff.mp ht
  let g : ApNode → ApNode := fun ap =>
    { ap with secrity := ScanList.booked keyOn s.secMode ap.secrity }
  have hbooked : t.setPap g = some { t with current := some (g ap) } := by
    rw [ScanList.setPap, hcurrent]
  obtain ⟨s₁, l₁, hset, h₁⟩ := h.setPap (book_node keyOn s.secMode) hbooked
  obtain ⟨s', l', hlink, h'⟩ := (h₁.setSecMode 0).link rfl
  refine ⟨s', l', ?_, h.secMode ▸ h'⟩
  have hauth : (0 : ℤ) ≤ if keyOn then 1 else 0 := by
    cases keyOn with
    | false => exact le_rfl
    | true => exact zero_le_one
  obtain ⟨c, hc, hs₁⟩ := Option.map_eq_some_iff.mp hset
  unfold ScanVars.endAp
  rw [if_pos hauth, ScanVars.setPap]
  dsimp only
  rw [hc, Option.map_some, Option.bind_some, ← hlink, ← hs₁, ← h.auth]

end Holds

/-! ## The loops -/

section Loops

variable {s : ScanVars} {l : List (ℕ × ApInfo)} {t t' : ScanList}

/-- A line that does not begin a cell, with what follows the branches. -/
theorem Holds.readField (h : Holds s l t) {buf : List Char} (ht : t.readField buf = some t') :
    ∃ s' l', (s.readField buf).bind ScanVars.endAp = some s' ∧ Holds s' l' t' := by
  have hkeep : ∀ {s' : ScanVars} {l' : List (ℕ × ApInfo)}, Holds s' l' t' →
      ∃ s'' l'', (some s').bind ScanVars.endAp = some s'' ∧ Holds s'' l'' t' := by
    intro s' l' h'
    refine ⟨s', l', ?_, h'⟩
    unfold ScanVars.endAp
    rw [Option.bind_some, if_neg (by rw [h'.auth]; decide)]
  unfold ScanVars.readField
  unfold ScanList.readField at ht
  cases hessid : strstr "ESSID".toList buf with
  | some ptmp =>
    rw [hessid] at ht
    obtain ⟨s', l', hset, h'⟩ :=
      h.setPap (f := fun ap => { ap with ssid := ssidText ptmp }) (fun _ => rfl) ht
    dsimp only
    rw [hset]
    exact hkeep h'
  | none =>
    rw [hessid] at ht
    dsimp only at ht ⊢
    by_cases hchannel : "Channel".toList <:+: buf
    · rw [if_pos hchannel] at ht
      cases hptmp : strstr "Channel".toList buf with
      | none => exact absurd hchannel (strstr_eq_none_iff.mp hptmp)
      | some ptmp =>
        obtain ⟨s', l', hset, h'⟩ :=
          h.setPap (f := fun ap => { ap with channel := UInt8.ofInt (atoi (ptmp.drop 8)) })
            (fun _ => rfl) ht
        dsimp only
        rw [hset]
        exact hkeep h'
    · rw [if_neg hchannel] at ht
      rw [strstr_eq_none_iff.mpr hchannel]
      dsimp only
      by_cases hie : "IE:".toList <:+: buf
      · rw [if_pos hie] at ht ⊢
        rw [← Option.some.inj ht, ← h.secMode]
        exact ⟨_, l, if_neg (by rw [h.auth]; decide), h.setSecMode _⟩
      rw [if_neg hie] at ht ⊢
      by_cases hon : "Encryption key:on".toList <:+: buf
      · rw [if_pos hon] at ht ⊢
        exact h.endAp true ht
      rw [if_neg hon] at ht ⊢
      by_cases hoff : "Encryption key:off".toList <:+: buf
      · rw [if_pos hoff] at ht ⊢
        exact h.endAp false ht
      rw [if_neg hoff] at ht ⊢
      exact hkeep (Option.some.inj ht ▸ h)

/-- One turn. -/
theorem Holds.readLine (h : Holds s l t) {buf : List Char} (ht : t.readLine buf = some t') :
    ∃ s' l', (s.readLine buf).bind ScanVars.endAp = some s' ∧ Holds s' l' t' := by
  have hpoints := h.points
  unfold ScanVars.readLine
  unfold ScanList.readLine at ht
  cases haddress : strstr "Address".toList buf with
  | none =>
    rw [haddress] at ht
    exact h.readField ht
  | some ptmp =>
    rw [haddress] at ht
    cases hcurrent : t.current with
    | some ap =>
      rw [hcurrent] at ht hpoints
      rw [hpoints.1]
      exact h.readField ht
    | none =>
      rw [hcurrent] at ht hpoints
      rw [hpoints.1]
      dsimp only at ht ⊢
      rw [← Option.some.inj ht]
      refine ⟨_, l, ?_, h.malloc { ApInfo.zero with mac := macText ptmp }⟩
      unfold ScanVars.endAp
      exact if_neg (by rw [ScanVars.malloc, h.auth]; decide)

/-- The loop over pieces follows the loop without memory. -/
theorem runPieces_scan (h : Holds s l t) {ps : List (List Char)}
    (ht : ps.foldlM (fun t p => t.readLine (stringOf p)) t = some t') :
    ∃ s' l', runPieces ScanVars.turn ps (some s) = .yield (some s') ∧ Holds s' l' t' := by
  induction ps generalizing s l t with
  | nil => exact ⟨s, l, rfl, Option.some.inj ht ▸ h⟩
  | cons p ps ih =>
    rw [List.foldlM_cons] at ht
    obtain ⟨u, hu, ht⟩ := Option.bind_eq_some_iff.mp ht
    obtain ⟨s', l', hread, h'⟩ := h.readLine hu
    have hturn : ScanVars.turn p (some s) = .yield (some s') := by
      rw [ScanVars.turn, Option.bind_some, hread]
    rw [runPieces, hturn]
    exact ih h' ht

end Loops

/-! ## The second loop -/

/-- The last node with the name. -/
def lastMatch (inSsid : List Char) (nodes : List ApNode) : Option ApNode :=
  (nodes.filter (·.ssid = inSsid)).getLast?

/-- The item for a node. -/
def nodeItem (inKey : List Char) (ap : ApNode) : WifiItemConfig :=
  ⟨1, ap.ssid.take 32, inKey.take 31, ap.mac.take 19, ap.secrity.take 22⟩

theorem lastMatch_cons (inSsid : List Char) (ap : ApNode) (nodes : List ApNode) :
    lastMatch inSsid (ap :: nodes)
      = (lastMatch inSsid nodes).or (if ap.ssid = inSsid then some ap else none) := by
  unfold lastMatch
  by_cases h : ap.ssid = inSsid
  · rw [List.filter_cons_of_pos (by simpa using h), if_pos h]
    cases hrest : nodes.filter (·.ssid = inSsid) with
    | nil => rfl
    | cons ap' rest =>
      rw [List.getLast?_cons_cons]
      cases hlast : (ap' :: rest).getLast? with
      | none => exact absurd (List.getLast?_eq_none_iff.mp hlast) (by simp)
      | some last => rfl
  · rw [List.filter_cons_of_neg (by simpa using h), if_neg h, Option.or_none]

/-- The loop frees the nodes in their order, and the item is that of the last one with the name. -/
theorem matchLoop_eq (inSsid inKey : List Char) {l : List (ℕ × ApInfo)} {r : ScanChoice}
    (hlinked : Linked r.heap l) (hnodup : (addresses l).Nodup) {fuel : ℕ}
    (hfuel : l.length < fuel) :
    ∃ heap, matchLoop inSsid inKey fuel (first l) r
        = some ⟨heap, r.freed ++ addresses l,
            ((lastMatch inSsid (l.map fun p => p.2.node)).map (nodeItem inKey)).getD r.item,
            if lastMatch inSsid (l.map fun p => p.2.node) = none then r.iMatched else 1⟩ ∧
      ∀ a, heap a = if a ∈ addresses l then none else r.heap a := by
  induction l generalizing r fuel with
  | nil =>
    obtain ⟨fuel, rfl⟩ := Nat.exists_eq_succ_of_ne_zero (Nat.ne_of_gt hfuel)
    refine ⟨r.heap, ?_, fun a => rfl⟩
    rw [matchLoop, first, if_pos rfl]
    simp [addresses, lastMatch]
  | cons p l ih =>
    obtain ⟨a, v⟩ := p
    obtain ⟨fuel, rfl⟩ := Nat.exists_eq_succ_of_ne_zero (Nat.ne_of_gt (Nat.zero_lt_of_lt hfuel))
    obtain ⟨hne, hcell, hrest⟩ := hlinked
    obtain ⟨hnotin, hnodup⟩ := List.nodup_cons.mp hnodup
    have hfree : Linked (Function.update r.heap a none) l := hrest.frame_update hnotin none
    have hheap : ∀ heap : Heap ApInfo,
        (∀ b, heap b = if b ∈ addresses l then none else Function.update r.heap a none b) →
          ∀ b, heap b = if b ∈ addresses ((a, v) :: l) then none else r.heap b := by
      intro heap hall b
      rw [hall b, addresses_cons]
      by_cases hb : b ∈ addresses l
      · rw [if_pos hb, if_pos (List.mem_cons_of_mem a hb)]
      · by_cases hba : b = a
        · rw [if_neg hb, hba, Function.update_self, if_pos List.mem_cons_self]
        · rw [if_neg hb, Function.update_of_ne hba, if_neg]
          exact fun h => (List.mem_cons.mp h).elim hba hb
    have hlt : l.length < fuel := Nat.lt_of_succ_lt_succ hfuel
    rw [matchLoop, first, if_neg hne, hcell, Option.bind_some, List.map_cons, lastMatch_cons]
    dsimp only
    by_cases hmatch : v.ssid = inSsid
    · obtain ⟨heap, hloop, hall⟩ :=
        ih (r := ⟨Function.update r.heap a none, r.freed ++ [a], matchedItem inKey v, 1⟩)
          hfree hnodup hlt
      have hnode : v.node.ssid = inSsid := hmatch
      rw [if_pos hmatch, hloop, if_pos hnode]
      refine ⟨heap, ?_, hheap heap hall⟩
      dsimp only
      rw [List.append_assoc]
      cases lastMatch inSsid (l.map fun p => p.2.node) with
      | none => rfl
      | some ap => rfl
    · obtain ⟨heap, hloop, hall⟩ :=
        ih (r := ⟨Function.update r.heap a none, r.freed ++ [a], r.item, r.iMatched⟩)
          hfree hnodup hlt
      have hnode : ¬ v.node.ssid = inSsid := hmatch
      rw [if_neg hmatch, hloop, if_neg hnode, Option.or_none]
      refine ⟨heap, ?_, hheap heap hall⟩
      dsimp only
      rw [List.append_assoc]
      rfl
