/-
# Splitting a frame into NAL units (`adapt_media.c`)

`get_one_nalunit` shifts the bytes through a 32-bit register and stops where the register
is a start code.  All that matters of the register is how many zero bytes it ends with
(`trailingZeros`), so the search is a scan with four states (`scanZeros`), and it stops at
the first start code behind the unit (`scanZeros_unit`).

A read outside the frame, a failed `assert` and a write behind the descriptor are `none`.
-/
import Mathlib.Data.List.Infix
import Mathlib.Data.UInt
import Mathlib.Tactic

/-! ## The code -/

/-- `code = (code << 8) | tmp` -/
def shiftIn (code : ℕ) (tmp : UInt8) : ℕ := (code * 256 + tmp.toNat) % 4294967296

/-- The loop from `pos` on that looks for the next start code: the position it ends at. -/
def scanStart (pBuffer : List UInt8) (dataSize code pos : ℕ) : Option ℕ :=
  if pos < dataSize then
    match pBuffer[pos]? with
    | none => none
    | some tmp =>
      if shiftIn code tmp = 0x00000001 then some pos
      else scanStart pBuffer dataSize (shiftIn code tmp) (pos + 1)
  else some pos
termination_by dataSize - pos

/-- `get_one_nalunit`: the length of the unit, and its type. -/
def getOneNalunit (pBuffer : List UInt8) (dataSize : ℕ) : Option (ℕ × ℕ) := do
  let b0 ← pBuffer[0]?
  let b1 ← pBuffer[1]?
  let b2 ← pBuffer[2]?
  let b3 ← pBuffer[3]?
  if shiftIn (shiftIn (shiftIn (shiftIn 0xffffffff b0) b1) b2) b3 ≠ 0x00000001 then none
  else
    let b4 ← pBuffer[4]?
    let naluType := b4.toNat &&& 0x1F
    let pos ← scanStart pBuffer dataSize 0xffffffff 5
    if pos = dataSize then some (dataSize, naluType) else some (pos - 4 + 1, naluType)

/-- An entry of `sdk_nal_desc_t`. -/
structure NalDesc where
  nalType : ℕ
  nalOff : ℕ
  nalSize : ℕ
deriving DecidableEq, Repr

/-- `MAX_NAL_NUM` -/
def maxNalNum : ℕ := 9

/-- The loop of `get_nalu_info`; `nal` are the first `nal_num` entries of the descriptor. -/
def naluLoop (videoData : List UInt8) (nal : List NalDesc) (cursor : ℕ) : Option (List NalDesc) :=
  if nal.length < maxNalNum then
    match getOneNalunit (videoData.drop cursor) (videoData.length - cursor) with
    | none => none
    | some (nalUnitLength, nalUnitType) =>
      if nalUnitLength > 0 ∧ nalUnitType > 0 then
        let nal' := nal ++ [⟨nalUnitType, cursor + 4, (nalUnitLength + 4294967292) % 4294967296⟩]
        if nal.length + 1 ≥ maxNalNum then some nal'
        else if cursor + nalUnitLength < videoData.length then
          naluLoop videoData nal' (cursor + nalUnitLength)
        else some nal'
      else none
  else none
termination_by maxNalNum - nal.length
decreasing_by
  rw [List.length_append, List.length_singleton]
  omega

/-- `get_nalu_info` on a descriptor of zeros: its entries. -/
def getNaluInfo (videoData : List UInt8) : Option (List NalDesc) := naluLoop videoData [] 0

/-! ## Frames -/

/-- The start code before a unit. -/
def startCode : List UInt8 := [0, 0, 0, 1]

/-- A NAL unit, less its start code: the byte with its type, which is not 0, and the bytes after it;
no start code stands in it. -/
structure NalUnit where
  head : UInt8
  tail : List UInt8
  typed : head.toNat &&& 0x1F ≠ 0
  plain : ¬ startCode <:+: head :: tail

namespace NalUnit

def body (u : NalUnit) : List UInt8 := u.head :: u.tail

def type (u : NalUnit) : ℕ := u.head.toNat &&& 0x1F

end NalUnit

/-- The units one after the other, each with its start code. -/
def unitBytes (units : List NalUnit) : List UInt8 := units.flatMap fun u => startCode ++ u.body

/-- A frame: one or more units, of a size that an `int` holds. -/
structure NalFrame where
  units : List NalUnit
  nonempty : units ≠ []
  short : (unitBytes units).length < 2147483648

/-- The frame's bytes. -/
def NalFrame.bytes (f : NalFrame) : List UInt8 := unitBytes f.units

theorem unitBytes_cons (u : NalUnit) (units : List NalUnit) :
    unitBytes (u :: units) = startCode ++ (u.body ++ unitBytes units) := by
  rw [unitBytes, List.flatMap_cons, List.append_assoc, unitBytes]

/-- What follows a unit in a frame: nothing, or another start code. -/
theorem unitBytes_cases (units : List NalUnit) :
    unitBytes units = [] ∨ ∃ rest, unitBytes units = startCode ++ rest := by
  cases units with
  | nil => exact .inl rfl
  | cons u units => exact .inr ⟨_, unitBytes_cons u units⟩

/-! ## The register -/

/-- The zero bytes at the end of the register, at most three. -/
def trailingZeros (code : ℕ) : ℕ :=
  if code % 256 ≠ 0 then 0
  else if code / 256 % 256 ≠ 0 then 1
  else if code / 65536 % 256 ≠ 0 then 2
  else 3

/-- The register is a start code when a 1 comes after three zeros. -/
theorem shiftIn_eq_one_iff (code : ℕ) (b : UInt8) :
    shiftIn code b = 0x00000001 ↔ b = 1 ∧ trailingZeros code = 3 := by
  have hb := b.toNat_lt
  have hone : b = 1 ↔ b.toNat = 1 := UInt8.toNat_inj.symm
  have hshift : shiftIn code b = code % 16777216 * 256 + b.toNat := by
    unfold shiftIn
    omega
  have hhigh : code % 16777216 = code % 65536 + 65536 * (code / 65536 % 256) :=
    Nat.mod_mul (a := 65536) (b := 256)
  have hlow : code % 65536 = code % 256 + 256 * (code / 256 % 256) :=
    Nat.mod_mul (a := 256) (b := 256)
  rw [hone, hshift, hhigh, hlow]
  unfold trailingZeros
  generalize code % 256 = x
  generalize code / 256 % 256 = y
  generalize code / 65536 % 256 = z
  constructor
  · intro h
    have hzeros : x = 0 ∧ y = 0 ∧ z = 0 ∧ b.toNat = 1 := by omega
    simp [hzeros]
  · rintro ⟨hb, hthree⟩
    split_ifs at hthree <;> omega

theorem trailingZeros_shiftIn (code : ℕ) (b : UInt8) :
    trailingZeros (shiftIn code b) = if b = 0 then min 3 (trailingZeros code + 1) else 0 := by
  have hb := b.toNat_lt
  have hzero : b = 0 ↔ b.toNat = 0 := UInt8.toNat_inj.symm
  rw [if_congr hzero rfl rfl]
  unfold shiftIn trailingZeros
  split_ifs <;> omega

/-! ## The scan -/

/-- The search with the number of zeros just read in place of the register. -/
def scanZeros : List UInt8 → ℕ → ℕ → ℕ
  | [], _, pos => pos
  | b :: rest, zeros, pos =>
    if b = 1 ∧ zeros = 3 then pos
    else scanZeros rest (if b = 0 then min 3 (zeros + 1) else 0) (pos + 1)

/-- Inside the buffer the search is the scan of the bytes left, and reads no other. -/
theorem scanStart_eq (buf : List UInt8) (code pos : ℕ) (hpos : pos ≤ buf.length) :
    scanStart buf buf.length code pos
      = some (scanZeros (buf.drop pos) (trailingZeros code) pos) := by
  induction hleft : buf.length - pos generalizing code pos with
  | zero =>
    obtain rfl : pos = buf.length := by omega
    rw [scanStart, if_neg (Nat.lt_irrefl _), List.drop_length, scanZeros]
  | succ left ih =>
    have hlt : pos < buf.length := by omega
    rw [scanStart, if_pos hlt, List.getElem?_eq_getElem hlt, List.drop_eq_getElem_cons hlt,
      scanZeros]
    dsimp only
    rw [if_congr (shiftIn_eq_one_iff code buf[pos]) rfl rfl]
    split
    next => rfl
    next => rw [ih _ _ (by omega) (by omega), trailingZeros_shiftIn]

/-- No start code is found in bytes that have none, also together with the zeros before them. -/
theorem scanZeros_plain (t rest : List UInt8) (zeros pos : ℕ) (hzeros : zeros ≤ 3)
    (hplain : ¬ startCode <:+: List.replicate zeros 0 ++ t) :
    ∃ zeros' ≤ 3, scanZeros (t ++ rest) zeros pos = scanZeros rest zeros' (pos + t.length) := by
  induction t generalizing zeros pos with
  | nil => exact ⟨zeros, hzeros, rfl⟩
  | cons b t ih =>
    have hnone : ¬ (b = 1 ∧ zeros = 3) := by
      rintro ⟨rfl, rfl⟩
      exact hplain ⟨[], t, rfl⟩
    rw [List.cons_append, scanZeros, if_neg hnone, List.length_cons]
    by_cases hb : b = 0
    · subst hb
      have hsuffix : List.replicate (min 3 (zeros + 1)) 0 ++ t
          <:+ List.replicate zeros (0 : UInt8) ++ 0 :: t := by
        refine ⟨List.replicate (zeros + 1 - min 3 (zeros + 1)) 0, ?_⟩
        rw [← List.append_assoc, List.replicate_append_replicate,
          Nat.sub_add_cancel (Nat.min_le_right 3 (zeros + 1)), List.replicate_succ',
          List.append_assoc]
        rfl
      obtain ⟨zeros', hle, heq⟩ := ih _ (pos + 1) (Nat.min_le_left 3 (zeros + 1))
        fun h => hplain (h.trans hsuffix.isInfix)
      exact ⟨zeros', hle, by rw [if_pos rfl, heq, Nat.add_assoc, Nat.add_comm 1]⟩
    · have hsuffix : t <:+ List.replicate zeros (0 : UInt8) ++ b :: t :=
        ⟨List.replicate zeros 0 ++ [b], by simp⟩
      obtain ⟨zeros', hle, heq⟩ := ih 0 (pos + 1) (Nat.zero_le 3)
        fun h => hplain (h.trans hsuffix.isInfix)
      exact ⟨zeros', hle, by rw [if_neg hb, heq, Nat.add_assoc, Nat.add_comm 1]⟩

/-- A start code is found at its last byte, whatever zeros stand before it. -/
theorem scanZeros_startCode (rest : List UInt8) {zeros pos : ℕ} :
    scanZeros (startCode ++ rest) zeros pos = pos + 3 := by
  have hthree : min 3 (min 3 (min 3 (zeros + 1) + 1) + 1) = 3 := by omega
  have hzero : ¬ (0 : UInt8) = 1 := by decide
  simp only [startCode, List.cons_append, scanZeros, hzero, false_and, if_false, if_true, hthree,
    and_self]

/-- The scan behind the first byte of a unit ends with the frame, or at the last byte of the next
start code. -/
theorem scanZeros_unit (u : NalUnit) (units : List NalUnit) :
    scanZeros (u.tail ++ unitBytes units) 0 5
      = if unitBytes units = [] then 5 + u.tail.length else 5 + u.tail.length + 3 := by
  have hplain : ¬ startCode <:+: List.replicate 0 0 ++ u.tail := fun h =>
    u.plain (h.trans (List.suffix_cons u.head u.tail).isInfix)
  obtain ⟨zeros, -, heq⟩ := scanZeros_plain u.tail (unitBytes units) 0 5 (by decide) hplain
  rw [heq]
  rcases unitBytes_cases units with hnil | ⟨rest, hrest⟩
  · rw [hnil, if_pos rfl, scanZeros]
  · rw [hrest, if_neg (by simp [startCode]), scanZeros_startCode]

/-- The first unit of a frame is found with its length and its type. -/
theorem getOneNalunit_unit (u : NalUnit) (units : List NalUnit) :
    getOneNalunit (unitBytes (u :: units)) (unitBytes (u :: units)).length
      = some (4 + u.body.length, u.type) := by
  have hcode : shiftIn (shiftIn (shiftIn (shiftIn 0xffffffff 0) 0) 0) 1 = 1 := by decide
  have hones : trailingZeros 0xffffffff = 0 := by decide
  have hbytes : unitBytes (u :: units)
      = 0 :: 0 :: 0 :: 1 :: u.head :: (u.tail ++ unitBytes units) := unitBytes_cons u units
  have hlen : (unitBytes (u :: units)).length = 5 + u.tail.length + (unitBytes units).length := by
    rw [hbytes]
    simp only [List.length_cons, List.length_append]
    omega
  have hscan := scanStart_eq (unitBytes (u :: units)) 0xffffffff 5 (by omega)
  have hdrop : (unitBytes (u :: units)).drop 5 = u.tail ++ unitBytes units := by
    rw [hbytes]
    rfl
  rw [hdrop, hones, scanZeros_unit] at hscan
  have hbody : u.body.length = u.tail.length + 1 := rfl
  have hreads : ∀ n, getOneNalunit (unitBytes (u :: units)) n
      = (scanStart (unitBytes (u :: units)) n 0xffffffff 5).bind fun pos =>
        if pos = n then some (n, u.type) else some (pos - 4 + 1, u.type) := by
    intro n
    rw [hbytes]
    simp only [getOneNalunit, List.getElem?_cons_zero, List.getElem?_cons_succ,
      Option.bind_eq_bind, Option.bind_some, hcode, ne_eq, not_true_eq_false, if_false]
    rfl
  have hsum : 5 + u.tail.length = 4 + (u.tail.length + 1) := by omega
  rw [hreads, hscan, Option.bind_some, hlen, hbody, hsum]
  rcases unitBytes_cases units with hnil | ⟨rest, hrest⟩
  · simp only [hnil, List.length_nil, Nat.add_zero, if_true]
  · have hmore : 4 ≤ (unitBytes units).length := by
      rw [hrest, List.length_append]
      exact Nat.le_add_right 4 _
    have hne : unitBytes units ≠ [] := by
      intro h
      rw [h] at hmore
      exact absurd hmore (by decide)
    have hlast : 4 + (u.tail.length + 1) + 3 - 4 + 1 = 4 + (u.tail.length + 1) := by omega
    rw [if_neg hne, if_neg (by omega), hlast]

/-! ## The whole frame -/

/-- The entries of units that start at `cursor`. -/
def nalEntries : ℕ → List NalUnit → List NalDesc
  | _, [] => []
  | cursor, u :: units =>
    ⟨u.type, cursor + 4, u.body.length⟩ :: nalEntries (cursor + (4 + u.body.length)) units

/-- What one pass of the loop does at the start of a unit. -/
theorem naluLoop_unit {frame : List UInt8} (hshort : frame.length < 2147483648) {u : NalUnit}
    {units : List NalUnit} {nal : List NalDesc} {cursor : ℕ} (hroom : nal.length < maxNalNum)
    (hrest : frame.drop cursor = unitBytes (u :: units)) :
    naluLoop frame nal cursor
      = if nal.length + 1 ≥ maxNalNum ∨ units = [] then
          some (nal ++ [⟨u.type, cursor + 4, u.body.length⟩])
        else naluLoop frame (nal ++ [⟨u.type, cursor + 4, u.body.length⟩])
          (cursor + (4 + u.body.length)) := by
  have hleft : frame.length - cursor = (unitBytes (u :: units)).length := by
    rw [← hrest, List.length_drop]
  have htype : u.type > 0 := Nat.pos_of_ne_zero u.typed
  have hlen : (unitBytes (u :: units)).length = 4 + u.body.length + (unitBytes units).length := by
    rw [unitBytes_cons, List.length_append, List.length_append, Nat.add_assoc]
    rfl
  have hsize : (4 + u.body.length + 4294967292) % 4294967296 = u.body.length := by omega
  have hbytes : units = [] ↔ unitBytes units = [] := by
    cases units with
    | nil => exact iff_of_true rfl rfl
    | cons v units => exact iff_of_false (by simp) (by simp [unitBytes_cons, startCode])
  rw [naluLoop, if_pos hroom, hrest, hleft, getOneNalunit_unit]
  dsimp only
  rw [if_pos ⟨by omega, htype⟩, hsize]
  split
  next hfull => rw [if_pos (.inl hfull)]
  next hspace =>
    split
    next hmore =>
      have hne : units ≠ [] := by
        intro h
        rw [hbytes.mp h, List.length_nil] at hlen
        omega
      rw [if_neg (not_or.mpr ⟨hspace, hne⟩)]
    next hdone =>
      have hnil : units = [] := by
        rw [hbytes, ← List.length_eq_zero_iff]
        omega
      rw [if_pos (.inr hnil)]

/-- The loop adds the entries of the units from its cursor on, as far as the descriptor has room. -/
theorem naluLoop_eq {frame : List UInt8} (hshort : frame.length < 2147483648) (u : NalUnit)
    (units : List NalUnit) {nal : List NalDesc} {cursor : ℕ} (hroom : nal.length < maxNalNum)
    (hrest : frame.drop cursor = unitBytes (u :: units)) :
    naluLoop frame nal cursor
      = some (nal ++ (nalEntries cursor (u :: units)).take (maxNalNum - nal.length)) := by
  induction units generalizing u nal cursor with
  | nil =>
    obtain ⟨room, hr⟩ := Nat.exists_eq_succ_of_ne_zero (Nat.sub_ne_zero_of_lt hroom)
    rw [naluLoop_unit hshort hroom hrest, if_pos (.inr rfl), hr, nalEntries, nalEntries,
      List.take_succ_cons, List.take_nil]
  | cons v units ih =>
    obtain ⟨room, hr⟩ := Nat.exists_eq_succ_of_ne_zero (Nat.sub_ne_zero_of_lt hroom)
    rw [naluLoop_unit hshort hroom hrest, hr, nalEntries, List.take_succ_cons]
    split
    next hstop =>
      have hfull : room = 0 := by
        rcases hstop with h | h
        · omega
        · cases h
      rw [hfull, List.take_zero]
    next hgo =>
      have hroom' :
          (nal ++ [(⟨u.type, cursor + 4, u.body.length⟩ : NalDesc)]).length < maxNalNum := by
        rw [List.length_append, List.length_singleton]
        by_contra h
        exact hgo (.inl (by omega))
      have hrest' : frame.drop (cursor + (4 + u.body.length)) = unitBytes (v :: units) := by
        rw [← List.drop_drop, hrest, unitBytes_cons, ← List.append_assoc]
        exact List.drop_left' List.length_append
      have hroom'' : maxNalNum
          - (nal ++ [(⟨u.type, cursor + 4, u.body.length⟩ : NalDesc)]).length = room := by
        rw [List.length_append, List.length_singleton]
        omega
      rw [ih v hroom' hrest', hroom'', List.append_assoc, List.singleton_append]

/-- The descriptor of a frame holds the entries of its first units. -/
theorem getNaluInfo_frame (f : NalFrame) :
    getNaluInfo f.bytes = some ((nalEntries 0 f.units).take maxNalNum) := by
  obtain ⟨units, hnonempty, hshort⟩ := f
  cases units with
  | nil => exact absurd rfl hnonempty
  | cons u units => exact naluLoop_eq hshort u units (by decide) rfl

/-! ## What the entries say -/

theorem length_nalEntries (cursor : ℕ) (units : List NalUnit) :
    (nalEntries cursor units).length = units.length := by
  induction units generalizing cursor with
  | nil => rfl
  | cons u units ih => rw [nalEntries, List.length_cons, ih, List.length_cons]

/-- The entry of a unit, behind the units before it. -/
theorem getElem?_nalEntries (cursor : ℕ) (before after : List NalUnit) (u : NalUnit) :
    (nalEntries cursor (before ++ u :: after))[before.length]?
      = some ⟨u.type, cursor + (unitBytes before).length + 4, u.body.length⟩ := by
  induction before generalizing cursor with
  | nil => rfl
  | cons v before ih =>
    rw [List.cons_append, nalEntries, List.length_cons, List.getElem?_cons_succ, ih, unitBytes_cons,
      List.length_append, List.length_append]
    have hcode : startCode.length = 4 := rfl
    congr 2
    omega

/-- The bytes of a unit stand behind the units before it and a start code. -/
theorem unitBytes_at (before after : List NalUnit) (u : NalUnit) :
    ((unitBytes (before ++ u :: after)).drop ((unitBytes before).length + 4)).take u.body.length
      = u.body := by
  have hbytes : unitBytes (before ++ u :: after)
      = (unitBytes before ++ startCode) ++ (u.body ++ unitBytes after) := by
    rw [unitBytes, List.flatMap_append, ← unitBytes, ← unitBytes, unitBytes_cons, List.append_assoc]
  rw [hbytes, List.drop_left' (by rw [List.length_append]; rfl), List.take_left]

/-- The sizes, and four bytes for each unit, are the whole. -/
theorem sum_nalEntries (cursor : ℕ) (units : List NalUnit) :
    ((nalEntries cursor units).map NalDesc.nalSize).sum + 4 * units.length
      = (unitBytes units).length := by
  induction units generalizing cursor with
  | nil => rfl
  | cons u units ih =>
    have hsum := ih (cursor + (4 + u.body.length))
    have hcode : startCode.length = 4 := rfl
    rw [nalEntries, List.map_cons, List.sum_cons, List.length_cons, unitBytes_cons,
      List.length_append, List.length_append]
    dsimp only
    omega

/-- The descriptor is that of the frame's first units: so many entries, each with the type of its
unit, and the offset and the size of its body; all of them, if they fit. -/
structure DescribesUnits (f : NalFrame) (nal : List NalDesc) : Prop where
  count : nal.length = min f.units.length maxNalNum
  entries : ∀ before u after, f.units = before ++ u :: after → before.length < maxNalNum →
    nal[before.length]? = some ⟨u.type, (unitBytes before).length + 4, u.body.length⟩
      ∧ (f.bytes.drop ((unitBytes before).length + 4)).take u.body.length = u.body
  total : f.units.length ≤ maxNalNum →
    (nal.map NalDesc.nalSize).sum + 4 * f.units.length = f.bytes.length

/-- For every frame `get_nalu_info` ends without a read outside it, and describes its first
units. -/
theorem nal_split_exact (f : NalFrame) :
    ∃ nal, getNaluInfo f.bytes = some nal ∧ DescribesUnits f nal := by
  refine ⟨_, getNaluInfo_frame f, ?_, ?_, ?_⟩
  · rw [List.length_take, length_nalEntries, Nat.min_comm]
  · intro before u after hunits hroom
    rw [List.getElem?_take_of_lt hroom, NalFrame.bytes, hunits, getElem?_nalEntries, Nat.zero_add]
    exact ⟨rfl, unitBytes_at before after u⟩
  · intro hfits
    rw [List.take_of_length_le (by rw [length_nalEntries]; exact hfits)]
    exact sum_nalEntries 0 f.units

/-- A parameter set, and a picture whose body ends in zeros. -/
example : getNaluInfo [0, 0, 0, 1, 0x67, 0x42, 0, 0, 0, 0, 0, 1, 0x65]
    = some [⟨7, 4, 4⟩, ⟨5, 12, 1⟩] := by
  have h := getNaluInfo_frame
    ⟨[⟨0x67, [0x42, 0, 0], by decide, by decide⟩, ⟨0x65, [], by decide, by decide⟩], by simp,
      by decide⟩
  exact h
