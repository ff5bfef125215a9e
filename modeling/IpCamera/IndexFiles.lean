/-
# The index files of the record types (`avi_search_api.c`)

Each record type has an index file on the card: a count and a record (`INDEX_NODE`)
for each recording.  A file is a list of bytes and may hold anything; `fread` gives
what is left of it, and sets the end-of-file mark when that is less than asked for.

`search_check_file_node` looks in the files of the other types for the times of a file
name.  The loop over the records uses the variable of the loop over the types, so the
number of records read decides which type comes next: `check_file_node_iff`.
-/
import IpCamera.Codec
import IpCamera.Orbit
import IpCamera.SdCard

/-! ## Files -/

/-- `INDEX_NODE`, with the bytes between its first two fields. -/
structure IndexRecord where
  chNum : UInt32
  padding : Vector UInt8 4
  start : UInt64
  stop : UInt64
  deriving DecidableEq

namespace IndexRecord

/-- `sizeof(INDEX_NODE)` -/
def size : ℕ := 24

/-- The record as it is stored. -/
def codec : Codec IndexRecord :=
  (Codec.uint32.prod <| (Codec.bytes 4).prod <| Codec.uint64.prod Codec.uint64).ofEquiv
    { toFun := fun r => (r.chNum, r.padding, r.start, r.stop)
      invFun := fun p => ⟨p.1, p.2.1, p.2.2.1, p.2.2.2⟩
      left_inv := fun _ => rfl
      right_inv := fun _ => rfl }

theorem codec_width : codec.width = size := rfl

/-- After `memset(&node, 0, sizeof(INDEX_NODE))`. -/
def zero : IndexRecord := ⟨0, Vector.replicate 4 0, 0, 0⟩

end IndexRecord

/-- A file open for reading: what is left, and the end-of-file mark. -/
structure InStream where
  rest : List UInt8
  eof : Bool

namespace InStream

/-- `fread` of `n` bytes. -/
def fread (n : ℕ) (fp : InStream) : List UInt8 × InStream :=
  (fp.rest.take n, ⟨fp.rest.drop n, fp.eof || decide (fp.rest.length < n)⟩)

end InStream

/-- The files of the card by name; `none` where there is none. -/
abbrev CardFiles := String → Option (List UInt8)

/-- `SDK_RECORD_TYPE_MANU`, `_SCHED`, `_MOTION` and `_ALARM` -/
def sdkRecordTypeManu : ℤ := 1
def sdkRecordTypeSched : ℤ := 2
def sdkRecordTypeMotion : ℤ := 3
def sdkRecordTypeAlarm : ℤ := 4

/-- The name of a type's index file; the empty string for any other type. -/
def indexFileName (type : ℤ) : String :=
  if type = sdkRecordTypeSched then grdSdMountPoint ++ "/.sched"
  else if type = sdkRecordTypeMotion then grdSdMountPoint ++ "/.motion"
  else if type = sdkRecordTypeAlarm then grdSdMountPoint ++ "/.alarm"
  else if type = sdkRecordTypeManu then grdSdMountPoint ++ "/.manu"
  else ""

/-- `fopen(name, "rb")`; there is no file of the empty name. -/
def openRead (card : CardFiles) (name : String) : Option InStream :=
  if name = "" then none else (card name).map fun bytes => ⟨bytes, false⟩

/-! ## `search_check_file_node` -/

/-- The loop over the records, `left` still to look at: `none` at one with these times, otherwise
where `i` stands when the loop is left. -/
def checkRecords (begin stop : ℕ) : (left i : ℕ) → InStream → Option ℕ
  | 0, i, _ => some i
  | left + 1, i, fp =>
      if fp.eof then some i
      else
        let (got, fp) := fp.fread IndexRecord.size
        let node := IndexRecord.codec.readInto .zero got
        if begin = node.start.toNat ∧ stop = node.stop.toNat then none
        else checkRecords begin stop left (i + 1) fp

/-- The loop over the types.  The loop over the records leaves its own count in `i`; `count` keeps
its value where nothing is read into it. -/
def checkTypes (card : CardFiles) (type : ℤ) (begin stop : ℕ) :
    (fuel : ℕ) → (i : ℕ) → (count : UInt32) → Option ℤ
  | 0, _, _ => none
  | fuel + 1, i, count =>
      if 4 < i then some 1
      else if type = i then checkTypes card type begin stop fuel (i + 1) count
      else
        match openRead card (indexFileName i) with
        | none => checkTypes card type begin stop fuel (i + 1) count
        | some fp =>
            let (got, fp) := fp.fread 4
            let count := Codec.uint32.readInto count got
            match checkRecords begin stop (toInt32 count.toNat).toNat 0 fp with
            | none => some 0
            | some i => checkTypes card type begin stop fuel (i + 1) count

/-- A file name, with what `atoll` finds for the two times when there is nothing to copy. -/
structure NamedTimes where
  file : List Char
  junkStart : ℕ
  junkStop : ℕ

namespace NamedTimes

def begin (n : NamedTimes) : ℕ := (aviGetStartTime n.file).getD n.junkStart
def stop (n : NamedTimes) : ℕ := (aviGetStopTime n.file).getD n.junkStop

end NamedTimes

/-- `search_check_file_node`, for as many rounds of the loop over the types as there is fuel. -/
def searchCheckFileNode (fuel : ℕ) (card : CardFiles) (file : NamedTimes) (type : ℤ) : Option ℤ :=
  checkTypes card type file.begin file.stop fuel 1 0

/-! ## What is read of a file -/

namespace IndexRecord

/-- The count of an index file, an `int`. -/
def countOf (bytes : List UInt8) : ℤ := toInt32 (wordAt bytes 0)

/-- The record at an index; what the file has no bytes for is zero. -/
def nth (bytes : List UInt8) (k : ℕ) : IndexRecord :=
  codec.readInto .zero ((bytes.drop (4 + size * k)).take size)

/-- The records that begin before the end of the file. -/
def begun (bytes : List UInt8) : ℕ := if bytes.length < 4 then 0 else (bytes.length - 4) / size + 1

/-- The records the loop reads when none matches. -/
def readOf (bytes : List UInt8) : ℕ := min (countOf bytes).toNat (begun bytes)

/-- A record with these times. -/
def HasTimes (begin stop : ℕ) (r : IndexRecord) : Prop :=
  begin = r.start.toNat ∧ stop = r.stop.toNat

instance (begin stop : ℕ) (r : IndexRecord) : Decidable (r.HasTimes begin stop) :=
  inferInstanceAs (Decidable (_ ∧ _))

theorem lt_begun_iff (bytes : List UInt8) (i : ℕ) :
    i < begun bytes ↔ 4 + size * i ≤ bytes.length := by
  unfold begun size
  split <;> omega

end IndexRecord

open IndexRecord

/-- A count that is there is read whole, whatever stood in the variable. -/
theorem uint32_readInto_take (count : UInt32) {bytes : List UInt8} (hlen : 4 ≤ bytes.length) :
    (Codec.uint32.readInto count (bytes.take 4)).toNat = wordAt bytes 0 := by
  have htake : (bytes.take 4).length = 4 := by
    rw [List.length_take]
    omega
  have hbytes : (bytes.take 4).take Codec.uint32.width
      ++ (Codec.uint32.encode count).drop (bytes.take 4).length = bytes.take 4 := by
    have hwidth : (Codec.uint32.encode count).length = 4 := Codec.uint32.length_encode count
    rw [List.take_of_length_le (by rw [htake]; rfl), List.drop_eq_nil_of_le (by omega),
      List.append_nil]
  have hword : wordAt (bytes.take 4) 0 = wordAt bytes 0 := by
    have h := wordAt_append_left (p := bytes.take 4) (bytes.drop 4) (i := 0) (by omega)
    rw [List.take_append_drop] at h
    exact h.symm
  rw [Codec.readInto, hbytes]
  show (UInt32.ofNat (wordAt (bytes.take 4) 0)).toNat = _
  rw [hword]
  exact UInt32.toNat_ofNat_of_lt' (load32_lt _ _)

/-- The loop reads the records that are counted and begin in the file, up to one that matches. -/
theorem checkRecords_eq (begin stop : ℕ) (bytes : List UInt8) (left : ℕ) :
    ∀ {i : ℕ} {fp : InStream}, fp.rest = bytes.drop (4 + size * i) →
      fp.eof = decide (bytes.length < 4 + size * i) → i ≤ begun bytes →
      checkRecords begin stop left i fp =
        if ∃ k < min (i + left) (begun bytes), i ≤ k ∧ (nth bytes k).HasTimes begin stop then none
        else some (min (i + left) (begun bytes)) := by
  induction left with
  | zero =>
    intro i fp _ _ hle
    rw [checkRecords, if_neg (by rintro ⟨k, hk, hik, -⟩; omega), Nat.add_zero, Nat.min_eq_left hle]
  | succ left ih =>
    intro i fp hrest heof hle
    have hbegun := lt_begun_iff bytes i
    rw [checkRecords, heof]
    by_cases hend : bytes.length < 4 + size * i
    · have hi : begun bytes = i := by omega
      rw [if_pos (by simpa using hend), if_neg (by rintro ⟨k, hk, hik, -⟩; omega)]
      congr 1
      omega
    · rw [if_neg (by simpa using hend)]
      have hnode : IndexRecord.codec.readInto .zero (fp.fread size).1 = nth bytes i := by
        rw [InStream.fread, hrest]
        rfl
      have hrest' : (fp.fread size).2.rest = bytes.drop (4 + size * (i + 1)) := by
        show fp.rest.drop size = _
        rw [hrest, List.drop_drop]
        congr 1
      have heof' : (fp.fread size).2.eof = decide (bytes.length < 4 + size * (i + 1)) := by
        show (fp.eof || decide (fp.rest.length < size)) = _
        rw [heof, hrest, List.length_drop]
        simp only [hend, decide_false, Bool.false_or, decide_eq_decide]
        unfold size
        omega
      show (if (IndexRecord.codec.readInto .zero (fp.fread size).1).HasTimes begin stop then none
        else checkRecords begin stop left (i + 1) (fp.fread size).2) = _
      rw [hnode, ih hrest' heof' (by omega), show i + 1 + left = i + (left + 1) by omega]
      by_cases hmatch : (nth bytes i).HasTimes begin stop
      · rw [if_pos hmatch, if_pos ⟨i, by omega, le_refl i, hmatch⟩]
      · rw [if_neg hmatch]
        have hiff : (∃ k < min (i + (left + 1)) (begun bytes), i + 1 ≤ k
              ∧ (nth bytes k).HasTimes begin stop)
            ↔ ∃ k < min (i + (left + 1)) (begun bytes), i ≤ k
              ∧ (nth bytes k).HasTimes begin stop := by
          constructor
          · rintro ⟨k, hk, hik, h⟩
            exact ⟨k, hk, by omega, h⟩
          · rintro ⟨k, hk, hik, h⟩
            refine ⟨k, hk, ?_, h⟩
            rcases Nat.eq_or_lt_of_le hik with rfl | hlt
            · exact absurd h hmatch
            · exact hlt
        simp only [hiff]

/-- What the loop over the records makes of a whole file: the count is read first. -/
theorem checkFile_eq (begin stop : ℕ) (bytes : List UInt8) (count : UInt32) :
    let (got, fp) := InStream.fread 4 ⟨bytes, false⟩
    checkRecords begin stop (toInt32 (Codec.uint32.readInto count got).toNat).toNat 0 fp =
      if ∃ k < readOf bytes, (nth bytes k).HasTimes begin stop then none
      else some (readOf bytes) := by
  show checkRecords begin stop
    (toInt32 (Codec.uint32.readInto count (bytes.take 4)).toNat).toNat 0
    ⟨bytes.drop 4, false || decide (bytes.length < 4)⟩ = _
  rw [checkRecords_eq begin stop bytes _ (i := 0) rfl rfl (Nat.zero_le _), Nat.zero_add]
  have hread : min (toInt32 (Codec.uint32.readInto count (bytes.take 4)).toNat).toNat
      (begun bytes) = readOf bytes := by
    by_cases hlen : bytes.length < 4
    · rw [readOf, begun, if_pos hlen, Nat.min_zero, Nat.min_zero]
    · rw [uint32_readInto_take count (by omega), readOf, countOf]
  rw [hread]
  simp only [Nat.zero_le, true_and]

/-! ## The way through the types -/

section

variable (card : CardFiles) (type : ℤ) (begin stop : ℕ)

/-- The index file of a type that is looked at. -/
def otherFile (i : ℕ) : Option (List UInt8) :=
  if type = i ∨ indexFileName i = "" then none else card (indexFileName i)

/-- The result at a type, or `none` where the loop goes on. -/
def resultAt (i : ℕ) : Option ℤ :=
  if 4 < i then some 1
  else (otherFile card type i).bind fun bytes =>
    if ∃ k < readOf bytes, (nth bytes k).HasTimes begin stop then some 0 else none

/-- The type after one without a result: behind a file stands the number of records read. -/
def nextType (i : ℕ) : ℕ := ((otherFile card type i).elim i readOf) + 1

/-- The type looked at in round `n`. -/
def typeAt (n : ℕ) : ℕ := (nextType card type)^[n] 1

end

variable {card : CardFiles} {type : ℤ} {begin stop : ℕ}

theorem checkTypes_eq_loop (fuel : ℕ) (i : ℕ) (count : UInt32) :
    checkTypes card type begin stop fuel i count
      = Orbit.loop (resultAt card type begin stop) (nextType card type) fuel i := by
  induction fuel generalizing i count with
  | zero => rfl
  | succ fuel ih =>
    rw [checkTypes, Orbit.loop]
    by_cases hend : 4 < i
    · rw [if_pos hend, resultAt, if_pos hend]
    rw [if_neg hend]
    by_cases htype : type = i
    · have hfile : otherFile card type i = none := if_pos (Or.inl htype)
      rw [if_pos htype, ih, resultAt, if_neg hend, nextType, hfile]
      rfl
    rw [if_neg htype]
    by_cases hname : indexFileName i = ""
    · have hfile : otherFile card type i = none := if_pos (Or.inr hname)
      rw [openRead, if_pos hname, resultAt, if_neg hend, nextType, hfile]
      exact ih (i + 1) count
    have hfile : otherFile card type i = card (indexFileName i) :=
      if_neg (not_or.mpr ⟨htype, hname⟩)
    rw [openRead, if_neg hname, resultAt, if_neg hend, nextType, hfile]
    rcases card (indexFileName i) with _ | bytes
    · exact ih (i + 1) count
    · have hcheck := checkFile_eq begin stop bytes count
      dsimp only at hcheck
      dsimp only [Option.map_some, Option.bind_some, Option.elim_some]
      rw [hcheck]
      by_cases hmatch : ∃ k < readOf bytes, (nth bytes k).HasTimes begin stop
      · rw [if_pos hmatch, if_pos hmatch]
      · rw [if_neg hmatch, if_neg hmatch]
        exact ih _ _

section

variable (card : CardFiles) (type : ℤ) (begin stop : ℕ)

/-- A record with these times is among those read of the type's file. -/
def ReadsTimes (i : ℕ) : Prop :=
  ∃ bytes, otherFile card type i = some bytes ∧ ∃ k < readOf bytes, (nth bytes k).HasTimes begin stop

/-- The index file of another type holds a record with these times: one that is counted, and all of
whose bytes are there. -/
def OtherHolds : Prop :=
  ∃ i, 1 ≤ i ∧ i ≤ 4 ∧ ∃ bytes, otherFile card type i = some bytes
    ∧ ∃ k : ℕ, (k : ℤ) < countOf bytes ∧ 4 + size * (k + 1) ≤ bytes.length
      ∧ (nth bytes k).HasTimes begin stop

end

theorem resultAt_of_gt {i : ℕ} (hi : 4 < i) : resultAt card type begin stop i = some 1 :=
  if_pos hi

theorem resultAt_of_reads {i : ℕ} (hi : i ≤ 4) (h : ReadsTimes card type begin stop i) :
    resultAt card type begin stop i = some 0 := by
  obtain ⟨bytes, hfile, hmatch⟩ := h
  rw [resultAt, if_neg (Nat.not_lt.mpr hi), hfile, Option.bind_some, if_pos hmatch]

theorem resultAt_of_not_reads {i : ℕ} (hi : i ≤ 4) (h : ¬ReadsTimes card type begin stop i) :
    resultAt card type begin stop i = none := by
  rw [resultAt, if_neg (Nat.not_lt.mpr hi)]
  rcases hfile : otherFile card type i with _ | bytes
  · rfl
  · rw [Option.bind_some, if_neg fun hmatch => h ⟨bytes, hfile, hmatch⟩]

theorem resultAt_eq_none {i : ℕ} :
    resultAt card type begin stop i = none ↔ i ≤ 4 ∧ ¬ReadsTimes card type begin stop i := by
  constructor
  · intro hnone
    have hi : i ≤ 4 := by
      by_contra hgt
      rw [resultAt_of_gt (Nat.not_le.mp hgt)] at hnone
      cases hnone
    refine ⟨hi, fun h => ?_⟩
    rw [resultAt_of_reads hi h] at hnone
    cases hnone
  · rintro ⟨hi, h⟩
    exact resultAt_of_not_reads hi h

theorem resultAt_eq_some {i : ℕ} {r : ℤ} :
    resultAt card type begin stop i = some r
      ↔ r = 0 ∧ i ≤ 4 ∧ ReadsTimes card type begin stop i ∨ r = 1 ∧ 4 < i := by
  rcases Nat.lt_or_ge 4 i with hi | hi
  · rw [resultAt_of_gt hi, Option.some_inj]
    exact ⟨fun h => Or.inr ⟨h.symm, hi⟩, fun h => by rcases h with ⟨-, h, -⟩ | ⟨h, -⟩ <;> omega⟩
  by_cases h : ReadsTimes card type begin stop i
  · rw [resultAt_of_reads hi h, Option.some_inj]
    exact ⟨fun h' => Or.inl ⟨h'.symm, hi, h⟩, fun h' => by rcases h' with ⟨h', -⟩ | ⟨-, h'⟩ <;> omega⟩
  · rw [resultAt_of_not_reads hi h]
    constructor
    · intro h'
      cases h'
    · rintro (⟨-, -, h'⟩ | ⟨-, h'⟩)
      · exact absurd h' h
      · omega

theorem one_le_typeAt (n : ℕ) : 1 ≤ typeAt card type n := by
  cases n with
  | zero => exact le_refl 1
  | succ n =>
    rw [typeAt, Function.iterate_succ_apply', nextType]
    omega

/-- When the check ends, and with what: after at most four types that have no such record, at one
that has, or behind the last type. -/
theorem searchCheckFileNode_iff (file : NamedTimes) (r : ℤ) :
    (∃ fuel, searchCheckFileNode fuel card file type = some r) ↔
      ∃ n ≤ 4, (∀ m < n, typeAt card type m ≤ 4
          ∧ ¬ReadsTimes card type file.begin file.stop (typeAt card type m))
        ∧ (r = 0 ∧ typeAt card type n ≤ 4
            ∧ ReadsTimes card type file.begin file.stop (typeAt card type n)
          ∨ r = 1 ∧ 4 < typeAt card type n) := by
  simp only [searchCheckFileNode, checkTypes_eq_loop]
  rw [Orbit.exists_loop_iff_le (Finset.Icc 1 4) fun m hm =>
    Finset.mem_Icc.mpr ⟨one_le_typeAt m, (resultAt_eq_none.mp hm).1⟩]
  show (∃ n ≤ 4, Orbit.StopsAfter _ _ 1 n r) ↔ _
  simp only [Orbit.StopsAfter, resultAt_eq_some, resultAt_eq_none]
  constructor
  · rintro ⟨n, hn, hstop, hbefore⟩
    exact ⟨n, hn, hbefore, hstop⟩
  · rintro ⟨n, hn, hbefore, hstop⟩
    exact ⟨n, hn, hstop, hbefore⟩

/-- The check ends with 0 if another type's file holds the times, and with 1 otherwise, exactly if
it comes within four types to one that has them among what is read, or behind the last type,
respectively.  From a file the check goes on at the type behind the number of its records. -/
theorem check_file_node_iff (card : CardFiles) (type : ℤ) (file : NamedTimes) :
    (∃ fuel r, searchCheckFileNode fuel card file type = some r
        ∧ (r = 0 ↔ OtherHolds card type file.begin file.stop)
        ∧ (r = 1 ↔ ¬OtherHolds card type file.begin file.stop)) ↔
      ∃ n ≤ 4, (∀ m < n, typeAt card type m ≤ 4
          ∧ ¬ReadsTimes card type file.begin file.stop (typeAt card type m))
        ∧ (OtherHolds card type file.begin file.stop ∧ typeAt card type n ≤ 4
            ∧ ReadsTimes card type file.begin file.stop (typeAt card type n)
          ∨ ¬OtherHolds card type file.begin file.stop ∧ 4 < typeAt card type n) := by
  constructor
  · rintro ⟨fuel, r, hrun, hzero, hone⟩
    obtain ⟨n, hn, hbefore, hend⟩ := (searchCheckFileNode_iff file r).mp ⟨fuel, hrun⟩
    refine ⟨n, hn, hbefore, ?_⟩
    rcases hend with ⟨rfl, hlast⟩ | ⟨rfl, hlast⟩
    · exact Or.inl ⟨hzero.mp rfl, hlast⟩
    · exact Or.inr ⟨hone.mp rfl, hlast⟩
  · rintro ⟨n, hn, hbefore, ⟨hheld, hlast⟩ | ⟨hheld, hlast⟩⟩
    · obtain ⟨fuel, hrun⟩ := (searchCheckFileNode_iff file 0).mpr
        ⟨n, hn, hbefore, Or.inl ⟨rfl, hlast⟩⟩
      exact ⟨fuel, 0, hrun, ⟨fun _ => hheld, fun _ => rfl⟩,
        ⟨fun h => absurd h zero_ne_one, fun h => absurd hheld h⟩⟩
    · obtain ⟨fuel, hrun⟩ := (searchCheckFileNode_iff file 1).mpr
        ⟨n, hn, hbefore, Or.inr ⟨rfl, hlast⟩⟩
      exact ⟨fuel, 1, hrun, ⟨fun h => absurd h one_ne_zero, fun h => absurd h hheld⟩,
        ⟨fun _ => hheld, fun _ => rfl⟩⟩

/-- With an empty index of the manual recordings the check for a scheduled one never ends. -/
theorem check_file_node_hangs :
    ∃ (card : CardFiles) (type : ℤ) (file : NamedTimes),
      ¬∃ fuel r, searchCheckFileNode fuel card file type = some r
        ∧ (r = 0 ↔ OtherHolds card type file.begin file.stop)
        ∧ (r = 1 ↔ ¬OtherHolds card type file.begin file.stop) := by
  refine ⟨fun name => if name = indexFileName 1 then some [0, 0, 0, 0] else none, 2,
    ⟨"ch0_20120101010101_20120101010201.avi".toList, 0, 0⟩, ?_⟩
  rintro ⟨fuel, r, hrun, -⟩
  have hround : ∀ fuel count, checkTypes
      (fun name => if name = indexFileName 1 then some [0, 0, 0, 0] else none) 2
      (NamedTimes.begin ⟨"ch0_20120101010101_20120101010201.avi".toList, 0, 0⟩)
      (NamedTimes.stop ⟨"ch0_20120101010101_20120101010201.avi".toList, 0, 0⟩) fuel 1 count
      = none := by
    intro fuel
    induction fuel with
    | zero => exact fun _ => rfl
    | succ fuel ih => exact fun count => ih _
  rw [searchCheckFileNode, hround] at hrun
  cases hrun
