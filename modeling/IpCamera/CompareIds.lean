/-
# Comparing two reader IDs (`SHM_CompareWithID`)

The call returns the unsigned difference of the two sequence numbers as a signed integer, and its
error codes are numbers that a difference can be.

`compares_iff` says for which pairs of IDs of a reachable process the answer can be relied on: one
of them is missing, or the difference is that of signed 32-bit numbers and not one of the codes.
All numbers of the table are 32-bit numbers (`Reachable.inRange`), because every position a call
saves comes from the words of the segment or from the entry before.
-/
import IpCamera.ReaderTable
import IpCamera.RingEnd

/-- `SHM_ENUM_ID1_NOT_EXIT`, `SHM_ENUM_ID2_NOT_EXIT`, `SHM_ENUM_ID1_ID2_NOT_EXIT` -/
def shmEnumId1NotExit : ℤ := 10000000
def shmEnumId2NotExit : ℤ := 10000001
def shmEnumId1Id2NotExit : ℤ := 10000002

/-- `SHM_CompareWithID`; the difference of two `uint` is returned as an `int`. -/
def ShmTables.compareWithID (T : ShmTables) (iID1 iID2 : ℤ) : ℤ :=
  match T.getReadObject iID1, T.getReadObject iID2 with
  | some (e₁, _), some (e₂, _) => toInt32 (u32 (e₁.info.uiSeq + 4294967296 - e₂.info.uiSeq))
  | none, none => shmEnumId1Id2NotExit
  | none, some _ => shmEnumId1NotExit
  | some _, none => shmEnumId2NotExit

namespace ShmTables

/-- The answer is a code exactly if the ID it names is missing, and with both there it has the sign
of the difference. -/
structure Compares (T : ShmTables) (iID1 iID2 : ℤ) : Prop where
  id1 : T.compareWithID iID1 iID2 = shmEnumId1NotExit
    ↔ T.mapShmInfo iID1 = none ∧ T.mapShmInfo iID2 ≠ none
  id2 : T.compareWithID iID1 iID2 = shmEnumId2NotExit
    ↔ T.mapShmInfo iID1 ≠ none ∧ T.mapShmInfo iID2 = none
  both : T.compareWithID iID1 iID2 = shmEnumId1Id2NotExit
    ↔ T.mapShmInfo iID1 = none ∧ T.mapShmInfo iID2 = none
  order : ∀ e₁ e₂, T.mapShmInfo iID1 = some e₁ → T.mapShmInfo iID2 = some e₂ →
    (T.compareWithID iID1 iID2).sign = ((e₁.info.uiSeq : ℤ) - e₂.info.uiSeq).sign

/-- The difference of two numbers, if both IDs are there, fits the answer and is none of the codes. -/
def DifferenceFits (T : ShmTables) (iID1 iID2 : ℤ) : Prop :=
  ∀ e₁ e₂, T.mapShmInfo iID1 = some e₁ → T.mapShmInfo iID2 = some e₂ →
    let d : ℤ := e₁.info.uiSeq - e₂.info.uiSeq
    (-2147483648 : ℤ) ≤ d ∧ d < 2147483648
      ∧ d ≠ shmEnumId1NotExit ∧ d ≠ shmEnumId2NotExit ∧ d ≠ shmEnumId1Id2NotExit

/-- All numbers of the table are 32-bit numbers. -/
def InRange (T : ShmTables) : Prop :=
  ∀ iID e, T.mapShmInfo iID = some e → e.info.uiSeq < 4294967296

end ShmTables

/-! ## The difference of two unsigned numbers -/

section Difference

variable {a b : ℕ}

theorem toInt32_sub (ha : a < 4294967296) (hb : b < 4294967296) :
    toInt32 (u32 (a + 4294967296 - b))
      = if (a : ℤ) - b < -2147483648 then (a : ℤ) - b + 4294967296
        else if (a : ℤ) - b < 2147483648 then (a : ℤ) - b else (a : ℤ) - b - 4294967296 := by
  unfold toInt32 u32
  split_ifs <;> omega

/-- The sign is right exactly if the difference is a signed 32-bit number. -/
theorem sign_toInt32_sub (ha : a < 4294967296) (hb : b < 4294967296) :
    (toInt32 (u32 (a + 4294967296 - b))).sign = ((a : ℤ) - b).sign
      ↔ -2147483648 ≤ (a : ℤ) - b ∧ (a : ℤ) - b < 2147483648 := by
  rw [toInt32_sub ha hb]
  constructor
  · intro h
    by_contra hout
    split_ifs at h with h₁ h₂
    · rw [Int.sign_eq_one_of_pos (by omega), Int.sign_eq_neg_one_of_neg (by omega)] at h
      exact absurd h (by decide)
    · omega
    · rw [Int.sign_eq_neg_one_of_neg (by omega), Int.sign_eq_one_of_pos (by omega)] at h
      exact absurd h (by decide)
  · rintro ⟨h₁, h₂⟩
    rw [if_neg (not_lt.mpr h₁), if_pos h₂]

end Difference

/-! ## Positions with 32-bit numbers -/

section Positions

variable (m : Mem) {info : ShmInfo}

theorem nextInfo_lt (pos : ℕ) : (ShmRead.readFrame.nextInfo m pos).uiSeq < 4294967296 := by
  have hmod := Nat.mod_lt (frameSequence m pos + 1) (show 0 < 4294967296 by decide)
  dsimp only [ShmRead.readFrame.nextInfo]
  split_ifs
  · decide
  · exact hmod

theorem readFrame_lt (want : Bool) (bufLen : ℤ) (h : info.uiSeq < 4294967296) :
    (ShmRead.readFrame m want bufLen info).2.2.uiSeq < 4294967296 := by
  unfold ShmRead.readFrame
  dsimp only
  split_ifs
  all_goals first
    | exact h
    | exact nextInfo_lt m _
    | exact (by decide : ShmInfo.initial.uiSeq < 4294967296)

theorem moveForward_lt (h : info.uiSeq < 4294967296) :
    (ShmRead.moveForward m info).2.uiSeq < 4294967296 :=
  readFrame_lt m false (headMaxFrameSize m) h

theorem moveBack_lt (h : info.uiSeq < 4294967296) :
    (ShmRead.moveBack m info).2.uiSeq < 4294967296 := by
  unfold ShmRead.moveBack
  dsimp only
  split_ifs
  all_goals first
    | exact h
    | exact load32_lt _ _
    | exact (by decide : ShmInfo.initial.uiSeq < 4294967296)

theorem move_lt (isBack : Bool) (h : info.uiSeq < 4294967296) :
    (if isBack then ShmRead.moveBack m info else ShmRead.moveForward m info).2.uiSeq
      < 4294967296 := by
  cases isBack with
  | false => exact moveForward_lt m h
  | true => exact moveBack_lt m h

theorem backNLoop_lt (isBack : Bool) (iSteps : ℕ) (h : info.uiSeq < 4294967296) :
    (backNLoop m isBack iSteps info).2.uiSeq < 4294967296 := by
  induction iSteps generalizing info with
  | zero => exact h
  | succ iSteps ih =>
    have hmove := move_lt m isBack h
    rw [backNLoop]
    generalize (if isBack then ShmRead.moveBack m info else ShmRead.moveForward m info) = moved
      at hmove
    dsimp only
    split_ifs
    · exact hmove
    · exact ih hmove

theorem backNKeyLoop_lt (isBack : Bool) {fuel iSteps back_cnt : ℕ} {extra : ℕ → UInt8}
    {result : ℕ × ShmInfo} (h : info.uiSeq < 4294967296)
    (hloop : backNKeyLoop m isBack fuel iSteps back_cnt extra info = some result) :
    result.2.uiSeq < 4294967296 := by
  induction fuel generalizing iSteps back_cnt extra info with
  | zero => cases hloop
  | succ fuel ih =>
    have hmove := move_lt m isBack h
    rw [backNKeyLoop] at hloop
    generalize (if isBack then ShmRead.moveBack m info else ShmRead.moveForward m info) = moved
      at hmove hloop
    dsimp only at hloop
    generalize (if extrasKeyFrameFlag (ShmRead.getExtras m extra info).2 = shmVideoFrameTypeKey
      ∧ back_cnt > 0 then iSteps - 1 else iSteps) = left at hloop
    split_ifs at hloop
    · obtain rfl := Option.some.inj hloop
      exact h
    · obtain rfl := Option.some.inj hloop
      exact h
    · obtain rfl := Option.some.inj hloop
      exact hmove
    · exact ih hmove hloop

theorem shmBackNFrameNolock_lt {fuel : ℕ} {junk : ℕ → UInt8} {iSteps : ℤ} {iKeyFlag isBack : Bool}
    {result : ℤ × ShmInfo} (h : info.uiSeq < 4294967296)
    (hcall : shmBackNFrameNolock m fuel junk iSteps iKeyFlag isBack info = some result) :
    result.2.uiSeq < 4294967296 := by
  unfold shmBackNFrameNolock at hcall
  split at hcall
  · obtain ⟨⟨left, info'⟩, hmoved, rfl⟩ := Option.map_eq_some_iff.mp hcall
    have hinfo : info'.uiSeq < 4294967296 := by
      split at hmoved
      · exact backNKeyLoop_lt m isBack h hmoved
      · have hloop := backNLoop_lt m isBack iSteps.toNat h
        rw [Option.some.inj hmoved] at hloop
        exact hloop
    dsimp only
    split_ifs
    · exact hinfo
    · exact h
  · split at hcall
    · obtain rfl := Option.some.inj hcall
      exact h
    · obtain rfl := Option.some.inj hcall
      exact h

theorem shmRefreshNolock_lt {fuel : ℕ} {junk : ℕ → UInt8} {iKeyFlag : Bool} {result : ℤ × ShmInfo}
    (hcall : shmRefreshNolock m fuel junk iKeyFlag = some result) :
    result.2.uiSeq < 4294967296 := by
  have hrefresh : (ShmRead.refresh m).2.uiSeq < 4294967296 := load32_lt _ _
  unfold shmRefreshNolock at hcall
  dsimp only at hcall
  split_ifs at hcall
  · exact shmBackNFrameNolock_lt m hrefresh hcall
  · obtain rfl := Option.some.inj hcall
    exact hrefresh
  · obtain rfl := Option.some.inj hcall
    exact hrefresh

theorem shmReadFrameWithExtras_lt {fuel : ℕ} {junk : ℕ → UInt8} {enumMType : ShmMediaType}
    {bufLen : ℤ} {result : ℤ × Option FrameData × ShmInfo} (h : info.uiSeq < 4294967296)
    (hcall : shmReadFrameWithExtras m fuel junk enumMType bufLen info = some result) :
    result.2.2.uiSeq < 4294967296 := by
  unfold shmReadFrameWithExtras at hcall
  split at hcall
  · obtain ⟨⟨rtn, info'⟩, hrefresh, rfl⟩ := Option.map_eq_some_iff.mp hcall
    have hinfo : info'.uiSeq < 4294967296 := shmRefreshNolock_lt m hrefresh
    dsimp only
    split_ifs
    · exact hinfo
    · exact readFrame_lt m true bufLen hinfo
  · obtain rfl := Option.some.inj hcall
    exact readFrame_lt m true bufLen h

end Positions

namespace ShmTables

variable {T T' : ShmTables} {t : ShmMediaType} {c : ShmCall} {answer : ShmAnswer}

theorem InRange.update (h : T.InRange) {iID : ℤ} {e : ShmInfoStruct}
    (he : e.info.uiSeq < 4294967296)
    (hmap : T'.mapShmInfo = Function.update T.mapShmInfo iID (some e)) : T'.InRange := by
  intro i e' hi
  rw [hmap] at hi
  by_cases heq : i = iID
  · rw [heq, Function.update_self] at hi
    obtain rfl := Option.some.inj hi
    exact he
  · rw [Function.update_of_ne heq] at hi
    exact h i e' hi

theorem InRange.insertFree (h : T.InRange) {e : ShmInfoStruct} (he : e.info.uiSeq < 4294967296) :
    (T.insertFree e).1.InRange := by
  unfold ShmTables.insertFree
  split
  · exact h
  · exact h.update he rfl

theorem InRange.initID (h : T.InRange) (p : UInt8) (attached : Bool) :
    (T.initID p attached).1.InRange := by
  have hinit : (⟨p, ShmInfo.initial⟩ : ShmInfoStruct).info.uiSeq < 4294967296 :=
    (by decide : ShmInfo.initial.uiSeq < 4294967296)
  unfold ShmTables.initID
  split
  · split
    · exact InRange.insertFree (T := { T with
        mapShmRead := Function.update T.mapShmRead p (some ShmReadObject.create) }) h hinit
    · exact h
  · exact h.insertFree hinit

theorem InRange.copyID (h : T.InRange) (iID : ℤ) : (T.copyID iID).1.InRange := by
  unfold ShmTables.copyID
  split
  · exact h
  · rename_i e he
    exact h.insertFree (h iID e he)

theorem InRange.removeID (h : T.InRange) (iID : ℤ) : (T.removeID iID).InRange := by
  intro i e hi
  by_cases heq : i = iID
  · rw [heq, removeID_mapShmInfo_self] at hi
    cases hi
  · rw [removeID_mapShmInfo_of_ne T heq] at hi
    exact h i e hi

/-- A call on a read object saves a 32-bit number if it works one out. -/
theorem InRange.onReadObject {α : Type} {iID : ℤ} {error answer : α}
    {call : Mem → ShmInfo → ShmReadObject → Option ((α × ShmInfo) × ShmReadObject)}
    (h : T.InRange)
    (hcall : ∀ m info o result, info.uiSeq < 4294967296 → call m info o = some result →
      result.1.2.uiSeq < 4294967296)
    (hrun : T.onReadObject iID error call = some (T', answer)) : T'.InRange := by
  unfold ShmTables.onReadObject ShmTables.getReadObject at hrun
  split at hrun
  · obtain ⟨rfl, -⟩ := Prod.mk.inj (Option.some.inj hrun)
    exact h
  · rename_i e o hread
    obtain ⟨e', he', hobj⟩ := Option.bind_eq_some_iff.mp hread
    obtain ⟨o', -, heq⟩ := Option.map_eq_some_iff.mp hobj
    obtain ⟨rfl, -⟩ := Prod.mk.inj heq
    obtain ⟨result, hresult, heq⟩ := Option.map_eq_some_iff.mp hrun
    obtain ⟨rfl, -⟩ := Prod.mk.inj heq
    exact h.update (hcall _ _ _ _ (h iID e' he') hresult) rfl

theorem InRange.call (h : T.InRange) (hcall : T.call t c = some (T', answer)) : T'.InRange := by
  cases c with
  | initID p attached =>
    obtain rfl : (T.initID p attached).1 = T' := congrArg Prod.fst (Option.some.inj hcall)
    exact h.initID p attached
  | copyID iID =>
    obtain rfl : (T.copyID iID).1 = T' := congrArg Prod.fst (Option.some.inj hcall)
    exact h.copyID iID
  | removeID iID =>
    obtain rfl : T.removeID iID = T' := congrArg Prod.fst (Option.some.inj hcall)
    exact h.removeID iID
  | write p bytes =>
    obtain rfl : T.written p bytes = T' := congrArg Prod.fst (Option.some.inj hcall)
    exact h
  | readFrameWithExtras iID bufLen fuel junk =>
    unfold ShmTables.call ShmTables.readFrameWithExtras at hcall
    refine h.onReadObject (fun m info o result hinfo hres => ?_) hcall
    obtain ⟨⟨answer, o'⟩, hread, rfl⟩ := Option.map_eq_some_iff.mp hres
    have hfst := ShmReadObject.readFrameWithExtras_fst m fuel junk t bufLen info o
    rw [hread] at hfst
    exact shmReadFrameWithExtras_lt m hinfo hfst.symm
  | backNFrame iID iSteps iKeyFlag fuel junk =>
    unfold ShmTables.call ShmTables.backNFrame at hcall
    refine h.onReadObject (fun m info o result hinfo hres => ?_) hcall
    obtain ⟨⟨answer, o'⟩, hmove, rfl⟩ := Option.map_eq_some_iff.mp hres
    have hfst := ShmReadObject.backNFrameNolock_fst m fuel junk iSteps iKeyFlag true info o
    rw [hmove] at hfst
    exact shmBackNFrameNolock_lt m hinfo hfst.symm
  | forwardNFrame iID iSteps iKeyFlag fuel junk =>
    unfold ShmTables.call ShmTables.backNFrame at hcall
    refine h.onReadObject (fun m info o result hinfo hres => ?_) hcall
    obtain ⟨⟨answer, o'⟩, hmove, rfl⟩ := Option.map_eq_some_iff.mp hres
    have hfst := ShmReadObject.backNFrameNolock_fst m fuel junk iSteps iKeyFlag false info o
    rw [hmove] at hfst
    exact shmBackNFrameNolock_lt m hinfo hfst.symm
  | refresh iID iKeyFlag fuel junk =>
    unfold ShmTables.call ShmTables.refresh at hcall
    refine h.onReadObject (fun m info o result hinfo hres => ?_) hcall
    obtain ⟨⟨answer, o'⟩, hmove, rfl⟩ := Option.map_eq_some_iff.mp hres
    have hfst := ShmReadObject.refreshNolock_fst m fuel junk iKeyFlag o
    rw [hmove] at hfst
    exact shmRefreshNolock_lt m hfst.symm
  | getFrameExtras iID pcarrExtras =>
    unfold ShmTables.call ShmTables.getFrameExtras at hcall
    refine h.onReadObject (fun m info o result hinfo hres => ?_) hcall
    obtain rfl := Option.some.inj hres
    exact hinfo
  | distance2Newest iID =>
    unfold ShmTables.call ShmTables.distance2Newest at hcall
    refine h.onReadObject (fun m info o result hinfo hres => ?_) hcall
    obtain rfl := Option.some.inj hres
    exact hinfo

end ShmTables

theorem ShmProcess.Reachable.inRange {s : ShmProcess} (h : s.Reachable) (t : ShmMediaType) :
    (s t).InRange := by
  apply h.invariant
  · intro pcShm i e he
    cases he
  · exact ShmTables.InRange.call

/-! ## The comparison -/

namespace ShmTables

variable {T : ShmTables} {iID1 iID2 : ℤ}

theorem getReadObject_isSome (hserved : T.Served) (iID : ℤ) :
    (T.getReadObject iID = none ↔ T.mapShmInfo iID = none)
      ∧ ∀ e, T.mapShmInfo iID = some e → ∃ o, T.getReadObject iID = some (e, o) := by
  have hsome := fun e he => getReadObject_of_served (b := iID) hserved (e := e) he
  refine ⟨⟨fun hnone => ?_, fun hnone => ?_⟩, hsome⟩
  · by_contra hne
    obtain ⟨e, he⟩ := Option.ne_none_iff_exists'.mp hne
    obtain ⟨o, ho⟩ := hsome e he
    rw [hnone] at ho
    cases ho
  · rw [getReadObject, hnone]
    rfl

/-- The answer, by which of the IDs are in the map. -/
theorem compareWithID_eq (hserved : T.Served) (iID1 iID2 : ℤ) : T.compareWithID iID1 iID2
    = match T.mapShmInfo iID1, T.mapShmInfo iID2 with
      | some e₁, some e₂ => toInt32 (u32 (e₁.info.uiSeq + 4294967296 - e₂.info.uiSeq))
      | none, none => shmEnumId1Id2NotExit
      | none, some _ => shmEnumId1NotExit
      | some _, none => shmEnumId2NotExit := by
  obtain ⟨hnone₁, hsome₁⟩ := getReadObject_isSome hserved iID1
  obtain ⟨hnone₂, hsome₂⟩ := getReadObject_isSome hserved iID2
  rw [compareWithID]
  cases h₁ : T.mapShmInfo iID1 with
  | none =>
    rw [hnone₁.mpr h₁]
    cases h₂ : T.mapShmInfo iID2 with
    | none => rw [hnone₂.mpr h₂]
    | some e₂ =>
      obtain ⟨o₂, ho₂⟩ := hsome₂ e₂ h₂
      rw [ho₂]
  | some e₁ =>
    obtain ⟨o₁, ho₁⟩ := hsome₁ e₁ h₁
    rw [ho₁]
    cases h₂ : T.mapShmInfo iID2 with
    | none => rw [hnone₂.mpr h₂]
    | some e₂ =>
      obtain ⟨o₂, ho₂⟩ := hsome₂ e₂ h₂
      rw [ho₂]

/-- With one of the IDs missing, the answer is the code for it. -/
theorem compares_of_missing (hserved : T.Served)
    (h : T.mapShmInfo iID1 = none ∨ T.mapShmInfo iID2 = none) : T.Compares iID1 iID2 := by
  have heq := compareWithID_eq hserved iID1 iID2
  cases h₁ : T.mapShmInfo iID1 with
  | none =>
    cases h₂ : T.mapShmInfo iID2 with
    | none =>
      rw [h₁, h₂] at heq
      constructor <;> simp [heq, h₁, h₂, shmEnumId1NotExit, shmEnumId2NotExit, shmEnumId1Id2NotExit]
    | some e₂ =>
      rw [h₁, h₂] at heq
      constructor <;> simp [heq, h₁, h₂, shmEnumId1NotExit, shmEnumId2NotExit, shmEnumId1Id2NotExit]
  | some e₁ =>
    have h₂ : T.mapShmInfo iID2 = none := h.resolve_left (by rw [h₁]; exact Option.some_ne_none e₁)
    rw [h₁, h₂] at heq
    constructor <;> simp [heq, h₁, h₂, shmEnumId1NotExit, shmEnumId2NotExit, shmEnumId1Id2NotExit]

/-- With both there, it is right exactly if the difference fits. -/
theorem compares_iff_of_found (hserved : T.Served) (hrange : T.InRange) {e₁ e₂ : ShmInfoStruct}
    (h₁ : T.mapShmInfo iID1 = some e₁) (h₂ : T.mapShmInfo iID2 = some e₂) :
    T.Compares iID1 iID2 ↔ T.DifferenceFits iID1 iID2 := by
  have heq := compareWithID_eq hserved iID1 iID2
  rw [h₁, h₂] at heq
  dsimp only at heq
  have hlt₁ := hrange iID1 e₁ h₁
  have hlt₂ := hrange iID2 e₂ h₂
  have hsign := sign_toInt32_sub hlt₁ hlt₂
  have hvalue := toInt32_sub hlt₁ hlt₂
  rw [← heq] at hsign hvalue
  constructor
  · rintro ⟨hid1, hid2, hboth, horder⟩ f₁ f₂ hf₁ hf₂
    obtain rfl := Option.some.inj (h₁.symm.trans hf₁)
    obtain rfl := Option.some.inj (h₂.symm.trans hf₂)
    obtain ⟨hlow, hhigh⟩ := hsign.mp (horder _ _ h₁ h₂)
    rw [if_neg (not_lt.mpr hlow), if_pos hhigh] at hvalue
    simp only [h₁, h₂, reduceCtorEq, false_and, and_false, iff_false] at hid1 hid2 hboth
    rw [hvalue] at hid1 hid2 hboth
    exact ⟨hlow, hhigh, hid1, hid2, hboth⟩
  · intro h
    obtain ⟨hlow, hhigh, hid1, hid2, hboth⟩ := h e₁ e₂ h₁ h₂
    rw [if_neg (not_lt.mpr hlow), if_pos hhigh] at hvalue
    rw [← hvalue] at hid1 hid2 hboth
    refine ⟨?_, ?_, ?_, fun f₁ f₂ hf₁ hf₂ => ?_⟩
    · simpa [h₁, h₂] using hid1
    · simpa [h₁, h₂] using hid2
    · simpa [h₁, h₂] using hboth
    · obtain rfl := Option.some.inj (h₁.symm.trans hf₁)
      obtain rfl := Option.some.inj (h₂.symm.trans hf₂)
      exact hsign.mpr ⟨hlow, hhigh⟩

end ShmTables

namespace ShmProcess

/-- **Comparing two IDs** is right exactly if one of them is missing, or the difference of their
numbers is a signed 32-bit number other than the codes. -/
theorem compares_iff (s : ShmProcess) (hreach : s.Reachable) (t : ShmMediaType) (iID1 iID2 : ℤ) :
    (s t).Compares iID1 iID2 ↔ (s t).DifferenceFits iID1 iID2 := by
  have hserved := hreach.served t
  cases h₁ : (s t).mapShmInfo iID1 with
  | none =>
    refine ⟨fun _ f₁ f₂ hf₁ _ => ?_, fun _ => ShmTables.compares_of_missing hserved (Or.inl h₁)⟩
    rw [h₁] at hf₁
    cases hf₁
  | some e₁ =>
    cases h₂ : (s t).mapShmInfo iID2 with
    | none =>
      refine ⟨fun _ f₁ f₂ _ hf₂ => ?_, fun _ => ShmTables.compares_of_missing hserved (Or.inr h₂)⟩
      rw [h₂] at hf₂
      cases hf₂
    | some e₂ => exact ShmTables.compares_iff_of_found hserved (hreach.inRange t) h₁ h₂

/-- Two IDs of one profile, refreshed after different writes. -/
theorem refreshed_pair (m₁ m₂ : Mem) : ∃ s : ShmProcess, s.Reachable
    ∧ (s .video).mapShmInfo 0 = some ⟨0, (ShmRead.refresh m₂).2⟩
    ∧ (s .video).mapShmInfo 1 = some ⟨0, (ShmRead.refresh m₁).2⟩ := by
  have hreach : Reachable _ := ⟨fun _ _ _ => 0,
    [(.video, .initID 0 true), (.video, .initID 0 true), (.video, .write 0 m₁),
      (.video, .refresh 1 false 0 fun _ => 0), (.video, .write 0 m₂),
      (.video, .refresh 0 false 0 fun _ => 0)], _, rfl⟩
  exact ⟨_, hreach, rfl, rfl⟩

/-- Two IDs just made are both at number `0`. -/
theorem compares_pair : ∃ s : ShmProcess, s.Reachable ∧ (s .video).mapShmInfo 0 ≠ none
    ∧ (s .video).mapShmInfo 1 ≠ none ∧ (s .video).Compares 0 1 := by
  have hreach : Reachable _ := ⟨fun _ _ _ => 0,
    [(.video, .initID 0 true), (.video, .initID 0 true)], _, rfl⟩
  refine ⟨_, hreach, Option.some_ne_none _, Option.some_ne_none _,
    (compares_iff _ hreach .video 0 1).mpr fun e₁ e₂ h₁ h₂ => ?_⟩
  obtain rfl := Option.some.inj h₁
  obtain rfl := Option.some.inj h₂
  decide

/-- Two IDs ten million frames apart: the answer says that the first does not exist. -/
theorem far_apart {m₁ m₂ : Mem} (h₁ : (ShmRead.refresh m₁).2.uiSeq = 1)
    (h₂ : (ShmRead.refresh m₂).2.uiSeq = 10000001) : ∃ s : ShmProcess, s.Reachable
      ∧ (s .video).mapShmInfo 0 = some ⟨0, (ShmRead.refresh m₂).2⟩
      ∧ (s .video).mapShmInfo 1 = some ⟨0, (ShmRead.refresh m₁).2⟩
      ∧ (s .video).compareWithID 0 1 = shmEnumId1NotExit ∧ ¬ (s .video).Compares 0 1 := by
  obtain ⟨s, hreach, hfirst, hsecond⟩ := refreshed_pair m₁ m₂
  have hcode : (s .video).compareWithID 0 1 = shmEnumId1NotExit := by
    rw [ShmTables.compareWithID_eq (hreach.served .video) 0 1, hfirst, hsecond]
    dsimp only
    rw [h₁, h₂]
    decide
  refine ⟨s, hreach, hfirst, hsecond, hcode, fun h => ?_⟩
  have hmissing := (h.id1.mp hcode).1
  rw [hfirst] at hmissing
  cases hmissing

/-- The ring after `n` frames of 100 bytes. -/
def ringAfter (n : ℕ) : ShmRing :=
  (ShmRing.create (fun _ => 0) 500 100 fun _ => 0).run
    (List.replicate n ⟨fun _ => 0, 100, fun _ => 0⟩)

theorem refresh_ringAfter (n : ℕ) (hn : n < 4294967295) :
    (ShmRead.refresh (ringAfter n).bytes).2.uiSeq = n := by
  have hlen : (ringAfter n).frames.length = n :=
    length_run_replicate (fun _ => 0) (fun _ => 0) (by decide) (by decide) (by decide) (by decide) n
  have inv : RingInv 500 100 (ringAfter n) :=
    ringInv_run (fun _ => 0) (fun _ => 0) (by decide) (by decide) (hlen.trans_lt hn)
  exact inv.newestSeq.trans hlen

/-- The first ID on frame 10000001, the second on frame 1. -/
theorem compares_wrong : ∃ s : ShmProcess, s.Reachable
    ∧ (s .video).mapShmInfo 0 = some ⟨0, (ShmRead.refresh (ringAfter 10000001).bytes).2⟩
    ∧ (s .video).mapShmInfo 1 = some ⟨0, (ShmRead.refresh (ringAfter 1).bytes).2⟩
    ∧ (s .video).compareWithID 0 1 = shmEnumId1NotExit
    ∧ ¬ (s .video).Compares 0 1 :=
  far_apart (refresh_ringAfter 1 (by norm_num)) (refresh_ringAfter 10000001 (by norm_num))

end ShmProcess
