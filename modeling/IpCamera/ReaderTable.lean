/-
# The reader table (`shm_read.cpp`)

A process has, for each media type, a map from reader IDs to profile and position,
and a map from profiles to the one read object of that profile.  Every call looks
the ID up, works on the shared object, and saves the position under the ID.

Proved: the readers do not disturb each other.  In a run of calls in which a live ID
is not removed, what its calls answer is the same without the calls on other IDs
(`ShmProcess.readers_isolated`).  The number a new copy gets is the exception: it
depends on which numbers are taken (`ShmProcess.copy_number_coupled`).

A call is one step: it runs under the mutex of its media type.  The bytes of the
segments are changed by the writers, in steps of their own.  The uninitialised
`structExtraData` of a key-frame search is an input of the call, as in `ShmApi`, and
a search that does not return has no next state.
-/
import IpCamera.ShmReadObject
import IpCamera.Unwinding

/-- `MAX_IDS` -/
def maxIDs : ℕ := 1000000

/-- `SHM_INFO_STRUCT` -/
structure ShmInfoStruct where
  cProfileNO : UInt8
  info : ShmInfo
  deriving DecidableEq, Repr

/-- The maps of one media type, with the segment of each profile. -/
structure ShmTables where
  mapShmInfo : ℤ → Option ShmInfoStruct
  mapShmRead : UInt8 → Option ShmReadObject
  pcShm : UInt8 → Mem

/-- What a call hands back. -/
structure ShmAnswer where
  rtn : ℤ
  frame : Option FrameData := none
  pcarrExtras : Option (ℕ → UInt8) := none

namespace ShmTables

/-- `SHM_GetReadObject` -/
def getReadObject (T : ShmTables) (iID : ℤ) : Option (ShmInfoStruct × ShmReadObject) :=
  (T.mapShmInfo iID).bind fun e => (T.mapShmRead e.cProfileNO).map fun o => (e, o)

/-- The entry and the object after a call on them. -/
def save (T : ShmTables) (iID : ℤ) (cProfileNO : UInt8) (info : ShmInfo) (o : ShmReadObject) :
    ShmTables :=
  { T with
    mapShmInfo := Function.update T.mapShmInfo iID (some ⟨cProfileNO, info⟩)
    mapShmRead := Function.update T.mapShmRead cProfileNO (some o) }

/-- A call on the read object of `iID`; `error` is the answer when there is none. -/
def onReadObject {α : Type} (T : ShmTables) (iID : ℤ) (error : α)
    (call : Mem → ShmInfo → ShmReadObject → Option ((α × ShmInfo) × ShmReadObject)) :
    Option (ShmTables × α) :=
  match T.getReadObject iID with
  | none => some (T, error)
  | some (e, o) =>
      (call (T.pcShm e.cProfileNO) e.info o).map fun ((answer, info), o) =>
        (T.save iID e.cProfileNO info o, answer)

/-- The loop `for(idx=0; idx<MAX_IDS; idx++)` that looks for a number not in the map. -/
def findFree (mapShmInfo : ℤ → Option ShmInfoStruct) : (left idx : ℕ) → Option ℕ
  | 0, _ => none
  | left + 1, idx =>
      if (mapShmInfo idx).isNone then some idx else findFree mapShmInfo left (idx + 1)

/-- The entry put under the number found. -/
def insertFree (T : ShmTables) (e : ShmInfoStruct) : ShmTables × ShmAnswer :=
  match findFree T.mapShmInfo maxIDs 0 with
  | none => (T, { rtn := shmEnumError })
  | some idx =>
      ({ T with mapShmInfo := Function.update T.mapShmInfo idx (some e) }, { rtn := idx })

/-- `SHM_InitID`.  `attached`: the constructor of `ShmRead` finds the segment. -/
def initID (T : ShmTables) (cProfileNO : UInt8) (attached : Bool) : ShmTables × ShmAnswer :=
  if (T.mapShmRead cProfileNO).isNone then
    if attached then
      insertFree
        { T with mapShmRead := Function.update T.mapShmRead cProfileNO (some ShmReadObject.create) }
        ⟨cProfileNO, ShmInfo.initial⟩
    else (T, { rtn := shmEnumError })
  else T.insertFree ⟨cProfileNO, ShmInfo.initial⟩

/-- `SHM_CopyID` -/
def copyID (T : ShmTables) (iID : ℤ) : ShmTables × ShmAnswer :=
  match T.mapShmInfo iID with
  | none => (T, { rtn := shmEnumError })
  | some e => T.insertFree e

/-- `SHM_ReadFrameWithExtras`; `SHM_ReadFrame` drops the extras. -/
def readFrameWithExtras (T : ShmTables) (enumMType : ShmMediaType) (iID bufLen : ℤ) (fuel : ℕ)
    (junk : ℕ → UInt8) : Option (ShmTables × ShmAnswer) :=
  T.onReadObject iID { rtn := shmEnumError } fun m info o =>
    (o.readFrameWithExtras m fuel junk enumMType bufLen info).map fun ((rtn, frame, info), o) =>
      (({ rtn := rtn, frame := frame }, info), o)

/-- `SHM_BackNFrame` and `SHM_ForwardNFrame` -/
def backNFrame (T : ShmTables) (iID iSteps : ℤ) (iKeyFlag isBack : Bool) (fuel : ℕ)
    (junk : ℕ → UInt8) : Option (ShmTables × ShmAnswer) :=
  T.onReadObject iID { rtn := if iSteps = 0 then shmEnumOk else shmEnumError } fun m info o =>
    (o.backNFrameNolock m fuel junk iSteps iKeyFlag isBack info).map fun ((rtn, info), o) =>
      (({ rtn := rtn }, info), o)

/-- `SHM_Refresh` -/
def refresh (T : ShmTables) (iID : ℤ) (iKeyFlag : Bool) (fuel : ℕ) (junk : ℕ → UInt8) :
    Option (ShmTables × ShmAnswer) :=
  T.onReadObject iID { rtn := shmEnumError } fun m _ o =>
    (o.refreshNolock m fuel junk iKeyFlag).map fun ((rtn, info), o) => (({ rtn := rtn }, info), o)

/-- `SHM_GetFrameExtras` -/
def getFrameExtras (T : ShmTables) (iID : ℤ) (pcarrExtras : ℕ → UInt8) :
    Option (ShmTables × ShmAnswer) :=
  T.onReadObject iID { rtn := shmEnumError, pcarrExtras := some pcarrExtras } fun m info o =>
    let ((rtn, extras), o) := o.getExtras m pcarrExtras info
    some (({ rtn := rtn, pcarrExtras := some extras }, info), o)

/-- `SHM_Distance2Newest` -/
def distance2Newest (T : ShmTables) (iID : ℤ) : Option (ShmTables × ShmAnswer) :=
  T.onReadObject iID { rtn := shmEnumError } fun m info o =>
    let (distance, o) := o.distance2Newest m info
    some (({ rtn := distance }, info), o)

/-- `SHM_RemoveID` -/
def removeID (T : ShmTables) (iID : ℤ) : ShmTables :=
  { T with mapShmInfo := Function.update T.mapShmInfo iID none }

/-- A writer of the profile has changed its segment. -/
def written (T : ShmTables) (cProfileNO : UInt8) (bytes : Mem) : ShmTables :=
  { T with pcShm := Function.update T.pcShm cProfileNO bytes }

end ShmTables

/-! ## Runs -/

/-- The calls, and what the writers do in between. -/
inductive ShmCall
  | initID (cProfileNO : UInt8) (attached : Bool)
  | copyID (iID : ℤ)
  | readFrameWithExtras (iID bufLen : ℤ) (fuel : ℕ) (junk : ℕ → UInt8)
  | backNFrame (iID iSteps : ℤ) (iKeyFlag : Bool) (fuel : ℕ) (junk : ℕ → UInt8)
  | forwardNFrame (iID iSteps : ℤ) (iKeyFlag : Bool) (fuel : ℕ) (junk : ℕ → UInt8)
  | refresh (iID : ℤ) (iKeyFlag : Bool) (fuel : ℕ) (junk : ℕ → UInt8)
  | getFrameExtras (iID : ℤ) (pcarrExtras : ℕ → UInt8)
  | distance2Newest (iID : ℤ)
  | removeID (iID : ℤ)
  | write (cProfileNO : UInt8) (bytes : Mem)

/-- The ID a call is on. -/
def ShmCall.iID : ShmCall → Option ℤ
  | .initID _ _ | .write _ _ => none
  | .copyID iID | .readFrameWithExtras iID _ _ _ | .backNFrame iID _ _ _ _
  | .forwardNFrame iID _ _ _ _ | .refresh iID _ _ _ | .getFrameExtras iID _
  | .distance2Newest iID | .removeID iID => some iID

/-- One call on the tables of its media type. -/
def ShmTables.call (enumMType : ShmMediaType) (T : ShmTables) :
    ShmCall → Option (ShmTables × ShmAnswer)
  | .initID cProfileNO attached => some (T.initID cProfileNO attached)
  | .copyID iID => some (T.copyID iID)
  | .readFrameWithExtras iID bufLen fuel junk =>
      T.readFrameWithExtras enumMType iID bufLen fuel junk
  | .backNFrame iID iSteps iKeyFlag fuel junk => T.backNFrame iID iSteps iKeyFlag true fuel junk
  | .forwardNFrame iID iSteps iKeyFlag fuel junk =>
      T.backNFrame iID iSteps iKeyFlag false fuel junk
  | .refresh iID iKeyFlag fuel junk => T.refresh iID iKeyFlag fuel junk
  | .getFrameExtras iID pcarrExtras => T.getFrameExtras iID pcarrExtras
  | .distance2Newest iID => T.distance2Newest iID
  | .removeID iID => some (T.removeID iID, { rtn := shmEnumOk })
  | .write cProfileNO bytes => some (T.written cProfileNO bytes, { rtn := shmEnumOk })

/-- The tables of both media types. -/
abbrev ShmProcess := ShmMediaType → ShmTables

namespace ShmProcess

/-- A process that has made no call yet. -/
def start (pcShm : ShmMediaType → UInt8 → Mem) : ShmProcess := fun t =>
  ⟨fun _ => none, fun _ => none, pcShm t⟩

/-- `SHM_GetMapObject` selects the tables of the media type. -/
def step (s : ShmProcess) (op : ShmMediaType × ShmCall) : Option (ShmProcess × ShmAnswer) :=
  ((s op.1).call op.1 op.2).map fun (T, answer) => (Function.update s op.1 T, answer)

/-- A state some run from the start reaches. -/
def Reachable (s : ShmProcess) : Prop :=
  ∃ pcShm ops answers, Unwinding.run step (start pcShm) ops = some (s, answers)

/-- What stays when the calls on other IDs are left out: the calls on `b`, and the writers. -/
def stays (t : ShmMediaType) (b : ℤ) (op : ShmMediaType × ShmCall) : Bool :=
  (op.1 = t && op.2.iID = some b) || match op.2 with
    | .write _ _ => true
    | _ => false

/-- The answer of a call, but for the number of a copy. -/
def visible (op : ShmMediaType × ShmCall) (answer : ShmAnswer) : Option ShmAnswer :=
  match op.2 with
  | .copyID _ => none
  | _ => some answer

end ShmProcess

/-! ## What a call can do to the tables -/

namespace ShmTables

variable {T T' : ShmTables}

/-- Every ID in the map has a read object. -/
def Served (T : ShmTables) : Prop :=
  ∀ iID e, T.mapShmInfo iID = some e → (T.mapShmRead e.cProfileNO).isSome

/-- A call on `iID` (if it is on one): it reads the segments only, keeps the other entries,
loses no read object, and puts in no entry without one. -/
structure Effect (iID : Option ℤ) (T T' : ShmTables) : Prop where
  bytes : T'.pcShm = T.pcShm
  others : ∀ {i e}, iID ≠ some i → T.mapShmInfo i = some e → T'.mapShmInfo i = some e
  reads : ∀ {p}, (T.mapShmRead p).isSome → (T'.mapShmRead p).isSome
  served : T.Served → T'.Served

theorem Effect.refl (iID : Option ℤ) (T : ShmTables) : Effect iID T T :=
  ⟨rfl, fun _ h => h, fun h => h, fun h => h⟩

theorem isSome_update {α β : Type} [DecidableEq α] {f : α → Option β} {a p : α} (b : β)
    (h : (f p).isSome) : (Function.update f a (some b) p).isSome := by
  by_cases hp : p = a
  · rw [hp, Function.update_self]
    rfl
  · rwa [Function.update_of_ne hp]

theorem save_mapShmInfo_self (T : ShmTables) (iID : ℤ) (p : UInt8) (info : ShmInfo)
    (o : ShmReadObject) : (T.save iID p info o).mapShmInfo iID = some ⟨p, info⟩ :=
  Function.update_self ..

theorem save_mapShmInfo_of_ne (T : ShmTables) {i iID : ℤ} (h : i ≠ iID) (p : UInt8) (info : ShmInfo)
    (o : ShmReadObject) : (T.save iID p info o).mapShmInfo i = T.mapShmInfo i :=
  Function.update_of_ne h ..

theorem save_mapShmRead_self (T : ShmTables) (iID : ℤ) (p : UInt8) (info : ShmInfo)
    (o : ShmReadObject) : (T.save iID p info o).mapShmRead p = some o :=
  Function.update_self ..

theorem removeID_mapShmInfo_self (T : ShmTables) (iID : ℤ) :
    (T.removeID iID).mapShmInfo iID = none :=
  Function.update_self ..

theorem removeID_mapShmInfo_of_ne (T : ShmTables) {i iID : ℤ} (h : i ≠ iID) :
    (T.removeID iID).mapShmInfo i = T.mapShmInfo i :=
  Function.update_of_ne h ..

/-- A call on the read object keeps its profile. -/
theorem Effect.save (T : ShmTables) (iID : ℤ) (p : UInt8) (info : ShmInfo) (o : ShmReadObject) :
    Effect (some iID) T (T.save iID p info o) where
  bytes := rfl
  others hne h := by
    rwa [save_mapShmInfo_of_ne T fun heq => hne (congrArg some heq.symm)]
  reads h := isSome_update o h
  served hserved i e h := by
    by_cases hi : i = iID
    · rw [hi, save_mapShmInfo_self] at h
      obtain rfl := Option.some.inj h
      rw [save_mapShmRead_self]
      rfl
    · rw [save_mapShmInfo_of_ne T hi] at h
      exact isSome_update o (hserved i e h)

theorem Effect.onReadObject {α : Type} {iID : ℤ} {error answer : α}
    {call : Mem → ShmInfo → ShmReadObject → Option ((α × ShmInfo) × ShmReadObject)}
    (h : T.onReadObject iID error call = some (T', answer)) : Effect (some iID) T T' := by
  unfold ShmTables.onReadObject at h
  split at h
  · obtain ⟨rfl, -⟩ := Prod.mk.inj (Option.some.inj h)
    exact .refl _ T
  · obtain ⟨⟨⟨answer', info⟩, o⟩, -, heq⟩ := Option.map_eq_some_iff.mp h
    obtain ⟨rfl, -⟩ := Prod.mk.inj heq
    exact .save T iID _ info o

/-- The number found is below the bound and not taken. -/
theorem findFree_spec (mapShmInfo : ℤ → Option ShmInfoStruct) (left : ℕ) :
    ∀ {idx n : ℕ}, findFree mapShmInfo left idx = some n →
      mapShmInfo n = none ∧ n < idx + left := by
  induction left with
  | zero =>
    intro idx n h
    cases h
  | succ left ih =>
    intro idx n h
    unfold findFree at h
    split at h
    · rename_i hfree
      obtain rfl := Option.some.inj h
      exact ⟨Option.isNone_iff_eq_none.mp hfree, by omega⟩
    · obtain ⟨hfree, hlt⟩ := ih h
      exact ⟨hfree, by omega⟩

/-- What `SHM_InitID` and `SHM_CopyID` hand back: an error and the map as it was, or a number
that was not taken and now has the entry. -/
def Allocates (T T' : ShmTables) (answer : ShmAnswer) : Prop :=
  (answer.rtn = shmEnumError ∧ T'.mapShmInfo = T.mapShmInfo) ∨
  (0 ≤ answer.rtn ∧ answer.rtn < maxIDs ∧ T.mapShmInfo answer.rtn = none
    ∧ ∃ e, T'.mapShmInfo = Function.update T.mapShmInfo answer.rtn (some e))

theorem insertFree_allocates (T : ShmTables) (e : ShmInfoStruct) :
    Allocates T (T.insertFree e).1 (T.insertFree e).2 := by
  unfold insertFree
  split
  · exact .inl ⟨rfl, rfl⟩
  · rename_i idx hidx
    obtain ⟨hfree, hlt⟩ := findFree_spec T.mapShmInfo maxIDs hidx
    exact .inr ⟨Int.natCast_nonneg idx, by dsimp only; omega, hfree, e, rfl⟩

theorem insertFree_pcShm (T : ShmTables) (e : ShmInfoStruct) :
    (T.insertFree e).1.pcShm = T.pcShm := by
  unfold insertFree
  split <;> rfl

theorem insertFree_mapShmRead (T : ShmTables) (e : ShmInfoStruct) :
    (T.insertFree e).1.mapShmRead = T.mapShmRead := by
  unfold insertFree
  split <;> rfl

theorem initID_allocates (T : ShmTables) (p : UInt8) (attached : Bool) :
    Allocates T (T.initID p attached).1 (T.initID p attached).2 := by
  unfold initID
  split
  · split
    · exact insertFree_allocates _ _
    · exact .inl ⟨rfl, rfl⟩
  · exact insertFree_allocates _ _

theorem copyID_allocates (T : ShmTables) (iID : ℤ) :
    Allocates T (T.copyID iID).1 (T.copyID iID).2 := by
  unfold copyID
  split
  · exact .inl ⟨rfl, rfl⟩
  · exact insertFree_allocates _ _

/-- Live IDs keep their entries, whichever call allocates. -/
theorem Allocates.others {answer : ShmAnswer} (h : Allocates T T' answer) {i : ℤ}
    {e : ShmInfoStruct} (hi : T.mapShmInfo i = some e) : T'.mapShmInfo i = some e := by
  rcases h with ⟨-, hsame⟩ | ⟨-, -, hfree, e', hupdate⟩
  · rw [hsame, hi]
  · have hne : i ≠ answer.rtn := by
      rintro rfl
      rw [hfree] at hi
      cases hi
    rw [hupdate, Function.update_of_ne hne, hi]

/-- The entry put in has a read object. -/
theorem Effect.insertFree (iID : Option ℤ) {e : ShmInfoStruct}
    (he : (T.mapShmRead e.cProfileNO).isSome) : Effect iID T (T.insertFree e).1 where
  bytes := insertFree_pcShm T e
  others _ hi := (insertFree_allocates T e).others hi
  reads h := by rwa [insertFree_mapShmRead]
  served hserved i e' h := by
    rw [insertFree_mapShmRead]
    unfold ShmTables.insertFree at h
    split at h
    · exact hserved i e' h
    · rename_i idx hidx
      dsimp only at h
      by_cases hi : i = idx
      · rw [hi, Function.update_self] at h
        obtain rfl := Option.some.inj h
        exact he
      · rw [Function.update_of_ne hi] at h
        exact hserved i e' h

theorem Effect.trans {iID : Option ℤ} {T'' : ShmTables} (h : Effect iID T T')
    (h' : Effect iID T' T'') : Effect iID T T'' :=
  ⟨h'.bytes.trans h.bytes, fun hne hi => h'.others hne (h.others hne hi), fun hp => h'.reads (h.reads hp),
    fun hs => h'.served (h.served hs)⟩

theorem Effect.initID (T : ShmTables) (p : UInt8) (attached : Bool) :
    Effect none T (T.initID p attached).1 := by
  unfold ShmTables.initID
  split
  · split
    · have hcreate : Effect none T
          { T with mapShmRead := Function.update T.mapShmRead p (some ShmReadObject.create) } :=
        ⟨rfl, fun _ h => h, isSome_update _, fun hs i e h => isSome_update _ (hs i e h)⟩
      refine hcreate.trans (.insertFree none ?_)
      exact congrArg Option.isSome (Function.update_self p _ T.mapShmRead)
    · exact .refl none T
  · rename_i hread
    exact .insertFree none (Option.ne_none_iff_isSome.mp (by simpa using hread))

theorem Effect.copyID (hserved : T.Served) (iID : ℤ) :
    Effect (some iID) T (T.copyID iID).1 := by
  unfold ShmTables.copyID
  split
  · exact .refl _ T
  · rename_i e he
    exact .insertFree _ (hserved iID e he)

theorem Effect.removeID (T : ShmTables) (iID : ℤ) : Effect (some iID) T (T.removeID iID) where
  bytes := rfl
  others hne h := by
    rwa [removeID_mapShmInfo_of_ne T fun heq => hne (congrArg some heq.symm)]
  reads h := h
  served hserved i e h := by
    by_cases hi : i = iID
    · rw [hi, removeID_mapShmInfo_self] at h
      cases h
    · rw [removeID_mapShmInfo_of_ne T hi] at h
      exact hserved i e h

end ShmTables

/-! ## The calls on a read object -/

/-- The call works on the read object of `iID`, and what it answers and saves does not depend
on what the object's members hold. -/
def ShmCall.WorksOn (t : ShmMediaType) (c : ShmCall) (iID : ℤ) : Prop :=
  ∃ (error : ShmAnswer)
    (call : Mem → ShmInfo → ShmReadObject → Option ((ShmAnswer × ShmInfo) × ShmReadObject))
    (result : Mem → ShmInfo → Option (ShmAnswer × ShmInfo)),
    (∀ T : ShmTables, T.call t c = T.onReadObject iID error call)
      ∧ ∀ m info o, (call m info o).map Prod.fst = result m info

namespace ShmCall

variable (t : ShmMediaType) (iID : ℤ) (fuel : ℕ) (junk : ℕ → UInt8)

variable {t iID} in
theorem WorksOn.intro {c : ShmCall} {error : ShmAnswer}
    {f : Mem → ShmInfo → ShmReadObject → Option ((ShmAnswer × ShmInfo) × ShmReadObject)}
    {r : Mem → ShmInfo → Option (ShmAnswer × ShmInfo)}
    (hcall : ∀ T : ShmTables, T.call t c = T.onReadObject iID error f)
    (hfst : ∀ m info o, (f m info o).map Prod.fst = r m info) : WorksOn t c iID :=
  ⟨error, f, r, hcall, hfst⟩

theorem worksOn_readFrameWithExtras (bufLen : ℤ) :
    WorksOn t (.readFrameWithExtras iID bufLen fuel junk) iID := by
  apply WorksOn.intro (r := fun m info => (shmReadFrameWithExtras m fuel junk t bufLen info).map
    fun p => ({ rtn := p.1, frame := p.2.1 }, p.2.2))
  · intro T
    unfold ShmTables.call ShmTables.readFrameWithExtras
    rfl
  · intro m info o
    dsimp only
    rw [← ShmReadObject.readFrameWithExtras_fst m fuel junk t bufLen info o, Option.map_map,
      Option.map_map]
    rfl

theorem worksOn_backNFrameNolock {c : ShmCall} (iSteps : ℤ) (iKeyFlag isBack : Bool)
    (hc : ∀ T : ShmTables, T.call t c = T.backNFrame iID iSteps iKeyFlag isBack fuel junk) :
    WorksOn t c iID := by
  apply WorksOn.intro (r := fun m info =>
    (shmBackNFrameNolock m fuel junk iSteps iKeyFlag isBack info).map
      fun p => ({ rtn := p.1 }, p.2)) hc
  intro m info o
  dsimp only
  rw [← ShmReadObject.backNFrameNolock_fst m fuel junk iSteps iKeyFlag isBack info o,
    Option.map_map, Option.map_map]
  rfl

theorem worksOn_refresh (iKeyFlag : Bool) : WorksOn t (.refresh iID iKeyFlag fuel junk) iID := by
  apply WorksOn.intro (r := fun m _ => (shmRefreshNolock m fuel junk iKeyFlag).map
    fun p => ({ rtn := p.1 }, p.2))
  · intro T
    unfold ShmTables.call ShmTables.refresh
    rfl
  · intro m info o
    dsimp only
    rw [← ShmReadObject.refreshNolock_fst m fuel junk iKeyFlag o, Option.map_map,
      Option.map_map]
    rfl

theorem worksOn_getFrameExtras (pcarrExtras : ℕ → UInt8) :
    WorksOn t (.getFrameExtras iID pcarrExtras) iID := by
  apply WorksOn.intro (r := fun m info => some ({
    rtn := (ShmRead.getExtras m pcarrExtras info).1
    pcarrExtras := some (ShmRead.getExtras m pcarrExtras info).2 }, info))
  · intro T
    unfold ShmTables.call ShmTables.getFrameExtras
    rfl
  · intro m info o
    rw [← ShmReadObject.getExtras_fst m info o pcarrExtras]
    rfl

theorem worksOn_distance2Newest : WorksOn t (.distance2Newest iID) iID := by
  apply WorksOn.intro (r := fun m info =>
    some ({ rtn := ShmRead.distance2Newest m info }, info))
  · intro T
    unfold ShmTables.call ShmTables.distance2Newest
    rfl
  · intro m info o
    rw [← ShmReadObject.distance2Newest_fst m info o]
    rfl

end ShmCall

/-- The calls: two that allocate, one that removes, the writers, and those on a read object. -/
theorem ShmCall.kinds (t : ShmMediaType) (c : ShmCall) :
    (∃ p attached, c = .initID p attached) ∨ (∃ iID, c = .copyID iID) ∨ (∃ iID, c = .removeID iID)
      ∨ (∃ p bytes, c = .write p bytes) ∨ ∃ iID, c.iID = some iID ∧ c.WorksOn t iID := by
  cases c with
  | initID p attached => exact .inl ⟨p, attached, rfl⟩
  | copyID iID => exact .inr (.inl ⟨iID, rfl⟩)
  | removeID iID => exact .inr (.inr (.inl ⟨iID, rfl⟩))
  | write p bytes => exact .inr (.inr (.inr (.inl ⟨p, bytes, rfl⟩)))
  | readFrameWithExtras iID bufLen fuel junk =>
    exact .inr (.inr (.inr (.inr ⟨iID, rfl, worksOn_readFrameWithExtras t iID fuel junk bufLen⟩)))
  | backNFrame iID iSteps iKeyFlag fuel junk =>
    exact .inr (.inr (.inr (.inr ⟨iID, rfl,
      worksOn_backNFrameNolock t iID fuel junk iSteps iKeyFlag true fun _ => rfl⟩)))
  | forwardNFrame iID iSteps iKeyFlag fuel junk =>
    exact .inr (.inr (.inr (.inr ⟨iID, rfl,
      worksOn_backNFrameNolock t iID fuel junk iSteps iKeyFlag false fun _ => rfl⟩)))
  | refresh iID iKeyFlag fuel junk =>
    exact .inr (.inr (.inr (.inr ⟨iID, rfl, worksOn_refresh t iID fuel junk iKeyFlag⟩)))
  | getFrameExtras iID pcarrExtras =>
    exact .inr (.inr (.inr (.inr ⟨iID, rfl, worksOn_getFrameExtras t iID pcarrExtras⟩)))
  | distance2Newest iID =>
    exact .inr (.inr (.inr (.inr ⟨iID, rfl, worksOn_distance2Newest t iID⟩)))

namespace ShmTables

variable {T T' U : ShmTables} {t : ShmMediaType} {c : ShmCall} {answer : ShmAnswer}

/-- Every call has its effect; the writers change the bytes only. -/
theorem call_effect (hserved : T.Served) (hwrite : ∀ p bytes, c ≠ .write p bytes)
    (h : T.call t c = some (T', answer)) : Effect c.iID T T' := by
  rcases ShmCall.kinds t c with ⟨p, attached, rfl⟩ | ⟨iID, rfl⟩ | ⟨iID, rfl⟩ | ⟨p, bytes, rfl⟩
    | ⟨iID, hiID, error, call, result, hcall, -⟩
  · obtain rfl : (T.initID p attached).1 = T' := congrArg Prod.fst (Option.some.inj h)
    exact .initID T p attached
  · obtain rfl : (T.copyID iID).1 = T' := congrArg Prod.fst (Option.some.inj h)
    exact .copyID hserved iID
  · obtain rfl : T.removeID iID = T' := congrArg Prod.fst (Option.some.inj h)
    exact .removeID T iID
  · exact absurd rfl (hwrite p bytes)
  · rw [hiID]
    exact .onReadObject ((hcall T).symm.trans h)

theorem call_served (hserved : T.Served) (h : T.call t c = some (T', answer)) : T'.Served := by
  by_cases hwrite : ∃ p bytes, c = .write p bytes
  · obtain ⟨p, bytes, rfl⟩ := hwrite
    obtain rfl : T.written p bytes = T' := congrArg Prod.fst (Option.some.inj h)
    exact hserved
  · exact (call_effect hserved (fun p bytes hc => hwrite ⟨p, bytes, hc⟩) h).served hserved

/-! ## Tables alike for one reader -/

/-- Tables in which the live reader `b` has the same entry, over the same segments. -/
structure AlikeFor (b : ℤ) (T U : ShmTables) : Prop where
  bytes : T.pcShm = U.pcShm
  entry : ∃ e, T.mapShmInfo b = some e ∧ U.mapShmInfo b = some e
  left : T.Served
  right : U.Served

variable {b : ℤ}

theorem getReadObject_of_served (hserved : T.Served) {e : ShmInfoStruct}
    (he : T.mapShmInfo b = some e) : ∃ o, T.getReadObject b = some (e, o) := by
  obtain ⟨o, ho⟩ := Option.isSome_iff_exists.mp (hserved b e he)
  refine ⟨o, ?_⟩
  rw [getReadObject, he, Option.bind_some, ho]
  rfl

/-- A call on the read object of `b` answers the same in both and leaves the same entry. -/
theorem AlikeFor.onReadObject (halike : AlikeFor b T U) (hc : c.WorksOn t b)
    (h : T.call t c = some (T', answer)) :
    ∃ U', U.call t c = some (U', answer)
      ∧ ∃ e, T'.mapShmInfo b = some e ∧ U'.mapShmInfo b = some e := by
  obtain ⟨error, call, result, hcall, hfst⟩ := hc
  obtain ⟨e, heT, heU⟩ := halike.entry
  obtain ⟨o, ho⟩ := getReadObject_of_served halike.left heT
  obtain ⟨o', ho'⟩ := getReadObject_of_served halike.right heU
  rw [hcall, ShmTables.onReadObject, ho] at h
  obtain ⟨⟨⟨a, info⟩, o₁⟩, hfirst, heq⟩ := Option.map_eq_some_iff.mp h
  obtain ⟨rfl, rfl⟩ := Prod.mk.inj heq
  -- the result depends on the bytes and the entry only, not on the object
  have hsame : (call (U.pcShm e.cProfileNO) e.info o').map Prod.fst = some (a, info) := by
    rw [hfst, ← hfst _ _ o, ← halike.bytes, hfirst]
    rfl
  obtain ⟨⟨⟨a', info'⟩, o₂⟩, hsecond, heq'⟩ := Option.map_eq_some_iff.mp hsame
  obtain ⟨rfl, rfl⟩ := Prod.mk.inj heq'
  refine ⟨U.save b e.cProfileNO info' o₂, ?_, ⟨e.cProfileNO, info'⟩,
    save_mapShmInfo_self T b _ _ o₁, save_mapShmInfo_self U b _ _ o₂⟩
  rw [hcall, ShmTables.onReadObject, ho']
  dsimp only
  rw [hsecond]
  rfl

/-- A call on `b` that does not remove it. -/
theorem AlikeFor.own (halike : AlikeFor b T U) (hown : c.iID = some b) (hremove : c ≠ .removeID b)
    (h : T.call t c = some (T', answer)) :
    ∃ U' answer', U.call t c = some (U', answer') ∧ AlikeFor b T' U'
      ∧ ShmProcess.visible (t, c) answer = ShmProcess.visible (t, c) answer' := by
  have hwrite : ∀ p bytes, c ≠ .write p bytes := by
    rintro p bytes rfl
    cases hown
  -- the entry of `b` is all that is left to show
  have hrest : ∀ {U' answer'}, U.call t c = some (U', answer') →
      (∃ e, T'.mapShmInfo b = some e ∧ U'.mapShmInfo b = some e) → AlikeFor b T' U' := by
    intro U' answer' hU hentry
    refine ⟨?_, hentry, call_served halike.left h, call_served halike.right hU⟩
    rw [(call_effect halike.left hwrite h).bytes, (call_effect halike.right hwrite hU).bytes,
      halike.bytes]
  rcases ShmCall.kinds t c with ⟨p, attached, rfl⟩ | ⟨iID, rfl⟩ | ⟨iID, rfl⟩ | ⟨p, bytes, rfl⟩
    | ⟨iID, hiID, hworks⟩
  · cases hown
  · obtain ⟨e, heT, heU⟩ := halike.entry
    obtain rfl : (T.copyID iID).1 = T' := congrArg Prod.fst (Option.some.inj h)
    exact ⟨_, _, rfl, hrest rfl ⟨e, (copyID_allocates T iID).others heT,
      (copyID_allocates U iID).others heU⟩, rfl⟩
  · obtain rfl := Option.some.inj hown
    exact absurd rfl hremove
  · cases hown
  · obtain rfl := Option.some.inj (hiID.symm.trans hown)
    obtain ⟨U', hU, hentry⟩ := halike.onReadObject hworks h
    exact ⟨U', answer, hU, hrest hU hentry, rfl⟩

/-- A call that is not on `b`. -/
theorem AlikeFor.other (halike : AlikeFor b T U) (hother : c.iID ≠ some b)
    (hwrite : ∀ p bytes, c ≠ .write p bytes) (h : T.call t c = some (T', answer)) :
    AlikeFor b T' U := by
  have heffect := call_effect halike.left hwrite h
  obtain ⟨e, heT, heU⟩ := halike.entry
  exact ⟨heffect.bytes.trans halike.bytes, ⟨e, heffect.others hother heT, heU⟩,
    heffect.served halike.left, halike.right⟩

theorem AlikeFor.written (halike : AlikeFor b T U) (p : UInt8) (bytes : Mem) :
    AlikeFor b (T.written p bytes) (U.written p bytes) := by
  refine ⟨?_, halike.entry, halike.left, halike.right⟩
  rw [ShmTables.written, ShmTables.written, halike.bytes]

end ShmTables

/-! ## Isolation -/

namespace ShmProcess

variable {s s' : ShmProcess} {op : ShmMediaType × ShmCall} {answer : ShmAnswer}

theorem step_call (h : step s op = some (s', answer)) :
    ∃ T, (s op.1).call op.1 op.2 = some (T, answer) ∧ s' = Function.update s op.1 T := by
  obtain ⟨⟨T, answer'⟩, hcall, heq⟩ := Option.map_eq_some_iff.mp h
  obtain ⟨rfl, rfl⟩ := Prod.mk.inj heq
  exact ⟨T, hcall, rfl⟩

/-- What holds of empty tables and is kept by every call holds of the tables of a reachable state. -/
theorem Reachable.invariant {P : ShmTables → Prop} (h : s.Reachable)
    (hstart : ∀ pcShm, P ⟨fun _ => none, fun _ => none, pcShm⟩)
    (hcall : ∀ {T T' t c answer}, P T → T.call t c = some (T', answer) → P T') (t : ShmMediaType) :
    P (s t) := by
  obtain ⟨pcShm, ops, answers, hrun⟩ := h
  have hstart' : ∀ t, P (start pcShm t) := fun t => hstart (pcShm t)
  -- the run keeps it, whatever state it starts from
  generalize start pcShm = s₀ at hrun hstart'
  induction ops generalizing s₀ answers with
  | nil =>
    obtain ⟨rfl, -⟩ := Prod.mk.inj (Option.some.inj hrun)
    exact hstart' t
  | cons op ops ih =>
    obtain ⟨s₁, o, os₁, hstep, hrun', -⟩ := Unwinding.run_cons hrun
    refine ih _ s₁ hrun' fun t' => ?_
    obtain ⟨T, hop, rfl⟩ := step_call hstep
    by_cases ht : t' = op.1
    · rw [ht, Function.update_self]
      exact hcall (hstart' op.1) hop
    · rw [Function.update_of_ne ht]
      exact hstart' t'

/-- In a reachable state every ID has a read object. -/
theorem Reachable.served (h : s.Reachable) (t : ShmMediaType) : (s t).Served := by
  apply h.invariant
  · intro pcShm i e he
    cases he
  · exact ShmTables.call_served

theorem step_of_call {T : ShmTables} (h : (s op.1).call op.1 op.2 = some (T, answer)) :
    step s op = some (Function.update s op.1 T, answer) := by
  rw [step, h]
  rfl

/-- An operation that stays is on `b` or of a writer. -/
theorem stays_cases {t : ShmMediaType} {b : ℤ} {c : ShmCall} {t' : ShmMediaType}
    (h : stays t b (t', c)) : (t' = t ∧ c.iID = some b) ∨ ∃ p bytes, c = .write p bytes := by
  cases c with
  | write p bytes => exact .inr ⟨p, bytes, rfl⟩
  | _ =>
    left
    simpa [stays] using h

theorem stays_write (t : ShmMediaType) (b : ℤ) (t' : ShmMediaType) (p : UInt8) (bytes : Mem) :
    stays t b (t', .write p bytes) := by
  simp [stays]

theorem stays_own (t : ShmMediaType) {b : ℤ} {c : ShmCall} (h : c.iID = some b) :
    stays t b (t, c) := by
  simp [stays, h]

/-- The calls on other IDs are ignored by `b`, its own agree. -/
theorem unwinds (t : ShmMediaType) (b : ℤ) :
    Unwinding.Unwinds step (fun op => op ≠ (t, .removeID b)) (fun op => stays t b op) visible
      (fun s s' => ShmTables.AlikeFor b (s t) (s' t)) where
  ignores {s u s' op o} _ hmine halike hstep := by
    obtain ⟨T, hcall, rfl⟩ := step_call hstep
    obtain ⟨t', c⟩ := op
    by_cases ht : t = t'
    · subst ht
      rw [Function.update_self]
      refine halike.other (fun hc => hmine (stays_own t hc)) ?_ hcall
      rintro p bytes rfl
      exact hmine (stays_write t b t p bytes)
    · rwa [Function.update_of_ne ht]
  agrees {s u s' op o} hlegal hmine halike hstep := by
    obtain ⟨T, hcall, rfl⟩ := step_call hstep
    obtain ⟨t', c⟩ := op
    rcases stays_cases hmine with ⟨rfl, hc⟩ | ⟨p, bytes, rfl⟩
    · have hremove : c ≠ .removeID b := by
        rintro rfl
        exact hlegal rfl
      obtain ⟨U, o', hcall', halike', hview⟩ := halike.own hc hremove hcall
      refine ⟨_, o', step_of_call hcall', ?_, hview⟩
      rw [Function.update_self, Function.update_self]
      exact halike'
    · obtain ⟨rfl, rfl⟩ := Prod.mk.inj (Option.some.inj hcall)
      refine ⟨_, _, step_of_call rfl, ?_, rfl⟩
      by_cases ht : t = t'
      · subst ht
        rw [Function.update_self, Function.update_self]
        exact halike.written p bytes
      · rwa [Function.update_of_ne ht, Function.update_of_ne ht]

/-- What the calls on the live reader `b` answer. -/
def seenBy (t : ShmMediaType) (b : ℤ) (answers : List ((ShmMediaType × ShmCall) × ShmAnswer)) :
    List (Option ShmAnswer) :=
  Unwinding.seen (fun op => stays t b op) visible answers

/-- **Readers are isolated.**  While the ID `b` is not removed, its calls answer the same when
the calls on other IDs are left out, all of them or some; and `SHM_InitID` and `SHM_CopyID`
hand out a number that is not taken, or fail and keep every entry. -/
theorem readers_isolated :
    (∀ (s s' : ShmProcess) (t : ShmMediaType) (b : ℤ) (ops : List (ShmMediaType × ShmCall))
        (answers : List ((ShmMediaType × ShmCall) × ShmAnswer)),
      s.Reachable → ((s t).mapShmInfo b).isSome → (∀ op ∈ ops, op ≠ (t, .removeID b)) →
      Unwinding.run step s ops = some (s', answers) →
        (∃ s'' answers', Unwinding.run step s (ops.filter (stays t b)) = some (s'', answers')
          ∧ seenBy t b answers = seenBy t b answers')
        ∧ ∀ ops' s'' answers', ops'.filter (stays t b) = ops.filter (stays t b) →
            Unwinding.run step s ops' = some (s'', answers') →
              seenBy t b answers = seenBy t b answers')
    ∧ ∀ (s : ShmProcess) (t : ShmMediaType) (c : ShmCall),
        ((∃ p attached, c = .initID p attached) ∨ ∃ iID, c = .copyID iID) →
          ∃ T answer, step s (t, c) = some (Function.update s t T, answer)
            ∧ ShmTables.Allocates (s t) T answer := by
  refine ⟨?_, ?_⟩
  · intro s s' t b ops answers hreach hlive hlegal hrun
    obtain ⟨e, he⟩ := Option.isSome_iff_exists.mp hlive
    have hserved := hreach.served t
    -- both runs start from the same tables
    have halike : ShmTables.AlikeFor b (s t) (s t) := ⟨rfl, ⟨e, he, he⟩, hserved, hserved⟩
    obtain ⟨u, alone, hrunAlone, -, hseen⟩ := (unwinds t b).run hlegal halike hrun
    have hfilter : ∀ ops : List (ShmMediaType × ShmCall),
        ops.filter (fun op => decide (stays t b op = true)) = ops.filter (stays t b) := by
      intro ops
      congr 1
      funext op
      exact Bool.decide_coe _
    rw [hfilter] at hrunAlone
    refine ⟨⟨u, alone, hrunAlone, hseen⟩, fun ops' s'' answers' hsame hrun' => ?_⟩
    -- the other run has the same calls on `b`, so it does not remove it either
    have hlegal' : ∀ op ∈ ops', op ≠ (t, .removeID b) := by
      rintro op hop rfl
      have hmem : (t, ShmCall.removeID b) ∈ ops'.filter (stays t b) :=
        List.mem_filter.mpr ⟨hop, stays_own t rfl⟩
      rw [hsame] at hmem
      exact hlegal _ (List.mem_of_mem_filter hmem) rfl
    obtain ⟨u', alone', hrunAlone', -, hseen'⟩ := (unwinds t b).run hlegal' halike hrun'
    rw [hfilter, hsame, hrunAlone] at hrunAlone'
    obtain ⟨-, rfl⟩ := Prod.mk.inj (Option.some.inj hrunAlone')
    exact hseen.trans hseen'.symm
  · rintro s t c (⟨p, attached, rfl⟩ | ⟨iID, rfl⟩)
    · exact ⟨_, _, rfl, ShmTables.initID_allocates (s t) p attached⟩
    · exact ⟨_, _, rfl, ShmTables.copyID_allocates (s t) iID⟩

/-- Two readers of one profile: the calls on the first, a frame of the writer and a copy in
between change nothing for the second. -/
theorem readers_isolated_pair : ∃ s s' answers,
    s.Reachable ∧ ((s .video).mapShmInfo 0).isSome ∧ ((s .video).mapShmInfo 1).isSome
      ∧ Unwinding.run step s [(.video, .distance2Newest 1), (.video, .copyID 0),
          (.video, .write 0 fun _ => 1), (.video, .refresh 0 false 0 fun _ => 0),
          (.video, .removeID 0), (.video, .refresh 1 false 0 fun _ => 0)] = some (s', answers)
      ∧ (∃ s'' answers', Unwinding.run step s [(.video, .distance2Newest 1),
            (.video, .write 0 fun _ => 1), (.video, .refresh 1 false 0 fun _ => 0)]
          = some (s'', answers') ∧ seenBy .video 1 answers = seenBy .video 1 answers')
      ∧ ∃ T answer, step s (.video, .copyID 0) = some (Function.update s .video T, answer)
          ∧ ShmTables.Allocates (s .video) T answer := by
  have hreach : Reachable _ := ⟨fun _ _ _ => 0,
    [(.video, .initID 0 true), (.video, .initID 0 true)], _, rfl⟩
  have hlegal : ∀ op ∈ [(ShmMediaType.video, ShmCall.distance2Newest 1), (.video, .copyID 0),
      (.video, .write 0 fun _ => 1), (.video, .refresh 0 false 0 fun _ => 0),
      (.video, .removeID 0), (.video, .refresh 1 false 0 fun _ => 0)],
      op ≠ (ShmMediaType.video, ShmCall.removeID 1) := by
    clear hreach
    simp
  refine ⟨_, _, _, hreach, rfl, rfl, rfl, ?_, ?_⟩
  · exact (readers_isolated.1 _ _ .video 1 _ _ hreach rfl hlegal rfl).1
  · exact readers_isolated.2 _ .video (.copyID 0) (.inr ⟨0, rfl⟩)

/-- The exception: the number of a copy.  With `0` and `1` live, a copy of `1` is number `3`
after a copy of `0`, and `2` without it. -/
theorem copy_number_coupled : ∃ s : ShmProcess,
    s.Reachable ∧ ((s .video).mapShmInfo 0).isSome ∧ ((s .video).mapShmInfo 1).isSome
      ∧ (Unwinding.run step s [(.video, .copyID 0), (.video, .copyID 1)]).map
          (fun p => (p.2.filter fun q => stays .video 1 q.1).map fun q => q.2.rtn) = some [3]
      ∧ (Unwinding.run step s [(.video, .copyID 1)]).map
          (fun p => (p.2.filter fun q => stays .video 1 q.1).map fun q => q.2.rtn) = some [2] := by
  have hreach : Reachable _ := ⟨fun _ _ _ => 0,
    [(.video, .initID 0 true), (.video, .initID 0 true)], _, rfl⟩
  exact ⟨_, hreach, rfl, rfl, rfl, rfl⟩

end ShmProcess
