/-
# Factory reset (`adapt_param_recovery_param`)

A mask selects modules, and a channel, or all of them; for each selected module the
routine reads an item from the default store and sets it in the current one.  Bits of
modules without an item end the loop, the user array is built from constants, and the mask
of the whole device removes the parameter files and leaves the store alone.

With a single channel the reset is a run of at most one setter a module, on different keys:
`reset_restores_handled`.
-/
import IpCamera.ParamStore
import IpCamera.RiffChunks
import IpCamera.UserLogin

/-! ## The modules -/

/-- `SDK_PARAM_MASK_ID_E` -/
inductive SdkParamMaskId
  | encode | ptz | record | net | channel | imageAttr | serial | overlay | motion | comm | osd
  | user | alarmIn | hide | videoLost | tv | preview | tour
  deriving DecidableEq, Repr

namespace SdkParamMaskId

/-- The modules in the order of the loop. -/
def all : List SdkParamMaskId :=
  [encode, ptz, record, net, channel, imageAttr, serial, overlay, motion, comm, osd, user,
    alarmIn, hide, videoLost, tv, preview, tour]

/-- The items of a module. -/
def items : SdkParamMaskId → List ParamItem
  | encode => [.encodeCfg]
  | ptz => [.ptzCfg]
  | record => [.recordCfg]
  | net => [.netMngCfg]
  | imageAttr => [.imageAttr]
  | serial => [.serialCfg]
  | overlay => [.overlayCfg]
  | motion => [.motionCfg]
  | osd => [.osdCfg]
  | user => [.userArray]
  | alarmIn => [.alarmInCfg]
  | hide => [.hideCfg]
  | videoLost => [.lostCfg]
  | channel | comm | tv | preview | tour => []

/-- The modules that have a `case` in the switch. -/
def hasCase : SdkParamMaskId → Bool
  | channel | comm | tv | preview | tour => false
  | _ => true

/-- Bit `i` of the mask. -/
def Selected (paramMask : ℕ) (i : SdkParamMaskId) : Prop := (paramMask >>> i.ctorIdx) &&& 1 = 1

instance (paramMask : ℕ) (i : SdkParamMaskId) : Decidable (i.Selected paramMask) :=
  inferInstanceAs (Decidable (_ = _))

end SdkParamMaskId

/-! ## The routine -/

/-- `CHANN_TYPE_ALL` -/
def channTypeAll : ℕ := 0xFA
/-- `PARAM_MASK_ALL` -/
def paramMaskAll : ℕ := 0xFFFF

/-- `adapt_param_get_chnum` -/
def adaptParamGetChnum : ℕ := 0

/-- The 31 rights of the administrator. -/
def rootRight : ℕ := (List.range 31).foldl (fun right i => right ||| 1 <<< i) 0

/-- The `user_array` the routine sets.  The two arrays of channel rights have `MAX_CHANN_NUM`
entries, but 31 are stored to each. -/
def resetUserArray : List UInt8 :=
  let m : Mem := fun _ => 0
  let m := memcpy m (userName 0) (listMem admin) admin.length
  let m := memcpy m (userPwd 0) (listMem admin) admin.length
  let m := store32 m (maxUserNameLen + maxPasswdLen) rootRight
  let m := store32 m (maxUserNameLen + maxPasswdLen + 4) rootRight
  let m := memset m (maxUserNameLen + maxPasswdLen + 8) 1 31
  let m := memset m (maxUserNameLen + maxPasswdLen + 10) 1 31
  loadBytes m 0 sizeofUserArray

section Reset

-- the sizes of the parameter structures, the default store, and the channel asked for
variable (size : ParamItem → ℕ) (dflt : ParamStore) (chDef : ℕ)

/-- The structure a getter fills in, after `memset`. -/
def zeroed (item : ParamItem) : List UInt8 := List.replicate (size item) 0

/-- `adapt_param_get_def_x(defCh, &cfg)` and `adapt_param_set_x(ch, &cfg)`. -/
def resetItem (cur : ParamStore) (item : ParamItem) (defCh ch : ℕ) : ParamStore :=
  (adaptParamSet cur item ch (adaptParamGet dflt item defCh (zeroed size item)).1).1

/-- The block of a module with a parameter a channel.  `defCh` is the channel of the default store
in the loop over all channels. -/
def resetChannels (cur : ParamStore) (item : ParamItem) (defCh : ℕ → ℕ) : ParamStore :=
  if chDef = channTypeAll then
    (List.range adaptParamGetChnum).foldl (fun s ch => resetItem size dflt s item (defCh ch) ch) cur
  else resetItem size dflt cur item chDef chDef

/-- The switch: the store after the block of the module, or the error of the default branch. -/
def resetModule (cur : ParamStore) : SdkParamMaskId → Option ParamStore
  | .encode => some (resetChannels size dflt chDef cur .encodeCfg id)
  | .ptz => some (resetChannels size dflt chDef cur .ptzCfg id)
  -- the defaults of channel 0 for every channel
  | .record => some (resetChannels size dflt chDef cur .recordCfg fun _ => 0)
  | .net => some (resetItem size dflt cur .netMngCfg 0 0)
  | .serial => some (resetChannels size dflt chDef cur .serialCfg id)
  -- the block is under `#if 0`
  | .imageAttr => some cur
  | .overlay => some (resetChannels size dflt chDef cur .overlayCfg id)
  | .motion => some (resetChannels size dflt chDef cur .motionCfg id)
  | .osd => some (resetChannels size dflt chDef cur .osdCfg id)
  | .user => some (adaptParamSet cur .userArray 0 resetUserArray).1
  | .alarmIn => some (resetChannels size dflt chDef cur .alarmInCfg id)
  | .hide => some (resetChannels size dflt chDef cur .hideCfg id)
  | .videoLost => some (resetChannels size dflt chDef cur .lostCfg id)
  | .channel | .comm | .tv | .preview | .tour => none

/-- The loop over the bits of the mask. -/
def resetModules (paramMask : ℕ) : List SdkParamMaskId → ParamStore → ParamStore × ℤ
  | [], cur => (cur, 0)
  | i :: is, cur =>
      if i.Selected paramMask then
        match resetModule size dflt chDef cur i with
        | some cur => resetModules paramMask is cur
        | none => (cur, -1)
      else resetModules paramMask is cur

/-- `adapt_param_recovery_param`: the store afterwards, and the return value.  The mask of the whole
device only removes the parameter files; they are copied from the defaults at the next start. -/
def adaptParamRecoveryParam (cur : ParamStore) (paramMask : ℕ) : ParamStore × ℤ :=
  if paramMask = paramMaskAll then (cur, 0)
  else resetModules size dflt chDef paramMask SdkParamMaskId.all cur

/-- The channel is selected, on a device with `chnum` channels. -/
def ChannelSelected (chnum : ℕ) (ch : ℕ) : Prop :=
  if chDef = channTypeAll then ch < chnum else ch = chDef

/-- Every item of a selected module reads, for every selected channel, as it does in the default
store, and every item of a module not selected reads as before. -/
structure ResetExact (chnum : ℕ) (cur : ParamStore) (paramMask : ℕ) : Prop where
  restored : ∀ i : SdkParamMaskId, i.Selected paramMask → ∀ item ∈ i.items, ∀ ch,
    ChannelSelected chDef chnum ch →
      adaptParamGet (adaptParamRecoveryParam size dflt chDef cur paramMask).1 item ch
        (zeroed size item) = adaptParamGet dflt item ch (zeroed size item)
  kept : ∀ i : SdkParamMaskId, ¬ i.Selected paramMask → ∀ item ∈ i.items, ∀ ch : ℕ,
    adaptParamGet (adaptParamRecoveryParam size dflt chDef cur paramMask).1 item ch
      (zeroed size item) = adaptParamGet cur item ch (zeroed size item)

end Reset

/-! ## A single channel -/

namespace SdkParamMaskId

theorem mem_all (i : SdkParamMaskId) : i ∈ all := by
  cases i <;> simp [all]

/-- The loop reaches module `i`: no module without a case is selected before it, or is it. -/
def Reached (paramMask : ℕ) (i : SdkParamMaskId) : Prop :=
  ∀ j : SdkParamMaskId, j.hasCase = false → j.Selected paramMask → i.ctorIdx < j.ctorIdx

/-- The block of module `i` is run. -/
def Done (paramMask : ℕ) (i : SdkParamMaskId) : Prop := i.Selected paramMask ∧ i.Reached paramMask

/-- The module an item belongs to. -/
def ofItem : ParamItem → SdkParamMaskId
  | .encodeCfg => encode
  | .ptzCfg => ptz
  | .recordCfg => record
  | .netMngCfg => net
  | .imageAttr => imageAttr
  | .serialCfg => serial
  | .overlayCfg => overlay
  | .motionCfg => motion
  | .osdCfg => osd
  | .userArray => user
  | .alarmInCfg => alarmIn
  | .hideCfg => hide
  | .lostCfg => videoLost
  | _ => tour

theorem ofItem_record {i : SdkParamMaskId} {item : ParamItem} (h : item ∈ i.items) :
    ofItem item.record = i := by
  cases i <;> simp only [items, List.mem_singleton, List.not_mem_nil] at h <;> subst h <;> rfl

/-- No call for the items of the modules is refused. -/
theorem chan_of_mem {i : SdkParamMaskId} {item : ParamItem} (h : item ∈ i.items) {ch : ℕ}
    (hch : ch < 256) : ∃ c : ℤ, item.chan ch = some c ∧ 0 ≤ c ∧ c < 256 := by
  cases i <;> simp only [items, List.mem_singleton, List.not_mem_nil] at h <;> subst h <;>
    simp only [ParamItem.chan, Option.some.injEq, exists_eq_left'] <;> omega

/-- Items of different modules have different keys. -/
theorem key_injective {i j : SdkParamMaskId} {item item' : ParamItem} (hi : item ∈ i.items)
    (hj : item' ∈ j.items) {ch ch' : ℕ} (hch : ch < 256) (hch' : ch' < 256)
    (hkey : item.key ch = item'.key ch') : i = j := by
  obtain ⟨c, hc, hc0, hc1⟩ := chan_of_mem hi hch
  obtain ⟨c', hc', hc0', hc1'⟩ := chan_of_mem hj hch'
  rw [ParamItem.key, ParamItem.key, hc, hc', Option.map_some, Option.map_some,
    Option.some.injEq, paramKey_eq_iff item item' hc0 hc1 hc0' hc1'] at hkey
  rw [← ofItem_record hi, hkey.1, ofItem_record hj]

end SdkParamMaskId

section Single

variable (size : ParamItem → ℕ) (dflt : ParamStore) (chDef : ℕ)

/-- The setter call of a module's block, for a single channel. -/
def restoreCall (i : SdkParamMaskId) : Option SetCall :=
  if i = .imageAttr then none
  else i.items.head?.map fun item =>
    ⟨item, chDef,
      if i = .user then resetUserArray
      else (adaptParamGet dflt item chDef (zeroed size item)).1⟩

/-- The setter calls of the loop. -/
def restoreCalls (paramMask : ℕ) : List SdkParamMaskId → List SetCall
  | [] => []
  | i :: is =>
      if i.Selected paramMask then
        if i.hasCase then (restoreCall size dflt chDef i).toList ++ restoreCalls paramMask is
        else []
      else restoreCalls paramMask is

variable {chDef}

theorem resetChannels_single (hsingle : chDef ≠ channTypeAll) (cur : ParamStore)
    (item : ParamItem) (defCh : ℕ → ℕ) :
    resetChannels size dflt chDef cur item defCh = resetItem size dflt cur item chDef chDef :=
  if_neg hsingle

theorem applyAll_toList (cur : ParamStore) (c : SetCall) :
    SetCall.applyAll cur (some c).toList = (adaptParamSet cur c.item c.ch c.param).1 := rfl

/-- The pair of the user array takes no channel. -/
theorem adaptParamSet_user (cur : ParamStore) (ch : ℤ) (param : List UInt8) :
    adaptParamSet cur .userArray ch param = adaptParamSet cur .userArray 0 param := rfl

/-- The block of a module makes its call. -/
theorem resetModule_single (hsingle : chDef ≠ channTypeAll) (cur : ParamStore)
    (i : SdkParamMaskId) :
    resetModule size dflt chDef cur i
      = if i.hasCase then some (SetCall.applyAll cur (restoreCall size dflt chDef i).toList)
        else none := by
  cases i <;> simp only [resetModule, resetChannels_single size dflt hsingle, restoreCall,
    SdkParamMaskId.items, SdkParamMaskId.hasCase, List.head?_cons, Option.map_some,
    reduceCtorEq, if_false, if_true, applyAll_toList, adaptParamSet_user] <;> rfl

theorem resetModules_single (hsingle : chDef ≠ channTypeAll) (paramMask : ℕ)
    (is : List SdkParamMaskId) (cur : ParamStore) :
    (resetModules size dflt chDef paramMask is cur).1
      = SetCall.applyAll cur (restoreCalls size dflt chDef paramMask is) := by
  induction is generalizing cur with
  | nil => rfl
  | cons i is ih =>
    unfold resetModules restoreCalls
    by_cases hi : i.Selected paramMask
    · rw [if_pos hi, if_pos hi, resetModule_single size dflt hsingle]
      cases hcase : i.hasCase with
      | false => rfl
      | true =>
        rw [if_pos rfl, if_pos rfl]
        dsimp only
        rw [ih, SetCall.applyAll, SetCall.applyAll, SetCall.applyAll, List.foldl_append]
    · rw [if_neg hi, if_neg hi, ih]

/-- The return value tells whether a module without a case is selected. -/
theorem resetModules_ret (paramMask : ℕ) (is : List SdkParamMaskId) (cur : ParamStore) :
    (resetModules size dflt chDef paramMask is cur).2
      = if ∃ j ∈ is, j.hasCase = false ∧ j.Selected paramMask then -1 else 0 := by
  induction is generalizing cur with
  | nil => simp [resetModules]
  | cons i is ih =>
    unfold resetModules
    by_cases hi : i.Selected paramMask
    · rw [if_pos hi]
      cases hcase : i.hasCase with
      | false =>
        have hnone : resetModule size dflt chDef cur i = none := by
          cases i <;> simp [SdkParamMaskId.hasCase] at hcase <;> rfl
        rw [hnone, if_pos ⟨i, List.mem_cons_self, hcase, hi⟩]
      | true =>
        obtain ⟨cur', hcur'⟩ : ∃ cur', resetModule size dflt chDef cur i = some cur' := by
          cases i <;> simp [SdkParamMaskId.hasCase] at hcase <;> exact ⟨_, rfl⟩
        rw [hcur']
        simp [ih, hcase]
    · rw [if_neg hi, ih]
      simp [hi]

/-- A module that does not leave the loop puts no condition on those before it. -/
theorem reached_cons {paramMask : ℕ} {i : SdkParamMaskId} {is : List SdkParamMaskId}
    (hi : ¬ (i.hasCase = false ∧ i.Selected paramMask)) (P : SdkParamMaskId → Prop) :
    (∀ l ∈ i :: is, l.hasCase = false → l.Selected paramMask → P l)
      ↔ ∀ l ∈ is, l.hasCase = false → l.Selected paramMask → P l := by
  rw [List.forall_mem_cons]
  exact and_iff_right fun hcase hsel => absurd ⟨hcase, hsel⟩ hi

/-- The calls are those of the modules reached. -/
theorem mem_restoreCalls {paramMask : ℕ} {c : SetCall} (is : List SdkParamMaskId)
    (hsorted : is.Pairwise fun i j => i.ctorIdx < j.ctorIdx) :
    c ∈ restoreCalls size dflt chDef paramMask is ↔
      ∃ i ∈ is, i.Selected paramMask ∧ restoreCall size dflt chDef i = some c
        ∧ ∀ j ∈ is, j.hasCase = false → j.Selected paramMask → i.ctorIdx < j.ctorIdx := by
  induction is with
  | nil => simp [restoreCalls]
  | cons i is ih =>
    obtain ⟨hlt, hsorted'⟩ := List.pairwise_cons.mp hsorted
    specialize ih hsorted'
    unfold restoreCalls
    rw [List.exists_mem_cons_iff]
    by_cases hi : i.Selected paramMask
    · rw [if_pos hi]
      cases hcase : i.hasCase with
      | false =>
        -- the default branch: every later module stands behind a module without a case
        rw [if_neg (by simp)]
        refine ⟨fun h => absurd h List.not_mem_nil, ?_⟩
        rintro (⟨-, -, hbefore⟩ | ⟨j, hj, -, -, hbefore⟩)
        · exact absurd (hbefore i List.mem_cons_self hcase hi) (Nat.lt_irrefl _)
        · have hji := hbefore i List.mem_cons_self hcase hi
          exact absurd hji (Nat.lt_asymm (hlt j hj))
      | true =>
        have hstay : ¬ (i.hasCase = false ∧ i.Selected paramMask) := by
          simp [hcase]
        simp only [reached_cons hstay]
        rw [if_pos trivial, List.mem_append, ih]
        refine or_congr ?_ Iff.rfl
        -- the later modules all have a greater place
        have hlater : ∀ j ∈ is, j.hasCase = false → j.Selected paramMask → i.ctorIdx < j.ctorIdx :=
          fun j hj _ _ => hlt j hj
        rw [and_iff_right hi, and_iff_left hlater]
        simp
    · have hstay : ¬ (i.hasCase = false ∧ i.Selected paramMask) := fun h => hi h.2
      simp only [reached_cons hstay]
      rw [if_neg hi, ih]
      exact (or_iff_right fun h => hi h.1).symm

end Single

/-! ## What a reset does -/

/-- The record of the administrator: name and password `admin`, all rights, on both channels. -/
def rootRecord : List UInt8 :=
  admin ++ List.replicate 27 0 ++ admin ++ List.replicate 27 0
    ++ [255, 255, 255, 127] ++ [255, 255, 255, 127] ++ [1, 1, 1, 1]

theorem resetUserArray_take : resetUserArray.take sizeofUserRight = rootRecord := by
  rw [resetUserArray, loadBytes, ← List.map_take, List.take_range]
  rfl

section Exact

variable (size : ParamItem → ℕ) (dflt cur : ParamStore) (chDef paramMask : ℕ)

/-- The reset of a module mask, for a single channel: every item the loop reaches reads as it does in
the default store, the users are the administrator (and whatever lies behind it), every other key
keeps its value, and -1 says that a module without a case was selected. -/
structure ResetHandled : Prop where
  restored : ∀ i : SdkParamMaskId, i.Done paramMask → i ≠ .imageAttr → i ≠ .user →
    ∀ item ∈ i.items,
      adaptParamGet (adaptParamRecoveryParam size dflt chDef cur paramMask).1 item chDef
        (zeroed size item) = adaptParamGet dflt item chDef (zeroed size item)
  users : SdkParamMaskId.user.Done paramMask → ∃ bytes,
    (adaptParamRecoveryParam size dflt chDef cur paramMask).1 (paramKey .user 0) = some bytes
      ∧ bytes.take sizeofUserRight = rootRecord
  unselected : ∀ i : SdkParamMaskId, ¬ i.Selected paramMask → ∀ item ∈ i.items, ∀ ch : ℕ,
    ch < 256 → ∀ param,
      adaptParamGet (adaptParamRecoveryParam size dflt chDef cur paramMask).1 item ch param
        = adaptParamGet cur item ch param
  kept : ∀ k, (∀ i : SdkParamMaskId, i.Done paramMask → i ≠ .imageAttr → ∀ item ∈ i.items,
    item.key chDef ≠ some k) →
      (adaptParamRecoveryParam size dflt chDef cur paramMask).1 k = cur k
  failed : (adaptParamRecoveryParam size dflt chDef cur paramMask).2 = -1
    ↔ ∃ j : SdkParamMaskId, j.hasCase = false ∧ j.Selected paramMask
  succeeded : (adaptParamRecoveryParam size dflt chDef cur paramMask).2 ≠ -1 →
    (adaptParamRecoveryParam size dflt chDef cur paramMask).2 = 0

variable {size dflt cur chDef paramMask}

theorem copyOut_length (bytes param : List UInt8) : (copyOut bytes param).length = param.length := by
  rw [copyOut, List.length_append, List.length_take, List.length_drop]
  omega

theorem adaptParamGet_length (s : ParamStore) (item : ParamItem) (ch : ℤ) (param : List UInt8) :
    (adaptParamGet s item ch param).1.length = param.length := by
  unfold adaptParamGet sdkParamGet
  cases item.key ch with
  | none => rfl
  | some id =>
    cases hs : s id with
    | none => simp [hs]
    | some bytes => simp [hs, copyOut_length]

/-- The call of a module sets its item. -/
theorem restoreCall_spec {i : SdkParamMaskId} {c : SetCall}
    (h : restoreCall size dflt chDef i = some c) :
    i ≠ .imageAttr ∧ c.item ∈ i.items ∧ c.ch = chDef
      ∧ c.param = if i = .user then resetUserArray
          else (adaptParamGet dflt c.item chDef (zeroed size c.item)).1 := by
  unfold restoreCall at h
  by_cases hi : i = .imageAttr
  · rw [if_pos hi] at h
    cases h
  · rw [if_neg hi] at h
    obtain ⟨item, hitem, rfl⟩ := Option.map_eq_some_iff.mp h
    exact ⟨hi, List.mem_of_head? hitem, rfl, rfl⟩

/-- Each module but the disabled one has a call for its item. -/
theorem exists_restoreCall {i : SdkParamMaskId} (hi : i ≠ .imageAttr) {item : ParamItem}
    (hitem : item ∈ i.items) : ∃ c, restoreCall size dflt chDef i = some c ∧ c.item = item := by
  unfold restoreCall
  rw [if_neg hi]
  cases i <;> simp only [SdkParamMaskId.items, List.mem_singleton, List.not_mem_nil] at hitem <;>
    subst hitem <;> exact ⟨_, rfl, rfl⟩

theorem mem_restoreCalls_all {c : SetCall} :
    c ∈ restoreCalls size dflt chDef paramMask SdkParamMaskId.all ↔
      ∃ i : SdkParamMaskId, i.Done paramMask ∧ restoreCall size dflt chDef i = some c := by
  rw [mem_restoreCalls size dflt _ (by decide)]
  constructor
  · rintro ⟨i, -, hsel, hc, hbefore⟩
    exact ⟨i, ⟨hsel, fun j => hbefore j j.mem_all⟩, hc⟩
  · rintro ⟨i, ⟨hsel, hreached⟩, hc⟩
    exact ⟨i, i.mem_all, hsel, hc, fun j _ => hreached j⟩

/-- The key of a call made is that of its module's item. -/
theorem done_of_mem {c : SetCall}
    (hc : c ∈ restoreCalls size dflt chDef paramMask SdkParamMaskId.all) :
    ∃ i : SdkParamMaskId, i.Done paramMask ∧ restoreCall size dflt chDef i = some c
      ∧ i ≠ .imageAttr ∧ c.item ∈ i.items ∧ c.key = c.item.key chDef := by
  obtain ⟨i, hdone, hcall⟩ := mem_restoreCalls_all.mp hc
  obtain ⟨hi, hitem, hch, -⟩ := restoreCall_spec hcall
  exact ⟨i, hdone, hcall, hi, hitem, by rw [SetCall.key, hch]⟩

theorem recoveryParam_run (hmask : paramMask ≠ paramMaskAll) (hsingle : chDef ≠ channTypeAll) :
    (adaptParamRecoveryParam size dflt chDef cur paramMask).1
      = KeyStore.run SetCall.key (fun c => some c.param) cur
          (restoreCalls size dflt chDef paramMask SdkParamMaskId.all) := by
  rw [adaptParamRecoveryParam, if_neg hmask, resetModules_single size dflt hsingle,
    SetCall.applyAll_eq]

/-- The key of an item reached holds what the call of its module has set. -/
theorem recoveryParam_reached (hmask : paramMask ≠ paramMaskAll) (hsingle : chDef ≠ channTypeAll)
    (hch : chDef < 256) {i : SdkParamMaskId} (hdone : i.Done paramMask) (hi : i ≠ .imageAttr)
    {item : ParamItem} (hitem : item ∈ i.items) {k : ℕ} (hk : item.key chDef = some k) :
    (adaptParamRecoveryParam size dflt chDef cur paramMask).1 k
      = some (if i = .user then resetUserArray
          else (adaptParamGet dflt item chDef (zeroed size item)).1) := by
  obtain ⟨c, hc, rfl⟩ := @exists_restoreCall size dflt chDef i hi item hitem
  obtain ⟨-, -, hcch, hparam⟩ := restoreCall_spec hc
  have hckey : c.key = some k := by rw [SetCall.key, hcch, hk]
  rw [recoveryParam_run hmask hsingle,
    KeyStore.run_of_mem SetCall.key _ (mem_restoreCalls_all.mpr ⟨i, hdone, hc⟩) hckey, hparam]
  intro d hd hdk
  obtain ⟨j, -, hdcall, -, hditem, hdkey⟩ := done_of_mem hd
  -- the module of another call with this key is the same
  have hij : j = i := by
    apply SdkParamMaskId.key_injective hditem hitem hch hch
    rw [← hdkey, hdk, hk]
  rw [hij, hc] at hdcall
  rw [Option.some.inj hdcall]

/-- A key of no item reached keeps its value. -/
theorem recoveryParam_kept (hmask : paramMask ≠ paramMaskAll) (hsingle : chDef ≠ channTypeAll)
    {k : ℕ} (hk : ∀ i : SdkParamMaskId, i.Done paramMask → i ≠ .imageAttr → ∀ item ∈ i.items,
      item.key chDef ≠ some k) :
    (adaptParamRecoveryParam size dflt chDef cur paramMask).1 k = cur k := by
  rw [recoveryParam_run hmask hsingle]
  apply KeyStore.run_of_forall_ne
  intro c hc
  obtain ⟨i, hdone, -, hi, hitem, hkey⟩ := done_of_mem hc
  rw [hkey]
  exact hk i hdone hi c.item hitem

theorem resetHandled (hmask : paramMask ≠ paramMaskAll) (hsingle : chDef ≠ channTypeAll)
    (hch : chDef < 256) : ResetHandled size dflt cur chDef paramMask where
  restored i hdone hi hu item hitem := by
    obtain ⟨c, hc, -, -⟩ := SdkParamMaskId.chan_of_mem hitem hch
    have hk : item.key chDef = some (paramKey item.msgId c) := by rw [ParamItem.key, hc]; rfl
    have hstored := @recoveryParam_reached size dflt cur chDef paramMask hmask hsingle hch i hdone
      hi item hitem _ hk
    rw [if_neg hu] at hstored
    have hlen : (adaptParamGet dflt item chDef (zeroed size item)).1.length
        = (zeroed size item).length := adaptParamGet_length ..
    have hret : (adaptParamGet dflt item chDef (zeroed size item)).2 = 0 := by
      rw [adaptParamGet, hk]
    rw [Prod.ext_iff, hret]
    constructor
    · rw [adaptParamGet, hk]
      dsimp only
      rw [sdkParamGet, hstored]
      exact copyOut_of_length hlen
    · rw [adaptParamGet, hk]
  users hdone := by
    have hstored := @recoveryParam_reached size dflt cur chDef paramMask hmask hsingle hch .user
      hdone (by decide) _ (List.mem_singleton_self ParamItem.userArray) (paramKey .user 0) rfl
    exact ⟨_, hstored, resetUserArray_take⟩
  unselected i hi item hitem ch hch' param := by
    obtain ⟨c, hc, -, -⟩ := SdkParamMaskId.chan_of_mem hitem hch'
    have hk : item.key ch = some (paramKey item.msgId c) := by rw [ParamItem.key, hc]; rfl
    have hkept := @recoveryParam_kept size dflt cur chDef paramMask hmask hsingle
      (paramKey item.msgId c)
    rw [adaptParamGet, adaptParamGet, hk]
    dsimp only
    rw [sdkParamGet, sdkParamGet, hkept]
    intro j hdone _ item' hitem' hkey
    obtain rfl := SdkParamMaskId.key_injective hitem' hitem hch hch' (hkey.trans hk.symm)
    exact hi hdone.1
  kept k hk := recoveryParam_kept hmask hsingle hk
  failed := by
    rw [adaptParamRecoveryParam, if_neg hmask, resetModules_ret]
    simp [SdkParamMaskId.mem_all]
  succeeded h := by
    rw [adaptParamRecoveryParam, if_neg hmask, resetModules_ret] at h ⊢
    split at h
    · exact absurd rfl h
    · rename_i hno
      exact if_neg hno

end Exact

/-- A reset with a single channel does what the modules it reaches ask for; the mask of the whole
device leaves the store as it is. -/
theorem reset_restores_handled (size : ParamItem → ℕ) (dflt cur : ParamStore)
    (chDef paramMask : ℕ) (hsingle : chDef ≠ channTypeAll) (hch : chDef < 256) :
    (paramMask = paramMaskAll → adaptParamRecoveryParam size dflt chDef cur paramMask = (cur, 0))
      ∧ (paramMask ≠ paramMaskAll → ResetHandled size dflt cur chDef paramMask) := by
  constructor
  · intro hmask
    rw [adaptParamRecoveryParam, if_pos hmask]
  · intro hmask
    exact resetHandled hmask hsingle hch

/-- The encoder and record parameters of channel 0. -/
theorem reset_restores_encode_record :
    ResetHandled (fun _ => 4) (fun _ => some [1, 2, 3, 4]) (fun _ => none) 0 5 :=
  (reset_restores_handled (fun _ => 4) (fun _ => some [1, 2, 3, 4]) (fun _ => none) 0 5
    (by decide) (by decide)).2 (by decide)

/-- The mask of the whole device restores no item: the files are removed for the next start. -/
theorem reset_all_later :
    ¬ ResetExact (fun _ => 1) (fun _ => some [1]) 0 1 (fun _ => some [2]) paramMaskAll := by
  intro h
  have hencode := h.restored .encode (by decide) .encodeCfg (List.mem_singleton_self _) 0 rfl
  exact absurd hencode (by decide)
