/-
# The parameter store (`adapt_param.c`)

Every parameter is stored under a 32-bit key made of a message number and a channel, and
each of the getter/setter pairs names its number by hand.  The store itself is a map from
keys to bytes.

`items_independent_iff` says when the pairs keep out of each other's way, and
`paramKey_eq_iff` which pairs share a key.
-/
import IpCamera.KeyStore
import Mathlib.Tactic

/-! ## Keys -/

/-- `SDK_MAIN_MSG_ID_E`; the numbers follow the order. -/
inductive SdkMainMsgId
  | keeplive | version | sysCfg | status | paramDefault | cloudId
  | wifiSearch | log | netMngCfg | ptzCfg | ptzControl
  | baiduInfo | wifiParamCfg | closeSystem | encodeCfg | recordCfg | recordQuery | motionCfg
  | alarmInCfg | hideCfg | lostCfg
  | osdCfg | audioControl | snapControl | systime | netLinkCfg
  | user | commCfg | overlayCfg | disk | serialCfg | imageAttrCfg | tvCfg | notify | devlist
  | manualRec | manualAlmin | manualAlmout | recordBackup | platformCfg | changeRemoteIp
  | ddnsCfg | capability | upnpCfg | screenCfg | cruiseCtl | presetSet | previewTour
  | attrCfg3a | upgrad | schedCfg | regionalCfg | iodevParam | audioDetectCfg
  | mirrorFlipCfg | powerFreqCfg | stopServer | aws
  deriving DecidableEq, Repr

/-- `(id << 8)|(ch)`, passed on as a `uint32_t`. -/
def paramKey (id : SdkMainMsgId) (ch : ℤ) : ℕ := (id.ctorIdx <<< 8) ||| (ch % 4294967296).toNat

/-! ## The pairs -/

/-- A pair `adapt_param_get_x` and `adapt_param_set_x`. -/
inductive ParamItem
  | sysCfg | baiduCfg | userArray | alarmInCfg | motionCfg | lostCfg | hideCfg | recordCfg
  | encodeCfg | netMngCfg | platformCfg | ptzCfg | osdCfg | overlayCfg | serialCfg | imageAttr
  | manualRecCfg | manualAlminCfg | manualAlmoutCfg | ddnsCfg | ethCfg | pppoeCfg | wifiCfg
  | cfg3g | ipInfo | presetCfg | schedParam | regionalParam | iodevParam | audioDetectParam
  | mirrorParamParam | powerFreqParam | systime | awsCfg
  deriving DecidableEq, Repr

namespace ParamItem

/-- The message number both functions of the pair name. -/
def msgId : ParamItem → SdkMainMsgId
  | sysCfg => .sysCfg
  | baiduCfg => .baiduInfo
  | userArray => .user
  | alarmInCfg => .alarmInCfg
  | motionCfg => .motionCfg
  | lostCfg => .lostCfg
  | hideCfg => .hideCfg
  | recordCfg => .recordCfg
  | encodeCfg => .encodeCfg
  | netMngCfg => .netMngCfg
  | platformCfg => .platformCfg
  | ptzCfg => .ptzCfg
  | osdCfg => .osdCfg
  | overlayCfg => .overlayCfg
  | serialCfg => .serialCfg
  | imageAttr => .imageAttrCfg
  | manualRecCfg => .manualRec
  | manualAlminCfg => .manualAlmin
  | manualAlmoutCfg => .manualAlmout
  | ddnsCfg => .ddnsCfg
  | ethCfg | pppoeCfg | cfg3g | ipInfo => .netLinkCfg
  | wifiCfg => .wifiParamCfg
  | presetCfg => .presetSet
  | schedParam => .schedCfg
  -- both pairs name `SDK_MAIN_MSG_REGIONAL_CFG`; nothing uses `SDK_MAIN_MSG_IODEV_PARAM`
  | regionalParam | iodevParam => .regionalCfg
  | audioDetectParam => .audioDetectCfg
  | mirrorParamParam => .mirrorFlipCfg
  | powerFreqParam => .powerFreqCfg
  | systime => .systime
  | awsCfg => .aws

/-- `SDK_NET_IDX_BUTT` -/
def sdkNetIdxButt : ℤ := 8

/-- The channel in the key: the argument `ch`; the argument `idx`, refused by `CHECK_NET_IDX` if it
is no interface; or 0 where the pair takes no channel. -/
def chan (ch : ℤ) : ParamItem → Option ℤ
  | alarmInCfg | motionCfg | lostCfg | hideCfg | recordCfg | encodeCfg | ptzCfg | osdCfg
  | overlayCfg | serialCfg | imageAttr | presetCfg => some ch
  | pppoeCfg | cfg3g | ipInfo => if ch < 0 ∨ sdkNetIdxButt ≤ ch then none else some ch
  | sysCfg | baiduCfg | userArray | netMngCfg | platformCfg | manualRecCfg | manualAlminCfg
  | manualAlmoutCfg | ddnsCfg | ethCfg | wifiCfg | schedParam | regionalParam | iodevParam
  | audioDetectParam | mirrorParamParam | powerFreqParam | systime | awsCfg => some 0

/-- The key of the pair, if the call is not refused. -/
def key (item : ParamItem) (ch : ℤ) : Option ℕ := (item.chan ch).map (paramKey item.msgId)

end ParamItem

/-! ## The store -/

/-- What `param_handle`, or `default_param_handle`, stands for. -/
abbrev ParamStore := ℕ → Option (List UInt8)

/-- The stored bytes copied to `*param`, as many as fit. -/
def copyOut (bytes param : List UInt8) : List UInt8 :=
  bytes.take param.length ++ param.drop bytes.length

/-- `sdk_param_get` of `param.length` bytes: what is stored under the key, if anything is. -/
def sdkParamGet (s : ParamStore) (id : ℕ) (param : List UInt8) : List UInt8 :=
  match s id with
  | some bytes => copyOut bytes param
  | none => param

/-- `sdk_param_set` of the bytes of `*param`. -/
def sdkParamSet (s : ParamStore) (id : ℕ) (param : List UInt8) : ParamStore :=
  Function.update s id (some param)

/-- `adapt_param_get_x(ch, param)`: what it leaves in `*param`, and its return value. -/
def adaptParamGet (s : ParamStore) (item : ParamItem) (ch : ℤ) (param : List UInt8) :
    List UInt8 × ℤ :=
  match item.key ch with
  | some id => (sdkParamGet s id param, 0)
  | none => (param, -1)

/-- `adapt_param_set_x(ch, param)`, and its return value. -/
def adaptParamSet (s : ParamStore) (item : ParamItem) (ch : ℤ) (param : List UInt8) :
    ParamStore × ℤ :=
  match item.key ch with
  | some id => (sdkParamSet s id param, 0)
  | none => (s, -1)

/-! ## Runs of setters -/

/-- A call of a setter. -/
structure SetCall where
  item : ParamItem
  ch : ℤ
  param : List UInt8
  deriving DecidableEq, Repr

namespace SetCall

/-- The key the call writes. -/
def key (c : SetCall) : Option ℕ := c.item.key c.ch

/-- The store after the call. -/
def apply (s : ParamStore) (c : SetCall) : ParamStore := (adaptParamSet s c.item c.ch c.param).1

/-- The store after the calls. -/
def applyAll (s : ParamStore) (cs : List SetCall) : ParamStore := cs.foldl apply s

/-- A successful call of the setter of this item and channel. -/
def Of (item : ParamItem) (ch : ℤ) (c : SetCall) : Prop :=
  c.item = item ∧ c.item.chan c.ch = item.chan ch ∧ c.key.isSome

instance (item : ParamItem) (ch : ℤ) (c : SetCall) : Decidable (c.Of item ch) :=
  inferInstanceAs (Decidable (_ ∧ _ ∧ _))

end SetCall

/-- What the getter should return: the value of the latest successful setter of the same item and
channel, or what it returned before. -/
def expectedGet (s : ParamStore) (cs : List SetCall) (item : ParamItem) (ch : ℤ)
    (param : List UInt8) : List UInt8 × ℤ :=
  match KeyStore.latest (fun c => decide (c.Of item ch)) cs with
  | some c => (c.param, 0)
  | none => adaptParamGet s item ch param

theorem SetCall.apply_eq (s : ParamStore) (c : SetCall) :
    c.apply s = KeyStore.put SetCall.key (fun c => some c.param) s c := by
  unfold SetCall.apply adaptParamSet KeyStore.put SetCall.key
  cases c.item.key c.ch <;> rfl

theorem SetCall.applyAll_eq (s : ParamStore) (cs : List SetCall) :
    SetCall.applyAll s cs = KeyStore.run SetCall.key (fun c => some c.param) s cs := by
  unfold SetCall.applyAll KeyStore.run
  congr 1
  funext s c
  exact c.apply_eq s

/-! ## Which pairs share a key -/

namespace ParamItem

/-- The pair that stands for the record a pair works on: one link record an interface, and one
record for the regional and the device parameters. -/
def record : ParamItem → ParamItem
  | pppoeCfg | cfg3g | ipInfo => ethCfg
  | iodevParam => regionalParam
  | item => item

/-- The record with this message number. -/
def ofMsgId : SdkMainMsgId → ParamItem
  | .baiduInfo => baiduCfg
  | .user => userArray
  | .alarmInCfg => alarmInCfg
  | .motionCfg => motionCfg
  | .lostCfg => lostCfg
  | .hideCfg => hideCfg
  | .recordCfg => recordCfg
  | .encodeCfg => encodeCfg
  | .netMngCfg => netMngCfg
  | .platformCfg => platformCfg
  | .ptzCfg => ptzCfg
  | .osdCfg => osdCfg
  | .overlayCfg => overlayCfg
  | .serialCfg => serialCfg
  | .imageAttrCfg => imageAttr
  | .manualRec => manualRecCfg
  | .manualAlmin => manualAlminCfg
  | .manualAlmout => manualAlmoutCfg
  | .ddnsCfg => ddnsCfg
  | .netLinkCfg => ethCfg
  | .wifiParamCfg => wifiCfg
  | .presetSet => presetCfg
  | .schedCfg => schedParam
  | .regionalCfg => regionalParam
  | .audioDetectCfg => audioDetectParam
  | .mirrorFlipCfg => mirrorParamParam
  | .powerFreqCfg => powerFreqParam
  | .systime => systime
  | .aws => awsCfg
  | _ => sysCfg

theorem ofMsgId_msgId (item : ParamItem) : ofMsgId item.msgId = item.record := by
  cases item <;> rfl

theorem msgId_record (item : ParamItem) : item.record.msgId = item.msgId := by
  cases item <;> rfl

/-- Two pairs name the same number exactly if they work on the same record. -/
theorem msgId_eq_iff (a b : ParamItem) : a.msgId = b.msgId ↔ a.record = b.record := by
  constructor
  · intro h
    rw [← ofMsgId_msgId, ← ofMsgId_msgId, h]
  · intro h
    rw [← msgId_record a, ← msgId_record b, h]

end ParamItem

/-- With a channel of eight bits the key is the number and the channel side by side. -/
theorem paramKey_of_lt (id : SdkMainMsgId) {ch : ℤ} (h0 : 0 ≤ ch) (h : ch < 256) :
    paramKey id ch = id.ctorIdx * 256 + ch.toNat := by
  have hmod : ch % 4294967296 = ch := Int.emod_eq_of_lt h0 (by omega)
  have hlt : ch.toNat < 2 ^ 8 := by omega
  rw [paramKey, hmod, ← Nat.shiftLeft_add_eq_or_of_lt hlt, Nat.shiftLeft_eq]

theorem ctorIdx_injective : Function.Injective SdkMainMsgId.ctorIdx :=
  Function.LeftInverse.injective SdkMainMsgId.ofNat_ctorIdx

/-- Keys of channels of eight bits are equal only for the same record and channel. -/
theorem paramKey_eq_iff (a b : ParamItem) {ch ch' : ℤ} (h0 : 0 ≤ ch) (h : ch < 256)
    (h0' : 0 ≤ ch') (h' : ch' < 256) :
    paramKey a.msgId ch = paramKey b.msgId ch' ↔ a.record = b.record ∧ ch = ch' := by
  rw [paramKey_of_lt _ h0 h, paramKey_of_lt _ h0' h', ← ParamItem.msgId_eq_iff]
  constructor
  · intro heq
    exact ⟨ctorIdx_injective (by omega), by omega⟩
  · rintro ⟨hid, rfl⟩
    rw [hid]

/-! ## Items do not interfere -/

/-- The call writes the key the getter reads. -/
def SetCall.Hits (item : ParamItem) (ch : ℤ) (c : SetCall) : Prop :=
  c.key.isSome ∧ c.key = item.key ch

instance (item : ParamItem) (ch : ℤ) (c : SetCall) : Decidable (c.Hits item ch) :=
  inferInstanceAs (Decidable (_ ∧ _))

/-- The latest call that wrote the key of the getter is one of its own setter, or its bytes happen
to read as the getter should. -/
def Undisturbed (s : ParamStore) (cs : List SetCall) (item : ParamItem) (ch : ℤ)
    (param : List UInt8) : Prop :=
  ∀ c, KeyStore.latest (fun c => decide (c.Hits item ch)) cs = some c →
    c.Of item ch ∨ copyOut c.param param = (expectedGet s cs item ch param).1

theorem copyOut_of_length {bytes param : List UInt8} (h : bytes.length = param.length) :
    copyOut bytes param = bytes := by
  rw [copyOut, ← h, List.take_length, h, List.drop_length, List.append_nil]

section Getter

variable {s : ParamStore} {cs : List SetCall} {item : ParamItem} {ch : ℤ} {param : List UInt8}

theorem SetCall.Of.hits {c : SetCall} (h : c.Of item ch) : c.Hits item ch := by
  obtain ⟨rfl, hchan, hsome⟩ := h
  refine ⟨hsome, ?_⟩
  rw [SetCall.key, ParamItem.key, ParamItem.key, hchan]

/-- A refused getter has no setter that could be called successfully. -/
theorem SetCall.Hits.key_eq {c : SetCall} (h : c.Hits item ch) :
    ∃ id, item.key ch = some id ∧ c.key = some id := by
  obtain ⟨hsome, heq⟩ := h
  obtain ⟨id, hid⟩ := Option.isSome_iff_exists.mp hsome
  exact ⟨id, heq ▸ hid, hid⟩

/-- What the getter returns: what the latest call that wrote its key has stored. -/
theorem adaptParamGet_applyAll :
    adaptParamGet (SetCall.applyAll s cs) item ch param
      = match KeyStore.latest (fun c => decide (c.Hits item ch)) cs with
        | some c => (copyOut c.param param, 0)
        | none => adaptParamGet s item ch param := by
  unfold adaptParamGet
  cases hkey : item.key ch with
  | none =>
    have hnone : KeyStore.latest (fun c => decide (c.Hits item ch)) cs = none := by
      rw [KeyStore.latest_eq_none]
      intro c _
      rw [decide_eq_false_iff_not]
      intro hhits
      obtain ⟨id, hid, -⟩ := hhits.key_eq
      rw [hkey] at hid
      cases hid
    rw [hnone]
  | some id =>
    have hpred : (fun c : SetCall => decide (c.Hits item ch))
        = fun c => decide (c.key = some id) := by
      funext c
      rw [decide_eq_decide, SetCall.Hits, hkey]
      constructor
      · exact fun h => h.2
      · intro h
        exact ⟨by rw [h]; rfl, h⟩
    rw [hpred, SetCall.applyAll_eq]
    dsimp only
    unfold sdkParamGet
    rw [KeyStore.run_apply]
    cases KeyStore.latest (fun c => decide (c.key = some id)) cs <;> rfl

/-- Where the key of the getter is written, neither the getter nor what it should do is refused. -/
theorem expectedGet_ret {id : ℕ} (hkey : item.key ch = some id) :
    (expectedGet s cs item ch param).2 = 0 := by
  unfold expectedGet
  split
  · rfl
  · rw [adaptParamGet, hkey]

/-- The latest successful setter of the item and channel, when it is also the latest for the key. -/
theorem expectedGet_of_own (size : ParamItem → ℕ) (hcs : ∀ c ∈ cs, c.param.length = size c.item)
    (hparam : param.length = size item) {c : SetCall}
    (hlast : KeyStore.latest (fun c => decide (c.Hits item ch)) cs = some c)
    (hown : c.Of item ch) :
    expectedGet s cs item ch param = (copyOut c.param param, 0) := by
  have hsame : KeyStore.latest (fun c => decide (c.Of item ch)) cs
      = KeyStore.latest (fun c => decide (c.Hits item ch)) cs := by
    apply KeyStore.latest_eq_of_imp
    · intro a ha
      exact decide_eq_true (of_decide_eq_true ha : a.Of item ch).hits
    · intro a ha
      rw [hlast] at ha
      obtain rfl := Option.some.inj ha
      exact decide_eq_true hown
  have hlen : c.param.length = param.length := by
    rw [hcs c (KeyStore.latest_mem hlast).1, hown.1, hparam]
  rw [expectedGet, hsame, hlast, copyOut_of_length hlen]

/-- After a run of setters the getter returns the value of the latest successful setter of its own
item and channel, or what it returned before, exactly if no other setter has written its key since
(other bytes, that is); and one more setter, of whatever item and channel, leaves what the getter
returns as it was exactly if it does not write that key (other bytes, again). -/
theorem items_independent_iff (size : ParamItem → ℕ) (s : ParamStore) (cs : List SetCall)
    (item : ParamItem) (ch : ℤ) (param : List UInt8)
    (hcs : ∀ c ∈ cs, c.param.length = size c.item) (hparam : param.length = size item) :
    (adaptParamGet (SetCall.applyAll s cs) item ch param = expectedGet s cs item ch param
        ↔ Undisturbed s cs item ch param)
      ∧ ∀ d : SetCall,
        (adaptParamGet (d.apply s) item ch param = adaptParamGet s item ch param
          ↔ (d.Hits item ch → copyOut d.param param = (adaptParamGet s item ch param).1)) := by
  constructor
  · rw [adaptParamGet_applyAll]
    unfold Undisturbed
    cases hlast : KeyStore.latest (fun c => decide (c.Hits item ch)) cs with
    | none =>
      have hnone : KeyStore.latest (fun c => decide (c.Of item ch)) cs = none := by
        rw [KeyStore.latest_eq_none] at hlast ⊢
        intro c hc
        have hmiss := of_decide_eq_false (hlast c hc)
        exact decide_eq_false fun hof => hmiss hof.hits
      simp [expectedGet, hnone]
    | some c =>
      obtain ⟨id, hkey, -⟩ :=
        (of_decide_eq_true (KeyStore.latest_mem hlast).2 : c.Hits item ch).key_eq
      simp only [Option.some.injEq, forall_eq']
      by_cases hown : c.Of item ch
      · simp [expectedGet_of_own size hcs hparam hlast hown, hown]
      · rw [Prod.ext_iff, expectedGet_ret hkey]
        simp [hown]
  · intro d
    have h := @adaptParamGet_applyAll s [d] item ch param
    rw [show SetCall.applyAll s [d] = d.apply s from rfl] at h
    rw [h]
    by_cases hhits : d.Hits item ch
    · obtain ⟨id, hkey, -⟩ := hhits.key_eq
      have hret : (adaptParamGet s item ch param).2 = 0 := by rw [adaptParamGet, hkey]
      rw [Prod.ext_iff, hret]
      simp [KeyStore.latest, hhits]
    · simp [KeyStore.latest, hhits]

/-- The encoder parameters of channel 0, with those of another channel and another item set since. -/
theorem items_independent_encode :
    adaptParamGet (SetCall.applyAll (fun _ => none)
      [⟨.encodeCfg, 0, [1, 2]⟩, ⟨.encodeCfg, 1, [3, 4]⟩, ⟨.recordCfg, 0, [5, 6]⟩])
      .encodeCfg 0 [0, 0] = ([1, 2], 0) :=
  (items_independent_iff (fun _ => 2) (fun _ => none)
    [⟨.encodeCfg, 0, [1, 2]⟩, ⟨.encodeCfg, 1, [3, 4]⟩, ⟨.recordCfg, 0, [5, 6]⟩] .encodeCfg 0 [0, 0]
    (by decide) rfl).1.mpr fun c hc => .inl (by
      obtain rfl : ⟨.encodeCfg, 0, [1, 2]⟩ = c := Option.some.inj hc
      decide)

/-- The buzzer is switched on, and then the regional parameters are set: the device parameters are
gone. -/
theorem iodev_overwritten :
    adaptParamGet (SetCall.applyAll (fun _ => none)
        [⟨.iodevParam, 0, [1, 0, 0, 0, 1, 1, 0, 0]⟩, ⟨.regionalParam, 0, [0, 2, 0, 0]⟩])
        .iodevParam 0 (List.replicate 8 0)
      ≠ expectedGet (fun _ => none)
        [⟨.iodevParam, 0, [1, 0, 0, 0, 1, 1, 0, 0]⟩, ⟨.regionalParam, 0, [0, 2, 0, 0]⟩]
        .iodevParam 0 (List.replicate 8 0) := by
  decide

end Getter
