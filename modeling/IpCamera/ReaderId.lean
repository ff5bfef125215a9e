/-
# Runs of the reader interface

One writer and one reader ID whose calls go through `SHM_ReadFrameWithExtras`.
What the ID is handed with a get-a-new-frame code is logged together with the
sequence number of its head, which is the one before the ID's new `uiSeq`.

The first property proved of these runs is for streams without key-frame search
(`lapped_delivery`): however far the writer runs ahead, no frame is torn and the
reader never goes back.
-/
import IpCamera.RingOverrun
import IpCamera.ShmApi

/-! ## Runs -/

/-- A call of the writer, or a read with its buffer size.  `fuel` and `junk` are
those of the key-frame search. -/
inductive ApiCall
  | write (c : WriteCall)
  | read (bufLen : ℤ) (fuel : ℕ) (junk : ℕ → UInt8)

/-- A frame handed out, with its return code and the sequence of its head. -/
structure Delivery where
  code : ℤ
  seq : ℕ
  data : FrameData

/-- The ring, the entry of the ID, and the frames handed out to it, oldest first. -/
structure ApiState where
  ring : ShmRing
  info : ShmInfo
  delivered : List Delivery

namespace ApiState

/-- An ID after `SHM_InitID`. -/
def start (r : ShmRing) : ApiState := ⟨r, ShmInfo.initial, []⟩

/-- The ID after a read that returned `rtn`, with what it handed out logged. -/
def handOut (s : ApiState) (rtn : ℤ) (data : Option FrameData) (info : ShmInfo) : ApiState where
  ring := s.ring
  info := info
  delivered := s.delivered ++
    if rtn = shmEnumGetANewFrame ∨ rtn = shmEnumGetANewKeyFrame then
      data.toList.map (⟨rtn, info.uiSeq - 1, ·⟩)
    else []

/-- One call.  A read that does not return changes nothing. -/
def step (enumMType : ShmMediaType) (s : ApiState) : ApiCall → ApiState
  | .write c => { s with ring := s.ring.write c }
  | .read bufLen fuel junk =>
      match shmReadFrameWithExtras s.ring.bytes fuel junk enumMType bufLen s.info with
      | none => s
      | some (rtn, data, info) => s.handOut rtn data info

def run (enumMType : ShmMediaType) (s : ApiState) (es : List ApiCall) : ApiState :=
  es.foldl (step enumMType) s

@[simp] theorem handOut_none (s : ApiState) (rtn : ℤ) (info : ShmInfo) :
    s.handOut rtn none info = { s with info := info } := by
  simp [handOut]

theorem handOut_some (s : ApiState) {rtn : ℤ}
    (h : rtn = shmEnumGetANewFrame ∨ rtn = shmEnumGetANewKeyFrame) (d : FrameData)
    (info : ShmInfo) : s.handOut rtn (some d) info
      = { s with info := info, delivered := s.delivered ++ [⟨rtn, info.uiSeq - 1, d⟩] } := by
  simp [handOut, h]

theorem run_concat (t : ShmMediaType) (s : ApiState) (es : List ApiCall) (e : ApiCall) :
    s.run t (es ++ [e]) = (s.run t es).step t e := by
  simp [run]

theorem length_step_le (t : ShmMediaType) (s : ApiState) (e : ApiCall) :
    s.ring.frames.length ≤ (s.step t e).ring.frames.length := by
  cases e with
  | write c => exact (s.ring.length_write_le c).1
  | read bufLen fuel junk =>
      rw [step]
      split <;> exact le_rfl

end ApiState

/-! ## The header information -/

variable {N M : ℕ} {r : ShmRing} {info : ShmInfo}

/-- `WriteFrame` leaves the header information of the stream alone. -/
theorem RingInv.userDefinedInfo_write (inv : RingInv N M r) (hN : M + 143 < N)
    (hN' : N < 2147483648) (c : WriteCall) (hlen : (r.write c).frames.length < 4294967295) {i : ℕ}
    (hi : i < shmSizeOfUserDefinedInfo) :
    headUserDefinedInfo (r.write c).bytes i = headUserDefinedInfo r.bytes i := by
  rw [shmSizeOfUserDefinedInfo_eq] at hi
  rcases inv.write_cases hN hN' c hlen with hsame | ⟨g, m, acc⟩
  · rw [hsame]
  · exact acc.bytes_head inv hN (by omega) (by omega)

/-! ## Reads without key-frame search -/

theorem shmRefreshNolock_plain (m : Mem) (fuel : ℕ) (junk : ℕ → UInt8) :
    shmRefreshNolock m fuel junk false = some (ShmRead.refresh m) := rfl

/-- Without the search a read refreshes an ID in the initial state and reads. -/
theorem shmReadFrameWithExtras_plain {m : Mem} {t : ShmMediaType}
    (h : shmSearchesKeyFrame m t = false) (fuel : ℕ) (junk : ℕ → UInt8) (bufLen : ℤ) :
    shmReadFrameWithExtras m fuel junk t bufLen info = some (
      if ShmRead.isInitState info.uiPos then
        if (ShmRead.refresh m).1 < 0 then (shmEnumNoFrame, none, (ShmRead.refresh m).2)
        else shmReadAt m t bufLen (ShmRead.refresh m).2
      else shmReadAt m t bufLen info) := by
  rw [shmReadFrameWithExtras, h, shmRefreshNolock_plain]
  split_ifs with h₁ h₂
  · simp [h₂]
  · simp [h₂]
  · rfl

/-- A read that hands nothing out. -/
theorem shmReadAt_of_none {m : Mem} {bufLen rtn : ℤ} {info' : ShmInfo} (t : ShmMediaType)
    (h : ShmRead.readFrame m true bufLen info = (rtn, none, info')) :
    shmReadAt m t bufLen info = (rtn, none, info') := by
  simp [shmReadAt, h]

/-- A read that hands a frame out does so with a get-a-new-frame code. -/
theorem shmReadAt_of_some {m : Mem} {bufLen : ℤ} {info' : ShmInfo} {d : FrameData}
    (t : ShmMediaType)
    (h : ShmRead.readFrame m true bufLen info = (shmEnumGetANewFrame, some d, info')) :
    ∃ rtn, (rtn = shmEnumGetANewFrame ∨ rtn = shmEnumGetANewKeyFrame)
      ∧ shmReadAt m t bufLen info = (rtn, some d, info') := by
  refine ⟨(shmReadAt m t bufLen info).1, ?_, by simp [shmReadAt, h]⟩
  simp only [shmReadAt, h]
  split_ifs
  · exact .inr rfl
  · exact .inl rfl

/-! ## A reader that may be lapped -/

/-- The invariant of a reader on a stream without search: what it was given was
written, in increasing order, and is behind the frame it waits for. -/
structure LappedInv (N M : ℕ) (pcHeaderInfo : ℕ → UInt8) (s : ApiState) : Prop where
  ring : RingInv N M s.ring
  magic : MagicInv N s.ring
  header : ∀ i < shmSizeOfUserDefinedInfo, headUserDefinedInfo s.ring.bytes i = pcHeaderInfo i
  reader : ReaderAt s.ring.frames s.info
  written : ∀ d ∈ s.delivered, ∃ f ∈ s.ring.frames, f.seq = d.seq ∧ d.data = f.data
  sorted : (s.delivered.map Delivery.seq).Pairwise (· < ·)
  /-- A reset ID waits for the newest frame. -/
  reset : s.info = ShmInfo.initial → ∀ d ∈ s.delivered, d.seq < s.ring.frames.length
  behind : s.info ≠ ShmInfo.initial → ∀ d ∈ s.delivered, d.seq < s.info.uiSeq

namespace LappedInv

variable {pcHeaderInfo : ℕ → UInt8} {s : ApiState} {t : ShmMediaType}

theorem write (inv : LappedInv N M pcHeaderInfo s) (hN : M + 143 < N)
    (hN' : N ≤ shmFrameMagicNum) {c : WriteCall} (hc : c.NoMagic)
    (hlen : (s.ring.write c).frames.length < 2 ^ 30) :
    LappedInv N M pcHeaderInfo (s.step t (.write c)) := by
  have hN'' : N < 2147483648 := by
    rw [shmFrameMagicNum_eq] at hN'
    omega
  have hlen' : (s.ring.write c).frames.length < 4294967295 := hlen.trans (by norm_num)
  have hsub := s.ring.frames_subset_write c
  exact {
    ring := inv.ring.write hN hN'' c hlen'
    magic := inv.magic.write inv.ring hN hN' hc hlen
    header := fun i hi =>
      (inv.ring.userDefinedInfo_write hN hN'' c hlen' hi).trans (inv.header i hi)
    reader := inv.reader.mono hsub
    written := fun d hd => by
      obtain ⟨f, hf, h⟩ := inv.written d hd
      exact ⟨f, hsub hf, h⟩
    sorted := inv.sorted
    reset := fun h d hd => (inv.reset h d hd).trans_le (s.ring.length_write_le c).1
    behind := inv.behind }

/-- A read of an ID that has a position. -/
theorem readAt (inv : LappedInv N M pcHeaderInfo s) (hN : M + 143 < N)
    (hlen : s.ring.frames.length < 2 ^ 30) (hpos : s.info.uiPos ≠ 0) (t : ShmMediaType)
    (bufLen : ℤ) : ∃ rtn data info, shmReadAt s.ring.bytes t bufLen s.info = (rtn, data, info)
      ∧ LappedInv N M pcHeaderInfo (s.handOut rtn data info) := by
  have hbehind := inv.behind fun h => hpos (by rw [h]; rfl)
  have hreader := inv.ring.readerAt_readFrame inv.magic hN (by omega) inv.reader hpos bufLen
  -- there is no new frame, or the read has one of its three outcomes
  rcases inv.ring.read_cases inv.magic hN (by omega) inv.reader hpos bufLen with
    ⟨rtn, -, hread⟩ | ⟨hs, out⟩
  · refine ⟨rtn, none, s.info, shmReadAt_of_none t hread, ?_⟩
    rw [ApiState.handOut_none]
    exact inv
  cases out with
  | delivered f intact seq fits result =>
      obtain ⟨rtn, hrtn, hread⟩ := shmReadAt_of_some t result
      refine ⟨rtn, _, _, hread, ?_⟩
      rw [result] at hreader
      have hlog : ∀ d ∈ s.delivered ++ [(⟨rtn, f.seq, f.data⟩ : Delivery)], d.seq < f.seq + 1 := by
        intro d hd
        rcases List.mem_append.mp hd with hd | hd
        · have := hbehind d hd
          omega
        · rw [List.mem_singleton.mp hd]
          exact Nat.lt_succ_self _
      rw [ApiState.handOut_some s hrtn, Nat.add_sub_cancel]
      exact {
        ring := inv.ring
        magic := inv.magic
        header := inv.header
        reader := hreader
        written := fun d hd => by
          rcases List.mem_append.mp hd with hd | hd
          · exact inv.written d hd
          · rw [List.mem_singleton.mp hd]
            exact ⟨f, inv.ring.mem_frames intact, rfl, rfl⟩
        sorted := by
          rw [List.map_append, List.pairwise_append]
          refine ⟨inv.sorted, List.pairwise_singleton _ _, fun a ha b hb => ?_⟩
          obtain ⟨d, hd, rfl⟩ := List.mem_map.mp ha
          obtain rfl : b = f.seq := by simpa using hb
          exact (hbehind d hd).trans_le seq
        reset := fun h => by simp [ShmInfo.initial] at h
        behind := fun _ => hlog }
  | tooLarge f intact stays short result =>
      refine ⟨_, _, _, shmReadAt_of_none t result, ?_⟩
      rw [result] at hreader
      have hstart := (inv.ring.wellPlaced hN (inv.ring.mem_frames intact)).start_le
      rw [ApiState.handOut_none]
      exact { inv with
        reader := hreader
        reset := fun h => by
          have : f.pos = 0 := congrArg ShmInfo.uiPos h
          omega
        behind := fun _ => hbehind }
  | reset gone result =>
      refine ⟨_, _, _, shmReadAt_of_none t result, ?_⟩
      rw [result] at hreader
      rw [ApiState.handOut_none]
      exact { inv with
        reader := hreader
        reset := fun _ d hd => (hbehind d hd).trans_le hs
        behind := fun h => absurd rfl h }

/-- An ID in the initial state that is refreshed to the newest frame. -/
theorem refresh (inv : LappedInv N M pcHeaderInfo s) (hinit : s.info = ShmInfo.initial) :
    LappedInv N M pcHeaderInfo { s with info := (ShmRead.refresh s.ring.bytes).2 } :=
  { inv with
    reader := inv.ring.readerAt_refresh
    reset := fun _ => inv.reset hinit
    behind := fun _ d hd => by
      have h := inv.reset hinit d hd
      show d.seq < headNewestFrameSeq s.ring.bytes
      rw [inv.ring.newestSeq]
      exact h }

end LappedInv

theorem shmSearchesKeyFrame_eq {m : Mem} {t : ShmMediaType} {pcHeaderInfo : ℕ → UInt8}
    (header : ∀ i < shmSizeOfUserDefinedInfo, headUserDefinedInfo m i = pcHeaderInfo i) :
    shmSearchesKeyFrame m t
      = decide (t = .video ∧ headerInfoCodec pcHeaderInfo = shmVideoCodecTypeH264) := by
  unfold shmSearchesKeyFrame headerInfoCodec
  rw [header 1 (by decide)]

/-- An ID at position zero is in the initial state. -/
theorem ReaderAt.eq_initial (at_ : ReaderAt r.frames info) (inv : RingInv N M r)
    (hN : M + 143 < N) (hpos : ShmRead.isInitState info.uiPos = true) :
    info = ShmInfo.initial := by
  have h₀ : info.uiPos = 0 := of_decide_eq_true hpos
  cases at_ with
  | initial eq => exact eq
  | unset eq => simp [eq] at h₀
  | next at_ =>
      have := (at_.pos_range inv hN).2.1
      omega

theorem LappedInv.step {pcHeaderInfo : ℕ → UInt8} {s : ApiState} {t : ShmMediaType}
    (inv : LappedInv N M pcHeaderInfo s) (hN : M + 143 < N) (hN' : N ≤ shmFrameMagicNum)
    (hplain : t = .video → headerInfoCodec pcHeaderInfo ≠ shmVideoCodecTypeH264) {e : ApiCall}
    (hmagic : ∀ c, e = .write c → c.NoMagic) (hlen : (s.step t e).ring.frames.length < 2 ^ 30) :
    LappedInv N M pcHeaderInfo (s.step t e) := by
  have hlen₀ := (s.length_step_le t e).trans_lt hlen
  cases e with
  | write c => exact inv.write hN hN' (hmagic c rfl) hlen
  | read bufLen fuel junk =>
      have hno : shmSearchesKeyFrame s.ring.bytes t = false := by
        rw [shmSearchesKeyFrame_eq inv.header, decide_eq_false_iff_not]
        exact fun h => hplain h.1 h.2
      simp only [ApiState.step, shmReadFrameWithExtras_plain hno]
      split_ifs with hinit hfail
      · -- the ring is empty: the ID is left at the start
        rw [ApiState.handOut_none]
        exact inv.refresh (inv.reader.eq_initial inv.ring hN hinit)
      · have hfresh := inv.refresh (inv.reader.eq_initial inv.ring hN hinit)
        have hpos : (ShmRead.refresh s.ring.bytes).2.uiPos ≠ 0 := by
          have := (inv.ring.newestPos_bounds hN).1
          show headNewestFramePos s.ring.bytes ≠ 0
          omega
        obtain ⟨rtn, data, info, hread, h⟩ := hfresh.readAt hN hlen₀ hpos t bufLen
        simp only at hread
        rw [hread]
        exact h
      · have hpos : s.info.uiPos ≠ 0 := fun h => hinit (by rw [h]; rfl)
        obtain ⟨rtn, data, info, hread, h⟩ := inv.readAt hN hlen₀ hpos t bufLen
        rw [hread]
        exact h

theorem LappedInv.run {pcHeaderInfo : ℕ → UInt8} {s : ApiState} {t : ShmMediaType}
    (inv : LappedInv N M pcHeaderInfo s) (hN : M + 143 < N) (hN' : N ≤ shmFrameMagicNum)
    (hplain : t = .video → headerInfoCodec pcHeaderInfo ≠ shmVideoCodecTypeH264)
    {es : List ApiCall} (hmagic : ∀ c, .write c ∈ es → c.NoMagic)
    (hlen : (s.run t es).ring.frames.length < 2 ^ 30) :
    LappedInv N M pcHeaderInfo (s.run t es) := by
  induction es using List.reverseRecOn with
  | nil => exact inv
  | append_singleton es e ih =>
      rw [ApiState.run_concat] at hlen ⊢
      have hih := ih (fun c hc => hmagic c (List.mem_append_left _ hc))
        (((s.run t es).length_step_le t e).trans_lt hlen)
      exact hih.step hN hN' hplain (fun c hc => hmagic c (by simp [hc])) hlen

theorem userDefinedInfo_create (old : Mem) (pcHeaderInfo : ℕ → UInt8) {i : ℕ}
    (hi : i < shmSizeOfUserDefinedInfo) :
    headUserDefinedInfo (ShmRing.create old N M pcHeaderInfo).bytes i = pcHeaderInfo i := by
  rw [shmSizeOfUserDefinedInfo_eq] at hi
  exact memcpy_add _ 20 pcHeaderInfo hi

theorem lappedInv_create (old : Mem) (pcHeaderInfo : ℕ → UInt8) (hN : M + 143 < N)
    (hN' : N < 2147483648) :
    LappedInv N M pcHeaderInfo (.start (ShmRing.create old N M pcHeaderInfo)) where
  ring := ringInv_create old pcHeaderInfo hN hN'
  magic := magicInv_create old pcHeaderInfo hN hN'
  header _ hi := userDefinedInfo_create old pcHeaderInfo hi
  reader := .initial rfl
  written d hd := by cases hd
  sorted := List.Pairwise.nil
  reset _ d hd := by cases hd
  behind _ d hd := by cases hd

/-- **No torn frame and no going back.**  Without key-frame search, and however far
the writer runs ahead between two reads, what the ID is handed are frames as they
were written, in strictly increasing order. -/
theorem lapped_delivery (old : Mem) (pcHeaderInfo : ℕ → UInt8) {iShmSize iMaxFrameSize : ℕ}
    (hsize : shmSizeOfShmHead + iMaxFrameSize + 2 * shmSizeOfFrameHead + 3 < iShmSize)
    (hmax : iShmSize ≤ shmFrameMagicNum) (enumMType : ShmMediaType)
    (hplain : enumMType = .video → headerInfoCodec pcHeaderInfo ≠ shmVideoCodecTypeH264)
    (es : List ApiCall) :
    let s := (ApiState.start (ShmRing.create old iShmSize iMaxFrameSize pcHeaderInfo)).run
      enumMType es
    (∀ c, .write c ∈ es → c.NoMagic) → s.ring.frames.length < 2 ^ 30 →
    (∀ d ∈ s.delivered, ∃ f ∈ s.ring.frames, f.seq = d.seq ∧ d.data = f.data)
      ∧ (s.delivered.map Delivery.seq).Pairwise (· < ·) := by
  intro s hmagic hlen
  simp only [shmSizeOfShmHead_eq, shmSizeOfFrameHead_eq] at hsize
  have hmax' := hmax
  rw [shmFrameMagicNum_eq] at hmax'
  have inv : LappedInv iShmSize iMaxFrameSize pcHeaderInfo s :=
    (lappedInv_create old pcHeaderInfo (by omega) (by omega)).run (by omega) hmax hplain hmagic hlen
  exact ⟨inv.written, inv.sorted⟩

/-- A reader of an audio stream that is lapped twice and reset once. -/
theorem lapped_delivery_small :
    let es : List ApiCall := [.write overrunCall, .read 100 0 fun _ => 0, .write overrunCall,
      .write overrunCall, .read 100 0 fun _ => 0, .write overrunCall, .read 100 0 fun _ => 0,
      .read 100 0 fun _ => 0]
    let s := (ApiState.start (ShmRing.create (fun _ => 0) 300 100 (fun _ => 0))).run .audio es
    (∀ d ∈ s.delivered, ∃ f ∈ s.ring.frames, f.seq = d.seq ∧ d.data = f.data)
      ∧ (s.delivered.map Delivery.seq).Pairwise (· < ·) := by
  intro es
  refine lapped_delivery (fun _ => 0) (fun _ => 0) (by decide) (by decide) .audio (by decide) es
    (fun c hc => ?_) (by decide +kernel)
  obtain rfl : c = overrunCall := by simpa [es] using hc
  exact overrunCall_noMagic
