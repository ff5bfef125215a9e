/-
# Playback of a recording

`th_history_media`: the thread reads the header and the index of a finished recording,
looks for a frame to start with, and sends one frame a pass until its index variable has
passed the end of the index.  Two passes too many are made before that is noticed, and
the search for a frame always looks at the time stamp of entry 0.

* `playback_sends_all`   : from the start, all frames are sent in order, and then come two passes
  on entries that are not in the index;
* `playback_agrees_iff`  : so playback from the start never agrees with the recording, and playback
  from another time starts with a key frame near it exactly when the first frame is near it.
-/
import IpCamera.AviComplete
import IpCamera.AviWellFormed

/-! ## The player -/

namespace Playback

/-- `MEDIA_FRAME_SIZE`, the length of `pb_buf` -/
def mediaFrameSize : ℕ := 300 * 1024

/-- The fields of `DANAAviPBHandle` the thread goes by; `index_current` is an argument below. -/
structure PBHandle where
  indexCount : ℕ
  idxArray : ℕ → IndexEntry

/-- The four words at an address of the file. -/
def indexEntryAt (m : Mem) (a : ℕ) : IndexEntry :=
  ⟨load32 m a, load32 m (a + 4), load32 m (a + 8), load32 m (a + 12)⟩

/-- `dana_avi_read_header_and_index`.  The array has one entry more than the index, of which only
the offset is set; `heap` is what the memory of the array and behind it holds before. -/
def readHeaderAndIndex (file : StdioFile) (heap : ℕ → IndexEntry) : PBHandle :=
  let pos := (load32 file.bytes (sizeofAviHeader - 8) + (sizeofAviHeader - 4)) % 4294967296
  if file.size < sizeofAviHeader ∨ 2147483648 ≤ pos ∨ file.size < pos + 8
      ∨ load32 file.bytes pos ≠ fccIdx1 then
    ⟨0, heap⟩
  else
    let count := load32 file.bytes (pos + 4) / 16
    if count = 0 ∨ file.size < pos + 8 + 16 * count then ⟨count, heap⟩
    else
      let entry := fun i => indexEntryAt file.bytes (pos + 8 + 16 * i)
      ⟨count, fun i =>
        if i < count then entry i
        else if i = count then
          { heap i with offset := (entry (count - 1)).offset + (entry (count - 1)).size + 8 + 16 }
        else heap i⟩

/-- The seconds `dana_avi_get_frame_timestamp` reads for the entry `index_current`. -/
def frameTimestamp (file : StdioFile) (h : PBHandle) (indexCurrent : ℕ) : ℤ :=
  let e := h.idxArray indexCurrent
  toInt32 (load32 file.bytes (8 + e.offset + e.size + 8))

/-- `DIFF_ABS` of two words -/
def diffAbs (x y : ℤ) : ℤ := toInt32 ((if y < x then x - y else y - x) % 4294967296).toNat

/-- The entry to start with.  The search looks at each key frame of the index, but it reads the time
stamp of `index_current`, which is 0. -/
def startIndex (file : StdioFile) (h : PBHandle) (uiStartTime uitimestamp : ℤ) : ℕ :=
  let indexCurrent := 0
  if uiStartTime = uitimestamp then 0
  else ((List.range h.indexCount).find? fun index =>
    (h.idxArray index).flags = 0x11
      ∧ diffAbs (frameTimestamp file h indexCurrent) uitimestamp < 10).getD indexCurrent

/-- What is sent with one call.  An audio frame is sent with the key flag of the last video frame,
which says nothing about it. -/
inductive Sent
  | video (isKeyFrame : Bool) (data : List UInt8)
  | audio (data : List UInt8)
deriving DecidableEq

/-- What a pass does: it reads an entry of the index array, and it sends a frame, or it reads more
bytes than `pb_buf` has. -/
inductive PlayEvent
  | entry (i : ℕ)
  | send (s : Sent)
  | overrun
deriving DecidableEq

/-- The frame of an entry, read from the file and sent. -/
def sendEntry (file : StdioFile) (e : IndexEntry) : List PlayEvent :=
  let data := loadBytes file.bytes (e.offset + 8) e.size
  if mediaFrameSize < e.size then [.overrun]
  else if e.ckid = fcc00dc then [.send (.video (e.flags = 0x11) data)]
  else if e.ckid = fcc01wb then [.send (.audio data)]
  else []

/-- One pass of the loop. -/
def playPass (file : StdioFile) (h : PBHandle) (indexCurrent : ℕ) : List PlayEvent :=
  .entry indexCurrent :: sendEntry file (h.idxArray indexCurrent)

/-- At most `fuel` passes, and whether the thread has ended.  The end of the file is noticed one
pass after the test of `index_current`. -/
def playLoop (file : StdioFile) (h : PBHandle) : ℕ → ℕ → Bool → List PlayEvent × Bool
  | 0, _, _ => ([], false)
  | fuel + 1, indexCurrent, pbFileEnd =>
      if pbFileEnd then ([], true)
      else
        let rest := playLoop file h fuel (indexCurrent + 1) (h.indexCount < indexCurrent)
        (playPass file h indexCurrent ++ rest.1, rest.2)

/-- `th_history_media`, not paused and not stopped, with every send succeeding. -/
def thHistoryMedia (file : StdioFile) (heap : ℕ → IndexEntry) (uiStartTime uitimestamp : ℤ)
    (fuel : ℕ) : List PlayEvent × Bool :=
  let h := readHeaderAndIndex file heap
  playLoop file h fuel (startIndex file h uiStartTime uitimestamp) false

/-! ## Agreement with the recorder -/

/-- A frame as it is sent: the body of its chunk. -/
def sentFrame (f : AviFrame) : Sent :=
  let data := f.data ++ List.replicate f.isAlign 0
  if f.IsVideo then .video f.IsKey data else .audio data

def PlayEvent.sent? : PlayEvent → Option Sent
  | .send s => some s
  | _ => none

/-- The recording's frames are sent, and nothing else is read or sent. -/
structure PlaysAll (fs : List AviFrame) (events : List PlayEvent) : Prop where
  sent : events.filterMap PlayEvent.sent? = fs.map sentFrame
  inside : ∀ i, .entry i ∈ events → i < fs.length

/-- A key frame whose stored time stamp is less than 10 seconds from `t`. -/
def NearKey (t : ℤ) (f : AviFrame) : Prop :=
  f.IsKey ∧ |toInt32 (f.stamp.1 % 4294967296) - t| < 10

/-- Playback agrees with the recording of `fs`: from the start all frames are sent, and from another
time near a key frame the first one is such a frame. -/
structure Agrees (file : StdioFile) (fs : List AviFrame) (heap : ℕ → IndexEntry) (start t : ℤ) :
    Prop where
  all : t = start → ∃ fuel events, thHistoryMedia file heap start t fuel = (events, true)
    ∧ PlaysAll fs events
  seeks : t ≠ start → (∃ f ∈ fs, NearKey t f) → ∃ i f, fs[i]? = some f ∧ NearKey t f
    ∧ ∃ fuel events, thHistoryMedia file heap start t fuel
      = (.entry i :: .send (sentFrame f) :: events, true)

/-! ## The loop -/

section Loop

variable {file : StdioFile} {h : PBHandle}

/-- A thread with passes enough ends, two entries behind the index. -/
theorem playLoop_of_enough (fuel : ℕ) : ∀ {cur : ℕ}, cur ≤ h.indexCount + 1 →
    h.indexCount + 3 ≤ fuel + cur → playLoop file h fuel cur false
      = ((List.range' cur (h.indexCount + 2 - cur)).flatMap (playPass file h), true) := by
  induction fuel with
  | zero =>
    intro cur hcur hfuel
    omega
  | succ fuel ih =>
    intro cur hcur hfuel
    rw [playLoop, if_neg Bool.false_ne_true,
      show h.indexCount + 2 - cur = (h.indexCount + 1 - cur) + 1 by omega, List.range'_succ,
      List.flatMap_cons]
    by_cases hlast : h.indexCount < cur
    · obtain rfl : cur = h.indexCount + 1 := by omega
      obtain ⟨fuel, rfl⟩ : ∃ k, fuel = k + 1 := ⟨fuel - 1, by omega⟩
      rw [decide_eq_true hlast, playLoop, if_pos rfl, Nat.sub_self]
      rfl
    · rw [decide_eq_false hlast, ih (by omega) (by omega),
        show h.indexCount + 2 - (cur + 1) = h.indexCount + 1 - cur by omega]

/-- Passes too few leave the thread running. -/
theorem playLoop_of_short (fuel : ℕ) : ∀ {cur : ℕ} {pbFileEnd : Bool},
    (pbFileEnd = true → h.indexCount + 2 ≤ cur) → fuel + cur < h.indexCount + 3 →
      (playLoop file h fuel cur pbFileEnd).2 = false := by
  induction fuel with
  | zero =>
    intro cur pbFileEnd _ _
    rfl
  | succ fuel ih =>
    intro cur pbFileEnd hend hfuel
    cases pbFileEnd with
    | true =>
      have := hend rfl
      omega
    | false =>
      rw [playLoop, if_neg Bool.false_ne_true]
      apply ih
      · intro hlast
        have := of_decide_eq_true hlast
        omega
      · omega

/-- What a thread that has ended has done. -/
theorem playLoop_ended {fuel cur : ℕ} {events : List PlayEvent} (hcur : cur ≤ h.indexCount + 1)
    (hrun : playLoop file h fuel cur false = (events, true)) :
    events = (List.range' cur (h.indexCount + 2 - cur)).flatMap (playPass file h) := by
  by_cases hfuel : fuel + cur < h.indexCount + 3
  · have hshort := @playLoop_of_short file h fuel cur false nofun hfuel
    rw [hrun] at hshort
    cases hshort
  · rw [playLoop_of_enough fuel hcur (Nat.not_lt.mp hfuel)] at hrun
    exact (Prod.ext_iff.mp hrun).1.symm

end Loop

/-! ## Reading a finished recording -/

/-- The bytes of the chunk's body. -/
def bodyOf (f : AviFrame) : List UInt8 := f.data ++ List.replicate f.isAlign 0

theorem bodyOf_length (f : AviFrame) : (bodyOf f).length = f.size := by
  rw [bodyOf, List.length_append, List.length_replicate, AviFrame.size]

/-- The offset of a frame's chunk. -/
def chunkOffset (fs : List AviFrame) (i : ℕ) : ℕ := sizeofAviHeader + moviSize (fs.take i)

section Read

variable {hdr : List UInt8} {duration aBits : ℕ} {file : StdioFile} {fs : List AviFrame}

/-- The chunk of a frame, its index entry pointing there. -/
theorem chunk_bytes (h : Finished hdr duration aBits file fs) (hok : ∀ f ∈ fs, f.Ok)
    (hsize : file.size < 2147483648) {i : ℕ} {f : AviFrame} (hf : fs[i]? = some f) :
    chunkOffset fs i < 2147483648
      ∧ loadBytes file.bytes (chunkOffset fs i) f.chunkSize = moviBytes [f] := by
  have hsplit : moviSize fs = moviSize (fs.take i) + moviSize (fs.drop i) := by
    rw [← moviSize_append, List.take_append_drop]
  have hlt : chunkOffset fs i < 2147483648 := by
    have := h.size
    unfold chunkOffset
    omega
  refine ⟨hlt, ?_⟩
  obtain ⟨e, he, -, -, hbytes, -⟩ := h.landing hok hsize hf
  rw [readIndex_eq hok h.body, indexFrom_getElem?, hf] at he
  obtain rfl := Option.some.inj he
  rw [← hbytes]
  show _ = loadBytes file.bytes (chunkOffset fs i % 4294967296) _
  rw [Nat.mod_eq_of_lt (by omega)]

/-- The body of a frame's chunk, and its time stamp behind it. -/
theorem chunk_fields (h : Finished hdr duration aBits file fs) (hok : ∀ f ∈ fs, f.Ok)
    (hsize : file.size < 2147483648) {i : ℕ} {f : AviFrame} (hf : fs[i]? = some f) :
    loadBytes file.bytes (chunkOffset fs i + 8) f.size = bodyOf f
      ∧ load32 file.bytes (8 + chunkOffset fs i + f.size + 8) = f.stamp.1 % 4294967296 := by
  obtain ⟨-, hbytes⟩ := chunk_bytes h hok hsize hf
  have hmovi : moviBytes [f] = (word f.ckid ++ word f.size) ++ (bodyOf f
      ++ ((word fccJUNK ++ word 8) ++ (word f.stamp.1 ++ word f.stamp.2))) := by
    rw [moviBytes_singleton, bodyOf]
    simp only [List.append_assoc]
  rw [hmovi] at hbytes
  have hrest := (loadBytes_eq_append hbytes).2
  have hbody := (loadBytes_eq_append hrest).1
  have hjunk := (loadBytes_eq_append hrest).2
  have hstamp := (loadBytes_eq_append hjunk).2
  simp only [List.length_append, word_length, bodyOf_length] at hbody hstamp
  refine ⟨hbody, ?_⟩
  have hword := load32_of_append (p := []) hstamp
  rw [List.length_nil, Nat.add_zero] at hword
  rw [← hword]
  congr 1
  omega

/-- The index behind the chunks, entry by entry. -/
theorem indexEntryAt_entry (h : Finished hdr duration aBits file fs) (hok : ∀ f ∈ fs, f.Ok)
    {i : ℕ} {f : AviFrame} (hf : fs[i]? = some f) :
    indexEntryAt file.bytes (sizeofAviHeader + moviSize fs + 8 + 16 * i)
      = f.entry (chunkOffset fs i) := by
  have hes : indexFrom sizeofAviHeader fs = indexFrom sizeofAviHeader (fs.take i)
      ++ (f.entry (chunkOffset fs i)
        :: indexFrom (chunkOffset fs i + f.chunkSize) (fs.drop (i + 1))) := by
    nth_rewrite 1 [take_append_cons hf]
    rw [indexFrom_append]
    rfl
  have hi : i ≤ fs.length := (List.getElem?_eq_some_iff.mp hf).1.le
  -- what stands before the entry
  obtain ⟨p, hlen, r, hp⟩ : ∃ p : List UInt8, p.length = moviSize fs + 8 + 16 * i ∧ ∃ r,
      moviBytes fs ++ idx1Bytes fs = p ++ ((f.entry (chunkOffset fs i)).encode ++ r) := by
    refine ⟨moviBytes fs ++ (word fccIdx1 ++ (word (16 * fs.length)
      ++ encodeEntries (indexFrom sizeofAviHeader (fs.take i)))), ?_,
      encodeEntries (indexFrom (chunkOffset fs i + f.chunkSize) (fs.drop (i + 1))), ?_⟩
    · simp only [List.length_append, moviBytes_length, word_length, encodeEntries_length,
        indexFrom_length, List.length_take, min_eq_left hi]
      omega
    · rw [idx1Bytes, hes, encodeEntries_append, encodeEntries_cons]
      simp only [List.append_assoc]
  have hfit := (hok f (List.mem_of_getElem? hf)).entry_fits (chunkOffset fs i)
  generalize f.entry (chunkOffset fs i) = e at hp hfit ⊢
  have hwords : moviBytes fs ++ idx1Bytes fs = p ++ (word e.ckid ++ (word e.flags
      ++ (word e.offset ++ (word e.size ++ r)))) := by
    rw [hp, IndexEntry.encode]
    simp only [List.append_assoc]
  have hckid := h.load32_body hwords
  have hflags := h.load32_body (p := p ++ word e.ckid) (v := e.flags)
    (by rw [hwords, List.append_assoc])
  have hoffset := h.load32_body (p := p ++ (word e.ckid ++ word e.flags)) (v := e.offset)
    (by rw [hwords, List.append_assoc, List.append_assoc])
  have hsz := h.load32_body (p := p ++ (word e.ckid ++ (word e.flags ++ word e.offset)))
    (v := e.size) (by rw [hwords, List.append_assoc, List.append_assoc, List.append_assoc])
  simp only [List.length_append, word_length, hlen] at hckid hflags hoffset hsz
  rw [Nat.mod_eq_of_lt hfit.ckid_lt] at hckid
  rw [Nat.mod_eq_of_lt hfit.flags_lt] at hflags
  rw [Nat.mod_eq_of_lt hfit.offset_lt] at hoffset
  rw [Nat.mod_eq_of_lt hfit.size_lt] at hsz
  have hpos : sizeofAviHeader + moviSize fs + 8 + 16 * i
      = sizeofAviHeader + (moviSize fs + 8 + 16 * i) := by omega
  rw [indexEntryAt, hpos, hckid, Nat.add_assoc sizeofAviHeader, hflags,
    Nat.add_assoc sizeofAviHeader, hoffset, Nat.add_assoc sizeofAviHeader, hsz]

/-- The player finds the index of a finished recording. -/
theorem readHeaderAndIndex_finished (h : Finished hdr duration aBits file fs)
    (hok : ∀ f ∈ fs, f.Ok) (hsize : file.size < 2147483648) (hne : fs ≠ [])
    (heap : ℕ → IndexEntry) :
    (readHeaderAndIndex file heap).indexCount = fs.length
      ∧ ∀ i f, fs[i]? = some f →
        (readHeaderAndIndex file heap).idxArray i = f.entry (chunkOffset fs i) := by
  have hsz := h.size
  have hpos : 0 < fs.length := List.length_pos_iff.mpr hne
  have hmovi : load32 file.bytes (sizeofAviHeader - 8) = moviSize fs + 4 := by
    have := h.words (318, moviSize fs + 4) (by simp [finalPatches])
    rw [Nat.mod_eq_of_lt (by omega)] at this
    exact this
  have hat : (load32 file.bytes (sizeofAviHeader - 8) + (sizeofAviHeader - 4)) % 4294967296
      = sizeofAviHeader + moviSize fs := by
    rw [hmovi, Nat.mod_eq_of_lt (by omega)]
    unfold sizeofAviHeader
    omega
  have hfcc : load32 file.bytes (sizeofAviHeader + moviSize fs) = fccIdx1 := by
    have := h.load32_body (p := moviBytes fs) (v := fccIdx1) rfl
    rw [moviBytes_length] at this
    rw [this]
    decide
  have hcount : load32 file.bytes (sizeofAviHeader + moviSize fs + 4) = 16 * fs.length := by
    have := h.load32_body (p := moviBytes fs ++ word fccIdx1) (v := 16 * fs.length)
      (by rw [idx1Bytes, List.append_assoc])
    rw [List.length_append, moviBytes_length, word_length, ← Nat.add_assoc,
      Nat.mod_eq_of_lt (by omega)] at this
    exact this
  have hopen : ¬ (file.size < sizeofAviHeader ∨ 2147483648 ≤ sizeofAviHeader + moviSize fs
      ∨ file.size < sizeofAviHeader + moviSize fs + 8
      ∨ load32 file.bytes (sizeofAviHeader + moviSize fs) ≠ fccIdx1) := by
    rw [hfcc]
    simp only [ne_eq, not_true, or_false]
    omega
  have hread : ¬ (fs.length = 0
      ∨ file.size < sizeofAviHeader + moviSize fs + 8 + 16 * fs.length) := by
    omega
  unfold readHeaderAndIndex
  dsimp only
  rw [hat, if_neg hopen, hcount, Nat.mul_div_cancel_left _ (by decide), if_neg hread]
  refine ⟨rfl, ?_⟩
  intro i f hf
  dsimp only
  rw [if_pos (List.getElem?_eq_some_iff.mp hf).1]
  exact indexEntryAt_entry h hok hf

/-- A pass on an entry of the index sends its frame. -/
theorem playPass_finished (h : Finished hdr duration aBits file fs) (hok : ∀ f ∈ fs, f.Ok)
    (hsize : file.size < 2147483648) {pb : PBHandle} {i : ℕ} {f : AviFrame}
    (hf : fs[i]? = some f) (hpb : pb.idxArray i = f.entry (chunkOffset fs i))
    (hsmall : f.size ≤ mediaFrameSize) :
    playPass file pb i = [.entry i, .send (sentFrame f)] := by
  have hfok := hok f (List.mem_of_getElem? hf)
  obtain ⟨hlt, -⟩ := chunk_bytes h hok hsize hf
  obtain ⟨hbody, -⟩ := chunk_fields h hok hsize hf
  have hoffset : (f.entry (chunkOffset fs i)).offset = chunkOffset fs i :=
    Nat.mod_eq_of_lt (by omega)
  have hdata : loadBytes file.bytes ((f.entry (chunkOffset fs i)).offset + 8)
      (f.entry (chunkOffset fs i)).size = bodyOf f := by
    rw [hoffset]
    exact hbody
  have hlarge : ¬ mediaFrameSize < (f.entry (chunkOffset fs i)).size := Nat.not_lt.mpr hsmall
  rw [playPass, hpb, sendEntry, if_neg hlarge, hdata]
  show _ = [PlayEvent.entry i, PlayEvent.send (sentFrame f)]
  rw [sentFrame, ← bodyOf]
  by_cases hvideo : f.IsVideo
  · have hckid : (f.entry (chunkOffset fs i)).ckid = fcc00dc := if_pos hvideo
    have hflags : (f.entry (chunkOffset fs i)).flags = 0x11 ↔ f.IsKey := hfok.flags_iff
    rw [if_pos hckid, if_pos hvideo]
    simp only [hflags]
  · have hckid : (f.entry (chunkOffset fs i)).ckid = fcc01wb := if_neg hvideo
    rw [hckid, if_neg (by decide), if_pos rfl, if_neg hvideo]

end Read

/-! ## Playback of a finished recording -/

section Run

variable {hdr : List UInt8} {duration aBits : ℕ} {file : StdioFile} {fs : List AviFrame}

/-- The passes on the first `k` entries send the first `k` frames. -/
theorem passes_sent (h : Finished hdr duration aBits file fs) (hok : ∀ f ∈ fs, f.Ok)
    (hsize : file.size < 2147483648) (hsmall : ∀ f ∈ fs, f.size ≤ mediaFrameSize) {pb : PBHandle}
    (hpb : ∀ i f, fs[i]? = some f → pb.idxArray i = f.entry (chunkOffset fs i)) (k : ℕ)
    (hk : k ≤ fs.length) :
    ((List.range k).flatMap (playPass file pb)).filterMap PlayEvent.sent?
      = (fs.take k).map sentFrame := by
  induction k with
  | zero => rfl
  | succ k ih =>
    have hf := List.getElem?_eq_getElem (show k < fs.length by omega)
    have hpass := playPass_finished h hok hsize hf (hpb k _ hf)
      (hsmall _ (List.mem_of_getElem? hf))
    rw [List.range_succ, List.flatMap_append, List.filterMap_append, ih (by omega),
      List.flatMap_singleton, hpass, List.take_add_one, hf, Option.toList_some, List.map_append]
    rfl

/-- A pass reads the entry it is on. -/
theorem entry_mem_playPass {pb : PBHandle} {i cur : ℕ}
    (h : .entry i ∈ playPass file pb cur) : i = cur := by
  rw [playPass, sendEntry, List.mem_cons] at h
  rcases h with h | h
  · cases h
    rfl
  · split at h
    · simp at h
    · split at h
      · simp at h
      · split at h
        · simp at h
        · simp at h

/-- The passes on the entries of the index play the recording. -/
theorem playsAll_passes (h : Finished hdr duration aBits file fs) (hok : ∀ f ∈ fs, f.Ok)
    (hsize : file.size < 2147483648) (hsmall : ∀ f ∈ fs, f.size ≤ mediaFrameSize) {pb : PBHandle}
    (hpb : ∀ i f, fs[i]? = some f → pb.idxArray i = f.entry (chunkOffset fs i)) :
    PlaysAll fs ((List.range fs.length).flatMap (playPass file pb)) where
  sent := by rw [passes_sent h hok hsize hsmall hpb _ le_rfl, List.take_length]
  inside i hi := by
    obtain ⟨cur, hcur, hmem⟩ := List.mem_flatMap.mp hi
    rw [entry_mem_playPass hmem]
    exact List.mem_range.mp hcur

/-- From the start all frames are sent; then come two passes behind the index, and the thread
ends. -/
theorem playback_sends_all (h : Finished hdr duration aBits file fs) (hok : ∀ f ∈ fs, f.Ok)
    (hsize : file.size < 2147483648) (hsmall : ∀ f ∈ fs, f.size ≤ mediaFrameSize) (hne : fs ≠ [])
    (heap : ℕ → IndexEntry) (start : ℤ) {fuel : ℕ} (hfuel : fs.length + 3 ≤ fuel) :
    ∃ events, PlaysAll fs events ∧ thHistoryMedia file heap start start fuel
      = (events ++ (playPass file (readHeaderAndIndex file heap) fs.length
          ++ playPass file (readHeaderAndIndex file heap) (fs.length + 1)), true) := by
  obtain ⟨hcount, hpb⟩ := readHeaderAndIndex_finished h hok hsize hne heap
  refine ⟨_, playsAll_passes h hok hsize hsmall hpb, ?_⟩
  have hstart : startIndex file (readHeaderAndIndex file heap) start start = 0 := if_pos rfl
  rw [thHistoryMedia, hstart, playLoop_of_enough fuel (Nat.zero_le _) (by omega), hcount, Nat.sub_zero,
    ← List.range_eq_range', List.range_succ, List.range_succ, List.flatMap_append,
    List.flatMap_append, List.flatMap_singleton, List.flatMap_singleton, List.append_assoc]

/-- Whatever the time asked for, a recording that begins with a key frame is played from its first
frame. -/
theorem startIndex_eq_zero {pb : PBHandle} (start t : ℤ) (hcount : 0 < pb.indexCount)
    (hkey : (pb.idxArray 0).flags = 0x11) : startIndex file pb start t = 0 := by
  unfold startIndex
  dsimp only
  split
  · rfl
  · by_cases hnear : diffAbs (frameTimestamp file pb 0) t < 10
    · obtain ⟨n, hn⟩ := Nat.exists_eq_add_of_lt hcount
      rw [Nat.zero_add] at hn
      rw [hn, List.range_succ_eq_map, List.find?_cons_of_pos]
      · rfl
      · exact decide_eq_true ⟨hkey, hnear⟩
    · rw [List.find?_eq_none.mpr]
      · rfl
      · intro index _ hfound
        exact hnear (of_decide_eq_true hfound).2

/-- How playback begins. -/
theorem playback_begins (h : Finished hdr duration aBits file fs) (hok : ∀ f ∈ fs, f.Ok)
    (hsize : file.size < 2147483648) (hsmall : ∀ f ∈ fs, f.size ≤ mediaFrameSize)
    (heap : ℕ → IndexEntry) (start t : ℤ) {f : AviFrame} (hf : fs[0]? = some f) (hkey : f.IsKey) :
    (∃ fuel events, thHistoryMedia file heap start t fuel
        = (.entry 0 :: .send (sentFrame f) :: events, true))
      ∧ ∀ fuel events, thHistoryMedia file heap start t fuel = (events, true) →
        events.head? = some (.entry 0) ∧ .entry fs.length ∈ events := by
  have hmem := List.mem_of_getElem? hf
  have hne : fs ≠ [] := List.ne_nil_of_mem hmem
  obtain ⟨hcount, hpb⟩ := readHeaderAndIndex_finished h hok hsize hne heap
  have hflags : ((readHeaderAndIndex file heap).idxArray 0).flags = 0x11 := by
    rw [hpb 0 f hf]
    exact (hok f hmem).flags_iff.mpr hkey
  have hpos : 0 < (readHeaderAndIndex file heap).indexCount := by
    rw [hcount]
    exact List.length_pos_iff.mpr hne
  have hstart : startIndex file (readHeaderAndIndex file heap) start t = 0 :=
    startIndex_eq_zero start t hpos hflags
  have hpass := playPass_finished h hok hsize hf (hpb 0 f hf) (hsmall f hmem)
  simp only [thHistoryMedia, hstart]
  constructor
  · refine ⟨(readHeaderAndIndex file heap).indexCount + 3, ?_⟩
    rw [playLoop_of_enough _ (Nat.zero_le _) le_rfl, Nat.sub_zero, List.range'_succ,
      List.flatMap_cons, hpass]
    exact ⟨_, rfl⟩
  · intro fuel events hrun
    rw [playLoop_ended (Nat.zero_le _) hrun, Nat.sub_zero]
    constructor
    · rw [List.range'_succ, List.flatMap_cons, hpass]
      rfl
    · rw [List.mem_flatMap]
      refine ⟨fs.length, ?_, List.mem_cons_self⟩
      rw [List.mem_range'_1, hcount]
      omega

end Run

/-- A recording that has started begins with a key frame. -/
theorem record_begins {fs : List AviFrame} (hok : ∀ f ∈ fs, f.Ok)
    (hstart : (Recording.record fs).started = true) :
    ∃ g gs, (Recording.record fs).frames = g :: gs ∧ g.IsKey := by
  induction fs using List.reverseRecOn with
  | nil => cases hstart
  | append_singleton fs f ih =>
    rw [Recording.record_concat, Recording.add_started] at hstart
    rw [Recording.record_concat, Recording.add_frames]
    by_cases hbefore : (Recording.record fs).started = true
    · obtain ⟨g, gs, hframes, hkey⟩ := ih (fun g hg => hok g (List.mem_append_left _ hg)) hbefore
      rw [hframes]
      split
      · exact ⟨g, gs ++ [f], rfl, hkey⟩
      · exact ⟨g, gs, rfl, hkey⟩
    · have hidle : (Recording.record fs).started = false := by simpa using hbefore
      have hkey : f.IsKey := hstart.resolve_left hbefore
      -- an empty record buffer takes the frame
      have hroom : ¬ (Recording.record fs).Overflows f := by
        have hfits := (hok f (List.mem_append_right _ List.mem_cons_self)).fits
        rw [Recording.Overflows, ((Recording.record fs).idle hidle).2, moviSize_nil, Nat.zero_add]
        exact Nat.not_lt.mpr hfits
      rw [if_pos ⟨hstart, hroom⟩, Recording.frames_of_idle hidle]
      exact ⟨f, [], rfl, hkey⟩

/-- Agreement for a finished file. -/
theorem agrees_finished {hdr : List UInt8} {duration aBits : ℕ} {file : StdioFile}
    {fs : List AviFrame} (h : Finished hdr duration aBits file fs) (hok : ∀ f ∈ fs, f.Ok)
    (hsize : file.size < 2147483648) (hsmall : ∀ f ∈ fs, f.size ≤ mediaFrameSize)
    (heap : ℕ → IndexEntry) (start t : ℤ) {g : AviFrame} (hg : fs[0]? = some g) (hkey : g.IsKey) :
    Agrees file fs heap start t
      ↔ t ≠ start ∧ ((∃ f ∈ fs, NearKey t f) → ∃ f, fs[0]? = some f ∧ NearKey t f) := by
  obtain ⟨hbegin, hend⟩ := playback_begins h hok hsize hsmall heap start t hg hkey
  constructor
  · intro hagrees
    -- from the start the entry behind the index is read
    have htime : t ≠ start := by
      intro htime
      obtain ⟨fuel, events, hrun, hplays⟩ := hagrees.all htime
      exact absurd (hplays.inside _ (hend fuel events hrun).2) (lt_irrefl _)
    refine ⟨htime, ?_⟩
    intro hnear
    obtain ⟨i, f, hf, hnearf, fuel, events, hrun⟩ := hagrees.seeks htime hnear
    have hhead := (hend fuel _ hrun).1
    rw [List.head?_cons, Option.some.injEq, PlayEvent.entry.injEq] at hhead
    rw [hhead] at hf
    exact ⟨f, hf, hnearf⟩
  · rintro ⟨htime, hfirst⟩
    constructor
    · intro heq
      exact absurd heq htime
    · intro _ hnear
      obtain ⟨f, hf, hnearf⟩ := hfirst hnear
      obtain rfl : g = f := Option.some.inj (hg.symm.trans hf)
      exact ⟨0, g, hg, hnearf, hbegin⟩

/-- A recording with a frame is finished, and begins with a key frame. -/
theorem closed_begins {x : RecordSession} (hx : x.Succeeds) (hok : ∀ f ∈ x.frames, f.Ok)
    (hne : (Recording.record x.frames).frames ≠ []) (s : AviFile) :
    (∃ aBits, Finished x.header x.duration aBits (x.closed s).file
        (Recording.record x.frames).frames)
      ∧ ∃ g, (Recording.record x.frames).frames[0]? = some g ∧ g.IsKey := by
  have hstarted : (Recording.record x.frames).started = true := by
    by_contra hidle
    exact hne (Recording.frames_of_idle (by simpa using hidle))
  obtain ⟨g, gs, hframes, hkey⟩ := record_begins hok hstarted
  refine ⟨⟨_, (close_finished hx.closeIo x.header_length (hx.run_represents hok s) hstarted).2⟩,
    g, ?_, hkey⟩
  rw [hframes]
  rfl

/-- **Playback agrees with the recorder** exactly when it is not started at the recording's start,
and the first frame is near the time asked for if any key frame is. -/
theorem playback_agrees_iff (x : RecordSession) (s : AviFile) (heap : ℕ → IndexEntry)
    (start t : ℤ) (hx : x.Succeeds) (hok : ∀ f ∈ x.frames, f.Ok)
    (hsmall : ∀ f ∈ x.frames, f.size ≤ mediaFrameSize)
    (hne : (Recording.record x.frames).frames ≠ [])
    (hsize : (x.closed s).file.size < 2147483648) :
    Agrees (x.closed s).file (Recording.record x.frames).frames heap start t
      ↔ t ≠ start ∧ ((∃ f ∈ (Recording.record x.frames).frames, NearKey t f) →
        ∃ f, (Recording.record x.frames).frames[0]? = some f ∧ NearKey t f) := by
  obtain ⟨⟨aBits, hfin⟩, g, hg, hkey⟩ := closed_begins hx hok hne s
  apply agrees_finished hfin (RecordSession.record_ok hok) hsize _ heap start t hg hkey
  intro f hf
  exact hsmall f ((Recording.record_sublist x.frames).subset hf)

section Sample

/-- A recording of a key frame and an audio frame, at seconds 7 and 9. -/
def sampleSession : RecordSession := .ofFrames RecordSession.sampleFrames

theorem sampleSession_frames :
    (Recording.record sampleSession.frames).frames = RecordSession.sampleFrames := by
  rw [sampleSession, RecordSession.ofFrames_frames]
  exact ((Recording.record_complete _ fun f gs hfs => by
    rw [RecordSession.sampleFrames, List.cons.injEq] at hfs
    rw [← hfs.1]
    exact .inl rfl).1.mpr (groupsFit_of_total (by decide)))

theorem sampleSession_small : ∀ f ∈ sampleSession.frames, f.size ≤ mediaFrameSize := by
  rw [sampleSession, RecordSession.ofFrames_frames]
  decide

theorem sampleSession_size : (sampleSession.closed .zero).file.size < 2147483648 := by
  have hle := (RecordSession.ofFrames_succeeds RecordSession.sampleFrames).closed_size_le
    RecordSession.sampleFrames_ok ⟨_, _, rfl, .inl rfl⟩ .zero
  apply lt_of_le_of_lt hle
  decide

/-- Played from second 10, it begins with the key frame. -/
theorem playback_agrees_later :
    Agrees (sampleSession.closed .zero).file (Recording.record sampleSession.frames).frames
      (fun _ => ⟨0, 0, 0, 0⟩) 7 10 := by
  apply (playback_agrees_iff sampleSession .zero (fun _ => ⟨0, 0, 0, 0⟩) 7 10
    (RecordSession.ofFrames_succeeds _) RecordSession.sampleFrames_ok sampleSession_small
    (by rw [sampleSession_frames]; decide) sampleSession_size).mpr
  rw [sampleSession_frames]
  exact ⟨by decide, fun _ => ⟨_, rfl, .inl rfl, by decide⟩⟩

/-- Played from its start, it goes on behind the index. -/
theorem playback_disagrees_start :
    ¬ Agrees (sampleSession.closed .zero).file (Recording.record sampleSession.frames).frames
      (fun _ => ⟨0, 0, 0, 0⟩) 7 7 := by
  have hx := RecordSession.ofFrames_succeeds RecordSession.sampleFrames
  have hne : (Recording.record sampleSession.frames).frames ≠ [] := by
    rw [sampleSession_frames]
    decide
  obtain ⟨⟨aBits, hfin⟩, g, hg, hkey⟩ := closed_begins hx RecordSession.sampleFrames_ok hne .zero
  intro hagrees
  have hiff := agrees_finished hfin (RecordSession.record_ok RecordSession.sampleFrames_ok)
    sampleSession_size (fun f hf => sampleSession_small f ((Recording.record_sublist _).subset hf))
    (fun _ => ⟨0, 0, 0, 0⟩) 7 7 hg hkey
  exact (hiff.mp hagrees).1 rfl

end Sample

end Playback
