/-
# The recorder (`grd_avi_rec_api.c`)

`avi_normal_record_open`, `avi_record_write` with its `_extend` sibling, and
`avi_record_nornal_close` over one `AviFile`.  Every file operation has an outcome
given from outside (`OpenIo`, `WriteIo`, `CloseIo`); a failing one makes the
function return where the source returns.

An `AviFile` has one of `event_buf_flag` and `normal_buf_flag` set from open to
close, and the source treats `event_data_array` and `normal_data_array` alike:
`dataArray` is the array of the flag that is set.  The disk file and the `FILE`
the handle refers to are one field.  Counters are natural numbers; what is stored
to a file is their low 32 bits.  Results of `fflush`, `fseek` and `fclose`, which
the source does not look at, are not modelled.
-/
import IpCamera.AviFormat

/-! ## The handle -/

/-- `AviFile`, with the record buffer and the global `a_bits` it uses.  `idxStores` is no field
of the source: it lists the slots of `idx_array` stored to, oldest first. -/
structure AviFile where
  file : StdioFile
  filename : String
  idxfile : StdioFile
  idxfilename : String
  newFlag : Bool
  dataArray : Mem
  bufIndex : ℕ
  bufOffset : ℕ
  dataOffset : ℕ
  videoCount : ℕ
  audioBytes : ℕ
  audioCount : ℕ
  indexCount : ℕ
  idxArray : Mem
  idxStores : List ℕ
  preIndexPos : ℕ
  duration : ℕ
  /-- `file_info.start` -/
  start : ℕ
  initParam : AviInitParam
  aBits : ℕ

namespace AviFile

/-- A handle of zeros. -/
def zero : AviFile where
  file := .create
  filename := ""
  idxfile := .create
  idxfilename := ""
  newFlag := false
  dataArray := fun _ => 0
  bufIndex := 0
  bufOffset := 0
  dataOffset := 0
  videoCount := 0
  audioBytes := 0
  audioCount := 0
  indexCount := 0
  idxArray := fun _ => 0
  idxStores := []
  preIndexPos := 0
  duration := 0
  start := 0
  initParam := ⟨0, 0, 0, 0, .h264, 0, 0, 0⟩
  aBits := 0

/-- `memset` of the handle to zero; the global buffer and `a_bits` stay. -/
def clear (s : AviFile) : AviFile := { zero with dataArray := s.dataArray, aBits := s.aBits }

/-- An `fwrite` to the recording. -/
def writeFile (s : AviFile) (src : ℕ → UInt8) (n : ℕ) (o : WriteOutcome) : Bool × AviFile :=
  let (ok, file) := s.file.fwrite src n o
  (ok, { s with file := file })

/-- An `fwrite` to the temporary index file. -/
def writeIdxfile (s : AviFile) (src : ℕ → UInt8) (n : ℕ) (o : WriteOutcome) : Bool × AviFile :=
  let (ok, idxfile) := s.idxfile.fwrite src n o
  (ok, { s with idxfile := idxfile })

end AviFile

/-- Statements with an early `return -1`: run them up to the first that fails. -/
def runSteps : List (AviFile → Bool × AviFile) → AviFile → Bool × AviFile
  | [], s => (true, s)
  | step :: steps, s =>
      match step s with
      | (false, s) => (false, s)
      | (true, s) => runSteps steps s

/-- `if (0 > g_sd_tats) return -1;` -/
def checkSd (ok : Bool) (s : AviFile) : Bool × AviFile := (ok, s)

/-! ## Opening -/

/-- `GRD_SD_MOUNT_POINT` -/
def grdSdMountPoint : String := "/mnt/sd_card"

/-- Outcomes of opening: the SD card at the successive tests, the date directory, the two files
and the header. -/
structure OpenIo where
  sdOk : ℕ → Bool
  dirOk : Bool
  fileOk : Bool
  idxOk : Bool
  header : WriteOutcome

structure OpenIo.AllOk (io : OpenIo) : Prop where
  sd : ∀ i, io.sdOk i = true
  dir : io.dirOk = true
  file : io.fileOk = true
  idx : io.idxOk = true
  header : io.header = .full

/-- `avi_write_header` -/
def aviWriteHeader (io : OpenIo) (s : AviFile) : Bool × AviFile :=
  let header := aviHeader s.initParam s.videoCount s.audioBytes
  let s := { s with aBits := headerBits s.initParam, dataOffset := sizeofAviHeader }
  runSteps
    [checkSd (io.sdOk 2), checkSd (io.sdOk 3),
      fun s => s.writeFile (listMem header) sizeofAviHeader io.header] s

/-- `avi_normal_record_open`; `date` is the day in local time, as `YYYYMMDD`. -/
def aviNormalRecordOpen (s : AviFile) (date : String) (io : OpenIo) : ℤ × AviFile :=
  let datePath := grdSdMountPoint ++ "/" ++ date
  let s := { s with dataOffset := 0, videoCount := 0, audioBytes := 0, indexCount := 0 }
  if recordIsFixedSize s.initParam.mode = false ∧ recordIsFixedDuration s.initParam.mode = false then
    (-1, s)
  else
    let opened :=
      runSteps
        [checkSd (io.sdOk 0), fun s => (io.dirOk, s),
          fun s => (true, { s with filename := datePath ++ "/" ++ toString s.start }),
          checkSd (io.sdOk 1),
          fun s => (io.fileOk, { s with file := .create }),
          fun s => (io.idxOk,
            { s with idxfile := .create, idxfilename := grdSdMountPoint ++ "/" ++ toString s.start }),
          aviWriteHeader io] s
    match opened with
    | (false, s) => (-1, s)
    | (true, s) =>
        (0, { s with
          newFlag := true
          dataArray := memset s.dataArray 0 0 recBufSize
          bufOffset := 0
          bufIndex := 0 })

/-- `_record_normal_start`; a duration of zero opens nothing and returns 0. -/
def recordNormalStart (s : AviFile) (recordDuration frameRate : ℕ) (date : String) (io : OpenIo) :
    ℤ × AviFile :=
  let s := { s with initParam := { initRecParam with duration := recordDuration, fps := frameRate } }
  if 0 < recordDuration then aviNormalRecordOpen s date io else (0, s)

/-! ## Writing -/

/-- Outcomes of one `avi_record_write`: the SD card, `fopen`, and the two writes of the flush. -/
structure WriteIo where
  sdOk : Bool
  openOk : Bool
  idxWrite : WriteOutcome
  dataWrite : WriteOutcome
deriving DecidableEq, Repr

/-- Every file operation of the call succeeds. -/
def WriteIo.ok : WriteIo := ⟨true, true, .full, .full⟩

/-- Stores to successive slots of an `int` array. -/
def storeInts (m : Mem) : ℕ → List ℕ → Mem
  | _, [] => m
  | slot, v :: vs => storeInts (store32 m (4 * slot) v) (slot + 1) vs

namespace AviFile

/-- `fopen(filename, "rb+")`, `fseek` behind the header, and `new_flag = 0`. -/
def reopen (s : AviFile) : AviFile :=
  { s with
    file := s.file.fseek sizeofAviHeader
    dataOffset := sizeofAviHeader
    newFlag := false }

/-- The frame's chunk and its `JUNK` chunk go to the record buffer.  The pad byte is not stored. -/
def storeChunk (s : AviFile) (f : AviFrame) : AviFile :=
  let offset := s.bufOffset
  let array := store32 s.dataArray offset f.ckid
  let array := store32 array (offset + 4) (f.data.length + f.isAlign)
  let offset := offset + 8
  let array := memcpy array offset (listMem f.data) f.data.length
  let offset := offset + (f.data.length + f.isAlign)
  let array := store32 array offset fccJUNK
  let array := store32 array (offset + 4) 8
  let array := store32 array (offset + 8) f.stamp.1
  let array := store32 array (offset + 12) f.stamp.2
  { s with dataArray := array, bufOffset := offset + 16, bufIndex := s.bufIndex + 1 }

/-- `avi_set_32(&idx_array[4 * pre_index_pos + j], ..)` for successive `j`. -/
def setIdx (s : AviFile) (vs : List ℕ) : AviFile :=
  { s with
    idxArray := storeInts s.idxArray (4 * s.preIndexPos) vs
    idxStores := s.idxStores ++ (List.range vs.length).map (4 * s.preIndexPos + ·) }

/-- The frame's index entry goes to `idx_array`, and the counters follow. -/
def storeIndex (s : AviFile) (f : AviFrame) : AviFile :=
  let s :=
    if f.IsVideo then
      { s.setIdx [fcc00dc, if f.intra ≠ 0 then 0x11 else 0x10, s.dataOffset,
          f.data.length + f.isAlign] with
        videoCount := s.videoCount + 1 }
    else
      { s.setIdx [fcc01wb, 0, s.dataOffset, f.data.length + f.isAlign] with
        audioBytes := s.audioBytes + (f.data.length + f.isAlign)
        audioCount := s.audioCount + 1 }
  { s with
    dataOffset := s.dataOffset + f.chunkSize
    indexCount := s.indexCount + 1
    preIndexPos := s.preIndexPos + 1 }

/-- From the label `write_data` on: the pending entries go to the index file, the buffer to the
recording. -/
def writeData (s : AviFile) (io : WriteIo) : ℤ × AviFile :=
  let s := { s with bufIndex := 0 }
  let idxCount := if s.preIndexPos > dataSaveNum then dataSaveNum else s.preIndexPos
  match s.writeIdxfile s.idxArray (idxCount * oneIndexSize) io.idxWrite with
  | (false, s) => (-1, s)
  | (true, s) =>
      let s := { s with preIndexPos := 0 }
      match s.writeFile s.dataArray s.bufOffset io.dataWrite with
      | (false, s) => (-1, s)
      | (true, s) =>
          (0, { s with dataArray := memset s.dataArray 0 0 recBufSize, bufOffset := 0 })

/-- The frame does not fit behind what the record buffer holds. -/
def Overflows (s : AviFile) (f : AviFrame) : Prop :=
  s.bufOffset + 8 + f.data.length + f.isAlign + 16 > recBufSize

instance (s : AviFile) (f : AviFrame) : Decidable (s.Overflows f) :=
  inferInstanceAs (Decidable (_ > _))

/-- The body of `avi_write_frame_data` once the recording is open.  The overflow test jumps over
the stores to `write_data`: the frame in hand goes nowhere. -/
def storeFrame (s : AviFile) (f : AviFrame) (io : WriteIo) : ℤ × AviFile :=
  if s.Overflows f then s.writeData io
  else if f.IsVideo ∨ f.IsAudio then
    let s := (s.storeChunk f).storeIndex f
    if s.bufIndex = dataSaveNum then s.writeData io else (0, s)
  else (-1, s)

end AviFile

/-- `avi_write_frame_data` and `avi_write_frame_data_extend`, which differ in the two words of the
time value only. -/
def aviWriteFrame (s : AviFile) (f : AviFrame) (io : WriteIo) : ℤ × AviFile :=
  if io.sdOk = false then (-1, s)
  else if s.newFlag = true then
    if f.IsKey then
      -- the first key frame opens the recording; what comes before it is dropped
      if io.openOk = false then (-1, s) else s.reopen.storeFrame f io
    else (1, s)
  else s.storeFrame f io

/-- `avi_write_frame_data` -/
def aviWriteFrameData (s : AviFile) (data : List UInt8) (intra : ℤ) (tvSec tvUsec : ℕ)
    (io : WriteIo) : ℤ × AviFile :=
  aviWriteFrame s ⟨data, intra, (tvSec, tvUsec)⟩ io

/-- `avi_write_frame_data_extend` -/
def aviWriteFrameDataExtend (s : AviFile) (data : List UInt8) (intra : ℤ) (pTimeval : ℕ)
    (io : WriteIo) : ℤ × AviFile :=
  aviWriteFrame s ⟨data, intra, (pTimeval, pTimeval)⟩ io

/-- What `avi_record_write` does to the handle when the write has failed. -/
def AviFile.failed (s : AviFile) : AviFile :=
  { s with
    newFlag := true
    dataArray := memset s.dataArray 0 0 recBufSize
    bufOffset := 0
    bufIndex := 0 }

/-- `avi_record_write` around either of the two. -/
def recordResult : ℤ × AviFile → ℤ × AviFile
  | (ret, s) => if ret < 0 then (-1, s.failed) else (ret, s)

/-- `avi_record_write` and `avi_record_write_extend` for a frame with its time words. -/
def aviRecordFrame (s : AviFile) (f : AviFrame) (io : WriteIo) : ℤ × AviFile :=
  recordResult (aviWriteFrame s f io)

/-- `avi_record_write` -/
def aviRecordWrite (s : AviFile) (data : List UInt8) (intra : ℤ) (tvSec tvUsec : ℕ)
    (io : WriteIo) : ℤ × AviFile :=
  recordResult (aviWriteFrameData s data intra tvSec tvUsec io)

/-- `avi_record_write_extend` -/
def aviRecordWriteExtend (s : AviFile) (data : List UInt8) (intra : ℤ) (pTimeval : ℕ)
    (io : WriteIo) : ℤ × AviFile :=
  recordResult (aviWriteFrameDataExtend s data intra pTimeval io)

theorem aviRecordWrite_eq (s : AviFile) (data : List UInt8) (intra : ℤ) (tvSec tvUsec : ℕ)
    (io : WriteIo) :
    aviRecordWrite s data intra tvSec tvUsec io
      = aviRecordFrame s ⟨data, intra, (tvSec, tvUsec)⟩ io := rfl

theorem aviRecordWriteExtend_eq (s : AviFile) (data : List UInt8) (intra : ℤ) (pTimeval : ℕ)
    (io : WriteIo) :
    aviRecordWriteExtend s data intra pTimeval io
      = aviRecordFrame s ⟨data, intra, (pTimeval, pTimeval)⟩ io := rfl

/-! ## Closing -/

/-- Outcomes of closing.  `block` and `patch` are indexed by the position in their sequence. -/
structure CloseIo where
  sdOk : ℕ → Bool
  rest : WriteOutcome
  idx1 : WriteOutcome
  pending : WriteOutcome
  idxSize : WriteOutcome
  blockRead : ℕ → Bool
  blockWrite : ℕ → WriteOutcome
  patch : ℕ → WriteOutcome
  removeOk : Bool
  renameOk : Bool

structure CloseIo.AllOk (io : CloseIo) : Prop where
  sd : ∀ i, io.sdOk i = true
  rest : io.rest = .full
  idx1 : io.idx1 = .full
  pending : io.pending = .full
  idxSize : io.idxSize = .full
  blockRead : ∀ i, io.blockRead i = true
  blockWrite : ∀ i, io.blockWrite i = .full
  patch : ∀ i, io.patch i = .full
  remove : io.removeOk = true
  rename : io.renameOk = true

namespace AviFile

/-- `fseek` to a header field and `write_int32`. -/
def patchHeader (offset v : ℕ) (o : WriteOutcome) (s : AviFile) : Bool × AviFile :=
  { s with file := s.file.fseek offset }.writeFile (le32 v) 4 o

/-- `if (duration < 1000) duration = 1000;` -/
def clampDuration (s : AviFile) : AviFile :=
  { s with duration := if s.duration < 1000 then 1000 else s.duration }

/-- `duration * 1000 / video_count`, in `unsigned int`. -/
def microSecPerFrame (s : AviFile) : ℕ := s.duration * 1000 % 4294967296 / s.videoCount

end AviFile

/-- `update_avi_header`.  The offsets are those of `avi_len`, `movi_len`, `dwTotalFrames`,
`dwMicroSecPerFrame`, and of `dwScale`, `dwLength` (video), `dwLength`, `dwRate` (audio). -/
def updateAviHeader (io : CloseIo) (s : AviFile) : Bool × AviFile :=
  let aviLen := s.file.pos - 8
  let moviLen := s.dataOffset - sizeofAviHeader + 4
  let audioCount := s.audioBytes / sampleSize s.aBits
  runSteps
    [checkSd (io.sdOk 2),
      AviFile.patchHeader 4 aviLen (io.patch 0),
      AviFile.patchHeader (sizeofAviHeader - 8) moviLen (io.patch 1),
      AviFile.patchHeader 48 s.videoCount (io.patch 2),
      AviFile.patchHeader 32 s.microSecPerFrame (io.patch 3),
      AviFile.patchHeader 128 s.microSecPerFrame (io.patch 4),
      AviFile.patchHeader 140 s.videoCount (io.patch 5),
      AviFile.patchHeader 264 audioCount (io.patch 6),
      fun s => (true, s.clampDuration),
      AviFile.patchHeader 256 8000 (io.patch 7)] s

/-- The loop that copies the temporary index file to the recording, `left` entries in blocks of
64; `k` counts the blocks. -/
def copyIndex (io : CloseIo) (k left : ℕ) (s : AviFile) : Bool × AviFile :=
  if left = 0 then (true, s)
  else
    let readSize := if 64 > left then left * 16 else 1024
    match s.idxfile.fread readSize with
    | (none, idxfile) => (false, { s with idxfile := idxfile })
    | (some block, idxfile) =>
        let s := { s with idxfile := idxfile }
        -- a short read
        if io.blockRead k = false then (false, s)
        else
          match s.writeFile block readSize (io.blockWrite k) with
          | (false, s) => (false, s)
          | (true, s) => copyIndex io (k + 1) (if 64 > left then 0 else left - 64) s
termination_by left
decreasing_by split <;> omega

/-- The pending entries go to the temporary index file. -/
def flushPending (io : CloseIo) (s : AviFile) : Bool × AviFile :=
  if s.preIndexPos > 0 then
    s.writeIdxfile s.idxArray (s.preIndexPos * oneIndexSize) io.pending
  else (true, s)

/-- `avi_add_index` -/
def aviAddIndex (io : CloseIo) (s : AviFile) : Bool × AviFile :=
  runSteps
    [checkSd (io.sdOk 1),
      fun s => s.writeFile (le32 fccIdx1) 4 io.idx1,
      flushPending io,
      fun s => (true, { s with preIndexPos := 0 }),
      fun s => s.writeFile (le32 (16 * s.indexCount)) 4 io.idxSize,
      fun s => (true, { s with idxfile := s.idxfile.fseek 0 }),
      fun s => copyIndex io 0 s.indexCount s,
      updateAviHeader io] s

/-- What is left in the record buffer goes to the recording. -/
def flushRest (io : CloseIo) (s : AviFile) : Bool × AviFile :=
  if s.bufOffset ≠ 0 then
    match s.writeFile s.dataArray s.bufOffset io.rest with
    | (false, s) => (false, s)
    | (true, s) => (true, { s with bufIndex := 0, bufOffset := 0 })
  else (true, s)

/-- `rename` to the name with the duration in seconds. -/
def renameFinished (io : CloseIo) (s : AviFile) : Bool × AviFile :=
  (io.renameOk,
    { s with filename := s.filename ++ "-" ++ toString (s.duration / 1000) ++ ".avi" })

/-- `avi_record_nornal_close`.  A recording no frame of which was written is left as it is. -/
def aviRecordNornalClose (s : AviFile) (io : CloseIo) : ℤ × AviFile :=
  if io.sdOk 0 = false then (-1, s)
  else
    let finished :=
      if s.newFlag = false then
        runSteps
          [flushRest io, aviAddIndex io, fun s => (io.removeOk, s), renameFinished io] s
      else (true, s)
    match finished with
    | (false, s) => (-1, s)
    | (true, s) => (0, { s with preIndexPos := 0 })

/-- `_record_normal_stop` -/
def recordNormalStop (s : AviFile) (io : CloseIo) : ℤ × AviFile := aviRecordNornalClose s io

/-! ## Runs -/

/-- One `avi_record_write` or `avi_record_write_extend` call. -/
structure RecordCall where
  frame : AviFrame
  io : WriteIo

namespace AviFile

/-- The handle after a sequence of calls. -/
def run (s : AviFile) (cs : List RecordCall) : AviFile :=
  cs.foldl (fun s c => (aviRecordFrame s c.frame c.io).2) s

/-- The frames of the calls that return 0. -/
def accepted : AviFile → List RecordCall → List AviFrame
  | _, [] => []
  | s, c :: cs =>
      let (ret, s) := aviRecordFrame s c.frame c.io
      if ret = 0 then c.frame :: accepted s cs else accepted s cs

end AviFile

/-- The calls of a list of frames, every file operation succeeding. -/
def okCalls (fs : List AviFrame) : List RecordCall := fs.map fun f => ⟨f, .ok⟩

/-- One recording: what it is opened with, the calls, and what it is closed with. -/
structure RecordSession where
  recordDuration : ℕ
  frameRate : ℕ
  start : ℕ
  date : String
  openIo : OpenIo
  calls : List RecordCall
  duration : ℕ
  closeIo : CloseIo

namespace RecordSession

/-- The handle after `memset`, `record_set_start_time` and `_record_normal_start`. -/
def opened (x : RecordSession) (s : AviFile) : AviFile :=
  (recordNormalStart { s.clear with start := x.start } x.recordDuration x.frameRate x.date
    x.openIo).2

/-- The handle after the calls and `_record_normal_stop`. -/
def closed (x : RecordSession) (s : AviFile) : AviFile :=
  (recordNormalStop { (x.opened s).run x.calls with duration := x.duration } x.closeIo).2

def frames (x : RecordSession) : List AviFrame := x.calls.map RecordCall.frame

/-- Every file operation of the session succeeds. -/
structure Succeeds (x : RecordSession) : Prop where
  duration_pos : 0 < x.recordDuration
  openIo : x.openIo.AllOk
  calls : ∀ c ∈ x.calls, c.io = .ok
  closeIo : x.closeIo.AllOk

/-- A recording of `fs`, every file operation succeeding. -/
def ofFrames (fs : List AviFrame) : RecordSession where
  recordDuration := 15
  frameRate := 20
  start := 0
  date := "20240101"
  openIo := ⟨fun _ => true, true, true, true, .full⟩
  calls := okCalls fs
  duration := 15000
  closeIo := ⟨fun _ => true, .full, .full, .full, .full, fun _ => true, fun _ => .full,
    fun _ => .full, true, true⟩

theorem ofFrames_frames (fs : List AviFrame) : (ofFrames fs).frames = fs := by
  show (fs.map fun f => RecordCall.mk f .ok).map RecordCall.frame = fs
  rw [List.map_map]
  exact List.map_id fs

theorem ofFrames_succeeds (fs : List AviFrame) : (ofFrames fs).Succeeds where
  duration_pos := by show 0 < 15; decide
  openIo := ⟨fun _ => rfl, rfl, rfl, rfl, rfl⟩
  calls := by
    intro c hc
    obtain ⟨f, -, rfl⟩ := List.mem_map.mp hc
    rfl
  closeIo := ⟨fun _ => rfl, rfl, rfl, rfl, rfl, fun _ => rfl, fun _ => rfl, fun _ => rfl, rfl, rfl⟩

/-- A key frame and an audio frame. -/
def sampleFrames : List AviFrame := [⟨[0, 0, 0, 1, 0x65], 1, (7, 7)⟩, ⟨[1, 2], 2, (9, 9)⟩]

theorem sampleFrames_ok : ∀ f ∈ (ofFrames sampleFrames).frames, f.Ok := by
  rw [ofFrames_frames]
  intro f hf
  simp only [sampleFrames, List.mem_cons, List.not_mem_nil, or_false] at hf
  rcases hf with rfl | rfl
  · exact ⟨by decide, by decide⟩
  · exact ⟨by decide, by decide⟩

end RecordSession
