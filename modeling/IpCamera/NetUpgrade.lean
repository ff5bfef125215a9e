/-
# The network upgrade (`net_upgrad.c`)

A REQUEST announces an image, RECV messages carry its packets.  The handler counts
packets and bytes over messages; when both counts are those announced it calls
`upgrade_start` with the stored file.

The counts say nothing about which packets arrived, and the result of the write is
not looked at.  So the stored file is the image if every packet taken is the next
one and is written as a whole (`NetUpgrade.InOrder`): `upgrade_starts_complete`.
`Receiving` is the invariant: `k` packets of the image are in the file.
-/
import IpCamera.ByteMemory

/-! ## The handler -/

/-- `sdk_upgrad_pkg_info_t` of a REQUEST; both are `uint32_t`. -/
structure UpgradPkgInfo where
  totalPacket : ℕ
  totalLen : ℕ

/-- `sdk_bin_stream_t` of a RECV message; `data` are its `size` bytes. -/
structure BinStream where
  flag : ℕ
  seq : ℕ
  data : List UInt8
deriving DecidableEq

/-- `pu_upg_handle`; `fileOpen` is `file_fd >= 0`, and `stored` is the file `DEFAULT_UPG_FILE`.  The
`int` counters are their 32 bits. -/
structure PuUpgHandle where
  reportProcess : ℕ
  upgradSession : ℕ
  fileOpen : Bool
  totalLen : ℕ
  countLen : ℕ
  packetNum : ℕ
  totalPacket : ℕ
  stored : List UInt8
deriving DecidableEq

/-- Outcomes of a REQUEST: `upgrade_tid_runing`, the open and the random session. -/
structure ReqIo where
  running : Bool
  openOk : Bool
  session : ℕ

/-- Outcomes of a RECV message: the bytes `os_writen` writes, and the result of `upgrade_start`. -/
structure RecvIo where
  written : ℕ
  startOk : Bool

namespace PuUpgHandle

/-- `{0,0,-1,0,0}`; the file holds anything. -/
def init (stored : List UInt8) : PuUpgHandle := ⟨0, 0, false, 0, 0, 0, 0, stored⟩

/-- `_reset_upg` -/
def resetUpg (h : PuUpgHandle) : PuUpgHandle := if h.fileOpen = true then init h.stored else h

/-- `_msg_net_upgrade_req` -/
def msgNetUpgradeReq (h : PuUpgHandle) (info : UpgradPkgInfo) (io : ReqIo) : ℤ × PuUpgHandle :=
  if io.running = true then (-1, h)
  else if h.reportProcess ≠ 0 then (-1, h)
  else if io.openOk = false then (-1, { h.resetUpg with fileOpen := false })
  else
    (0, { h.resetUpg with
      fileOpen := true
      stored := []
      totalLen := info.totalLen
      totalPacket := info.totalPacket
      upgradSession := io.session
      packetNum := 0 })

/-- The packet is taken: the file is open, and the session is the current one. -/
def Takes (h : PuUpgHandle) (bs : BinStream) : Prop :=
  h.fileOpen = true ∧ h.upgradSession = bs.flag

instance (h : PuUpgHandle) (bs : BinStream) : Decidable (h.Takes bs) :=
  inferInstanceAs (Decidable (_ ∧ _))

/-- The write and the two counts.  The result of the write is not looked at. -/
def takePacket (h : PuUpgHandle) (bs : BinStream) (io : RecvIo) : PuUpgHandle :=
  { h with
    stored := h.stored ++ bs.data.take io.written
    countLen := (h.countLen + bs.data.length) % 4294967296
    packetNum := (h.packetNum + 1) % 4294967296 }

/-- `_msg_net_upgrade_recv`, with the file `upgrade_start` is called with. -/
def msgNetUpgradeRecv (h : PuUpgHandle) (bs : BinStream) (io : RecvIo) :
    ℤ × PuUpgHandle × Option (List UInt8) :=
  if ¬ h.Takes bs then (-1, h, none)
  else
    let h := h.takePacket bs io
    if h.packetNum = h.totalPacket ∧ h.countLen = h.totalLen then
      (if io.startOk = true then 0 else -1, h.resetUpg, some h.stored)
    else (0, h, none)

end PuUpgHandle

/-! ## The system -/

/-- An upgrade image, cut into packets; the fields of a REQUEST hold its numbers of packets and of
bytes. -/
structure UpgradeImage where
  packets : List (List UInt8)
  packets_lt : packets.length < 4294967296
  bytes_lt : packets.flatten.length < 4294967296

namespace UpgradeImage

def bytes (image : UpgradeImage) : List UInt8 := image.packets.flatten

/-- What a REQUEST for the image says. -/
def info (image : UpgradeImage) : UpgradPkgInfo := ⟨image.packets.length, image.bytes.length⟩

end UpgradeImage

/-- The messages delivered to the handler, with the outcomes of its calls. -/
inductive NetMsg where
  | request (image : UpgradeImage) (io : ReqIo)
  | recv (bs : BinStream) (io : RecvIo)

/-- The handler, the image announced by the latest REQUEST it has not refused, and what
`upgrade_start` has been called with so far, each time with the image announced then. -/
structure NetUpgrade where
  handle : PuUpgHandle
  image : UpgradeImage
  starts : List (List UInt8 × UpgradeImage)

namespace NetUpgrade

/-- Before the first message. -/
def init (stored : List UInt8) : NetUpgrade :=
  ⟨.init stored, ⟨[], by decide, by decide⟩, []⟩

/-- The REQUEST gets past the two tests that refuse it. -/
def Admits (s : NetUpgrade) (io : ReqIo) : Prop :=
  io.running = false ∧ s.handle.reportProcess = 0

instance (s : NetUpgrade) (io : ReqIo) : Decidable (s.Admits io) :=
  inferInstanceAs (Decidable (_ ∧ _))

/-- One message. -/
def step (s : NetUpgrade) : NetMsg → NetUpgrade
  | .request image io =>
      ⟨(s.handle.msgNetUpgradeReq image.info io).2, if s.Admits io then image else s.image,
        s.starts⟩
  | .recv bs io =>
      let (_, handle, start) := s.handle.msgNetUpgradeRecv bs io
      ⟨handle, s.image, s.starts ++ (start.map fun file => (file, s.image)).toList⟩

def run (s : NetUpgrade) (ms : List NetMsg) : NetUpgrade := ms.foldl step s

/-- A packet the handler takes is the next one of the image, and it is written as a whole. -/
def InOrder (s : NetUpgrade) : NetMsg → Prop
  | .request _ _ => True
  | .recv bs io => s.handle.Takes bs →
      s.image.packets[s.handle.packetNum]? = some bs.data ∧ bs.data.length ≤ io.written

/-- Every message meets the condition in the state it finds. -/
def AllInOrder : NetUpgrade → List NetMsg → Prop
  | _, [] => True
  | s, m :: ms => s.InOrder m ∧ AllInOrder (s.step m) ms

/-- Every RECV message is a packet of an image announced before, in the session of its REQUEST:
messages may be lost, repeated and reordered, but not forged.  `known` are the images announced so
far, with their sessions. -/
def Genuine : List (UpgradeImage × ℕ) → List NetMsg → Prop
  | _, [] => True
  | known, .request image io :: ms => Genuine ((image, io.session) :: known) ms
  | known, .recv bs _ :: ms =>
      (∃ p ∈ known, p.2 = bs.flag ∧ p.1.packets[bs.seq]? = some bs.data) ∧ Genuine known ms

/-- Whenever `upgrade_start` was called, the file was the image announced. -/
def Complete (s : NetUpgrade) : Prop := ∀ p ∈ s.starts, p.1 = p.2.bytes

end NetUpgrade

/-! ## What is in the file -/

/-- Part way through: the first `k` packets of `image` are in the file and counted. -/
structure Receiving (image : UpgradeImage) (k : ℕ) (h : PuUpgHandle) : Prop where
  totalPacket : h.totalPacket = image.packets.length
  totalLen : h.totalLen = image.bytes.length
  packetNum : h.packetNum = k
  stored : h.stored = (image.packets.take k).flatten
  countLen : h.countLen = (image.packets.take k).flatten.length
  more : k ≤ image.packets.length

namespace PuUpgHandle

/-- A closed handle is all zeros. -/
def Idle (h : PuUpgHandle) : Prop := h = init h.stored

theorem resetUpg_idle {h : PuUpgHandle} (hidle : h.fileOpen = false → h.Idle) :
    h.resetUpg.Idle ∧ h.resetUpg.fileOpen = false := by
  unfold resetUpg
  by_cases hopen : h.fileOpen = true
  · rw [if_pos hopen]
    exact ⟨rfl, rfl⟩
  · rw [if_neg hopen]
    have hclosed : h.fileOpen = false := by simpa using hopen
    exact ⟨hidle hclosed, hclosed⟩

/-- A REQUEST that is taken starts at packet 0. -/
theorem msgNetUpgradeReq_receiving {h : PuUpgHandle} (hidle : h.fileOpen = false → h.Idle)
    {io : ReqIo} (hrun : io.running = false) (hrep : h.reportProcess = 0)
    (hopen : io.openOk = true) (image : UpgradeImage) :
    (h.msgNetUpgradeReq image.info io).2.fileOpen = true
      ∧ (h.msgNetUpgradeReq image.info io).2.upgradSession = io.session
      ∧ Receiving image 0 (h.msgNetUpgradeReq image.info io).2 := by
  obtain ⟨hzero, -⟩ := resetUpg_idle hidle
  have hcount : h.resetUpg.countLen = 0 := by
    rw [hzero]
    rfl
  unfold msgNetUpgradeReq
  rw [if_neg (by rw [hrun]; decide), if_neg (not_not.mpr hrep), if_neg (by rw [hopen]; decide)]
  exact ⟨rfl, rfl, rfl, rfl, rfl, rfl, hcount, Nat.zero_le _⟩

/-- A packet that is dropped. -/
theorem msgNetUpgradeRecv_drop {h : PuUpgHandle} {bs : BinStream} (ht : ¬ h.Takes bs)
    (io : RecvIo) : h.msgNetUpgradeRecv bs io = (-1, h, none) := if_pos ht

/-- A packet that does not complete the counts. -/
theorem msgNetUpgradeRecv_more {h : PuUpgHandle} {bs : BinStream} {io : RecvIo} (ht : h.Takes bs)
    (hmore : ¬ ((h.takePacket bs io).packetNum = h.totalPacket
      ∧ (h.takePacket bs io).countLen = h.totalLen)) :
    h.msgNetUpgradeRecv bs io = (0, h.takePacket bs io, none) := by
  unfold msgNetUpgradeRecv
  rw [if_neg (not_not.mpr ht)]
  exact if_neg hmore

/-- A packet that completes the counts. -/
theorem msgNetUpgradeRecv_last {h : PuUpgHandle} {bs : BinStream} {io : RecvIo} (ht : h.Takes bs)
    (hlast : (h.takePacket bs io).packetNum = h.totalPacket
      ∧ (h.takePacket bs io).countLen = h.totalLen) :
    h.msgNetUpgradeRecv bs io
      = (if io.startOk = true then 0 else -1, init (h.takePacket bs io).stored,
          some (h.takePacket bs io).stored) := by
  have hreset : (h.takePacket bs io).resetUpg = init (h.takePacket bs io).stored := if_pos ht.1
  unfold msgNetUpgradeRecv
  rw [if_neg (not_not.mpr ht), ← hreset]
  exact if_pos hlast

end PuUpgHandle

theorem flatten_take_succ {l : List (List UInt8)} {k : ℕ} {d : List UInt8} (h : l[k]? = some d) :
    (l.take (k + 1)).flatten = (l.take k).flatten ++ d := by
  rw [List.take_add_one, h]
  simp

/-- The counts of a prefix are below those of the image. -/
theorem UpgradeImage.prefix_lt (image : UpgradeImage) (k : ℕ) :
    (image.packets.take k).flatten.length < 4294967296 := by
  have hsub : (image.packets.take k).flatten.Sublist image.packets.flatten :=
    (List.take_sublist k _).flatten
  have hlen := hsub.length_le
  have hlt := image.bytes_lt
  omega

/-- The next packet, written as a whole. -/
theorem Receiving.takePacket {image : UpgradeImage} {k : ℕ} {h : PuUpgHandle}
    (hrec : Receiving image k h) {bs : BinStream} (hnext : image.packets[k]? = some bs.data)
    {io : RecvIo} (hwritten : bs.data.length ≤ io.written) :
    Receiving image (k + 1) (h.takePacket bs io) := by
  have hlt : k < image.packets.length := (List.getElem?_eq_some_iff.mp hnext).1
  have hmax := image.packets_lt
  have hflat := flatten_take_succ hnext
  constructor
  case totalPacket => exact hrec.totalPacket
  case totalLen => exact hrec.totalLen
  case packetNum =>
    show (h.packetNum + 1) % 4294967296 = k + 1
    rw [hrec.packetNum]
    omega
  case stored =>
    show h.stored ++ bs.data.take io.written = _
    rw [hflat, hrec.stored, List.take_of_length_le hwritten]
  case countLen =>
    show (h.countLen + bs.data.length) % 4294967296 = _
    have hbytes := image.prefix_lt (k + 1)
    rw [hflat, List.length_append] at hbytes ⊢
    rw [hrec.countLen]
    omega
  case more => exact hlt

/-- The counts announced are reached with the last packet; then the file is the image. -/
theorem Receiving.complete {image : UpgradeImage} {k : ℕ} {h : PuUpgHandle}
    (hrec : Receiving image k h) (hnum : h.packetNum = h.totalPacket) : h.stored = image.bytes := by
  rw [hrec.packetNum, hrec.totalPacket] at hnum
  rw [hrec.stored, hnum, List.take_length]
  rfl

/-! ## Runs -/

namespace NetUpgrade

/-- Every call of `upgrade_start` was right so far; an open file holds the packets counted of the
image announced, and a closed handle is all zeros. -/
structure Inv (s : NetUpgrade) : Prop where
  complete : s.Complete
  receiving : s.handle.fileOpen = true → Receiving s.image s.handle.packetNum s.handle
  idle : s.handle.fileOpen = false → s.handle.Idle

theorem init_inv (stored : List UInt8) : (init stored).Inv where
  complete := fun _ hp => absurd hp List.not_mem_nil
  receiving := fun h => absurd h Bool.false_ne_true
  idle := fun _ => rfl

theorem Inv.request {s : NetUpgrade} (h : s.Inv) (image : UpgradeImage) (io : ReqIo) :
    (s.step (.request image io)).Inv := by
  show Inv ⟨(s.handle.msgNetUpgradeReq image.info io).2, if s.Admits io then image else s.image,
    s.starts⟩
  by_cases hadm : s.Admits io
  · rw [if_pos hadm]
    cases hopen : io.openOk with
    | true =>
      -- taken: the file is empty, and no packet is counted
      obtain ⟨hfile, -, hrec⟩ :=
        PuUpgHandle.msgNetUpgradeReq_receiving h.idle hadm.1 hadm.2 hopen image
      refine ⟨h.complete, fun _ => ?_, fun hc => ?_⟩
      · show Receiving image (s.handle.msgNetUpgradeReq image.info io).2.packetNum _
        rw [hrec.packetNum]
        exact hrec
      · exact absurd hfile (by rw [show _ = false from hc]; decide)
    | false =>
      have hreq : (s.handle.msgNetUpgradeReq image.info io).2
          = { s.handle.resetUpg with fileOpen := false } := by
        unfold PuUpgHandle.msgNetUpgradeReq
        rw [if_neg (by rw [hadm.1]; decide), if_neg (not_not.mpr hadm.2), if_pos hopen]
      obtain ⟨hzero, -⟩ := PuUpgHandle.resetUpg_idle h.idle
      rw [hreq]
      refine ⟨h.complete, fun hc => absurd hc Bool.false_ne_true, fun _ => ?_⟩
      rw [hzero]
      rfl
  · -- refused
    have hreq : (s.handle.msgNetUpgradeReq image.info io).2 = s.handle := by
      unfold PuUpgHandle.msgNetUpgradeReq
      by_cases hrun : io.running = true
      · rw [if_pos hrun]
      · rw [if_neg hrun]
        have hrep : s.handle.reportProcess ≠ 0 := fun hc => hadm ⟨by simpa using hrun, hc⟩
        rw [if_pos hrep]
    rw [if_neg hadm, hreq]
    exact ⟨h.complete, h.receiving, h.idle⟩

theorem Inv.recv {s : NetUpgrade} (h : s.Inv) {bs : BinStream} {io : RecvIo}
    (hord : s.InOrder (.recv bs io)) : (s.step (.recv bs io)).Inv := by
  have hstep : s.step (.recv bs io) = ⟨(s.handle.msgNetUpgradeRecv bs io).2.1, s.image,
      s.starts ++ ((s.handle.msgNetUpgradeRecv bs io).2.2.map fun f => (f, s.image)).toList⟩ := rfl
  rw [hstep]
  by_cases htakes : s.handle.Takes bs
  · obtain ⟨hnext, hwritten⟩ := hord htakes
    have hrec := (h.receiving htakes.1).takePacket hnext hwritten
    by_cases hlast : (s.handle.takePacket bs io).packetNum = s.handle.totalPacket
        ∧ (s.handle.takePacket bs io).countLen = s.handle.totalLen
    · -- `upgrade_start` is called, and the handle is reset
      rw [PuUpgHandle.msgNetUpgradeRecv_last htakes hlast]
      refine ⟨?_, fun hc => absurd hc Bool.false_ne_true, fun _ => rfl⟩
      intro p hp
      rcases List.mem_append.mp hp with hp | hp
      · exact h.complete p hp
      · obtain rfl : p = ((s.handle.takePacket bs io).stored, s.image) := by simpa using hp
        exact hrec.complete hlast.1
    · rw [PuUpgHandle.msgNetUpgradeRecv_more htakes hlast]
      refine ⟨?_, fun _ => ?_, fun hc => ?_⟩
      · intro p hp
        exact h.complete p (by simpa using hp)
      · show Receiving s.image (s.handle.takePacket bs io).packetNum _
        rw [hrec.packetNum]
        exact hrec
      · exact absurd htakes.1 (by rw [show s.handle.fileOpen = false from hc]; decide)
  · rw [PuUpgHandle.msgNetUpgradeRecv_drop htakes]
    refine ⟨?_, h.receiving, h.idle⟩
    intro p hp
    exact h.complete p (by simpa using hp)

theorem Inv.step {s : NetUpgrade} (h : s.Inv) {m : NetMsg} (hord : s.InOrder m) :
    (s.step m).Inv := by
  cases m with
  | request image io => exact h.request image io
  | recv bs io => exact h.recv hord

theorem Inv.run {ms : List NetMsg} : ∀ {s : NetUpgrade}, s.Inv → AllInOrder s ms → (s.run ms).Inv := by
  induction ms with
  | nil => intro s h _; exact h
  | cons m ms ih =>
    intro s h hord
    exact ih (h.step hord.1) hord.2

/-- In every run in which each packet taken is the next one of the image announced by the latest
REQUEST and is written as a whole, `upgrade_start` is called with the whole image only. -/
theorem upgrade_starts_complete (stored : List UInt8) (ms : List NetMsg)
    (hord : AllInOrder (init stored) ms) : ((init stored).run ms).Complete :=
  ((init_inv stored).run hord).complete

/-- An image of three packets, and its REQUEST. -/
def sampleImage : UpgradeImage := ⟨[[1], [2], [3]], by decide, by decide⟩

def sampleRequest : NetMsg := .request sampleImage ⟨false, true, 7⟩

/-- Packet `seq` of the image, written as a whole. -/
def samplePacket (seq : ℕ) : NetMsg :=
  .recv ⟨7, seq, sampleImage.packets.getD seq []⟩ ⟨1, true⟩

theorem upgrade_starts_complete_sample :
    ((init []).run [sampleRequest, samplePacket 0, samplePacket 1, samplePacket 2]).Complete := by
  apply upgrade_starts_complete
  exact ⟨trivial, fun _ => ⟨rfl, by decide⟩, fun _ => ⟨rfl, by decide⟩,
    fun _ => ⟨rfl, by decide⟩, trivial⟩

/-- Packet 0 twice, packet 1 lost: the counts are right, the file is not. -/
theorem upgrade_starts_incomplete :
    Genuine [] [sampleRequest, samplePacket 0, samplePacket 0, samplePacket 2]
      ∧ ¬ ((init []).run
          [sampleRequest, samplePacket 0, samplePacket 0, samplePacket 2]).Complete := by
  have hgenuine : ∀ seq < 3, ∃ p ∈ [(sampleImage, 7)], p.2 = 7
      ∧ p.1.packets[seq]? = some (sampleImage.packets.getD seq []) := by
    intro seq hseq
    refine ⟨_, List.mem_singleton.mpr rfl, rfl, ?_⟩
    interval_cases seq <;> rfl
  refine ⟨⟨hgenuine 0 (by decide), hgenuine 0 (by decide), hgenuine 2 (by decide), trivial⟩, ?_⟩
  intro h
  have hstarts : ((init []).run
      [sampleRequest, samplePacket 0, samplePacket 0, samplePacket 2]).starts
        = [([1, 1, 3], sampleImage)] := rfl
  have hfile := h ([1, 1, 3], sampleImage) (by rw [hstarts]; exact List.mem_singleton.mpr rfl)
  exact absurd hfile (by decide)

end NetUpgrade
