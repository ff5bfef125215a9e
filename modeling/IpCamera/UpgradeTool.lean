/-
# The upgrade tool and the camera (`upgrade_tool.c`, `net_upgrad.c`)

The tool announces `(file_size + MAX_BLOCK_SIZE) / MAX_BLOCK_SIZE` packets and sends
blocks of `MAX_BLOCK_SIZE` bytes; the last packet holds the rest, and is empty when
the size is a multiple of the block size.  Over a channel that keeps order and loses
nothing the camera then stores the image and starts the upgrade with the last
packet: `upgrade_transfer_iff`.

`file_size` is an `int`, so all this holds below 2^31 bytes only; `size_t` has 64
bits.
-/
import IpCamera.NetUpgrade

/-! ## The tool -/

/-- `sizeof(sdk_msg_t)` -/
def sizeofSdkMsg : ℕ := 24
/-- `sizeof(sdk_bin_stream_t)` -/
def sizeofSdkBinStream : ℕ := 16
/-- `MAX_BLOCK_SIZE` -/
def maxBlockSize : ℕ := 4096 - sizeofSdkMsg - sizeofSdkBinStream

/-- `int file_size = get_file_size(..)` of a file of `n` bytes. -/
def fileSize (n : ℕ) : ℤ := toInt32 (n % 4294967296)

/-- `int total_packet = (file_size + MAX_BLOCK_SIZE)/MAX_BLOCK_SIZE`, computed in `size_t`. -/
def totalPacket (n : ℕ) : ℤ :=
  toInt32 (((fileSize n + maxBlockSize) % 18446744073709551616).toNat / maxBlockSize % 4294967296)

/-- The REQUEST; its fields are `uint32_t`. -/
def requestInfo (n : ℕ) : UpgradPkgInfo :=
  ⟨(totalPacket n % 4294967296).toNat, (fileSize n % 4294967296).toNat⟩

/-- The last `left` passes of the loop over `pack_num`, the file still to be read being `rest`.  A
short block that is not the last ends the tool. -/
def sendPackets (session : ℕ) (total : ℤ) : ℕ → ℕ → List UInt8 → List BinStream
  | 0, _, _ => []
  | left + 1, packNum, rest =>
      let dataBuf := rest.take maxBlockSize
      if dataBuf.length ≠ maxBlockSize ∧ (packNum : ℤ) ≠ total - 1 then []
      else
        ⟨session, packNum, dataBuf⟩
          :: sendPackets session total left (packNum + 1) (rest.drop maxBlockSize)

/-- The packets the tool sends of the image, once the camera has answered with the session. -/
def upgradePackets (session : ℕ) (image : List UInt8) : List BinStream :=
  sendPackets session (totalPacket image.length) (totalPacket image.length).toNat 0 image

/-! ## The camera -/

namespace PuUpgHandle

/-- A state of the handler after any messages. -/
inductive Reachable : PuUpgHandle → Prop where
  | init (stored : List UInt8) : Reachable (init stored)
  | req {h : PuUpgHandle} (info : UpgradPkgInfo) (io : ReqIo) :
      Reachable h → Reachable (h.msgNetUpgradeReq info io).2
  | recv {h : PuUpgHandle} (bs : BinStream) (io : RecvIo) :
      Reachable h → Reachable (h.msgNetUpgradeRecv bs io).2.1

/-- Nothing sets `report_process`, and a closed handle is all zeros. -/
theorem Reachable.idle {h : PuUpgHandle} (hr : h.Reachable) :
    h.reportProcess = 0 ∧ (h.fileOpen = false → h.Idle) := by
  induction hr with
  | init stored => exact ⟨rfl, fun _ => rfl⟩
  | @req h info io _ ih =>
    obtain ⟨hrep, hidle⟩ := ih
    obtain ⟨hzero, -⟩ := resetUpg_idle hidle
    have hrep' : h.resetUpg.reportProcess = 0 := by
      rw [hzero]
      rfl
    unfold msgNetUpgradeReq
    split
    · exact ⟨hrep, hidle⟩
    · split
      · exact ⟨hrep, hidle⟩
      · split
        · refine ⟨hrep', fun _ => ?_⟩
          rw [hzero]
          rfl
        · exact ⟨hrep', fun hc => absurd (show true = false from hc) (by decide)⟩
  | @recv h bs io _ ih =>
    by_cases ht : h.Takes bs
    · by_cases hlast : (h.takePacket bs io).packetNum = h.totalPacket
          ∧ (h.takePacket bs io).countLen = h.totalLen
      · rw [msgNetUpgradeRecv_last ht hlast]
        exact ⟨rfl, fun _ => rfl⟩
      · rw [msgNetUpgradeRecv_more ht hlast]
        refine ⟨ih.1, fun hc => ?_⟩
        exact absurd ht.1 (by rw [show h.fileOpen = false from hc]; decide)
    · rw [msgNetUpgradeRecv_drop ht]
      exact ih

/-- The packets arrive in order and each write succeeds; the result lists what `upgrade_start` is
called with. -/
def receive (startOk : Bool) (h : PuUpgHandle) : List BinStream → PuUpgHandle × List (List UInt8)
  | [] => (h, [])
  | bs :: rest =>
      let (_, h, start) := h.msgNetUpgradeRecv bs ⟨bs.data.length, startOk⟩
      let (h, starts) := receive startOk h rest
      (h, start.toList ++ starts)

end PuUpgHandle

/-- The image is sent to the camera: it stores exactly its bytes, and calls `upgrade_start` with
them once, after the last packet. -/
def Transferred (h : PuUpgHandle) (image : List UInt8) (io : ReqIo) (startOk : Bool) : Prop :=
  let asked := (h.msgNetUpgradeReq (requestInfo image.length) io).2
  let packets := upgradePackets io.session image
  (asked.receive startOk packets).1.stored = image
    ∧ (asked.receive startOk packets).2 = [image]
    ∧ ∀ k < packets.length, (asked.receive startOk (packets.take k)).2 = []

/-! ## The packets of an image -/

/-- What is announced of an image below 2^31 bytes. -/
theorem requestInfo_small {n : ℕ} (hn : n < 2147483648) :
    totalPacket n = (n / maxBlockSize + 1 : ℕ)
      ∧ requestInfo n = ⟨n / maxBlockSize + 1, n⟩ := by
  have hsize : fileSize n = n := by
    unfold fileSize
    rw [Nat.mod_eq_of_lt (by omega), toInt32_natCast hn]
  have htotal : totalPacket n = (n / maxBlockSize + 1 : ℕ) := by
    have hsum : ((fileSize n + maxBlockSize) % 18446744073709551616).toNat = n + 4056 := by
      rw [hsize]
      show ((n + 4056 : ℤ) % 18446744073709551616).toNat = n + 4056
      omega
    unfold totalPacket
    rw [hsum]
    show toInt32 ((n + 4056) / 4056 % 4294967296) = _
    rw [toInt32_natCast (by omega)]
    show (((n + 4056) / 4056 % 4294967296 : ℕ) : ℤ) = (n / 4056 + 1 : ℕ)
    omega
  refine ⟨htotal, ?_⟩
  unfold requestInfo
  rw [htotal, hsize]
  have hle : n / maxBlockSize ≤ n := Nat.div_le_self _ _
  generalize n / maxBlockSize = q at hle
  congr 1 <;> omega

/-- The loop cuts the file into blocks, the last one short. -/
theorem sendPackets_blocks (session : ℕ) (left : ℕ) :
    ∀ (packNum : ℕ) (rest : List UInt8), rest.length / maxBlockSize + 1 = left →
      ((sendPackets session (packNum + left : ℕ) left packNum rest).map BinStream.data).flatten = rest
        ∧ (sendPackets session (packNum + left : ℕ) left packNum rest).length = left
        ∧ ∀ bs ∈ sendPackets session (packNum + left : ℕ) left packNum rest, bs.flag = session := by
  induction left with
  | zero => intro packNum rest h; exact absurd h (Nat.succ_ne_zero _)
  | succ left ih =>
    intro packNum rest h
    have hcount : rest.length / 4056 + 1 = left + 1 := h
    unfold sendPackets
    have hfull : ¬ ((rest.take maxBlockSize).length ≠ maxBlockSize
        ∧ (packNum : ℤ) ≠ (packNum + (left + 1) : ℕ) - 1) := by
      rintro ⟨hshort, hnot⟩
      have hshort : min 4056 rest.length ≠ 4056 := by rwa [List.length_take] at hshort
      -- a short block is the last
      omega
    rw [if_neg hfull]
    by_cases hleft : left = 0
    · subst hleft
      have hlt : rest.length < maxBlockSize := by
        show rest.length < 4056
        omega
      simp [sendPackets, List.take_of_length_le hlt.le]
    · have hnext : (rest.drop maxBlockSize).length / maxBlockSize + 1 = left := by
        rw [List.length_drop]
        show (rest.length - 4056) / 4056 + 1 = left
        omega
      have hsum : packNum + (left + 1) = packNum + 1 + left := by omega
      rw [hsum]
      obtain ⟨hdata, hlen, hflag⟩ := ih (packNum + 1) (rest.drop maxBlockSize) hnext
      refine ⟨?_, ?_, ?_⟩
      · rw [List.map_cons, List.flatten_cons, hdata, List.take_append_drop]
      · rw [List.length_cons, hlen]
      · intro bs hbs
        rcases List.mem_cons.mp hbs with rfl | hbs
        · rfl
        · exact hflag bs hbs

/-- At most so many bytes are sent as announced packets can hold. -/
theorem sendPackets_length_le (session : ℕ) (total : ℤ) (left : ℕ) :
    ∀ (packNum : ℕ) (rest : List UInt8),
      ((sendPackets session total left packNum rest).map BinStream.data).flatten.length
        ≤ left * maxBlockSize := by
  induction left with
  | zero => intro packNum rest; simp [sendPackets]
  | succ left ih =>
    intro packNum rest
    unfold sendPackets
    dsimp only
    split
    · simp
    · have htail := ih (packNum + 1) (rest.drop maxBlockSize)
      rw [List.map_cons, List.flatten_cons, List.length_append, List.length_take, Nat.succ_mul]
      omega

/-- From 2^31 bytes on the packets announced do not hold the image. -/
theorem totalPacket_large {n : ℕ} (hn : 2147483648 ≤ n) :
    (totalPacket n).toNat * maxBlockSize < n := by
  have hblock : maxBlockSize = 4056 := rfl
  unfold totalPacket fileSize
  rw [hblock]
  by_cases hlow : n % 4294967296 < 2147483648
  · -- the size is cut to its low bits
    rw [toInt32_natCast hlow]
    have hsum : (((n % 4294967296 : ℕ) + (4056 : ℕ) : ℤ) % 18446744073709551616).toNat
        = n % 4294967296 + 4056 := by omega
    rw [hsum, toInt32_natCast (by omega)]
    omega
  · -- the size becomes negative
    have hneg : toInt32 (n % 4294967296) = (n % 4294967296 : ℕ) - 4294967296 := if_neg hlow
    rw [hneg]
    have htotal : (toInt32 (((((n % 4294967296 : ℕ) : ℤ) - 4294967296 + (4056 : ℕ))
        % 18446744073709551616).toNat / 4056 % 4294967296)).toNat = 0 := by
      set m := n % 4294967296 with hm
      have hlt : m < 4294967296 := Nat.mod_lt _ (by decide)
      by_cases hwrap : 4294967296 ≤ m + 4056
      · have hsum : (((m : ℤ) - 4294967296 + (4056 : ℕ)) % 18446744073709551616).toNat
            = m + 4056 - 4294967296 := by omega
        rw [hsum, toInt32_natCast (by omega)]
        omega
      · -- the quotient has bit 31 set
        have hsum : (((m : ℤ) - 4294967296 + (4056 : ℕ)) % 18446744073709551616).toNat
            = 18446744073709551616 + m + 4056 - 4294967296 := by omega
        rw [hsum]
        have hbit : ¬ (18446744073709551616 + m + 4056 - 4294967296) / 4056 % 4294967296
            < 2147483648 := by omega
        unfold toInt32
        rw [if_neg hbit]
        omega
    rw [htotal]
    omega

/-! ## The transfer -/

/-- The last packet arrives: the file is the image, and the upgrade starts. -/
theorem Receiving.recv_last {image : UpgradeImage} {startOk : Bool} {k : ℕ} {h : PuUpgHandle}
    {bs : BinStream} (hrec : Receiving image k h) (ht : h.Takes bs)
    (hnext : image.packets[k]? = some bs.data) (hk : k + 1 = image.packets.length) :
    h.msgNetUpgradeRecv bs ⟨bs.data.length, startOk⟩
      = (if startOk = true then 0 else -1, PuUpgHandle.init image.bytes, some image.bytes) := by
  have hrec' : Receiving image (k + 1) (h.takePacket bs ⟨bs.data.length, startOk⟩) :=
    hrec.takePacket hnext le_rfl
  have hnum : (h.takePacket bs ⟨bs.data.length, startOk⟩).packetNum = h.totalPacket := by
    rw [hrec'.packetNum, hk, hrec.totalPacket]
  have hcount : (h.takePacket bs ⟨bs.data.length, startOk⟩).countLen = h.totalLen := by
    rw [hrec'.countLen, hk, List.take_length, hrec.totalLen]
    rfl
  rw [PuUpgHandle.msgNetUpgradeRecv_last ht ⟨hnum, hcount⟩, hrec'.complete hnum]

/-- Any other packet arrives: the transfer goes on. -/
theorem Receiving.recv_more {image : UpgradeImage} (startOk : Bool) {k : ℕ} {h : PuUpgHandle}
    {bs : BinStream} (hrec : Receiving image k h) (ht : h.Takes bs)
    (hnext : image.packets[k]? = some bs.data) (hk : k + 1 < image.packets.length)
    (l : List BinStream) : h.receive startOk (bs :: l)
      = (h.takePacket bs ⟨bs.data.length, startOk⟩).receive startOk l := by
  have hrec' : Receiving image (k + 1) (h.takePacket bs ⟨bs.data.length, startOk⟩) :=
    hrec.takePacket hnext le_rfl
  have hmore : ¬ ((h.takePacket bs ⟨bs.data.length, startOk⟩).packetNum = h.totalPacket
      ∧ (h.takePacket bs ⟨bs.data.length, startOk⟩).countLen = h.totalLen) := by
    rintro ⟨hnum, -⟩
    rw [hrec'.packetNum, hrec.totalPacket] at hnum
    omega
  conv_lhs => unfold PuUpgHandle.receive
  rw [PuUpgHandle.msgNetUpgradeRecv_more ht hmore]
  rfl

/-- All packets from number `k` on arrive. -/
theorem Receiving.receive {image : UpgradeImage} (startOk : Bool) (packets : List BinStream) :
    ∀ {k : ℕ} {h : PuUpgHandle}, Receiving image k h → h.fileOpen = true →
      (∀ bs ∈ packets, bs.flag = h.upgradSession) → packets ≠ [] →
      packets.map BinStream.data = image.packets.drop k →
        (h.receive startOk packets).1.stored = image.bytes
          ∧ (h.receive startOk packets).2 = [image.bytes]
          ∧ ∀ j < packets.length, (h.receive startOk (packets.take j)).2 = [] := by
  induction packets with
  | nil => intro k h _ _ _ hne; exact absurd rfl hne
  | cons bs rest ih =>
    intro k h hrec hopen hflag _ hdata
    have ht : h.Takes bs := ⟨hopen, (hflag bs (by simp)).symm⟩
    -- the first of the packets is the next one of the image
    have hnext : image.packets[k]? = some bs.data := by
      have h0 : (image.packets.drop k)[0]? = some bs.data := by
        rw [← hdata]
        rfl
      rw [← h0]
      simp
    have hrest : rest.map BinStream.data = image.packets.drop (k + 1) := by
      rw [← List.drop_drop, ← hdata]
      rfl
    have hrec' : Receiving image (k + 1) (h.takePacket bs ⟨bs.data.length, startOk⟩) :=
      hrec.takePacket hnext le_rfl
    have hlen := congrArg List.length hrest
    rw [List.length_map, List.length_drop] at hlen
    cases hr : rest with
    | nil =>
      have hk : k + 1 = image.packets.length := by
        have := hrec'.more
        rw [hr, List.length_nil] at hlen
        omega
      unfold PuUpgHandle.receive
      rw [hrec.recv_last ht hnext hk]
      refine ⟨rfl, rfl, ?_⟩
      intro j hj
      obtain rfl : j = 0 := by simpa using hj
      rfl
    | cons bs' rest' =>
      have hk : k + 1 < image.packets.length := by
        rw [hr, List.length_cons] at hlen
        omega
      have hstep := fun l => hrec.recv_more startOk ht hnext hk l
      obtain ⟨hstored, hstarts, hnever⟩ := ih hrec' hopen
        (fun b hb => hflag b (by simp [hb])) (by rw [hr]; exact List.cons_ne_nil _ _) hrest
      rw [← hr, hstep]
      refine ⟨hstored, hstarts, ?_⟩
      intro j hj
      cases j with
      | zero => rfl
      | succ j =>
        rw [List.take_succ_cons, hstep]
        exact hnever j (by simpa using hj)

/-- No more is stored than arrives. -/
theorem PuUpgHandle.receive_stored_le (startOk : Bool) (packets : List BinStream) :
    ∀ h : PuUpgHandle, (h.receive startOk packets).1.stored.length
      ≤ h.stored.length + (packets.map BinStream.data).flatten.length := by
  induction packets with
  | nil => intro h; simp [receive]
  | cons bs rest ih =>
    intro h
    have hstep : (h.msgNetUpgradeRecv bs ⟨bs.data.length, startOk⟩).2.1.stored.length
        ≤ h.stored.length + bs.data.length := by
      have htake : (h.takePacket bs ⟨bs.data.length, startOk⟩).stored.length
          = h.stored.length + bs.data.length := by simp [takePacket]
      by_cases ht : h.Takes bs
      · by_cases hlast : (h.takePacket bs ⟨bs.data.length, startOk⟩).packetNum = h.totalPacket
            ∧ (h.takePacket bs ⟨bs.data.length, startOk⟩).countLen = h.totalLen
        · rw [msgNetUpgradeRecv_last ht hlast]
          exact htake.le
        · rw [msgNetUpgradeRecv_more ht hlast]
          exact htake.le
      · rw [msgNetUpgradeRecv_drop ht]
        exact Nat.le_add_right _ _
    have htail := ih (h.msgNetUpgradeRecv bs ⟨bs.data.length, startOk⟩).2.1
    have hrun : (h.receive startOk (bs :: rest)).1
        = ((h.msgNetUpgradeRecv bs ⟨bs.data.length, startOk⟩).2.1.receive startOk rest).1 := rfl
    rw [hrun, List.map_cons, List.flatten_cons, List.length_append]
    omega

/-- What is stored cannot be the image if it does not fit the packets announced. -/
theorem transferred_lt {h : PuUpgHandle} {image : List UInt8} {io : ReqIo} {startOk : Bool}
    (hr : h.Reachable) (hrun : io.running = false) (hopen : io.openOk = true)
    (ht : Transferred h image io startOk) : image.length < 2147483648 := by
  obtain ⟨hrep, -⟩ := hr.idle
  obtain ⟨hstored, -⟩ := ht
  by_contra hlarge
  -- the packets sent hold less than the image
  have hle := PuUpgHandle.receive_stored_le startOk (upgradePackets io.session image)
    (h.msgNetUpgradeReq (requestInfo image.length) io).2
  have hempty : (h.msgNetUpgradeReq (requestInfo image.length) io).2.stored = [] := by
    unfold PuUpgHandle.msgNetUpgradeReq
    rw [if_neg (by rw [hrun]; decide), if_neg (not_not.mpr hrep), if_neg (by rw [hopen]; decide)]
  have hsent : ((upgradePackets io.session image).map BinStream.data).flatten.length
      ≤ (totalPacket image.length).toNat * maxBlockSize := sendPackets_length_le _ _ _ _ _
  have hlt := totalPacket_large (show 2147483648 ≤ image.length by omega)
  rw [hstored, hempty, List.length_nil] at hle
  omega

/-- From every state of the handler in which it takes the REQUEST: the image is stored and installed
once, with the last packet, exactly when it is smaller than 2^31 bytes. -/
theorem upgrade_transfer_iff (h : PuUpgHandle) (image : List UInt8) (io : ReqIo) (startOk : Bool)
    (hr : h.Reachable) (hrun : io.running = false) (hopen : io.openOk = true) :
    Transferred h image io startOk ↔ image.length < 2147483648 := by
  obtain ⟨hrep, hidle⟩ := hr.idle
  constructor
  · exact transferred_lt hr hrun hopen
  · intro hsmall
    obtain ⟨htotal, hinfo⟩ := requestInfo_small hsmall
    set n := image.length / maxBlockSize + 1 with hn
    have hpackets : upgradePackets io.session image
        = sendPackets io.session (0 + n : ℕ) n 0 image := by
      unfold upgradePackets
      rw [htotal, Nat.zero_add, Int.toNat_natCast]
    obtain ⟨hflat, hlen, hflag⟩ := sendPackets_blocks io.session n 0 image rfl
    rw [← hpackets] at hflat hlen hflag
    have hle : n ≤ image.length + 1 := Nat.succ_le_succ (Nat.div_le_self _ _)
    -- the packets are an image in the sense of the handler
    let up : UpgradeImage := ⟨(upgradePackets io.session image).map BinStream.data,
      by rw [List.length_map, hlen]; omega, by rw [hflat]; omega⟩
    have hup : up.info = requestInfo image.length := by
      have hbytes : up.bytes = image := hflat
      have hcount : up.packets.length = n := by
        show ((upgradePackets io.session image).map BinStream.data).length = n
        rw [List.length_map, hlen]
      unfold UpgradeImage.info
      rw [hinfo, hbytes, hcount]
    obtain ⟨hfile, hsession, hrec⟩ := h.msgNetUpgradeReq_receiving hidle hrun hrep hopen up
    rw [hup] at hfile hsession hrec
    have hne : upgradePackets io.session image ≠ [] := by
      intro hnil
      rw [hnil, List.length_nil] at hlen
      exact Nat.succ_ne_zero _ hlen.symm
    have hdone := hrec.receive startOk (upgradePackets io.session image) hfile
      (fun bs hbs => by rw [hflag bs hbs, hsession]) hne rfl
    have hbytes : up.bytes = image := hflat
    rw [hbytes] at hdone
    exact hdone

theorem upgrade_transfer_small :
    Transferred (.init []) [1, 2, 3] ⟨false, true, 7⟩ true :=
  (upgrade_transfer_iff (.init []) [1, 2, 3] ⟨false, true, 7⟩ true (.init []) rfl rfl).mpr
    (by decide)

/-- An image of 2^31 bytes is announced with a negative number of packets. -/
theorem upgrade_transfer_large :
    ¬ Transferred (.init []) (List.replicate 2147483648 0) ⟨false, true, 7⟩ true := by
  intro h
  have hlt := transferred_lt (.init []) rfl rfl h
  rw [List.length_replicate] at hlt
  exact absurd hlt (by decide)
