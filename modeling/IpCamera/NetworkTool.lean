/-
# The discovery reply (`network_tool.c`)

`st_net_checksum` adds the 16-bit words of a buffer in 32 bits and folds the carries in;
`st_net_sendBroadcast` puts an IP and a UDP header before the message.  The folded sum is
the one's complement sum of the words (`foldSum_eq`), and the buffer sent is the two
headers, the message head and the data (`sentPacket_eq`).
-/
import IpCamera.FileBuffer
import IpCamera.OnesComplement

/-! ## The checksum -/

/-- The 16-bit words of a buffer as the little-endian host reads them; a last odd byte is padded
with a zero. -/
def hostWords : List UInt8 → List ℕ
  | [] => []
  | [a] => [a.toNat]
  | a :: b :: rest => (a.toNat + 256 * b.toNat) :: hostWords rest

/-- The loop over the words and the left-over byte: `sum` after them. -/
def addWords : List UInt8 → ℕ → ℕ
  | [], sum => sum
  | [a], sum =>
    let tmp := a.toNat
    (sum + tmp) % 4294967296
  | a :: b :: rest, sum => addWords rest ((sum + (a.toNat + 256 * b.toNat)) % 4294967296)

/-- Fold the 32-bit sum to 16 bits. -/
def foldSum (sum : ℕ) : ℕ :=
  if sum / 65536 = 0 then sum else foldSum (sum % 65536 + sum / 65536)
termination_by sum
decreasing_by omega

/-- `st_net_checksum` -/
def stNetChecksum (addr : List UInt8) : ℕ := (4294967295 - foldSum (addWords addr 0)) % 65536

/-- The bytes of a 16-bit word in memory. -/
def half (v : ℕ) : List UInt8 := [UInt8.ofNat v, UInt8.ofNat (v / 256)]

/-- The fold is the reduction modulo `0xffff`. -/
theorem foldSum_eq (sum : ℕ) : foldSum sum = OnesComplement.reduce 65535 sum := by
  induction sum using foldSum.induct with
  | case1 sum h =>
    rw [foldSum, if_pos h, OnesComplement.reduce_of_le (by omega)]
  | case2 sum h ih =>
    rw [foldSum, if_neg h, ih]
    have hsum : sum = sum % 65536 + sum / 65536 + 65535 * (sum / 65536) := by omega
    conv_rhs => rw [hsum]
    rw [OnesComplement.reduce_add_mul (by omega)]

theorem hostWords_le (l : List UInt8) : ∀ w ∈ hostWords l, w ≤ 65535 := by
  intro w hw
  induction l using hostWords.induct with
  | case1 => exact absurd hw List.not_mem_nil
  | case2 a =>
    have ha := a.toNat_lt
    rw [hostWords, List.mem_singleton] at hw
    omega
  | case3 a b rest ih =>
    have ha := a.toNat_lt
    have hb := b.toNat_lt
    rw [hostWords, List.mem_cons] at hw
    rcases hw with hw | hw
    · omega
    · exact ih hw

/-- The sum of the words of a buffer is less than 32 bits hold, up to 65535 words and a byte. -/
theorem sum_hostWords_le (l : List UInt8) : (hostWords l).sum ≤ 65535 * ((l.length + 1) / 2) := by
  induction l using hostWords.induct with
  | case1 => exact Nat.zero_le _
  | case2 a =>
    have ha := a.toNat_lt
    rw [hostWords, List.sum_singleton, List.length_singleton]
    omega
  | case3 a b rest ih =>
    have ha := a.toNat_lt
    have hb := b.toNat_lt
    rw [hostWords, List.sum_cons, List.length_cons, List.length_cons]
    omega

theorem addWords_eq (l : List UInt8) (s : ℕ) (h : s + (hostWords l).sum < 4294967296) :
    addWords l s = s + (hostWords l).sum := by
  induction l using hostWords.induct generalizing s with
  | case1 => rfl
  | case2 a =>
    rw [hostWords, List.sum_singleton] at h ⊢
    exact Nat.mod_eq_of_lt h
  | case3 a b rest ih =>
    rw [hostWords, List.sum_cons] at h ⊢
    rw [addWords, Nat.mod_eq_of_lt (by omega), ih _ (by omega), Nat.add_assoc]

/-- The checksum is the complement of the one's complement sum of the words. -/
theorem stNetChecksum_eq {addr : List UInt8} (h : addr.length ≤ 131070) :
    stNetChecksum addr = 65535 - OnesComplement.reduce 65535 (hostWords addr).sum := by
  have hsum := sum_hostWords_le addr
  have hle := OnesComplement.reduce_le (m := 65535) (by decide) (hostWords addr).sum
  unfold stNetChecksum
  rw [addWords_eq addr 0 (by omega), Nat.zero_add, foldSum_eq]
  omega

theorem hostWords_append {a : List UInt8} (ha : a.length % 2 = 0) (b : List UInt8) :
    hostWords (a ++ b) = hostWords a ++ hostWords b := by
  induction a using hostWords.induct with
  | case1 => rfl
  | case2 x => exact absurd ha (by simp)
  | case3 x y rest ih =>
    rw [List.length_cons, List.length_cons] at ha
    rw [List.cons_append, List.cons_append, hostWords, hostWords, ih (by omega), List.cons_append]

theorem hostWords_half {v : ℕ} (hv : v < 65536) : hostWords (half v) = [v] := by
  rw [half, hostWords, hostWords, UInt8.toNat_ofNat', UInt8.toNat_ofNat']
  congr 1
  omega

/-- A buffer of an even number of bytes, at most 131070, with a 16-bit field at an even offset. -/
structure FieldBuffer where
  before : List UInt8
  after : List UInt8
  evenBefore : before.length % 2 = 0
  evenAfter : after.length % 2 = 0
  short : before.length + 2 + after.length ≤ 131070

/-- The buffer with a value in its field. -/
def FieldBuffer.with (b : FieldBuffer) (field : ℕ) : List UInt8 := b.before ++ half field ++ b.after

/-- The one's complement sum of all words of a buffer. -/
def wordSum (l : List UInt8) : ℕ := OnesComplement.sum 65535 (hostWords l)

theorem FieldBuffer.sum_hostWords (b : FieldBuffer) (field : ℕ) (h : field < 65536) :
    (hostWords (b.with field)).sum
      = (hostWords b.before).sum + (hostWords b.after).sum + field := by
  have heven : (b.before ++ half field).length % 2 = 0 := by
    have := b.evenBefore
    rw [List.length_append, half, List.length_cons, List.length_singleton]
    omega
  rw [FieldBuffer.with, hostWords_append heven, hostWords_append b.evenBefore, hostWords_half h,
    List.sum_append, List.sum_append, List.sum_singleton]
  omega

/-- With the checksum of the zeroed buffer in its field, all words add up to `0xffff`. -/
theorem FieldBuffer.wordSum_checksum (b : FieldBuffer) :
    wordSum (b.with (stNetChecksum (b.with 0))) = 65535 := by
  have hlen : (b.with 0).length ≤ 131070 := by
    have := b.short
    rw [FieldBuffer.with, List.length_append, List.length_append, half, List.length_cons,
      List.length_singleton]
    omega
  have hzero := b.sum_hostWords 0 (by decide)
  rw [Nat.add_zero] at hzero
  have hsum := b.sum_hostWords (stNetChecksum (b.with 0)) (by
    rw [stNetChecksum_eq hlen]
    omega)
  rw [wordSum, OnesComplement.sum_eq_reduce (by decide) (hostWords_le _), hsum,
    stNetChecksum_eq hlen, hzero, OnesComplement.reduce_add_complement (by decide)]

/-- An odd number of bytes counts as if a zero byte stood behind them. -/
theorem stNetChecksum_odd {addr : List UInt8} (h : addr.length % 2 = 1) :
    stNetChecksum (addr ++ [0]) = stNetChecksum addr := by
  have hadd : ∀ s, addWords (addr ++ [0]) s = addWords addr s := by
    induction addr using hostWords.induct with
    | case1 => exact absurd h (by decide)
    | case2 a =>
      intro s
      rfl
    | case3 a b rest ih =>
      intro s
      rw [List.length_cons, List.length_cons] at h
      rw [List.cons_append, List.cons_append, addWords, addWords, ih (by omega)]
  rw [stNetChecksum, hadd, stNetChecksum]

/-! ## The packet -/

/-- `htons` on a little-endian host. -/
def htons (v : ℕ) : ℕ := v % 256 * 256 + v / 256 % 256

/-- `iphdr` -/
structure IpHdr where
  inl : ℕ
  version : ℕ
  tos : ℕ
  totLen : ℕ
  id : ℕ
  fragOff : ℕ
  ttl : ℕ
  protocol : ℕ
  check : ℕ
  saddr : ℕ
  daddr : ℕ
deriving DecidableEq

/-- `udphdr` -/
structure UdpHdr where
  source : ℕ
  dest : ℕ
  len : ℕ
  check : ℕ
deriving DecidableEq

/-- `msg_head_t` -/
structure MsgHead where
  msgType : UInt16
  msgSubtype : UInt16
  msgSize : UInt32
  ackFlag : UInt8
  reserved : UInt8 × UInt8 × UInt8
deriving DecidableEq

/-- `net_msg_t` -/
structure NetMsgT where
  msgHead : MsgHead
  msgData : Mem

/-- The bytes of the header in memory before its checksum; `inl` is the low half of the first
one. -/
def IpHdr.front (h : IpHdr) : List UInt8 :=
  [UInt8.ofNat (h.inl + 16 * h.version), UInt8.ofNat h.tos] ++ half h.totLen ++ half h.id
    ++ half h.fragOff ++ [UInt8.ofNat h.ttl, UInt8.ofNat h.protocol]

/-- The bytes behind it. -/
def IpHdr.addresses (h : IpHdr) : List UInt8 := word h.saddr ++ word h.daddr

def IpHdr.bytes (h : IpHdr) : List UInt8 := h.front ++ half h.check ++ h.addresses

/-- The header with the checksum of its bytes. -/
def IpHdr.checked (h : IpHdr) : IpHdr := { h with check := stNetChecksum h.bytes }

def UdpHdr.bytes (h : UdpHdr) : List UInt8 :=
  half h.source ++ half h.dest ++ half h.len ++ half h.check

def MsgHead.bytes (h : MsgHead) : List UInt8 :=
  half h.msgType.toNat ++ half h.msgSubtype.toNat ++ word h.msgSize.toNat
    ++ [h.ackFlag, h.reserved.1, h.reserved.2.1, h.reserved.2.2]

/-- `sizeof(iphdr)`, `sizeof(udphdr)` and `sizeof(msg_head_t)` -/
def sizeofIphdr : ℕ := 20
def sizeofUdphdr : ℕ := 8
def sizeofMsgHead : ℕ := 12

@[simp] theorem length_half (v : ℕ) : (half v).length = 2 := rfl

theorem IpHdr.length_front (h : IpHdr) : h.front.length = 10 := rfl

theorem IpHdr.length_addresses (h : IpHdr) : h.addresses.length = 8 := rfl

@[simp] theorem IpHdr.length_bytes (h : IpHdr) : h.bytes.length = sizeofIphdr := rfl

@[simp] theorem UdpHdr.length_bytes (h : UdpHdr) : h.bytes.length = sizeofUdphdr := rfl

@[simp] theorem MsgHead.length_bytes (h : MsgHead) : h.bytes.length = sizeofMsgHead := rfl

/-- `udp_packet` -/
structure UdpPacket where
  ip : IpHdr
  udp : UdpHdr

/-- `packet` after `memset`. -/
def UdpPacket.zero : UdpPacket := ⟨⟨0, 0, 0, 0, 0, 0, 0, 0, 0, 0, 0⟩, ⟨0, 0, 0, 0⟩⟩

/-- `packet` when its UDP header is copied into the buffer. -/
def scratchPacket (msgSize : ℕ) : UdpPacket :=
  let packet := UdpPacket.zero
  let packet := { packet with ip := { packet.ip with
    protocol := 17
    saddr := 0
    daddr := 4294967295 } }
  let packet := { packet with udp := { packet.udp with
    source := htons (13451 + 2)
    dest := htons 13452
    len := htons (sizeofUdphdr + sizeofMsgHead + msgSize) } }
  { packet with ip := { packet.ip with totLen := packet.udp.len } }

/-- `packet` when its IP header is copied; `udpCheck` is the checksum of the buffer so far. -/
def finalPacket (msgSize udpCheck : ℕ) : UdpPacket :=
  let packet := scratchPacket msgSize
  let packet := { packet with udp := { packet.udp with check := udpCheck } }
  let packet := { packet with ip := { packet.ip with
    totLen := htons (sizeofIphdr + sizeofUdphdr + sizeofMsgHead + msgSize)
    inl := sizeofIphdr / 4
    version := 4
    ttl := 64 } }
  { packet with ip := packet.ip.checked }

/-- The buffer that is sent, with its size. -/
def broadcastBuffer (netMsg : NetMsgT) (stack : Mem) : Mem × ℕ :=
  let msgSize := netMsg.msgHead.msgSize.toNat
  let buffer := memset stack 0 0 2048
  let size := sizeofIphdr
  let buffer := memcpy buffer size (listMem (scratchPacket msgSize).udp.bytes) sizeofUdphdr
  let size := size + sizeofUdphdr
  let buffer := memcpy buffer size (listMem netMsg.msgHead.bytes) sizeofMsgHead
  let size := size + sizeofMsgHead
  let buffer := memcpy buffer size netMsg.msgData msgSize
  let size := size + msgSize
  let packet := finalPacket msgSize (stNetChecksum (loadBytes buffer 0 size))
  (memcpy buffer 0 (listMem packet.ip.bytes) sizeofIphdr, size)

/-- `st_net_sendBroadcast`: the packet handed to `sendto`, if the socket could be bound, and the
return value for what `sendto` returned. -/
def stNetSendBroadcast (netMsg : NetMsgT) (stack : Mem) (bindFails : Bool) (result : ℤ) :
    Option (List UInt8) × ℤ :=
  if bindFails then (none, -1)
  else
    let (buffer, size) := broadcastBuffer netMsg stack
    (some (loadBytes buffer 0 size), if result = size then 0 else -1)

/-- A message that fits the buffer of 2048 bytes with its headers. -/
structure FittingMsg extends NetMsgT where
  fits : sizeofIphdr + sizeofUdphdr + sizeofMsgHead + msgHead.msgSize.toNat ≤ 2048

/-- The data of a message. -/
def NetMsgT.data (m : NetMsgT) : List UInt8 := loadBytes m.msgData 0 m.msgHead.msgSize.toNat

@[simp] theorem NetMsgT.length_data (m : NetMsgT) : m.data.length = m.msgHead.msgSize.toNat :=
  loadBytes_length _ _ _

/-- The packet: the two headers, the message head and the data. -/
def sentPacket (m : NetMsgT) : List UInt8 :=
  (finalPacket m.msgHead.msgSize.toNat 0).ip.bytes
    ++ (scratchPacket m.msgHead.msgSize.toNat).udp.bytes ++ m.msgHead.bytes ++ m.data

theorem length_sentPacket (m : NetMsgT) :
    (sentPacket m).length
      = sizeofIphdr + sizeofUdphdr + sizeofMsgHead + m.msgHead.msgSize.toNat := by
  simp [sentPacket, Nat.add_assoc]

/-- A header copied over the first bytes of a buffer leaves the rest. -/
theorem loadBytes_header {m : Mem} {a b c : List UInt8} (hc : c.length = a.length)
    (h : loadBytes m 0 (a ++ b).length = a ++ b) :
    loadBytes (memcpy m 0 (listMem c) a.length) 0 (a ++ b).length = c ++ b := by
  rw [List.length_append, loadBytes_add] at h ⊢
  obtain ⟨-, htail⟩ := List.append_inj h (by rw [loadBytes_length])
  rw [loadBytes_memcpy_inside, loadBytes_memcpy_outside _ _ _ (by omega), htail, ← hc,
    loadBytes_listMem]

/-- What is handed to `sendto` is the headers and the message one after the other. -/
theorem sentPacket_eq (m : FittingMsg) (stack : Mem) :
    loadBytes (broadcastBuffer m.toNetMsgT stack).1 0 (broadcastBuffer m.toNetMsgT stack).2
      = sentPacket m.toNetMsgT := by
  have hip : sizeofIphdr = 20 := rfl
  -- zeros where the IP header will stand, and the rest copied behind them
  have hzeros := (Filled.clear 2048 stack).skip (k := sizeofIphdr) (by simp [hip])
  have hudp := hzeros.copyList (a := sizeofIphdr) (by simp)
    (scratchPacket m.msgHead.msgSize.toNat).udp.bytes
  have hhead := hudp.copyList (a := sizeofIphdr + sizeofUdphdr) (by simp) m.msgHead.bytes
  have hdata := (hhead.copy (a := sizeofIphdr + sizeofUdphdr + sizeofMsgHead)
    (by simp [Nat.add_assoc]) m.msgData m.msgHead.msgSize.toNat).front
  rw [List.nil_append, List.append_assoc (List.replicate _ _), List.append_assoc,
    ← NetMsgT.data] at hdata
  have hsent := loadBytes_header (c := (finalPacket m.msgHead.msgSize.toNat 0).ip.bytes)
    (by simp) hdata
  have hsize : (List.replicate sizeofIphdr 0
      ++ ((scratchPacket m.msgHead.msgSize.toNat).udp.bytes ++ m.msgHead.bytes ++ m.data)).length
        = sizeofIphdr + sizeofUdphdr + sizeofMsgHead + m.msgHead.msgSize.toNat := by
    simp [Nat.add_assoc]
  rw [hsize, List.length_replicate] at hsent
  rw [sentPacket, List.append_assoc, List.append_assoc, ← List.append_assoc _ _ m.data]
  exact hsent

/-! ## What the packet says -/

/-- The 16-bit number in network order at an offset. -/
def netHalf (l : List UInt8) (offset : ℕ) : ℕ :=
  256 * (l.getD offset 0).toNat + (l.getD (offset + 1) 0).toNat

/-- A datagram: the IP header's checksum verifies, its total length is the length of the packet, and
the UDP length is what follows it; then come the message head and the data. -/
structure ValidDatagram (m : NetMsgT) (packet : List UInt8) : Prop where
  checksum : wordSum (packet.take sizeofIphdr) = 65535
  totalLength : netHalf packet 2 = packet.length
  udpLength : netHalf packet (sizeofIphdr + 4) = packet.length - sizeofIphdr
  message : packet.drop (sizeofIphdr + sizeofUdphdr) = m.msgHead.bytes ++ m.data

/-- A number stored after `htons` is in network order. -/
theorem netHalf_htons {n : ℕ} (hn : n < 65536) (l : List UInt8) :
    netHalf (half (htons n) ++ l) 0 = n := by
  have hlow : htons n % 256 = n / 256 := by
    unfold htons
    omega
  have hhigh : htons n / 256 = n % 256 := by
    unfold htons
    omega
  rw [half, netHalf]
  simp only [List.cons_append, List.getD_cons_zero, List.getD_cons_succ, List.nil_append,
    UInt8.toNat_ofNat']
  omega

theorem netHalf_append {a b : List UInt8} (i : ℕ) :
    netHalf (a ++ b) (a.length + i) = netHalf b i := by
  have h : ∀ j, (a ++ b).getD (a.length + j) 0 = b.getD j 0 := listMem_append_right a b
  rw [netHalf, Nat.add_assoc, h, h, netHalf]

/-- A header around its checksum. -/
def IpHdr.fieldBuffer (h : IpHdr) : FieldBuffer where
  before := h.front
  after := h.addresses
  evenBefore := by rw [IpHdr.length_front]
  evenAfter := by rw [IpHdr.length_addresses]
  short := by
    rw [IpHdr.length_front, IpHdr.length_addresses]
    decide

/-- The checksum goes into the field that was zero before. -/
theorem IpHdr.bytes_checked {h : IpHdr} (hzero : h.check = 0) :
    h.checked.bytes = h.fieldBuffer.with (stNetChecksum (h.fieldBuffer.with 0)) := by
  have hbytes : h.bytes = h.fieldBuffer.with 0 := by
    rw [IpHdr.bytes, hzero]
    rfl
  rw [← hbytes]
  rfl

theorem wordSum_finalPacket (msgSize udpCheck : ℕ) :
    wordSum (finalPacket msgSize udpCheck).ip.bytes = 65535 := by
  unfold finalPacket
  dsimp only
  rw [IpHdr.bytes_checked rfl]
  exact FieldBuffer.wordSum_checksum _

/-- The packet that is sent is a valid datagram. -/
theorem sentPacket_valid (m : FittingMsg) : ValidDatagram m.toNetMsgT (sentPacket m.toNetMsgT) := by
  have hfits := m.fits
  have hlength := length_sentPacket m.toNetMsgT
  have hip : sizeofIphdr = 20 := rfl
  have hudp : sizeofUdphdr = 8 := rfl
  have hhead : sizeofMsgHead = 12 := rfl
  refine ⟨?_, ?_, ?_, ?_⟩
  · rw [sentPacket, List.append_assoc, List.append_assoc, List.take_left' (IpHdr.length_bytes _)]
    exact wordSum_finalPacket _ _
  · rw [hlength]
    -- two bytes stand before the total length
    exact (netHalf_append (a := [_, _]) 0).trans (netHalf_htons (by omega) _)
  · have hlen := netHalf_htons (n := sizeofUdphdr + sizeofMsgHead + m.msgHead.msgSize.toNat)
      (by omega) (half 0 ++ (m.msgHead.bytes ++ m.data))
    -- the two ports stand before the UDP length
    rw [← netHalf_append (a := half (htons (13451 + 2)) ++ half (htons 13452))] at hlen
    rw [hlength, sentPacket, List.append_assoc, List.append_assoc,
      ← IpHdr.length_bytes (finalPacket m.msgHead.msgSize.toNat 0).ip, netHalf_append]
    refine Eq.trans hlen ?_
    rw [IpHdr.length_bytes]
    omega
  · rw [sentPacket, List.append_assoc, List.append_assoc, ← List.append_assoc,
      List.drop_left' (by simp)]

/-- The checksum completes every buffer of an even length, an odd one counts as if padded, and every
message that fits is sent as a valid datagram. -/
theorem discovery_reply_valid :
    (∀ b : FieldBuffer, wordSum (b.with (stNetChecksum (b.with 0))) = 0xffff)
      ∧ (∀ b : { l : List UInt8 // l.length % 2 = 1 },
          stNetChecksum b.val = stNetChecksum (b.val ++ [0]))
      ∧ ∀ (m : FittingMsg) (stack : Mem) (result : ℤ), ∃ packet,
          (stNetSendBroadcast m.toNetMsgT stack false result).1 = some packet
            ∧ ValidDatagram m.toNetMsgT packet := by
  refine ⟨FieldBuffer.wordSum_checksum, fun b => (stNetChecksum_odd b.property).symm, ?_⟩
  intro m stack result
  refine ⟨sentPacket m.toNetMsgT, ?_, sentPacket_valid m⟩
  rw [← sentPacket_eq m stack]
  rfl
