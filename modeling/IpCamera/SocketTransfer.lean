/-
# Socket transfers (`hi_net_api.c`)

The helpers around `recv` and `send`: a loop that goes on after part of the bytes, with a limit on
the calls, and counts what has been moved back from what is left.

`hi_tcp_block_recv` counts from the size it was asked for, also where it has clipped that size to
the buffer: `socket_transfers_iff`.
-/
import IpCamera.WrapperIo

/-! ## The calls -/

/-- `EAGAIN`, `EWOULDBLOCK` and `ECONNRESET` -/
def eagain : ℕ := 11
def ewouldblock : ℕ := 11
def econnreset : ℕ := 104

/-- What calls of `recv` leave: memory, the socket, and the address and the number of bytes that
each call was given. -/
structure RecvSide (σ : Type*) where
  mem : Mem
  sock : σ
  asked : List (ℕ × ℕ)

section

variable {σ : Type*}

/-- `recv(sockfd, ptr, len, 0)` -/
def RecvSide.recv (fd : ReadFd σ) (ptr len : ℕ) (s : RecvSide σ) : ReadResult × RecvSide σ :=
  let (result, sock) := fd.read s.sock len
  (result, ⟨memcpy s.mem ptr (listMem result.bytes) result.bytes.length, sock,
    s.asked ++ [(ptr, len)]⟩)

/-! ## The functions -/

def hiMaxBlockRecvTime : ℕ := 3
def hiMaxBlockSendTime : ℕ := 3
def hiDefaultRecvTimeout : ℕ := 500
def hiDefaultSendTimeout : ℕ := 1000

/-- The end of `hi_tcp_block_recv`. -/
def blockRecvReturn (rcvSize : ℤ) (nleft : ℕ) (nread : ℤ) : ℤ :=
  if rcvSize ≤ 0 then nread else rcvSize - nleft

/-- The loop of `hi_tcp_block_recv`, and what follows it. -/
def blockRecvLoop (fd : ReadFd σ) (rcvSize : ℤ) (ptr nleft nTryTimes : ℕ) (nread : ℤ)
    (s : RecvSide σ) : ℤ × RecvSide σ :=
  if 0 < nleft ∧ nTryTimes < hiMaxBlockRecvTime then
    match s.recv fd ptr nleft with
    | (.failed errno, s) =>
      if errno = eintr then blockRecvLoop fd rcvSize ptr nleft (nTryTimes + 1) 0 s else (-1, s)
    | (.moved [], s) => (blockRecvReturn rcvSize nleft 0, s)
    | (.moved (_ :: bytes), s) =>
      let nread := bytes.length + 1
      if rcvSize ≤ 0 then (blockRecvReturn rcvSize (nleft - nread) nread, s)
      else blockRecvLoop fd rcvSize (ptr + nread) (nleft - nread) (nTryTimes + 1) nread s
  else (blockRecvReturn rcvSize nleft nread, s)
termination_by hiMaxBlockRecvTime - nTryTimes

/-- The number of bytes that the receivers go for. -/
def clippedSize (bufSize rcvSize : ℤ) : ℕ :=
  (if rcvSize ≤ 0 ∨ bufSize < rcvSize then bufSize else rcvSize).toNat

/-- `hi_tcp_block_recv` -/
def hiTcpBlockRecv (fd : ReadFd σ) (sockfd : ℤ) (rcvBuf : ℕ) (bufSize rcvSize : ℤ)
    (s : RecvSide σ) : ℤ × RecvSide σ :=
  if sockfd ≤ 0 ∨ rcvBuf = 0 ∨ bufSize ≤ 0 then (-1, s)
  else blockRecvLoop fd rcvSize rcvBuf (clippedSize bufSize rcvSize) 0 0 s

/-- The loop of `hi_tcp_noblock_recv`, and what follows it. -/
def noblockRecvLoop (fd : ReadFd σ) (rcvBuf nSize : ℕ) (rcvSize : ℤ) (dwRecved nTryTime : ℕ)
    (s : RecvSide σ) : ℤ × RecvSide σ :=
  if dwRecved < nSize then
    match s.recv fd (rcvBuf + dwRecved) (nSize - dwRecved) with
    | (.moved [], s) => (-1, s)
    | (.failed errno, s) =>
      if errno = econnreset then (-1, s)
      else if errno = ewouldblock ∨ errno = eintr ∨ errno = eagain then
        if nTryTime < hiDefaultRecvTimeout then
          noblockRecvLoop fd rcvBuf nSize rcvSize dwRecved (nTryTime + 1) s
        else (dwRecved, s)
      else (-1, s)
    | (.moved (_ :: bytes), s) =>
      let ret := bytes.length + 1
      if rcvSize ≤ 0 then ((dwRecved + ret : ℕ), s)
      else noblockRecvLoop fd rcvBuf nSize rcvSize (dwRecved + ret) 0 s
  else (dwRecved, s)
termination_by (nSize - dwRecved, hiDefaultRecvTimeout - nTryTime)

/-- `hi_tcp_noblock_recv` -/
def hiTcpNoblockRecv (fd : ReadFd σ) (sockfd : ℤ) (rcvBuf : ℕ) (bufSize rcvSize : ℤ)
    (s : RecvSide σ) : ℤ × RecvSide σ :=
  if sockfd ≤ 0 ∨ rcvBuf = 0 ∨ bufSize ≤ 0 then (-1, s)
  else noblockRecvLoop fd rcvBuf (clippedSize bufSize rcvSize) rcvSize 0 0 s

/-- The loop of `hi_tcp_block_send`; interruptions may keep it going for ever. -/
def blockSendLoop (fd : WriteFd σ) (mem : Mem) (n : ℤ) :
    (fuel ptr nleft nTryTimes : ℕ) → σ → Option (ℤ × σ)
  | 0, _, _, _, _ => none
  | fuel + 1, ptr, nleft, nTryTimes, s =>
    if 0 < nleft ∧ nTryTimes < hiMaxBlockSendTime then
      match fd.write s (loadBytes mem ptr nleft) with
      | (.failed errno, s) =>
        if errno = eintr then blockSendLoop fd mem n fuel ptr nleft 0 s else some (-1, s)
      | (.moved 0, s) => some (-1, s)
      | (.moved (k + 1), s) =>
        blockSendLoop fd mem n fuel (ptr + (k + 1)) (nleft - (k + 1)) (nTryTimes + 1) s
    else some (n - nleft, s)

/-- `hi_tcp_block_send` -/
def hiTcpBlockSend (fd : WriteFd σ) (fuel : ℕ) (mem : Mem) (sock : ℤ) (vptr : ℕ) (n : ℤ) (s : σ) :
    Option (ℤ × σ) :=
  if sock ≤ 0 ∨ vptr = 0 ∨ n ≤ 0 then some (-1, s)
  else blockSendLoop fd mem n fuel vptr n.toNat 0 s

/-- The loop of `hi_tcp_noblock_send`, and what follows it; the second result is `*pBlock`. -/
def noblockSendLoop (fd : WriteFd σ) (mem : Mem) (size : ℤ) (pbuf alllen block : ℕ) (pBlock : ℤ)
    (s : σ) : ℤ × ℤ × σ :=
  if 0 < alllen then
    match fd.write s (loadBytes mem pbuf alllen) with
    | (.moved 0, s) => (-1, pBlock, s)
    | (.failed errno, s) =>
      if hiDefaultSendTimeout < block then (-1, pBlock, s)
      else if errno = ewouldblock ∨ errno = eintr ∨ errno = eagain then
        if block < hiDefaultSendTimeout then
          noblockSendLoop fd mem size pbuf alllen (block + 1) pBlock s
        else (-1, 1, s)
      else (-1, pBlock, s)
    | (.moved (k + 1), s) =>
      noblockSendLoop fd mem size (pbuf + (k + 1)) (alllen - (k + 1)) block 0 s
  else (size, pBlock, s)
termination_by (alllen, hiDefaultSendTimeout - block)

/-- `hi_tcp_noblock_send` -/
def hiTcpNoblockSend (fd : WriteFd σ) (mem : Mem) (hSock : ℤ) (pbuf : ℕ) (size pBlock : ℤ) (s : σ) :
    ℤ × ℤ × σ :=
  if hSock < 0 ∨ pbuf = 0 ∨ size ≤ 0 then (0, pBlock, s)
  else noblockSendLoop fd mem size pbuf size.toNat 0 0 s

/-- The loop of `hi_tcp_noblock_mtu_send`. -/
def mtuSendLoop (fd : WriteFd σ) (mem : Mem) (hSock ret mtu : ℤ) :
    (fuel pbuf : ℕ) → (size nBlock : ℤ) → σ → Option (ℤ × σ)
  | 0, _, _, _, _ => none
  | fuel + 1, pbuf, size, nBlock, s =>
    if 0 < size then
      let sendLen := if size > mtu then mtu else size
      let (sended, nBlock, s) := hiTcpNoblockSend fd mem hSock pbuf sendLen nBlock s
      if sendLen ≠ sended then some (-1, s)
      else mtuSendLoop fd mem hSock ret mtu fuel (pbuf + sendLen.toNat) (size - sendLen) nBlock s
    else some (ret, s)

/-- `hi_tcp_noblock_mtu_send` -/
def hiTcpNoblockMtuSend (fd : WriteFd σ) (fuel : ℕ) (mem : Mem) (hSock : ℤ) (pbuf : ℕ)
    (size mtu : ℤ) (s : σ) : Option (ℤ × σ) :=
  if hSock ≤ 0 ∨ pbuf = 0 ∨ size ≤ 0 then some (-1, s)
  else mtuSendLoop fd mem hSock size mtu fuel pbuf size 0 s

end

/-! ## What calls have moved -/

/-- Calls of `recv` have put these bytes behind an address, and asked only for bytes of a room. -/
structure Received (s s' : RecvSide CallLog) (ptr room : ℕ) (got : List UInt8) : Prop where
  length_le : got.length ≤ room
  moved : s'.sock.moved = s.sock.moved ++ got
  mem : s'.mem = memcpy s.mem ptr (listMem got) got.length
  asked : ∃ more, s'.asked = s.asked ++ more ∧ ∀ a ∈ more, ptr ≤ a.1 ∧ a.1 + a.2 ≤ ptr + room

namespace Received

variable {s s' s'' : RecvSide CallLog} {ptr room : ℕ} {got rest : List UInt8}

theorem refl (s : RecvSide CallLog) (ptr room : ℕ) : Received s s ptr room [] where
  length_le := Nat.zero_le room
  moved := (List.append_nil _).symm
  mem := memcpy_nil s.mem ptr
  asked := ⟨[], (List.append_nil _).symm, fun a ha => absurd ha List.not_mem_nil⟩

theorem trans (h : Received s s' ptr room got)
    (h' : Received s' s'' (ptr + got.length) (room - got.length) rest) :
    Received s s'' ptr room (got ++ rest) := by
  have hle := h.length_le
  have hle' := h'.length_le
  obtain ⟨more, hmore, hin⟩ := h.asked
  obtain ⟨more', hmore', hin'⟩ := h'.asked
  refine ⟨?_, ?_, ?_, more ++ more', ?_, ?_⟩
  · rw [List.length_append]
    omega
  · rw [h'.moved, h.moved, List.append_assoc]
  · rw [h'.mem, h.mem, memcpy_append]
  · rw [hmore', hmore, List.append_assoc]
  · intro _ ha
    rcases List.mem_append.mp ha with ha | ha
    · exact hin _ ha
    · have h := hin' _ ha
      omega

/-- One call. -/
theorem of_recv {results : ℕ → ReadResult} {result : ReadResult}
    (h : s.recv (ReadFd.ofResults results) ptr room = (result, s')) :
    Received s s' ptr room result.bytes := by
  rcases hcall : (ReadFd.ofResults results).read s.sock room with ⟨result', sock⟩
  rw [RecvSide.recv, hcall] at h
  obtain ⟨rfl, rfl⟩ := Prod.mk.inj h
  refine ⟨?_, ?_, rfl, [(ptr, room)], rfl, ?_⟩
  · cases result' with
    | failed errno => exact Nat.zero_le room
    | moved bytes => exact (ReadFd.ofResults results).length_le (congrArg Prod.fst hcall)
  · rw [ReadFd.log_of_read hcall]
  · intro _ ha
    obtain rfl := List.mem_singleton.mp ha
    exact ⟨le_rfl, le_rfl⟩

end Received

/-! ## Receiving -/

/-- `hi_tcp_block_recv` counts back from the size it was asked for. -/
theorem blockRecvLoop_spec (results : ℕ → ReadResult) (rcvSize : ℤ) (ptr nleft nTryTimes : ℕ) (nread : ℤ)
    (s : RecvSide CallLog) (hnread : rcvSize ≤ 0 → nread = 0) :
    ∃ got, Received s (blockRecvLoop (ReadFd.ofResults results) rcvSize ptr nleft nTryTimes nread
        s).2 ptr nleft got ∧
      ((blockRecvLoop (ReadFd.ofResults results) rcvSize ptr nleft nTryTimes nread s).1 = -1 ∨
        (blockRecvLoop (ReadFd.ofResults results) rcvSize ptr nleft nTryTimes nread s).1
          = if rcvSize ≤ 0 then (got.length : ℤ) else rcvSize - (nleft - got.length : ℕ)) := by
  fun_induction blockRecvLoop (ReadFd.ofResults results) rcvSize ptr nleft nTryTimes nread s with
  | case1 ptr nleft nTryTimes nread s hmore s₁ hcall ih =>
    obtain ⟨got, hgot, hret⟩ := ih fun _ => rfl
    exact ⟨got, (Received.of_recv hcall).trans hgot, hret⟩
  | case2 ptr nleft nTryTimes nread s hmore errno s₁ hcall herrno =>
    exact ⟨[], Received.of_recv hcall, .inl rfl⟩
  | case3 ptr nleft nTryTimes nread s hmore s₁ hcall =>
    exact ⟨[], Received.of_recv hcall, .inr rfl⟩
  | case4 ptr nleft nTryTimes nread s hmore b bytes s₁ hcall nread' hany =>
    refine ⟨b :: bytes, Received.of_recv hcall, .inr ?_⟩
    rw [blockRecvReturn, if_pos hany, if_pos hany]
    rfl
  | case5 ptr nleft nTryTimes nread s hmore b bytes s₁ hcall nread' hany ih =>
    obtain ⟨got, hgot, hret⟩ := ih fun h => absurd h hany
    refine ⟨(b :: bytes) ++ got, (Received.of_recv hcall).trans hgot, hret.imp_right fun h => ?_⟩
    have hleft : nleft - nread' - got.length = nleft - ((b :: bytes).length + got.length) :=
      Nat.sub_sub _ _ _
    rw [h, if_neg hany, if_neg hany, List.length_append, hleft]
  | case6 ptr nleft nTryTimes nread s hdone =>
    refine ⟨[], Received.refl s ptr nleft, .inr ?_⟩
    rw [blockRecvReturn]
    by_cases hany : rcvSize ≤ 0
    · rw [if_pos hany, if_pos hany, hnread hany]
      rfl
    · rw [if_neg hany, if_neg hany]
      rfl

/-- `hi_tcp_noblock_recv` counts what it has received. -/
theorem noblockRecvLoop_spec (results : ℕ → ReadResult) (rcvBuf nSize : ℕ) (rcvSize : ℤ) (dwRecved nTryTime : ℕ)
    (s : RecvSide CallLog) :
    ∃ got, Received s (noblockRecvLoop (ReadFd.ofResults results) rcvBuf nSize rcvSize dwRecved
        nTryTime s).2 (rcvBuf + dwRecved) (nSize - dwRecved) got ∧
      ((noblockRecvLoop (ReadFd.ofResults results) rcvBuf nSize rcvSize dwRecved nTryTime s).1 = -1
        ∨ (noblockRecvLoop (ReadFd.ofResults results) rcvBuf nSize rcvSize dwRecved nTryTime s).1
          = (dwRecved + got.length : ℕ)) := by
  fun_induction noblockRecvLoop (ReadFd.ofResults results) rcvBuf nSize rcvSize dwRecved nTryTime
    s with
  | case1 dwRecved nTryTime s hmore s₁ hcall => exact ⟨[], Received.of_recv hcall, .inl rfl⟩
  | case2 dwRecved nTryTime s hmore s₁ hcall => exact ⟨[], Received.of_recv hcall, .inl rfl⟩
  | case3 dwRecved nTryTime s hmore errno s₁ hcall hreset hagain htry ih =>
    obtain ⟨got, hgot, hret⟩ := ih
    exact ⟨got, (Received.of_recv hcall).trans hgot, hret⟩
  | case4 dwRecved nTryTime s hmore errno s₁ hcall hreset hagain htry =>
    exact ⟨[], Received.of_recv hcall, .inr rfl⟩
  | case5 dwRecved nTryTime s hmore errno s₁ hcall hreset hagain =>
    exact ⟨[], Received.of_recv hcall, .inl rfl⟩
  | case6 dwRecved nTryTime s hmore b bytes s₁ hcall ret hany =>
    exact ⟨b :: bytes, Received.of_recv hcall, .inr rfl⟩
  | case7 dwRecved nTryTime s hmore b bytes s₁ hcall ret hany ih =>
    obtain ⟨got, hgot, hret⟩ := ih
    have hptr : rcvBuf + (dwRecved + ret) = rcvBuf + dwRecved + (b :: bytes).length :=
      (Nat.add_assoc _ _ _).symm
    have hroom : nSize - (dwRecved + ret) = nSize - dwRecved - (b :: bytes).length :=
      (Nat.sub_sub _ _ _).symm
    have hsum : dwRecved + ret + got.length = dwRecved + ((b :: bytes).length + got.length) :=
      Nat.add_assoc _ _ _
    rw [hptr, hroom] at hgot
    refine ⟨(b :: bytes) ++ got, (Received.of_recv hcall).trans hgot, hret.imp_right fun h => ?_⟩
    rw [h, List.length_append, hsum]
  | case8 dwRecved nTryTime s hdone => exact ⟨[], Received.refl _ _ _, .inr rfl⟩

/-! ## Sending -/

section Sending

variable {results : ℕ → WriteResult} {mem : Mem} {s s' : CallLog}

/-- One call of `send`. -/
theorem sent_of_write {ptr len k : ℕ}
    (h : (WriteFd.ofResults results).write s (loadBytes mem ptr len) = (.moved k, s')) :
    k ≤ len ∧ s'.moved = s.moved ++ loadBytes mem ptr k := by
  have hle : k ≤ len := by
    have hle := (WriteFd.ofResults results).le_length (congrArg Prod.fst h)
    rwa [loadBytes_length] at hle
  refine ⟨hle, ?_⟩
  rw [WriteFd.log_of_write h, WriteResult.taken, loadBytes_take _ _ hle]

/-- A call without bytes. -/
theorem sent_of_failed {ptr len errno : ℕ}
    (h : (WriteFd.ofResults results).write s (loadBytes mem ptr len) = (.failed errno, s')) :
    s'.moved = s.moved := by
  rw [WriteFd.log_of_write h, WriteResult.taken, List.append_nil]

/-- `hi_tcp_block_send` returns the number of bytes it has sent, or that a call has failed. -/
theorem blockSendLoop_spec {n ret : ℤ} {fuel ptr nleft nTryTimes : ℕ}
    (h : blockSendLoop (WriteFd.ofResults results) mem n fuel ptr nleft nTryTimes s
      = some (ret, s')) :
    ret = -1 ∨ ∃ k ≤ nleft, ret = n - (nleft - k : ℕ) ∧
      s'.moved = s.moved ++ loadBytes mem ptr k := by
  induction fuel generalizing ptr nleft nTryTimes s with
  | zero => cases h
  | succ fuel ih =>
    rw [blockSendLoop] at h
    split at h
    · split at h
      · rename_i errno s₁ hcall
        split at h
        · rw [← sent_of_failed hcall]
          exact ih h
        · exact .inl (Prod.mk.inj (Option.some.inj h)).1.symm
      · exact .inl (Prod.mk.inj (Option.some.inj h)).1.symm
      · rename_i k s₁ hcall
        obtain ⟨hle, hmoved⟩ := sent_of_write hcall
        refine (ih h).imp_right ?_
        rintro ⟨more, hmore, hret, hsent⟩
        refine ⟨k + 1 + more, by omega, ?_, ?_⟩
        · rw [hret, Nat.sub_sub]
        · rw [hsent, hmoved, loadBytes_add, List.append_assoc]
    · obtain ⟨rfl, rfl⟩ := Prod.mk.inj (Option.some.inj h)
      exact .inr ⟨0, Nat.zero_le nleft, rfl, (List.append_nil _).symm⟩

/-- `hi_tcp_noblock_send` returns the size only when all is sent. -/
theorem noblockSendLoop_spec (results : ℕ → WriteResult) (mem : Mem) (size : ℤ) (pbuf alllen block : ℕ) (pBlock : ℤ) (s : CallLog) :
    (noblockSendLoop (WriteFd.ofResults results) mem size pbuf alllen block pBlock s).1 = -1 ∨
      (noblockSendLoop (WriteFd.ofResults results) mem size pbuf alllen block pBlock s).1 = size ∧
      (noblockSendLoop (WriteFd.ofResults results) mem size pbuf alllen block pBlock s).2.2.moved
        = s.moved ++ loadBytes mem pbuf alllen := by
  fun_induction noblockSendLoop (WriteFd.ofResults results) mem size pbuf alllen block pBlock s with
  | case1 pbuf alllen block pBlock s hmore s₁ hcall => exact .inl rfl
  | case2 pbuf alllen block pBlock s hmore errno s₁ hcall hblock => exact .inl rfl
  | case3 pbuf alllen block pBlock s hmore errno s₁ hcall hblock hagain htry ih =>
    rwa [← sent_of_failed hcall]
  | case4 pbuf alllen block pBlock s hmore errno s₁ hcall hblock hagain htry => exact .inl rfl
  | case5 pbuf alllen block pBlock s hmore errno s₁ hcall hblock hagain => exact .inl rfl
  | case6 pbuf alllen block pBlock s hmore k s₁ hcall ih =>
    obtain ⟨hle, hmoved⟩ := sent_of_write hcall
    refine ih.imp_right ?_
    rintro ⟨hret, hsent⟩
    refine ⟨hret, ?_⟩
    rw [hsent, hmoved, List.append_assoc, ← loadBytes_add, Nat.add_sub_cancel' hle]
  | case7 pbuf alllen block pBlock s hdone =>
    have hzero : alllen = 0 := Nat.eq_zero_of_not_pos hdone
    exact .inr ⟨rfl, by rw [hzero]; exact (List.append_nil _).symm⟩

theorem hiTcpNoblockSend_sent {hSock size pBlock : ℤ} {pbuf : ℕ} (hpos : 0 < size)
    (h : (hiTcpNoblockSend (WriteFd.ofResults results) mem hSock pbuf size pBlock s).1 = size) :
    (hiTcpNoblockSend (WriteFd.ofResults results) mem hSock pbuf size pBlock s).2.2.moved
      = s.moved ++ loadBytes mem pbuf size.toNat := by
  unfold hiTcpNoblockSend at h ⊢
  split at h
  · exact absurd h hpos.ne
  · rename_i hvalid
    rw [if_neg hvalid]
    rcases noblockSendLoop_spec results mem size pbuf size.toNat 0 0 s with
      hfail | ⟨-, hsent⟩
    · omega
    · exact hsent

/-- `hi_tcp_noblock_mtu_send` returns the size only when all is sent. -/
theorem mtuSendLoop_spec {hSock ret mtu ret' : ℤ} (hmtu : 0 < mtu) {fuel pbuf : ℕ}
    {size nBlock : ℤ}
    (h : mtuSendLoop (WriteFd.ofResults results) mem hSock ret mtu fuel pbuf size nBlock s
      = some (ret', s')) :
    ret' = -1 ∨ ret' = ret ∧ s'.moved = s.moved ++ loadBytes mem pbuf size.toNat := by
  induction fuel generalizing pbuf size nBlock s with
  | zero => cases h
  | succ fuel ih =>
    rw [mtuSendLoop] at h
    split at h
    · rename_i hpos
      have hlen : 0 < (if size > mtu then mtu else size) ∧
          (if size > mtu then mtu else size) ≤ size := by
        split
        · omega
        · exact ⟨hpos, le_rfl⟩
      dsimp only at h
      generalize (if size > mtu then mtu else size) = sendLen at h hlen
      split at h
      · exact .inl (Prod.mk.inj (Option.some.inj h)).1.symm
      · rename_i hsended
        have hsent := hiTcpNoblockSend_sent hlen.1 (not_not.mp hsended).symm
        have hsplit : size.toNat = sendLen.toNat + (size - sendLen).toNat := by omega
        refine (ih h).imp_right ?_
        rintro ⟨hret, hmoved⟩
        refine ⟨hret, ?_⟩
        rw [hmoved, hsent, List.append_assoc, ← loadBytes_add, ← hsplit]
    · obtain ⟨rfl, rfl⟩ := Prod.mk.inj (Option.some.inj h)
      have hzero : size.toNat = 0 := by omega
      rw [hzero]
      exact .inr ⟨rfl, (List.append_nil _).symm⟩

end Sending

/-! ## When the blocking receiver fails -/

/-- An error that is no interruption is the first thing to end a receiver with so many calls: no
call before it found the end of the stream, and the room was not full yet. -/
def ErrorFirst (results : ℕ → ReadResult) (tries room : ℕ) : Prop :=
  ∃ k < tries, (∃ e, e ≠ eintr ∧ results k = .failed e) ∧ (∀ i < k, results i ≠ .moved []) ∧
    ∑ i ∈ Finset.range k, (results i).bytes.length < room

section ErrorFirst

variable {results : ℕ → ReadResult} {tries room : ℕ}

theorem not_errorFirst (h : tries = 0 ∨ room = 0) : ¬ ErrorFirst results tries room := by
  rintro ⟨k, hk, -, -, hsum⟩
  omega

/-- After the first call. -/
theorem errorFirst_succ (hroom : 0 < room) :
    ErrorFirst results (tries + 1) room ↔
      (∃ e, e ≠ eintr ∧ results 0 = .failed e) ∨ results 0 ≠ .moved [] ∧
        ErrorFirst (fun i => results (i + 1)) tries (room - (results 0).bytes.length) := by
  constructor
  · rintro ⟨k, hk, herror, hgoes, hsum⟩
    cases k with
    | zero => exact .inl herror
    | succ k =>
      rw [Finset.sum_range_succ'] at hsum
      refine .inr ⟨hgoes 0 (Nat.succ_pos k), k, Nat.lt_of_succ_lt_succ hk, herror, ?_, ?_⟩
      · exact fun i hi => hgoes (i + 1) (Nat.succ_lt_succ hi)
      · exact Nat.lt_sub_of_add_lt hsum
  · rintro (herror | ⟨hfirst, k, hk, herror, hgoes, hsum⟩)
    · exact ⟨0, Nat.succ_pos tries, herror, fun i hi => absurd hi (Nat.not_lt_zero i), hroom⟩
    · refine ⟨k + 1, Nat.succ_lt_succ hk, herror, ?_, ?_⟩
      · intro i hi
        cases i with
        | zero => exact hfirst
        | succ i => exact hgoes i (Nat.lt_of_succ_lt_succ hi)
      · rw [Finset.sum_range_succ']
        exact Nat.add_lt_of_lt_sub hsum

/-- The result of a call, before it is cut to the bytes asked for. -/
theorem recv_ofResults {ptr len : ℕ} {s s' : RecvSide CallLog} {result : ReadResult}
    (h : s.recv (ReadFd.ofResults results) ptr len = (result, s')) :
    s'.sock.calls = s.sock.calls + 1 ∧
      match result with
      | .failed errno => results s.sock.calls = .failed errno
      | .moved bytes => ∃ all, results s.sock.calls = .moved all ∧ bytes = all.take len := by
  rcases hcall : (ReadFd.ofResults results).read s.sock len with ⟨result', sock⟩
  have hlog := ReadFd.log_of_read hcall
  rw [RecvSide.recv, hcall] at h
  obtain ⟨rfl, rfl⟩ := Prod.mk.inj h
  refine ⟨by rw [hlog], ?_⟩
  rw [ReadFd.ofResults] at hcall
  dsimp only at hcall
  cases hresult : results s.sock.calls with
  | moved all =>
    rw [hresult] at hcall
    obtain ⟨rfl, -⟩ := Prod.mk.inj hcall
    exact ⟨all, rfl, rfl⟩
  | failed errno =>
    rw [hresult] at hcall
    obtain ⟨rfl, -⟩ := Prod.mk.inj hcall
    rfl

/-- A round of the loop. -/
theorem errorFirst_round {nTryTimes : ℕ} {s s₁ : RecvSide CallLog}
    (hmore : 0 < room ∧ nTryTimes < hiMaxBlockRecvTime)
    (hcalls : s₁.sock.calls = s.sock.calls + 1) :
    ErrorFirst (fun i => results (s.sock.calls + i)) (hiMaxBlockRecvTime - nTryTimes) room ↔
      (∃ e, e ≠ eintr ∧ results s.sock.calls = .failed e) ∨
        results s.sock.calls ≠ .moved [] ∧
        ErrorFirst (fun i => results (s₁.sock.calls + i)) (hiMaxBlockRecvTime - (nTryTimes + 1))
          (room - (results s.sock.calls).bytes.length) := by
  have htries : hiMaxBlockRecvTime - nTryTimes = hiMaxBlockRecvTime - (nTryTimes + 1) + 1 := by
    omega
  have hshift : (fun i => results (s₁.sock.calls + i))
      = fun i => results (s.sock.calls + (i + 1)) := by
    funext i
    rw [hcalls, Nat.add_right_comm, Nat.add_assoc]
  rw [htries, errorFirst_succ hmore.1, hshift, Nat.add_zero]

theorem blockRecvLoop_fails_iff (results : ℕ → ReadResult) (rcvSize : ℤ) (ptr nleft nTryTimes : ℕ) (nread : ℤ)
    (s : RecvSide CallLog) (hpos : 0 < rcvSize) (hle : nleft ≤ rcvSize) :
    (blockRecvLoop (ReadFd.ofResults results) rcvSize ptr nleft nTryTimes nread s).1 = -1 ↔
      ErrorFirst (fun i => results (s.sock.calls + i)) (hiMaxBlockRecvTime - nTryTimes) nleft := by
  have hreturn : ∀ nleft' : ℕ, nleft' ≤ nleft → ∀ nread,
      blockRecvReturn rcvSize nleft' nread ≠ -1 := by
    intro nleft' hnleft' nread
    rw [blockRecvReturn, if_neg (by omega)]
    omega
  fun_induction blockRecvLoop (ReadFd.ofResults results) rcvSize ptr nleft nTryTimes nread s with
  | case1 ptr nleft nTryTimes nread s hmore s₁ hcall ih =>
    obtain ⟨hcalls, hresult⟩ := recv_ofResults hcall
    rw [errorFirst_round hmore hcalls, hresult]
    refine (ih hle hreturn).trans ?_
    constructor
    · exact fun h => .inr ⟨nofun, h⟩
    · rintro (⟨e, he, heq⟩ | ⟨-, h⟩)
      · exact absurd (ReadResult.failed.inj heq).symm he
      · exact h
  | case2 ptr nleft nTryTimes nread s hmore errno s₁ hcall herrno =>
    obtain ⟨hcalls, hresult⟩ := recv_ofResults hcall
    rw [errorFirst_round hmore hcalls]
    exact iff_of_true rfl (.inl ⟨errno, herrno, hresult⟩)
  | case3 ptr nleft nTryTimes nread s hmore s₁ hcall =>
    obtain ⟨hcalls, all, hresult, hnil⟩ := recv_ofResults hcall
    have hall : all = [] :=
      (List.take_eq_nil_iff.mp hnil.symm).resolve_left (Nat.ne_of_gt hmore.1)
    rw [errorFirst_round hmore hcalls, hresult, hall]
    refine iff_of_false (hreturn nleft le_rfl 0) ?_
    rintro (⟨e, -, heq⟩ | ⟨hgoes, -⟩)
    · cases heq
    · exact hgoes rfl
  | case4 ptr nleft nTryTimes nread s hmore b bytes s₁ hcall nread' hany =>
    exact absurd hany (by omega)
  | case5 ptr nleft nTryTimes nread s hmore b bytes s₁ hcall nread' hany ih =>
    obtain ⟨hcalls, all, hresult, hcons⟩ := recv_ofResults hcall
    have hlength := congrArg List.length hcons
    rw [List.length_cons, List.length_take] at hlength
    have hleft : nleft - nread' = nleft - all.length := by omega
    rw [errorFirst_round hmore hcalls, hresult, ReadResult.bytes, ← hleft]
    refine (ih (by omega) fun m hm => hreturn m (by omega)).trans ?_
    constructor
    · refine fun h => .inr ⟨?_, h⟩
      rintro heq
      rw [ReadResult.moved.inj heq, List.take_nil] at hcons
      cases hcons
    · rintro (⟨e, -, heq⟩ | ⟨-, h⟩)
      · cases heq
      · exact h
  | case6 ptr nleft nTryTimes nread s hdone =>
    exact iff_of_false (hreturn nleft le_rfl nread) (not_errorFirst (by omega))

end ErrorFirst

/-! ## What is asked -/

/-- Before the first call. -/
def RecvSide.start (mem : Mem) : RecvSide CallLog := ⟨mem, ⟨0, []⟩, []⟩

/-- A receiver has asked for no byte outside the buffer, and the number it returns is that of the
bytes taken from the stream, which are the first ones of the buffer. -/
def RecvExact (rcvBuf : ℕ) (bufSize : ℤ) (out : ℤ × RecvSide CallLog) : Prop :=
  (∀ a ∈ out.2.asked, rcvBuf ≤ a.1 ∧ (a.1 + a.2 : ℤ) ≤ rcvBuf + bufSize) ∧
    (0 ≤ out.1 → out.2.sock.moved.length = out.1 ∧
      loadBytes out.2.mem rcvBuf out.1.toNat = out.2.sock.moved)

/-- A positive number that a sender returns is that of the bytes sent, which are the first ones of
the data. -/
def SendExact (mem : Mem) (vptr : ℕ) (size : ℤ) (out : ℤ × CallLog) : Prop :=
  0 < out.1 → out.1 ≤ size ∧ out.2.moved = loadBytes mem vptr out.1.toNat

/-- All helpers, whatever the socket, the memory and the place of the buffer. -/
structure SocketTransfersExact (bufSize rcvSize : ℤ) (received : ℕ → ReadResult)
    (sent : ℕ → WriteResult) : Prop where
  blockRecv : ∀ sockfd mem rcvBuf, RecvExact rcvBuf bufSize
    (hiTcpBlockRecv (ReadFd.ofResults received) sockfd rcvBuf bufSize rcvSize (.start mem))
  noblockRecv : ∀ sockfd mem rcvBuf, RecvExact rcvBuf bufSize
    (hiTcpNoblockRecv (ReadFd.ofResults received) sockfd rcvBuf bufSize rcvSize (.start mem))
  blockSend : ∀ fuel mem sock vptr n out,
    hiTcpBlockSend (WriteFd.ofResults sent) fuel mem sock vptr n ⟨0, []⟩ = some out →
      SendExact mem vptr n out
  noblockSend : ∀ mem hSock pbuf size pBlock ret pBlock' s,
    hiTcpNoblockSend (WriteFd.ofResults sent) mem hSock pbuf size pBlock ⟨0, []⟩
      = (ret, pBlock', s) → SendExact mem pbuf size (ret, s)
  noblockMtuSend : ∀ fuel mem hSock pbuf size mtu out, 0 < mtu →
    hiTcpNoblockMtuSend (WriteFd.ofResults sent) fuel mem hSock pbuf size mtu ⟨0, []⟩ = some out →
      SendExact mem pbuf size out

section Exact

variable {received : ℕ → ReadResult} {sent : ℕ → WriteResult} {bufSize rcvSize : ℤ}

/-- Nothing is received where the arguments are refused. -/
theorem recvExact_refused (mem : Mem) (rcvBuf : ℕ) (bufSize : ℤ) :
    RecvExact rcvBuf bufSize (-1, .start mem) :=
  ⟨fun a ha => absurd ha List.not_mem_nil, fun h => absurd h (by norm_num)⟩

/-- What was received is reported exactly when a number that is returned is its length. -/
theorem Received.exact_iff {mem : Mem} {rcvBuf room : ℕ} {got : List UInt8}
    {out : ℤ × RecvSide CallLog} (h : Received (.start mem) out.2 rcvBuf room got)
    (hroom : room ≤ bufSize) :
    RecvExact rcvBuf bufSize out ↔ (0 ≤ out.1 → out.1 = got.length) := by
  obtain ⟨more, hmore, hin⟩ := h.asked
  have hmoved : out.2.sock.moved = got := h.moved
  constructor
  · rintro ⟨-, hexact⟩ hret
    rw [← (hexact hret).1, hmoved]
  · refine fun hexact => ⟨fun a ha => ?_, fun hret => ?_⟩
    · rw [hmore] at ha
      have hbounds := hin a ha
      omega
    · rw [hexact hret, hmoved, h.mem, Int.toNat_natCast, loadBytes_memcpy_inside,
        loadBytes_listMem]
      exact ⟨rfl, rfl⟩

theorem clippedSize_le (hb : 0 < bufSize) : (clippedSize bufSize rcvSize : ℤ) ≤ bufSize := by
  rw [clippedSize]
  split
  · omega
  · omega

theorem noblockRecv_exact (hb : 0 < bufSize) (sockfd : ℤ) (mem : Mem) (rcvBuf : ℕ) :
    RecvExact rcvBuf bufSize (hiTcpNoblockRecv (ReadFd.ofResults received) sockfd rcvBuf bufSize
      rcvSize (.start mem)) := by
  rw [hiTcpNoblockRecv]
  split
  · exact recvExact_refused mem rcvBuf bufSize
  · obtain ⟨got, hgot, hret⟩ := noblockRecvLoop_spec received rcvBuf
      (clippedSize bufSize rcvSize) rcvSize 0 0 (.start mem)
    refine (hgot.exact_iff (clippedSize_le hb)).mpr fun hpos => ?_
    rcases hret with hret | hret
    · omega
    · rw [hret, Nat.zero_add]

/-- The blocking receiver, with arguments that it accepts. -/
theorem blockRecv_exact_iff (hb : 0 < bufSize) {sockfd : ℤ} (hsock : 0 < sockfd) (mem : Mem)
    {rcvBuf : ℕ} (hbuf : rcvBuf ≠ 0) :
    RecvExact rcvBuf bufSize (hiTcpBlockRecv (ReadFd.ofResults received) sockfd rcvBuf bufSize
      rcvSize (.start mem)) ↔
      rcvSize ≤ bufSize ∨ ErrorFirst received hiMaxBlockRecvTime bufSize.toNat := by
  have hvalid : ¬ (sockfd ≤ 0 ∨ rcvBuf = 0 ∨ bufSize ≤ 0) := by omega
  rw [hiTcpBlockRecv, if_neg hvalid]
  obtain ⟨got, hgot, hret⟩ := blockRecvLoop_spec received rcvSize rcvBuf
    (clippedSize bufSize rcvSize) 0 0 (.start mem) fun _ => rfl
  rw [hgot.exact_iff (clippedSize_le hb)]
  have hlength := hgot.length_le
  rcases le_or_gt rcvSize bufSize with hle | hgt
  · -- the size asked for is not clipped
    refine iff_of_true (fun hpos => ?_) (.inl hle)
    rcases hret with hret | hret
    · omega
    · rw [hret]
      split
      · rfl
      · rw [clippedSize, if_neg (by omega)] at hlength ⊢
        omega
  · have hclipped : clippedSize bufSize rcvSize = bufSize.toNat := by
      rw [clippedSize, if_pos (.inr hgt)]
    rw [hclipped] at hret hlength ⊢
    have hfails := blockRecvLoop_fails_iff received rcvSize rcvBuf
      bufSize.toNat 0 0 (.start mem) (by omega) (by omega)
    have hstart : (fun i => received ((RecvSide.start mem).sock.calls + i)) = received := by
      funext i
      exact congrArg received (Nat.zero_add i)
    rw [hstart, Nat.sub_zero] at hfails
    constructor
    · intro hexact
      refine .inr (hfails.mp (by_contra fun hne => ?_))
      have hcount := hret.resolve_left hne
      rw [if_neg (by omega)] at hcount
      have hsame := hexact (by omega)
      omega
    · rintro (hle | herror)
      · exact absurd hle (by omega)
      · have hfail := hfails.mpr herror
        exact fun hpos => absurd hpos (by omega)

theorem blockSend_exact {mem : Mem} {fuel vptr : ℕ} {sock n : ℤ} {out : ℤ × CallLog}
    (h : hiTcpBlockSend (WriteFd.ofResults sent) fuel mem sock vptr n ⟨0, []⟩ = some out) :
    SendExact mem vptr n out := by
  obtain ⟨ret, s⟩ := out
  intro hpos
  have hpos : 0 < ret := hpos
  rw [hiTcpBlockSend] at h
  split at h
  · have hret := (Prod.mk.inj (Option.some.inj h)).1
    omega
  · rcases blockSendLoop_spec h with hfail | ⟨k, hk, hret, hmoved⟩
    · omega
    · have hkeep : ret.toNat = k := by omega
      refine ⟨?_, ?_⟩
      · dsimp only
        omega
      · rw [hkeep]
        exact hmoved

theorem noblockSend_exact {mem : Mem} {hSock size pBlock ret pBlock' : ℤ} {pbuf : ℕ} {s : CallLog}
    (h : hiTcpNoblockSend (WriteFd.ofResults sent) mem hSock pbuf size pBlock ⟨0, []⟩
      = (ret, pBlock', s)) : SendExact mem pbuf size (ret, s) := by
  intro hpos
  have hpos : 0 < ret := hpos
  have hret := congrArg Prod.fst h
  have hs := congrArg (fun out => out.2.2) h
  dsimp only at hret hs
  unfold hiTcpNoblockSend at hret hs
  split at hret
  · omega
  · rename_i hvalid
    rw [if_neg hvalid] at hs
    rcases noblockSendLoop_spec sent mem size pbuf size.toNat 0 0 ⟨0, []⟩
      with hfail | ⟨hsize, hmoved⟩
    · omega
    · rw [← hret, hsize, ← hs]
      exact ⟨le_rfl, hmoved⟩

theorem noblockMtuSend_exact {mem : Mem} {fuel pbuf : ℕ} {hSock size mtu : ℤ} {out : ℤ × CallLog}
    (hmtu : 0 < mtu)
    (h : hiTcpNoblockMtuSend (WriteFd.ofResults sent) fuel mem hSock pbuf size mtu ⟨0, []⟩
      = some out) : SendExact mem pbuf size out := by
  obtain ⟨ret, s⟩ := out
  intro hpos
  have hpos : 0 < ret := hpos
  rw [hiTcpNoblockMtuSend] at h
  split at h
  · have hret := (Prod.mk.inj (Option.some.inj h)).1
    omega
  · rcases mtuSendLoop_spec hmtu h with hfail | ⟨rfl, hmoved⟩
    · omega
    · exact ⟨le_rfl, hmoved⟩

end Exact

/-- **The socket helpers report exactly what was transferred** exactly when the receivers are not
asked for more than the buffer holds, or the stream fails before the blocking one is done. -/
theorem socket_transfers_iff (bufSize rcvSize : ℤ) (hb : 0 < bufSize) (received : ℕ → ReadResult)
    (sent : ℕ → WriteResult) :
    SocketTransfersExact bufSize rcvSize received sent ↔
      rcvSize ≤ bufSize ∨ ErrorFirst received hiMaxBlockRecvTime bufSize.toNat := by
  constructor
  · intro h
    exact (blockRecv_exact_iff hb one_pos (fun _ => 0) one_ne_zero).mp (h.blockRecv 1 _ 1)
  · intro h
    refine ⟨fun sockfd mem rcvBuf => ?_, noblockRecv_exact hb, fun _ _ _ _ _ _ => blockSend_exact,
      fun _ _ _ _ _ _ _ _ => noblockSend_exact, fun _ _ _ _ _ _ _ => noblockMtuSend_exact⟩
    by_cases hvalid : sockfd ≤ 0 ∨ rcvBuf = 0 ∨ bufSize ≤ 0
    · rw [hiTcpBlockRecv, if_pos hvalid]
      exact recvExact_refused mem rcvBuf bufSize
    · exact (blockRecv_exact_iff hb (by omega) mem (by omega)).mpr h

/-- A request that fits the buffer. -/
theorem socket_transfers_fit :
    SocketTransfersExact 16 8 (fun _ => .moved [1, 2, 3]) (fun _ => .moved 3) :=
  (socket_transfers_iff 16 8 (by decide) _ _).mpr (.inl (by decide))

/-- Twenty bytes are asked for, and ten delivered into a buffer of ten: twenty are reported. -/
theorem socket_transfers_clipped :
    ¬ SocketTransfersExact 10 20 (fun _ => .moved (List.replicate 10 7)) (fun _ => .moved 1) := by
  intro h
  rcases (blockRecv_exact_iff (by decide) one_pos (fun _ => 0) one_ne_zero).mp
    (h.blockRecv 1 _ 1) with hle | ⟨k, -, ⟨e, -, hfailed⟩, -⟩
  · exact absurd hle (by decide)
  · cases hfailed
