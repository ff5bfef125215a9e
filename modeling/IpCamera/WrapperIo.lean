/-
# Reading and writing all of a block (`wrapper.c`)

`os_writen` and `os_readn` call `write` and `read` until the whole block is moved.  Both
look at `errno` to tell an interruption from another error.

`os_writen` also looks at it after calls that did not fail, when it still has the value
of an earlier error.  Then it may give up although no call failed:
`os_writen_readn_iff`.
-/
import IpCamera.Descriptors
import IpCamera.FileBuffer

/-! ## The functions -/

/-- `EINTR` and `EIO` -/
def eintr : ℕ := 4
def eio : ℕ := 5

section

variable {σ : Type*}

/-- The loop of `os_writen`: the result, `errno` and the state of the descriptor. -/
def osWritenLoop (fd : WriteFd σ) (n : ℕ) (mem : Mem) :
    (fuel ptr nleft errno : ℕ) → σ → Option (ℤ × ℕ × σ)
  | 0, _, _, _, _ => none
  | fuel + 1, ptr, nleft, errno, s =>
      if 0 < nleft then
        let (result, s) := fd.write s (loadBytes mem ptr nleft)
        let errno := result.errno errno
        if result.ret ≤ 0 ∧ errno ≠ eintr then some (-1, errno, s)
        else
          let nwritten := if result.ret ≤ 0 then 0 else result.ret.toNat
          if errno = 5 then some (-1, errno, s)
          else osWritenLoop fd n mem fuel (ptr + nwritten) (nleft - nwritten) errno s
      else some (n, errno, s)

/-- `os_writen` of the `n` bytes at an address. -/
def osWriten (fd : WriteFd σ) (fuel : ℕ) (mem : Mem) (vptr n errno : ℕ) (s : σ) :
    Option (ℤ × ℕ × σ) :=
  osWritenLoop fd n mem fuel vptr n errno s

/-- The loop of `os_readn`: the result, the memory, `errno` and the state of the descriptor. -/
def osReadnLoop (fd : ReadFd σ) (n : ℕ) :
    (fuel : ℕ) → Mem → (ptr nleft errno : ℕ) → σ → Option (ℤ × Mem × ℕ × σ)
  | 0, _, _, _, _, _ => none
  | fuel + 1, mem, ptr, nleft, errno, s =>
      if 0 < nleft then
        let (result, s) := fd.read s nleft
        let errno := result.errno errno
        if result.ret < 0 then
          if errno = eintr then osReadnLoop fd n fuel mem ptr nleft errno s
          else some (-1, mem, errno, s)
        else if result.ret = 0 then some ((n - nleft : ℕ), mem, errno, s)
        else
          let nread := result.ret.toNat
          osReadnLoop fd n fuel (memcpy mem ptr (listMem result.bytes) nread) (ptr + nread)
            (nleft - nread) errno s
      else some ((n - nleft : ℕ), mem, errno, s)

/-- `os_readn` of `n` bytes to an address. -/
def osReadn (fd : ReadFd σ) (fuel : ℕ) (mem : Mem) (vptr n errno : ℕ) (s : σ) :
    Option (ℤ × Mem × ℕ × σ) :=
  osReadnLoop fd n fuel mem vptr n errno s

/-! ## What was moved at the end -/

theorem memcpy_nil (mem : Mem) (ptr : ℕ) : mem = memcpy mem ptr (listMem []) 0 := by
  funext x
  rw [memcpy_outside _ _ _ (by omega)]

theorem memcpy_append (mem : Mem) (ptr : ℕ) (a b : List UInt8) :
    memcpy (memcpy mem ptr (listMem a) a.length) (ptr + a.length) (listMem b) b.length
      = memcpy mem ptr (listMem (a ++ b)) (a ++ b).length := by
  funext x
  rw [List.length_append]
  by_cases hb : ptr + a.length ≤ x ∧ x < ptr + a.length + b.length
  · rw [memcpy_inside _ _ _ hb.1 hb.2, memcpy_inside _ _ _ (by omega) (by omega),
      ← listMem_append_right a b]
    congr 1
    omega
  · rw [memcpy_outside _ _ _ (by omega)]
    by_cases ha : ptr ≤ x ∧ x < ptr + a.length
    · rw [memcpy_inside _ _ _ ha.1 ha.2, memcpy_inside _ _ _ (by omega) (by omega)]
      simp [listMem, List.getElem?_append_left (show x - ptr < a.length by omega)]
    · rw [memcpy_outside _ _ _ (by omega), memcpy_outside _ _ _ (by omega)]

/-- `os_readn` fails only after an error that is no interruption; otherwise it has put what was
delivered behind the address, and that is all unless the file ended. -/
theorem osReadnLoop_spec {fd : ReadFd σ} {n fuel : ℕ} {mem : Mem} {ptr nleft errno : ℕ} {s : σ}
    {ret : ℤ} {mem' : Mem} {errno' : ℕ} {s' : σ} (hn : nleft ≤ n)
    (hrun : osReadnLoop fd n fuel mem ptr nleft errno s = some (ret, mem', errno', s')) :
    ∃ results, fd.Calls s results s'
      ∧ (ret = -1 ∧ (∃ e, e ≠ eintr ∧ .failed e ∈ results)
        ∨ ret = (n - nleft : ℕ) + (delivered results).length
          ∧ (delivered results).length ≤ nleft
          ∧ mem' = memcpy mem ptr (listMem (delivered results)) (delivered results).length
          ∧ ((delivered results).length < nleft → .moved [] ∈ results)) := by
  induction fuel generalizing mem ptr nleft errno s with
  | zero => cases hrun
  | succ fuel ih =>
    rw [osReadnLoop] at hrun
    split at hrun
    · rename_i hpos
      rcases hcall : fd.read s nleft with ⟨result, s₁⟩
      rw [hcall] at hrun
      dsimp only at hrun
      cases result with
      | failed e =>
        rw [ReadResult.ret, if_pos neg_one_lt_zero, ReadResult.errno] at hrun
        split at hrun
        · rename_i he
          obtain ⟨results, hcalls, hend⟩ := ih hn hrun
          refine ⟨.failed e :: results, .cons hpos hcall hcalls, ?_⟩
          rcases hend with ⟨hret, e', he', hmem⟩ | ⟨hret, hlen, hcopied, hshort⟩
          · exact Or.inl ⟨hret, e', he', List.mem_cons_of_mem _ hmem⟩
          · exact Or.inr ⟨hret, hlen, hcopied, fun h => List.mem_cons_of_mem _ (hshort h)⟩
        · rename_i he
          obtain ⟨rfl, -, -, rfl⟩ := by simpa using hrun
          exact ⟨[.failed e], .cons hpos hcall (.nil _), Or.inl ⟨rfl, e, he, List.mem_singleton_self _⟩⟩
      | moved bytes =>
        have hle : bytes.length ≤ nleft := by
          apply fd.length_le
          rw [hcall]
        rw [ReadResult.ret, if_neg (by omega), ReadResult.errno] at hrun
        split at hrun
        · rename_i hzero
          obtain rfl : bytes = [] := List.length_eq_zero_iff.mp (by omega)
          obtain ⟨rfl, rfl, -, rfl⟩ := by simpa using hrun
          refine ⟨[.moved []], .cons hpos hcall (.nil _), Or.inr ⟨?_, Nat.zero_le _, memcpy_nil _ _,
            fun _ => List.mem_singleton_self _⟩⟩
          show _ = ((n - nleft : ℕ) : ℤ) + ((0 : ℕ) : ℤ)
          omega
        · rw [Int.toNat_natCast, ReadResult.bytes] at hrun
          obtain ⟨results, hcalls, hend⟩ := ih (by omega) hrun
          refine ⟨.moved bytes :: results, .cons hpos hcall hcalls, ?_⟩
          have hdel : delivered (.moved bytes :: results) = bytes ++ delivered results := rfl
          rw [hdel, List.length_append]
          rcases hend with ⟨hret, e', he', hmem⟩ | ⟨hret, hlen, hcopied, hshort⟩
          · exact Or.inl ⟨hret, e', he', List.mem_cons_of_mem _ hmem⟩
          · refine Or.inr ⟨by omega, by omega, ?_, fun h => List.mem_cons_of_mem _ (hshort (by omega))⟩
            rw [hcopied, memcpy_append, List.length_append]
    · obtain ⟨rfl, rfl, -, rfl⟩ := by simpa using hrun
      refine ⟨[], .nil _, Or.inr ⟨?_, Nat.zero_le _, memcpy_nil _ _, fun h => ?_⟩⟩
      · show _ = ((n - nleft : ℕ) : ℤ) + ((0 : ℕ) : ℤ)
        omega
      · exact absurd (Nat.zero_lt_of_lt h) ‹_›

theorem loadBytes_take (mem : Mem) (a : ℕ) {n k : ℕ} (h : k ≤ n) :
    (loadBytes mem a n).take k = loadBytes mem a k := by
  obtain ⟨d, rfl⟩ := Nat.exists_eq_add_of_le h
  rw [loadBytes_add, List.take_left' (loadBytes_length mem a k)]

/-- If `os_writen` reports success, what was taken is the block. -/
theorem osWritenLoop_spec {fd : WriteFd σ} {n fuel : ℕ} {mem : Mem} {ptr nleft errno : ℕ} {s : σ}
    {ret : ℤ} {errno' : ℕ} {s' : σ}
    (hrun : osWritenLoop fd n mem fuel ptr nleft errno s = some (ret, errno', s')) :
    ∃ calls, fd.Calls s calls s'
      ∧ (ret = -1 ∨ ret = n ∧ taken calls = loadBytes mem ptr nleft) := by
  induction fuel generalizing ptr nleft errno s with
  | zero => cases hrun
  | succ fuel ih =>
    rw [osWritenLoop] at hrun
    split at hrun
    · rcases hcall : fd.write s (loadBytes mem ptr nleft) with ⟨result, s₁⟩
      rw [hcall] at hrun
      dsimp only at hrun
      split at hrun
      · obtain ⟨rfl, -, rfl⟩ := by simpa using hrun
        exact ⟨_, .cons hcall (.nil _), Or.inl rfl⟩
      · split at hrun
        · obtain ⟨rfl, -, rfl⟩ := by simpa using hrun
          exact ⟨_, .cons hcall (.nil _), Or.inl rfl⟩
        · obtain ⟨calls, hcalls, hend⟩ := ih hrun
          refine ⟨_, .cons hcall hcalls, hend.imp_right fun ⟨hret, htaken⟩ => ⟨hret, ?_⟩⟩
          have hcons : taken ((loadBytes mem ptr nleft, result) :: calls)
            = result.taken (loadBytes mem ptr nleft) ++ taken calls := rfl
          rw [hcons, htaken]
          cases result with
          | failed e =>
            rw [WriteResult.ret, if_pos (by omega), WriteResult.taken]
            rfl
          | moved k =>
            have hle : k ≤ nleft := by
              rw [← loadBytes_length mem ptr nleft]
              apply fd.le_length
              rw [hcall]
            have hk : (if (k : ℤ) ≤ 0 then 0 else (k : ℤ).toNat) = k := by
              split <;> omega
            rw [WriteResult.ret, hk, WriteResult.taken, loadBytes_take _ _ hle,
              ← loadBytes_add, Nat.add_sub_cancel' hle]
    · obtain ⟨rfl, -, rfl⟩ := by simpa using hrun
      obtain rfl : nleft = 0 := by omega
      exact ⟨[], .nil _, Or.inr ⟨rfl, rfl⟩⟩

end

/-! ## Given results -/

section

variable {results : ℕ → WriteResult} {n : ℕ} {mem : Mem}

/-- A call with the result given. -/
theorem ofResults_write (results : ℕ → WriteResult) (s : CallLog) (bytes : List UInt8) :
    ∃ s₁ : CallLog, s₁.calls = s.calls + 1 ∧ (WriteFd.ofResults results).write s bytes
      = (match results s.calls with
        | .moved k => .moved (min k bytes.length)
        | .failed e => .failed e, s₁) := by
  rw [WriteFd.ofResults]
  dsimp only
  cases results s.calls with
  | moved k => exact ⟨_, rfl, rfl⟩
  | failed e => exact ⟨_, rfl, rfl⟩

/-- The rounds of the loop with an error. -/
theorem osWritenLoop_failed {s : CallLog} {e : ℕ} (h : results s.calls = .failed e)
    (ptr errno : ℕ) {nleft : ℕ} (hleft : 0 < nleft) :
    ∃ s₁ : CallLog, s₁.calls = s.calls + 1 ∧ ∀ fuel,
      osWritenLoop (WriteFd.ofResults results) n mem (fuel + 1) ptr nleft errno s
        = if e = eintr then osWritenLoop (WriteFd.ofResults results) n mem fuel ptr nleft e s₁
          else some (-1, e, s₁) := by
  obtain ⟨s₁, hs₁, hcall⟩ := ofResults_write results s (loadBytes mem ptr nleft)
  rw [h] at hcall
  refine ⟨s₁, hs₁, fun fuel => ?_⟩
  rw [osWritenLoop, if_pos hleft, hcall]
  show (if (-1 : ℤ) ≤ 0 ∧ e ≠ eintr then some (-1, e, s₁)
    else if e = eio then _ else osWritenLoop _ n mem fuel (ptr + 0) (nleft - 0) e _) = _
  by_cases he : e = eintr
  · subst he
    rw [if_neg fun h => h.2 rfl, if_pos rfl, if_neg (by decide)]
    rfl
  · rw [if_pos ⟨by decide, he⟩, if_neg he]

/-- The rounds of the loop without an error. -/
theorem osWritenLoop_moved {s : CallLog} {k : ℕ} (h : results s.calls = .moved k)
    (ptr errno : ℕ) {nleft : ℕ} (hleft : 0 < nleft) :
    ∃ s₁ : CallLog, s₁.calls = s.calls + 1 ∧ ∀ fuel,
      osWritenLoop (WriteFd.ofResults results) n mem (fuel + 1) ptr nleft errno s
        = if k = 0 ∧ errno ≠ eintr ∨ errno = eio then some (-1, errno, s₁)
          else osWritenLoop (WriteFd.ofResults results) n mem fuel (ptr + min k nleft)
            (nleft - min k nleft) errno s₁ := by
  obtain ⟨s₁, hs₁, hcall⟩ := ofResults_write results s (loadBytes mem ptr nleft)
  rw [h, loadBytes_length] at hcall
  refine ⟨s₁, hs₁, fun fuel => ?_⟩
  have hnwritten : (if ((min k nleft : ℕ) : ℤ) ≤ 0 then 0 else ((min k nleft : ℕ) : ℤ).toNat)
      = min k nleft := by
    split <;> omega
  rw [osWritenLoop, if_pos hleft, hcall]
  show (if ((min k nleft : ℕ) : ℤ) ≤ 0 ∧ errno ≠ eintr then _
    else if errno = eio then _
    else osWritenLoop _ n mem fuel
      (ptr + if ((min k nleft : ℕ) : ℤ) ≤ 0 then 0 else ((min k nleft : ℕ) : ℤ).toNat)
      (nleft - if ((min k nleft : ℕ) : ℤ) ≤ 0 then 0 else ((min k nleft : ℕ) : ℤ).toNat)
      errno _) = _
  rw [hnwritten]
  by_cases hzero : k = 0 ∧ errno ≠ eintr
  · rw [if_pos ⟨by omega, hzero.2⟩, if_pos (Or.inl hzero)]
    rfl
  · rw [if_neg fun h => hzero ⟨by omega, h.2⟩]
    by_cases heio : errno = eio
    · rw [if_pos heio, if_pos (Or.inr heio)]
      rfl
    · rw [if_neg heio, if_neg (not_or.mpr ⟨hzero, heio⟩)]

/-- A result that moves something, or an error that is no interruption. -/
def WriteResult.Advances : WriteResult → Prop
  | .moved k => 0 < k
  | .failed e => e ≠ eintr

/-- With enough fuel there is a result. -/
def OsWritenReturns (results : ℕ → WriteResult) (n : ℕ) (mem : Mem) (ptr nleft errno : ℕ)
    (s : CallLog) : Prop :=
  ∃ fuel out, osWritenLoop (WriteFd.ofResults results) n mem fuel ptr nleft errno s = some out

/-- After a call without an error there is a result if there is one for what is left. -/
theorem osWritenReturns_moved {s : CallLog} {k : ℕ} (h : results s.calls = .moved k)
    (ptr errno : ℕ) {nleft : ℕ} (hleft : 0 < nleft) : ∃ s₁ : CallLog, s₁.calls = s.calls + 1
      ∧ (OsWritenReturns results n mem (ptr + min k nleft) (nleft - min k nleft) errno s₁ →
        OsWritenReturns results n mem ptr nleft errno s) := by
  obtain ⟨s₁, hs₁, hround⟩ := osWritenLoop_moved h ptr errno hleft
  refine ⟨s₁, hs₁, ?_⟩
  rintro ⟨fuel, out, hout⟩
  refine ⟨fuel + 1, ?_⟩
  rw [hround]
  split
  · exact ⟨_, rfl⟩
  · exact ⟨out, hout⟩

/-- After a call with an error there is a result, or the call was interrupted and there is one if
there is one for the next call. -/
theorem osWritenReturns_failed {s : CallLog} {e : ℕ} (h : results s.calls = .failed e)
    (ptr errno : ℕ) {nleft : ℕ} (hleft : 0 < nleft) : ∃ s₁ : CallLog, s₁.calls = s.calls + 1
      ∧ (e ≠ eintr ∨ OsWritenReturns results n mem ptr nleft e s₁ →
        OsWritenReturns results n mem ptr nleft errno s) := by
  obtain ⟨s₁, hs₁, hround⟩ := osWritenLoop_failed h ptr errno hleft
  refine ⟨s₁, hs₁, ?_⟩
  rintro (he | ⟨fuel, out, hout⟩)
  · exact ⟨1, _, by rw [hround, if_neg he]⟩
  · refine ⟨fuel + 1, ?_⟩
    rw [hround]
    split
    · exact ⟨out, hout⟩
    · exact ⟨_, rfl⟩

/-- `os_writen` returns if the results make progress, or fail, again and again. -/
theorem osWritenLoop_returns (hadv : ∀ i, ∃ j, i ≤ j ∧ (results j).Advances) (nleft : ℕ) :
    ∀ (ptr errno : ℕ) (s : CallLog), OsWritenReturns results n mem ptr nleft errno s := by
  induction nleft using Nat.strong_induction_on with
  | _ nleft ih =>
    intro ptr errno s
    rcases Nat.eq_zero_or_pos nleft with rfl | hleft
    · exact ⟨1, _, rfl⟩
    obtain ⟨j, hij, hj⟩ := hadv s.calls
    -- by induction on the calls up to the next one that makes progress or fails
    obtain ⟨d, hd⟩ := Nat.exists_eq_add_of_le hij
    induction d generalizing ptr errno s with
    | zero =>
      rw [hd, Nat.add_zero] at hj
      rcases hres : results s.calls with k | e
      · rw [hres] at hj
        have hk : 0 < k := hj
        obtain ⟨s₁, -, hreturns⟩ := osWritenReturns_moved hres ptr errno hleft
        exact hreturns (ih _ (by omega) _ _ s₁)
      · rw [hres] at hj
        obtain ⟨s₁, -, hreturns⟩ := osWritenReturns_failed hres ptr errno hleft
        exact hreturns (Or.inl hj)
    | succ d ihd =>
      rcases hres : results s.calls with k | e
      · obtain ⟨s₁, hs₁, hreturns⟩ := osWritenReturns_moved hres ptr errno hleft
        apply hreturns
        rcases Nat.eq_zero_or_pos k with rfl | hk
        · rw [Nat.zero_min, Nat.sub_zero]
          exact ihd _ _ s₁ (by omega) (by omega)
        · exact ih _ (by omega) _ _ s₁
      · obtain ⟨s₁, hs₁, hreturns⟩ := osWritenReturns_failed hres ptr errno hleft
        exact hreturns (Or.inr (ihd ptr e s₁ (by omega) (by omega)))

/-! ## An old `errno` -/

/-- `os_writen` of `n` bytes reads an `errno` that none of its calls has set, and takes it for the
error of a call: up to some call none has failed, bytes are left, and the call moves nothing while
`errno` is not that of an interruption, or `errno` is `EIO`. -/
def StaleErrno (results : ℕ → WriteResult) (n errno : ℕ) : Prop :=
  ∃ j, (∀ i, i ≤ j → ∃ k, results i = .moved k)
    ∧ ∑ i ∈ Finset.range j, (results i).amount < n
    ∧ (results j = .moved 0 ∧ errno ≠ eintr ∨ errno = eio)

theorem staleErrno_of_first {nleft errno k : ℕ} (h : results 0 = .moved k) (hleft : 0 < nleft)
    (hstale : k = 0 ∧ errno ≠ eintr ∨ errno = eio) : StaleErrno results nleft errno := by
  refine ⟨0, fun i hi => ⟨k, ?_⟩, by simpa using hleft, ?_⟩
  · rw [Nat.le_zero.mp hi, h]
  · rcases hstale with ⟨rfl, he⟩ | he
    · exact Or.inl ⟨h, he⟩
    · exact Or.inr he

theorem sum_amount_succ {k : ℕ} (h : results 0 = .moved k) (j : ℕ) :
    ∑ i ∈ Finset.range (j + 1), (results i).amount
      = ∑ i ∈ Finset.range j, (results (i + 1)).amount + k := by
  rw [Finset.sum_range_succ', h]
  rfl

theorem staleErrno_of_next {nleft errno k : ℕ} (h : results 0 = .moved k)
    (hstale : StaleErrno (fun i => results (i + 1)) (nleft - min k nleft) errno) :
    StaleErrno results nleft errno := by
  obtain ⟨j, hmoved, hsum, hend⟩ := hstale
  refine ⟨j + 1, fun i hi => ?_, ?_, hend⟩
  · cases i with
    | zero => exact ⟨k, h⟩
    | succ i => exact hmoved i (Nat.le_of_succ_le_succ hi)
  · rw [sum_amount_succ h]
    dsimp only at hsum
    omega

theorem StaleErrno.next {nleft errno k : ℕ} (hstale : StaleErrno results nleft errno)
    (h : results 0 = .moved k) (hfirst : ¬(k = 0 ∧ errno ≠ eintr ∨ errno = eio)) :
    StaleErrno (fun i => results (i + 1)) (nleft - min k nleft) errno := by
  obtain ⟨j, hmoved, hsum, hend⟩ := hstale
  cases j with
  | zero =>
    refine absurd (hend.imp_left fun ⟨hzero, he⟩ => ⟨?_, he⟩) hfirst
    rw [h] at hzero
    exact WriteResult.moved.inj hzero
  | succ j =>
    rw [sum_amount_succ h] at hsum
    refine ⟨j, fun i hi => hmoved (i + 1) (Nat.succ_le_succ hi), ?_, hend⟩
    dsimp only
    omega

/-- With no old value of `errno` to be misread it is an error that makes `os_writen` fail. -/
theorem not_staleErrno_eintr (nleft : ℕ) : ¬StaleErrno results nleft eintr := by
  rintro ⟨j, -, -, ⟨-, h⟩ | h⟩
  · exact h rfl
  · exact absurd h (by decide)

/-- Why `os_writen` fails. -/
theorem osWritenLoop_fails {fuel ptr nleft errno : ℕ} {s : CallLog} {errno' : ℕ} {s' : CallLog}
    (hrun : osWritenLoop (WriteFd.ofResults results) n mem fuel ptr nleft errno s
      = some (-1, errno', s')) :
    (∃ j < s'.calls, ∃ e, e ≠ eintr ∧ results j = .failed e)
      ∨ StaleErrno (fun i => results (s.calls + i)) nleft errno := by
  induction fuel generalizing ptr nleft errno s with
  | zero => cases hrun
  | succ fuel ih =>
    rcases Nat.eq_zero_or_pos nleft with rfl | hleft
    · rw [osWritenLoop, if_neg (Nat.lt_irrefl 0)] at hrun
      have := (Prod.mk.inj (Option.some.inj hrun)).1
      omega
    rcases hres : results s.calls with k | e
    · obtain ⟨s₁, hs₁, hround⟩ := osWritenLoop_moved hres ptr errno hleft
      rw [hround] at hrun
      split at hrun
      · rename_i hstale
        exact Or.inr (staleErrno_of_first hres hleft hstale)
      · refine (ih hrun).imp_right fun hstale => staleErrno_of_next hres ?_
        simpa only [hs₁, Nat.add_assoc, Nat.add_comm 1] using hstale
    · obtain ⟨s₁, hs₁, hround⟩ := osWritenLoop_failed hres ptr errno hleft
      rw [hround] at hrun
      split at hrun
      · rename_i he
        subst he
        exact Or.inl ((ih hrun).resolve_right (not_staleErrno_eintr nleft))
      · rename_i he
        obtain ⟨-, hs'⟩ := Prod.mk.inj (Option.some.inj hrun)
        obtain ⟨-, rfl⟩ := Prod.mk.inj hs'
        exact Or.inl ⟨s.calls, by omega, e, he, hres⟩

/-- An old value of `errno` makes `os_writen` fail though no call has failed. -/
theorem osWritenLoop_of_staleErrno {ptr nleft errno : ℕ} {s : CallLog}
    (hstale : StaleErrno (fun i => results (s.calls + i)) nleft errno) :
    ∃ fuel errno' s', osWritenLoop (WriteFd.ofResults results) n mem fuel ptr nleft errno s
        = some (-1, errno', s')
      ∧ ∀ i, s.calls ≤ i → i < s'.calls → ∃ k, results i = .moved k := by
  induction nleft using Nat.strong_induction_on generalizing ptr s with
  | _ nleft ih =>
    obtain ⟨k, hres⟩ : ∃ k, results s.calls = .moved k := by
      obtain ⟨j, hmoved, -⟩ := hstale
      exact hmoved 0 (Nat.zero_le j)
    have hleft : 0 < nleft := by
      obtain ⟨j, -, hsum, -⟩ := hstale
      exact Nat.zero_lt_of_lt hsum
    obtain ⟨s₁, hs₁, hround⟩ := osWritenLoop_moved hres ptr errno hleft
    by_cases hfirst : k = 0 ∧ errno ≠ eintr ∨ errno = eio
    · refine ⟨1, errno, s₁, by rw [hround, if_pos hfirst], fun i hi hi' => ⟨k, ?_⟩⟩
      rw [show i = s.calls by omega, hres]
    · have hk : 0 < k := by
        by_contra hk
        obtain rfl : errno = eintr := by
          by_contra he
          exact hfirst (Or.inl ⟨by omega, he⟩)
        exact not_staleErrno_eintr nleft hstale
      have hshift : (fun i => results (s.calls + (i + 1))) = fun i => results (s₁.calls + i) := by
        funext i
        rw [hs₁]
        congr 1
        omega
      have hnext := hstale.next hres hfirst
      rw [hshift] at hnext
      obtain ⟨fuel, errno', s', hrun, hmoved⟩ := ih _ (by omega) hnext
      refine ⟨fuel + 1, errno', s', by rw [hround, if_neg hfirst, hrun], fun i hi hi' => ?_⟩
      rcases Nat.eq_or_lt_of_le hi with rfl | hlt
      · exact ⟨k, hres⟩
      · exact hmoved i (by omega) hi'

end

/-! ## `os_readn` returns -/

/-- A result that is no interruption. -/
def ReadResult.Advances : ReadResult → Prop
  | .moved _ => True
  | .failed e => e ≠ eintr

/-- The rounds of the loop with an error. -/
theorem osReadnLoop_failed {results : ℕ → ReadResult} {n : ℕ} {s : CallLog} {e : ℕ}
    (h : results s.calls = .failed e) (mem : Mem) (ptr errno : ℕ) {nleft : ℕ} (hleft : 0 < nleft) :
    ∃ s₁ : CallLog, s₁.calls = s.calls + 1 ∧ ∀ fuel,
      osReadnLoop (ReadFd.ofResults results) n (fuel + 1) mem ptr nleft errno s
        = if e = eintr then osReadnLoop (ReadFd.ofResults results) n fuel mem ptr nleft e s₁
          else some (-1, mem, e, s₁) := by
  have hcall : (ReadFd.ofResults results).read s nleft = (.failed e, ⟨s.calls + 1, s.moved⟩) := by
    rw [ReadFd.ofResults]
    dsimp only
    rw [h]
  refine ⟨⟨s.calls + 1, s.moved⟩, rfl, fun fuel => ?_⟩
  rw [osReadnLoop, if_pos hleft, hcall]
  exact if_pos neg_one_lt_zero

/-- The rounds of the loop without an error: the file ends, or less is left. -/
theorem osReadnLoop_moved {results : ℕ → ReadResult} {n : ℕ} {s : CallLog} {bytes : List UInt8}
    (h : results s.calls = .moved bytes) (mem : Mem) (ptr errno : ℕ) {nleft : ℕ}
    (hleft : 0 < nleft) :
    ∃ s₁ : CallLog, ∃ mem₁ : Mem, ∀ fuel,
      osReadnLoop (ReadFd.ofResults results) n (fuel + 1) mem ptr nleft errno s
        = if (bytes.take nleft).length = 0 then some (((n - nleft : ℕ) : ℤ), mem, errno, s₁)
          else osReadnLoop (ReadFd.ofResults results) n fuel mem₁ (ptr + (bytes.take nleft).length)
            (nleft - (bytes.take nleft).length) errno s₁ := by
  have hcall : (ReadFd.ofResults results).read s nleft
      = (.moved (bytes.take nleft), ⟨s.calls + 1, s.moved ++ bytes.take nleft⟩) := by
    rw [ReadFd.ofResults]
    dsimp only
    rw [h]
  refine ⟨⟨s.calls + 1, s.moved ++ bytes.take nleft⟩,
    memcpy mem ptr (listMem (bytes.take nleft)) (bytes.take nleft).length, fun fuel => ?_⟩
  rw [osReadnLoop, if_pos hleft, hcall]
  show (if ((bytes.take nleft).length : ℤ) < 0 then _
    else if ((bytes.take nleft).length : ℤ) = 0 then _ else _) = _
  rw [if_neg (by omega)]
  by_cases hzero : (bytes.take nleft).length = 0
  · rw [if_pos (by omega), if_pos hzero]
    rfl
  · rw [if_neg (by omega), if_neg hzero]
    rfl

/-- With enough fuel there is a result. -/
def OsReadnReturns (results : ℕ → ReadResult) (n : ℕ) (mem : Mem) (ptr nleft errno : ℕ)
    (s : CallLog) : Prop :=
  ∃ fuel out, osReadnLoop (ReadFd.ofResults results) n fuel mem ptr nleft errno s = some out

/-- After a call without an error there is a result if there is one whenever less is left. -/
theorem osReadnReturns_moved {results : ℕ → ReadResult} {n : ℕ} {s : CallLog} {bytes : List UInt8}
    (h : results s.calls = .moved bytes) (mem : Mem) (ptr errno : ℕ) {nleft : ℕ} (hleft : 0 < nleft)
    (hless : ∀ m < nleft, ∀ mem ptr errno s, OsReadnReturns results n mem ptr m errno s) :
    OsReadnReturns results n mem ptr nleft errno s := by
  obtain ⟨s₁, mem₁, hround⟩ := osReadnLoop_moved h mem ptr errno hleft
  by_cases hzero : (bytes.take nleft).length = 0
  · exact ⟨1, _, by rw [hround, if_pos hzero]⟩
  · obtain ⟨fuel, out, hout⟩ := hless (nleft - (bytes.take nleft).length) (by omega) mem₁
      (ptr + (bytes.take nleft).length) errno s₁
    exact ⟨fuel + 1, out, by rw [hround, if_neg hzero, hout]⟩

/-- After a call with an error there is a result, or the call was interrupted and there is one if
there is one for the next call. -/
theorem osReadnReturns_failed {results : ℕ → ReadResult} {n : ℕ} {s : CallLog} {e : ℕ}
    (h : results s.calls = .failed e) (mem : Mem) (ptr errno : ℕ) {nleft : ℕ} (hleft : 0 < nleft) :
    ∃ s₁ : CallLog, s₁.calls = s.calls + 1
      ∧ (e ≠ eintr ∨ OsReadnReturns results n mem ptr nleft e s₁ →
        OsReadnReturns results n mem ptr nleft errno s) := by
  obtain ⟨s₁, hs₁, hround⟩ := osReadnLoop_failed h mem ptr errno hleft
  refine ⟨s₁, hs₁, ?_⟩
  rintro (he | ⟨fuel, out, hout⟩)
  · exact ⟨1, _, by rw [hround, if_neg he]⟩
  · refine ⟨fuel + 1, ?_⟩
    rw [hround]
    split
    · exact ⟨out, hout⟩
    · exact ⟨_, rfl⟩

/-- `os_readn` returns if calls that are not interrupted come again and again. -/
theorem osReadnLoop_returns {results : ℕ → ReadResult} {n : ℕ}
    (hadv : ∀ i, ∃ j, i ≤ j ∧ (results j).Advances) (nleft : ℕ) :
    ∀ (mem : Mem) (ptr errno : ℕ) (s : CallLog), OsReadnReturns results n mem ptr nleft errno s := by
  induction nleft using Nat.strong_induction_on with
  | _ nleft ih =>
    intro mem ptr errno s
    rcases Nat.eq_zero_or_pos nleft with rfl | hleft
    · exact ⟨1, _, rfl⟩
    obtain ⟨j, hij, hj⟩ := hadv s.calls
    obtain ⟨d, hd⟩ := Nat.exists_eq_add_of_le hij
    -- by induction on the interruptions up to the next call that has another result
    induction d generalizing ptr errno s with
    | zero =>
      rw [hd, Nat.add_zero] at hj
      rcases hres : results s.calls with bytes | e
      · exact osReadnReturns_moved hres mem ptr errno hleft ih
      · rw [hres] at hj
        obtain ⟨s₁, -, hreturns⟩ := osReadnReturns_failed hres mem ptr errno hleft
        exact hreturns (Or.inl hj)
    | succ d ihd =>
      rcases hres : results s.calls with bytes | e
      · exact osReadnReturns_moved hres mem ptr errno hleft ih
      · obtain ⟨s₁, hs₁, hreturns⟩ := osReadnReturns_failed hres mem ptr errno hleft
        exact hreturns (Or.inr (ihd ptr e s₁ (by omega) (by omega)))

/-! ## What the functions should do -/

/-- `os_writen` of `n` bytes: it returns if the results make progress, or fail, again and again;
it reports success only if exactly the block was taken, and otherwise a call has failed with an
error that is no interruption. -/
def OsWritenRight (results : ℕ → WriteResult) (mem : Mem) (vptr n errno : ℕ) : Prop :=
  ((∀ i, ∃ j, i ≤ j ∧ (results j).Advances) →
      ∃ fuel out, osWriten (WriteFd.ofResults results) fuel mem vptr n errno ⟨0, []⟩ = some out)
    ∧ ∀ fuel ret errno' s,
      osWriten (WriteFd.ofResults results) fuel mem vptr n errno ⟨0, []⟩ = some (ret, errno', s) →
      ret = n ∧ s.moved = loadBytes mem vptr n
        ∨ ret = -1 ∧ ∃ j < s.calls, ∃ e, e ≠ eintr ∧ results j = .failed e

/-- `os_readn` of `n` bytes: what it has put behind the address is what was delivered, less than
all only at the end of the file. -/
def OsReadnRight (results : ℕ → ReadResult) (mem : Mem) (vptr n errno : ℕ) : Prop :=
  ((∀ i, ∃ j, i ≤ j ∧ (results j).Advances) →
      ∃ fuel out, osReadn (ReadFd.ofResults results) fuel mem vptr n errno ⟨0, []⟩ = some out)
    ∧ ∀ fuel ret mem' errno' s,
      osReadn (ReadFd.ofResults results) fuel mem vptr n errno ⟨0, []⟩
        = some (ret, mem', errno', s) →
      (∃ m ≤ n, ret = m ∧ s.moved.length = m ∧ loadBytes mem' vptr m = s.moved
          ∧ (m < n → ∃ j < s.calls, results j = .moved []))
        ∨ ret = -1 ∧ ∃ j < s.calls, ∃ e, e ≠ eintr ∧ results j = .failed e

theorem osReadnRight (results : ℕ → ReadResult) (mem : Mem) (vptr n errno : ℕ) :
    OsReadnRight results mem vptr n errno := by
  refine ⟨fun hadv => osReadnLoop_returns hadv n mem vptr errno _, ?_⟩
  intro fuel ret mem' errno' s hrun
  obtain ⟨trace, hcalls, hend⟩ := osReadnLoop_spec (le_refl n) hrun
  have hlog := hcalls.log.2
  rw [List.nil_append] at hlog
  rcases hend with ⟨hret, e, he, hmem⟩ | ⟨hret, hlen, rfl, hshort⟩
  · obtain ⟨j, hj, hres⟩ := hcalls.failed_mem hmem
    exact Or.inr ⟨hret, j, hj, e, he, hres⟩
  · rw [hlog]
    refine Or.inl ⟨(delivered trace).length, hlen, by omega, rfl, ?_, fun h => ?_⟩
    · rw [loadBytes_memcpy_inside, loadBytes_listMem]
    · exact hcalls.end_mem (hshort h)

theorem osWritenRight_iff (results : ℕ → WriteResult) (mem : Mem) (vptr n errno : ℕ) :
    OsWritenRight results mem vptr n errno ↔ ¬StaleErrno results n errno := by
  have hshift : (fun i => results (0 + i)) = results := by
    funext i
    rw [Nat.zero_add]
  constructor
  · rintro ⟨-, hright⟩ hstale
    rw [← hshift] at hstale
    obtain ⟨fuel, errno', s, hrun, hmoved⟩ := osWritenLoop_of_staleErrno (s := ⟨0, []⟩) hstale
    rcases hright fuel _ _ _ hrun with ⟨h, -⟩ | ⟨-, j, hj, e, -, hres⟩
    · omega
    · obtain ⟨k, hk⟩ := hmoved j (Nat.zero_le j) hj
      rw [hres] at hk
      cases hk
  · intro hstale
    refine ⟨fun hadv => osWritenLoop_returns hadv n vptr errno _, ?_⟩
    intro fuel ret errno' s hrun
    obtain ⟨calls, hcalls, rfl | ⟨hret, htaken⟩⟩ := osWritenLoop_spec hrun
    · refine Or.inr ⟨rfl, (osWritenLoop_fails hrun).resolve_right fun h => hstale ?_⟩
      rwa [← hshift]
    · rw [hcalls.log.2, htaken]
      exact Or.inl ⟨hret, rfl⟩

/-- Both functions do what they should exactly if `os_writen` does not come to read an `errno` that
none of its calls has set. -/
theorem os_writen_readn_iff (writes : ℕ → WriteResult) (reads : ℕ → ReadResult) (mem : Mem)
    (vptr n errno : ℕ) :
    OsWritenRight writes mem vptr n errno ∧ OsReadnRight reads mem vptr n errno
      ↔ ¬StaleErrno writes n errno := by
  rw [osWritenRight_iff]
  exact and_iff_left (osReadnRight reads mem vptr n errno)

/-- All of one byte is written, with the `errno` of an error long past. -/
theorem os_writen_old_error :
    ∃ (writes : ℕ → WriteResult) (reads : ℕ → ReadResult) (mem : Mem) (vptr n errno : ℕ),
      ¬(OsWritenRight writes mem vptr n errno ∧ OsReadnRight reads mem vptr n errno) := by
  refine ⟨fun _ => .moved 1, fun _ => .moved [], fun _ => 0, 0, 1, eio, ?_⟩
  rintro ⟨⟨-, hright⟩, -⟩
  rcases hright 1 _ _ _ rfl with ⟨h, -⟩ | ⟨-, j, -, e, -, h⟩
  · exact absurd h (by decide)
  · cases h
