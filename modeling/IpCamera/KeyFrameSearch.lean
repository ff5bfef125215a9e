/-
# The key-frame search

`SHM_BackNFrameNolock` with the key flag, moving backwards, is a search along the
previous-frame links (`LinkSearch`); `shmBackNFrameNolock_eq` says so for every
memory whose newest frame is a frame.  This holds in every reachable ring, after
any number of writes (`StreamInv`), also when the sequence has come round.

`keySearch_returns` then says exactly when the search and the calls that use it
return: unless the links run into a loop without key frames.
-/
import IpCamera.ReaderId
import IpCamera.LinkSearch

/-! ## Rings after any number of writes -/

/-- What holds of a ring without a bound on the number of frames. -/
structure StreamInv (N M : ℕ) (pcHeaderInfo : ℕ → UInt8) (r : ShmRing) : Prop where
  writer : WriterInv N M r.writer
  header : ∀ i < shmSizeOfUserDefinedInfo, headUserDefinedInfo r.bytes i = pcHeaderInfo i
  /-- The newest position holds a frame unless the ring is empty. -/
  newest : IsFrame r.bytes (headNewestFramePos r.bytes) ↔ ShmRead.isEmpty r.bytes = false

variable {N M : ℕ} {pcHeaderInfo : ℕ → UInt8} {r : ShmRing} {m : Mem} {info : ShmInfo}

theorem streamInv_create (old : Mem) (pcHeaderInfo : ℕ → UInt8) (hN : M + 143 < N)
    (hN' : N < 2147483648) : StreamInv N M pcHeaderInfo (ShmRing.create old N M pcHeaderInfo) := by
  have inv := ringInv_create old pcHeaderInfo hN hN'
  have hpos : headNewestFramePos (ShmRing.create old N M pcHeaderInfo).bytes = 52 := inv.newestPos
  have hlen : (ShmRing.create old N M pcHeaderInfo).frames.length = 0 := rfl
  refine ⟨inv.writerInv hN (by omega), fun i hi => userDefinedInfo_create old pcHeaderInfo hi, ?_⟩
  rw [hpos]
  refine ⟨fun h => absurd h inv.not_isFrame_cursor, fun h => ?_⟩
  rw [ShmRead.isEmpty, inv.newestSeq, hlen] at h
  exact absurd h (by decide)

theorem StreamInv.write (inv : StreamInv N M pcHeaderInfo r) (hN : M + 143 < N)
    (hN' : N < 2147483648) (c : WriteCall) : StreamInv N M pcHeaderInfo (r.write c) := by
  have hmax : headMaxFrameSize r.writer.segment.bytes = M := inv.writer.maxFrameSize
  by_cases hc : c.iBufLen ≤ 0 ∨ (M : ℤ) < c.iBufLen
  · rw [ShmRing.write_refused hmax hc]
    exact inv
  · obtain ⟨seg, pos, next, hwrite, place, hseg, hgeo, hst⟩ :=
      inv.writer.writeFrame_stored hN hN' (show 0 < c.iBufLen by omega) (by omega) c.pcBuf
        c.pcExtras
    obtain ⟨hg₁, hg₂, hg₃, hg₄, hg₅⟩ := hgeo
    have hseq := WriterInv.nextSequence_bounds inv.writer.sequence
    have hnp := inv.writer.newestPos
    have hbytes : (r.write c).bytes
        = (seg.storeFrame pos next (nextSequence r.writer.uiFrameSeq) c.pcBuf c.iBufLen.toNat
          c.pcExtras).bytes := by
      simp only [ShmRing.bytes, ShmRing.write, hwrite]
    -- the segment head keeps everything but the newest pair
    have hhead : ∀ x, x < 4 ∨ 12 ≤ x → x < 52 → (r.write c).bytes x = r.bytes x := by
      intro x hx hx'
      rw [hbytes, hst.unchanged x hx (by omega) (by omega)]
      rcases hseg with ⟨rfl, -⟩ | ⟨rfl, -⟩
      · rfl
      · exact store32_outside _ _ _ (by omega)
    have hmagic : headMagic (r.write c).bytes = headMagic seg.bytes := by
      rw [hbytes]
      exact load32_congr fun x _ _ => hst.unchanged x (by omega) (by omega) (by omega)
    have hframe : IsFrame (r.write c).bytes (headNewestFramePos (r.write c).bytes) := by
      rw [IsFrame, hmagic, hbytes, hst.newestPos]
      exact hst.magic
    refine ⟨?_, fun i hi => ?_, ?_⟩
    · have hcur : (r.write c).writer.uiFramePos = next
          ∧ (r.write c).writer.uiFrameSeq = nextSequence r.writer.uiFrameSeq
          ∧ (r.write c).writer.iShmSize = r.writer.iShmSize := by
        simp only [ShmRing.write, hwrite, and_self]
      refine ⟨?_, hcur.2.2.trans inv.writer.size, ?_, hcur.2.1 ▸ hseq.2, ?_⟩
      · rw [hcur.1]
        exact place.cursor_room hN inv.writer.cursor (by omega) (by omega)
      · rw [← hmax]
        show toInt32 (load32 (r.write c).bytes 12) = toInt32 (load32 r.bytes 12)
        congr 1
        exact load32_congr fun x _ _ => hhead x (by omega) (by omega)
      · show 52 ≤ headNewestFramePos (r.write c).bytes ∧ headNewestFramePos (r.write c).bytes + 44 ≤ N
        rw [hbytes, hst.newestPos]
        omega
    · rw [shmSizeOfUserDefinedInfo_eq] at hi
      rw [← inv.header i hi]
      exact hhead (20 + i) (by omega) (by omega)
    · refine ⟨fun _ => ?_, fun _ => hframe⟩
      rw [ShmRead.isEmpty, hbytes, hst.newestSeq, decide_eq_false_iff_not]
      simp only [shmFrameInitialSequence_eq]
      omega

/-- **Run.**  Any number of writes. -/
theorem streamInv_run (old : Mem) (pcHeaderInfo : ℕ → UInt8) (hN : M + 143 < N)
    (hN' : N < 2147483648) (calls : List WriteCall) :
    StreamInv N M pcHeaderInfo ((ShmRing.create old N M pcHeaderInfo).run calls) := by
  have hrun : ∀ r, StreamInv N M pcHeaderInfo r → StreamInv N M pcHeaderInfo (r.run calls) := by
    induction calls with
    | nil => exact fun _ h => h
    | cons c calls ih => exact fun r h => ih (r.write c) (h.write hN hN' c)
  exact hrun _ (streamInv_create old pcHeaderInfo hN hN')

/-! ## The search follows the previous links -/

/-- `MoveBack` as a step along the links. -/
def moveBackLink (m : Mem) (info : ShmInfo) : Option ShmInfo :=
  if (ShmRead.moveBack m info).1 < 0 then none else some (ShmRead.moveBack m info).2

theorem moveBack_of_link_none (hlink : moveBackLink m info = none) :
    (ShmRead.moveBack m info).1 < 0 := by
  by_contra hno
  simp [moveBackLink, hno] at hlink

theorem moveBack_of_link_some {info' : ShmInfo} (hlink : moveBackLink m info = some info') :
    ¬ (ShmRead.moveBack m info).1 < 0 ∧ (ShmRead.moveBack m info).2 = info' := by
  by_cases hfail : (ShmRead.moveBack m info).1 < 0
  · simp [moveBackLink, hfail] at hlink
  · simpa [moveBackLink, hfail] using hlink

/-- The frame head at the position has the key flag. -/
def KeyAt (m : Mem) (info : ShmInfo) : Prop :=
  extrasKeyFrameFlag (frameExtras m info.uiPos) = shmVideoFrameTypeKey

instance (m : Mem) : DecidablePred (KeyAt m) := fun _ => inferInstanceAs (Decidable (_ = _))

/-- A link leads to the newest frame, or from a frame to the one it names. -/
theorem moveBackLink_cases {info' : ShmInfo} (h : moveBackLink m info = some info') :
    ShmRead.isEmpty m = false ∧
    ((info.uiPos = 0 ∧ info' = ⟨headNewestFramePos m, frameSequence m (headNewestFramePos m)⟩)
      ∨ (info.uiSeq = (headNewestFrameSeq m + 1) % 4294967296
        ∧ info' = ⟨headNewestFramePos m, headNewestFrameSeq m⟩)
      ∨ ∃ pos, pos = ShmRead.checkOverflowed m info ∧ IsFrame m pos ∧ IsFrame m (framePrevPos m pos)
        ∧ info' = ⟨framePrevPos m pos, frameSequence m (framePrevPos m pos)⟩) := by
  unfold moveBackLink at h
  split_ifs at h with hfail
  obtain rfl : (ShmRead.moveBack m info).2 = info' := by simpa using h
  unfold ShmRead.moveBack at hfail ⊢
  dsimp only at hfail ⊢
  by_cases h₁ : ShmRead.isEmpty m = true
  · rw [if_pos h₁] at hfail
    exact absurd (show shmEnumEmptySpace < 0 by decide) hfail
  rw [if_neg h₁] at hfail ⊢
  refine ⟨by simpa using h₁, ?_⟩
  by_cases h₂ : info.uiPos = shmFrameInitialPosition
  · rw [if_pos h₂]
    exact .inl ⟨h₂, rfl⟩
  rw [if_neg h₂] at hfail ⊢
  by_cases h₃ : info.uiSeq = (headNewestFrameSeq m + 1) % 4294967296
  · rw [if_pos h₃]
    exact .inr (.inl ⟨h₃, rfl⟩)
  rw [if_neg h₃] at hfail ⊢
  -- the remaining branches but one fail
  have herr : shmEnumError < 0 := by decide
  split_ifs at hfail ⊢ with h₄ h₅ h₆
  · exact absurd herr hfail
  · exact .inr (.inr ⟨_, rfl, h₄, h₆, rfl⟩)
  · exact absurd herr hfail
  · exact absurd herr hfail

/-- Where a link leads is a frame, if the newest position is one. -/
theorem isFrame_of_moveBackLink (hnew : ShmRead.isEmpty m = false →
    IsFrame m (headNewestFramePos m)) {info' : ShmInfo} (h : moveBackLink m info = some info') :
    IsFrame m info'.uiPos := by
  obtain ⟨hne, ⟨-, rfl⟩ | ⟨-, rfl⟩ | ⟨pos, -, -, hprev, rfl⟩⟩ := moveBackLink_cases h
  · exact hnew hne
  · exact hnew hne
  · exact hprev

theorem getExtras_of_isFrame (h : IsFrame m info.uiPos) (junk : ℕ → UInt8) :
    ShmRead.getExtras m junk info = (shmEnumOk, frameExtras m info.uiPos) := by
  rw [ShmRead.getExtras, checkOverflowed_of_isFrame h, if_pos h]

/-- The end of `SHM_BackNFrameNolock`: a search that failed restores the position. -/
def backNResult (info : ShmInfo) : ℕ × ShmInfo → ℤ × ShmInfo
  | (left, info') => if left = 0 then (shmEnumOk, info') else (shmEnumError, info)

/-- From a frame on, the loop is the search: its extra data is always that of the
position it stands at. -/
theorem backNKeyLoop_eq_search (hnew : ShmRead.isEmpty m = false →
      IsFrame m (headNewestFramePos m)) (bak : ShmInfo) (fuel : ℕ) :
    ∀ {n back_cnt : ℕ} (extra : ℕ → UInt8) {info : ShmInfo}, 0 < n → 0 < back_cnt →
      IsFrame m info.uiPos →
      (backNKeyLoop m true fuel n back_cnt extra info).map (backNResult bak)
        = (LinkSearch.search (moveBackLink m) (KeyAt m) fuel n info).map (backNResult bak) := by
  induction fuel with
  | zero => intros; rfl
  | succ fuel ih =>
      intro n back_cnt extra info hn hback hframe
      rw [backNKeyLoop, if_neg hn.ne', getExtras_of_isFrame hframe, LinkSearch.search]
      simp only [hback, and_true, ↓reduceIte]
      have hkey : (extrasKeyFrameFlag (frameExtras m info.uiPos) = shmVideoFrameTypeKey)
          = KeyAt m info := rfl
      simp only [hkey]
      by_cases hstop : KeyAt m info ∧ (if KeyAt m info then n - 1 else n) = 0
      · rw [if_pos hstop, if_pos hstop, hstop.2]
      · have hleft : (if KeyAt m info then n - 1 else n) ≠ 0 := by
          intro h0
          split_ifs at h0 with hk
          · exact hstop ⟨hk, by rw [if_pos hk]; exact h0⟩
          · omega
        rw [if_neg hstop, if_neg hstop]
        cases hlink : moveBackLink m info with
        | none =>
            rw [if_pos (moveBack_of_link_none hlink)]
            simp [backNResult, hleft]
        | some info' =>
            obtain ⟨hok, rfl⟩ := moveBack_of_link_some hlink
            rw [if_neg hok]
            exact ih _ (Nat.pos_of_ne_zero hleft) (Nat.succ_pos _)
              (isFrame_of_moveBackLink hnew hlink)

/-- **The key-frame search.**  One link back, whatever stands at the start, and then
a search along the links. -/
theorem shmBackNFrameNolock_eq (hnew : ShmRead.isEmpty m = false →
      IsFrame m (headNewestFramePos m)) (fuel : ℕ) (junk : ℕ → UInt8) {iSteps : ℤ}
    (hn : 0 < iSteps) : shmBackNFrameNolock m (fuel + 1) junk iSteps true true info
      = match moveBackLink m info with
        | none => some (shmEnumError, info)
        | some info' =>
            (LinkSearch.search (moveBackLink m) (KeyAt m) fuel iSteps.toNat info').map
              (backNResult info) := by
  have hn' : iSteps.toNat ≠ 0 := by omega
  rw [shmBackNFrameNolock, if_pos hn, if_pos rfl, backNKeyLoop, if_neg hn']
  simp only [gt_iff_lt, lt_self_iff_false, and_false, ↓reduceIte, hn']
  cases hlink : moveBackLink m info with
  | none =>
      rw [if_pos (moveBack_of_link_none hlink)]
      simp [hn']
  | some info' =>
      obtain ⟨hok, rfl⟩ := moveBack_of_link_some hlink
      rw [if_neg hok]
      exact backNKeyLoop_eq_search hnew info fuel _ (Nat.pos_of_ne_zero hn') Nat.one_pos
        (isFrame_of_moveBackLink hnew hlink)

/-! ## Termination -/

/-- Frames without a key: a large one at the start, one after it, and a small one
put over the first.  The second frame's link now leads to the third, and the
third's to the second. -/
def loopCalls : List WriteCall :=
  [⟨fun _ => 0, 200, fun _ => 0⟩, ⟨fun _ => 0, 100, fun _ => 0⟩, ⟨fun _ => 0, 100, fun _ => 0⟩]
