/-
# The end of a ring

What holds of a ring after any number of frames, also when the sequence numbers have come round:
the newest frame is in memory, the segment head points at it, and it links to the slot after it,
which is clear (`RingEnd`).

`Appended` is what an accepted call does, with the number that follows the writer's own.  The frames
that a call does not reach keep everything but the link of the newest one
(`Appended.bytes_outside`).
-/
import IpCamera.RingRead

/-- The newest frame of the ring and the slot after it. -/
structure RingEnd (N M : ℕ) (r : ShmRing) : Prop where
  writer : WriterInv N M r.writer
  magic : headMagic r.bytes = shmFrameMagicNum
  newestPos : headNewestFramePos r.bytes = (r.frames.head?.map FrameRecord.pos).getD 52
  newestSeq : headNewestFrameSeq r.bytes = r.writer.uiFrameSeq
  sequence : r.frames ≠ [] → 1 ≤ r.writer.uiFrameSeq
  cursor : r.writer.uiFramePos = (r.frames.head?.map FrameRecord.slot).getD 52
  placed : ∀ f ∈ r.frames.head?, f.WellPlaced N M
  held : ∀ f ∈ r.frames.head?, f.HeldIn r.bytes ∧ f.seq = r.writer.uiFrameSeq
  link : ∀ f ∈ r.frames.head?, frameNextPos r.bytes f.pos = f.slot
  cleared : ∀ i < 44, r.bytes (r.writer.uiFramePos + i) = 0

/-- An accepted call puts the record `g` on top of the history.  `m` is the memory after the link of
the newest frame has been patched (when the writer restarts) and before the frame is stored. -/
structure Appended (N M : ℕ) (r : ShmRing) (c : WriteCall) (g : FrameRecord) (m : Mem) : Prop where
  len_pos : 0 < g.len
  len_le : g.len ≤ M
  seq : g.seq = nextSequence r.writer.uiFrameSeq
  place : Placement N r.writer.uiFramePos g.len g.pos g.slot
  patched : m = r.bytes ∧ g.pos = r.writer.uiFramePos
    ∨ m = store32 r.bytes (headNewestFramePos r.bytes + 8) 52 ∧ g.pos = 52
      ∧ N ≤ r.writer.uiFramePos + 44 + alignedLen g.len
  stored : FrameStored m g.pos g.slot g.seq g.payload g.len g.extras (r.write c).bytes
  frames : (r.write c).frames = g :: r.frames
  cursor : (r.write c).writer.uiFramePos = g.slot
  sequence : (r.write c).writer.uiFrameSeq = g.seq
  size : (r.write c).writer.iShmSize = r.writer.iShmSize

variable {N M : ℕ} {r : ShmRing} {c : WriteCall} {f g : FrameRecord} {m : Mem}

theorem RingEnd.not_isFrame_cursor (inv : RingEnd N M r) : ¬ IsFrame r.bytes r.writer.uiFramePos :=
  not_isFrame_of_cleared inv.magic inv.cleared

theorem RingEnd.newestPos_bounds (inv : RingEnd N M r) :
    52 ≤ headNewestFramePos r.bytes ∧ headNewestFramePos r.bytes + 44 ≤ N := inv.writer.newestPos

/-- Only a writer with the newest frame right below its cursor goes back to the start. -/
theorem RingEnd.newest_below_cursor (inv : RingEnd N M r) (hN : M + 143 < N)
    (h : N ≤ r.writer.uiFramePos + 44 + alignedLen g.len) (hlen : g.len ≤ M) :
    headNewestFramePos r.bytes + 44 ≤ r.writer.uiFramePos := by
  have hle : alignedLen g.len < M + 4 :=
    (alignedLen_lt _).trans_le (Nat.add_le_add_right hlen 4)
  have hcur := inv.cursor
  have hplaced := inv.placed
  rw [inv.newestPos]
  cases hfr : r.frames with
  | nil =>
      rw [hfr] at hcur
      simp only [List.head?_nil, Option.map_none, Option.getD_none] at hcur
      omega
  | cons f h =>
      rw [hfr] at hcur hplaced
      have hw := hplaced f rfl
      have hfin : f.finish = f.pos + 44 + alignedLen f.len := rfl
      simp only [List.head?_cons, Option.map_some, Option.getD_some] at hcur ⊢
      rcases hw.slot with hs | hs <;> omega

namespace Appended

theorem wellPlaced (acc : Appended N M r c g m) (inv : RingEnd N M r) (hN : M + 143 < N) :
    g.WellPlaced N M :=
  wellPlaced_of_placement hN inv.writer.cursor acc.len_pos acc.len_le acc.place

/-- Bytes outside the frame, its cleared slot, the newest pair of the segment
head and the link of the newest frame keep their value. -/
theorem bytes_outside (acc : Appended N M r c g m) {x : ℕ} (h₁ : x < 4 ∨ 12 ≤ x)
    (h₂ : x < g.pos ∨ g.endPos ≤ x) (h₃ : x < g.slot ∨ g.slot + 44 ≤ x)
    (h₄ : m = r.bytes ∨ x < headNewestFramePos r.bytes + 8 ∨ headNewestFramePos r.bytes + 12 ≤ x) :
    (r.write c).bytes x = r.bytes x := by
  rw [acc.stored.unchanged x h₁ h₂ h₃]
  rcases h₄ with h₄ | h₄
  · rw [h₄]
  · rcases acc.patched with ⟨rfl, -⟩ | ⟨rfl, -⟩
    · rfl
    · exact store32_outside _ _ _ (by omega)

/-- The segment head keeps everything but the newest pair. -/
theorem bytes_head (acc : Appended N M r c g m) (inv : RingEnd N M r) (hN : M + 143 < N) {x : ℕ}
    (hx : x < 4 ∨ 12 ≤ x) (hx' : x < 52) : (r.write c).bytes x = r.bytes x := by
  have hg := acc.wellPlaced inv hN
  have h₁ := hg.start_le
  have h₂ := inv.newestPos_bounds
  have hfin : g.finish = g.pos + 44 + alignedLen g.len := rfl
  refine acc.bytes_outside hx (by omega) ?_ (by omega)
  rcases hg.slot with hs | hs <;> omega

theorem magic (acc : Appended N M r c g m) (inv : RingEnd N M r) (hN : M + 143 < N) :
    headMagic (r.write c).bytes = headMagic r.bytes :=
  load32_congr fun _ _ _ => acc.bytes_head inv hN (by omega) (by omega)

/-- The frame just written is in memory. -/
theorem heldIn (acc : Appended N M r c g m) (inv : RingEnd N M r) (hN : M + 143 < N)
    (hN' : N < 2147483648) : g.HeldIn (r.write c).bytes where
  magic := by
    have hm : headMagic m = headMagic r.bytes := by
      have := inv.newestPos_bounds
      rcases acc.patched with ⟨rfl, -⟩ | ⟨rfl, -⟩
      · rfl
      · exact load32_store32_outside _ _ _ (by omega)
    rw [IsFrame, acc.stored.magic, hm, acc.magic inv hN]
  seq := acc.stored.sequence
  size := by
    have := acc.len_le
    rw [frameSize, acc.stored.size, toInt32_natCast (by omega)]
  extras := acc.stored.extras
  payload := acc.stored.payload

/-- The end of the ring after the call. -/
theorem ringEnd (acc : Appended N M r c g m) (inv : RingEnd N M r) (hN : M + 143 < N)
    (hN' : N < 2147483648) : RingEnd N M (r.write c) := by
  have hg := acc.wellPlaced inv hN
  have hfin : g.finish = g.pos + 44 + alignedLen g.len := rfl
  have hbounds := WriterInv.nextSequence_bounds inv.writer.sequence
  have hhead : (r.write c).frames.head? = some g := by
    rw [acc.frames]
    rfl
  have honly : ∀ f ∈ (r.write c).frames.head?, f = g := by
    intro f hf
    rw [hhead] at hf
    exact (Option.some.inj hf).symm
  exact {
    writer := {
      cursor := by
        rw [acc.cursor]
        exact acc.place.cursor_room hN inv.writer.cursor acc.len_pos acc.len_le
      size := acc.size.trans inv.writer.size
      maxFrameSize := by
        rw [← inv.writer.maxFrameSize, headMaxFrameSize, headMaxFrameSize]
        congr 1
        exact load32_congr fun _ _ _ => acc.bytes_head inv hN (by omega) (by omega)
      sequence := by
        rw [acc.sequence, acc.seq]
        exact hbounds.2
      newestPos := by
        show 52 ≤ headNewestFramePos (r.write c).bytes ∧ headNewestFramePos (r.write c).bytes + 44 ≤ N
        have h₁ := hg.start_le
        have h₂ := hg.finish_lt
        rw [acc.stored.newestPos]
        omega }
    magic := (acc.magic inv hN).trans inv.magic
    newestPos := by rw [hhead, acc.stored.newestPos]; rfl
    newestSeq := by rw [acc.stored.newestSeq, acc.sequence]
    sequence := fun _ => by
      rw [acc.sequence, acc.seq]
      exact hbounds.1
    cursor := by rw [hhead, acc.cursor]; rfl
    placed := fun f hf => honly f hf ▸ hg
    held := fun f hf => by
      rw [honly f hf]
      exact ⟨acc.heldIn inv hN hN', acc.sequence.symm⟩
    link := fun f hf => by
      rw [honly f hf]
      exact acc.stored.nextPos
    cleared := by
      rw [acc.cursor]
      exact acc.stored.cleared }

end Appended

/-! ## The step and run lemmas -/

/-- A call is refused and changes nothing, or is accepted. -/
theorem RingEnd.write_cases (inv : RingEnd N M r) (hN : M + 143 < N) (hN' : N < 2147483648)
    (c : WriteCall) : r.write c = r ∨ ∃ g m, Appended N M r c g m := by
  have hmax : headMaxFrameSize r.writer.segment.bytes = M := inv.writer.maxFrameSize
  by_cases hc : c.iBufLen ≤ 0 ∨ (M : ℤ) < c.iBufLen
  · exact Or.inl (ShmRing.write_refused hmax hc)
  · right
    obtain ⟨seg, pos, next, hwrite, place, hseg, hgeo, hst⟩ :=
      inv.writer.writeFrame_stored hN hN' (show 0 < c.iBufLen by omega) (by omega) c.pcBuf
        c.pcExtras
    refine ⟨⟨pos, nextSequence r.writer.uiFrameSeq, c.iBufLen.toNat, c.pcBuf, c.pcExtras, next⟩,
      seg.bytes, {
      len_pos := by dsimp only; omega
      len_le := by dsimp only; omega
      seq := rfl
      place := place
      patched := ?_
      stored := ?_
      frames := ?_
      cursor := ?_
      sequence := ?_
      size := ?_ }⟩
    · rcases hseg with ⟨rfl, hp⟩ | ⟨rfl, hp, hr⟩
      · exact Or.inl ⟨rfl, hp⟩
      · exact Or.inr ⟨rfl, hp, hr⟩
    · simpa only [ShmRing.write, hwrite, ShmRing.bytes] using hst
    · simp only [ShmRing.write, hwrite, if_true, hst.newestPos, hst.newestSeq]
    · simp only [ShmRing.write, hwrite]
    · simp only [ShmRing.write, hwrite]
    · simp only [ShmRing.write, hwrite]

theorem RingEnd.write (inv : RingEnd N M r) (hN : M + 143 < N) (hN' : N < 2147483648)
    (c : WriteCall) : RingEnd N M (r.write c) := by
  rcases inv.write_cases hN hN' c with hsame | ⟨g, m, acc⟩
  · rw [hsame]
    exact inv
  · exact acc.ringEnd inv hN hN'

/-- The end of a ring whose sequence numbers have not come round. -/
theorem RingInv.ringEnd (inv : RingInv N M r) (hN : M + 143 < N)
    (hlen : r.frames.length < 4294967295) : RingEnd N M r := by
  have hhead : ∀ f ∈ r.frames.head?, f ∈ r.frames ∧ f.seq = r.frames.length := by
    intro f hf
    obtain ⟨older, hfr⟩ := List.head?_eq_some_iff.mp hf
    exact ⟨hfr ▸ List.mem_cons_self, inv.newest_seq hfr⟩
  exact {
    writer := inv.writerInv hN hlen
    magic := inv.magic
    newestPos := inv.newestPos
    newestSeq := inv.newestSeq.trans inv.sequence.symm
    sequence := fun hne => by
      rw [inv.sequence]
      exact List.length_pos_iff.mpr hne
    cursor := inv.layout.cursor_eq
    placed := fun f hf => inv.wellPlaced hN (hhead f hf).1
    held := fun f hf => by
      obtain ⟨hmem, hseq⟩ := hhead f hf
      exact ⟨inv.held f (inv.newest_intact hmem hseq), hseq.trans inv.sequence.symm⟩
    link := fun f hf => inv.lastLink f (hhead f hf).1 (hhead f hf).2
    cleared := inv.cleared }

/-- **Run.**  Any number of writes. -/
theorem ringEnd_run (old : Mem) (pcHeaderInfo : ℕ → UInt8) (hN : M + 143 < N)
    (hN' : N < 2147483648) (calls : List WriteCall) :
    RingEnd N M ((ShmRing.create old N M pcHeaderInfo).run calls) := by
  have hrun : ∀ r, RingEnd N M r → RingEnd N M (r.run calls) := by
    induction calls with
    | nil => exact fun _ h => h
    | cons c calls ih => exact fun r h => ih (r.write c) (h.write hN hN' c)
  have hlen : (ShmRing.create old N M pcHeaderInfo).frames.length < 4294967295 := Nat.zero_lt_succ _
  exact hrun _ ((ringInv_create old pcHeaderInfo hN hN').ringEnd hN hlen)

/-- As many frames as accepted calls. -/
theorem length_run_replicate (old : Mem) (pcHeaderInfo : ℕ → UInt8) (hN : M + 143 < N)
    (hN' : N < 2147483648) (h₀ : 0 < c.iBufLen) (h₁ : c.iBufLen ≤ M) (n : ℕ) :
    ((ShmRing.create old N M pcHeaderInfo).run (List.replicate n c)).frames.length = n := by
  induction n with
  | zero => rfl
  | succ n ih =>
    have inv := ringEnd_run old pcHeaderInfo hN hN' (List.replicate n c)
    rw [List.replicate_succ', ShmRing.run, List.foldl_append]
    exact (ShmRing.length_write inv.writer.maxFrameSize h₀ h₁).trans (congrArg (· + 1) ih)

/-- Below the sequence bound the number that follows is the number of frames. -/
theorem Accepted.appended (acc : Accepted N M r c g m) (inv : RingInv N M r)
    (hseq : r.frames.length + 1 < 4294967295) : Appended N M r c g m where
  len_pos := acc.len_pos
  len_le := acc.len_le
  seq := by
    rw [acc.seq, inv.sequence]
    exact (WriterInv.nextSequence_of_lt hseq).symm
  place := acc.place
  patched := acc.patched
  stored := acc.stored
  frames := acc.frames
  cursor := acc.cursor
  sequence := acc.sequence
  size := acc.size
