/-
# Where the magic stands

The reader takes a position for a frame as soon as the word there is the magic.
This module shows that, when no payload and no extra data imitates it
(`WriteCall.NoMagic`), every aligned position with the magic is the head of an
intact frame (`MagicInv`).  In particular a head that passes the check never
fronts a payload the writer has partly overwritten.
-/
import IpCamera.RingRead

/-! ## Data that cannot read as the magic -/

/-- No aligned word of the data starts with the low byte of the magic. -/
structure WriteCall.NoMagic (c : WriteCall) : Prop where
  payload : ∀ i : ℕ, 4 ∣ i → (i : ℤ) < c.iBufLen → c.pcBuf i ≠ 0x7C
  extras : ∀ i < shmSizeOfFrameExtras, 4 ∣ i → c.pcExtras i ≠ 0x7C

theorem load32_ne_magic {m : Mem} {a : ℕ} (h : m a ≠ 0x7C) : load32 m a ≠ shmFrameMagicNum := by
  intro he
  have hmod : (m a).toNat = 0x7C := by
    rw [← load32_mod, he]
    decide
  exact h (UInt8.toNat_inj.mp hmod)

/-- Every aligned word of the segment that is the magic heads an intact frame. -/
def MagicInv (N : ℕ) (r : ShmRing) : Prop :=
  ∀ q, 4 ∣ q → 52 ≤ q → q + 4 ≤ N → IsFrame r.bytes q → ∃ f ∈ r.intact, f.pos = q

variable {N M : ℕ} {r : ShmRing}

/-! ## One call -/

/-- A frame survives a call as soon as its first byte does: it lies below the
cursor or a head above it, so the call cannot reach into its payload. -/
theorem Layout.not_overwrites_of_outside {h : List FrameRecord} {cursor : ℕ} {f g : FrameRecord}
    (hN : M + 143 < N) (l : Layout N M h cursor) (hf : f ∈ intactFrames h)
    (hg : g.WellPlaced N M) (place : Placement N cursor g.len g.pos g.slot)
    (h₁ : f.pos < g.pos ∨ g.endPos ≤ f.pos) (h₂ : f.pos < g.slot ∨ g.slot + 44 ≤ f.pos) :
    ¬ g.Overwrites f := by
  have hfr := l.frontier hN hf
  have hfw := l.wellPlaced hN (intactFrames_subset h hf)
  have hfe := f.endPos_le
  have hge := g.finish_le
  have hgl := g.endPos_le
  have hgf : g.finish = g.pos + 44 + alignedLen g.len := rfl
  have hff : f.finish = f.pos + 44 + alignedLen f.len := rfl
  have hfa := hfw.aligned
  have hf₁ := hfw.start_le
  have hf₂ := hfw.finish_lt
  have hgd := FrameRecord.dvd_finish hg.aligned
  have hge₁ : f.pos < g.pos ∨ g.finish ≤ f.pos := by omega
  have hno : (f.endPos ≤ g.pos ∨ g.endPos ≤ f.pos) ∧ (f.endPos ≤ g.slot ∨ g.slot + 44 ≤ f.pos) := by
    generalize g.slot = s, g.pos = p at *
    cases place <;> omega
  rintro (⟨ho₁, ho₂⟩ | ⟨ho₁, ho₂⟩)
  · omega
  · rw [shmSizeOfFrameHead_eq] at ho₂
    omega

namespace Accepted

variable {c : WriteCall} {g : FrameRecord} {m : Mem}

/-- The aligned words of the frame just written, but for its first, are not the magic. -/
theorem not_magic_inside (acc : Accepted N M r c g m) (inv : RingInv N M r) (hN : M + 143 < N)
    (hN' : N ≤ shmFrameMagicNum) (hlen : r.frames.length < 2 ^ 30) (hc : c.NoMagic) {q : ℕ}
    (hq : 4 ∣ q) (h₁ : g.pos < q) (h₂ : q < g.endPos) :
    load32 (r.write c).bytes q ≠ shmFrameMagicNum := by
  have hgw := acc.wellPlaced inv hN
  have hga := hgw.aligned
  have hend : g.endPos = g.pos + 44 + g.len := rfl
  have hlen' := acc.len
  rw [shmFrameMagicNum_eq] at hN'
  rcases show q = g.pos + 4 ∨ q = g.pos + 8 ∨ q = g.pos + 12 ∨ q = g.pos + 16
      ∨ g.pos + 20 ≤ q ∧ q < g.pos + 44 ∨ g.pos + 44 ≤ q by omega with
    rfl | rfl | rfl | rfl | hx | hp
  · -- the link back is a position
    have hprev : framePrevPos (r.write c).bytes g.pos = headNewestFramePos r.bytes := by
      rw [acc.stored.prevPos]
      rcases acc.patched with ⟨rfl, -⟩ | ⟨rfl, -⟩
      · rfl
      · have := inv.newestPos_bounds hN
        exact load32_store32_outside _ _ _ (by omega)
    have hb := inv.newestPos_bounds hN
    rw [framePrevPos] at hprev
    rw [hprev, shmFrameMagicNum_eq]
    omega
  · have hnext : load32 (r.write c).bytes (g.pos + 8) = g.slot := acc.stored.nextPos
    have hfin := hgw.finish_lt
    rw [hnext, shmFrameMagicNum_eq]
    rcases hgw.slot with hs | hs <;> omega
  · have hseq : load32 (r.write c).bytes (g.pos + 12) = g.seq := acc.stored.sequence
    rw [hseq, acc.seq, shmFrameMagicNum_eq]
    omega
  · have := acc.len_le
    rw [acc.stored.size, shmFrameMagicNum_eq]
    omega
  · apply load32_ne_magic
    have hb := acc.stored.extras (q - (g.pos + 20)) (by omega)
    rw [frameExtras, show g.pos + 20 + (q - (g.pos + 20)) = q by omega, acc.extras] at hb
    rw [hb]
    exact hc.extras (q - (g.pos + 20)) (by rw [shmSizeOfFrameExtras_eq]; omega) (by omega)
  · apply load32_ne_magic
    have hb := acc.stored.payload (q - (g.pos + 44)) (by omega)
    rw [framePayload, shmSizeOfFrameHead_eq, show g.pos + 44 + (q - (g.pos + 44)) = q by omega,
      acc.payload] at hb
    rw [hb]
    exact hc.payload (q - (g.pos + 44)) (by omega) (by omega)

/-- Nor is any word of the cleared slot. -/
theorem not_magic_slot (acc : Accepted N M r c g m) {q : ℕ} (h₁ : g.slot ≤ q)
    (h₂ : q + 4 ≤ g.slot + 44) : load32 (r.write c).bytes q ≠ shmFrameMagicNum := by
  have hz : load32 (r.write c).bytes q = 0 := load32_eq_zero fun x hx₁ hx₂ => by
    have := acc.stored.cleared (x - g.slot) (by omega)
    rwa [show g.slot + (x - g.slot) = x by omega] at this
  rw [hz]
  decide

/-- A word outside the frame and the slot is unchanged, or is the patched link. -/
theorem word_outside (acc : Accepted N M r c g m) {q : ℕ} (h₀ : 12 ≤ q)
    (h₁ : q + 4 ≤ g.pos ∨ g.endPos ≤ q) (h₂ : q + 4 ≤ g.slot ∨ g.slot + 44 ≤ q)
    (h₃ : q + 4 ≤ headNewestFramePos r.bytes + 8 ∨ q = headNewestFramePos r.bytes + 8
      ∨ headNewestFramePos r.bytes + 12 ≤ q) :
    load32 (r.write c).bytes q = load32 r.bytes q ∨ load32 (r.write c).bytes q = 52 := by
  have hm : load32 (r.write c).bytes q = load32 m q := load32_congr fun x hx₁ hx₂ =>
    acc.stored.unchanged x (by omega)
      (by simp only [FrameRecord.endPos, shmSizeOfFrameHead_eq] at h₁; omega) (by omega)
  rcases acc.patched with ⟨hp, -⟩ | ⟨hp, -⟩
  · rw [hm, hp]
    exact .inl rfl
  · rcases h₃ with h₃ | rfl | h₃
    · rw [hm, hp, load32_store32_outside _ _ _ (by omega)]
      exact .inl rfl
    · rw [hm, hp, load32_store32 _ _ (by norm_num)]
      exact .inr rfl
    · rw [hm, hp, load32_store32_outside _ _ _ (by omega)]
      exact .inl rfl

end Accepted

/-! ## The step and run lemmas -/

theorem MagicInv.write_accepted {c : WriteCall} {g : FrameRecord} {m : Mem} (mag : MagicInv N r)
    (inv : RingInv N M r) (hN : M + 143 < N) (hN' : N ≤ shmFrameMagicNum)
    (hlen : r.frames.length < 2 ^ 30) (hc : c.NoMagic) (acc : Accepted N M r c g m) :
    MagicInv N (r.write c) := by
  intro q hq h₁ h₂ hframe
  have hgw := acc.wellPlaced inv hN
  have hga := hgw.aligned
  have hgl := g.pos_lt_endPos
  have hgd := FrameRecord.dvd_finish hga
  have hslot : 4 ∣ g.slot := by
    rcases hgw.slot with hs | hs
    · rw [hs.1]
      exact hgd
    · rw [hs.1]
      decide
  have hword : load32 (r.write c).bytes q = shmFrameMagicNum := by
    have hm : headMagic (r.write c).bytes = shmFrameMagicNum :=
      (acc.magic inv hN).trans inv.magic
    exact hframe.trans hm
  have hmem : ∀ f, f = g ∨ f ∈ r.intact ∧ ¬ g.Overwrites f → f ∈ (r.write c).intact := by
    intro f hf
    rw [ShmRing.intact, acc.frames]
    exact mem_intactFrames_cons.mpr hf
  by_cases hin : g.pos ≤ q ∧ q < g.endPos
  · rcases eq_or_lt_of_le hin.1 with hp | hp
    · exact ⟨g, hmem g (.inl rfl), hp⟩
    · exact absurd hword (acc.not_magic_inside inv hN hN' hlen hc hq hp hin.2)
  by_cases hsl : g.slot ≤ q ∧ q < g.slot + 44
  · exact absurd hword (acc.not_magic_slot hsl.1 (by omega))
  have hnp : 4 ∣ headNewestFramePos r.bytes := by
    rw [inv.newestPos]
    cases hfr : r.frames with
    | nil => simp
    | cons f h =>
        simpa using (inv.wellPlaced hN (hfr ▸ List.mem_cons_self : f ∈ r.frames)).aligned
  rcases acc.word_outside (q := q) (by omega) (by omega) (by omega) (by omega) with hsame | hlink
  · -- the word was there before, so it heads a frame the call does not reach
    obtain ⟨f, hf, rfl⟩ := mag q hq h₁ h₂ (by
      rw [IsFrame, frameMagic, inv.magic, ← hsame, hword])
    exact ⟨f, hmem f (.inr ⟨hf, inv.layout.not_overwrites_of_outside hN hf hgw acc.place (by omega)
      (by omega)⟩), rfl⟩
  · rw [hword] at hlink
    exact absurd hlink (by decide)

theorem magicInv_create (old : Mem) (info : ℕ → UInt8) (hN : M + 143 < N)
    (hN' : N < 2147483648) : MagicInv N (ShmRing.create old N M info) := by
  intro q _ h₁ h₂ hframe
  have hz : load32 (ShmRing.create old N M info).bytes q = 0 := load32_eq_zero fun x hx₁ hx₂ => by
    simp (disch := omega) only [ShmRing.bytes, ShmRing.create, ShmWrite.create,
      ShmSegment.copy, ShmSegment.clear, ShmSegment.put, shmSizeOfUserDefinedInfo_eq,
      memcpy_outside, store32_outside, memset_inside]
  rw [IsFrame, frameMagic, hz, (ringInv_create old info hN hN').magic] at hframe
  exact absurd hframe (by decide)

/-- **Step.**  A call with harmless data keeps the magic at the heads. -/
theorem MagicInv.write (mag : MagicInv N r) (inv : RingInv N M r) (hN : M + 143 < N)
    (hN' : N ≤ shmFrameMagicNum) {c : WriteCall} (hc : c.NoMagic)
    (hlen : (r.write c).frames.length < 2 ^ 30) : MagicInv N (r.write c) := by
  have hN'' : N < 2147483648 := by
    rw [shmFrameMagicNum_eq] at hN'
    omega
  rcases inv.write_cases hN hN'' c (hlen.trans (by norm_num)) with hsame | ⟨g, m, acc⟩
  · rw [hsame]
    exact mag
  · have hle := (r.length_write_le c).1
    exact mag.write_accepted inv hN hN' (hle.trans_lt hlen) hc acc

/-- **Run.**  So does a run of fewer than `2 ^ 30` frames. -/
theorem magicInv_run (old : Mem) (info : ℕ → UInt8) (hN : M + 143 < N)
    (hN' : N ≤ shmFrameMagicNum) {calls : List WriteCall} (hcalls : ∀ c ∈ calls, c.NoMagic)
    (hlen : ((ShmRing.create old N M info).run calls).frames.length < 2 ^ 30) :
    MagicInv N ((ShmRing.create old N M info).run calls) := by
  have hN'' : N < 2147483648 := by
    rw [shmFrameMagicNum_eq] at hN'
    omega
  have hrun : ∀ r, RingInv N M r → MagicInv N r → (r.run calls).frames.length < 2 ^ 30 →
      MagicInv N (r.run calls) := by
    clear hlen
    induction calls with
    | nil => exact fun _ _ mag _ => mag
    | cons c calls ih =>
        intro r inv mag hlen
        have hlen₁ := ((r.write c).length_run_le calls).1.trans_lt hlen
        exact ih (fun c hc => hcalls c (List.mem_cons_of_mem _ hc)) (r.write c)
          (inv.write hN hN'' c (hlen₁.trans (by norm_num)))
          (mag.write inv hN hN' (hcalls c List.mem_cons_self) hlen₁) hlen
  exact hrun _ (ringInv_create old info hN hN'') (magicInv_create old info hN hN'') hlen
