/-
# The representation of the ring

What a freshly constructed writer leaves in the segment after any sequence of
`WriteFrame` calls, in the words of the structures of `shm_base_class.h`
(`RingRepresentation`), and the proof that every run keeps it
(`ringRepresentation_run`).
-/
import IpCamera.ShmInvariant
import IpCamera.ShmRead

/-! ## Following the links -/

/-- The positions met by following `uiNextFramePos` from `pos` while there is a
frame, for at most `fuel` steps. -/
def followNext (m : Mem) : (fuel : ℕ) → (pos : ℕ) → List ℕ
  | 0, _ => []
  | fuel + 1, pos =>
      if IsFrame m pos then pos :: followNext m fuel (frameNextPos m pos) else []

/-- The `n` positions met by following `uiPrevFramePos` from `pos`. -/
def followPrev (m : Mem) (n pos : ℕ) : List ℕ := List.iterate (framePrevPos m) pos n

/-- The representation invariant of a segment of `iShmSize` bytes. -/
structure RingRepresentation (iShmSize : ℕ) (r : ShmRing) : Prop where
  /-- Every byte the writer has touched lies inside the segment. -/
  touched : ∀ t ∈ r.writer.segment.touched, t.1 + t.2 ≤ iShmSize
  /-- The next frame goes to an aligned position. -/
  aligned : 4 ∣ r.writer.uiFramePos
  /-- The next frame's head fits before the end of the segment. -/
  room : r.writer.uiFramePos + shmSizeOfFrameHead ≤ iShmSize
  magic : headMagic r.bytes = shmFrameMagicNum
  /-- The accepted frames are numbered `1, 2, …`, here newest first. -/
  numbered : r.frames.map FrameRecord.seq = (List.range' 1 r.frames.length).reverse
  /-- The newest pair of the segment head points at the newest frame, whole. -/
  newest : ∀ f ∈ r.frames.head?, headNewestFramePos r.bytes = f.pos
    ∧ headNewestFrameSeq r.bytes = f.seq ∧ f.HeldIn r.bytes
    ∧ ShmRead.refresh r.bytes = (shmEnumOk, ⟨f.pos, f.seq⟩)
  /-- The newest frame's link leads to a cleared head, which is not a frame. -/
  nextSlot : ∀ f ∈ r.frames.head?,
    (∀ i < shmSizeOfFrameHead, r.bytes (frameNextPos r.bytes f.pos + i) = 0)
      ∧ ¬ IsFrame r.bytes (frameNextPos r.bytes f.pos)
  /-- Intact frames are in memory as they were written. -/
  held : ∀ f ∈ r.intact, f.HeldIn r.bytes
  /-- From a frame that is intact together with all later ones, the next links
  visit exactly it and the later ones, and then stop. -/
  forward : ∀ newer f older, r.frames = newer ++ f :: older →
    (∀ g ∈ newer ++ [f], g ∈ r.intact) → ∀ fuel, newer.length + 1 < fuel →
      followNext r.bytes fuel f.pos = (f :: newer.reverse).map FrameRecord.pos
  /-- And the previous links from the newest frame visit them backwards. -/
  backward : ∀ newer f older, r.frames = newer ++ f :: older →
    (∀ g ∈ newer ++ [f], g ∈ r.intact) →
      followPrev r.bytes (newer.length + 1) (headNewestFramePos r.bytes)
        = (newer ++ [f]).map FrameRecord.pos

variable {N M : ℕ} {r : ShmRing}

/-! ## The links of intact frames -/

/-- A cleared head is not a frame. -/
theorem not_isFrame_of_cleared {m : Mem} {p : ℕ} (hmagic : headMagic m = shmFrameMagicNum)
    (hcleared : ∀ i < 44, m (p + i) = 0) : ¬ IsFrame m p := by
  have hz : frameMagic m p = 0 :=
    load32_eq_zero fun x h₁ h₂ => by
      have := hcleared (x - p) (by omega)
      rwa [show p + (x - p) = x by omega] at this
  rw [IsFrame, hz, hmagic]
  decide

/-- The cleared slot of the cursor is not a frame. -/
theorem RingInv.not_isFrame_cursor (inv : RingInv N M r) :
    ¬ IsFrame r.bytes r.writer.uiFramePos :=
  not_isFrame_of_cleared inv.magic inv.cleared

/-- The older part of a history is a history. -/
theorem Layout.older {cursor : ℕ} {newer older : List FrameRecord}
    (l : Layout N M (newer ++ older) cursor) : ∃ c, Layout N M older c := by
  induction newer generalizing cursor with
  | nil => exact ⟨cursor, l⟩
  | cons g newer ih =>
      cases l with
      | write hist _ _ _ _ => exact ih hist

/-- In a history the frame before `f` in the list is the one numbered after it. -/
theorem RingInv.seq_succ (inv : RingInv N M r) {newer older : List FrameRecord}
    {g f : FrameRecord} (hfr : r.frames = newer ++ g :: f :: older) : g.seq = f.seq + 1 := by
  have hl := inv.layout
  rw [hfr] at hl
  obtain ⟨c, hg⟩ := hl.older
  have hgs := hg.head_seq
  cases hg with
  | write hf _ _ _ _ =>
      have hfs := hf.head_seq
      rw [List.length_cons] at hgs
      omega

theorem RingInv.forward (inv : RingInv N M r) (newer : List FrameRecord) :
    ∀ f older, r.frames = newer ++ f :: older → (∀ g ∈ newer ++ [f], g ∈ r.intact) →
      ∀ fuel, newer.length + 1 < fuel →
        followNext r.bytes fuel f.pos = (f :: newer.reverse).map FrameRecord.pos := by
  induction newer using List.reverseRecOn with
  | nil =>
      intro f older hfr hint fuel hfuel
      obtain ⟨fuel, rfl⟩ : ∃ k, fuel = k + 2 := ⟨fuel - 2, by simp at hfuel; omega⟩
      have hf : f ∈ r.intact := hint f (by simp)
      have hs : f.seq = r.frames.length := by
        have l := inv.layout
        rw [hfr] at l ⊢
        exact l.head_seq
      have hstop : ¬ IsFrame r.bytes (frameNextPos r.bytes f.pos) := by
        rw [inv.lastLink f (inv.mem_frames hf) hs, ← inv.cursor_of_seq (inv.mem_frames hf) hs]
        exact inv.not_isFrame_cursor
      rw [followNext, if_pos (inv.held f hf).magic, followNext, if_neg hstop]
      rfl
  | append_singleton newer g ih =>
      intro f older hfr hint fuel hfuel
      rw [List.length_append, List.length_singleton] at hfuel
      obtain ⟨fuel, rfl⟩ : ∃ k, fuel = k + 1 := ⟨fuel - 1, by omega⟩
      have hf : f ∈ r.intact := hint f (by simp)
      have hg : g ∈ r.intact := hint g (by simp)
      have hfr' : r.frames = newer ++ g :: f :: older := by simpa using hfr
      have hlink : frameNextPos r.bytes f.pos = g.pos :=
        inv.nextLink f hf g (inv.mem_frames hg) (inv.seq_succ hfr')
      have hrest := ih g (f :: older) hfr' (fun x hx => hint x (by simp at hx ⊢; tauto)) fuel
        (by omega)
      rw [followNext, if_pos (inv.held f hf).magic, hlink, hrest]
      simp

theorem RingInv.backward (inv : RingInv N M r) (newer : List FrameRecord) :
    ∀ pre f older, r.frames = pre ++ newer ++ f :: older →
      (∀ g ∈ newer ++ [f], g ∈ r.intact) →
        followPrev r.bytes (newer.length + 1) ((newer ++ [f]).head (by simp)).pos
          = (newer ++ [f]).map FrameRecord.pos := by
  induction newer with
  | nil =>
      intro pre f older hfr hint
      rfl
  | cons g newer ih =>
      intro pre f older hfr hint
      have hg : g ∈ r.intact := hint g (by simp)
      have hrest := ih (pre ++ [g]) f older (by simpa using hfr)
        (fun x hx => hint x (by simp at hx ⊢; tauto))
      -- the frame after `g` in the list, numbered just before it
      obtain ⟨f', rest, hcons⟩ : ∃ f' rest, newer ++ [f] = f' :: rest := by
        cases newer <;> simp
      have hsucc : g.seq = f'.seq + 1 := by
        have hsplit : r.frames = pre ++ g :: f' :: (rest ++ older) := by
          rw [hfr, show pre ++ g :: newer ++ f :: older = pre ++ g :: (newer ++ [f]) ++ older by simp,
            hcons]
          simp
        exact inv.seq_succ hsplit
      have hf' : f' ∈ r.frames := by
        refine inv.mem_frames (hint f' ?_)
        rw [List.cons_append, hcons]
        simp
      have hlink : framePrevPos r.bytes g.pos = f'.pos := inv.prevLink g hg f' hf' hsucc
      simp only [hcons, List.head_cons] at hrest
      simp only [List.cons_append, List.head_cons, List.map_cons, List.length_cons, followPrev,
        List.iterate, hlink]
      rw [hcons]
      exact congrArg _ hrest

/-! ## The main theorem -/

theorem RingInv.representation (inv : RingInv N M r) (hN : M + 143 < N) :
    RingRepresentation N r := by
  obtain ⟨hc₁, -, hc₂⟩ := inv.layout.cursor_room hN
  have hnewest : ∀ f ∈ r.frames.head?, f ∈ r.frames ∧ f.seq = r.frames.length := by
    intro f hf
    obtain ⟨h, hfr⟩ : ∃ h, r.frames = f :: h := by
      cases hfr : r.frames with
      | nil => simp [hfr] at hf
      | cons g h => exact ⟨h, by simp [hfr] at hf; rw [hf]⟩
    have l := inv.layout
    rw [hfr] at l ⊢
    exact ⟨List.mem_cons_self, l.head_seq⟩
  exact {
    touched := inv.touched
    aligned := hc₁
    room := by rw [shmSizeOfFrameHead_eq]; omega
    magic := inv.magic
    numbered := inv.layout.map_seq
    newest := by
      intro f hf
      obtain ⟨hm, hs⟩ := hnewest f hf
      have hpos := inv.newestPos_of_seq hm hs
      have hseq := inv.newestSeq.trans hs.symm
      have hheld := inv.held f (inv.newest_intact hm hs)
      refine ⟨hpos, hseq, hheld, ?_⟩
      rw [ShmRead.refresh, hpos, hseq, if_pos hheld.magic]
    nextSlot := by
      intro f hf
      obtain ⟨hm, hs⟩ := hnewest f hf
      rw [inv.lastLink f hm hs, ← inv.cursor_of_seq hm hs]
      exact ⟨inv.cleared, inv.not_isFrame_cursor⟩
    held := inv.held
    forward := fun newer f older => inv.forward newer f older
    backward := by
      intro newer f older hfr hint
      have h := inv.backward newer [] f older (by simpa using hfr) hint
      have hhead : headNewestFramePos r.bytes = ((newer ++ [f]).head (by simp)).pos := by
        rw [inv.newestPos, hfr]
        cases newer <;> rfl
      rw [hhead]
      exact h }

/-- **Representation invariant.**  Whatever fewer than `2 ^ 32 - 2` calls write to
a fresh ring, the segment represents the accepted frames. -/
theorem ringRepresentation_run (old : Mem) (pcHeaderInfo : ℕ → UInt8) {iShmSize iMaxFrameSize : ℕ}
    (hsize : shmSizeOfShmHead + iMaxFrameSize + 2 * shmSizeOfFrameHead + 3 < iShmSize)
    (hint : iShmSize < 2 ^ 31) (calls : List WriteCall) (hcalls : calls.length < 2 ^ 32 - 2) :
    RingRepresentation iShmSize
      ((ShmRing.create old iShmSize iMaxFrameSize pcHeaderInfo).run calls) := by
  simp only [shmSizeOfShmHead_eq, shmSizeOfFrameHead_eq] at hsize
  have hlen := (ShmRing.create old iShmSize iMaxFrameSize pcHeaderInfo).length_run_le calls
  have h₀ : (ShmRing.create old iShmSize iMaxFrameSize pcHeaderInfo).frames.length = 0 := rfl
  exact (ringInv_run old pcHeaderInfo (by omega) (by omega) (by omega)).representation (by omega)

/-- Three frames of 100 bytes in a segment of 300 bytes, the second and third of
which go back to the start. -/
theorem ringRepresentation_run_small :
    RingRepresentation 300 ((ShmRing.create (fun _ => 0) 300 100 (fun _ => 0)).run
      (List.replicate 3 ⟨fun _ => 1, 100, fun _ => 2⟩)) :=
  ringRepresentation_run _ _ (by decide) (by decide) _ (by decide)
