/-
# A reader the writer may lap

Without a bound on how far the writer runs ahead, the position a reader saved may
by now be a newer head, a cleared head, or the middle of a newer frame.  What
stays true of it is `NextAt`: the next frame was put there, or was to follow a
frame whose slot it is.  `RingInv.arrival` derives the three things the overflow
check can find from that.

`overrun_detected` then says when overruns are detected: exactly unless a newer
frame has been put at the very position the reader saved.  `ReadFrame` only looks
at the magic there and hands out the newer frame, where `Distance2Newest` also
compares the sequence.
-/
import IpCamera.RingMagic

/-! ## Positions of a reader -/

/-- Where a reader that waits for frame `uiSeq` can stand. -/
inductive NextAt (h : List FrameRecord) (info : ShmInfo) : Prop
  /-- The frame was put at its position. -/
  | frame (f : FrameRecord) (mem : f ∈ h) (seq : f.seq = info.uiSeq) (pos : f.pos = info.uiPos)
  /-- Its position is the slot cleared after the frame before. -/
  | slot (f : FrameRecord) (mem : f ∈ h) (seq : f.seq + 1 = info.uiSeq) (pos : f.slot = info.uiPos)

variable {N M : ℕ} {r : ShmRing} {info : ShmInfo} {f : FrameRecord}

theorem NextAt.mono {h h' : List FrameRecord} (at_ : NextAt h info) (hsub : h ⊆ h') :
    NextAt h' info := by
  cases at_ with
  | frame f mem seq pos => exact .frame f (hsub mem) seq pos
  | slot f mem seq pos => exact .slot f (hsub mem) seq pos

/-- A frame goes to the slot of the frame before it, or to the start. -/
theorem Layout.follows {h : List FrameRecord} {cursor : ℕ} {f g : FrameRecord}
    (l : Layout N M h cursor) (hf : f ∈ h) (hg : g ∈ h) (hs : g.seq = f.seq + 1) :
    g.pos = f.slot ∨ g.pos = 52 := by
  induction l with
  | empty => cases hf
  | @write h cursor g' hist _ _ seq place ih =>
      have hle : ∀ x ∈ h, x.seq ≤ h.length := fun x hx => (hist.seq_range hx).2
      rcases List.mem_cons.mp hg with rfl | hg₁
      · rcases List.mem_cons.mp hf with rfl | hf₁
        · omega
        · -- `f` is the newest frame of the older history, so the cursor is its slot
          have hcur : cursor = f.slot := by
            obtain ⟨n, h', rfl⟩ := List.exists_cons_of_ne_nil (List.ne_nil_of_mem hf₁)
            have hn := hist.head_seq
            obtain rfl : f = n := hist.seq_inj hf₁ List.mem_cons_self (by omega)
            exact hist.cursor_eq
          generalize g.slot = s, g.pos = p at place
          cases place <;> omega
      · rcases List.mem_cons.mp hf with rfl | hf₁
        · have := hle g hg₁
          omega
        · exact ih hf₁ hg₁

namespace NextAt

theorem seq_range (at_ : NextAt r.frames info) (inv : RingInv N M r) :
    1 ≤ info.uiSeq ∧ info.uiSeq ≤ r.frames.length + 1 ∧ 0 < r.frames.length := by
  cases at_ with
  | frame f mem seq pos =>
      have := inv.layout.seq_range mem
      omega
  | slot f mem seq pos =>
      have := inv.layout.seq_range mem
      omega

theorem pos_range (at_ : NextAt r.frames info) (inv : RingInv N M r) (hN : M + 143 < N) :
    4 ∣ info.uiPos ∧ 52 ≤ info.uiPos ∧ info.uiPos + 44 ≤ N := by
  cases at_ with
  | frame f mem seq pos =>
      have hw := inv.wellPlaced hN mem
      have hd := hw.aligned
      have h₁ := hw.start_le
      have h₂ := hw.finish_lt
      have h₃ : f.finish = f.pos + 44 + alignedLen f.len := rfl
      omega
  | slot f mem seq pos =>
      have hw := inv.wellPlaced hN mem
      have hd := FrameRecord.dvd_finish hw.aligned
      have h₃ : f.finish = f.pos + 44 + alignedLen f.len := rfl
      have h₁ := hw.start_le
      rcases hw.slot with hs | hs <;> omega

/-- A frame found at the position is the one waited for, or a later one: an older
one would have been overwritten. -/
theorem seq_le (at_ : NextAt r.frames info) (inv : RingInv N M r) (hN : M + 143 < N)
    (hf : f ∈ r.intact) (hpos : f.pos = info.uiPos) : info.uiSeq ≤ f.seq := by
  have hfm := inv.mem_frames hf
  have hfl := f.pos_lt_endPos
  by_contra hlt
  cases at_ with
  | frame g mem seq pos =>
      have hgl := g.pos_lt_endPos
      exact inv.layout.not_overwrites hf mem (by omega)
        (FrameRecord.overwrites_of_pos ⟨by omega, by omega⟩)
  | slot g mem seq pos =>
      rcases Nat.lt_or_ge f.seq g.seq with hs | hs
      · exact inv.layout.not_overwrites hf mem hs
          (FrameRecord.overwrites_of_slot ⟨by omega, by omega⟩)
      · -- a frame is not at its own slot
        obtain rfl : f = g := inv.layout.seq_inj hfm mem (by omega)
        have hw := inv.wellPlaced hN hfm
        have hfin : f.finish = f.pos + 44 + alignedLen f.len := rfl
        rcases hw.slot with hs | hs <;> omega

/-- If the frame waited for is intact and not at the position, it is at the start. -/
theorem at_start (at_ : NextAt r.frames info) (inv : RingInv N M r) (hf : f ∈ r.intact)
    (hs : f.seq = info.uiSeq) (hpos : f.pos ≠ info.uiPos) : f.pos = 52 := by
  have hfm := inv.mem_frames hf
  cases at_ with
  | frame g mem seq pos =>
      obtain rfl : f = g := inv.layout.seq_inj hfm mem (hs.trans seq.symm)
      exact absurd pos hpos
  | slot g mem seq pos =>
      exact (inv.layout.follows mem hfm (by omega)).resolve_left (by omega)

end NextAt

/-! ## What the overflow check finds -/

/-- The position `CheckOverflowed` settles on, for a reader that is not up to date. -/
inductive Arrival (r : ShmRing) (info : ShmInfo) : Prop
  /-- An intact frame at the reader's position, the one waited for or a later one. -/
  | here (f : FrameRecord) (intact : f ∈ r.intact) (pos : f.pos = info.uiPos)
      (seq : info.uiSeq ≤ f.seq)
  /-- No frame there, but the one waited for at the start. -/
  | start (f : FrameRecord) (intact : f ∈ r.intact) (pos : f.pos = 52) (seq : info.uiSeq = f.seq)
      (not_frame : ¬ IsFrame r.bytes info.uiPos)
  /-- No frame there, and the one waited for is overwritten. -/
  | lost (not_frame : ¬ IsFrame r.bytes info.uiPos) (gone : ∀ f ∈ r.intact, f.seq ≠ info.uiSeq)

theorem RingInv.arrival (inv : RingInv N M r) (mag : MagicInv N r) (hN : M + 143 < N)
    (at_ : NextAt r.frames info) : Arrival r info := by
  obtain ⟨hd, h₁, h₂⟩ := at_.pos_range inv hN
  by_cases hframe : IsFrame r.bytes info.uiPos
  · obtain ⟨f, hf, hpos⟩ := mag info.uiPos hd h₁ (by omega) hframe
    exact .here f hf hpos (at_.seq_le inv hN hf hpos)
  · by_cases hs : ∃ f ∈ r.intact, f.seq = info.uiSeq
    · obtain ⟨f, hf, hs⟩ := hs
      have hne : f.pos ≠ info.uiPos := fun he => hframe (he ▸ (inv.held f hf).magic)
      exact .start f hf (at_.at_start inv hf hs hne) hs.symm hframe
    · push Not at hs
      exact .lost hframe hs

/-- The sequence at the start is that of an intact frame, or zero. -/
theorem RingInv.sequence_start (inv : RingInv N M r) (hN : M + 143 < N) :
    frameSequence r.bytes 52 = 0 ∨ ∃ f ∈ r.intact, f.pos = 52 ∧ frameSequence r.bytes 52 = f.seq := by
  rcases inv.layout.start hN with hc | ⟨f, hf, hpos⟩
  · left
    have hcl := inv.cleared
    rw [hc] at hcl
    refine load32_eq_zero fun x h₁ h₂ => ?_
    have := hcl (x - 52) (by omega)
    rwa [show 52 + (x - 52) = x by omega] at this
  · exact .inr ⟨f, hf, hpos, hpos ▸ (inv.held f hf).seq⟩

/-- A lost reader stays where it is, which is no frame. -/
theorem RingInv.checkOverflowed_gone (inv : RingInv N M r) (hN : M + 143 < N)
    (hseq : 1 ≤ info.uiSeq) (gone : ∀ f ∈ r.intact, f.seq ≠ info.uiSeq) :
    ShmRead.checkOverflowed r.bytes info = info.uiPos := by
  apply checkOverflowed_lost
  rcases inv.sequence_start hN with hz | ⟨f, hf, -, hs⟩
  · omega
  · rw [hs]
    exact (gone f hf).symm

theorem checkOverflowed_here (inv : RingInv N M r) (hf : f ∈ r.intact)
    (hpos : f.pos = info.uiPos) : ShmRead.checkOverflowed r.bytes info = f.pos := by
  have hh := (inv.held f hf).magic
  rw [hpos] at hh ⊢
  exact checkOverflowed_of_isFrame hh

theorem checkOverflowed_start (inv : RingInv N M r) (hf : f ∈ r.intact) (hpos : f.pos = 52)
    (hs : info.uiSeq = f.seq) (h₀ : info.uiPos ≠ 0) (hno : ¬ IsFrame r.bytes info.uiPos) :
    ShmRead.checkOverflowed r.bytes info = f.pos := by
  rw [hpos]
  refine checkOverflowed_parked h₀ hno ?_
  have := (inv.held f hf).seq
  rw [hpos] at this
  rw [this, hs]

/-! ## Reading and measuring the distance -/

/-- The three outcomes of `ReadFrame` for a reader that is not up to date. -/
inductive ReadOutcome (r : ShmRing) (bufLen : ℤ) (info : ShmInfo) : Prop
  /-- An intact frame, the one waited for or a later one, is handed out whole. -/
  | delivered (f : FrameRecord) (intact : f ∈ r.intact) (seq : info.uiSeq ≤ f.seq)
      (fits : f.len ≤ bufLen)
      (result : ShmRead.readFrame r.bytes true bufLen info
        = (shmEnumGetANewFrame, some f.data, ⟨frameNextPos r.bytes f.pos, f.seq + 1⟩))
  /-- It does not fit the buffer, and the reader stays. -/
  | tooLarge (f : FrameRecord) (intact : f ∈ r.intact)
      (stays : f.pos = info.uiPos ∨ f.seq = info.uiSeq) (short : bufLen < f.len)
      (result : ShmRead.readFrame r.bytes true bufLen info
        = (shmEnumFrameTooLarge, none, ⟨f.pos, info.uiSeq⟩))
  /-- The frame waited for is overwritten. -/
  | reset (gone : ∀ f ∈ r.intact, f.seq ≠ info.uiSeq)
      (result : ShmRead.readFrame r.bytes true bufLen info
        = (shmEnumError, none, ShmInfo.initial))

theorem RingInv.readOutcome (inv : RingInv N M r) (mag : MagicInv N r) (hN : M + 143 < N)
    (hlen : r.frames.length < 4294967294) (at_ : NextAt r.frames info)
    (hs : info.uiSeq ≤ r.frames.length) (bufLen : ℤ) : ReadOutcome r bufLen info := by
  obtain ⟨hseq, -, hne⟩ := at_.seq_range inv
  obtain ⟨-, hp, -⟩ := at_.pos_range inv hN
  have hns := inv.newestSeq
  cases inv.arrival mag hN at_ with
  | here f intact pos seq =>
      have hc := checkOverflowed_here inv intact pos
      rcases le_or_gt (f.len : ℤ) bufLen with hb | hb
      · exact .delivered f intact seq hb (inv.readFrame_delivers hN hlen intact hs hc hb)
      · exact .tooLarge f intact (.inl pos) hb (inv.readFrame_tooLarge hN intact hs hc hb)
  | start f intact pos seq not_frame =>
      have hc := checkOverflowed_start inv intact pos seq (by omega) not_frame
      rcases le_or_gt (f.len : ℤ) bufLen with hb | hb
      · exact .delivered f intact seq.le hb (inv.readFrame_delivers hN hlen intact hs hc hb)
      · exact .tooLarge f intact (.inr seq.symm) hb (inv.readFrame_tooLarge hN intact hs hc hb)
  | lost not_frame gone =>
      refine .reset gone (readFrame_error (by omega) (by omega) ?_ true bufLen)
      rw [inv.checkOverflowed_gone hN hseq gone]
      exact not_frame

/-- Every outcome leaves the reader at a position of the same kind, or reset. -/
theorem RingInv.nextAt_read (inv : RingInv N M r) (hf : f ∈ r.intact) :
    NextAt r.frames ⟨frameNextPos r.bytes f.pos, f.seq + 1⟩ := by
  have hfm := inv.mem_frames hf
  have hrange := inv.layout.seq_range hfm
  rcases Nat.lt_or_ge f.seq r.frames.length with hlt | hge
  · obtain ⟨g, hg, hgs⟩ := inv.layout.exists_seq (s := f.seq + 1) (by omega) (by omega)
    exact .frame g hg hgs (inv.nextLink f hf g hg hgs).symm
  · exact .slot f hfm rfl (inv.lastLink f hfm (by omega)).symm

theorem NextAt.tooLarge (at_ : NextAt r.frames info) (inv : RingInv N M r) (hf : f ∈ r.intact)
    (stays : f.pos = info.uiPos ∨ f.seq = info.uiSeq) :
    NextAt r.frames ⟨f.pos, info.uiSeq⟩ := by
  rcases stays with hp | hs
  · rw [hp]
    exact at_
  · exact .frame f (inv.mem_frames hf) hs rfl

theorem ShmRead.distance2Newest_newest {m : Mem} (h : info.uiSeq = headNewestFrameSeq m + 1)
    (hlt : headNewestFrameSeq m + 1 < 4294967296) : ShmRead.distance2Newest m info = -1 := by
  rw [ShmRead.distance2Newest, if_pos (by rw [h, Nat.mod_eq_of_lt hlt])]

theorem ShmRead.distance2Newest_lost {m : Mem} (h : info.uiSeq ≤ headNewestFrameSeq m)
    (hlt : headNewestFrameSeq m + 1 < 4294967296)
    (hpos : ¬ (IsFrame m (ShmRead.checkOverflowed m info)
      ∧ frameSequence m (ShmRead.checkOverflowed m info) = info.uiSeq)) :
    ShmRead.distance2Newest m info = -2 := by
  rw [ShmRead.distance2Newest, if_neg (by rw [Nat.mod_eq_of_lt hlt]; omega), if_neg hpos]

theorem ShmRead.distance2Newest_intact {m : Mem} (h : info.uiSeq ≤ headNewestFrameSeq m)
    (hlt : headNewestFrameSeq m < 2147483648)
    (hpos : IsFrame m (ShmRead.checkOverflowed m info)
      ∧ frameSequence m (ShmRead.checkOverflowed m info) = info.uiSeq) :
    ShmRead.distance2Newest m info = headNewestFrameSeq m - info.uiSeq := by
  have hmod : (headNewestFrameSeq m + 4294967296 - info.uiSeq) % 4294967296
      = headNewestFrameSeq m - info.uiSeq := by omega
  rw [ShmRead.distance2Newest, if_neg (by omega), if_pos hpos, hmod,
    toInt32_natCast (by omega), Nat.cast_sub h]

/-! ## Runs of the writer and one reader ID -/

/-- A call of the writer, or one on the reader ID.  `ReadFrame` is only called for
an ID that has a position. -/
inductive IdCall
  | write (c : WriteCall)
  | refresh
  | readFrame (bufLen : ℤ)

/-- The ring, and the position of the ID. -/
structure IdState where
  ring : ShmRing
  info : ShmInfo

namespace IdState

def step (s : IdState) : IdCall → IdState
  | .write c => { s with ring := s.ring.write c }
  | .refresh => { s with info := (ShmRead.refresh s.ring.bytes).2 }
  | .readFrame bufLen =>
      if ShmRead.isInitState s.info.uiPos then s
      else { s with info := (ShmRead.readFrame s.ring.bytes true bufLen s.info).2.2 }

def run (s : IdState) (es : List IdCall) : IdState := es.foldl step s

theorem run_concat (s : IdState) (es : List IdCall) (e : IdCall) :
    s.run (es ++ [e]) = (s.run es).step e := by
  simp [run]

end IdState

/-- The positions an ID can have: none, the start of a ring that was empty when
the ID was refreshed, or one it waits at. -/
inductive ReaderAt (h : List FrameRecord) (info : ShmInfo) : Prop
  | initial (eq : info = ShmInfo.initial)
  | unset (eq : info = ⟨52, 0⟩)
  | next (at_ : NextAt h info)

theorem ReaderAt.mono {h h' : List FrameRecord} (at_ : ReaderAt h info) (hsub : h ⊆ h') :
    ReaderAt h' info := by
  cases at_ with
  | initial eq => exact .initial eq
  | unset eq => exact .unset eq
  | next at_ => exact .next (at_.mono hsub)

/-- An ID with a sequence number names a frame. -/
theorem ReaderAt.nextAt {h : List FrameRecord} (reader : ReaderAt h info) (hseq : 1 ≤ info.uiSeq) :
    NextAt h info := by
  cases reader with
  | initial eq => simp [eq, ShmInfo.initial] at hseq
  | unset eq => simp [eq] at hseq
  | next at_ => exact at_

theorem ShmRing.frames_subset_write (r : ShmRing) (c : WriteCall) :
    r.frames ⊆ (r.write c).frames := by
  unfold ShmRing.write
  dsimp only
  split_ifs
  · exact List.subset_cons_self _ _
  · exact fun _ h => h

theorem RingInv.readerAt_refresh (inv : RingInv N M r) :
    ReaderAt r.frames (ShmRead.refresh r.bytes).2 := by
  cases hfr : r.frames with
  | nil =>
      rw [inv.refresh_empty hfr]
      exact .unset rfl
  | cons f h =>
      have hf : f ∈ r.frames := hfr ▸ List.mem_cons_self
      rw [inv.refresh hf (inv.newest_seq hfr), ← hfr]
      exact .next (.frame f hf rfl rfl)

/-- An ID refreshed while the ring was empty reads what is at the start by now. -/
theorem RingInv.readOutcome_unset (inv : RingInv N M r) (mag : MagicInv N r) (hN : M + 143 < N)
    (hlen : r.frames.length < 4294967294) (hne : 0 < r.frames.length) (bufLen : ℤ) :
    ReadOutcome r bufLen ⟨52, 0⟩ := by
  have hns := inv.newestSeq
  by_cases hframe : IsFrame r.bytes 52
  · obtain ⟨f, hf, hpos⟩ := mag 52 (by decide) le_rfl (by omega) hframe
    have hc : ShmRead.checkOverflowed r.bytes ⟨52, 0⟩ = f.pos := checkOverflowed_here inv hf hpos
    rcases le_or_gt (f.len : ℤ) bufLen with hb | hb
    · exact .delivered f hf (Nat.zero_le _) hb
        (inv.readFrame_delivers hN hlen hf (Nat.zero_le _) hc hb)
    · exact .tooLarge f hf (.inl hpos) hb (inv.readFrame_tooLarge hN hf (Nat.zero_le _) hc hb)
  · refine .reset (fun f hf => ?_) (readFrame_error (by omega) (Nat.zero_le _) ?_ true bufLen)
    · have := inv.layout.seq_range (inv.mem_frames hf)
      simp only
      omega
    · have hc : ShmRead.checkOverflowed r.bytes ⟨52, 0⟩ = 52 := by
        unfold ShmRead.checkOverflowed
        split_ifs <;> rfl
      rw [hc]
      exact hframe

/-- An outcome of a read, in terms of the position it leaves. -/
theorem ReadOutcome.readerAt {bufLen : ℤ} (out : ReadOutcome r bufLen info)
    (inv : RingInv N M r) (at_ : ReaderAt r.frames info) (hpos : info.uiPos ≠ 0) :
    ReaderAt r.frames (ShmRead.readFrame r.bytes true bufLen info).2.2 := by
  cases out with
  | delivered f intact seq fits result =>
      rw [result]
      exact .next (inv.nextAt_read intact)
  | tooLarge f intact stays short result =>
      rw [result]
      cases at_ with
      | initial eq => simp [eq, ShmInfo.initial] at hpos
      | unset eq =>
          have hrange := inv.layout.seq_range (inv.mem_frames intact)
          subst eq
          have hp : f.pos = 52 := stays.resolve_right (by simp only; omega)
          exact .unset (by simp [hp])
      | next at_ => exact .next (at_.tooLarge inv intact stays)
  | reset gone result =>
      rw [result]
      exact .initial rfl

/-- What a read of an ID with a position comes to: it leaves the ID as it is, or
it is one of the three outcomes. -/
theorem RingInv.read_cases (inv : RingInv N M r) (mag : MagicInv N r) (hN : M + 143 < N)
    (hlen : r.frames.length < 4294967294) (at_ : ReaderAt r.frames info) (hpos : info.uiPos ≠ 0)
    (bufLen : ℤ) :
    (∃ rtn ≤ 0, ShmRead.readFrame r.bytes true bufLen info = (rtn, none, info))
      ∨ info.uiSeq ≤ r.frames.length ∧ ReadOutcome r bufLen info := by
  have hns := inv.newestSeq
  cases at_ with
  | initial eq => simp [eq, ShmInfo.initial] at hpos
  | unset eq =>
      subst eq
      rcases Nat.eq_zero_or_pos r.frames.length with hz | hne
      · exact .inl ⟨_, by decide, readFrame_empty (by omega) true bufLen⟩
      · exact .inr ⟨Nat.zero_le _, inv.readOutcome_unset mag hN hlen hne bufLen⟩
  | next next =>
      obtain ⟨h₁, h₂, h₃⟩ := next.seq_range inv
      rcases Nat.lt_or_ge r.frames.length info.uiSeq with hlt | hge
      · exact .inl ⟨_, by decide, readFrame_noNewFrame (by omega) (by omega) true bufLen⟩
      · exact .inr ⟨hge, inv.readOutcome mag hN hlen next hge bufLen⟩

theorem RingInv.readerAt_readFrame (inv : RingInv N M r) (mag : MagicInv N r) (hN : M + 143 < N)
    (hlen : r.frames.length < 4294967294) (at_ : ReaderAt r.frames info) (hpos : info.uiPos ≠ 0)
    (bufLen : ℤ) : ReaderAt r.frames (ShmRead.readFrame r.bytes true bufLen info).2.2 := by
  rcases inv.read_cases mag hN hlen at_ hpos bufLen with ⟨rtn, -, hread⟩ | ⟨-, out⟩
  · rw [hread]
    exact at_
  · exact out.readerAt inv at_ hpos

/-- The invariant of the ring and a reader ID, whatever the writer does. -/
structure IdInv (N M : ℕ) (s : IdState) : Prop where
  ring : RingInv N M s.ring
  magic : MagicInv N s.ring
  reader : ReaderAt s.ring.frames s.info

theorem IdInv.step {s : IdState} (inv : IdInv N M s) (hN : M + 143 < N)
    (hN' : N ≤ shmFrameMagicNum) {e : IdCall} (hmagic : ∀ c, e = .write c → c.NoMagic)
    (hlen : (s.step e).ring.frames.length < 2 ^ 30) : IdInv N M (s.step e) := by
  have hN'' : N < 2147483648 := by
    rw [shmFrameMagicNum_eq] at hN'
    omega
  cases e with
  | write c =>
      exact {
        ring := inv.ring.write hN hN'' c (hlen.trans (by norm_num))
        magic := inv.magic.write inv.ring hN hN' (hmagic c rfl) hlen
        reader := inv.reader.mono (s.ring.frames_subset_write c) }
  | refresh => exact ⟨inv.ring, inv.magic, inv.ring.readerAt_refresh⟩
  | readFrame bufLen =>
      simp only [IdState.step] at hlen ⊢
      split_ifs with h₀
      · exact inv
      · rw [if_neg h₀] at hlen
        have hpos : s.info.uiPos ≠ 0 := fun h => h₀ (by rw [h]; rfl)
        exact ⟨inv.ring, inv.magic, inv.ring.readerAt_readFrame inv.magic hN
          (hlen.trans (by norm_num)) inv.reader hpos bufLen⟩

theorem IdState.length_step_le (s : IdState) (e : IdCall) :
    s.ring.frames.length ≤ (s.step e).ring.frames.length := by
  cases e with
  | write c => exact (s.ring.length_write_le c).1
  | refresh => exact le_rfl
  | readFrame bufLen =>
      unfold IdState.step
      split_ifs <;> exact le_rfl

theorem IdInv.run {s : IdState} (inv : IdInv N M s) (hN : M + 143 < N)
    (hN' : N ≤ shmFrameMagicNum) {es : List IdCall} (hmagic : ∀ c, .write c ∈ es → c.NoMagic)
    (hlen : (s.run es).ring.frames.length < 2 ^ 30) : IdInv N M (s.run es) := by
  induction es using List.reverseRecOn with
  | nil => exact inv
  | append_singleton es e ih =>
      rw [IdState.run_concat] at hlen ⊢
      have hih := ih (fun c hc => hmagic c (List.mem_append_left _ hc))
        (((s.run es).length_step_le e).trans_lt hlen)
      exact hih.step hN hN' (fun c hc => hmagic c (by simp [hc])) hlen

theorem idInv_create (old : Mem) (info : ℕ → UInt8) (hN : M + 143 < N) (hN' : N < 2147483648) :
    IdInv N M ⟨ShmRing.create old N M info, ShmInfo.initial⟩ :=
  ⟨ringInv_create old info hN hN', magicInv_create old info hN hN', .initial rfl⟩

/-! ## Detection of overruns -/

/-- What a reader that waits for frame `info.uiSeq` should be told, by `ReadFrame`
with any sufficient buffer and by `Distance2Newest`. -/
structure OverrunDetected (M : ℕ) (r : ShmRing) (info : ShmInfo) : Prop where
  intact : ∀ f ∈ r.intact, f.seq = info.uiSeq →
    (∀ bufLen : ℤ, M ≤ bufLen → ShmRead.readFrame r.bytes true bufLen info
      = (shmEnumGetANewFrame, some f.data, ⟨frameNextPos r.bytes f.pos, f.seq + 1⟩))
    ∧ ShmRead.distance2Newest r.bytes info = r.frames.length - f.seq
  newest : info.uiSeq = r.frames.length + 1 →
    (∀ bufLen : ℤ, M ≤ bufLen → ShmRead.readFrame r.bytes true bufLen info
      = (shmEnumNoNewFrame, none, info))
    ∧ ShmRead.distance2Newest r.bytes info = -1
  overwritten : info.uiSeq ≤ r.frames.length → (∀ f ∈ r.intact, f.seq ≠ info.uiSeq) →
    (∀ bufLen : ℤ, M ≤ bufLen → ShmRead.readFrame r.bytes true bufLen info
      = (shmEnumError, none, ShmInfo.initial))
    ∧ ShmRead.distance2Newest r.bytes info = -2

/-- A frame other than the one waited for stands at the reader's position. -/
def NewerFrameHere (m : Mem) (info : ShmInfo) : Prop :=
  info.uiSeq ≤ headNewestFrameSeq m ∧ IsFrame m info.uiPos
    ∧ frameSequence m info.uiPos ≠ info.uiSeq

instance (m : Mem) (info : ShmInfo) : Decidable (NewerFrameHere m info) :=
  inferInstanceAs (Decidable (_ ∧ _ ∧ _))

theorem RingInv.readFrame_at (inv : RingInv N M r) (hN : M + 143 < N)
    (hlen : r.frames.length < 4294967294) (hf : f ∈ r.intact) (hs : info.uiSeq ≤ r.frames.length)
    (hpos : ShmRead.checkOverflowed r.bytes info = f.pos) {bufLen : ℤ} (hbuf : (M : ℤ) ≤ bufLen) :
    ShmRead.readFrame r.bytes true bufLen info
      = (shmEnumGetANewFrame, some f.data, ⟨frameNextPos r.bytes f.pos, f.seq + 1⟩) := by
  exact inv.readFrame_delivers hN hlen hf hs hpos ((inv.len_le hN hf).trans hbuf)

theorem IdInv.overrunDetected {s : IdState} (inv : IdInv N M s) (hN : M + 143 < N)
    (hlen : s.ring.frames.length < 2 ^ 30) (hseq : 1 ≤ s.info.uiSeq)
    (hno : ¬ NewerFrameHere s.ring.bytes s.info) : OverrunDetected M s.ring s.info := by
  obtain ⟨ring, mag, reader⟩ := inv
  have hns := ring.newestSeq
  have at_ := reader.nextAt hseq
  -- the check finds the frame waited for, finds it at the start, or loses it
  obtain ⟨-, h₂, h₃⟩ := at_.seq_range ring
  obtain ⟨-, hp, -⟩ := at_.pos_range ring hN
  have hfind := ring.arrival mag hN at_
  refine ⟨fun f hf hs => ?_, fun hs => ?_, fun hs gone => ?_⟩
  · -- the check settles on the frame waited for
    have hle := (ring.layout.seq_range (ring.mem_frames hf)).2
    have hpos : ShmRead.checkOverflowed s.ring.bytes s.info = f.pos := by
      cases hfind with
      | here g intact pos seq =>
          have hh := ring.held g intact
          have hgs : g.seq = s.info.uiSeq := by
            by_contra hne
            exact hno ⟨by omega, pos ▸ hh.magic, by rw [← pos, hh.seq]; exact hne⟩
          obtain rfl : g = f := ring.layout.seq_inj (ring.mem_frames intact) (ring.mem_frames hf)
            (hgs.trans hs.symm)
          exact checkOverflowed_here ring intact pos
      | start g intact pos seq not_frame =>
          obtain rfl : g = f := ring.layout.seq_inj (ring.mem_frames intact) (ring.mem_frames hf)
            (seq.symm.trans hs.symm)
          exact checkOverflowed_start ring intact pos seq (by omega) not_frame
      | lost not_frame gone => exact absurd hs (gone f hf)
    have hh := ring.held f hf
    refine ⟨fun bufLen hb => ring.readFrame_at hN (by omega) hf (by omega) hpos hb, ?_⟩
    rw [ShmRead.distance2Newest_intact (by omega) (by omega)
      ⟨hpos ▸ hh.magic, by rw [hpos, hh.seq, hs]⟩, hns, hs]
  · exact ⟨fun bufLen _ => readFrame_noNewFrame (by omega) (by omega) true bufLen,
      ShmRead.distance2Newest_newest (by omega) (by omega)⟩
  · have hnot : ¬ IsFrame s.ring.bytes s.info.uiPos := by
      cases hfind with
      | here g intact pos seq =>
          exact fun hframe => hno ⟨by omega, hframe, by
            rw [← pos, (ring.held g intact).seq]
            exact gone g intact⟩
      | start g intact pos seq not_frame => exact not_frame
      | lost not_frame _ => exact not_frame
    have hc := ring.checkOverflowed_gone hN hseq gone
    refine ⟨fun bufLen _ => readFrame_error (by omega) (by omega) (by rwa [hc]) true bufLen, ?_⟩
    exact ShmRead.distance2Newest_lost (by omega) (by omega)
      (by rw [hc]; exact fun h => hnot h.1)

/-- With a newer frame at its position the reader is given that frame, though the
distance says that it is lost. -/
theorem IdInv.overrun_missed {s : IdState} (inv : IdInv N M s) (hN : M + 143 < N)
    (hlen : s.ring.frames.length < 2 ^ 30) (hseq : 1 ≤ s.info.uiSeq)
    (hnew : NewerFrameHere s.ring.bytes s.info) : ¬ OverrunDetected M s.ring s.info := by
  obtain ⟨ring, mag, reader⟩ := inv
  obtain ⟨hle, hframe, hne⟩ := hnew
  have hns := ring.newestSeq
  have hc : ShmRead.checkOverflowed s.ring.bytes s.info = s.info.uiPos :=
    checkOverflowed_of_isFrame hframe
  have hdist : ShmRead.distance2Newest s.ring.bytes s.info = -2 :=
    ShmRead.distance2Newest_lost hle (by omega) (by rw [hc]; exact fun h => hne h.2)
  intro hdet
  by_cases hex : ∃ f ∈ s.ring.intact, f.seq = s.info.uiSeq
  · obtain ⟨f, hf, hs⟩ := hex
    have h₁ := (hdet.intact f hf hs).2
    have h₂ := (ring.layout.seq_range (ring.mem_frames hf)).2
    omega
  · push Not at hex
    have h₁ := (hdet.overwritten (by omega) hex).1 M le_rfl
    have at_ := reader.nextAt hseq
    obtain ⟨hd, hp, hq⟩ := at_.pos_range ring hN
    obtain ⟨f, hf, hpos⟩ := mag s.info.uiPos hd hp (by omega) hframe
    rw [ring.readFrame_at hN (by omega) hf (by omega) (hc.trans hpos.symm) le_rfl] at h₁
    simp [shmEnumGetANewFrame, shmEnumError] at h₁

/-- **Overruns.**  In every state that `WriteFrame`, `Refresh` and `ReadFrame`
calls reach, a reader that waits for a frame is told the truth about it exactly
if no newer frame stands at the position it saved. -/
theorem overrun_detected (old : Mem) (pcHeaderInfo : ℕ → UInt8) {iShmSize iMaxFrameSize : ℕ}
    (hsize : shmSizeOfShmHead + iMaxFrameSize + 2 * shmSizeOfFrameHead + 3 < iShmSize)
    (hmax : iShmSize ≤ shmFrameMagicNum) (es : List IdCall) :
    let s := (IdState.mk (ShmRing.create old iShmSize iMaxFrameSize pcHeaderInfo)
      ShmInfo.initial).run es
    (∀ c, .write c ∈ es → c.NoMagic) → s.ring.frames.length < 2 ^ 30 → 1 ≤ s.info.uiSeq →
    (OverrunDetected iMaxFrameSize s.ring s.info ↔ ¬ NewerFrameHere s.ring.bytes s.info) := by
  intro s hmagic hlen hseq
  simp only [shmSizeOfShmHead_eq, shmSizeOfFrameHead_eq] at hsize
  have hmax' := hmax
  rw [shmFrameMagicNum_eq] at hmax'
  have inv : IdInv iShmSize iMaxFrameSize s :=
    (idInv_create old pcHeaderInfo (by omega) (by omega)).run (by omega) hmax hmagic hlen
  refine ⟨fun hdet hnew => inv.overrun_missed (by omega) hlen hseq hnew hdet, fun hno => ?_⟩
  exact inv.overrunDetected (by omega) hlen hseq hno

/-- A frame of 100 bytes, of which two do not fit into a segment of 300 bytes. -/
def overrunCall : WriteCall := ⟨fun _ => 1, 100, fun _ => 2⟩

theorem overrunCall_noMagic : overrunCall.NoMagic where
  payload _ _ _ := show (1 : UInt8) ≠ 0x7C by decide
  extras _ _ _ := show (2 : UInt8) ≠ 0x7C by decide

/-- A reader refreshed to the first frame, still at its position. -/
theorem overrun_detected_small :
    let s := (IdState.mk (ShmRing.create (fun _ => 0) 300 100 (fun _ => 0))
      ShmInfo.initial).run [.write overrunCall, .refresh]
    OverrunDetected 100 s.ring s.info :=
  (overrun_detected (fun _ => 0) (fun _ => 0) (by decide) (by decide)
    [.write overrunCall, .refresh]
    (fun c hc => by
      obtain rfl : c = overrunCall := by simpa using hc
      exact overrunCall_noMagic)
    (by decide +kernel) (by decide +kernel)).mpr (by decide +kernel)

/-- The second frame is put where the first one was and is handed out in its
place: the overrun goes unnoticed. -/
theorem overrun_undetected :
    ∃ es : List IdCall, (∀ c, .write c ∈ es → c.NoMagic) ∧
      let s := (IdState.mk (ShmRing.create (fun _ => 0) 300 100 (fun _ => 0))
        ShmInfo.initial).run es
      s.ring.frames.length < 2 ^ 30 ∧ 1 ≤ s.info.uiSeq
        ∧ (ShmRead.readFrame s.ring.bytes true 100 s.info).1 = shmEnumGetANewFrame
        ∧ ShmRead.distance2Newest s.ring.bytes s.info = -2
        ∧ ¬ OverrunDetected 100 s.ring s.info := by
  refine ⟨[.write overrunCall, .refresh, .write overrunCall], fun c hc => ?_, ?_⟩
  · obtain rfl : c = overrunCall := by simpa using hc
    exact overrunCall_noMagic
  · intro s
    have hgone : ∀ f ∈ s.ring.intact, f.seq ≠ s.info.uiSeq := by decide +kernel
    have hread : (ShmRead.readFrame s.ring.bytes true 100 s.info).1 = shmEnumGetANewFrame := by
      decide +kernel
    refine ⟨by decide +kernel, by decide +kernel, hread, by decide +kernel, fun hdet => ?_⟩
    have hlost := (hdet.overwritten (by decide +kernel) hgone).1 100 le_rfl
    rw [hlost] at hread
    exact absurd hread (by decide)
