/-
# The sequence number coming round

The writer goes on from number `2 ^ 32 - 2` to `1` (`nextSequence`), and the reader to `0`
(`followSequence`).  `WindowInv` is the invariant of a reader that keeps up in a ring of any age: of
the frames it looks only at the unread ones, which are numbered one after the other, linked and in
memory, and lie in the `Span` of the reader.

`answers_iff` says which reads are answered as they should be, and `sequence_wrap_iff` that the
runs without any other read are those in which the wrap is not noticed.
-/
import IpCamera.RingFifo
import IpCamera.GuardedRun

open GuardedRun

/-! ## The two rules for the next number -/

/-- The sequence `ReadFrame` leaves behind after number `uiSequence`. -/
def followSequence (uiSequence : ℕ) : ℕ :=
  let seq := u32 (uiSequence + 1)
  if seq ≥ shmFrameMaxSequence then 0 else seq

theorem nextInfo_uiSeq (m : Mem) (pos : ℕ) :
    (ShmRead.readFrame.nextInfo m pos).uiSeq = followSequence (frameSequence m pos) := rfl

theorem followSequence_of_lt {n : ℕ} (h : n + 1 < 4294967295) : followSequence n = n + 1 := by
  simp only [followSequence, u32_of_lt (show n + 1 < 4294967296 by omega), shmFrameMaxSequence_eq]
  rw [if_neg (by omega)]

/-- Below the wrap the rules agree; there the writer goes on with `1` and the reader with `0`. -/
theorem sequence_cases {n : ℕ} (h : n < 4294967295) :
    (followSequence n = n + 1 ∧ nextSequence n = n + 1)
      ∨ n = 4294967294 ∧ followSequence n = 0 ∧ nextSequence n = 1 := by
  by_cases hlt : n + 1 < 4294967295
  · exact Or.inl ⟨followSequence_of_lt hlt, WriterInv.nextSequence_of_lt hlt⟩
  · obtain rfl : n = 4294967294 := by omega
    exact Or.inr ⟨rfl, by decide, by decide⟩

/-! ## Runs of a reader that has read everything -/

namespace ReaderRun

/-- A reader that has just been given the newest frame. -/
def caughtUp (r : ShmRing) : ReaderRun :=
  { (start r).step (.read (headMaxFrameSize r.bytes)) with returned := [] }

/-- A read hands out the oldest unread frame, or says that there is no new one. -/
def Answers (base : ℕ) (s : ReaderRun) (e : ShmEvent) : Prop :=
  ∀ bufLen, e = .read bufLen →
    let (rtn, data, _) := ShmRead.readFrame s.ring.bytes true bufLen s.info
    match s.unread base with
    | [] => rtn = shmEnumNoNewFrame
    | f :: _ => rtn = shmEnumGetANewFrame ∧ data = some f.data

/-- At a read the reader's number is not that of the wrap: up to date it is not `0`; otherwise the
newest number is not below it, and if it is `0` a frame stands at its position. -/
def BesideWrap (base : ℕ) (s : ReaderRun) (e : ShmEvent) : Prop :=
  ∀ bufLen, e = .read bufLen →
    if s.unread base = [] then s.info.uiSeq ≠ 0
    else s.info.uiSeq ≤ headNewestFrameSeq s.ring.bytes
      ∧ (s.info.uiSeq = 0 → IsFrame s.ring.bytes s.info.uiPos)

/-- The reader keeps up over the call, and its buffer takes every frame. -/
def KeepsUpOver (N M base : ℕ) (s : ReaderRun) (e : ShmEvent) : Prop :=
  KeepsUp N M base (s.step e) ∧ ∀ bufLen, e = .read bufLen → (M : ℤ) ≤ bufLen

end ReaderRun

/-! ## The unread frames by themselves -/

/-- The frames are numbered by the writer, from after `a` up to `b`. -/
def Numbered : ℕ → List FrameRecord → ℕ → Prop
  | a, [], b => a = b
  | a, f :: fs, b => f.seq = nextSequence a ∧ Numbered f.seq fs b

/-- Every frame links to the next one, and the last to `e`. -/
def Linked (m : Mem) : List FrameRecord → ℕ → Prop
  | [], _ => True
  | f :: fs, e => frameNextPos m f.pos = (fs.head?.map FrameRecord.pos).getD e ∧ Linked m fs e

theorem Numbered.append {a b : ℕ} {u : List FrameRecord} {g : FrameRecord} (h : Numbered a u b)
    (hg : g.seq = nextSequence b) : Numbered a (u ++ [g]) g.seq := by
  induction u generalizing a with
  | nil =>
    obtain rfl : a = b := h
    exact ⟨hg, rfl⟩
  | cons f fs ih => exact ⟨h.1, ih h.2⟩

theorem Linked.append_iff {m : Mem} {u : List FrameRecord} {g : FrameRecord} {e : ℕ} :
    Linked m (u ++ [g]) e ↔ Linked m u g.pos ∧ frameNextPos m g.pos = e := by
  induction u with
  | nil => simp [Linked]
  | cons f fs ih =>
    rw [List.cons_append, Linked, Linked, ih, and_assoc]
    cases fs <;> rfl

theorem Linked.congr {m m' : Mem} {u : List FrameRecord} {e : ℕ} (h : Linked m u e)
    (hsame : ∀ f ∈ u, frameNextPos m' f.pos = frameNextPos m f.pos) : Linked m' u e := by
  induction u with
  | nil => trivial
  | cons f fs ih =>
    exact ⟨(hsame f List.mem_cons_self).trans h.1,
      ih h.2 fun g hg => hsame g (List.mem_cons_of_mem f hg)⟩

variable {N M base : ℕ} {s : ReaderRun} {c : WriteCall} {f g : FrameRecord} {m : Mem}

/-- The invariant of a reader that keeps up, in a ring of any age.  `last` is the number of the
frame it was given last. -/
structure WindowInv (N M base last : ℕ) (s : ReaderRun) : Prop where
  ring : RingEnd N M s.ring
  frames : s.ring.frames ≠ []
  given : base + s.returned.length ≤ s.ring.frames.length
  returned : s.returned
    = ((s.ring.frames.reverse.drop base).take s.returned.length).map FrameRecord.data
  last_lt : last < 4294967295
  seq : s.info.uiSeq = followSequence last
  numbered : Numbered last (s.unread base) s.ring.writer.uiFrameSeq
  start_le : 52 ≤ s.info.uiPos
  held : ∀ f ∈ s.unread base, f.HeldIn s.ring.bytes ∧ f.WellPlaced N M
  linked : Linked s.ring.bytes (s.unread base) s.ring.writer.uiFramePos
  span : Span N M s.ring.bytes (s.unread base) s.info.uiPos s.ring.writer.uiFramePos

/-! ## One write -/

theorem Contiguous.append_iff {a e : ℕ} {u : List FrameRecord} :
    Contiguous a (u ++ [g]) e ↔ Contiguous a u g.pos ∧ g.finish = e := by
  induction u generalizing a with
  | nil => exact and_congr_left' eq_comm
  | cons f fs ih =>
    rw [List.cons_append, Contiguous, Contiguous, ih, and_assoc]

theorem ReaderRun.unread_eq_nil (h : s.ring.frames.length ≤ base + s.returned.length) :
    s.unread base = [] := by
  rw [ReaderRun.unread, List.drop_eq_nil_iff, List.length_reverse]
  exact h

/-- The last unread frame is the newest. -/
theorem ReaderRun.unread_cases (base : ℕ) (s : ReaderRun) :
    s.unread base = [] ∨ ∃ u n, s.unread base = u ++ [n] ∧ s.ring.frames.head? = some n := by
  rw [ReaderRun.unread]
  cases hfr : s.ring.frames with
  | nil => exact Or.inl List.drop_nil
  | cons n older =>
    by_cases hle : base + s.returned.length ≤ older.length
    · refine Or.inr ⟨older.reverse.drop (base + s.returned.length), n, ?_, rfl⟩
      rw [List.reverse_cons, List.drop_append_of_le_length (by simpa using hle)]
    · left
      rw [← hfr]
      apply s.unread_eq_nil
      rw [hfr, List.length_cons]
      omega

section Write

variable {r : ShmRing} {u : List FrameRecord} {a : ℕ}

/-- When the writer goes back to the start, the unread frames lie in one piece below the cursor. -/
theorem Span.straight_of_restart (sp : Span N M m u a r.writer.uiFramePos)
    (hfit : totalSize (u ++ [g]) + 52 + (M + 92) ≤ N) (hlen : g.len ≤ M)
    (htop : N ≤ r.writer.uiFramePos + 44 + alignedLen g.len) :
    Contiguous a u r.writer.uiFramePos := by
  have hle : alignedLen g.len < M + 4 :=
    (alignedLen_lt _).trans_le (Nat.add_le_add_right hlen 4)
  cases sp with
  | straight hc => exact hc
  | wrapped up lo e split high low gap top fits parked =>
    have h₁ := high.size
    have h₂ := low.size
    have h₃ : totalSize (u ++ [g]) = totalSize up + totalSize lo + (44 + alignedLen g.len) := by
      rw [totalSize_append, split, totalSize_append]
      simp [totalSize]
    omega

/-- What a frame that is not hit keeps, apart from a patched link. -/
theorem Appended.bytes_kept (acc : Appended N M r c g m) (hno : ¬ g.Overwrites f)
    (hstart : 52 ≤ f.pos) {x : ℕ} (h₁ : f.pos ≤ x) (h₂ : x < f.endPos)
    (hlink : m = r.bytes ∨ x < headNewestFramePos r.bytes + 8
      ∨ headNewestFramePos r.bytes + 12 ≤ x) :
    (r.write c).bytes x = r.bytes x := by
  have hgl := g.pos_lt_endPos
  refine acc.bytes_outside (by omega) ?_ ?_ hlink
  · by_contra hc
    exact hno (Or.inl ⟨by omega, by omega⟩)
  · by_contra hc
    exact hno (Or.inr ⟨by omega, by rw [shmSizeOfFrameHead_eq]; omega⟩)

/-- After an accepted call the unread frames are in memory and lead to the new frame. -/
theorem Appended.unread_kept (acc : Appended N M r c g m) (inv : RingEnd N M r) (hN : M + 143 < N)
    (sp : Span N M r.bytes u a r.writer.uiFramePos)
    (hfit : totalSize (u ++ [g]) + 52 + (M + 92) ≤ N)
    (hlast : u = [] ∨ ∃ us n, u = us ++ [n] ∧ r.frames.head? = some n)
    (held : ∀ f ∈ u, f.HeldIn r.bytes ∧ f.WellPlaced N M)
    (linked : Linked r.bytes u r.writer.uiFramePos) :
    (∀ f ∈ u, f.HeldIn (r.write c).bytes) ∧ Linked (r.write c).bytes u g.pos := by
  have hno : ∀ f ∈ u, ¬ g.Overwrites f := fun f hf => sp.not_overwrites inv hN acc hfit hf
  have hmagic := acc.magic inv hN
  rcases acc.patched with ⟨hm, hpos⟩ | ⟨hm, hpos, htop⟩
  · -- the writer goes on at the cursor and patches nothing
    have hkept : ∀ f ∈ u, ∀ x, f.pos ≤ x → x < f.endPos → (r.write c).bytes x = r.bytes x :=
      fun f hf x h₁ h₂ => acc.bytes_kept (hno f hf) (held f hf).2.start_le h₁ h₂ (Or.inl hm)
    refine ⟨fun f hf => (held f hf).1.congr hmagic fun x h₁ h₂ _ => hkept f hf x h₁ h₂, ?_⟩
    rw [hpos]
    refine linked.congr fun f hf => load32_congr fun x h₁ h₂ => hkept f hf x (by omega) ?_
    have := f.pos_lt_endPos
    omega
  · -- the writer goes back to the start, where the link of the newest frame now leads
    rcases hlast with rfl | ⟨us, n, rfl, hhead⟩
    · exact ⟨fun f hf => absurd hf List.not_mem_nil, trivial⟩
    have hnewest : headNewestFramePos r.bytes = n.pos := by
      rw [inv.newestPos, hhead]
      rfl
    have hn : n ∈ us ++ [n] := List.mem_append_right us List.mem_cons_self
    have hnl := n.pos_lt_endPos
    have hstart := (held n hn).2.start_le
    obtain ⟨hbelow, -⟩ :=
      Contiguous.append_iff.mp (sp.straight_of_restart hfit acc.len_le htop)
    have hkept : ∀ f ∈ us, ∀ x, f.pos ≤ x → x < f.endPos → (r.write c).bytes x = r.bytes x := by
      intro f hf x h₁ h₂
      have hmem := List.mem_append_left [n] hf
      have hb := (hbelow.bounds hf).2
      have hend := f.endPos_le
      exact acc.bytes_kept (hno f hmem) (held f hmem).2.start_le h₁ h₂ (by omega)
    have hkeptn : ∀ x, n.pos ≤ x → x < n.endPos → x < n.pos + 8 ∨ n.pos + 12 ≤ x →
        (r.write c).bytes x = r.bytes x :=
      fun x h₁ h₂ h₃ => acc.bytes_kept (hno n hn) hstart h₁ h₂ (by omega)
    refine ⟨fun f hf => ?_, Linked.append_iff.mpr ⟨?_, ?_⟩⟩
    · rcases List.mem_append.mp hf with hus | hlast
      · exact (held f hf).1.congr hmagic fun x h₁ h₂ _ => hkept f hus x h₁ h₂
      · obtain rfl := List.mem_singleton.mp hlast
        exact (held f hf).1.congr hmagic hkeptn
    · refine (Linked.append_iff.mp linked).1.congr fun f hf => load32_congr fun x h₁ h₂ => ?_
      have := f.pos_lt_endPos
      exact hkept f hf x (by omega) (by omega)
    · rw [acc.stored.nextPos_kept (hno n hn) hstart, hm, hnewest, hpos]
      exact load32_store32 _ _ (by omega)

end Write

theorem WindowInv.write {last : ℕ} (inv : WindowInv N M base last s) (hN : M + 143 < N)
    (hN' : N < 2147483648) (c : WriteCall) (hkeep : KeepsUp N M base (s.step (.write c))) :
    WindowInv N M base last (s.step (.write c)) := by
  rcases inv.ring.write_cases hN hN' c with hsame | ⟨g, m, acc⟩
  · have hs : s.step (.write c) = s := by
      rw [ReaderRun.step, hsame]
    rw [hs]
    exact inv
  · obtain ⟨hunread, hgiven, hreturned⟩ := s.write_appends inv.given inv.returned acc.frames
    have hfit : totalSize (s.unread base ++ [g]) + 52 + (M + 92) ≤ N := by
      rw [KeepsUp, hunread, shmSizeOfShmHead_eq, shmSizeOfFrameHead_eq] at hkeep
      omega
    have hring := acc.ringEnd inv.ring hN hN'
    obtain ⟨hheld, hlinked⟩ := acc.unread_kept inv.ring hN inv.span hfit (s.unread_cases base)
      inv.held inv.linked
    exact {
      ring := hring
      frames := by
        show (s.ring.write c).frames ≠ []
        rw [acc.frames]
        exact List.cons_ne_nil g _
      given := hgiven
      returned := hreturned
      last_lt := inv.last_lt
      seq := inv.seq
      numbered := by
        rw [hunread]
        show Numbered last (s.unread base ++ [g]) (s.ring.write c).writer.uiFrameSeq
        rw [acc.sequence]
        exact inv.numbered.append acc.seq
      start_le := inv.start_le
      held := by
        intro f hf
        rw [hunread, List.mem_append, List.mem_singleton] at hf
        rcases hf with hf | rfl
        · exact ⟨hheld f hf, (inv.held f hf).2⟩
        · exact ⟨acc.heldIn inv.ring hN hN', acc.wellPlaced inv.ring hN⟩
      linked := by
        rw [hunread]
        show Linked (s.ring.write c).bytes (s.unread base ++ [g]) (s.ring.write c).writer.uiFramePos
        rw [acc.cursor]
        exact Linked.append_iff.mpr ⟨hlinked, acc.stored.nextPos⟩
      span := by
        rw [hunread]
        simp only [ReaderRun.step, acc.cursor]
        exact inv.span.write inv.ring hN acc hfit }

/-! ## One read -/

section Read

variable {last : ℕ} {rest : List FrameRecord}

theorem WindowInv.newest_ne_zero (inv : WindowInv N M base last s) :
    headNewestFrameSeq s.ring.bytes ≠ 0 := by
  have := inv.ring.sequence inv.frames
  rw [inv.ring.newestSeq]
  omega

/-- Up to date and beside the wrap, the reader is told that there is no new frame. -/
theorem WindowInv.read_nothing (inv : WindowInv N M base last s) (hu : s.unread base = [])
    (hseq : s.info.uiSeq ≠ 0) (bufLen : ℤ) :
    ShmRead.readFrame s.ring.bytes true bufLen s.info = (shmEnumNoNewFrame, none, s.info) := by
  have hlast := inv.numbered
  rw [hu] at hlast
  obtain rfl : last = s.ring.writer.uiFrameSeq := hlast
  have hfollow := inv.seq
  rcases sequence_cases inv.last_lt with ⟨hf, -⟩ | ⟨-, hf, -⟩
  · exact readFrame_noNewFrame inv.newest_ne_zero
      (by rw [hfollow, hf, inv.ring.newestSeq]) true bufLen
  · exact absurd (hfollow.trans hf) hseq

/-- At the wrap it is not. -/
theorem WindowInv.read_nothing_wrap (inv : WindowInv N M base last s) (hseq : s.info.uiSeq = 0)
    (bufLen : ℤ) :
    (ShmRead.readFrame s.ring.bytes true bufLen s.info).1 ≠ shmEnumNoNewFrame := by
  rw [ShmRead.readFrame, if_neg (by simp [ShmRead.isEmpty, inv.newest_ne_zero]),
    if_neg (by rw [hseq]; exact Nat.not_lt_zero _)]
  dsimp only
  split_ifs <;>
    simp [shmEnumFrameTooLarge, shmEnumGetANewFrame, shmEnumError, shmEnumNoNewFrame]

/-- Beside the wrap the check sends the reader to the next frame. -/
theorem WindowInv.position (inv : WindowInv N M base last s) (hu : s.unread base = f :: rest)
    (hframe : s.info.uiSeq = 0 → IsFrame s.ring.bytes s.info.uiPos) :
    ShmRead.checkOverflowed s.ring.bytes s.info = f.pos := by
  have hheld := (inv.held f (hu ▸ List.mem_cons_self)).1
  have hsp := inv.span
  have hnum := inv.numbered
  rw [hu] at hsp hnum
  rcases sequence_cases inv.last_lt with ⟨hf, hn⟩ | ⟨-, hf, -⟩
  · exact hsp.position hheld inv.start_le (by rw [inv.seq, hf, hnum.1, hn])
  · have hpos : f.pos = s.info.uiPos :=
      hsp.first.resolve_right fun h => h.2 (hframe (inv.seq.trans hf))
    rw [hpos]
    exact checkOverflowed_of_isFrame (hpos ▸ hheld.magic)

theorem WindowInv.read (inv : WindowInv N M base last s) (hu : s.unread base = f :: rest)
    (hseq : s.info.uiSeq ≤ headNewestFrameSeq s.ring.bytes)
    (hframe : s.info.uiSeq = 0 → IsFrame s.ring.bytes s.info.uiPos) {bufLen : ℤ}
    (hbuf : (M : ℤ) ≤ bufLen) :
    ShmRead.readFrame s.ring.bytes true bufLen s.info
      = (shmEnumGetANewFrame, some f.data,
        ⟨frameNextPos s.ring.bytes f.pos, followSequence f.seq⟩) := by
  obtain ⟨hheld, hplaced⟩ := inv.held f (hu ▸ List.mem_cons_self)
  have hlen : (f.len : ℤ) ≤ M := by exact_mod_cast hplaced.len_le
  have hmax : (f.len : ℤ) ≤ headMaxFrameSize s.ring.bytes := by
    rw [show headMaxFrameSize s.ring.bytes = M from inv.ring.writer.maxFrameSize]
    exact hlen
  rw [hheld.readFrame inv.newest_ne_zero hseq (inv.position hu hframe) hmax (hlen.trans hbuf) true,
    ← hheld.seq]
  rfl

/-- A read that is answered rightly, of a frame, has gone by the numbers. -/
theorem WindowInv.beside_of_read (inv : WindowInv N M base last s) (hu : s.unread base = f :: rest)
    {bufLen : ℤ}
    (h : (ShmRead.readFrame s.ring.bytes true bufLen s.info).1 = shmEnumGetANewFrame) :
    s.info.uiSeq ≤ headNewestFrameSeq s.ring.bytes
      ∧ (s.info.uiSeq = 0 → IsFrame s.ring.bytes s.info.uiPos) := by
  have hle : s.info.uiSeq ≤ headNewestFrameSeq s.ring.bytes := by
    by_contra hlt
    rw [ShmRead.readFrame, if_neg (by simp [ShmRead.isEmpty, inv.newest_ne_zero]),
      if_pos (not_le.mp hlt)] at h
    split_ifs at h
    · exact absurd h (by decide : shmEnumError ≠ shmEnumGetANewFrame)
    · exact absurd h (by decide : shmEnumNoNewFrame ≠ shmEnumGetANewFrame)
  refine ⟨hle, fun hzero => ?_⟩
  have hheld := (inv.held f (hu ▸ List.mem_cons_self)).1
  have hsp := inv.span
  have hnum := inv.numbered
  rw [hu] at hsp hnum
  rcases hsp.first with hpos | ⟨hpos, hno⟩
  · exact hpos ▸ hheld.magic
  · -- parked with number `0`, the reader is not sent to frame `1` at the start
    exfalso
    have hne : f.seq ≠ 0 := by
      rw [hnum.1]
      have := WriterInv.nextSequence_bounds inv.last_lt
      omega
    have hstay : ShmRead.checkOverflowed s.ring.bytes s.info = s.info.uiPos := by
      refine checkOverflowed_lost ?_
      rw [hzero, ← hpos, hheld.seq]
      exact hne.symm
    have herr := readFrame_error inv.newest_ne_zero hle (hstay.symm ▸ hno) true bufLen
    rw [herr] at h
    exact absurd h (by decide : shmEnumError ≠ shmEnumGetANewFrame)

/-- **One read.**  It is answered as it should be exactly beside the wrap. -/
theorem WindowInv.answers_iff (inv : WindowInv N M base last s) {e : ShmEvent}
    (hbuf : ∀ bufLen, e = .read bufLen → (M : ℤ) ≤ bufLen) :
    s.Answers base e ↔ s.BesideWrap base e := by
  refine forall_congr' fun bufLen => imp_congr_right fun he => ?_
  cases hu : s.unread base with
  | nil =>
    rw [if_pos rfl]
    constructor
    · exact fun h hzero => inv.read_nothing_wrap hzero bufLen h
    · exact fun hne => congrArg Prod.fst (inv.read_nothing hu hne bufLen)
  | cons f rest =>
    rw [if_neg (List.cons_ne_nil f rest)]
    constructor
    · exact fun h => inv.beside_of_read hu h.1
    · intro h
      have hread := inv.read hu h.1 h.2 (hbuf bufLen he)
      exact ⟨congrArg Prod.fst hread, congrArg (fun x => x.2.1) hread⟩

end Read

/-! ## Runs -/

/-- A read beside the wrap keeps the invariant. -/
theorem WindowInv.step {last : ℕ} (inv : WindowInv N M base last s) (hN : M + 143 < N)
    (hN' : N < 2147483648) {e : ShmEvent} (hkeep : s.KeepsUpOver N M base e)
    (hbeside : s.BesideWrap base e) : ∃ last', WindowInv N M base last' (s.step e) := by
  cases e with
  | write c => exact ⟨last, inv.write hN hN' c hkeep.1⟩
  | read bufLen =>
    have hbeside := hbeside bufLen rfl
    cases hu : s.unread base with
    | nil =>
      rw [if_pos hu] at hbeside
      refine ⟨last, ?_⟩
      have hs : s.step (.read bufLen) = s := by
        simp [ReaderRun.step, inv.read_nothing hu hbeside]
      rw [hs]
      exact inv
    | cons f rest =>
      rw [if_neg (by rw [hu]; exact List.cons_ne_nil f rest)] at hbeside
      have hread := inv.read hu hbeside.1 hbeside.2 (hkeep.2 bufLen rfl)
      obtain ⟨hunread, hgiven, hreturned⟩ := s.read_delivers inv.returned hu hread
      have hnum := inv.numbered
      have hlinked := inv.linked
      have hsp := inv.span
      rw [hu] at hnum hlinked hsp
      have hf := inv.held f (hu ▸ List.mem_cons_self)
      have hheld : ∀ g ∈ rest, g.HeldIn s.ring.bytes ∧ g.WellPlaced N M := fun g hg =>
        inv.held g (hu ▸ List.mem_cons_of_mem f hg)
      have hspan : Span N M s.ring.bytes rest (frameNextPos s.ring.bytes f.pos)
          s.ring.writer.uiFramePos := by
        refine hsp.next (fun hnil => ?_) fun g gs hcons => ?_
        · rw [hlinked.1, hnil]
          rfl
        · rw [hlinked.1, hcons]
          rfl
      have hbounds := WriterInv.nextSequence_bounds inv.last_lt
      exact ⟨f.seq, {
        ring := inv.ring
        frames := inv.frames
        given := hgiven
        returned := hreturned
        last_lt := by
          rw [hnum.1]
          exact hbounds.2
        seq := by simp only [ReaderRun.step, hread]
        numbered := by
          rw [hunread]
          exact hnum.2
        start_le := by
          simp only [ReaderRun.step, hread]
          exact hspan.start_le inv.ring.writer.cursor.start_le fun g hg => (hheld g hg).2.start_le
        held := by
          rw [hunread]
          exact hheld
        linked := by
          rw [hunread]
          exact hlinked.2
        span := by
          rw [hunread]
          simp only [ReaderRun.step, hread]
          exact hspan }⟩

theorem windowInv_caughtUp {r : ShmRing} (inv : RingEnd N M r) (hne : r.frames ≠ []) :
    WindowInv N M r.frames.length r.writer.uiFrameSeq (ReaderRun.caughtUp r) := by
  obtain ⟨n, older, hfr⟩ := List.exists_cons_of_ne_nil hne
  have hhead : r.frames.head? = some n := by rw [hfr]; rfl
  have hpos : headNewestFramePos r.bytes = n.pos := by rw [inv.newestPos, hhead]; rfl
  have hcur : r.writer.uiFramePos = n.slot := by rw [inv.cursor, hhead]; rfl
  obtain ⟨hheld, hseq⟩ := inv.held n hhead
  have hplaced := inv.placed n hhead
  have hsequence := inv.sequence hne
  have hmax : (n.len : ℤ) ≤ headMaxFrameSize r.bytes := by
    rw [show headMaxFrameSize r.bytes = M from inv.writer.maxFrameSize]
    exact_mod_cast hplaced.len_le
  -- the reader has read the newest frame, and goes on where it links to
  have hinfo : (ReaderRun.caughtUp r).info = ⟨n.slot, followSequence r.writer.uiFrameSeq⟩ := by
    have hcheck : ShmRead.checkOverflowed r.bytes (ShmRead.refresh r.bytes).2 = n.pos := by
      rw [ShmRead.refresh, hpos]
      exact checkOverflowed_of_isFrame hheld.magic
    have hread := hheld.readFrame (by rw [inv.newestSeq]; omega) le_rfl hcheck hmax hmax true
    simp only [ReaderRun.caughtUp, ReaderRun.start, ReaderRun.step, hread]
    rw [← hseq, ← hheld.seq, ← inv.link n hhead]
    rfl
  have hunread : (ReaderRun.caughtUp r).unread r.frames.length = [] :=
    ReaderRun.unread_eq_nil le_rfl
  exact {
    ring := inv
    frames := hne
    given := le_rfl
    returned := rfl
    last_lt := inv.writer.sequence
    seq := congrArg ShmInfo.uiSeq hinfo
    numbered := by
      rw [hunread]
      rfl
    start_le := by
      rw [hinfo, ← hcur]
      exact inv.writer.cursor.start_le
    held := by
      rw [hunread]
      exact fun f hf => absurd hf List.not_mem_nil
    linked := by
      rw [hunread]
      trivial
    span := by
      rw [hunread, hinfo, ← hcur]
      exact .straight rfl }

/-- **The wrap of the sequence number.**  In every run of a reader that had read everything and
keeps up, all reads are answered as they should be, and the frames handed out are those written
since, in order and each once, exactly if every read is beside the wrap. -/
theorem sequence_wrap_iff (old : Mem) (pcHeaderInfo : ℕ → UInt8) {iShmSize iMaxFrameSize : ℕ}
    (hsize : shmSizeOfShmHead + iMaxFrameSize + 2 * shmSizeOfFrameHead + 3 < iShmSize)
    (hint : iShmSize < 2 ^ 31) (calls : List WriteCall) (es : List ShmEvent) :
    let r := (ShmRing.create old iShmSize iMaxFrameSize pcHeaderInfo).run calls
    let base := r.frames.length
    let s := (ReaderRun.caughtUp r).run es
    r.frames ≠ [] →
    Guarded ReaderRun.step (ReaderRun.KeepsUpOver iShmSize iMaxFrameSize base)
      (ReaderRun.caughtUp r) es →
    ((Guarded ReaderRun.step (ReaderRun.Answers base) (ReaderRun.caughtUp r) es
        ∧ s.returned
          = ((s.ring.frames.reverse.drop base).take s.returned.length).map FrameRecord.data)
      ↔ Guarded ReaderRun.step (ReaderRun.BesideWrap base) (ReaderRun.caughtUp r) es) := by
  intro r base s hne hkeep
  simp only [shmSizeOfShmHead_eq, shmSizeOfFrameHead_eq] at hsize
  have hN : iMaxFrameSize + 143 < iShmSize := by omega
  have hstart : ∃ last, WindowInv iShmSize iMaxFrameSize base last (ReaderRun.caughtUp r) :=
    ⟨_, windowInv_caughtUp (ringEnd_run old pcHeaderInfo hN (by omega) calls) hne⟩
  have hstep : ∀ t e, (∃ last, WindowInv iShmSize iMaxFrameSize base last t) →
      t.KeepsUpOver iShmSize iMaxFrameSize base e → t.BesideWrap base e →
      ∃ last, WindowInv iShmSize iMaxFrameSize base last (t.step e) :=
    fun t e ⟨last, inv⟩ hk hb => inv.step hN (by omega) hk hb
  have hiff := hkeep.congr hstep (fun t e ⟨last, inv⟩ hk => inv.answers_iff (e := e) hk.2) hstart
  rw [hiff]
  refine and_iff_left_of_imp fun hbeside => ?_
  obtain ⟨last, inv⟩ := (hkeep.and hbeside).invariant
    (fun t e ht h => hstep t e ht h.1 h.2) hstart
  exact inv.returned

/-- A reader that keeps up over a restart of the writer. -/
theorem sequence_wrap_small :
    let call : WriteCall := ⟨fun i => UInt8.ofNat i, 90, fun _ => 7⟩
    let es := [.write call, .read 100, .write call, .write call, .read 100, .read 100, .read 100]
    let r := (ShmRing.create (fun _ => 0) 600 100 (fun _ => 0)).run [call]
    let s := (ReaderRun.caughtUp r).run es
    (Guarded ReaderRun.step (ReaderRun.Answers 1) (ReaderRun.caughtUp r) es
        ∧ s.returned
          = ((s.ring.frames.reverse.drop 1).take s.returned.length).map FrameRecord.data)
      ↔ Guarded ReaderRun.step (ReaderRun.BesideWrap 1) (ReaderRun.caughtUp r) es := by
  intro call es
  refine @sequence_wrap_iff (fun _ => 0) (fun _ => 0) 600 100 (by decide) (by decide) [call] es
    (by decide +kernel) ?_
  refine ⟨⟨by decide +kernel, ?_⟩, ⟨by decide +kernel, ?_⟩, ⟨by decide +kernel, ?_⟩,
    ⟨by decide +kernel, ?_⟩, ⟨by decide +kernel, ?_⟩, ⟨by decide +kernel, ?_⟩,
    ⟨by decide +kernel, ?_⟩, trivial⟩ <;> rintro bufLen ⟨⟩ <;> decide

/-! ## At the wrap -/

section AtWrap

variable {r : ShmRing} (inv : RingInv N M r) (hN : M + 143 < N)
  (hlen : r.frames.length = 4294967294)

include hlen

theorem frames_ne_nil_at_wrap : r.frames ≠ [] := by
  rw [← List.length_pos_iff, hlen]
  exact Nat.zero_lt_succ _

include inv hN

/-- A reader that has been given frame `2 ^ 32 - 2`, the newest one, is reset by the next read. -/
theorem read_at_wrap (bufLen : ℤ) :
    ShmRead.readFrame r.bytes true bufLen (ReaderRun.caughtUp r).info
      = (shmEnumError, none, ShmInfo.initial) := by
  have win := windowInv_caughtUp (inv.ringEnd hN (by rw [hlen]; norm_num))
    (frames_ne_nil_at_wrap hlen)
  have hseq : (ReaderRun.caughtUp r).info.uiSeq = 0 := by
    rw [win.seq, inv.sequence, hlen]
    decide
  have hpos : (ReaderRun.caughtUp r).info.uiPos = r.writer.uiFramePos := by
    have hsp := win.span
    have hunread : (ReaderRun.caughtUp r).unread r.frames.length = [] :=
      ReaderRun.unread_eq_nil le_rfl
    rw [hunread] at hsp
    cases hsp with
    | straight hc => exact hc
    | wrapped up lo e split high low gap top fits parked =>
      obtain ⟨hup, hlo⟩ := List.append_eq_nil_iff.mp split.symm
      exact absurd hlo (parked hup).1
  have hstay : ShmRead.checkOverflowed r.bytes (ReaderRun.caughtUp r).info
      = r.writer.uiFramePos := by
    rcases inv.layout.start hN with hcur | ⟨f, hf, hstart⟩
    · rw [ShmRead.checkOverflowed, hpos, hcur]
      split_ifs <;> rfl
    · have hfseq := (inv.held f hf).seq
      have hrange := inv.layout.seq_range (inv.mem_frames hf)
      rw [hstart] at hfseq
      rw [checkOverflowed_lost (by rw [hseq, hfseq]; omega), hpos]
  refine readFrame_error ?_ (by rw [hseq]; exact Nat.zero_le _) ?_ true bufLen
  · exact win.newest_ne_zero
  · rw [hstay]
    exact inv.not_isFrame_cursor

theorem not_answers_at_wrap (bufLen : ℤ) :
    ¬ Guarded ReaderRun.step (ReaderRun.Answers r.frames.length) (ReaderRun.caughtUp r)
      [.read bufLen] := by
  intro h
  have hanswer := h.1 bufLen rfl
  have hunread : (ReaderRun.caughtUp r).unread r.frames.length = [] :=
    ReaderRun.unread_eq_nil le_rfl
  rw [hunread] at hanswer
  have hcode : shmEnumError = shmEnumNoNewFrame :=
    (congrArg Prod.fst (read_at_wrap inv hN hlen bufLen)).symm.trans hanswer
  exact absurd hcode (by decide)

end AtWrap

/-- With nothing unread the reader keeps up over a read. -/
theorem keepsUpOver_read {r : ShmRing} (hN : M + 143 < N) :
    Guarded ReaderRun.step (ReaderRun.KeepsUpOver N M r.frames.length) (ReaderRun.caughtUp r)
      [.read M] := by
  refine ⟨⟨?_, ?_⟩, trivial⟩
  · have hunread : ((ReaderRun.caughtUp r).step (.read M)).unread r.frames.length = [] :=
      ReaderRun.unread_eq_nil (Nat.le_add_right _ _)
    rw [KeepsUp, hunread]
    simp only [totalSize, List.map_nil, List.sum_nil, shmSizeOfShmHead_eq, shmSizeOfFrameHead_eq]
    omega
  · rintro bufLen ⟨⟩
    exact le_rfl

/-- With frames of 100 bytes in a segment of 500 bytes: after `2 ^ 32 - 2` of them the reader is not
told that there is no new frame. -/
theorem sequence_wrap_noticed :
    ∃ calls : List WriteCall,
      let r := (ShmRing.create (fun _ => 0) 500 100 (fun _ => 0)).run calls
      r.frames ≠ []
        ∧ Guarded ReaderRun.step (ReaderRun.KeepsUpOver 500 100 r.frames.length)
          (ReaderRun.caughtUp r) [.read (100 : ℕ)]
        ∧ ShmRead.readFrame r.bytes true (100 : ℕ) (ReaderRun.caughtUp r).info
          = (shmEnumError, none, ShmInfo.initial)
        ∧ ¬ Guarded ReaderRun.step (ReaderRun.Answers r.frames.length)
          (ReaderRun.caughtUp r) [.read (100 : ℕ)] := by
  have hlen := @length_run_replicate 500 100 ⟨fun _ => 0, 100, fun _ => 0⟩ (fun _ => 0)
    (fun _ => 0) (by decide) (by decide) (by decide) (by decide) 4294967294
  have inv : RingInv 500 100 _ := @ringInv_run (fun _ => 0) (fun _ => 0) 500 100 (by decide)
    (by decide) (List.replicate 4294967294 ⟨fun _ => 0, 100, fun _ => 0⟩) (hlen.trans_lt (by norm_num))
  exact ⟨_, frames_ne_nil_at_wrap hlen, keepsUpOver_read (by decide),
    read_at_wrap inv (by decide) hlen _, not_answers_at_wrap inv (by decide) hlen _⟩
