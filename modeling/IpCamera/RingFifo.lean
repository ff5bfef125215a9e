/-
# Delivery to a reader that keeps up

One writer and one reader ID, each call a transition (`ReaderRun.step`).  As long
as the frames the reader has not read fit into the part of the segment the
writer cannot reach (`KeepsUp`), reading is exactly first in, first out.

The invariant is `Span`: the unread frames lie end to end from the reader's
position to the cursor, either in one piece, or in two when the writer has gone
back to the start.  In the second case the reader may be parked on a slot the
writer skipped; the slot is then still clear, which is what the overflow check
relies on.
-/
import IpCamera.RingEnd

/-! ## Runs of a writer and a reader -/

/-- A call of the writer, or of the reader with its buffer size. -/
inductive ShmEvent
  | write (c : WriteCall)
  | read (bufLen : ℤ)

/-- The ring, the reader's position and the frames returned to it so far. -/
structure ReaderRun where
  ring : ShmRing
  info : ShmInfo
  returned : List FrameData

namespace ReaderRun

/-- One `WriteFrame` or `ReadFrame` call. -/
def step (s : ReaderRun) : ShmEvent → ReaderRun
  | .write c => { s with ring := s.ring.write c }
  | .read bufLen =>
      let (_, data, info) := ShmRead.readFrame s.ring.bytes true bufLen s.info
      { s with info := info, returned := s.returned ++ data.toList }

def run (s : ReaderRun) (es : List ShmEvent) : ReaderRun := es.foldl step s

/-- A reader just refreshed to the newest frame. -/
def start (r : ShmRing) : ReaderRun := ⟨r, (ShmRead.refresh r.bytes).2, []⟩

/-- The frames from number `base + 1` on that have not been returned, oldest first. -/
def unread (base : ℕ) (s : ReaderRun) : List FrameRecord :=
  s.ring.frames.reverse.drop (base + s.returned.length)

end ReaderRun

/-- The bytes frames take up: a head each, and the length rounded up. -/
def totalSize (fs : List FrameRecord) : ℕ :=
  (fs.map fun f => shmSizeOfFrameHead + alignedLen f.len).sum

/-- The unread frames fit beside one more frame of the maximum size. -/
def KeepsUp (N M base : ℕ) (s : ReaderRun) : Prop :=
  totalSize (s.unread base) + shmSizeOfShmHead + (M + 2 * shmSizeOfFrameHead + 4) ≤ N

/-! ## Frames end to end -/

/-- The frames lie end to end from `a` to `e`. -/
def Contiguous : ℕ → List FrameRecord → ℕ → Prop
  | a, [], e => a = e
  | a, f :: fs, e => f.pos = a ∧ Contiguous f.finish fs e

theorem Contiguous.append {a e : ℕ} {fs : List FrameRecord} {g : FrameRecord}
    (h : Contiguous a fs e) (hg : g.pos = e) : Contiguous a (fs ++ [g]) g.finish := by
  induction fs generalizing a with
  | nil => exact ⟨hg.trans h.symm, rfl⟩
  | cons f fs ih => exact ⟨h.1, ih h.2⟩

theorem Contiguous.size {a e : ℕ} {fs : List FrameRecord} (h : Contiguous a fs e) :
    a + totalSize fs = e := by
  induction fs generalizing a with
  | nil =>
      have : a = e := h
      simpa [totalSize] using this
  | cons f fs ih =>
      have h₁ := h.1
      have h₂ := ih h.2
      simp only [totalSize, FrameRecord.finish, List.map_cons, List.sum_cons,
        shmSizeOfFrameHead_eq] at h₂ ⊢
      omega

theorem Contiguous.bounds {a e : ℕ} {fs : List FrameRecord} (h : Contiguous a fs e)
    {f : FrameRecord} (hf : f ∈ fs) : a ≤ f.pos ∧ f.finish ≤ e := by
  induction fs generalizing a with
  | nil => cases hf
  | cons g fs ih =>
      have h₁ := h.1
      have h₂ := h.2.size
      have h₃ : g.finish = g.pos + 44 + alignedLen g.len := rfl
      rcases List.mem_cons.mp hf with rfl | hf
      · omega
      · have := ih h.2 hf
        omega

theorem totalSize_append (fs gs : List FrameRecord) :
    totalSize (fs ++ gs) = totalSize fs + totalSize gs := by
  simp [totalSize]

/-- The unread frames `u` lie between the reader's position `a` and the cursor. -/
inductive Span (N M : ℕ) (m : Mem) (u : List FrameRecord) (a cursor : ℕ) : Prop
  | straight (h : Contiguous a u cursor)
  /-- The writer went back to the start at `e`, after the frames `up`.  If these
  have all been read, the reader is parked on the clear slot at `e`. -/
  | wrapped (up lo : List FrameRecord) (e : ℕ) (split : u = up ++ lo) (high : Contiguous a up e)
      (low : Contiguous 52 lo cursor) (gap : cursor + 44 ≤ a) (top : N ≤ e + M + 47) (fits : e < N)
      (parked : up = [] → lo ≠ [] ∧ ¬ IsFrame m a)

variable {N M base : ℕ}

/-- The invariant of a reader that keeps up. -/
structure FifoInv (N M base : ℕ) (s : ReaderRun) : Prop where
  inv : RingInv N M s.ring
  given : base + s.returned.length ≤ s.ring.frames.length
  returned : s.returned
    = ((s.ring.frames.reverse.drop base).take s.returned.length).map FrameRecord.data
  seq : s.info.uiSeq = base + s.returned.length + 1
  start_le : 52 ≤ s.info.uiPos
  intact : ∀ f ∈ s.unread base, f ∈ s.ring.intact
  span : Span N M s.ring.bytes (s.unread base) s.info.uiPos s.ring.writer.uiFramePos

/-! ## The unread frames -/

theorem Layout.seq_of_drop {h : List FrameRecord} {cursor k : ℕ} (l : Layout N M h cursor)
    {f : FrameRecord} {rest : List FrameRecord} (hd : h.reverse.drop k = f :: rest) :
    f.seq = k + 1 ∧ f ∈ h ∧ h.reverse.drop (k + 1) = rest := by
  have hm : (h.reverse.map FrameRecord.seq).drop k = f.seq :: rest.map FrameRecord.seq := by
    rw [← List.map_drop, hd, List.map_cons]
  rw [List.map_reverse, l.map_seq, List.reverse_reverse, List.drop_range'] at hm
  have hf : f ∈ h := List.mem_reverse.mp (List.mem_of_mem_drop (hd ▸ List.mem_cons_self))
  have hk : k < h.length := by
    by_contra hc
    rw [List.drop_eq_nil_of_le (by simpa using hc)] at hd
    cases hd
  refine ⟨?_, hf, ?_⟩
  · obtain ⟨n, hn⟩ : ∃ n, h.length - k = n + 1 := ⟨h.length - k - 1, by omega⟩
    rw [hn, List.range'_succ] at hm
    have := (List.cons.inj hm).1
    omega
  · rw [← List.drop_drop, hd]
    rfl

/-! ## One write -/

variable {r : ShmRing} {c : WriteCall} {g : FrameRecord} {m : Mem} {u : List FrameRecord} {a : ℕ}

/-- A clear slot above everything the call stores to stays clear. -/
theorem Appended.parked (acc : Appended N M r c g m) (inv : RingEnd N M r) (hN : M + 143 < N)
    (h₁ : g.endPos ≤ a) (h₂ : g.slot + 44 ≤ a) (h₃ : m = r.bytes ∨ r.writer.uiFramePos ≤ a)
    (hno : ¬ IsFrame r.bytes a) : ¬ IsFrame (r.write c).bytes a := by
  have hgp := g.pos_lt_endPos
  have hst := (acc.wellPlaced inv hN).start_le
  have hword : frameMagic (r.write c).bytes a = frameMagic r.bytes a := by
    refine load32_congr fun x hx _ => ?_
    rw [acc.stored.unchanged x (by omega) (by
      simp only [FrameRecord.endPos, shmSizeOfFrameHead_eq] at h₁
      omega) (by omega)]
    rcases acc.patched with ⟨rfl, -⟩ | ⟨rfl, -, hr⟩
    · rfl
    · rcases h₃ with h₃ | h₃
      · rw [h₃]
      · have := inv.newest_below_cursor hN hr acc.len_le
        exact store32_outside _ _ _ (by omega)
  rw [IsFrame, hword, acc.magic inv hN]
  exact hno

/-- An accepted frame extends the span, if it still fits with the unread ones. -/
theorem Span.write (inv : RingEnd N M r) (hN : M + 143 < N) (acc : Appended N M r c g m)
    (sp : Span N M r.bytes u a r.writer.uiFramePos)
    (hfit : totalSize (u ++ [g]) + 52 + (M + 92) ≤ N) :
    Span N M (r.write c).bytes (u ++ [g]) a g.slot := by
  have hsize : totalSize (u ++ [g]) = totalSize u + (44 + alignedLen g.len) := by
    rw [totalSize_append]
    simp [totalSize]
  have hle : alignedLen g.len < M + 4 :=
    (alignedLen_lt _).trans_le (Nat.add_le_add_right acc.len_le 4)
  have hfin : g.finish = g.pos + 44 + alignedLen g.len := rfl
  have hend := g.endPos_le
  have hgw := acc.wellPlaced inv hN
  have hroom := inv.writer.cursor.2.2
  cases sp with
  | straight hc =>
      have hcs := hc.size
      rcases acc.patched with ⟨rfl, hcur⟩ | ⟨-, hstart, htop⟩
      · rcases hgw.slot with ⟨hs, -⟩ | ⟨hs, -, hs'⟩
        · rw [hs]
          exact .straight (hc.append hcur)
        · -- no head fits after the frame: everything unread is the upper piece
          exact .wrapped (u ++ [g]) [] g.finish (List.append_nil _).symm (hc.append hcur) hs.symm
            (by omega) (by omega) hgw.finish_lt (by simp)
      · -- the writer restarts: what was unread is the upper piece
        have hs : g.slot = g.finish := by
          rcases hgw.slot with hs | hs <;> omega
        refine .wrapped u [g] r.writer.uiFramePos rfl hc ⟨hstart, hs.symm⟩ (by omega)
          (by omega) (by omega) fun hu => ⟨by simp, ?_⟩
        subst hu
        have ha : a = r.writer.uiFramePos := hc
        refine acc.parked inv hN (by omega) (by omega) (.inr ha.ge) ?_
        rw [ha]
        exact inv.not_isFrame_cursor
  | wrapped up lo e split high low gap top fits parked =>
      have h₁ := high.size
      have h₂ := low.size
      have h₃ : totalSize u = totalSize up + totalSize lo := by rw [split, totalSize_append]
      -- the cursor is far below the unread frames, so the writer goes straight on
      have hfar : r.writer.uiFramePos + 44 + alignedLen g.len + 44 < a := by omega
      obtain ⟨hm, hcur⟩ := acc.patched.resolve_right (by rintro ⟨-, -, htop⟩; omega)
      have hs : g.slot = g.finish := by
        rcases hgw.slot with hs | hs <;> omega
      refine .wrapped up (lo ++ [g]) e (by rw [split, List.append_assoc]) high ?_ (by omega) top
        fits fun hup => ⟨by simp, acc.parked inv hN (by omega) (by omega) (.inl hm) (parked hup).2⟩
      rw [hs]
      exact low.append hcur

/-- No unread frame is hit by the accepted one. -/
theorem Span.not_overwrites (inv : RingEnd N M r) (hN : M + 143 < N) (acc : Appended N M r c g m)
    (sp : Span N M r.bytes u a r.writer.uiFramePos)
    (hfit : totalSize (u ++ [g]) + 52 + (M + 92) ≤ N) {f : FrameRecord} (hf : f ∈ u) :
    ¬ g.Overwrites f := by
  have hsize : totalSize (u ++ [g]) = totalSize u + (44 + alignedLen g.len) := by
    rw [totalSize_append]
    simp [totalSize]
  have hle : alignedLen g.len < M + 4 :=
    (alignedLen_lt _).trans_le (Nat.add_le_add_right acc.len_le 4)
  have hfin : g.finish = g.pos + 44 + alignedLen g.len := rfl
  have hend := g.endPos_le
  have hfend := f.endPos_le
  have hfpos := f.pos_lt_endPos
  have hgw := acc.wellPlaced inv hN
  have hroom := inv.writer.cursor.2.2
  simp only [FrameRecord.Overwrites, Overlap, shmSizeOfFrameHead_eq, not_or, not_and, not_lt]
  cases sp with
  | straight hc =>
      have hcs := hc.size
      have hb := hc.bounds hf
      rcases acc.patched with ⟨-, hcur⟩ | ⟨-, hstart, htop⟩
      · rcases hgw.slot with hs | hs <;> omega
      · rcases hgw.slot with hs | hs <;> omega
  | wrapped up lo e split high low gap top fits parked =>
      have h₁ := high.size
      have h₂ := low.size
      have h₃ : totalSize u = totalSize up + totalSize lo := by rw [split, totalSize_append]
      have hfar : r.writer.uiFramePos + 44 + alignedLen g.len + 44 < a := by omega
      obtain ⟨hm, hcur⟩ := acc.patched.resolve_right (by rintro ⟨-, -, htop⟩; omega)
      rw [split, List.mem_append] at hf
      rcases hf with hf | hf
      · have hb := high.bounds hf
        rcases hgw.slot with hs | hs <;> omega
      · have hb := low.bounds hf
        rcases hgw.slot with hs | hs <;> omega

/-! ## The reader's end of the span -/

variable {info : ShmInfo} {f : FrameRecord} {rest : List FrameRecord} {cursor : ℕ}

/-- The next frame is at the reader's position, or at the start with the reader parked. -/
theorem Span.first (sp : Span N M m (f :: rest) a cursor) :
    f.pos = a ∨ f.pos = 52 ∧ ¬ IsFrame m a := by
  cases sp with
  | straight hc => exact Or.inl hc.1
  | wrapped up lo e split high low gap top fits parked =>
      cases up with
      | nil =>
          obtain ⟨-, hno⟩ := parked rfl
          rw [List.nil_append] at split
          subst split
          exact Or.inr ⟨low.1, hno⟩
      | cons f' up =>
          obtain ⟨rfl, -⟩ := List.cons.inj split
          exact Or.inl high.1

/-- The check sends the reader there. -/
theorem Span.position (sp : Span N M m (f :: rest) info.uiPos cursor) (hh : f.HeldIn m)
    (hstart : 52 ≤ info.uiPos) (hseq : info.uiSeq = f.seq) :
    ShmRead.checkOverflowed m info = f.pos := by
  rcases sp.first with hpos | ⟨hpos, hno⟩
  · rw [hpos]
    exact checkOverflowed_of_isFrame (hpos ▸ hh.magic)
  · rw [hpos]
    refine checkOverflowed_parked (by omega) hno ?_
    rw [hseq, ← hpos]
    exact hh.seq.symm

theorem Span.start_le {u : List FrameRecord} (sp : Span N M m u a cursor) (hcur : 52 ≤ cursor)
    (hpos : ∀ g ∈ u, 52 ≤ g.pos) : 52 ≤ a := by
  cases sp with
  | straight hc =>
      cases u with
      | nil => exact hcur.trans_eq hc.symm
      | cons g gs => exact (hpos g List.mem_cons_self).trans_eq hc.1
  | wrapped up lo e split high low gap top fits parked => omega

/-- From the next frame the rest is reached by its link, which leads to the frame after it, or to
the cursor. -/
theorem Span.next {next : ℕ} (sp : Span N M m (f :: rest) a cursor) (hlast : rest = [] → next = cursor)
    (hnext : ∀ g gs, rest = g :: gs → next = g.pos) : Span N M m rest next cursor := by
  cases sp with
  | straight hc =>
      cases rest with
      | nil => exact .straight (hlast rfl)
      | cons g gs => exact .straight ⟨(hnext g gs rfl).symm, hc.2.2⟩
  | wrapped up lo e split high low gap top fits parked =>
      cases up with
      | nil =>
          -- the reader was parked: from now on the rest lies in one piece
          rw [List.nil_append] at split
          subst split
          cases rest with
          | nil => exact .straight (hlast rfl)
          | cons g gs => exact .straight ⟨(hnext g gs rfl).symm, low.2.2⟩
      | cons f' up =>
          have hrestsplit : rest = up ++ lo := (List.cons.inj split).2
          obtain rfl : f = f' := (List.cons.inj split).1
          cases up with
          | nil =>
              obtain rfl : rest = lo := hrestsplit
              cases rest with
              | nil => exact .straight (hlast rfl)
              | cons g gs => exact .straight ⟨(hnext g gs rfl).symm, low.2⟩
          | cons g up =>
              have hg := hnext g (up ++ lo) hrestsplit
              have hfin : f.finish = f.pos + 44 + alignedLen f.len := rfl
              have hpos := high.1
              have hgpos := high.2.1
              refine .wrapped (g :: up) lo e hrestsplit ?_ low (by omega) top fits (by simp)
              exact ⟨hg.symm, high.2.2⟩

/-! ## What has been returned -/

section Returned

variable {s : ReaderRun}

/-- An accepted frame is the last of the unread ones. -/
theorem ReaderRun.write_appends (hgiven : base + s.returned.length ≤ s.ring.frames.length)
    (hret : s.returned
      = ((s.ring.frames.reverse.drop base).take s.returned.length).map FrameRecord.data)
    (hframes : (s.ring.write c).frames = g :: s.ring.frames) :
    let s' := s.step (.write c)
    s'.unread base = s.unread base ++ [g]
      ∧ base + s'.returned.length ≤ s'.ring.frames.length
      ∧ s'.returned
        = ((s'.ring.frames.reverse.drop base).take s'.returned.length).map FrameRecord.data := by
  refine ⟨?_, ?_, ?_⟩
  · simp only [ReaderRun.unread, ReaderRun.step, hframes, List.reverse_cons]
    rw [List.drop_append_of_le_length (by simpa using hgiven)]
  · simp only [ReaderRun.step, hframes, List.length_cons]
    omega
  · simp only [ReaderRun.step, hframes, List.reverse_cons]
    rw [List.drop_append_of_le_length (by simp; omega),
      List.take_append_of_le_length (by simp; omega)]
    exact hret

/-- A frame handed out was the first of them. -/
theorem ReaderRun.read_delivers {bufLen rtn : ℤ} {info' : ShmInfo}
    (hret : s.returned
      = ((s.ring.frames.reverse.drop base).take s.returned.length).map FrameRecord.data)
    (hu : s.unread base = f :: rest)
    (hread : ShmRead.readFrame s.ring.bytes true bufLen s.info = (rtn, some f.data, info')) :
    let s' := s.step (.read bufLen)
    s'.unread base = rest
      ∧ base + s'.returned.length ≤ s'.ring.frames.length
      ∧ s'.returned
        = ((s'.ring.frames.reverse.drop base).take s'.returned.length).map FrameRecord.data := by
  have hdrop : (s.ring.frames.reverse.drop base).drop s.returned.length = f :: rest := by
    rw [List.drop_drop]
    exact hu
  have hlt : base + s.returned.length < s.ring.frames.length := by
    by_contra hle
    rw [List.drop_drop, List.drop_eq_nil_of_le (by simpa using hle)] at hdrop
    cases hdrop
  refine ⟨?_, ?_, ?_⟩
  · simp only [ReaderRun.unread, ReaderRun.step, hread, Option.toList_some, List.length_append,
      List.length_singleton]
    rw [← Nat.add_assoc, ← List.drop_drop, ← List.drop_drop, hdrop]
    rfl
  · simp only [ReaderRun.step, hread, Option.toList_some, List.length_append,
      List.length_singleton]
    omega
  · simp only [ReaderRun.step, hread, Option.toList_some, List.length_append,
      List.length_singleton]
    rw [List.take_add, hdrop, List.map_append, ← hret]
    rfl

end Returned

/-! ## A call of the writer -/

theorem FifoInv.write {s : ReaderRun} (inv : FifoInv N M base s) (hN : M + 143 < N)
    (hN' : N < 2147483648) (c : WriteCall)
    (hlen : (s.step (.write c)).ring.frames.length < 4294967294)
    (hkeep : KeepsUp N M base (s.step (.write c))) : FifoInv N M base (s.step (.write c)) := by
  have hring := inv.inv.write hN hN' c (hlen.trans (by omega))
  by_cases hc : c.iBufLen ≤ 0 ∨ (M : ℤ) < c.iBufLen
  · have hs : s.step (.write c) = s := by
      simp only [ReaderRun.step, ShmRing.write_rejected inv.inv hc]
    rw [hs]
    exact inv
  · have hmono := (s.ring.length_write_le c).1.trans_lt hlen
    obtain ⟨g, m, acc⟩ := ShmRing.write_accepted inv.inv hN hN' (by omega) (c := c) (by omega)
      (by omega)
    have hend := inv.inv.ringEnd hN (by omega)
    have happ := acc.appended inv.inv (by omega)
    -- the new frame is the last of the unread ones
    obtain ⟨hunread, hgiven', hreturned⟩ := s.write_appends inv.given inv.returned acc.frames
    have hfit : totalSize (s.unread base ++ [g]) + 52 + (M + 92) ≤ N := by
      rw [KeepsUp, hunread, shmSizeOfShmHead_eq, shmSizeOfFrameHead_eq] at hkeep
      omega
    have hintact : ∀ f, f ∈ (s.ring.write c).intact
        ↔ f = g ∨ f ∈ s.ring.intact ∧ ¬ g.Overwrites f := by
      intro f
      rw [ShmRing.intact, acc.frames]
      exact mem_intactFrames_cons
    exact {
      inv := hring
      given := hgiven'
      returned := hreturned
      seq := inv.seq
      start_le := inv.start_le
      intact := by
        intro f hf
        rw [hunread, List.mem_append, List.mem_singleton] at hf
        rcases hf with hf | rfl
        · exact (hintact f).mpr (.inr ⟨inv.intact f hf,
            inv.span.not_overwrites hend hN happ hfit hf⟩)
        · exact (hintact f).mpr (.inl rfl)
      span := by
        rw [hunread]
        simp only [ReaderRun.step, acc.cursor]
        exact inv.span.write hend hN happ hfit }

/-! ## One read -/

/-- With nothing unread the reader stands at the cursor, and reads no frame. -/
theorem FifoInv.read_nothing {s : ReaderRun} (inv : FifoInv N M base s)
    (hne : 0 < s.ring.frames.length) (hu : s.unread base = []) (bufLen : ℤ) :
    ShmRead.readFrame s.ring.bytes true bufLen s.info = (shmEnumNoNewFrame, none, s.info) := by
  have hlen : s.ring.frames.length ≤ base + s.returned.length := by
    simpa [ReaderRun.unread] using List.drop_eq_nil_iff.mp hu
  have hgiven := inv.given
  have hns := inv.inv.newestSeq
  exact readFrame_noNewFrame (by omega) (by rw [inv.seq]; omega) true bufLen

/-- The check sends the reader to its next frame, wherever the writer put it. -/
theorem FifoInv.position {s : ReaderRun} (inv : FifoInv N M base s) {f : FrameRecord}
    {rest : List FrameRecord} (hu : s.unread base = f :: rest) :
    ShmRead.checkOverflowed s.ring.bytes s.info = f.pos := by
  have hf : f ∈ s.ring.intact := inv.intact f (hu ▸ List.mem_cons_self)
  have hseq : s.info.uiSeq = f.seq := by
    rw [inv.seq, (inv.inv.layout.seq_of_drop hu).1]
  have hsp := inv.span
  rw [hu] at hsp
  exact hsp.position (inv.inv.held f hf) inv.start_le hseq

theorem FifoInv.read {s : ReaderRun} (inv : FifoInv N M base s) (hN : M + 143 < N)
    (hlen : s.ring.frames.length < 4294967294) {bufLen : ℤ} (hbuf : (M : ℤ) ≤ bufLen)
    {f : FrameRecord} {rest : List FrameRecord} (hu : s.unread base = f :: rest) :
    ShmRead.readFrame s.ring.bytes true bufLen s.info
      = (shmEnumGetANewFrame, some f.data, ⟨frameNextPos s.ring.bytes f.pos, f.seq + 1⟩) := by
  have hf : f ∈ s.ring.intact := inv.intact f (hu ▸ List.mem_cons_self)
  have hw := inv.inv.wellPlaced hN (inv.inv.mem_frames hf)
  have hseq := inv.inv.layout.seq_of_drop hu
  have hrange := inv.inv.layout.seq_range hseq.2.1
  have hle : (f.len : ℤ) ≤ M := by exact_mod_cast hw.len_le
  exact inv.inv.readFrame_delivers hN hlen hf (by rw [inv.seq]; omega) (inv.position hu)
    (hle.trans hbuf)

/-- The link of the frame read leads to the next one, or to the cursor. -/
theorem FifoInv.span_read {s : ReaderRun} (inv : FifoInv N M base s) {f : FrameRecord}
    {rest : List FrameRecord} (hu : s.unread base = f :: rest) :
    Span N M s.ring.bytes rest (frameNextPos s.ring.bytes f.pos) s.ring.writer.uiFramePos := by
  have hf : f ∈ s.ring.intact := inv.intact f (hu ▸ List.mem_cons_self)
  obtain ⟨hseq, hfm, hrest⟩ := inv.inv.layout.seq_of_drop hu
  have hsp := inv.span
  rw [hu] at hsp
  -- the link of the frame leads to the next unread one, or to the cursor
  have hlink : (rest = [] → frameNextPos s.ring.bytes f.pos = s.ring.writer.uiFramePos)
      ∧ ∀ g gs, rest = g :: gs → frameNextPos s.ring.bytes f.pos = g.pos := by
    constructor
    · intro hnil
      have hrange := inv.inv.layout.seq_range hfm
      rw [hnil, List.drop_eq_nil_iff, List.length_reverse] at hrest
      have hs : f.seq = s.ring.frames.length := by omega
      rw [inv.inv.lastLink f hfm hs, inv.inv.cursor_of_seq hfm hs]
    · rintro g gs rfl
      obtain ⟨hgs, hgm, -⟩ := inv.inv.layout.seq_of_drop hrest
      exact inv.inv.nextLink f hf g hgm (by omega)
  exact hsp.next hlink.1 hlink.2

/-! ## Runs -/

instance (s : ReaderRun) : Decidable (KeepsUp N M base s) := inferInstanceAs (Decidable (_ ≤ _))

theorem FifoInv.step {s : ReaderRun} (inv : FifoInv N M base s) (hN : M + 143 < N)
    (hN' : N < 2147483648) (e : ShmEvent) (hne : 0 < s.ring.frames.length)
    (hlen : (s.step e).ring.frames.length < 4294967294)
    (hbuf : ∀ bufLen, e = .read bufLen → (M : ℤ) ≤ bufLen)
    (hkeep : KeepsUp N M base (s.step e)) : FifoInv N M base (s.step e) := by
  cases e with
  | write c => exact inv.write hN hN' c hlen hkeep
  | read bufLen =>
      cases hu : s.unread base with
      | nil =>
          have hs : s.step (.read bufLen) = s := by
            simp [ReaderRun.step, inv.read_nothing hne hu]
          rw [hs]
          exact inv
      | cons f rest =>
          -- the read hands out the oldest unread frame and goes on to the next
          have hread := inv.read hN hlen (hbuf bufLen rfl) hu
          obtain ⟨hseq, hfm, hrest⟩ := inv.inv.layout.seq_of_drop hu
          have hrange := inv.inv.layout.seq_range hfm
          obtain ⟨hunread, hgiven, hreturned⟩ := s.read_delivers inv.returned hu hread
          exact {
            inv := inv.inv
            given := hgiven
            returned := hreturned
            seq := by
              simp only [ReaderRun.step, hread, Option.toList_some, List.length_append,
                List.length_singleton]
              omega
            start_le := by
              simp only [ReaderRun.step, hread]
              exact (inv.span_read hu).start_le (inv.inv.layout.cursor_room hN).start_le fun g hg =>
                (inv.inv.wellPlaced hN (inv.inv.mem_frames
                  (inv.intact g (hu ▸ List.mem_cons_of_mem f hg)))).start_le
            intact := by
              intro g hg
              rw [hunread] at hg
              exact inv.intact g (hu ▸ List.mem_cons_of_mem f hg)
            span := by
              rw [hunread]
              simp only [ReaderRun.step, hread]
              exact inv.span_read hu }

theorem ReaderRun.length_step_le (s : ReaderRun) (e : ShmEvent) :
    s.ring.frames.length ≤ (s.step e).ring.frames.length := by
  cases e with
  | write c => exact (s.ring.length_write_le c).1
  | read bufLen => exact le_rfl

theorem FifoInv.run {s : ReaderRun} (inv : FifoInv N M base s) (hN : M + 143 < N)
    (hN' : N < 2147483648) (hne : 0 < s.ring.frames.length) {es : List ShmEvent}
    (hlen : (s.run es).ring.frames.length < 4294967294)
    (hbuf : ∀ bufLen, .read bufLen ∈ es → (M : ℤ) ≤ bufLen)
    (hkeep : ∀ es₁, es₁ <+: es → KeepsUp N M base (s.run es₁)) :
    FifoInv N M base (s.run es) ∧ 0 < (s.run es).ring.frames.length := by
  induction es using List.reverseRecOn with
  | nil => exact ⟨inv, hne⟩
  | append_singleton es e ih =>
      have hrun : s.run (es ++ [e]) = (s.run es).step e := by
        simp [ReaderRun.run]
      have hmono := (s.run es).length_step_le e
      rw [hrun] at hlen ⊢
      obtain ⟨hinv, hpos⟩ := ih (hmono.trans_lt hlen)
        (fun b hb => hbuf b (List.mem_append_left _ hb))
        (fun es₁ h => hkeep es₁ (h.trans (List.prefix_append es [e])))
      refine ⟨hinv.step hN hN' e hpos hlen (fun b hb => hbuf b (by simp [hb])) ?_,
        hpos.trans_le hmono⟩
      rw [← hrun]
      exact hkeep _ List.prefix_rfl

/-- A reader just refreshed satisfies the invariant: only the newest frame is unread. -/
theorem fifoInv_start (inv : RingInv N M r) (hN : M + 143 < N) (hne : r.frames ≠ []) :
    FifoInv N M (r.frames.length - 1) (ReaderRun.start r) := by
  obtain ⟨f, h, hfr⟩ := List.exists_cons_of_ne_nil hne
  have hf : f ∈ r.frames := hfr ▸ List.mem_cons_self
  have hs := inv.newest_seq hfr
  have hlen : r.frames.length = h.length + 1 := by rw [hfr, List.length_cons]
  have hinfo : (ReaderRun.start r).info = ⟨f.pos, f.seq⟩ := by
    rw [ReaderRun.start, inv.refresh hf hs]
  have hunread : (ReaderRun.start r).unread (r.frames.length - 1) = [f] := by
    have hk : r.frames.length - 1 + 0 = h.reverse.length := by simp [hlen]
    show r.frames.reverse.drop (r.frames.length - 1 + 0) = [f]
    rw [hk, hfr, List.reverse_cons, List.drop_left]
  have hw := inv.wellPlaced hN hf
  exact {
    inv := inv
    given := by
      show r.frames.length - 1 + 0 ≤ r.frames.length
      omega
    returned := rfl
    seq := by
      rw [hinfo]
      show f.seq = r.frames.length - 1 + 0 + 1
      omega
    start_le := by
      rw [hinfo]
      exact hw.start_le
    intact := by
      intro g hg
      rw [hunread, List.mem_singleton] at hg
      rw [hg]
      exact inv.newest_intact hf hs
    span := by
      rw [hunread, hinfo]
      show Span N M r.bytes [f] f.pos r.writer.uiFramePos
      rw [inv.cursor_of_seq hf hs]
      rcases hw.slot with ⟨hslot, -⟩ | ⟨hslot, hpos, htop⟩
      · exact .straight ⟨rfl, hslot.symm⟩
      · exact .wrapped [f] [] f.finish rfl ⟨rfl, rfl⟩ hslot.symm (by omega) (by omega)
          hw.finish_lt (by simp) }

/-- **First in, first out.**  A reader that was refreshed to the newest frame of a
ring and keeps up has been given exactly that frame and the frames written after
it, in order and byte for byte, up to some point; the next read gives it the next
one, and answers that there is no new frame exactly when it has had the newest. -/
theorem fifo_delivery (old : Mem) (pcHeaderInfo : ℕ → UInt8) {iShmSize iMaxFrameSize : ℕ}
    (hsize : shmSizeOfShmHead + iMaxFrameSize + 2 * shmSizeOfFrameHead + 3 < iShmSize)
    (hint : iShmSize < 2 ^ 31) (calls : List WriteCall) (es : List ShmEvent) :
    let r := (ShmRing.create old iShmSize iMaxFrameSize pcHeaderInfo).run calls
    let base := r.frames.length - 1
    let s := (ReaderRun.start r).run es
    r.frames ≠ [] → s.ring.frames.length < 2 ^ 32 - 2 →
    (∀ bufLen, .read bufLen ∈ es → (iMaxFrameSize : ℤ) ≤ bufLen) →
    (∀ es₁, es₁ <+: es → KeepsUp iShmSize iMaxFrameSize base ((ReaderRun.start r).run es₁)) →
    (ShmRead.refresh r.bytes).1 = shmEnumOk
      ∧ s.returned
        = ((s.ring.frames.reverse.drop base).take s.returned.length).map FrameRecord.data
      ∧ ∀ bufLen : ℤ, iMaxFrameSize ≤ bufLen →
        ((ShmRead.readFrame s.ring.bytes true bufLen s.info).1 = shmEnumNoNewFrame
            ↔ s.unread base = [])
          ∧ ∀ f rest, s.unread base = f :: rest →
            ∃ info, ShmRead.readFrame s.ring.bytes true bufLen s.info
              = (shmEnumGetANewFrame, some f.data, info) := by
  intro r base s hne hlen hbuf hkeep
  simp only [shmSizeOfShmHead_eq, shmSizeOfFrameHead_eq] at hsize
  have hmono : r.frames.length ≤ s.ring.frames.length := by
    have : ∀ (t : ReaderRun) (es : List ShmEvent),
        t.ring.frames.length ≤ (t.run es).ring.frames.length := by
      intro t es
      induction es generalizing t with
      | nil => exact le_rfl
      | cons e es ih => exact (t.length_step_le e).trans (ih (t.step e))
    exact this (ReaderRun.start r) es
  have inv : RingInv iShmSize iMaxFrameSize r :=
    ringInv_run old pcHeaderInfo (by omega) (by omega) (hmono.trans_lt (hlen.trans (by norm_num)))
  have hpos : 0 < r.frames.length := List.length_pos_iff.mpr hne
  obtain ⟨hs, hs₀⟩ := (fifoInv_start inv (by omega) hne).run (by omega) (by omega) hpos
    (hlen.trans_le (by norm_num)) hbuf hkeep
  refine ⟨?_, hs.returned, fun bufLen hb => ⟨⟨fun hno => ?_, fun hu => ?_⟩, fun f rest hu => ?_⟩⟩
  · obtain ⟨f, h, hfr⟩ := List.exists_cons_of_ne_nil hne
    rw [inv.refresh (hfr ▸ List.mem_cons_self) (inv.newest_seq hfr)]
  · cases hu : s.unread base with
    | nil => rfl
    | cons f rest =>
        rw [hs.read (by omega) (hlen.trans_le (by norm_num)) hb hu] at hno
        simp [shmEnumGetANewFrame, shmEnumNoNewFrame] at hno
  · rw [hs.read_nothing hs₀ hu]
  · exact ⟨_, hs.read (by omega) (hlen.trans_le (by norm_num)) hb hu⟩

/-- A reader of a segment of 500 bytes that keeps up over two restarts. -/
theorem fifo_delivery_small :
    let call : WriteCall := ⟨fun i => UInt8.ofNat i, 90, fun _ => 7⟩
    let es := [.read 100, .write call, .read 100, .write call, .read 100, .write call, .read 100,
      .write call, .read 100, .write call, .read 100, .read 100]
    let r := (ShmRing.create (fun _ => 0) 500 100 (fun _ => 0)).run [call]
    let s := (ReaderRun.start r).run es
    s.returned = ((s.ring.frames.reverse.drop (r.frames.length - 1)).take
      s.returned.length).map FrameRecord.data := by
  intro call es
  have hkeep : ∀ es₁ ∈ es.inits, KeepsUp 500 100 0 ((ReaderRun.start
      ((ShmRing.create (fun _ => 0) 500 100 (fun _ => 0)).run [call])).run es₁) := by
    decide +kernel
  exact (fifo_delivery (fun _ => 0) (fun _ => 0) (by decide) (by decide) [call] es
    (by decide +kernel) (by decide +kernel)
    (fun b hb => by simp [es] at hb; omega)
    (fun es₁ h => hkeep es₁ ((List.mem_inits es₁ es).mpr h))).2.1
