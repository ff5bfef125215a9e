/-
# Where frames lie in the ring

The abstract level of the ring: histories of frames placed one after the other
in a segment of `N` bytes, with no memory behind them.  `Layout N M h cursor`
says that the history `h` (newest first) comes from the placement rule of the
writer and that the next frame goes to `cursor`.

Everything the later modules need about positions is proved here by induction
on `Layout`: the cursor always leaves room for a head (`Layout.cursor_room`),
the intact frames lie either below the cursor or at least a head above it
(`Layout.frontier`), and the start of the segment holds an intact frame unless
the cursor is there (`Layout.start`).
-/
import IpCamera.ShmWrite

/-! ## The placement rule -/

/-- A payload length rounded up to a multiple of four. -/
def alignedLen (len : ℕ) : ℕ := 4 * ((len + 3) / 4)

theorem le_alignedLen (len : ℕ) : len ≤ alignedLen len := by unfold alignedLen; omega

theorem alignedLen_lt (len : ℕ) : alignedLen len < len + 4 := by unfold alignedLen; omega

theorem dvd_alignedLen (len : ℕ) : 4 ∣ alignedLen len := Dvd.intro _ rfl

/-- The address after the frame, rounded up. -/
def FrameRecord.finish (f : FrameRecord) : ℕ := f.pos + 44 + alignedLen f.len

/-- Where the writer at `cursor` puts a frame of `len` bytes (`pos`), and the slot
it clears for the frame after it (`next`). -/
inductive Placement (N cursor len : ℕ) : (pos next : ℕ) → Prop
  /-- The frame fits at the cursor, and a head fits after it. -/
  | advance (h : cursor + 44 + alignedLen len + 44 < N) :
      Placement N cursor len cursor (cursor + 44 + alignedLen len)
  /-- The frame fits at the cursor, but no head fits after it. -/
  | last (h₁ : cursor + 44 + alignedLen len < N) (h₂ : N ≤ cursor + 44 + alignedLen len + 44) :
      Placement N cursor len cursor 52
  /-- The frame does not fit at the cursor and goes to the start. -/
  | restart (h : N ≤ cursor + 44 + alignedLen len) :
      Placement N cursor len 52 (96 + alignedLen len)

/-- The histories the placement rule produces, with the position of the next frame. -/
inductive Layout (N M : ℕ) : List FrameRecord → ℕ → Prop
  | empty : Layout N M [] 52
  | write {h : List FrameRecord} {cursor : ℕ} {g : FrameRecord} (hist : Layout N M h cursor)
      (len_pos : 0 < g.len) (len_le : g.len ≤ M) (seq : g.seq = h.length + 1)
      (place : Placement N cursor g.len g.pos g.slot) : Layout N M (g :: h) g.slot

variable {N M : ℕ} {h : List FrameRecord} {cursor : ℕ} {f g : FrameRecord}

/-! ## The cursor and the frames -/

/-- The position of the next frame is aligned, is the start or lies above the
head at the start, and leaves room for a whole head. -/
def CursorRoom (N cursor : ℕ) : Prop :=
  4 ∣ cursor ∧ (cursor = 52 ∨ 96 < cursor) ∧ cursor + 44 < N

theorem CursorRoom.start_le (hc : CursorRoom N cursor) : 52 ≤ cursor := by
  rcases hc.2.1 with h | h <;> omega

/-- The placement rule keeps the room. -/
theorem Placement.cursor_room {len pos next : ℕ} (hN : M + 143 < N) (hc : CursorRoom N cursor)
    (len_pos : 0 < len) (len_le : len ≤ M) (place : Placement N cursor len pos next) :
    CursorRoom N next := by
  have ha := alignedLen_lt len
  have hl := le_alignedLen len
  have hd := dvd_alignedLen len
  unfold CursorRoom at *
  cases place <;> omega

theorem Layout.cursor_room (hN : M + 143 < N) (l : Layout N M h cursor) :
    CursorRoom N cursor := by
  induction l with
  | empty => exact ⟨by decide, .inl rfl, by omega⟩
  | write _ len_pos len_le _ place ih => exact place.cursor_room hN ih len_pos len_le

/-- What the placement rule gives for one frame. -/
structure FrameRecord.WellPlaced (N M : ℕ) (f : FrameRecord) : Prop where
  aligned : 4 ∣ f.pos
  start_le : 52 ≤ f.pos
  len_pos : 0 < f.len
  len_le : f.len ≤ M
  finish_lt : f.finish < N
  slot : f.slot = f.finish ∧ f.finish + 44 < N ∨ f.slot = 52 ∧ 96 ≤ f.pos ∧ N ≤ f.finish + 44

theorem FrameRecord.endPos_le (f : FrameRecord) : f.endPos ≤ f.finish := by
  have := le_alignedLen f.len
  simp only [FrameRecord.endPos, FrameRecord.finish, shmSizeOfFrameHead_eq]
  omega

theorem FrameRecord.finish_le (f : FrameRecord) : f.finish < f.endPos + 4 := by
  have := alignedLen_lt f.len
  simp only [FrameRecord.endPos, FrameRecord.finish, shmSizeOfFrameHead_eq]
  omega

theorem FrameRecord.pos_lt_endPos (f : FrameRecord) : f.pos + 44 ≤ f.endPos := by
  simp only [FrameRecord.endPos, shmSizeOfFrameHead_eq]
  omega

theorem FrameRecord.dvd_finish (hf : 4 ∣ f.pos) : 4 ∣ f.finish := by
  have := dvd_alignedLen f.len
  simp only [FrameRecord.finish]
  omega

/-- One placement from a good cursor is well placed. -/
theorem wellPlaced_of_placement (hN : M + 143 < N)
    (hc : CursorRoom N cursor)
    (len_pos : 0 < g.len) (len_le : g.len ≤ M) (place : Placement N cursor g.len g.pos g.slot) :
    g.WellPlaced N M := by
  have ha := alignedLen_lt g.len
  have hd := dvd_alignedLen g.len
  have hfin : g.finish = g.pos + 44 + alignedLen g.len := rfl
  obtain ⟨hc₁, hc₂, hc₃⟩ := hc
  generalize hs : g.slot = s, hp : g.pos = p at place
  rw [hp] at hfin
  cases place <;> constructor <;> omega

theorem Layout.wellPlaced (hN : M + 143 < N) (l : Layout N M h cursor) (hf : f ∈ h) :
    f.WellPlaced N M := by
  induction l with
  | empty => cases hf
  | write hist len_pos len_le _ place ih =>
      rcases List.mem_cons.mp hf with rfl | hf
      · exact wellPlaced_of_placement hN (hist.cursor_room hN) len_pos len_le place
      · exact ih hf

/-! ## Numbering -/

theorem Layout.seq_range (l : Layout N M h cursor) (hf : f ∈ h) :
    1 ≤ f.seq ∧ f.seq ≤ h.length := by
  induction l with
  | empty => cases hf
  | write _ _ _ seq _ ih =>
      rw [List.length_cons]
      rcases List.mem_cons.mp hf with rfl | hf
      · omega
      · have := ih hf
        omega

/-- The frames of a history are numbered `1, 2, …` from the oldest on. -/
theorem Layout.map_seq (l : Layout N M h cursor) :
    h.map FrameRecord.seq = (List.range' 1 h.length).reverse := by
  induction l with
  | empty => rfl
  | write _ _ _ seq _ ih =>
      rw [List.map_cons, ih, seq, List.length_cons, List.range'_1_concat, List.reverse_append]
      simp [Nat.add_comm]

theorem Layout.exists_seq (l : Layout N M h cursor) {s : ℕ} (h₁ : 1 ≤ s) (h₂ : s ≤ h.length) :
    ∃ f ∈ h, f.seq = s := by
  have hs : s ∈ h.map FrameRecord.seq := by
    rw [l.map_seq, List.mem_reverse, List.mem_range'_1]
    omega
  simpa using hs

theorem Layout.seq_inj (l : Layout N M h cursor) (hf : f ∈ h) (hg : g ∈ h)
    (he : f.seq = g.seq) : f = g := by
  have hnd : (h.map FrameRecord.seq).Nodup := by
    rw [l.map_seq, List.nodup_reverse]
    exact List.nodup_range'
  exact List.inj_on_of_nodup_map hnd hf hg he

/-! ## Intact frames -/

theorem intactFrames_subset (h : List FrameRecord) : intactFrames h ⊆ h := by
  induction h with
  | nil => simp [intactFrames]
  | cons g h ih =>
      intro f hf
      rw [intactFrames, List.mem_cons, List.mem_filter] at hf
      rcases hf with rfl | ⟨hf, -⟩
      · exact List.mem_cons_self
      · exact List.mem_cons_of_mem g (ih hf)

theorem mem_intactFrames_cons :
    f ∈ intactFrames (g :: h) ↔ f = g ∨ f ∈ intactFrames h ∧ ¬ g.Overwrites f := by
  simp [intactFrames]

/-- An intact frame is hit by no later frame. -/
theorem Layout.not_overwrites (l : Layout N M h cursor) (hf : f ∈ intactFrames h) (hg : g ∈ h)
    (hlt : f.seq < g.seq) : ¬ g.Overwrites f := by
  induction l with
  | empty => cases hg
  | @write h cursor g' hist _ _ seq _ ih =>
      rcases mem_intactFrames_cons.mp hf with rfl | ⟨hf', hno⟩
      · rcases List.mem_cons.mp hg with rfl | hg
        · omega
        · have := hist.seq_range hg
          omega
      · rcases List.mem_cons.mp hg with rfl | hg
        · exact hno
        · exact ih hf' hg

/-- Conversely a frame no later frame hits is intact. -/
theorem Layout.mem_intact (l : Layout N M h cursor) (hf : f ∈ h)
    (hno : ∀ g ∈ h, f.seq < g.seq → ¬ g.Overwrites f) : f ∈ intactFrames h := by
  induction l with
  | empty => cases hf
  | @write h cursor g' hist _ _ seq _ ih =>
      rw [mem_intactFrames_cons]
      rcases List.mem_cons.mp hf with rfl | hf
      · exact .inl rfl
      · have := hist.seq_range hf
        exact .inr ⟨ih hf (fun g hg => hno g (List.mem_cons_of_mem _ hg)),
          hno g' List.mem_cons_self (by omega)⟩

/-- A frame put at the position of an older one overwrites it. -/
theorem FrameRecord.overwrites_of_pos (hp : g.pos ≤ f.pos ∧ f.pos < g.endPos) :
    g.Overwrites f := by
  have := f.pos_lt_endPos
  exact .inl ⟨by omega, by omega⟩

/-- A frame whose cleared slot is the position of an older one overwrites it. -/
theorem FrameRecord.overwrites_of_slot (hp : g.slot ≤ f.pos ∧ f.pos < g.slot + 44) :
    g.Overwrites f := by
  have := f.pos_lt_endPos
  exact .inr ⟨by omega, by rw [shmSizeOfFrameHead_eq]; omega⟩

/-- **The frontier.**  An intact frame lies below the cursor, or at least one
frame head above it. -/
theorem Layout.frontier (hN : M + 143 < N) (l : Layout N M h cursor) (hf : f ∈ intactFrames h) :
    f.finish ≤ cursor ∨ cursor + 44 ≤ f.pos := by
  induction l with
  | empty => cases hf
  | @write h cursor g hist len_pos len_le _ place ih =>
      have hg := wellPlaced_of_placement hN (hist.cursor_room hN) len_pos len_le place
      obtain ⟨hc₁, hc₂, hc₃⟩ := hist.cursor_room hN
      have hgf : g.finish = g.pos + 44 + alignedLen g.len := rfl
      have hge := g.finish_le
      rcases mem_intactFrames_cons.mp hf with rfl | ⟨hf, hno⟩
      · rcases hg.slot with hs | hs <;> omega
      · -- the frame survived, so its first byte is outside what `g` stored
        have hfw := hist.wellPlaced hN (intactFrames_subset h hf)
        have hff : f.finish = f.pos + 44 + alignedLen f.len := rfl
        have hfl := le_alignedLen f.len
        have h₁ : ¬ (g.pos ≤ f.pos ∧ f.pos < g.endPos) :=
          fun hp => hno (FrameRecord.overwrites_of_pos hp)
        have h₂ : ¬ (g.slot ≤ f.pos ∧ f.pos < g.slot + 44) :=
          fun hp => hno (FrameRecord.overwrites_of_slot hp)
        have := ih hf
        have ha := hfw.aligned
        have hf₁ := hfw.start_le
        have hf₂ := hfw.finish_lt
        have hf₃ := hfw.len_pos
        have hgd := FrameRecord.dvd_finish hg.aligned
        generalize hgs : g.slot = s, hgp : g.pos = p at place
        rw [hgs] at h₂
        rw [hgp] at h₁ hgf
        cases place <;> omega

/-- The start of the segment is the cursor or holds an intact frame. -/
theorem Layout.start (hN : M + 143 < N) (l : Layout N M h cursor) :
    cursor = 52 ∨ ∃ f ∈ intactFrames h, f.pos = 52 := by
  induction l with
  | empty => exact .inl rfl
  | @write h cursor g hist len_pos len_le _ place ih =>
      have hg := wellPlaced_of_placement hN (hist.cursor_room hN) len_pos len_le place
      obtain ⟨hc₁, hc₂, hc₃⟩ := hist.cursor_room hN
      rcases hg.slot with ⟨hs, hs'⟩ | hs
      · by_cases hp : g.pos = 52
        · exact .inr ⟨g, mem_intactFrames_cons.mpr (.inl rfl), hp⟩
        · -- `g` was put at a cursor above the start: the frame at the start stays
          have hcur : g.pos = cursor := by
            generalize hgs : g.slot = s, hgp : g.pos = p at place
            cases place <;> omega
          obtain ⟨f, hf, hfp⟩ := ih.resolve_left (by omega)
          refine .inr ⟨f, mem_intactFrames_cons.mpr (.inr ⟨hf, ?_⟩), hfp⟩
          have hfr := hist.frontier hN hf
          have hfe := f.endPos_le
          have hgl := g.pos_lt_endPos
          have hge := g.endPos_le
          rintro (⟨ho, -⟩ | ⟨ho, -⟩) <;> omega
      · exact .inl hs.1
