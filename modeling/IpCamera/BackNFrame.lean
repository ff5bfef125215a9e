/-
# Moving back along the links (`SHM_BackNFrame`)

`MoveBack` follows the link to the frame written before, and takes whatever frame stands there
now.  If that place has been given to a newer frame, it ends there, on another sequence number.

`ShmRing.linked` is the link between the frames of the ring, by their sequence numbers:
`moveBackLink_stands` says that `MoveBack` follows it.  Every frame that a walk along it leaves
behind is in the ring (`intact_of_walk`), and so `back_exact_iff` can tell when moving back is
exact, or has no effect.
-/
import IpCamera.KeyFrameStart

/-! ## The calls -/

/-- `SHM_BackNFrame`, under the mutex. -/
def shmBackNFrame (m : Mem) (fuel : ℕ) (junk : ℕ → UInt8) (iSteps : ℤ) (iKeyFlag : Bool)
    (info : ShmInfo) : Option (ℤ × ShmInfo) :=
  shmBackNFrameNolock m fuel junk iSteps iKeyFlag true info

/-- `SHM_ForwardNFrame`, under the mutex. -/
def shmForwardNFrame (m : Mem) (fuel : ℕ) (junk : ℕ → UInt8) (iSteps : ℤ) (iKeyFlag : Bool)
    (info : ShmInfo) : Option (ℤ × ShmInfo) :=
  shmBackNFrameNolock m fuel junk iSteps iKeyFlag false info

/-! ## Where an ID stands -/

namespace ShmRing

/-- The frame of the ring with a sequence number. -/
def Has (r : ShmRing) (s : ℕ) : Prop := ∃ f ∈ r.intact, f.seq = s

/-- The ID stands on the frame: there, or on the slot from which it is sent to it. -/
structure StandsOn (r : ShmRing) (info : ShmInfo) (f : FrameRecord) : Prop where
  intact : f ∈ r.intact
  seq : f.seq = info.uiSeq
  pos : ShmRead.checkOverflowed r.bytes info = f.pos

/-- The ID has been given the newest frame, and stands on the slot after it. -/
structure StandsAfterNewest (r : ShmRing) (info : ShmInfo) : Prop where
  frames : r.frames ≠ []
  seq : info.uiSeq = r.frames.length + 1
  pos : info.uiPos = r.writer.uiFramePos

/-- The ID stands on a frame or just after the newest one. -/
def Stands (r : ShmRing) (info : ShmInfo) : Prop :=
  (∃ f, r.StandsOn info f) ∨ r.StandsAfterNewest info

end ShmRing

/-- A frame with the key flag. -/
def FrameRecord.IsKey (f : FrameRecord) : Prop :=
  extrasKeyFrameFlag f.extras = shmVideoFrameTypeKey

instance : DecidablePred FrameRecord.IsKey := fun _ => inferInstanceAs (Decidable (_ = _))

/-! ## What moving back should do -/

namespace ShmRing

/-- A key frame of the ring has the number `s`. -/
def HasKey (r : ShmRing) (s : ℕ) : Prop := ∃ f ∈ r.intact, f.seq = s ∧ f.IsKey

instance (r : ShmRing) : DecidablePred r.HasKey := fun _ =>
  inferInstanceAs (Decidable (∃ f ∈ _, _))

/-- The frame to which `n` steps lead from sequence `s`: the one numbered `s - n`, or the `n`-th
key frame below `s`. -/
structure IsBackTarget (r : ShmRing) (s n : ℕ) (iKeyFlag : Bool) (f : FrameRecord) : Prop where
  intact : f ∈ r.intact
  below : f.seq < s
  steps : if iKeyFlag then
      f.IsKey ∧ ((List.range s).countP fun q => f.seq < q ∧ r.HasKey q) + 1 = n
    else f.seq + n = s

/-- The call returns, whatever the stack holds; it succeeds on the frame it is to lead to, or
fails and changes nothing, which it does not do if that frame and all later ones are in the ring.
No step at all leaves an ID where it is. -/
def BacksExactly (r : ShmRing) (info : ShmInfo) (n : ℕ) (iKeyFlag : Bool) : Prop :=
  ∀ junk, ∃ fuel rtn info', shmBackNFrame r.bytes fuel junk n iKeyFlag info = some (rtn, info')
    ∧ ((0 ≤ rtn ∧ if n = 0 then info' = info
        else ∃ f, r.IsBackTarget info.uiSeq n iKeyFlag f ∧ r.StandsOn info' f)
      ∨ (rtn < 0 ∧ info' = info ∧ ∀ f, r.IsBackTarget info.uiSeq n iKeyFlag f →
        ∃ s, f.seq ≤ s ∧ s ≤ r.frames.length ∧ ¬ r.Has s))

/-- The frame that stands where the frame before number `s` was put, unless it is frame `s`. -/
def linked (r : ShmRing) (s : ℕ) : Option ℕ := do
  let before ← r.frames.find? fun f => f.seq + 1 = s
  let f ← r.intact.find? fun f => f.pos = before.pos
  if f.seq = s then none else some f.seq

/-- The links from `s` end before `n` steps have been made, or `n` key frames found. -/
def LinksEnd (r : ShmRing) (s n : ℕ) (iKeyFlag : Bool) : Prop :=
  if iKeyFlag then
    ∃ k, LinkSearch.walk r.linked (k + 1) s = none
      ∧ ∀ q, r.linked s = some q → LinkSearch.hits r.linked r.HasKey k q < n
  else LinkSearch.walk r.linked n s = none

/-- What moving back must meet: there is no step to make, or all frames from the one it is to lead
to up to the ID are in the ring, or the links end. -/
def MeetsBack (r : ShmRing) (s n : ℕ) (iKeyFlag : Bool) : Prop :=
  n = 0 ∨ (∃ f, r.IsBackTarget s n iKeyFlag f ∧ ∀ q, f.seq ≤ q → q < s → r.Has q)
    ∨ r.LinksEnd s n iKeyFlag

end ShmRing

/-! ## The links between the frames -/

variable {N M : ℕ} {r : ShmRing} {info : ShmInfo} {f : FrameRecord} {s q : ℕ}

theorem RingInv.pos_inj (inv : RingInv N M r) {g : FrameRecord} (hf : f ∈ r.intact)
    (hg : g ∈ r.intact) (hpos : f.pos = g.pos) : f = g := by
  have hfl := f.pos_lt_endPos
  have hgl := g.pos_lt_endPos
  rcases lt_trichotomy f.seq g.seq with hlt | heq | hlt
  · exact absurd (FrameRecord.overwrites_of_pos ⟨hpos.ge, by omega⟩)
      (inv.layout.not_overwrites hf (inv.mem_frames hg) hlt)
  · exact inv.layout.seq_inj (inv.mem_frames hf) (inv.mem_frames hg) heq
  · exact absurd (FrameRecord.overwrites_of_pos ⟨hpos.le, by omega⟩)
      (inv.layout.not_overwrites hg (inv.mem_frames hf) hlt)

/-- The frame before number `s`. -/
theorem RingInv.find_before (inv : RingInv N M r) (hf : f ∈ r.frames) (hs : f.seq + 1 = s) :
    r.frames.find? (fun g => g.seq + 1 = s) = some f := by
  cases hfind : r.frames.find? (fun g => g.seq + 1 = s) with
  | none =>
    have := List.find?_eq_none.mp hfind f hf
    simp [hs] at this
  | some g =>
    have hg := List.find?_some hfind
    rw [decide_eq_true_eq] at hg
    rw [inv.layout.seq_inj hf (List.mem_of_find?_eq_some hfind) (by omega)]

theorem RingInv.find_at (inv : RingInv N M r) (hf : f ∈ r.intact) :
    r.intact.find? (fun g => g.pos = f.pos) = some f := by
  cases hfind : r.intact.find? (fun g => g.pos = f.pos) with
  | none =>
    have := List.find?_eq_none.mp hfind f hf
    simp at this
  | some g =>
    have hg := List.find?_some hfind
    rw [decide_eq_true_eq] at hg
    rw [inv.pos_inj hf (List.mem_of_find?_eq_some hfind) hg.symm]

/-- What a link leads to: the frame standing where the one before was put. -/
theorem linked_eq_some_iff (inv : RingInv N M r) {before : FrameRecord} (hb : before ∈ r.frames)
    (hs : before.seq + 1 = s) :
    r.linked s = some q ↔ ∃ f ∈ r.intact, f.pos = before.pos ∧ f.seq = q ∧ q ≠ s := by
  rw [ShmRing.linked, inv.find_before hb hs, Option.bind_eq_bind, Option.bind_some]
  constructor
  · intro h
    obtain ⟨f, hf, h⟩ := Option.bind_eq_some_iff.mp h
    have hpos := List.find?_some hf
    rw [decide_eq_true_eq] at hpos
    split_ifs at h with hne
    cases h
    exact ⟨f, List.mem_of_find?_eq_some hf, hpos, rfl, hne⟩
  · rintro ⟨f, hf, hpos, rfl, hne⟩
    have hfind := inv.find_at hf
    rw [hpos] at hfind
    rw [hfind, Option.bind_some, if_neg hne]

/-- A link leads one frame down, or to a frame above. -/
theorem linked_cases (inv : RingInv N M r) (h : r.linked s = some q) :
    r.Has q ∧ (q + 1 = s ∨ s < q) := by
  obtain ⟨before, hb, -⟩ := Option.bind_eq_some_iff.mp h
  have hmem := List.mem_of_find?_eq_some hb
  have hs := List.find?_some hb
  rw [decide_eq_true_eq] at hs
  obtain ⟨f, hf, hpos, rfl, hne⟩ := (linked_eq_some_iff inv hmem hs).mp h
  refine ⟨⟨f, hf, rfl⟩, ?_⟩
  have hfl := before.pos_lt_endPos
  have hle : ¬ f.seq < before.seq := fun hlt =>
    absurd (FrameRecord.overwrites_of_pos ⟨hpos.ge, by omega⟩)
      (inv.layout.not_overwrites hf hmem hlt)
  omega

/-- A link leads to the frame before, if that is in the ring. -/
theorem linked_of_has (inv : RingInv N M r) (h : r.Has q) (hs : q + 1 = s) :
    r.linked s = some q := by
  obtain ⟨f, hf, rfl⟩ := h
  exact (linked_eq_some_iff inv (inv.mem_frames hf) hs).mpr ⟨f, hf, rfl, rfl, by omega⟩

/-- A walk leaves only frames of the ring behind. -/
theorem intact_of_walk (inv : RingInv N M r) {k x : ℕ}
    (h : LinkSearch.walk r.linked k s = some x) : ∀ q, x ≤ q → q < s → r.Has q := by
  induction k generalizing x with
  | zero =>
    intro q hxq hqs
    obtain rfl : s = x := by simpa [LinkSearch.walk] using h
    omega
  | succ k ih =>
    obtain ⟨y, hy⟩ := Option.isSome_iff_exists.mp
      (LinkSearch.walk_of_le (Nat.le_succ k) (by rw [h]; rfl))
    have hstep : LinkSearch.walk r.linked 1 y = some x := (LinkSearch.walk_add hy 1).symm.trans h
    obtain ⟨x', hx', hrest⟩ := Option.bind_eq_some_iff.mp hstep
    obtain rfl : x' = x := by simpa [LinkSearch.walk] using hrest
    obtain ⟨hhas, hcases⟩ := linked_cases inv hx'
    intro q hxq hqs
    by_cases hq : q = x'
    · rw [hq]
      exact hhas
    · exact ih hy q (by omega) hqs

/-- If the frames are in the ring, the walk goes down through them. -/
theorem walk_of_has (inv : RingInv N M r) (k : ℕ) (hk : k ≤ s)
    (h : ∀ q, s - k ≤ q → q < s → r.Has q) : LinkSearch.walk r.linked k s = some (s - k) := by
  induction k generalizing s with
  | zero => rfl
  | succ k ih =>
    have hlink : r.linked s = some (s - 1) :=
      linked_of_has inv (h (s - 1) (by omega) (by omega)) (by omega)
    have hrest := ih (s := s - 1) (by omega) fun q h₁ h₂ => h q (by omega) (by omega)
    rw [LinkSearch.walk, hlink, Option.bind_some, hrest]
    congr 1
    omega

/-! ## `MoveBack` follows the links -/

theorem RingInv.isFrame_newest (inv : RingInv N M r) (h : ShmRead.isEmpty r.bytes = false) :
    IsFrame r.bytes (headNewestFramePos r.bytes) := by
  rw [ShmRead.isEmpty, inv.newestSeq, decide_eq_false_iff_not, shmFrameInitialSequence_eq] at h
  obtain ⟨n, hn, hns⟩ := inv.layout.exists_seq (s := r.frames.length) (by omega) le_rfl
  rw [inv.newestPos_of_seq hn hns]
  exact (inv.held n (inv.newest_intact hn hns)).magic

/-- The position and sequence of a frame. -/
def ShmRing.infoOf (r : ShmRing) (s : ℕ) : ShmInfo :=
  ⟨((r.frames.find? fun f => f.seq = s).map FrameRecord.pos).getD 0, s⟩

theorem infoOf_seq (inv : RingInv N M r) (hf : f ∈ r.frames) : r.infoOf f.seq = ⟨f.pos, f.seq⟩ := by
  rw [ShmRing.infoOf]
  cases hfind : r.frames.find? (fun g => g.seq = f.seq) with
  | none =>
    have := List.find?_eq_none.mp hfind f hf
    simp at this
  | some g =>
    have hg := List.find?_some hfind
    rw [decide_eq_true_eq] at hg
    rw [inv.layout.seq_inj hf (List.mem_of_find?_eq_some hfind) hg.symm]
    rfl

/-- What `MoveBack` does for an ID that is sent to an intact frame. -/
theorem moveBackLink_at (hne : ShmRead.isEmpty r.bytes = false) (hpos : info.uiPos ≠ 0)
    (hseq : info.uiSeq ≠ (headNewestFrameSeq r.bytes + 1) % 4294967296) {p : ℕ}
    (hp : ShmRead.checkOverflowed r.bytes info = p) (hframe : IsFrame r.bytes p) :
    moveBackLink r.bytes info
      = if p = framePrevPos r.bytes p ∨ ¬ IsFrame r.bytes (framePrevPos r.bytes p) then none
        else some ⟨framePrevPos r.bytes p, frameSequence r.bytes (framePrevPos r.bytes p)⟩ := by
  have hmove : ShmRead.moveBack r.bytes info
      = if p = framePrevPos r.bytes p ∨ ¬ IsFrame r.bytes (framePrevPos r.bytes p) then
          (shmEnumError, ShmInfo.initial)
        else (shmEnumOk,
          ⟨framePrevPos r.bytes p, frameSequence r.bytes (framePrevPos r.bytes p)⟩) := by
    have hinit : ¬ info.uiPos = shmFrameInitialPosition := hpos
    rw [ShmRead.moveBack, hne, if_neg Bool.false_ne_true, if_neg hinit, if_neg hseq]
    dsimp only
    rw [hp, if_neg (not_not.mpr hframe)]
    by_cases hself : p = framePrevPos r.bytes p
    · rw [if_pos hself, if_pos (Or.inl hself)]
    · by_cases hprev : IsFrame r.bytes (framePrevPos r.bytes p)
      · rw [if_neg hself, if_pos hprev, if_neg (by simp [hself, hprev])]
      · rw [if_neg hself, if_neg hprev, if_pos (Or.inr hprev)]
  rw [moveBackLink, hmove]
  split
  · rfl
  · rfl

/-- The link of an intact frame, read from its head. -/
theorem RingInv.linked_frame (inv : RingInv N M r) (mag : MagicInv N r) (hN : M + 143 < N)
    (hf : f ∈ r.intact) :
    (if f.pos = framePrevPos r.bytes f.pos ∨ ¬ IsFrame r.bytes (framePrevPos r.bytes f.pos) then none
      else some ⟨framePrevPos r.bytes f.pos, frameSequence r.bytes (framePrevPos r.bytes f.pos)⟩)
      = (r.linked f.seq).map r.infoOf := by
  have hfm := inv.mem_frames hf
  have hrange := inv.layout.seq_range hfm
  by_cases hone : f.seq = 1
  · have hlink : r.linked f.seq = none := by
      have hfind : r.frames.find? (fun g => g.seq + 1 = f.seq) = none := by
        rw [List.find?_eq_none]
        intro g hg
        have := inv.layout.seq_range hg
        rw [decide_eq_true_eq]
        omega
      rw [ShmRing.linked, hfind]
      rfl
    rw [if_pos (Or.inl (inv.firstLink f hf hone).symm), hlink]
    rfl
  obtain ⟨before, hb, hbs⟩ := inv.layout.exists_seq (s := f.seq - 1) (by omega) (by omega)
  have hbw := inv.wellPlaced hN hb
  have hbf : before.finish = before.pos + 44 + alignedLen before.len := rfl
  have hfin := hbw.finish_lt
  rw [inv.prevLink f hf before hb (by omega)]
  have hlinked : ∀ q, r.linked f.seq = some q
      ↔ ∃ g ∈ r.intact, g.pos = before.pos ∧ g.seq = q ∧ q ≠ f.seq :=
    fun q => linked_eq_some_iff inv hb (by omega)
  by_cases hstop : f.pos = before.pos ∨ ¬ IsFrame r.bytes before.pos
  · have hlink : r.linked f.seq = none := by
      refine Option.eq_none_iff_forall_not_mem.mpr fun q hq => ?_
      obtain ⟨g, hg, hpos, rfl, hne⟩ := (hlinked q).mp hq
      rcases hstop with hself | hframe
      · exact hne (congrArg FrameRecord.seq (inv.pos_inj hg hf (hpos.trans hself.symm)))
      · exact hframe (hpos ▸ (inv.held g hg).magic)
    rw [if_pos hstop, hlink]
    rfl
  · rw [if_neg hstop]
    push Not at hstop
    obtain ⟨g, hg, hpos⟩ := mag before.pos hbw.aligned hbw.start_le (by omega) hstop.2
    have hne : g.seq ≠ f.seq := fun heq =>
      hstop.1 (by rw [← hpos, inv.layout.seq_inj (inv.mem_frames hg) hfm heq])
    rw [(hlinked g.seq).mpr ⟨g, hg, hpos, rfl, hne⟩, Option.map_some, infoOf_seq inv (inv.mem_frames hg),
      ← hpos, (inv.held g hg).seq]

/-- An ID on a frame has a position. -/
theorem ShmRing.StandsOn.pos_ne (inv : RingInv N M r) (hN : M + 143 < N) (h : r.StandsOn info f) :
    info.uiPos ≠ 0 := by
  intro h0
  have hpos := h.pos
  have hst := (inv.wellPlaced hN (inv.mem_frames h.intact)).start_le
  rw [ShmRead.checkOverflowed, ShmRead.isInitState, h0] at hpos
  simp at hpos
  omega

/-- From an ID on a frame, or after the newest one, `MoveBack` follows the link. -/
theorem RingInv.moveBackLink_stands (inv : RingInv N M r) (mag : MagicInv N r) (hN : M + 143 < N)
    (hlen : r.frames.length < 2 ^ 30) (h : r.Stands info) :
    moveBackLink r.bytes info = (r.linked info.uiSeq).map r.infoOf := by
  rcases h with ⟨f, hf, hseq, hpos⟩ | ⟨hne, hseq, hpos⟩
  · have hfm := inv.mem_frames hf
    have hw := inv.wellPlaced hN hfm
    have hst := hw.start_le
    have hrange := inv.layout.seq_range hfm
    have hempty : ShmRead.isEmpty r.bytes = false := by
      rw [ShmRead.isEmpty, inv.newestSeq, decide_eq_false_iff_not]
      simp only [shmFrameInitialSequence_eq]
      omega
    have hinit : info.uiPos ≠ 0 := ShmRing.StandsOn.pos_ne inv hN ⟨hf, hseq, hpos⟩
    rw [moveBackLink_at hempty hinit (by rw [inv.newestSeq]; omega) hpos (inv.held f hf).magic,
      ← hseq]
    exact inv.linked_frame mag hN hf
  · obtain ⟨n, older, hfr⟩ := List.exists_cons_of_ne_nil hne
    have hn : n ∈ r.frames := hfr ▸ List.mem_cons_self
    have hns := inv.newest_seq hfr
    have hpositive : 0 < r.frames.length := List.length_pos_iff.mpr hne
    have hempty : ShmRead.isEmpty r.bytes = false := by
      rw [ShmRead.isEmpty, inv.newestSeq, decide_eq_false_iff_not]
      simp only [shmFrameInitialSequence_eq]
      omega
    have hinit : ¬ info.uiPos = shmFrameInitialPosition := by
      have hroom := (inv.layout.cursor_room hN).2.1
      rw [hpos, shmFrameInitialPosition_eq]
      omega
    have hlast : info.uiSeq = (headNewestFrameSeq r.bytes + 1) % 4294967296 := by
      rw [inv.newestSeq, hseq]
      omega
    have hmove : ShmRead.moveBack r.bytes info = (shmEnumOk, ⟨n.pos, n.seq⟩) := by
      rw [ShmRead.moveBack, hempty, if_neg Bool.false_ne_true, if_neg hinit, if_pos hlast,
        inv.newestPos_of_seq hn hns, inv.newestSeq, hns]
    have hlink : r.linked info.uiSeq = some n.seq :=
      linked_of_has inv ⟨n, inv.newest_intact hn hns, rfl⟩ (by omega)
    rw [moveBackLink, hmove, hlink, Option.map_some, infoOf_seq inv hn]
    rfl

theorem standsOn_infoOf (inv : RingInv N M r) (hf : f ∈ r.intact) :
    r.StandsOn (r.infoOf f.seq) f := by
  rw [infoOf_seq inv (inv.mem_frames hf)]
  exact ⟨hf, rfl, checkOverflowed_of_isFrame (inv.held f hf).magic⟩

/-- Among the frames of the ring the walks agree. -/
theorem RingInv.moveBackLink_infoOf (inv : RingInv N M r) (mag : MagicInv N r) (hN : M + 143 < N)
    (hlen : r.frames.length < 2 ^ 30) (h : r.Has q) :
    moveBackLink r.bytes (r.infoOf q) = (r.linked q).map r.infoOf := by
  obtain ⟨f, hf, rfl⟩ := h
  exact inv.moveBackLink_stands mag hN hlen (Or.inl ⟨f, standsOn_infoOf inv hf⟩)

theorem keyAt_infoOf (inv : RingInv N M r) (h : r.Has q) :
    KeyAt r.bytes (r.infoOf q) ↔ r.HasKey q := by
  obtain ⟨f, hf, rfl⟩ := h
  have hflag : extrasKeyFrameFlag (frameExtras r.bytes f.pos) = extrasKeyFrameFlag f.extras :=
    (inv.held f hf).extras 19 (by decide)
  rw [KeyAt, infoOf_seq inv (inv.mem_frames hf), hflag]
  constructor
  · exact fun hkey => ⟨f, hf, rfl, hkey⟩
  · rintro ⟨g, hg, hseq, hkey⟩
    rwa [← inv.layout.seq_inj (inv.mem_frames hg) (inv.mem_frames hf) hseq]

/-- The walk from an ID goes along the links. -/
theorem RingInv.walk_stands (inv : RingInv N M r) (mag : MagicInv N r) (hN : M + 143 < N)
    (hlen : r.frames.length < 2 ^ 30) (h : r.Stands info) (k : ℕ) :
    LinkSearch.walk (moveBackLink r.bytes) (k + 1) info
      = (LinkSearch.walk r.linked (k + 1) info.uiSeq).map r.infoOf := by
  rw [LinkSearch.walk, LinkSearch.walk, inv.moveBackLink_stands mag hN hlen h]
  cases hlink : r.linked info.uiSeq with
  | none => rfl
  | some q =>
    exact LinkSearch.walk_map (P := r.Has) (fun _ _ _ h => (linked_cases inv h).1)
      (fun _ h => inv.moveBackLink_infoOf mag hN hlen h) (linked_cases inv hlink).1 k

theorem backNLoop_succ (m : Mem) (n : ℕ) (info : ShmInfo) :
    backNLoop m true (n + 1) info
      = if (ShmRead.moveBack m info).1 < 0 then (n + 1, (ShmRead.moveBack m info).2)
        else backNLoop m true n (ShmRead.moveBack m info).2 := rfl

/-- The loop without the key flag walks along the links. -/
theorem backNLoop_of_walk {m : Mem} {n : ℕ} {info info' : ShmInfo}
    (h : LinkSearch.walk (moveBackLink m) n info = some info') :
    backNLoop m true n info = (0, info') := by
  induction n generalizing info with
  | zero =>
    cases h
    rfl
  | succ n ih =>
    obtain ⟨next, hnext, h⟩ := Option.bind_eq_some_iff.mp h
    obtain ⟨hok, hmove⟩ := moveBack_of_link_some hnext
    rw [backNLoop_succ, if_neg hok, hmove]
    exact ih h

theorem backNLoop_of_end {m : Mem} {n : ℕ} {info : ShmInfo}
    (h : LinkSearch.walk (moveBackLink m) n info = none) : (backNLoop m true n info).1 ≠ 0 := by
  induction n generalizing info with
  | zero => cases h
  | succ n ih =>
    rw [backNLoop_succ]
    cases hnext : moveBackLink m info with
    | none =>
      rw [if_pos (moveBack_of_link_none hnext)]
      exact Nat.succ_ne_zero n
    | some next =>
      obtain ⟨hok, hmove⟩ := moveBack_of_link_some hnext
      rw [LinkSearch.walk, hnext, Option.bind_some] at h
      rw [if_neg hok, hmove]
      exact ih h

/-- Going down through frames of the ring, the search meets their key frames. -/
theorem hits_of_has (inv : RingInv N M r) (k : ℕ) (hk : k ≤ q)
    (h : ∀ p, q - k ≤ p → p ≤ q → r.Has p) :
    LinkSearch.hits r.linked r.HasKey k q
      = (List.range (q + 1)).countP fun p => q - k < p ∧ r.HasKey p := by
  induction k generalizing q with
  | zero =>
    rw [LinkSearch.hits, Eq.comm, List.countP_eq_zero]
    intro p hp
    have := List.mem_range.mp hp
    simp
    omega
  | succ k ih =>
    obtain ⟨q, rfl⟩ : ∃ p, q = p + 1 := ⟨q - 1, by omega⟩
    have hlink : r.linked (q + 1) = some q := linked_of_has inv (h q (by omega) (by omega)) rfl
    have hrest := ih (q := q) (by omega) fun p h₁ h₂ => h p (by omega) (by omega)
    rw [LinkSearch.hits, hlink, Option.map_some, Option.getD_some, hrest, List.range_succ (n := q + 1),
      List.countP_append, List.countP_singleton, Nat.add_sub_add_right, Nat.add_comm]
    have hlast : q - k < q + 1 := by omega
    simp [hlast]

/-! ## What a call does -/

section Call

variable (inv : RingInv N M r) (mag : MagicInv N r) (hN : M + 143 < N)
  (hlen : r.frames.length < 2 ^ 30) (hs : r.Stands info)

include inv mag hN hlen hs

/-- Without the key flag the call walks as many links. -/
theorem shmBackNFrame_plain (fuel : ℕ) (junk : ℕ → UInt8) {n : ℕ} (hn : n ≠ 0) :
    shmBackNFrame r.bytes fuel junk n false info
      = some (match LinkSearch.walk r.linked n info.uiSeq with
        | some x => (shmEnumOk, r.infoOf x)
        | none => (shmEnumError, info)) := by
  have hpos : (n : ℤ) > 0 := by omega
  rw [shmBackNFrame, shmBackNFrameNolock, if_pos hpos, if_neg Bool.false_ne_true, Int.toNat_natCast]
  obtain ⟨k, rfl⟩ := Nat.exists_eq_succ_of_ne_zero hn
  have hwalk := inv.walk_stands mag hN hlen hs k
  cases hend : LinkSearch.walk r.linked (k + 1) info.uiSeq with
  | none =>
    rw [hend, Option.map_none] at hwalk
    simp [backNLoop_of_end hwalk]
  | some x =>
    rw [hend, Option.map_some] at hwalk
    simp [backNLoop_of_walk hwalk]

/-- With the key flag it searches along the links. -/
theorem shmBackNFrame_key (fuel : ℕ) (junk : ℕ → UInt8) {n : ℕ} (hn : n ≠ 0) :
    shmBackNFrame r.bytes (fuel + 1) junk n true info
      = match r.linked info.uiSeq with
        | none => some (shmEnumError, info)
        | some q => (LinkSearch.search r.linked r.HasKey fuel n q).map fun e =>
            backNResult info (e.1, r.infoOf e.2) := by
  rw [shmBackNFrame, shmBackNFrameNolock_eq inv.isFrame_newest fuel junk (by omega),
    inv.moveBackLink_stands mag hN hlen hs]
  cases hlink : r.linked info.uiSeq with
  | none => rfl
  | some q =>
    have hsearch : LinkSearch.search (moveBackLink r.bytes) (KeyAt r.bytes) fuel n (r.infoOf q)
        = (LinkSearch.search r.linked r.HasKey fuel n q).map fun e => (e.1, r.infoOf e.2) :=
      LinkSearch.search_map (P := r.Has) (fun _ _ _ h => (linked_cases inv h).1)
        (fun _ h => inv.moveBackLink_infoOf mag hN hlen h) (fun _ h => keyAt_infoOf inv h)
        (linked_cases inv hlink).1 fuel n
    rw [Option.map_some]
    dsimp only
    rw [Int.toNat_natCast, hsearch, Option.map_map]
    rfl

/-- A key frame that the search comes to with as many steps is where the call ends. -/
theorem shmBackNFrame_found (junk : ℕ → UInt8) {n k x : ℕ} (hn : n ≠ 0)
    (hlink : r.linked info.uiSeq = some q) (hwalk : LinkSearch.walk r.linked k q = some x)
    (hkey : r.HasKey x) (hcount : LinkSearch.hits r.linked r.HasKey k q + 1 = n) :
    shmBackNFrame r.bytes (k + 2) junk n true info = some (shmEnumOk, r.infoOf x) := by
  rw [shmBackNFrame_key inv mag hN hlen hs (k + 1) junk hn, hlink]
  dsimp only
  rw [LinkSearch.search_of_hits hwalk hkey hcount]
  rfl

/-- Where the links end, so does the call. -/
theorem shmBackNFrame_end (junk : ℕ → UInt8) {n : ℕ} (hn : n ≠ 0)
    (hend : r.LinksEnd info.uiSeq n true) :
    ∃ fuel, shmBackNFrame r.bytes fuel junk n true info = some (shmEnumError, info) := by
  obtain ⟨k, hwalk, hcount⟩ := hend
  refine ⟨k + 1, ?_⟩
  rw [shmBackNFrame_key inv mag hN hlen hs k junk hn]
  cases hlink : r.linked info.uiSeq with
  | none => rfl
  | some q =>
    rw [LinkSearch.walk, hlink, Option.bind_some] at hwalk
    obtain ⟨left, x, hleft, hsearch⟩ := LinkSearch.search_of_end hwalk (hcount q hlink)
    dsimp only
    rw [hsearch, Option.map_some, backNResult, if_neg hleft]

/-- A call with the key flag that returns has found its key frame, or come to the end. -/
theorem shmBackNFrame_returned {fuel n : ℕ} {junk : ℕ → UInt8} {rtn : ℤ} {info' : ShmInfo}
    (hn : n ≠ 0) (h : shmBackNFrame r.bytes fuel junk n true info = some (rtn, info')) :
    (rtn = shmEnumOk ∧ ∃ k x, LinkSearch.walk r.linked (k + 1) info.uiSeq = some x
        ∧ info' = r.infoOf x)
      ∨ rtn = shmEnumError ∧ r.LinksEnd info.uiSeq n true := by
  have hpos : 0 < n := Nat.pos_of_ne_zero hn
  obtain ⟨fuel, rfl⟩ : ∃ k, fuel = k + 1 := by
    cases fuel with
    | zero =>
      have hint : (n : ℤ) > 0 := by omega
      rw [shmBackNFrame, shmBackNFrameNolock, if_pos hint] at h
      cases h
    | succ k => exact ⟨k, rfl⟩
  rw [shmBackNFrame_key inv mag hN hlen hs fuel junk hn] at h
  cases hlink : r.linked info.uiSeq with
  | none =>
    rw [hlink] at h
    cases h
    refine Or.inr ⟨rfl, 0, ?_, fun q hq => ?_⟩
    · rw [LinkSearch.walk, hlink]
      rfl
    · rw [hlink] at hq
      cases hq
  | some q =>
    rw [hlink] at h
    obtain ⟨⟨left, x⟩, hsearch, h⟩ := Option.map_eq_some_iff.mp h
    have hstep : ∀ k, LinkSearch.walk r.linked (k + 1) info.uiSeq = LinkSearch.walk r.linked k q := by
      intro k
      rw [LinkSearch.walk, hlink, Option.bind_some]
    by_cases hleft : left = 0
    · subst hleft
      obtain ⟨k, hwalk, -, -⟩ := LinkSearch.search_hits hpos hsearch
      cases h
      exact Or.inl ⟨rfl, k, x, (hstep k).trans hwalk, rfl⟩
    · obtain ⟨k, hwalk, hcount⟩ := LinkSearch.search_left hpos hleft hsearch
      rw [backNResult, if_neg hleft] at h
      cases h
      refine Or.inr ⟨rfl, k, (hstep k).trans hwalk, fun q' hq' => ?_⟩
      rw [hlink] at hq'
      cases hq'
      exact hcount

end Call

/-! ## Exact or without effect -/

theorem ShmRing.Stands.seq_le (inv : RingInv N M r) (h : r.Stands info) :
    info.uiSeq ≤ r.frames.length + 1 := by
  rcases h with ⟨f, hf, hseq, -⟩ | ⟨-, hseq, -⟩
  · have := inv.layout.seq_range (inv.mem_frames hf)
    omega
  · omega

/-- If all frames down to the target are in the ring, the links lead to it. -/
theorem links_to_target (inv : RingInv N M r) {n : ℕ} {iKeyFlag : Bool}
    (htarget : r.IsBackTarget s n iKeyFlag f) (hhas : ∀ q, f.seq ≤ q → q < s → r.Has q) :
    if iKeyFlag then ∃ q k, r.linked s = some q ∧ LinkSearch.walk r.linked k q = some f.seq
        ∧ r.HasKey f.seq ∧ LinkSearch.hits r.linked r.HasKey k q + 1 = n
      else LinkSearch.walk r.linked n s = some f.seq := by
  obtain ⟨hf, hbelow, hsteps⟩ := htarget
  cases iKeyFlag with
  | false =>
    have hsum : f.seq + n = s := hsteps
    have hwalk := walk_of_has inv n (s := s) (by omega) fun q h₁ h₂ => hhas q (by omega) h₂
    rwa [show s - n = f.seq by omega] at hwalk
  | true =>
    obtain ⟨hkey, hcount⟩ :
      f.IsKey ∧ ((List.range s).countP fun q => f.seq < q ∧ r.HasKey q) + 1 = n := hsteps
    have hlink : r.linked s = some (s - 1) :=
      linked_of_has inv (hhas (s - 1) (by omega) (by omega)) (by omega)
    have hwalk := walk_of_has inv (s - 1 - f.seq) (s := s - 1) (by omega)
      fun q h₁ h₂ => hhas q (by omega) (by omega)
    have hhits := hits_of_has inv (s - 1 - f.seq) (q := s - 1) (by omega)
      fun q h₁ h₂ => hhas q (by omega) (by omega)
    have hdown : s - 1 - (s - 1 - f.seq) = f.seq := by omega
    have hup : s - 1 + 1 = s := by omega
    rw [hdown] at hwalk
    rw [hdown, hup] at hhits
    exact ⟨s - 1, s - 1 - f.seq, hlink, hwalk, ⟨f, hf, rfl, hkey⟩, hhits ▸ hcount⟩

/-- Where the links end, the target or a later frame is no longer in the ring. -/
theorem not_linksEnd_of_target (inv : RingInv N M r) {n : ℕ} (hn : n ≠ 0) {iKeyFlag : Bool}
    (htarget : r.IsBackTarget s n iKeyFlag f) (hhas : ∀ q, f.seq ≤ q → q < s → r.Has q) :
    ¬ r.LinksEnd s n iKeyFlag := by
  intro hend
  have hlinks := links_to_target inv htarget hhas
  cases iKeyFlag with
  | false =>
    have hwalk : LinkSearch.walk r.linked n s = some f.seq := hlinks
    rw [show LinkSearch.walk r.linked n s = none from hend] at hwalk
    cases hwalk
  | true =>
    obtain ⟨q, k, hlink, hwalk, hkey, hcount⟩ := hlinks
    obtain ⟨k', hnone, hfew⟩ := hend
    rw [LinkSearch.walk, hlink, Option.bind_some] at hnone
    have hfew := hfew q hlink
    -- the walk to the target is shorter than the one that ends, and meets as many key frames
    have hlt : k < k' := by
      by_contra hle
      have hsome := LinkSearch.walk_of_le (Nat.le_of_not_lt hle) (by rw [hwalk]; rfl)
      rw [hnone] at hsome
      cases hsome
    obtain ⟨d, rfl⟩ := Nat.exists_eq_add_of_lt hlt
    rw [Nat.add_assoc, LinkSearch.hits_add hwalk, LinkSearch.hits, if_pos hkey] at hfew
    omega

section Call

variable (inv : RingInv N M r) (mag : MagicInv N r) (hN : M + 143 < N)
  (hlen : r.frames.length < 2 ^ 30) (hs : r.Stands info)

include inv mag hN hlen hs

/-- A call that returns has walked some links, or come to their end. -/
theorem shmBackNFrame_cases {fuel n : ℕ} {junk : ℕ → UInt8} {iKeyFlag : Bool} {rtn : ℤ}
    {info' : ShmInfo} (hn : n ≠ 0)
    (h : shmBackNFrame r.bytes fuel junk n iKeyFlag info = some (rtn, info')) :
    (rtn = shmEnumOk ∧ ∃ k x, LinkSearch.walk r.linked k info.uiSeq = some x ∧ info' = r.infoOf x)
      ∨ rtn = shmEnumError ∧ r.LinksEnd info.uiSeq n iKeyFlag := by
  cases iKeyFlag with
  | false =>
    rw [shmBackNFrame_plain inv mag hN hlen hs fuel junk hn] at h
    cases hwalk : LinkSearch.walk r.linked n info.uiSeq with
    | none =>
      rw [hwalk] at h
      cases h
      exact Or.inr ⟨rfl, hwalk⟩
    | some x =>
      rw [hwalk] at h
      cases h
      exact Or.inl ⟨rfl, n, x, hwalk, rfl⟩
  | true =>
    rcases shmBackNFrame_returned inv mag hN hlen hs hn h with ⟨hok, k, x, hwalk, hinfo⟩ | hend
    · exact Or.inl ⟨hok, k + 1, x, hwalk, hinfo⟩
    · exact Or.inr hend

/-- If the frames down to the target are in the ring, the call ends on it. -/
theorem shmBackNFrame_target (junk : ℕ → UInt8) {n : ℕ} {iKeyFlag : Bool} (hn : n ≠ 0)
    (htarget : r.IsBackTarget info.uiSeq n iKeyFlag f)
    (hhas : ∀ q, f.seq ≤ q → q < info.uiSeq → r.Has q) :
    ∃ fuel, shmBackNFrame r.bytes fuel junk n iKeyFlag info = some (shmEnumOk, r.infoOf f.seq) := by
  have hlinks := links_to_target inv htarget hhas
  cases iKeyFlag with
  | false =>
    have hwalk : LinkSearch.walk r.linked n info.uiSeq = some f.seq := hlinks
    refine ⟨0, ?_⟩
    rw [shmBackNFrame_plain inv mag hN hlen hs 0 junk hn, hwalk]
  | true =>
    obtain ⟨q, k, hlink, hwalk, hkey, hcount⟩ := hlinks
    exact ⟨k + 2, shmBackNFrame_found inv mag hN hlen hs junk hn hlink hwalk hkey hcount⟩

/-- If the links end before, the call has no effect. -/
theorem shmBackNFrame_linksEnd (junk : ℕ → UInt8) {n : ℕ} {iKeyFlag : Bool} (hn : n ≠ 0)
    (hend : r.LinksEnd info.uiSeq n iKeyFlag) :
    ∃ fuel, shmBackNFrame r.bytes fuel junk n iKeyFlag info = some (shmEnumError, info) := by
  cases iKeyFlag with
  | false =>
    have hwalk : LinkSearch.walk r.linked n info.uiSeq = none := hend
    refine ⟨0, ?_⟩
    rw [shmBackNFrame_plain inv mag hN hlen hs 0 junk hn, hwalk]
  | true => exact shmBackNFrame_end inv mag hN hlen hs junk hn hend

end Call

/-- **Moving back is exact** or has no effect, if all frames it is to pass are in the ring, or the
links end before it is done; and not otherwise. -/
theorem back_exact_iff (old : Mem) (pcHeaderInfo : ℕ → UInt8) {iShmSize iMaxFrameSize : ℕ}
    (hsize : shmSizeOfShmHead + iMaxFrameSize + 2 * shmSizeOfFrameHead + 3 < iShmSize)
    (hmax : iShmSize ≤ shmFrameMagicNum) (calls : List WriteCall) :
    let r := (ShmRing.create old iShmSize iMaxFrameSize pcHeaderInfo).run calls
    (∀ c ∈ calls, c.NoMagic) → r.frames.length < 2 ^ 30 →
    ∀ info, r.Stands info → ∀ n iKeyFlag,
      r.BacksExactly info n iKeyFlag ↔ r.MeetsBack info.uiSeq n iKeyFlag := by
  intro r hmagic hlen info hs n iKeyFlag
  have hN : iMaxFrameSize + 143 < iShmSize := by
    simp only [shmSizeOfShmHead_eq, shmSizeOfFrameHead_eq] at hsize
    omega
  have hN' : iShmSize < 2147483648 := by
    rw [shmFrameMagicNum_eq] at hmax
    omega
  have inv : RingInv iShmSize iMaxFrameSize r :=
    ringInv_run old pcHeaderInfo hN hN' (lt_trans hlen (by norm_num))
  have mag : MagicInv iShmSize r := magicInv_run old pcHeaderInfo hN hmax hmagic hlen
  have hle := hs.seq_le inv
  by_cases hn : n = 0
  · subst hn
    exact ⟨fun _ => Or.inl rfl, fun _ junk => ⟨0, shmEnumOk, info, rfl, Or.inl ⟨le_rfl, rfl⟩⟩⟩
  constructor
  · intro h
    obtain ⟨fuel, rtn, info', hcall, hcase⟩ := h fun _ => 0
    right
    rcases hcase with ⟨hok, htarget⟩ | ⟨herr, -, -⟩
    · rw [if_neg hn] at htarget
      obtain ⟨f, htarget, hstands⟩ := htarget
      rcases shmBackNFrame_cases inv mag hN hlen hs hn hcall with
        ⟨-, k, x, hwalk, rfl⟩ | ⟨rfl, -⟩
      · have hwalked := hwalk.trans (congrArg some hstands.seq.symm)
        exact Or.inl ⟨f, htarget, intact_of_walk inv hwalked⟩
      · exact absurd hok (by decide)
    · rcases shmBackNFrame_cases inv mag hN hlen hs hn hcall with ⟨rfl, -⟩ | ⟨-, hend⟩
      · exact absurd herr (by decide)
      · exact Or.inr hend
  · rintro (h0 | ⟨f, htarget, hhas⟩ | hend) junk
    · exact absurd h0 hn
    · obtain ⟨fuel, hcall⟩ := shmBackNFrame_target inv mag hN hlen hs junk hn htarget hhas
      refine ⟨fuel, shmEnumOk, r.infoOf f.seq, hcall, Or.inl ⟨le_rfl, ?_⟩⟩
      rw [if_neg hn]
      exact ⟨f, htarget, standsOn_infoOf inv htarget.intact⟩
    · obtain ⟨fuel, hcall⟩ := shmBackNFrame_linksEnd inv mag hN hlen hs junk hn hend
      refine ⟨fuel, shmEnumError, info, hcall, Or.inr ⟨by decide, rfl, fun f htarget => ?_⟩⟩
      by_contra hall
      push Not at hall
      exact not_linksEnd_of_target inv hn htarget (fun q h₁ h₂ => hall q h₁ (by omega)) hend

/-- From the frame after it, one step back to a key frame. -/
theorem back_exact_small :
    ((ShmRing.create (fun _ => 0) 500 100 fun _ => 3).run [keyCall, deltaCall]).BacksExactly
      ⟨196, 2⟩ 1 true :=
  (back_exact_iff (fun _ => 0) (fun _ => 3) (by decide) (by decide) [keyCall, deltaCall]
    (fun c hc => by
      rcases List.mem_pair.mp hc with rfl | rfl
      · exact ⟨fun _ _ _ => show (1 : UInt8) ≠ 0x7C by decide,
          fun _ _ _ => show (1 : UInt8) ≠ 0x7C by decide⟩
      · exact ⟨fun _ _ _ => show (1 : UInt8) ≠ 0x7C by decide,
          fun _ _ _ => show (0 : UInt8) ≠ 0x7C by decide⟩)
    (by decide +kernel) ⟨196, 2⟩
    (by
      obtain ⟨g, hg, hseq, hpos⟩ : ∃ g ∈ ((ShmRing.create (fun _ => 0) 500 100 fun _ => 3).run
          [keyCall, deltaCall]).intact, g.seq = 2 ∧ g.pos = 196 := by decide +kernel
      exact Or.inl ⟨g, hg, hseq, Eq.trans (by decide +kernel) hpos.symm⟩)
    1 true).mpr (by
      obtain ⟨f, hf, hseq, hkey⟩ : ∃ f ∈ ((ShmRing.create (fun _ => 0) 500 100 fun _ => 3).run
          [keyCall, deltaCall]).intact, f.seq = 1 ∧ f.IsKey := by decide +kernel
      refine Or.inr (Or.inl ⟨f, ⟨hf, by rw [hseq]; decide, ?_⟩, fun q h₁ h₂ => ⟨f, hf, ?_⟩⟩)
      · rw [if_pos rfl, hseq]
        exact ⟨hkey, by decide +kernel⟩
      · dsimp only at h₂
        omega)

/-- The third frame is put where the first one was, and one step back from the second ends on the
third. -/
theorem back_not_exact :
    let r := (ShmRing.create (fun _ => 0) 500 200 fun _ => 3).run loopCalls
    (∀ c ∈ loopCalls, c.NoMagic) ∧ r.frames.length < 2 ^ 30 ∧ r.Stands ⟨296, 2⟩
      ∧ (∀ fuel junk, shmBackNFrame r.bytes fuel junk 1 false ⟨296, 2⟩
        = some (shmEnumOk, ⟨52, 3⟩))
      ∧ ¬ r.BacksExactly ⟨296, 2⟩ 1 false := by
  intro r
  have hmove : ∀ fuel junk, shmBackNFrame r.bytes fuel junk 1 false ⟨296, 2⟩
      = some (shmEnumOk, ⟨52, 3⟩) := by
    intro fuel junk
    rw [shmBackNFrame, shmBackNFrameNolock, if_pos (by decide), if_neg Bool.false_ne_true]
    decide +kernel
  refine ⟨fun c hc => ?_, by decide +kernel, Or.inl ?_, hmove, fun h => ?_⟩
  · have hzero : c.pcBuf = (fun _ => 0) ∧ c.pcExtras = fun _ => 0 := by
      simp only [loopCalls, List.mem_cons, List.not_mem_nil, or_false] at hc
      rcases hc with rfl | rfl | rfl <;> exact ⟨rfl, rfl⟩
    have hne : (0 : UInt8) ≠ 0x7C := by decide
    exact ⟨fun _ _ _ => by rwa [hzero.1], fun _ _ _ => by rwa [hzero.2]⟩
  · obtain ⟨g, hg, hseq, hpos⟩ : ∃ g ∈ r.intact, g.seq = 2 ∧ g.pos = 296 := by decide +kernel
    exact ⟨g, hg, hseq, Eq.trans (by decide +kernel) hpos.symm⟩
  · obtain ⟨fuel, rtn, info', hcall, ⟨-, hland⟩ | ⟨herr, -⟩⟩ := h fun _ => 0
    · rw [if_neg Nat.one_ne_zero] at hland
      obtain ⟨f, htarget, hstands⟩ := hland
      have hsteps : f.seq + 1 = 2 := htarget.steps
      rw [Nat.cast_one, hmove] at hcall
      cases hcall
      have hseq : f.seq = 3 := hstands.seq
      omega
    · rw [Nat.cast_one, hmove] at hcall
      cases hcall
      exact absurd herr (by decide)
