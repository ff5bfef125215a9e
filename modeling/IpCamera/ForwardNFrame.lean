/-
# Moving forward along the links (`SHM_ForwardNFrame`)

`MoveForward` reads the frame at the ID without taking it.  As long as the frames from the ID up
to the newest one are in the ring, it goes from each to the one written next, and after the newest
one it stops (`moveForward_stands`, `moveForward_newest`).

The number of key frames from `s` on, `keysFrom`, says how far the search for them comes
(`backNKeyLoop_forward`), and both modes are exact (`forward_exact`).
-/
import IpCamera.BackNFrame

/-! ## What moving forward should do -/

namespace ShmRing

/-- All frames from number `s` up to the newest one are in the ring. -/
def HasFrom (r : ShmRing) (s : ℕ) : Prop := ∀ q, s ≤ q → q ≤ r.frames.length → r.Has q

/-- The number of key frames among the `k` frames from number `s` on. -/
def keysFrom (r : ShmRing) (s k : ℕ) : ℕ := (List.range' s k).countP fun q => r.HasKey q

/-- There are `n` frames from number `s` on, or `n` key frames above it. -/
def CanForward (r : ShmRing) (s n : ℕ) (iKeyFlag : Bool) : Prop :=
  if iKeyFlag then n ≤ r.keysFrom (s + 1) (r.frames.length - s) else n ≤ r.frames.length - s + 1

/-- The next read of the ID hands out the frame, which is a key frame. -/
def ReadsKeyNext (r : ShmRing) (info : ShmInfo) (f : FrameRecord) : Prop :=
  ∀ (fuel : ℕ) (junk : ℕ → UInt8) (enumMType : ShmMediaType) (bufLen : ℤ), f.len ≤ bufLen →
    ∃ info', shmReadFrameWithExtras r.bytes fuel junk enumMType bufLen info
      = some (if enumMType = .video then shmEnumGetANewKeyFrame else shmEnumGetANewFrame,
        some f.data, info')

/-- The ID has gone `n` frames forward from number `s`, after the newest one if there is no other,
or to the `n`-th key frame above. -/
def Forwarded (r : ShmRing) (s n : ℕ) (iKeyFlag : Bool) (info : ShmInfo) : Prop :=
  if iKeyFlag then ∃ f, r.StandsOn info f ∧ f.IsKey ∧ s < f.seq
      ∧ r.keysFrom (s + 1) (f.seq - s) = n ∧ r.ReadsKeyNext info f
    else r.Stands info ∧ info.uiSeq = s + n

/-- The call returns, whatever the stack holds, with enough iterations for the frames above `s`.
It succeeds if there are as many frames, and otherwise fails and changes nothing. -/
def ForwardsExactly (r : ShmRing) (info : ShmInfo) (n : ℕ) (iKeyFlag : Bool) : Prop :=
  ∀ (junk : ℕ → UInt8) (fuel : ℕ), r.frames.length - info.uiSeq + 2 ≤ fuel →
    ∃ rtn info', shmForwardNFrame r.bytes fuel junk n iKeyFlag info = some (rtn, info')
      ∧ (r.CanForward info.uiSeq n iKeyFlag → rtn = shmEnumOk
        ∧ r.Forwarded info.uiSeq n iKeyFlag info')
      ∧ (¬ r.CanForward info.uiSeq n iKeyFlag → rtn = shmEnumError ∧ info' = info)

end ShmRing

variable {N M : ℕ} {r : ShmRing} {info : ShmInfo} {f : FrameRecord} {s n : ℕ}

theorem ShmRing.HasFrom.mono (h : r.HasFrom s) {q : ℕ} (hle : s ≤ q) : r.HasFrom q :=
  fun p h₁ h₂ => h p (hle.trans h₁) h₂

theorem ShmRing.keysFrom_succ (r : ShmRing) (s k : ℕ) :
    r.keysFrom s (k + 1) = r.keysFrom (s + 1) k + if r.HasKey s then 1 else 0 := by
  rw [ShmRing.keysFrom, List.range'_succ, List.countP_cons, ShmRing.keysFrom]
  simp

/-! ## One move -/

/-- After an intact frame the ID stands on the next one, or after the newest one. -/
theorem RingInv.stands_next (inv : RingInv N M r) (hf : f ∈ r.intact) (h : r.HasFrom f.seq) :
    r.Stands ⟨frameNextPos r.bytes f.pos, f.seq + 1⟩ := by
  have hfm := inv.mem_frames hf
  have hrange := inv.layout.seq_range hfm
  rcases Nat.lt_or_ge f.seq r.frames.length with hlt | hge
  · obtain ⟨g, hg, hseq⟩ := h (f.seq + 1) (by omega) hlt
    have hlink := inv.nextLink f hf g (inv.mem_frames hg) hseq
    refine Or.inl ⟨g, hg, hseq, ?_⟩
    rw [hlink]
    exact checkOverflowed_of_isFrame (inv.held g hg).magic
  · have hseq : f.seq = r.frames.length := by omega
    refine Or.inr ⟨List.ne_nil_of_mem hfm, by rw [hseq], ?_⟩
    exact (inv.lastLink f hfm hseq).trans (inv.cursor_of_seq hfm hseq).symm

/-- An ID whose number is that of a key frame stands on it. -/
theorem ShmRing.Stands.standsOn_of_hasKey (inv : RingInv N M r) (h : r.Stands info)
    (hkey : r.HasKey info.uiSeq) : ∃ f, r.StandsOn info f ∧ f.IsKey := by
  obtain ⟨g, hg, hseq, hkey⟩ := hkey
  rcases h with ⟨f, hf⟩ | ⟨-, hlast, -⟩
  · obtain rfl : f = g :=
      inv.layout.seq_inj (inv.mem_frames hf.intact) (inv.mem_frames hg) (hf.seq.trans hseq.symm)
    exact ⟨f, hf, hkey⟩
  · have := inv.layout.seq_range (inv.mem_frames hg)
    omega

section Move

variable (inv : RingInv N M r) (hN : M + 143 < N) (hlen : r.frames.length < 4294967294)

include inv

/-- After the newest frame the ID stays. -/
theorem moveForward_newest (h : r.Stands info) (hle : ¬ info.uiSeq ≤ r.frames.length) :
    ShmRead.moveForward r.bytes info = (-1, info) := by
  rcases h with ⟨f, hf, hseq, -⟩ | ⟨hne, hseq, -⟩
  · have := inv.layout.seq_range (inv.mem_frames hf)
    omega
  · have hpos : 0 < r.frames.length := List.length_pos_iff.mpr hne
    have hempty : headNewestFrameSeq r.bytes ≠ 0 := by
      rw [inv.newestSeq]
      omega
    rw [← inv.newestSeq] at hseq
    rw [ShmRead.moveForward, readFrame_noNewFrame hempty hseq false (headMaxFrameSize r.bytes)]
    rfl

include hN hlen

theorem moveForward_on (h : r.StandsOn info f) :
    ShmRead.moveForward r.bytes info = (0, ⟨frameNextPos r.bytes f.pos, f.seq + 1⟩) := by
  have hrange := inv.layout.seq_range (inv.mem_frames h.intact)
  have hle : (f.len : ℤ) ≤ headMaxFrameSize r.bytes := by
    rw [inv.maxFrameSize]
    exact inv.len_le hN h.intact
  have hread := inv.readFrame_steps hN hlen h.intact (h.seq ▸ hrange.2) h.pos hle false
  rw [ShmRead.moveForward, hread]
  rfl

/-- Below the newest frame the ID goes one frame forward. -/
theorem moveForward_stands (h : r.Stands info) (hall : r.HasFrom info.uiSeq)
    (hle : info.uiSeq ≤ r.frames.length) :
    ∃ info', ShmRead.moveForward r.bytes info = (0, info') ∧ r.Stands info'
      ∧ info'.uiSeq = info.uiSeq + 1 := by
  rcases h with ⟨f, hf⟩ | ⟨-, hseq, -⟩
  · rw [← hf.seq] at hall
    exact ⟨_, moveForward_on inv hN hlen hf, inv.stands_next hf.intact hall,
      congrArg Nat.succ hf.seq⟩
  · omega

/-- The extras tell whether the ID stands on a key frame. -/
theorem getExtras_stands (h : r.Stands info) (junk : ℕ → UInt8) :
    extrasKeyFrameFlag (ShmRead.getExtras r.bytes junk info).2 = shmVideoFrameTypeKey
      ↔ r.HasKey info.uiSeq := by
  rcases h with ⟨f, hf, hseq, hpos⟩ | ⟨hne, hseq, hpos⟩
  · have hflag : extrasKeyFrameFlag (frameExtras r.bytes f.pos) = extrasKeyFrameFlag f.extras :=
      (inv.held f hf).extras 19 (by decide)
    rw [ShmRead.getExtras, hpos, if_pos (inv.held f hf).magic, hflag]
    constructor
    · exact fun hkey => ⟨f, hf, hseq, hkey⟩
    · rintro ⟨g, hg, hgs, hkey⟩
      rwa [inv.layout.seq_inj (inv.mem_frames hf) (inv.mem_frames hg) (hseq.trans hgs.symm)]
  · have hgone : ∀ g ∈ r.intact, g.seq ≠ info.uiSeq := by
      intro g hg heq
      have := inv.layout.seq_range (inv.mem_frames hg)
      omega
    have hstay : ShmRead.checkOverflowed r.bytes info = info.uiPos :=
      inv.checkOverflowed_gone hN (by omega) hgone
    have hno : ¬ IsFrame r.bytes info.uiPos := by
      rw [hpos]
      exact inv.not_isFrame_cursor
    have hlast : info.uiSeq = (headNewestFrameSeq r.bytes + 1) % 4294967296 := by
      rw [inv.newestSeq, hseq]
      omega
    rw [ShmRead.getExtras, hstay, if_neg hno, if_pos hlast]
    constructor
    · exact fun hkey => absurd hkey (by decide)
    · rintro ⟨g, hg, hgs, -⟩
      exact absurd hgs (hgone g hg)

/-! ## The loops -/

theorem backNLoop_forward (n : ℕ) (h : r.Stands info) (hall : r.HasFrom info.uiSeq)
    (hle : info.uiSeq + n ≤ r.frames.length + 1) :
    ∃ info', backNLoop r.bytes false n info = (0, info') ∧ r.Stands info'
      ∧ info'.uiSeq = info.uiSeq + n := by
  induction n generalizing info with
  | zero => exact ⟨info, rfl, h, rfl⟩
  | succ n ih =>
    obtain ⟨next, hmove, hnext, hseq⟩ :=
      moveForward_stands inv hN hlen h hall (by omega)
    obtain ⟨info', hloop, hstands, hseq'⟩ := ih hnext (hall.mono (by omega)) (by omega)
    refine ⟨info', ?_, hstands, by omega⟩
    rw [backNLoop, if_neg Bool.false_ne_true, hmove]
    exact hloop

theorem backNLoop_newest (n : ℕ) (h : r.Stands info) (hall : r.HasFrom info.uiSeq)
    (hgt : r.frames.length + 1 < info.uiSeq + n) : (backNLoop r.bytes false n info).1 ≠ 0 := by
  induction n generalizing info with
  | zero =>
    have := h.seq_le inv
    omega
  | succ n ih =>
    rw [backNLoop, if_neg Bool.false_ne_true]
    by_cases hle : info.uiSeq ≤ r.frames.length
    · obtain ⟨next, hmove, hnext, hseq⟩ := moveForward_stands inv hN hlen h hall hle
      rw [hmove]
      exact ih hnext (hall.mono (by omega)) (by omega)
    · rw [moveForward_newest inv h hle]
      exact Nat.succ_ne_zero n

/-- One round of the search, once the ID has moved. -/
theorem backNKeyLoop_round (h : r.Stands info) (fuel c : ℕ) (junk : ℕ → UInt8) (hn : n ≠ 0) :
    let n' := if r.HasKey info.uiSeq then n - 1 else n
    backNKeyLoop r.bytes false (fuel + 1) n (c + 1) junk info
      = if r.HasKey info.uiSeq ∧ n' = 0 then some (n', info)
        else if (ShmRead.moveForward r.bytes info).1 < 0 then
          some (n', (ShmRead.moveForward r.bytes info).2)
        else backNKeyLoop r.bytes false fuel n' (c + 2) (ShmRead.getExtras r.bytes junk info).2
          (ShmRead.moveForward r.bytes info).2 := by
  have hkey := getExtras_stands inv hN hlen h junk
  rw [backNKeyLoop, if_neg hn]
  simp only [hkey, Nat.succ_pos, and_true]
  rfl

/-- Below the newest frame, with key frames still to be found, the search goes on at the next. -/
theorem backNKeyLoop_moves (h : r.Stands info) (hall : r.HasFrom info.uiSeq)
    (hle : info.uiSeq ≤ r.frames.length) (fuel c : ℕ) (junk : ℕ → UInt8) (hn : n ≠ 0)
    (hleft : (if r.HasKey info.uiSeq then n - 1 else n) ≠ 0) :
    ∃ extra next, backNKeyLoop r.bytes false (fuel + 1) n (c + 1) junk info
        = backNKeyLoop r.bytes false fuel (if r.HasKey info.uiSeq then n - 1 else n) (c + 2) extra next
      ∧ r.Stands next ∧ next.uiSeq = info.uiSeq + 1 := by
  obtain ⟨next, hmove, hnext, hseq⟩ := moveForward_stands inv hN hlen h hall hle
  refine ⟨(ShmRead.getExtras r.bytes junk info).2, next, ?_, hnext, hseq⟩
  rw [backNKeyLoop_round inv hN hlen h fuel c junk hn]
  rw [if_neg fun hstop => hleft hstop.2, hmove]
  rfl

/-- If there are as many key frames, the search ends on the last of them. -/
theorem backNKeyLoop_found (k fuel c : ℕ) (junk : ℕ → UInt8) (h : r.Stands info)
    (hall : r.HasFrom info.uiSeq) (hk : info.uiSeq + k = r.frames.length + 1) (hfuel : k < fuel)
    (hn : n ≠ 0) (hcount : n ≤ r.keysFrom info.uiSeq k) :
    ∃ info' f, backNKeyLoop r.bytes false fuel n (c + 1) junk info = some (0, info')
      ∧ r.StandsOn info' f ∧ f.IsKey ∧ info.uiSeq ≤ f.seq
      ∧ r.keysFrom info.uiSeq (f.seq + 1 - info.uiSeq) = n := by
  induction k generalizing info fuel n c junk with
  | zero => exact absurd (Nat.le_zero.mp hcount) hn
  | succ k ih =>
    obtain ⟨fuel, rfl⟩ : ∃ l, fuel = l + 1 := ⟨fuel - 1, by omega⟩
    rw [r.keysFrom_succ] at hcount
    by_cases hleft : (if r.HasKey info.uiSeq then n - 1 else n) = 0
    · -- the ID stands on the last key frame to be found
      have hkey : r.HasKey info.uiSeq := by
        by_contra hno
        rw [if_neg hno] at hleft
        exact hn hleft
      rw [if_pos hkey] at hleft
      obtain rfl : n = 1 := by omega
      obtain ⟨f, hf, hfkey⟩ := h.standsOn_of_hasKey inv hkey
      refine ⟨info, f, ?_, hf, hfkey, hf.seq.ge, ?_⟩
      · rw [backNKeyLoop_round inv hN hlen h fuel c junk hn, if_pos hkey, if_pos ⟨hkey, rfl⟩]
      · rw [hf.seq, Nat.add_sub_cancel_left, r.keysFrom_succ, if_pos hkey]
        rfl
    · obtain ⟨extra, next, hloop, hnext, hseq⟩ :=
        backNKeyLoop_moves inv hN hlen h hall (by omega) fuel c junk hn hleft
      have hrest : (if r.HasKey info.uiSeq then n - 1 else n) ≤ r.keysFrom next.uiSeq k := by
        rw [hseq]
        split_ifs at hcount ⊢ <;> omega
      obtain ⟨info', f, hfound, hf, hkey, hle, hnth⟩ := ih fuel (c + 1) extra hnext
        (hall.mono (by omega)) (by omega) (Nat.lt_of_succ_lt_succ hfuel) hleft hrest
      refine ⟨info', f, hloop.trans hfound, hf, hkey, by omega, ?_⟩
      rw [hseq, Nat.add_sub_add_right] at hnth
      rw [show f.seq + 1 - info.uiSeq = f.seq - info.uiSeq + 1 by omega, r.keysFrom_succ, hnth]
      split_ifs at hleft ⊢ <;> omega

/-- If there are fewer, it ends after the newest frame. -/
theorem backNKeyLoop_short (k fuel c : ℕ) (junk : ℕ → UInt8) (h : r.Stands info)
    (hall : r.HasFrom info.uiSeq) (hk : info.uiSeq + k = r.frames.length + 1) (hfuel : k < fuel)
    (hcount : r.keysFrom info.uiSeq k < n) :
    ∃ left info', left ≠ 0 ∧ backNKeyLoop r.bytes false fuel n (c + 1) junk info
      = some (left, info') := by
  induction k generalizing info fuel n c junk with
  | zero =>
    obtain ⟨fuel, rfl⟩ : ∃ l, fuel = l + 1 := ⟨fuel - 1, by omega⟩
    have hno : ¬ r.HasKey info.uiSeq := by
      rintro ⟨g, hg, hseq, -⟩
      have := inv.layout.seq_range (inv.mem_frames hg)
      omega
    have hn : n ≠ 0 := by omega
    refine ⟨n, info, hn, ?_⟩
    rw [backNKeyLoop_round inv hN hlen h fuel c junk hn, if_neg fun hstop => hno hstop.1,
      moveForward_newest inv h (by omega), if_neg hno]
    rfl
  | succ k ih =>
    obtain ⟨fuel, rfl⟩ : ∃ l, fuel = l + 1 := ⟨fuel - 1, by omega⟩
    rw [r.keysFrom_succ] at hcount
    have hleft : (if r.HasKey info.uiSeq then n - 1 else n) ≠ 0 := by
      split_ifs at hcount ⊢ <;> omega
    obtain ⟨extra, next, hloop, hnext, hseq⟩ :=
      backNKeyLoop_moves inv hN hlen h hall (by omega) fuel c junk (by omega) hleft
    have hrest : r.keysFrom next.uiSeq k < if r.HasKey info.uiSeq then n - 1 else n := by
      rw [hseq]
      split_ifs at hcount ⊢ <;> omega
    obtain ⟨left, info', hne, hend⟩ := ih fuel (c + 1) extra hnext (hall.mono (by omega))
      (by omega) (Nat.lt_of_succ_lt_succ hfuel) hrest
    exact ⟨left, info', hne, hloop.trans hend⟩

end Move

/-- The first round does not count the frame the search starts at. -/
theorem backNKeyLoop_first (m : Mem) (fuel : ℕ) (junk : ℕ → UInt8) (info : ShmInfo) (hn : n ≠ 0) :
    backNKeyLoop m false (fuel + 1) n 0 junk info
      = if (ShmRead.moveForward m info).1 < 0 then some (n, (ShmRead.moveForward m info).2)
        else backNKeyLoop m false fuel n 1 (ShmRead.getExtras m junk info).2
          (ShmRead.moveForward m info).2 := by
  rw [backNKeyLoop, if_neg hn]
  simp only [gt_iff_lt, Nat.lt_irrefl, and_false, if_false, hn, Bool.false_eq_true, Nat.zero_add]

/-- An ID on a key frame is given it by the next read. -/
theorem readsKeyNext (inv : RingInv N M r) (hN : M + 143 < N) (hlen : r.frames.length < 4294967294)
    (h : r.StandsOn info f) (hkey : f.IsKey) : r.ReadsKeyNext info f := by
  intro fuel junk enumMType bufLen hbuf
  have hrange := inv.layout.seq_range (inv.mem_frames h.intact)
  have hread := inv.readFrame_delivers hN hlen h.intact (h.seq ▸ hrange.2) h.pos hbuf
  have hflag : f.data.keyFrameFlag = shmVideoFrameTypeKey := hkey
  refine ⟨⟨frameNextPos r.bytes f.pos, f.seq + 1⟩, ?_⟩
  rw [shmReadFrameWithExtras, ShmRead.isInitState, if_neg (by simp [h.pos_ne inv hN]), shmReadAt,
    hread]
  simp [hflag]

/-! ## Exact or without effect -/

/-- **Moving forward is exact**: it succeeds if there are as many frames, or key frames, and
otherwise has no effect. -/
theorem forward_exact (old : Mem) (pcHeaderInfo : ℕ → UInt8) {iShmSize iMaxFrameSize : ℕ}
    (hsize : shmSizeOfShmHead + iMaxFrameSize + 2 * shmSizeOfFrameHead + 3 < iShmSize)
    (hint : iShmSize < 2 ^ 31) (calls : List WriteCall) :
    let r := (ShmRing.create old iShmSize iMaxFrameSize pcHeaderInfo).run calls
    r.frames.length < 2 ^ 32 - 2 → ∀ info f, r.StandsOn info f → r.HasFrom f.seq →
    ∀ n, 1 ≤ n → ∀ iKeyFlag, r.ForwardsExactly info n iKeyFlag := by
  intro r hlen info f hf hall n hn iKeyFlag junk fuel hfuel
  simp only [shmSizeOfShmHead_eq, shmSizeOfFrameHead_eq] at hsize
  have hN : iMaxFrameSize + 143 < iShmSize := by omega
  have inv : RingInv iShmSize iMaxFrameSize r :=
    ringInv_run old pcHeaderInfo hN (by omega) (lt_trans hlen (by norm_num))
  have hlen : r.frames.length < 4294967294 := hlen
  have hrange := inv.layout.seq_range (inv.mem_frames hf.intact)
  rw [hf.seq] at hrange hall
  have hs : r.Stands info := Or.inl ⟨f, hf⟩
  have hpos : (n : ℤ) > 0 := by omega
  rw [shmForwardNFrame, shmBackNFrameNolock, if_pos hpos, Int.toNat_natCast]
  cases iKeyFlag with
  | false =>
    rw [if_neg Bool.false_ne_true, Option.map_some]
    by_cases hcan : n ≤ r.frames.length - info.uiSeq + 1
    · obtain ⟨info', hloop, hstands, hseq⟩ :=
        backNLoop_forward inv hN hlen n hs hall (by omega)
      refine ⟨shmEnumOk, info', ?_, fun _ => ⟨rfl, hstands, hseq⟩, fun hnot => absurd hcan hnot⟩
      rw [hloop]
      rfl
    · have hloop := backNLoop_newest inv hN hlen n hs hall (by omega)
      refine ⟨shmEnumError, info, ?_, fun h => absurd h hcan, fun _ => ⟨rfl, rfl⟩⟩
      exact congrArg some (if_neg hloop)
  | true =>
    obtain ⟨fuel, rfl⟩ : ∃ l, fuel = l + 1 := ⟨fuel - 1, by omega⟩
    obtain ⟨next, hmove, hnext, hseq⟩ := moveForward_stands inv hN hlen hs hall hrange.2
    rw [if_pos rfl, backNKeyLoop_first _ _ _ _ (by omega), hmove, if_neg (lt_irrefl 0)]
    have hk : next.uiSeq + (r.frames.length - info.uiSeq) = r.frames.length + 1 := by omega
    have hall' : r.HasFrom next.uiSeq := hall.mono (by omega)
    by_cases hcan : n ≤ r.keysFrom (info.uiSeq + 1) (r.frames.length - info.uiSeq)
    · rw [← hseq] at hcan
      obtain ⟨info', g, hloop, hg, hkey, hle, hnth⟩ := backNKeyLoop_found inv hN hlen _ fuel 0
        (ShmRead.getExtras r.bytes junk info).2 hnext hall' hk (by omega) (by omega) hcan
      rw [hseq] at hcan
      rw [hseq, Nat.add_sub_add_right] at hnth
      refine ⟨shmEnumOk, info', ?_, fun _ => ⟨rfl, g, hg, hkey, by omega, hnth,
        readsKeyNext inv hN hlen hg hkey⟩, fun hnot => absurd hcan hnot⟩
      rw [hloop]
      rfl
    · have hfew : r.keysFrom next.uiSeq (r.frames.length - info.uiSeq) < n := by
        rw [hseq]
        exact not_le.mp hcan
      obtain ⟨left, info', hleft, hloop⟩ := backNKeyLoop_short inv hN hlen _ fuel 0
        (ShmRead.getExtras r.bytes junk info).2 hnext hall' hk (by omega) hfew
      refine ⟨shmEnumError, info, ?_, fun h => absurd h hcan, fun _ => ⟨rfl, rfl⟩⟩
      rw [hloop, Option.map_some]
      dsimp only
      rw [if_neg hleft]

/-- From the first of three frames to the key frame after the next. -/
theorem forward_exact_small :
    ((ShmRing.create (fun _ => 0) 1000 100 fun _ => 3).run
      [keyCall, deltaCall, keyCall]).ForwardsExactly ⟨52, 1⟩ 1 true := by
  obtain ⟨f, hf, hseq, hpos⟩ : ∃ f ∈ ((ShmRing.create (fun _ => 0) 1000 100 fun _ => 3).run
      [keyCall, deltaCall, keyCall]).intact, f.seq = 1 ∧ f.pos = 52 := by decide +kernel
  have hall : ∀ q < 4, 1 ≤ q → ∃ f ∈ ((ShmRing.create (fun _ => 0) 1000 100 fun _ => 3).run
      [keyCall, deltaCall, keyCall]).intact, f.seq = q := by decide +kernel
  have hlen : ((ShmRing.create (fun _ => 0) 1000 100 fun _ => 3).run
      [keyCall, deltaCall, keyCall]).frames.length = 3 := by decide +kernel
  refine forward_exact (fun _ => 0) (fun _ => 3) (by decide) (by decide)
    [keyCall, deltaCall, keyCall] (by rw [hlen]; decide) ⟨52, 1⟩ f
    ⟨hf, hseq, Eq.trans (by decide +kernel) hpos.symm⟩ (fun q h₁ h₂ => ?_) 1 le_rfl true
  exact hall q (by omega) (by omega)
