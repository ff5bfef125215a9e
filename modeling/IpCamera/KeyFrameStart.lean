/-
# The first frame of an H.264 stream

An ID in the initial state is refreshed by `SHM_ReadFrameWithExtras`, which for
H.264 includes the search for a key frame; what such a read hands out is always a
key frame.  A refresh or search that fails, however, leaves a position behind:
the ID is no longer in the initial state, and the next read takes whatever frame
is there.

`firstFrame_decodable` says that this is the only way: in a run the first frame
handed out is a key frame exactly if no read before it finds, outside the initial
state, a frame at its position that is not a key frame.
-/
import IpCamera.KeyFrameSearch

variable {N M : ℕ} {pcHeaderInfo : ℕ → UInt8} {r : ShmRing} {m : Mem} {info : ShmInfo}

/-! ## What one read hands out -/

/-- `ReadFrame` finds a frame to hand out. -/
structure Deliverable (m : Mem) (bufLen : ℤ) (info : ShmInfo) : Prop where
  nonempty : ShmRead.isEmpty m = false
  notNewer : info.uiSeq ≤ headNewestFrameSeq m
  frame : IsFrame m (ShmRead.checkOverflowed m info)
  maxSize : frameSize m (ShmRead.checkOverflowed m info) ≤ headMaxFrameSize m
  bufSize : frameSize m (ShmRead.checkOverflowed m info) ≤ bufLen

/-- The read hands out nothing, or the frame at its position with its key flag. -/
theorem readFrame_deliverable (m : Mem) (bufLen : ℤ) (info : ShmInfo) :
    (¬ Deliverable m bufLen info
        ∧ ∃ rtn info', ShmRead.readFrame m true bufLen info = (rtn, none, info'))
      ∨ (Deliverable m bufLen info
        ∧ ∃ d info', ShmRead.readFrame m true bufLen info = (shmEnumGetANewFrame, some d, info')
          ∧ d.keyFrameFlag
            = extrasKeyFrameFlag (frameExtras m (ShmRead.checkOverflowed m info))) := by
  simp only [ShmRead.readFrame, ↓reduceIte]
  split_ifs with h₁ h₂ h₃ h₄ h₅ h₆
  · exact .inl ⟨fun h => by simp [h.nonempty] at h₁, _, _, rfl⟩
  · exact .inl ⟨fun h => absurd h.notNewer (Nat.not_le.mpr h₂), _, _, rfl⟩
  · exact .inl ⟨fun h => absurd h.notNewer (Nat.not_le.mpr h₂), _, _, rfl⟩
  · exact .inl ⟨fun h => absurd h.maxSize (Int.not_le.mpr h₅), _, _, rfl⟩
  · exact .inl ⟨fun h => absurd h.bufSize (Int.not_le.mpr h₆), _, _, rfl⟩
  · exact .inr ⟨⟨by simpa using h₁, by omega, h₄, by omega, by omega⟩, _, _, rfl, rfl⟩
  · exact .inl ⟨fun h => h₄ h.frame, _, _, rfl⟩

/-- A frame that is not a key frame can be handed out to an ID that has a position. -/
def NonKeyHere (m : Mem) (bufLen : ℤ) (info : ShmInfo) : Prop :=
  ShmRead.isInitState info.uiPos = false ∧ Deliverable m bufLen info
    ∧ extrasKeyFrameFlag (frameExtras m (ShmRead.checkOverflowed m info)) ≠ shmVideoFrameTypeKey

/-- The video read reports a key frame by its return code. -/
theorem shmReadAt_video (m : Mem) (bufLen : ℤ) (info : ShmInfo) :
    (¬ Deliverable m bufLen info
        ∧ ∃ rtn info', shmReadAt m .video bufLen info = (rtn, none, info'))
      ∨ (Deliverable m bufLen info ∧ ∃ rtn d info',
        shmReadAt m .video bufLen info = (rtn, some d, info')
          ∧ d.keyFrameFlag = extrasKeyFrameFlag (frameExtras m (ShmRead.checkOverflowed m info))
          ∧ rtn = if d.keyFrameFlag = shmVideoFrameTypeKey then shmEnumGetANewKeyFrame
              else shmEnumGetANewFrame) := by
  rcases readFrame_deliverable m bufLen info with ⟨hno, rtn, info', h⟩ | ⟨hd, d, info', h, hflag⟩
  · exact .inl ⟨hno, rtn, info', shmReadAt_of_none .video h⟩
  · refine .inr ⟨hd, _, d, info', by rw [shmReadAt, h], hflag, ?_⟩
    simp

/-- Where a search from the newest frame can end: at a key frame on the links, or
back where it started, with an error. -/
def SearchEnd (m : Mem) (rtn : ℤ) (info' : ShmInfo) : Prop :=
  (0 ≤ rtn ∧ IsFrame m info'.uiPos ∧ KeyAt m info'
      ∧ ∃ k, LinkSearch.walk (moveBackLink m) k (ShmRead.refresh m).2 = some info')
    ∨ (rtn < 0 ∧ info' = (ShmRead.refresh m).2)

theorem shmBackNFrameNolock_end (hnew : IsFrame m (headNewestFramePos m)
      ↔ ShmRead.isEmpty m = false) {fuel : ℕ} {junk : ℕ → UInt8} {rtn : ℤ} {info' : ShmInfo}
    (h : shmBackNFrameNolock m fuel junk 1 true true (ShmRead.refresh m).2 = some (rtn, info')) :
    SearchEnd m rtn info' := by
  cases fuel with
  | zero => simp [shmBackNFrameNolock, backNKeyLoop] at h
  | succ fuel =>
      rw [shmBackNFrameNolock_eq hnew.mpr fuel junk (by decide)] at h
      cases hlink : moveBackLink m (ShmRead.refresh m).2 with
      | none =>
          simp only [hlink, Option.some.injEq, Prod.mk.injEq] at h
          exact .inr ⟨by rw [← h.1]; decide, h.2.symm⟩
      | some first =>
          simp only [hlink] at h
          obtain ⟨⟨left, x⟩, hx, hres⟩ := Option.map_eq_some_iff.mp h
          by_cases hleft : left = 0
          · subst hleft
            obtain ⟨rfl, rfl⟩ : shmEnumOk = rtn ∧ x = info' := by simpa [backNResult] using hres
            obtain ⟨hkey, k, hk⟩ := LinkSearch.search_hit (by decide) hx
            have hframe := LinkSearch.walk_invariant (P := fun i => IsFrame m i.uiPos)
              (fun i j _ hij => isFrame_of_moveBackLink hnew.mpr hij)
              (isFrame_of_moveBackLink hnew.mpr hlink) hk
            exact .inl ⟨le_rfl, hframe, hkey, k + 1, by rw [LinkSearch.walk, hlink]; exact hk⟩
          · obtain ⟨rfl, rfl⟩ : shmEnumError = rtn ∧ (ShmRead.refresh m).2 = info' := by
              simpa [backNResult, hleft] using hres
            exact .inr ⟨by decide, rfl⟩

theorem shmRefreshNolock_end (hnew : IsFrame m (headNewestFramePos m)
      ↔ ShmRead.isEmpty m = false) {fuel : ℕ} {junk : ℕ → UInt8} {rtn : ℤ} {info' : ShmInfo}
    (h : shmRefreshNolock m fuel junk true = some (rtn, info')) : SearchEnd m rtn info' := by
  have hsplit : ∀ {extra : ℕ → UInt8},
      (if extrasKeyFrameFlag extra ≠ shmVideoFrameTypeKey then
        shmBackNFrameNolock m fuel junk 1 true true (ShmRead.refresh m).2
      else some ((ShmRead.refresh m).1, (ShmRead.refresh m).2)) = some (rtn, info') →
      SearchEnd m rtn info' ∨ extrasKeyFrameFlag extra = shmVideoFrameTypeKey
        ∧ (ShmRead.refresh m).1 = rtn ∧ (ShmRead.refresh m).2 = info' := by
    intro extra h
    split_ifs at h with hflag
    · exact .inl (shmBackNFrameNolock_end hnew h)
    · rw [Option.some.injEq, Prod.mk.injEq] at h
      exact .inr ⟨not_not.mp hflag, h⟩
  simp only [shmRefreshNolock, if_true] at h
  by_cases hframe : IsFrame m (headNewestFramePos m)
  · have hex : ShmRead.getExtras m junk (ShmRead.refresh m).2
        = (shmEnumOk, frameExtras m (ShmRead.refresh m).2.uiPos) :=
      getExtras_of_isFrame hframe junk
    rw [hex] at h
    have hok : (ShmRead.refresh m).1 = shmEnumOk := by rw [ShmRead.refresh, if_pos hframe]
    rcases hsplit h with hend | ⟨hkey, rfl, rfl⟩
    · exact hend
    · exact .inl ⟨by rw [hok]; decide, hframe, hkey, 0, rfl⟩
  · have hfail : (ShmRead.refresh m).1 = shmEnumError := by rw [ShmRead.refresh, if_neg hframe]
    rcases hsplit h with hend | ⟨-, rfl, rfl⟩
    · exact hend
    · exact .inr ⟨by rw [hfail]; decide, rfl⟩

/-! ## The first frame handed out -/

/-- The first frame handed out is a key frame, and reported as one. -/
def FirstIsKey (delivered : List Delivery) : Prop :=
  ∀ d ∈ delivered.head?, d.code = shmEnumGetANewKeyFrame
    ∧ d.data.keyFrameFlag = shmVideoFrameTypeKey

/-- What one read adds to the log of an ID that has been given nothing. -/
theorem ApiState.step_read_first {s : ApiState}
    (hnew : IsFrame s.ring.bytes (headNewestFramePos s.ring.bytes)
      ↔ ShmRead.isEmpty s.ring.bytes = false)
    (hcodec : shmSearchesKeyFrame s.ring.bytes .video = true) (hnil : s.delivered = [])
    (bufLen : ℤ) (fuel : ℕ) (junk : ℕ → UInt8) :
    FirstIsKey (s.step .video (.read bufLen fuel junk)).delivered
      ↔ ¬ NonKeyHere s.ring.bytes bufLen s.info := by
  have hnone : FirstIsKey [] := by simp [FirstIsKey]
  simp only [ApiState.step, shmReadFrameWithExtras, hcodec]
  by_cases hinit : ShmRead.isInitState s.info.uiPos = true
  · have hpos : ¬ NonKeyHere s.ring.bytes bufLen s.info := fun h => by simp [h.1] at hinit
    refine iff_of_true ?_ hpos
    rw [if_pos hinit]
    cases href : shmRefreshNolock s.ring.bytes fuel junk true with
    | none => simpa [hnil] using hnone
    | some res =>
        obtain ⟨rtn, info'⟩ := res
        rcases shmRefreshNolock_end hnew href with ⟨hok, hframe, hkey, -⟩ | ⟨hfail, -⟩
        · -- the read is at the key frame the search has found
          simp only [Option.map_some, if_neg (Int.not_lt.mpr hok)]
          have hchk := checkOverflowed_of_isFrame hframe
          rcases shmReadAt_video s.ring.bytes bufLen info' with
            ⟨-, rtn', info'', hread⟩ | ⟨-, rtn', d, info'', hread, hflag, hrtn⟩
          · simpa [hread, hnil] using hnone
          · have hk : d.keyFrameFlag = shmVideoFrameTypeKey := by
              rw [hflag, hchk]
              exact hkey
            rw [if_pos hk] at hrtn
            simp only [hread, ApiState.handOut_some s (.inr hrtn), hnil, List.nil_append,
              FirstIsKey, List.head?_cons, Option.mem_def, Option.some.injEq, forall_eq']
            exact ⟨hrtn, hk⟩
        · simpa [hfail, hnil] using hnone
  · rw [if_neg hinit]
    have hinit' : ShmRead.isInitState s.info.uiPos = false := by simpa using hinit
    rcases shmReadAt_video s.ring.bytes bufLen s.info with
      ⟨hno, rtn', info'', hread⟩ | ⟨hd, rtn', d, info'', hread, hflag, hrtn⟩
    · refine iff_of_true ?_ fun h => hno h.2.1
      simpa [hread, hnil] using hnone
    · have hcode : rtn' = shmEnumGetANewFrame ∨ rtn' = shmEnumGetANewKeyFrame := by
        rw [hrtn]
        split_ifs
        · exact .inr rfl
        · exact .inl rfl
      have hhere : NonKeyHere s.ring.bytes bufLen s.info
          ↔ d.keyFrameFlag ≠ shmVideoFrameTypeKey := by
        rw [hflag]
        exact ⟨fun h => h.2.2, fun h => ⟨hinit', hd, h⟩⟩
      rw [hhere, not_not]
      simp only [hread, ApiState.handOut_some s hcode, hnil, List.nil_append, FirstIsKey,
        List.head?_cons, Option.mem_def, Option.some.injEq, forall_eq']
      exact ⟨fun h => h.2, fun h => ⟨by rw [hrtn, if_pos h], h⟩⟩

/-! ## Runs -/

/-- No read before the first frame is handed out finds another frame than a key
frame at the position of an ID that is not in the initial state. -/
def NoStaleStart (s₀ : ApiState) (es : List ApiCall) : Prop :=
  ∀ es₁ bufLen fuel junk, es₁ ++ [.read bufLen fuel junk] <+: es →
    (s₀.run .video es₁).delivered = [] →
    ¬ NonKeyHere (s₀.run .video es₁).ring.bytes bufLen (s₀.run .video es₁).info

theorem ApiState.delivered_prefix_step (t : ShmMediaType) (s : ApiState) (e : ApiCall) :
    s.delivered <+: (s.step t e).delivered := by
  cases e with
  | write c => exact List.prefix_rfl
  | read bufLen fuel junk =>
      rw [step]
      split
      · exact List.prefix_rfl
      · exact List.prefix_append _ _

theorem firstIsKey_append {l l' : List Delivery} (hne : l ≠ []) (h : l <+: l') :
    FirstIsKey l' ↔ FirstIsKey l := by
  obtain ⟨d, l, rfl⟩ := List.exists_cons_of_ne_nil hne
  obtain ⟨x, rfl⟩ := h
  rfl

theorem ApiState.streamInv_step {s : ApiState} (inv : StreamInv N M pcHeaderInfo s.ring)
    (hN : M + 143 < N) (hN' : N < 2147483648) (t : ShmMediaType) (e : ApiCall) :
    StreamInv N M pcHeaderInfo (s.step t e).ring := by
  cases e with
  | write c => exact inv.write hN hN' c
  | read bufLen fuel junk =>
      rw [step]
      split <;> exact inv

theorem ApiState.streamInv_run {s : ApiState} (inv : StreamInv N M pcHeaderInfo s.ring)
    (hN : M + 143 < N) (hN' : N < 2147483648) (t : ShmMediaType) (es : List ApiCall) :
    StreamInv N M pcHeaderInfo (s.run t es).ring := by
  induction es using List.reverseRecOn with
  | nil => exact inv
  | append_singleton es e ih =>
      rw [run_concat]
      exact streamInv_step ih hN hN' t e

theorem noStaleStart_concat {s₀ : ApiState} {es : List ApiCall} {e : ApiCall} :
    NoStaleStart s₀ (es ++ [e]) ↔ NoStaleStart s₀ es
      ∧ ∀ bufLen fuel junk, e = .read bufLen fuel junk → (s₀.run .video es).delivered = [] →
        ¬ NonKeyHere (s₀.run .video es).ring.bytes bufLen (s₀.run .video es).info := by
  constructor
  · intro h
    refine ⟨fun es₁ b f j hp => h es₁ b f j (hp.trans (List.prefix_append es [e])), ?_⟩
    rintro b f j rfl
    exact h es b f j List.prefix_rfl
  · rintro ⟨h₁, h₂⟩ es₁ b f j hp
    rcases List.prefix_concat_iff.mp hp with heq | hp
    · obtain ⟨rfl, he⟩ := List.append_inj' heq rfl
      exact h₂ b f j (List.singleton_inj.mp he).symm
    · exact h₁ es₁ b f j hp

/-- In a run the first frame is a key frame exactly under this condition. -/
theorem firstIsKey_run {s₀ : ApiState} (inv : StreamInv N M pcHeaderInfo s₀.ring)
    (hN : M + 143 < N) (hN' : N < 2147483648)
    (hcodec : headerInfoCodec pcHeaderInfo = shmVideoCodecTypeH264) (hnil : s₀.delivered = [])
    (es : List ApiCall) :
    FirstIsKey (s₀.run .video es).delivered ↔ NoStaleStart s₀ es := by
  induction es using List.reverseRecOn with
  | nil =>
      refine iff_of_true ?_ fun es₁ b f j hp => absurd hp (by simp)
      show FirstIsKey s₀.delivered
      simp [hnil, FirstIsKey]
  | append_singleton es e ih =>
      rw [noStaleStart_concat, ← ih, ApiState.run_concat]
      have hinv := ApiState.streamInv_run inv hN hN' .video es
      have hkey : shmSearchesKeyFrame (s₀.run .video es).ring.bytes .video = true := by
        rw [shmSearchesKeyFrame_eq hinv.header, hcodec]
        rfl
      by_cases hd : (s₀.run .video es).delivered = []
      · have hfirst : FirstIsKey (s₀.run .video es).delivered := by simp [hd, FirstIsKey]
        cases e with
        | write c => simp [ApiState.step, hfirst]
        | read bufLen fuel junk =>
            rw [ApiState.step_read_first hinv.newest hkey hd bufLen fuel junk]
            refine ⟨fun h => ⟨hfirst, ?_⟩, fun h => h.2 bufLen fuel junk rfl hd⟩
            rintro _ _ _ ⟨⟩ -
            exact h
      · rw [firstIsKey_append hd (ApiState.delivered_prefix_step .video _ e)]
        simp [hd]

/-! ## Where the first frame comes from -/

/-- Links from intact frames lead to intact frames. -/
theorem RingInv.intact_of_link (inv : RingInv N M r) (mag : MagicInv N r) (hN : M + 143 < N)
    {f : FrameRecord} {i : ShmInfo} (hf : f ∈ r.intact)
    (h : moveBackLink r.bytes ⟨f.pos, f.seq⟩ = some i) :
    ∃ g ∈ r.intact, i = ⟨g.pos, g.seq⟩ := by
  have hfm := inv.mem_frames hf
  have hw := inv.wellPlaced hN hfm
  have hrange := inv.layout.seq_range hfm
  obtain ⟨n, hn, hns⟩ := inv.layout.exists_seq (s := r.frames.length) (by omega) le_rfl
  have hni := inv.newest_intact hn hns
  have hnp := inv.newestPos_of_seq hn hns
  obtain ⟨-, ⟨-, rfl⟩ | ⟨-, rfl⟩ | ⟨pos, hpos, hframe, hprev, rfl⟩⟩ := moveBackLink_cases h
  · exact ⟨n, hni, by rw [hnp, (inv.held n hni).seq]⟩
  · exact ⟨n, hni, by rw [hnp, inv.newestSeq, hns]⟩
  · rw [checkOverflowed_of_isFrame (inv.held f hf).magic] at hpos
    subst hpos
    by_cases hs : f.seq = 1
    · refine ⟨f, hf, ?_⟩
      simp only [inv.firstLink f hf hs, (inv.held f hf).seq]
    · obtain ⟨g, hg, hgs⟩ := inv.layout.exists_seq (s := f.seq - 1) (by omega) (by omega)
      have hlink := inv.prevLink f hf g hg (by omega)
      have hgw := inv.wellPlaced hN hg
      have hgf : g.finish = g.pos + 44 + alignedLen g.len := rfl
      have hfin := hgw.finish_lt
      simp only [hlink] at hprev ⊢
      obtain ⟨x, hx, hxp⟩ := mag g.pos hgw.aligned hgw.start_le (by omega) hprev
      exact ⟨x, hx, by rw [← hxp, (inv.held x hx).seq]⟩

/-- A position on the links from the newest frame is that of an intact frame. -/
theorem RingInv.intact_of_walk (inv : RingInv N M r) (mag : MagicInv N r) (hN : M + 143 < N)
    (hne : 0 < r.frames.length) {k : ℕ} {i : ShmInfo}
    (h : LinkSearch.walk (moveBackLink r.bytes) k (ShmRead.refresh r.bytes).2 = some i) :
    ∃ g ∈ r.intact, i = ⟨g.pos, g.seq⟩ := by
  obtain ⟨n, hn, hns⟩ := inv.layout.exists_seq (s := r.frames.length) hne le_rfl
  refine LinkSearch.walk_invariant (P := fun i => ∃ g ∈ r.intact, i = ⟨g.pos, g.seq⟩)
    ?_ ⟨n, inv.newest_intact hn hns, by rw [inv.refresh hn hns]⟩ h
  rintro x y ⟨g, hg, rfl⟩ hy
  exact inv.intact_of_link mag hN hg hy

/-- The invariant of an H.264 reader on a ring whose data does not imitate the magic. -/
structure StartInv (N M : ℕ) (pcHeaderInfo : ℕ → UInt8) (s : ApiState) : Prop where
  ring : RingInv N M s.ring
  magic : MagicInv N s.ring
  stream : StreamInv N M pcHeaderInfo s.ring
  reader : ReaderAt s.ring.frames s.info

namespace StartInv

variable {s : ApiState}

theorem searchEnd (inv : StartInv N M pcHeaderInfo s) (hN : M + 143 < N) {rtn : ℤ}
    {info' : ShmInfo} (h : SearchEnd s.ring.bytes rtn info') :
    ReaderAt s.ring.frames info'
      ∧ (0 ≤ rtn → ∃ f ∈ s.ring.intact, info' = ⟨f.pos, f.seq⟩
        ∧ extrasKeyFrameFlag f.extras = shmVideoFrameTypeKey) := by
  rcases h with ⟨-, hframe, hkey, k, hk⟩ | ⟨hfail, rfl⟩
  · have hne : 0 < s.ring.frames.length := by
      by_contra hz
      have hnil : s.ring.frames = [] := List.length_eq_zero_iff.mp (by omega)
      have hempty : ShmRead.isEmpty s.ring.bytes = true := by
        simp [ShmRead.isEmpty, inv.ring.newestSeq, hnil]
      cases k with
      | zero =>
          obtain rfl : (ShmRead.refresh s.ring.bytes).2 = info' := by simpa [LinkSearch.walk] using hk
          have := inv.stream.newest.mp hframe
          rw [hempty] at this
          exact absurd this (by decide)
      | succ k =>
          obtain ⟨i, hi, -⟩ := Option.bind_eq_some_iff.mp hk
          have := (moveBackLink_cases hi).1
          rw [hempty] at this
          exact absurd this (by decide)
    obtain ⟨f, hf, rfl⟩ := inv.ring.intact_of_walk inv.magic hN hne hk
    refine ⟨.next (.frame f (inv.ring.mem_frames hf) rfl rfl), fun _ => ⟨f, hf, rfl, ?_⟩⟩
    have hflag : frameExtras s.ring.bytes f.pos 19 = f.extras 19 :=
      (inv.ring.held f hf).extras 19 (by decide)
    rw [extrasKeyFrameFlag, ← hflag]
    exact hkey
  · exact ⟨inv.ring.readerAt_refresh, fun hok => absurd hok (Int.not_le.mpr hfail)⟩

/-- A read of an ID that has a position hands out intact frames only. -/
theorem readAt (inv : StartInv N M pcHeaderInfo s) (hN : M + 143 < N)
    (hlen : s.ring.frames.length < 2 ^ 30) {info : ShmInfo} (at_ : ReaderAt s.ring.frames info)
    (hpos : info.uiPos ≠ 0) {bufLen rtn : ℤ} {data : Option FrameData} {info' : ShmInfo}
    (h : shmReadAt s.ring.bytes .video bufLen info = (rtn, data, info')) :
    ReaderAt s.ring.frames info' ∧ ∀ d, data = some d → ∃ f ∈ s.ring.intact, d = f.data := by
  have hreader := inv.ring.readerAt_readFrame inv.magic hN (by omega) at_ hpos bufLen
  have hdata : data = (ShmRead.readFrame s.ring.bytes true bufLen info).2.1
      ∧ info' = (ShmRead.readFrame s.ring.bytes true bufLen info).2.2 := by
    have h₁ := congrArg (fun x => x.2.1) h
    have h₂ := congrArg (fun x => x.2.2) h
    exact ⟨h₁.symm, h₂.symm⟩
  refine ⟨hdata.2 ▸ hreader, fun d hd => ?_⟩
  rw [hdata.1] at hd
  rcases inv.ring.read_cases inv.magic hN (by omega) at_ hpos bufLen with
    ⟨rtn', -, hread⟩ | ⟨-, out⟩
  · simp [hread] at hd
  · cases out with
    | delivered f intact seq fits result =>
        rw [result] at hd
        exact ⟨f, intact, (Option.some.inj hd).symm⟩
    | tooLarge f intact stays short result => simp [result] at hd
    | reset gone result => simp [result] at hd

/-- One call, with what it adds to the log. -/
theorem step (inv : StartInv N M pcHeaderInfo s) (hN : M + 143 < N)
    (hN' : N ≤ shmFrameMagicNum) (hcodec : headerInfoCodec pcHeaderInfo = shmVideoCodecTypeH264)
    {e : ApiCall} (hmagic : ∀ c, e = .write c → c.NoMagic)
    (hlen : (s.step .video e).ring.frames.length < 2 ^ 30) :
    StartInv N M pcHeaderInfo (s.step .video e)
      ∧ ∀ d ∈ (s.step .video e).delivered, d ∈ s.delivered
        ∨ ∃ f ∈ s.ring.intact, d.data = f.data := by
  have hlen₀ := (s.length_step_le .video e).trans_lt hlen
  have hN'' : N < 2147483648 := by
    rw [shmFrameMagicNum_eq] at hN'
    omega
  cases e with
  | write c =>
      exact ⟨{
        ring := inv.ring.write hN hN'' c (hlen.trans (by norm_num))
        magic := inv.magic.write inv.ring hN hN' (hmagic c rfl) hlen
        stream := inv.stream.write hN hN'' c
        reader := inv.reader.mono (s.ring.frames_subset_write c) }, fun d hd => .inl hd⟩
  | read bufLen fuel junk =>
      have hsearch : shmSearchesKeyFrame s.ring.bytes .video = true := by
        rw [shmSearchesKeyFrame_eq inv.stream.header, hcodec]
        rfl
      -- wherever the read starts, what it hands out is an intact frame
      have hout : ∀ {info : ShmInfo}, ReaderAt s.ring.frames info → info.uiPos ≠ 0 →
          ∀ {rtn data info'}, shmReadAt s.ring.bytes .video bufLen info = (rtn, data, info') →
          StartInv N M pcHeaderInfo (s.handOut rtn data info')
            ∧ ∀ d ∈ (s.handOut rtn data info').delivered, d ∈ s.delivered
              ∨ ∃ f ∈ s.ring.intact, d.data = f.data := by
        intro info at_ hpos rtn data info' hread
        obtain ⟨hreader, hdata⟩ := inv.readAt hN hlen₀ at_ hpos hread
        refine ⟨⟨inv.ring, inv.magic, inv.stream, hreader⟩, fun d hd => ?_⟩
        rcases List.mem_append.mp hd with hd | hd
        · exact .inl hd
        · right
          split_ifs at hd
          · obtain ⟨x, hx, rfl⟩ := List.mem_map.mp hd
            exact hdata x (Option.mem_toList.mp hx)
          · cases hd
      simp only [ApiState.step, shmReadFrameWithExtras, hsearch]
      by_cases hinit : ShmRead.isInitState s.info.uiPos = true
      · rw [if_pos hinit]
        cases href : shmRefreshNolock s.ring.bytes fuel junk true with
        | none => exact ⟨inv, fun d hd => .inl hd⟩
        | some res =>
            obtain ⟨rtn, info'⟩ := res
            obtain ⟨hreader, hfound⟩ :=
              inv.searchEnd hN (shmRefreshNolock_end inv.stream.newest href)
            by_cases hfail : rtn < 0
            · simp only [Option.map_some, if_pos hfail, ApiState.handOut_none]
              exact ⟨⟨inv.ring, inv.magic, inv.stream, hreader⟩, fun d hd => .inl hd⟩
            · obtain ⟨f, hf, rfl, -⟩ := hfound (Int.not_lt.mp hfail)
              have hst := (inv.ring.wellPlaced hN (inv.ring.mem_frames hf)).start_le
              simp only [Option.map_some, if_neg hfail]
              exact hout hreader (show f.pos ≠ 0 by omega) rfl
      · rw [if_neg hinit]
        exact hout inv.reader (fun h => hinit (by rw [h]; rfl)) rfl

theorem run {s₀ : ApiState} (inv : StartInv N M pcHeaderInfo s₀) (hN : M + 143 < N)
    (hN' : N ≤ shmFrameMagicNum) (hcodec : headerInfoCodec pcHeaderInfo = shmVideoCodecTypeH264)
    {es : List ApiCall} (hmagic : ∀ c, .write c ∈ es → c.NoMagic)
    (hlen : (s₀.run .video es).ring.frames.length < 2 ^ 30) :
    StartInv N M pcHeaderInfo (s₀.run .video es) := by
  induction es using List.reverseRecOn with
  | nil => exact inv
  | append_singleton es e ih =>
      rw [ApiState.run_concat] at hlen ⊢
      have hih := ih (fun c hc => hmagic c (List.mem_append_left _ hc))
        (((s₀.run .video es).length_step_le .video e).trans_lt hlen)
      exact (hih.step hN hN' hcodec (fun c hc => hmagic c (by simp [hc])) hlen).1

end StartInv

/-- As long as no key frame is in the ring nothing is handed out. -/
def NothingWithoutKey (s₀ : ApiState) (es : List ApiCall) : Prop :=
  ∀ es₁ e, es₁ ++ [e] <+: es → (s₀.run .video es₁).delivered = [] →
    (∀ f ∈ (s₀.run .video es₁).ring.intact, extrasKeyFrameFlag f.extras ≠ shmVideoFrameTypeKey) →
    (s₀.run .video (es₁ ++ [e])).delivered = []

theorem ApiState.length_run_le (t : ShmMediaType) (s : ApiState) (es : List ApiCall) :
    s.ring.frames.length ≤ (s.run t es).ring.frames.length := by
  induction es using List.reverseRecOn with
  | nil => exact le_rfl
  | append_singleton es e ih =>
      rw [run_concat]
      exact ih.trans (length_step_le t _ e)

theorem StartInv.nothingWithoutKey {s₀ : ApiState} (inv : StartInv N M pcHeaderInfo s₀)
    (hN : M + 143 < N) (hN' : N ≤ shmFrameMagicNum)
    (hcodec : headerInfoCodec pcHeaderInfo = shmVideoCodecTypeH264) {es : List ApiCall}
    (hmagic : ∀ c, .write c ∈ es → c.NoMagic)
    (hlen : (s₀.run .video es).ring.frames.length < 2 ^ 30)
    (hkeys : ∀ es₁, es₁ <+: es → FirstIsKey (s₀.run .video es₁).delivered) :
    NothingWithoutKey s₀ es := by
  intro es₁ e hp hnil hnokey
  by_contra hsome
  have hlen₁ : ∀ es', es' <+: es → (s₀.run .video es').ring.frames.length < 2 ^ 30 := by
    rintro es' ⟨x, rfl⟩
    have : s₀.run .video (es' ++ x) = (s₀.run .video es').run .video x := by simp [ApiState.run]
    rw [this] at hlen
    exact (ApiState.length_run_le .video _ x).trans_lt hlen
  have hmem : ∀ x, x ∈ es₁ ++ [e] → x ∈ es := fun x hx => hp.subset hx
  have hinv : StartInv N M pcHeaderInfo (s₀.run .video es₁) := inv.run hN hN' hcodec
    (fun c hc => hmagic c (hmem _ (List.mem_append_left _ hc)))
    (hlen₁ es₁ ((List.prefix_append es₁ [e]).trans hp))
  have hkey := hkeys _ hp
  have hbound := hlen₁ _ hp
  rw [ApiState.run_concat] at hsome hkey hbound
  -- the first frame handed out is intact, and a key frame
  obtain ⟨d, l, hd⟩ := List.exists_cons_of_ne_nil hsome
  have hfrom := (hinv.step hN hN' hcodec (fun c hc => hmagic c (hmem _ (by simp [hc]))) hbound).2 d
    (hd ▸ List.mem_cons_self)
  rcases hfrom with hold | ⟨f, hf, hdata⟩
  · rw [hnil] at hold
    cases hold
  · refine hnokey f hf ?_
    have := (hkey d (by rw [hd]; rfl)).2
    rw [hdata] at this
    exact this

/-- **The first frame of an H.264 stream.**  In every run from an ID in the initial
state the first frame handed out is a key frame, and nothing is handed out while
the ring holds none, exactly if no read finds, outside the initial state and
before the first frame, a frame at its position that is not a key frame. -/
theorem firstFrame_decodable (old : Mem) (pcHeaderInfo : ℕ → UInt8) {iShmSize iMaxFrameSize : ℕ}
    (hsize : shmSizeOfShmHead + iMaxFrameSize + 2 * shmSizeOfFrameHead + 3 < iShmSize)
    (hint : iShmSize < 2 ^ 31)
    (hcodec : headerInfoCodec pcHeaderInfo = shmVideoCodecTypeH264) (calls : List WriteCall)
    (es : List ApiCall) :
    let start := ApiState.start ((ShmRing.create old iShmSize iMaxFrameSize pcHeaderInfo).run calls)
    let harmless := iShmSize ≤ shmFrameMagicNum ∧ (∀ c ∈ calls, c.NoMagic)
      ∧ (∀ c, .write c ∈ es → c.NoMagic) ∧ (start.run .video es).ring.frames.length < 2 ^ 30
    (FirstIsKey (start.run .video es).delivered ∧ (harmless → NothingWithoutKey start es))
      ↔ NoStaleStart start es := by
  intro start harmless
  simp only [shmSizeOfShmHead_eq, shmSizeOfFrameHead_eq] at hsize
  have hN : iMaxFrameSize + 143 < iShmSize := by omega
  have stream : StreamInv iShmSize iMaxFrameSize pcHeaderInfo start.ring :=
    streamInv_run old pcHeaderInfo hN (by omega) calls
  have hfirst := fun es' => firstIsKey_run stream hN (by omega) hcodec rfl es'
  refine ⟨fun h => (hfirst es).mp h.1, fun hno => ⟨(hfirst es).mpr hno, ?_⟩⟩
  rintro ⟨hmax, hcalls, hwrites, hlen⟩
  have hlen₀ : start.ring.frames.length < 2 ^ 30 :=
    (ApiState.length_run_le .video start es).trans_lt hlen
  have inv : StartInv iShmSize iMaxFrameSize pcHeaderInfo start := {
    ring := ringInv_run old pcHeaderInfo hN (by omega) (hlen₀.trans (by norm_num))
    magic := magicInv_run old pcHeaderInfo hN hmax hcalls hlen₀
    stream := stream
    reader := .initial rfl }
  refine inv.nothingWithoutKey hN hmax hcodec hwrites hlen fun es₁ hp => (hfirst es₁).mpr ?_
  exact fun es₂ b f j h => hno es₂ b f j (h.trans hp)

instance (l : List Delivery) : Decidable (FirstIsKey l) :=
  inferInstanceAs (Decidable (∀ d ∈ l.head?, _))

/-- A key frame of 100 bytes, and a frame that is not one. -/
def keyCall : WriteCall := ⟨fun _ => 1, 100, fun _ => 1⟩
def deltaCall : WriteCall := ⟨fun _ => 1, 100, fun _ => 0⟩

/-- An ID that is initialised on a ring with a key frame and a later frame. -/
theorem firstFrame_decodable_small :
    FirstIsKey ((ApiState.start ((ShmRing.create (fun _ => 0) 500 100 fun _ => 3).run
      [keyCall, deltaCall])).run .video [.read 100 5 fun _ => 0]).delivered :=
  ((firstFrame_decodable (fun _ => 0) (fun _ => 3) (by decide) (by decide) rfl
    [keyCall, deltaCall] [.read 100 5 fun _ => 0]).mpr (by
      intro es₁ bufLen fuel junk hp _ hhere
      have hnil : es₁ = [] := by
        have := hp.length_le
        simp only [List.length_append, List.length_cons, List.length_nil] at this
        exact List.length_eq_zero_iff.mp (by omega)
      subst hnil
      exact absurd hhere.1 (by decide))).1

/-- The ring holds one frame, which is no key frame.  The first read searches in
vain and leaves the ID at that frame; the second read hands it out. -/
theorem firstFrame_notKey :
    let s := (ApiState.start ((ShmRing.create (fun _ => 0) 500 100 fun _ => 3).run
      [deltaCall])).run .video [.read 100 5 fun _ => 0, .read 100 5 fun _ => 0]
    s.delivered.map Delivery.code = [shmEnumGetANewFrame] ∧ ¬ FirstIsKey s.delivered := by
  decide +kernel
