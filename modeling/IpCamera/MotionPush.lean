/-
# The motion push messages (`motion.c`, `testdanavideo.c`)

`motion_thread` shifts one bit a second into the history word `ullbitsMDstate`, and the
loop of `dana_av_init` polls that word.  In the loop `==` binds stronger than `&`, so its
two masks are the comparisons' own values and both are zero: the loop never re-arms.
A poll sends a message exactly when none was sent before (`poll_eq`).

The loop is taken over sequences of one-second results and polls; `polls_passes` says
that every run of `motion_thread` is such a sequence.
-/
import Mathlib.Data.List.Basic
import Mathlib.Data.List.Pairwise
import Mathlib.Data.Int.Notation

/-! ## The two loops -/

/-- A C comparison used as a number. -/
def cTruth (b : Bool) : BitVec 64 := if b then 1 else 0

/-- `g_structMotionCtl.ullbitsMDstate` and the loop's `static int mdtriggerd`. -/
structure PushState where
  ullbitsMDstate : BitVec 64
  mdtriggerd : ℤ

namespace PushState

/-- The history is all zero, and `mdtriggerd` has its initial value. -/
def start : PushState where
  ullbitsMDstate := 0
  mdtriggerd := -1

/-- The end of a second in `motion_thread`: `ullbitsMDstate <<= 1`, and `|= 1` if something
moved. -/
def shiftResult (s : PushState) (moved : Bool) : PushState :=
  if moved then { s with ullbitsMDstate := (s.ullbitsMDstate <<< 1) ||| 1 }
  else { s with ullbitsMDstate := s.ullbitsMDstate <<< 1 }

/-- One pass of the loop of `dana_av_init`: the state after it, and whether
`danale_util_pullmsg` was called. -/
def poll (s : PushState) : PushState × Bool :=
  -- `ullbitsMDstate & 0x01 == 0`
  if s.ullbitsMDstate &&& cTruth (0x01 == 0) ≠ 0 then
    ({ s with mdtriggerd := 0 }, false)
  else
    let sent := decide (s.mdtriggerd ≤ 0)
    let mdtriggerd := if s.mdtriggerd ≤ 0 then 1 else s.mdtriggerd
    -- `ullbitsMDstate & 0x07 == 0`
    if s.ullbitsMDstate &&& cTruth (0x07 == 0) ≠ 0 then
      ({ s with mdtriggerd := 0 }, sent)
    else
      ({ s with mdtriggerd := mdtriggerd }, sent)

/-- Bit 0 of the history. -/
def bit0 (s : PushState) : Bool := s.ullbitsMDstate.getLsbD 0

@[simp] theorem bit0_start : start.bit0 = false := rfl

/-- Bit 0 is the last result that was shifted in. -/
@[simp] theorem bit0_shiftResult (s : PushState) (moved : Bool) :
    (s.shiftResult moved).bit0 = moved := by
  unfold shiftResult bit0
  cases moved <;> simp

@[simp] theorem mdtriggerd_shiftResult (s : PushState) (moved : Bool) :
    (s.shiftResult moved).mdtriggerd = s.mdtriggerd := by
  unfold shiftResult
  split <;> rfl

/-- Neither mask tests a bit of the history. -/
theorem poll_eq (s : PushState) :
    s.poll
      = ({ s with mdtriggerd := if s.mdtriggerd ≤ 0 then 1 else s.mdtriggerd },
          decide (s.mdtriggerd ≤ 0)) := by
  have h1 : cTruth (0x01 == 0) = 0 := rfl
  have h7 : cTruth (0x07 == 0) = 0 := rfl
  have hand : s.ullbitsMDstate &&& 0 = 0 := BitVec.and_zero
  unfold poll
  rw [h1, h7, hand, if_neg (by simp), if_neg (by simp)]

@[simp] theorem bit0_poll (s : PushState) : s.poll.1.bit0 = s.bit0 := by
  rw [poll_eq]
  rfl

end PushState

/-! ## Runs -/

/-- What happens to the history word: a second's result is shifted in, or it is polled. -/
inductive PushEvent
  | result (moved : Bool)
  | poll
deriving DecidableEq

/-- One poll: bit 0 as it was seen, and whether a message was sent. -/
structure Poll where
  seen : Bool
  sent : Bool
deriving DecidableEq

/-- The polls of a run, in order. -/
def polls : PushState → List PushEvent → List Poll
  | _, [] => []
  | s, .result moved :: es => polls (s.shiftResult moved) es
  | s, .poll :: es => ⟨s.bit0, s.poll.2⟩ :: polls s.poll.1 es

/-- Whether something moved in the last full second, at every poll; `last` is the result before the
first event. -/
def seenFrom : Bool → List PushEvent → List Bool
  | _, [] => []
  | _, .result moved :: es => seenFrom moved es
  | last, .poll :: es => last :: seenFrom last es

/-- The results the polls find, nothing having moved before the start. -/
def seenResults (es : List PushEvent) : List Bool := seenFrom false es

/-- After its first message the loop never sends another. -/
theorem polls_triggered (s : PushState) (es : List PushEvent) (hs : 0 < s.mdtriggerd) :
    polls s es = (seenFrom s.bit0 es).map fun b => ⟨b, false⟩ := by
  induction es generalizing s with
  | nil => rfl
  | cons e es ih =>
    cases e with
    | result moved =>
      rw [polls, ih _ (by simpa using hs), PushState.bit0_shiftResult, seenFrom]
    | poll =>
      have hsent : s.poll.2 = false := by
        rw [PushState.poll_eq]
        simpa using hs
      have htrig : 0 < s.poll.1.mdtriggerd := by
        rw [PushState.poll_eq]
        dsimp only
        split <;> omega
      rw [polls, ih _ htrig, PushState.bit0_poll, hsent, seenFrom, List.map_cons]

/-- The polls of a loop that has sent nothing yet: the first one sends a message. -/
def firstSends : List Bool → List Poll
  | [] => []
  | b :: bs => ⟨b, true⟩ :: bs.map fun b => ⟨b, false⟩

theorem polls_untriggered (s : PushState) (es : List PushEvent) (hs : s.mdtriggerd ≤ 0) :
    polls s es = firstSends (seenFrom s.bit0 es) := by
  induction es generalizing s with
  | nil => rfl
  | cons e es ih =>
    cases e with
    | result moved =>
      rw [polls, ih _ (by simpa using hs), PushState.bit0_shiftResult, seenFrom]
    | poll =>
      have hsent : s.poll.2 = true := by
        rw [PushState.poll_eq]
        simpa using hs
      have htrig : 0 < s.poll.1.mdtriggerd := by
        rw [PushState.poll_eq]
        simp [hs]
      rw [polls, polls_triggered _ _ htrig, PushState.bit0_poll, hsent, seenFrom, firstSends]

/-! ## One message for each episode -/

/-- After these polls a message is due for motion: none was sent, or some poll since the last one
saw none. -/
def Due (before : List Poll) : Prop :=
  (∀ p ∈ before, p.sent = false) ∨
    ∃ earlier p since, before = earlier ++ p :: since ∧ p.sent = true
      ∧ (∀ q ∈ since, q.sent = false) ∧ ∃ q ∈ since, q.seen = false

/-- A message is sent at a poll exactly when the poll sees motion and a message is due. -/
def OnePerEpisode (ps : List Poll) : Prop :=
  ∀ before p after, ps = before ++ p :: after →
    (p.sent = true ↔ p.seen = true ∧ Due before)

/-- The first poll finds motion, and once a poll finds none, none after it does. -/
def SingleEpisode (seen : List Bool) : Prop :=
  (∀ b ∈ seen.head?, b = true) ∧ seen.Pairwise fun b c => c = true → b = true

theorem due_nil : Due [] := .inl fun _ h => absurd h List.not_mem_nil

/-- After the only message, another is due when some poll found no motion. -/
theorem due_firstSends (b : Bool) (bs : List Bool) :
    Due (firstSends (b :: bs)) ↔ false ∈ bs := by
  constructor
  · rintro (hnone | ⟨earlier, p, since, hsplit, hp, -, q, hq, hclear⟩)
    · exact absurd (hnone ⟨b, true⟩ List.mem_cons_self) (by simp)
    cases earlier with
    | nil =>
      obtain ⟨-, htail⟩ := List.cons.inj hsplit
      rw [← htail, List.mem_map] at hq
      obtain ⟨c, hc, rfl⟩ := hq
      rwa [show c = false from hclear] at hc
    | cons e earlier =>
      -- the last message is the first poll, not one of the others
      obtain ⟨-, htail⟩ := List.cons.inj hsplit
      have hmem : p ∈ bs.map fun b => (⟨b, false⟩ : Poll) := by
        rw [htail]
        simp
      obtain ⟨c, -, rfl⟩ := List.mem_map.mp hmem
      exact absurd hp (by simp)
  · intro hmem
    refine .inr ⟨[], ⟨b, true⟩, bs.map fun b => ⟨b, false⟩, rfl, rfl, ?_, ⟨false, false⟩, ?_, rfl⟩
    · intro q hq
      obtain ⟨c, -, rfl⟩ := List.mem_map.mp hq
      rfl
    · exact List.mem_map_of_mem hmem

/-- The polls after the first one are all silent, which is right when none of them finds motion
after one that found none. -/
theorem onePerEpisode_tail_iff (bs : List Bool) :
    (∀ front c rest, bs = front ++ c :: rest → c = true → false ∉ front)
      ↔ bs.Pairwise fun b c => c = true → b = true := by
  induction bs with
  | nil => simp
  | cons d bs ih =>
    rw [List.pairwise_cons, ← ih]
    constructor
    · intro h
      refine ⟨fun c hc hset => ?_, fun front c rest hsplit hset hmem => ?_⟩
      · obtain ⟨front, rest, rfl⟩ := List.append_of_mem hc
        cases d with
        | true => rfl
        | false => exact absurd List.mem_cons_self (h (false :: front) c rest rfl hset)
      · exact h (d :: front) c rest (by rw [hsplit]; rfl) hset (List.mem_cons_of_mem d hmem)
    · rintro ⟨hd, hbs⟩ front c rest hsplit hset hmem
      cases front with
      | nil => exact absurd hmem List.not_mem_nil
      | cons e front =>
        obtain ⟨rfl, htail⟩ := List.cons.inj hsplit
        have hdset : d = true := hd c (by rw [htail]; simp) hset
        rcases List.mem_cons.mp hmem with heq | hmem
        · exact absurd hdset (by rw [← heq]; decide)
        · exact hbs front c rest htail hset hmem

theorem onePerEpisode_firstSends (seen : List Bool) :
    OnePerEpisode (firstSends seen) ↔ SingleEpisode seen := by
  cases seen with
  | nil => simp [OnePerEpisode, SingleEpisode, firstSends]
  | cons b bs =>
    rw [SingleEpisode, List.pairwise_cons, ← onePerEpisode_tail_iff bs]
    constructor
    · intro h
      have hb : b = true := ((h [] ⟨b, true⟩ _ rfl).mp rfl).1
      refine ⟨by simpa using hb, fun _ _ _ => hb, fun front c rest hsplit hset hmem => ?_⟩
      have hsilent := h (firstSends (b :: front)) ⟨c, false⟩ (rest.map fun b => ⟨b, false⟩)
        (by rw [hsplit]; simp [firstSends])
      exact absurd (hsilent.mpr ⟨hset, (due_firstSends b front).mpr hmem⟩) (by simp)
    · rintro ⟨hhead, -, htail⟩ before p after hsplit
      have hb : b = true := hhead b rfl
      cases before with
      | nil =>
        obtain ⟨rfl, -⟩ := List.cons.inj hsplit
        simp [hb, due_nil]
      | cons e before =>
        obtain ⟨rfl, hrest⟩ := List.cons.inj hsplit
        obtain ⟨front, cs, rfl, rfl, hcs⟩ := List.map_eq_append_iff.mp hrest
        obtain ⟨c, rest, rfl, rfl, rfl⟩ := List.map_eq_cons_iff.mp hcs
        have hdue := due_firstSends b front
        rw [firstSends] at hdue
        rw [hdue]
        simpa using htail front c rest rfl

/-- For every sequence of one-second results and polls, the loop sends one message for each motion
episode exactly when its first poll finds motion and the polls see no second episode. -/
theorem push_one_per_episode_iff (es : List PushEvent) :
    OnePerEpisode (polls PushState.start es) ↔ SingleEpisode (seenResults es) := by
  rw [polls_untriggered _ _ (by decide), PushState.bit0_start, onePerEpisode_firstSends,
    seenResults]

/-- A poll before anything has moved sends a message, and the first motion is not reported. -/
theorem push_without_motion :
    ¬ OnePerEpisode (polls PushState.start [.poll, .result true, .poll]) := by
  intro h
  have hfirst := (h [] ⟨false, true⟩ [⟨true, false⟩] rfl).mp rfl
  exact absurd hfirst.1 (by decide)

/-! ## The seconds of `motion_thread` -/

/-- One pass of the loop of `motion_thread`: detection is off, `gm_recv_multi_cap_md` failed, or the
regions of all channels whose result is `MOTION_IS_READY` were looked at. -/
inductive MotionPass
  | disabled
  | recvFailed
  | captured (ullSysUpTime : ℕ) (regResults : List Bool)

/-- The locals of `motion_thread` that live from pass to pass; neither is initialised. -/
structure MotionThread where
  ullBakTime : ℕ
  mdTrigger : ℤ

namespace MotionThread

/-- The thread after the pass, and the result it shifts into the history, if the second is over.
The difference of the times is taken in `unsigned long long`. -/
def pass (t : MotionThread) : MotionPass → MotionThread × Option Bool
  | .disabled => (t, none)
  | .recvFailed => (t, none)
  | .captured ullSysUpTime regResults =>
    let mdTrigger := if true ∈ regResults then 1 else t.mdTrigger
    if 1000 * 1000
        < (ullSysUpTime + 18446744073709551616 - t.ullBakTime) % 18446744073709551616 then
      (⟨ullSysUpTime, if mdTrigger = 1 then 0 else mdTrigger⟩, some (decide (mdTrigger = 1)))
    else (⟨t.ullBakTime, mdTrigger⟩, none)

end MotionThread

/-- The steps of the two threads, in the order in which they are taken; `none` is a poll. -/
def threadPolls : MotionThread → PushState → List (Option MotionPass) → List Poll
  | _, _, [] => []
  | t, s, none :: steps => ⟨s.bit0, s.poll.2⟩ :: threadPolls t s.poll.1 steps
  | t, s, some p :: steps =>
    threadPolls (t.pass p).1 ((t.pass p).2.elim s s.shiftResult) steps

/-- The results and polls of such a run. -/
def pushEvents : MotionThread → List (Option MotionPass) → List PushEvent
  | _, [] => []
  | t, none :: steps => .poll :: pushEvents t steps
  | t, some p :: steps => ((t.pass p).2.map .result).toList ++ pushEvents (t.pass p).1 steps

/-- A run of the two threads is a sequence of one-second results and polls. -/
theorem polls_passes (t : MotionThread) (s : PushState) (steps : List (Option MotionPass)) :
    threadPolls t s steps = polls s (pushEvents t steps) := by
  induction steps generalizing t s with
  | nil => rfl
  | cons step steps ih =>
    cases step with
    | none => rw [threadPolls, pushEvents, polls, ih]
    | some p =>
      rw [threadPolls, pushEvents, ih]
      cases (t.pass p).2 with
      | none => rfl
      | some moved => rfl

/-- The same of the threads' own runs, whatever the locals of `motion_thread` hold at the start. -/
theorem onePerEpisode_threadPolls (t : MotionThread) (steps : List (Option MotionPass)) :
    OnePerEpisode (threadPolls t PushState.start steps)
      ↔ SingleEpisode (seenResults (pushEvents t steps)) := by
  rw [polls_passes, polls_untriggered _ _ (by decide), PushState.bit0_start,
    onePerEpisode_firstSends, seenResults]
