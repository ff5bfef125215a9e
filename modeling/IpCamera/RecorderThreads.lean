/-
# Starting and stopping the recorder threads (`record.c`)

A start call tests the status word of its recorder and creates a thread; the thread runs
while the word is set; a stop call clears the word and waits for nobody.  The continuous
recorder's thread sets the word itself, the event recorder's start call sets it before it
creates the thread.

Any number of callers start and stop at the same time, so one actor is a start call with the
thread it creates, and a run interleaves the actors' accesses to the word with the stops.
`recorders_kept_apart` tells which steps keep at most one thread of each recorder in its
loop, and that after any other step the run can go on to a state that does not.
-/
import IpCamera.GuardedRun
import Mathlib.Tactic

/-! ## A start call and its thread -/

/-- The two recorders. -/
inductive RecorderKind
  | normal
  | event
  deriving DecidableEq, Repr

/-- Where a start call, and then the thread that it creates, is. -/
inductive RecorderPhase
  /-- not called yet -/
  | idle
  /-- the status word was found clear -/
  | tested
  /-- the status word has been set, the thread is not created yet -/
  | stored
  /-- the thread exists and is not in its loop yet -/
  | created
  /-- the thread is about to test the status word -/
  | atTest
  /-- the thread is in the body of its loop -/
  | body
  /-- the thread has left its loop -/
  | leaving
  /-- the call was refused or has failed, or the thread has ended -/
  | gone
  deriving DecidableEq, Repr

namespace RecorderPhase

/-- `start_normal_record_stream` and `normal_record_thread`: the next step, which reads and may
write the status word.  `ok` tells whether the thread could be created, and whether the body of the
loop goes round (the segment could be opened). -/
def normalRecord (status ok : Bool) : RecorderPhase → RecorderPhase × Bool
  | idle => if status then (gone, status) else (tested, status)
  | tested => if ok then (created, status) else (gone, status)
  | stored => (stored, status)
  | created => (atTest, true)
  | atTest => if status then (body, status) else (leaving, status)
  | body => if ok then (atTest, status) else (leaving, status)
  | leaving => (gone, false)
  | gone => (gone, status)

/-- `start_event_record_stream` and `event_record_thread`: here the call sets the word, and leaves
it set when the thread cannot be created; a thread that finds no card clears it and ends. -/
def eventRecord (status ok : Bool) : RecorderPhase → RecorderPhase × Bool
  | idle => if status then (gone, status) else (tested, status)
  | tested => (stored, true)
  | stored => if ok then (created, status) else (gone, status)
  | created => if ok then (atTest, status) else (gone, false)
  | atTest => if status then (body, status) else (leaving, status)
  | body => if ok then (atTest, status) else (leaving, status)
  | leaving => (gone, false)
  | gone => (gone, status)

/-- In the recording loop. -/
def InLoop (p : RecorderPhase) : Prop := p = atTest ∨ p = body

/-- The thread exists. -/
def HasThread (p : RecorderPhase) : Prop := p = created ∨ p.InLoop ∨ p = leaving

/-- The call is on the way to create a thread, or the thread is on the way to its loop or in it. -/
def Active (p : RecorderPhase) : Prop := p = tested ∨ p = stored ∨ p = created ∨ p.InLoop

instance (p : RecorderPhase) : Decidable p.InLoop := inferInstanceAs (Decidable (_ ∨ _))

instance (p : RecorderPhase) : Decidable p.HasThread := inferInstanceAs (Decidable (_ ∨ _))

instance (p : RecorderPhase) : Decidable p.Active := inferInstanceAs (Decidable (_ ∨ _))

end RecorderPhase

/-- The next step of an actor. -/
def RecorderKind.record : RecorderKind → Bool → Bool → RecorderPhase → RecorderPhase × Bool
  | .normal => RecorderPhase.normalRecord
  | .event => RecorderPhase.eventRecord

/-! ## Runs -/

/-- The status word and the actors of one recorder; `stopped` notes which threads a stop call has
come after. -/
structure Recorder where
  status : Bool
  phase : ℕ → RecorderPhase
  stopped : ℕ → Bool

/-- An actor takes its next step, or some thread calls stop. -/
inductive RecorderAction
  | actor (i : ℕ) (ok : Bool)
  | stop
  deriving DecidableEq, Repr

namespace Recorder

/-- Before any call. -/
def start : Recorder where
  status := false
  phase _ := .idle
  stopped _ := false

/-- One step; a stop call only clears the word. -/
def step (k : RecorderKind) (r : Recorder) : RecorderAction → Recorder
  | .actor i ok =>
      let next := k.record r.status ok (r.phase i)
      { r with status := next.2, phase := Function.update r.phase i next.1 }
  | .stop =>
      { r with
        status := false
        stopped := fun i => r.stopped i || decide (r.phase i).HasThread }

/-- At most one thread is in the loop; one that a stop call came after leaves at its next test; and
a start is refused only while another call is about to create a thread, or a thread exists. -/
structure KeptApart (r : Recorder) : Prop where
  one : ∀ i j, (r.phase i).InLoop → (r.phase j).InLoop → i = j
  stops : ∀ i, r.stopped i = true → r.phase i = .atTest → r.status = false
  starts : r.status = true → ∃ i, r.phase i = .stored ∨ (r.phase i).HasThread

/-- A start call finds the status word clear only when no other one is under way and no thread is
on the way to its loop or in it; no stop call falls between the creation of a continuous recorder's
thread and its store; and when the event recorder's thread cannot be created, the word has been
cleared or an earlier thread will clear it. -/
def Meets (k : RecorderKind) (r : Recorder) : RecorderAction → Prop
  | .actor i ok =>
      (r.phase i = .idle → r.status = false → ∀ j, ¬ (r.phase j).Active)
        ∧ (k = .event → r.phase i = .stored → ok = false →
          r.status = false ∨ ∃ j, (r.phase j).HasThread)
  | .stop => k = .normal → ∀ i, r.phase i ≠ .created

end Recorder

/-- The two recorders have nothing in common. -/
abbrev RecorderThreads := RecorderKind → Recorder

namespace RecorderThreads

/-- One step of one of the recorders. -/
def step (s : RecorderThreads) (a : RecorderKind × RecorderAction) : RecorderThreads :=
  Function.update s a.1 ((s a.1).step a.1 a.2)

/-- The state after the steps, from before any call. -/
def run (steps : List (RecorderKind × RecorderAction)) : RecorderThreads :=
  steps.foldl step fun _ => .start

/-- The condition on a step. -/
def Meets (s : RecorderThreads) (a : RecorderKind × RecorderAction) : Prop :=
  (s a.1).Meets a.1 a.2

end RecorderThreads

/-! ## What a step of an actor does -/

section Actor

variable {k : RecorderKind} {status ok : Bool} {p : RecorderPhase}

namespace RecorderPhase

/-- Only a start call that finds the word clear makes an actor active. -/
theorem active_of_record (h : (k.record status ok p).1.Active) :
    p.Active ∨ p = .idle ∧ status = false := by
  cases k <;> cases p <;> cases status <;> cases ok <;> revert h <;> decide

/-- The word is set by an active actor outside the loop, that is then about to create a thread or
is one. -/
theorem record_sets (h : (k.record status ok p).2 = true) (hstatus : status = false) :
    (k.record status ok p).1 = .stored ∨ (k.record status ok p).1.HasThread := by
  subst hstatus
  cases k <;> cases p <;> cases ok <;> revert h <;> decide

theorem active_of_record_sets (h : (k.record status ok p).2 = true) (hstatus : status = false) :
    p.Active := by
  subst hstatus
  cases k <;> cases p <;> cases ok <;> revert h <;> decide

/-- One that ends clears the word, unless it is the event recorder's call whose thread could not be
created. -/
theorem record_ends (hp : p = .stored ∨ p.HasThread) (h : (k.record status ok p).2 = true) :
    ((k.record status ok p).1 = .stored ∨ (k.record status ok p).1.HasThread)
      ∨ k = .event ∧ p = .stored ∧ ok = false := by
  cases k <;> cases p <;> cases status <;> cases ok <;> revert hp h <;> decide

end RecorderPhase

end Actor

namespace RecorderPhase

variable {k : RecorderKind} {status ok : Bool} {p : RecorderPhase}

theorem InLoop.active (h : p.InLoop) : p.Active := Or.inr (Or.inr (Or.inr h))

/-- A thread that exists stays one until it ends. -/
theorem started_of_record (hp : p.HasThread ∨ p = .gone) :
    (k.record status ok p).1.HasThread ∨ (k.record status ok p).1 = .gone := by
  cases k <;> cases p <;> cases status <;> cases ok <;> revert hp <;> decide

theorem ne_created_of_record (hp : p.HasThread ∨ p = .gone) :
    (k.record status ok p).1 ≠ .created := by
  cases k <;> cases p <;> cases status <;> cases ok <;> revert hp <;> decide

theorem ne_stored_of_normalRecord (hp : p ≠ .stored) :
    (normalRecord status ok p).1 ≠ .stored := by
  cases p <;> cases status <;> cases ok <;> revert hp <;> decide

theorem not_inLoop_of_record_gone : ¬ (k.record status ok gone).1.InLoop := by
  cases k <;> decide +revert

/-- A thread comes to its loop from the phase before it, and the continuous recorder's sets the
word there. -/
theorem inLoop_of_record (hp : p.HasThread) (h : (k.record status ok p).1.InLoop) :
    p.InLoop ∧ (k.record status ok p).2 = status ∨ p = .created ∧
      (k = .event → (k.record status ok p).2 = status) := by
  cases k <;> cases p <;> cases status <;> cases ok <;> revert hp h <;> decide

end RecorderPhase

namespace Recorder

variable {k : RecorderKind} {r : Recorder} {i : ℕ} {ok : Bool}

@[simp] theorem step_actor_phase_self : (r.step k (.actor i ok)).phase i
    = (k.record r.status ok (r.phase i)).1 := Function.update_self ..

theorem step_actor_phase_of_ne {j : ℕ} (h : j ≠ i) :
    (r.step k (.actor i ok)).phase j = r.phase j := Function.update_of_ne h ..

@[simp] theorem step_actor_status : (r.step k (.actor i ok)).status
    = (k.record r.status ok (r.phase i)).2 := rfl

/-! ## The invariant -/

/-- At most one actor is active; a thread that has been stopped finds the word clear when it next
looks; and a word that is set has somebody who will clear it. -/
structure Exclusive (k : RecorderKind) (r : Recorder) : Prop where
  one : ∀ i j, (r.phase i).Active → (r.phase j).Active → i = j
  marked : ∀ i, r.stopped i = true → (r.phase i).HasThread ∨ r.phase i = .gone
  created : ∀ i, r.stopped i = true → r.phase i = .created → k = .event ∧ r.status = false
  stops : ∀ i, r.stopped i = true → (r.phase i).InLoop → r.status = false
  starts : r.status = true → ∃ i, r.phase i = .stored ∨ (r.phase i).HasThread
  stores : k = .normal → ∀ i, r.phase i ≠ .stored

theorem start_exclusive (k : RecorderKind) : Exclusive k start where
  stores := by simp [start]
  one := by simp [start, RecorderPhase.Active, RecorderPhase.InLoop]
  marked := by simp [start]
  created := by simp [start]
  stops := by simp [start]
  starts := by simp [start]

/-- A step of an actor makes no second one active. -/
theorem Exclusive.actor_one (h : Exclusive k r) (hmeets : r.Meets k (.actor i ok)) (j : ℕ)
    (hi : ((r.step k (.actor i ok)).phase i).Active)
    (hj : ((r.step k (.actor i ok)).phase j).Active) : i = j := by
  by_contra hne
  rw [step_actor_phase_of_ne (Ne.symm hne)] at hj
  rw [step_actor_phase_self] at hi
  rcases RecorderPhase.active_of_record hi with hi | ⟨hidle, hclear⟩
  · exact hne (h.one i j hi hj)
  · exact hmeets.1 hidle hclear j hj

/-- While another actor is active, a step does not set the word. -/
theorem Exclusive.actor_status (h : Exclusive k r) {j : ℕ} (hne : j ≠ i) (hj : (r.phase j).Active)
    (hclear : r.status = false) : (r.step k (.actor i ok)).status = false := by
  rw [← Bool.not_eq_true]
  intro hset
  exact hne (h.one j i hj (RecorderPhase.active_of_record_sets hset hclear))

/-- The step lemma for the actors. -/
theorem Exclusive.actor (h : Exclusive k r) (hmeets : r.Meets k (.actor i ok)) :
    Exclusive k (r.step k (.actor i ok)) := by
  constructor
  case one =>
    intro j l hj hl
    by_cases hji : j = i
    · subst hji
      exact h.actor_one hmeets l hj hl
    by_cases hli : l = i
    · subst hli
      exact (h.actor_one hmeets j hl hj).symm
    · rw [step_actor_phase_of_ne hji] at hj
      rw [step_actor_phase_of_ne hli] at hl
      exact h.one j l hj hl
  case marked =>
    intro j hj
    by_cases hji : j = i
    · subst hji
      rw [step_actor_phase_self]
      exact RecorderPhase.started_of_record (h.marked j hj)
    · rw [step_actor_phase_of_ne hji]
      exact h.marked j hj
  case created =>
    intro j hj hphase
    by_cases hji : j = i
    · -- a thread that has been created was not stopped before
      subst hji
      rw [step_actor_phase_self] at hphase
      exact absurd hphase (RecorderPhase.ne_created_of_record (h.marked j hj))
    · rw [step_actor_phase_of_ne hji] at hphase
      obtain ⟨hk, hclear⟩ := h.created j hj hphase
      exact ⟨hk, h.actor_status hji (by rw [hphase]; decide) hclear⟩
  case stops =>
    intro j hj hphase
    by_cases hji : j = i
    · subst hji
      rw [step_actor_phase_self] at hphase
      rcases h.marked j hj with hthread | hgone
      · rcases RecorderPhase.inLoop_of_record hthread hphase with ⟨hloop, hsame⟩ | ⟨hcreated, hsame⟩
        · exact hsame.trans (h.stops j hj hloop)
        · obtain ⟨hk, hclear⟩ := h.created j hj hcreated
          exact (hsame hk).trans hclear
      · rw [hgone] at hphase
        exact absurd hphase RecorderPhase.not_inLoop_of_record_gone
    · rw [step_actor_phase_of_ne hji] at hphase
      exact h.actor_status hji hphase.active (h.stops j hj hphase)
  case starts =>
    intro hset
    cases hstatus : r.status with
    | false => exact ⟨i, by rw [step_actor_phase_self]; exact RecorderPhase.record_sets hset hstatus⟩
    | true =>
      obtain ⟨j, hj⟩ := h.starts hstatus
      by_cases hji : j = i
      · subst hji
        rcases RecorderPhase.record_ends hj hset with hstay | ⟨hk, hphase, hok⟩
        · exact ⟨j, by rwa [step_actor_phase_self]⟩
        · -- the thread could not be created: an earlier one is still there
          obtain ⟨l, hl⟩ := (hmeets.2 hk hphase hok).resolve_left (by simp [hstatus])
          have hlj : l ≠ j := by
            rintro rfl
            rw [hphase] at hl
            exact absurd hl (by decide)
          exact ⟨l, Or.inr (by rwa [step_actor_phase_of_ne hlj])⟩
      · exact ⟨j, by rwa [step_actor_phase_of_ne hji]⟩
  case stores =>
    rintro rfl j
    by_cases hji : j = i
    · subst hji
      rw [step_actor_phase_self]
      exact RecorderPhase.ne_stored_of_normalRecord (h.stores rfl j)
    · rw [step_actor_phase_of_ne hji]
      exact h.stores rfl j

/-- The step lemma for a stop call. -/
theorem Exclusive.stop (h : Exclusive k r) (hmeets : r.Meets k .stop) :
    Exclusive k (r.step k .stop) := by
  constructor
  case one => exact h.one
  case marked =>
    intro j hj
    rcases Bool.or_eq_true_iff.mp hj with hj | hj
    · exact h.marked j hj
    · exact Or.inl (of_decide_eq_true hj)
  case created =>
    intro j hj hphase
    cases k with
    | normal => exact absurd hphase (hmeets rfl j)
    | event => exact ⟨rfl, rfl⟩
  case stops => exact fun _ _ _ => rfl
  case starts => exact fun hset => absurd hset Bool.false_ne_true
  case stores => exact h.stores

theorem Exclusive.step (h : Exclusive k r) {a : RecorderAction} (hmeets : r.Meets k a) :
    Exclusive k (r.step k a) := by
  cases a with
  | actor i ok => exact h.actor hmeets
  | stop => exact h.stop hmeets

theorem Exclusive.keptApart (h : Exclusive k r) : KeptApart r where
  one i j hi hj := h.one i j hi.active hj.active
  stops i hi hphase := h.stops i hi (Or.inl hphase)
  starts := h.starts

/-! ## What the other steps lead to -/

/-- Some steps take the actor to its loop, and the others stay where they are. -/
def CanLoop (k : RecorderKind) (i : ℕ) (r : Recorder) : Prop :=
  ∃ as : List RecorderAction, ((as.foldl (Recorder.step k) r).phase i).InLoop
    ∧ ∀ j, j ≠ i → (as.foldl (Recorder.step k) r).phase j = r.phase j

theorem CanLoop.of_inLoop (h : (r.phase i).InLoop) : CanLoop k i r := ⟨[], h, fun _ _ => rfl⟩

theorem CanLoop.of_step (h : CanLoop k i (r.step k (.actor i true))) : CanLoop k i r := by
  obtain ⟨as, hloop, hothers⟩ := h
  refine ⟨.actor i true :: as, hloop, fun j hj => (hothers j hj).trans ?_⟩
  exact step_actor_phase_of_ne hj

theorem canLoop_of_created (h : r.phase i = .created) : CanLoop k i r := by
  apply CanLoop.of_step
  apply CanLoop.of_inLoop
  rw [step_actor_phase_self, h]
  cases k <;> exact Or.inl rfl

theorem canLoop_of_stored (h : r.phase i = .stored) : CanLoop .event i r := by
  apply CanLoop.of_step
  apply canLoop_of_created
  rw [step_actor_phase_self, h]
  rfl

theorem canLoop_of_tested (h : r.phase i = .tested) : CanLoop k i r := by
  apply CanLoop.of_step
  cases k with
  | normal =>
    apply canLoop_of_created
    rw [step_actor_phase_self, h]
    rfl
  | event =>
    apply canLoop_of_stored
    rw [step_actor_phase_self, h]
    rfl

/-- Every active actor can go on to its loop; the continuous recorder's calls store nothing. -/
theorem canLoop_of_active (hi : (r.phase i).Active) (hk : k = .normal → r.phase i ≠ .stored) :
    CanLoop k i r := by
  rcases hi with h | h | h | h
  · exact canLoop_of_tested h
  · cases k with
    | normal => exact absurd h (hk rfl)
    | event => exact canLoop_of_stored h
  · exact canLoop_of_created h
  · exact CanLoop.of_inLoop h

/-- Two active actors can both go on to their loops. -/
theorem not_keptApart_of_active {j : ℕ} (hne : i ≠ j) (hi : (r.phase i).Active)
    (hj : (r.phase j).Active) (hk : ∀ l, k = .normal → r.phase l ≠ .stored) :
    ∃ as : List RecorderAction, ¬ KeptApart (as.foldl (Recorder.step k) r) := by
  obtain ⟨as, hiloop, hothers⟩ := canLoop_of_active hi (hk i)
  have hjphase := hothers j hne.symm
  obtain ⟨bs, hjloop, hothers'⟩ : CanLoop k j (as.foldl (Recorder.step k) r) :=
    canLoop_of_active (by rwa [hjphase]) (by rw [hjphase]; exact hk j)
  refine ⟨as ++ bs, fun hkept => hne (hkept.one i j ?_ ?_)⟩
  · rw [List.foldl_append, hothers' i hne]
    exact hiloop
  · rw [List.foldl_append]
    exact hjloop

/-- A start call that finds the word clear too early makes a second thread possible. -/
theorem Exclusive.start_breaks (h : Exclusive k r) (hidle : r.phase i = .idle)
    (hclear : r.status = false) {j : ℕ} (hj : (r.phase j).Active) :
    ∃ as : List RecorderAction, ¬ KeptApart (as.foldl (Recorder.step k) (r.step k (.actor i ok))) := by
  have hne : j ≠ i := by
    rintro rfl
    rw [hidle] at hj
    exact absurd hj (by decide)
  have htested : (r.step k (.actor i ok)).phase i = .tested := by
    rw [step_actor_phase_self, hidle, hclear]
    cases k <;> rfl
  refine not_keptApart_of_active hne.symm (by rw [htested]; decide)
    (by rwa [step_actor_phase_of_ne hne]) fun l hk => ?_
  by_cases hli : l = i
  · rw [hli, htested]
    decide
  · rw [step_actor_phase_of_ne hli]
    exact h.stores hk l

/-- A stop call that comes before the store of a continuous recorder's thread is lost. -/
theorem stop_breaks (hcreated : r.phase i = .created) :
    ¬ KeptApart ((r.step .normal .stop).step .normal (.actor i true)) := by
  intro hkept
  have hstopped : (r.step .normal .stop).stopped i = true := by
    refine Bool.or_eq_true_iff.mpr (Or.inr (decide_eq_true ?_))
    exact Or.inl hcreated
  have hphase : (r.step .normal .stop).phase i = .created := hcreated
  have htest := hkept.stops i hstopped (by rw [step_actor_phase_self, hphase]; rfl)
  rw [step_actor_status, hphase] at htest
  exact Bool.false_ne_true htest.symm

/-- A thread of the event recorder that could not be created leaves the word set for ever. -/
theorem create_breaks (hphase : r.phase i = .stored) (hset : r.status = true)
    (halone : ∀ j, ¬ (r.phase j).HasThread) (hone : ∀ j, r.phase j = .stored → j = i) :
    ¬ KeptApart (r.step .event (.actor i false)) := by
  intro hkept
  obtain ⟨j, hj⟩ := hkept.starts (by rw [step_actor_status, hphase]; exact hset)
  by_cases hji : j = i
  · have hgone : (r.step .event (.actor i false)).phase i = .gone := by
      rw [step_actor_phase_self, hphase]
      rfl
    rw [hji, hgone] at hj
    exact absurd hj (by decide)
  · rw [step_actor_phase_of_ne hji] at hj
    exact hj.elim (fun hstored => hji (hone j hstored)) (halone j)

/-- So every step that does not meet the condition lets the run go on to where the recorders are not
kept apart. -/
theorem Exclusive.breaks (h : Exclusive k r) {a : RecorderAction} (hmeets : ¬ r.Meets k a) :
    ∃ as : List RecorderAction, ¬ KeptApart (as.foldl (Recorder.step k) (r.step k a)) := by
  cases a with
  | actor i ok =>
    simp only [Meets, not_and_or, not_forall, exists_prop, not_not, not_or, not_exists,
      Bool.not_eq_false] at hmeets
    rcases hmeets with ⟨hidle, hclear, j, hj⟩ | ⟨rfl, hphase, rfl, hset, halone⟩
    · exact h.start_breaks hidle hclear hj
    · refine ⟨[], create_breaks hphase hset halone fun j hj => ?_⟩
      exact h.one j i (Or.inr (Or.inl hj)) (Or.inr (Or.inl hphase))
  | stop =>
    simp only [Meets, not_forall, exists_prop, not_not] at hmeets
    obtain ⟨rfl, i, hcreated⟩ := hmeets
    exact ⟨[.actor i true], stop_breaks hcreated⟩

end Recorder

/-! ## Both recorders, in every run -/

namespace RecorderThreads

open Recorder

theorem step_exclusive {s : RecorderThreads} (hs : ∀ k, Exclusive k (s k))
    {a : RecorderKind × RecorderAction} (hmeets : s.Meets a) (k : RecorderKind) :
    Exclusive k (s.step a k) := by
  by_cases hk : k = a.1
  · subst hk
    rw [step, Function.update_self]
    exact (hs a.1).step hmeets
  · rw [step, Function.update_of_ne hk]
    exact hs k

/-- Steps of one recorder do not touch the other. -/
theorem foldl_step_map (k : RecorderKind) (as : List RecorderAction) (s : RecorderThreads) :
    (as.map (Prod.mk k)).foldl step s = Function.update s k (as.foldl (Recorder.step k) (s k)) := by
  induction as generalizing s with
  | nil => exact (Function.update_eq_self k s).symm
  | cons a as ih =>
    rw [List.map_cons, List.foldl_cons, ih, List.foldl_cons, step, Function.update_self,
      Function.update_idem]

/-- In every run whose steps all meet the condition both recorders are kept apart in every state;
after any other step the run can go on to a state where one of them is not. -/
theorem recorders_kept_apart (steps : List (RecorderKind × RecorderAction))
    (hrun : GuardedRun.Guarded step Meets (fun _ => .start) steps) :
    (∀ k, KeptApart (run steps k))
      ∧ ∀ a, ¬ Meets (run steps) a → ∃ more, ¬ KeptApart (run (steps ++ a :: more) a.1) := by
  have hexcl : ∀ k, Exclusive k (run steps k) :=
    hrun.invariant (I := fun s : RecorderThreads => ∀ k, Exclusive k (s k)) (fun _ _ hs ha => step_exclusive hs ha)
      start_exclusive
  refine ⟨fun k => (hexcl k).keptApart, fun ⟨k, a⟩ hmeets => ?_⟩
  obtain ⟨as, has⟩ := (hexcl k).breaks hmeets
  refine ⟨as.map (Prod.mk k), ?_⟩
  have hlast : run (steps ++ (k, a) :: as.map (Prod.mk k)) k
      = as.foldl (Recorder.step k) ((run steps k).step k a) := by
    unfold run
    rw [List.foldl_append, List.foldl_cons, foldl_step_map, Function.update_self, step,
      Function.update_self]
  show ¬ KeptApart (run (steps ++ (k, a) :: as.map (Prod.mk k)) k)
  rw [hlast]
  exact has

/-- One start call whose thread gets to its loop. -/
theorem recorders_kept_apart_start :
    KeptApart (run [(.normal, .actor 0 true), (.normal, .actor 0 true),
      (.normal, .actor 0 true)] .normal) := by
  refine (recorders_kept_apart _ ?_).1 .normal
  refine ⟨⟨fun _ _ j => ?_, fun h => nomatch h⟩, ⟨fun h => ?_, fun h => nomatch h⟩,
    ⟨fun h => ?_, fun h => nomatch h⟩, trivial⟩
  · exact of_decide_eq_false rfl
  · exact absurd h (by decide)
  · exact absurd h (by decide)

/-- Stopped and started again while the first thread is in the body of its loop, the continuous
recorder has two. -/
theorem two_recorders : ¬ ∀ steps k, KeptApart (run steps k) := by
  intro h
  have hone := (h [(.normal, .actor 0 true), (.normal, .actor 0 true), (.normal, .actor 0 true),
    (.normal, .actor 0 true), (.normal, .stop), (.normal, .actor 1 true), (.normal, .actor 1 true),
    (.normal, .actor 1 true)] .normal).one 0 1 (by decide) (by decide)
  exact absurd hone (by decide)

end RecorderThreads
