/-
# Playback sessions (`DANAVIDEOCMD_RECPLAY`, `RECSTOP` and `th_history_media`)

Every app connection can start and stop one playback thread.  The command handler, the
disconnect callback and the thread share a run flag and a thread id of their connection,
and all connections share one playback handle and one note of the recording to play.

The invariant `Inv` says that one thread at a time owns the handle, that the note is the one
every thread that still has to read it was started for, and that a live thread is known to
its connection.  `sessions_kept_apart` tells which steps keep it, and that after any other one
the sessions need not be kept apart.
-/
import IpCamera.GuardedRun
import Mathlib.Tactic

/-! ## Connections, threads and the handle -/

/-- The next thing a playback thread does. -/
inductive PlaybackPhase
  /-- test `gs_pPBHandle` -/
  | created
  /-- allocate the handle -/
  | alloc
  /-- open the recording that is noted -/
  | opening
  /-- read the index, and look for the time that is noted -/
  | position
  /-- test the run flag and the end of the file -/
  | loop
  /-- read and send a frame -/
  | send
  /-- close and free what `gs_pPBHandle` points to -/
  | destroy
  /-- set `gs_pPBHandle` to `NULL` -/
  | clear
  /-- set `exit_history_media` in the `MYDATA` of the connection -/
  | exiting
  | gone
  deriving DecidableEq, Repr

namespace PlaybackPhase

/-- The thread still has to read the note. -/
def Reads (p : PlaybackPhase) : Prop := p = created ∨ p = alloc ∨ p = opening ∨ p = position

/-- The thread plays. -/
def Plays (p : PlaybackPhase) : Prop := p = loop ∨ p = send

/-- The next step uses the handle. -/
def Uses (p : PlaybackPhase) : Prop := p = opening ∨ p = position ∨ p.Plays ∨ p = destroy

/-- The handle is there, or is about to be, because of this thread. -/
def Owns (p : PlaybackPhase) : Prop := p = alloc ∨ p.Uses ∨ p = clear

instance (p : PlaybackPhase) : Decidable p.Reads := inferInstanceAs (Decidable (_ ∨ _))

instance (p : PlaybackPhase) : Decidable p.Plays := inferInstanceAs (Decidable (_ ∨ _))

instance (p : PlaybackPhase) : Decidable p.Uses := inferInstanceAs (Decidable (_ ∨ _))

instance (p : PlaybackPhase) : Decidable p.Owns := inferInstanceAs (Decidable (_ ∨ _))

theorem Uses.owns {p : PlaybackPhase} (h : p.Uses) : p.Owns := Or.inr (Or.inl h)

theorem Plays.uses {p : PlaybackPhase} (h : p.Plays) : p.Uses := Or.inr (Or.inr (Or.inl h))

theorem owns_of_uses_or_clear {p : PlaybackPhase} (h : p.Uses ∨ p = clear) : p.Owns := Or.inr h

end PlaybackPhase

/-- A playback thread: its connection, the recording and time that the `RECPLAY` which started it
has found, its pointer to the handle, and what it has sent. -/
structure PlaybackThread (ε φ : Type) where
  conn : ℕ
  wanted : ε
  phase : PlaybackPhase
  handle : Option ℕ
  sent : List φ

/-- `DANAAviPBHandle`: the note the file was opened for, the one it was positioned for, and the next
frame. -/
structure PlaybackHandle (ε : Type) where
  file : Option ε
  time : Option ε
  index : ℕ
  destroyed : Bool

/-- `MYDATA`; `joining` while `RECSTOP` waits for the thread, and `ended` after `RECSTOP` or
`danavideoconn_aborted` has returned, until the next thread is started. -/
structure PlaybackConn where
  runHistoryMedia : Bool
  threadHistoryMedia : Option ℕ
  joining : Bool
  freed : Bool
  ended : Bool

/-- All connections, threads and handles, `gs_pPBHandle` and `pDanaAvEvent`. -/
structure PlaybackSessions (ε φ : Type) where
  conn : ℕ → PlaybackConn
  thread : ℕ → Option (PlaybackThread ε φ)
  nextThread : ℕ
  handle : ℕ → PlaybackHandle ε
  nextHandle : ℕ
  gsPBHandle : Option ℕ
  danaAvEvent : Option ε

namespace PlaybackSessions

variable {ε φ : Type}

/-- Before any connection has asked for anything. -/
def start : PlaybackSessions ε φ where
  conn _ := ⟨false, none, false, false, false⟩
  thread _ := none
  nextThread := 0
  handle _ := ⟨none, none, 0, false⟩
  nextHandle := 0
  gsPBHandle := none
  danaAvEvent := none

/-! ## A step of a playback thread -/

/-- What a thread is after its step. -/
def setThread (s : PlaybackSessions ε φ) (t : ℕ) (u : PlaybackThread ε φ) : PlaybackSessions ε φ :=
  { s with thread := Function.update s.thread t (some u) }

/-- The contents of the handle a pointer leads to change. -/
def onHandle (s : PlaybackSessions ε φ) (pointer : Option ℕ)
    (f : PlaybackHandle ε → PlaybackHandle ε) : PlaybackSessions ε φ :=
  match pointer with
  | none => s
  | some h => { s with handle := Function.update s.handle h (f (s.handle h)) }

/-- The frame that is next: of the file the handle was opened for, from the time it was positioned
for.  `recording` tells which frames are sent then. -/
def nextFrame (recording : ε → ε → List φ) (s : PlaybackSessions ε φ) (u : PlaybackThread ε φ) :
    Option φ := do
  let h ← u.handle
  let file ← (s.handle h).file
  let time ← (s.handle h).time
  (recording file time)[(s.handle h).index]?

/-- The next step of `th_history_media`, with `dana_playback_handle_create` and
`dana_playback_handle_destroy`; `ok` tells whether the file can be opened. -/
def thHistoryMedia (recording : ε → ε → List φ) (s : PlaybackSessions ε φ) (t : ℕ)
    (u : PlaybackThread ε φ) (ok : Bool) : PlaybackSessions ε φ :=
  match u.phase with
  | .created =>
      s.setThread t { u with phase := if s.gsPBHandle.isNone then .alloc else .position }
  | .alloc =>
      { s with
        handle := Function.update s.handle s.nextHandle ⟨none, none, 0, false⟩
        nextHandle := s.nextHandle + 1
        gsPBHandle := some s.nextHandle }
        |>.setThread t { u with phase := .opening }
  | .opening =>
      if ok then
        s.onHandle s.gsPBHandle (fun h => { h with file := s.danaAvEvent })
          |>.setThread t { u with phase := .position }
      else s.setThread t { u with phase := .destroy }
  | .position =>
      s.onHandle s.gsPBHandle (fun h => { h with time := s.danaAvEvent, index := 0 })
        |>.setThread t { u with phase := .loop, handle := s.gsPBHandle }
  | .loop =>
      if (s.conn u.conn).runHistoryMedia ∧ (s.nextFrame recording u).isSome then
        s.setThread t { u with phase := .send }
      else s.setThread t { u with phase := .destroy }
  | .send =>
      s.onHandle u.handle (fun h => { h with index := h.index + 1 })
        |>.setThread t { u with
          phase := .loop
          sent := u.sent ++ (s.nextFrame recording u).toList }
  | .destroy =>
      s.onHandle s.gsPBHandle (fun h => { h with destroyed := true })
        |>.setThread t { u with phase := .clear }
  | .clear => { s with gsPBHandle := none }.setThread t { u with phase := .exiting }
  | .exiting => s.setThread t { u with phase := .gone }
  | .gone => s

/-! ## Runs -/

/-- What happens: a `RECPLAY`, that finds a recording or not and whose thread can be created or not,
a `RECSTOP` and its return, a disconnect, and a step of a playback thread. -/
inductive Step (ε : Type)
  | recPlay (c : ℕ) (found : Option ε) (ok : Bool)
  | recStop (c : ℕ)
  | recStopReturns (c : ℕ)
  | aborted (c : ℕ)
  | thread (t : ℕ) (ok : Bool)

/-- The connection can have no event: its handler waits in `RECSTOP`, or it is gone. -/
def Busy (s : PlaybackSessions ε φ) (c : ℕ) : Prop :=
  (s.conn c).joining = true ∨ (s.conn c).freed = true

instance (s : PlaybackSessions ε φ) (c : ℕ) : Decidable (s.Busy c) :=
  inferInstanceAs (Decidable (_ ∨ _))

/-- `MYDATA` of a connection changes. -/
def setConn (s : PlaybackSessions ε φ) (c : ℕ) (d : PlaybackConn) : PlaybackSessions ε φ :=
  { s with conn := Function.update s.conn c d }

/-- `DANAVIDEOCMD_RECPLAY` with a recording found, which has been noted. -/
def recPlay (s : PlaybackSessions ε φ) (c : ℕ) (event : ε) (ok : Bool) : PlaybackSessions ε φ :=
  let s := { s with danaAvEvent := some event }
  if (s.conn c).runHistoryMedia then s
  else if ok then
    { s with
      thread := Function.update s.thread s.nextThread (some ⟨c, event, .created, none, []⟩)
      nextThread := s.nextThread + 1 }
      |>.setConn c { s.conn c with
        runHistoryMedia := true
        threadHistoryMedia := some s.nextThread
        ended := false }
  else s.setConn c { s.conn c with runHistoryMedia := false, threadHistoryMedia := none }

/-- `DANAVIDEOCMD_RECSTOP` up to `pthread_join`, which only a thread id of 0 skips. -/
def recStop (s : PlaybackSessions ε φ) (c : ℕ) : PlaybackSessions ε φ :=
  if (s.conn c).threadHistoryMedia.isSome then
    s.setConn c { s.conn c with runHistoryMedia := false, joining := true }
  else s.setConn c { s.conn c with runHistoryMedia := false, ended := true }

/-- The thread that `pthread_join` waits for has ended. -/
def joined (s : PlaybackSessions ε φ) (c : ℕ) : Bool :=
  match (s.conn c).threadHistoryMedia with
  | none => true
  | some t =>
    match s.thread t with
    | none => true
    | some u => u.phase = .gone

/-- The rest of `RECSTOP`. -/
def recStopReturns (s : PlaybackSessions ε φ) (c : ℕ) : PlaybackSessions ε φ :=
  if (s.conn c).joining = true ∧ s.joined c = true then
    s.setConn c { s.conn c with joining := false, threadHistoryMedia := none, ended := true }
  else s

/-- `danavideoconn_aborted`, what it does for playback. -/
def aborted (s : PlaybackSessions ε φ) (c : ℕ) : PlaybackSessions ε φ :=
  s.setConn c { s.conn c with freed := true, ended := true }

/-- One step. -/
def step (recording : ε → ε → List φ) (s : PlaybackSessions ε φ) : Step ε → PlaybackSessions ε φ
  | .recPlay _ none _ => s
  | .recPlay c (some event) ok => if s.Busy c then s else s.recPlay c event ok
  | .recStop c => if s.Busy c then s else s.recStop c
  | .recStopReturns c => s.recStopReturns c
  | .aborted c => if s.Busy c then s else s.aborted c
  | .thread t ok =>
      match s.thread t with
      | none => s
      | some u => s.thHistoryMedia recording t u ok

/-- The state after the steps. -/
def run (recording : ε → ε → List φ) (steps : List (Step ε)) : PlaybackSessions ε φ :=
  steps.foldl (step recording) start

/-- A thread of the connection runs. -/
def Runs (s : PlaybackSessions ε φ) (c : ℕ) : Prop :=
  ∃ t u, s.thread t = some u ∧ u.phase ≠ .gone ∧ u.conn = c

/-! ## What the sessions should be -/

/-- Sessions that are kept apart. -/
structure KeptApart (recording : ε → ε → List φ) (s : PlaybackSessions ε φ) : Prop where
  /-- a connection has at most one thread -/
  one : ∀ t t' u u', s.thread t = some u → s.thread t' = some u' → u.phase ≠ .gone →
    u'.phase ≠ .gone → u.conn = u'.conn → t = t'
  /-- after `RECSTOP` or `danavideoconn_aborted` has returned, it has none -/
  ended : ∀ c, (s.conn c).ended = true → ¬ s.Runs c
  /-- the handle that a thread is about to use is not destroyed -/
  alive : ∀ t u, s.thread t = some u → u.phase.Uses →
    ∃ h, (if u.phase.Plays then u.handle else s.gsPBHandle) = some h
      ∧ (s.handle h).destroyed = false
  /-- a thread that plays has the recording it was started for, where it has got to itself -/
  own : ∀ t u, s.thread t = some u → u.phase.Plays → ∃ h, u.handle = some h
    ∧ (s.handle h).file = some u.wanted ∧ (s.handle h).time = some u.wanted
    ∧ (s.handle h).index = u.sent.length
  /-- so that what it sends next depends on nothing else -/
  next : ∀ t u, s.thread t = some u → u.phase.Plays →
    s.nextFrame recording u = (recording u.wanted u.wanted)[u.sent.length]?
  /-- what it has sent is the beginning of that recording -/
  sent : ∀ t u, s.thread t = some u → u.sent <+: recording u.wanted u.wanted

/-- A `RECPLAY` that finds a recording, while no thread of its connection runs and if one can be
created, starts one for that recording. -/
def Starts (recording : ε → ε → List φ) (s : PlaybackSessions ε φ) : Step ε → Prop
  | .recPlay c (some event) true => ¬ s.Busy c → ¬ s.Runs c →
      ∃ t u, s.thread t = none ∧ u.phase ≠ .gone ∧ u.conn = c ∧ u.wanted = event
        ∧ (s.step recording (.recPlay c (some event) true)).thread t = some u
  | _ => True

/-- A `RECPLAY` that finds a recording does so while every thread that still has to read the note
was started for the same one, and its connection's run flag is set only while a thread of the
connection runs; a disconnect comes while none runs; and a thread comes to test `gs_pPBHandle` when
no other one owns the handle. -/
def Meets (s : PlaybackSessions ε φ) : Step ε → Prop
  | .recPlay c (some event) ok => ¬ s.Busy c →
      (∀ t u, s.thread t = some u → u.phase.Reads → u.wanted = event)
        ∧ (ok = true → (s.conn c).runHistoryMedia = true → s.Runs c)
  | .aborted c => ¬ s.Busy c → ¬ s.Runs c
  | .thread t _ => ∀ u, s.thread t = some u → u.phase = .created →
      ∀ t' u', s.thread t' = some u' → ¬ u'.phase.Owns
  | _ => True

/-! ## The invariant -/

section Invariant

variable {recording : ε → ε → List φ} {s : PlaybackSessions ε φ}

/-- The handle `h` is in the state a thread needs for its next step. -/
structure Holds (recording : ε → ε → List φ) (s : PlaybackSessions ε φ) (h : ℕ)
    (u : PlaybackThread ε φ) : Prop where
  alive : (s.handle h).destroyed = false
  file : u.phase = .position → (s.handle h).file = some u.wanted
  plays : u.phase.Plays → u.handle = some h ∧ (s.handle h).file = some u.wanted
    ∧ (s.handle h).time = some u.wanted ∧ (s.handle h).index = u.sent.length
  send : u.phase = .send → u.sent.length < (recording u.wanted u.wanted).length

/-- `MYDATA` of the connection of a live thread. -/
structure Knows (d : PlaybackConn) (t : ℕ) : Prop where
  thread : d.threadHistoryMedia = some t
  flag : d.runHistoryMedia = true ∨ d.joining = true
  freed : d.freed = false
  ended : d.ended = false

/-- A live thread is the one its connection knows; one thread owns the handle, which is there only
while it is used; and the note is the one that is still to be read. -/
structure Inv (recording : ε → ε → List φ) (s : PlaybackSessions ε φ) : Prop where
  fresh : ∀ t, s.nextThread ≤ t → s.thread t = none
  conn : ∀ t u, s.thread t = some u → u.phase ≠ .gone → Knows (s.conn u.conn) t
  owner : ∀ t t' u u', s.thread t = some u → s.thread t' = some u' → u.phase.Owns →
    u'.phase.Owns → t = t'
  held : ∀ h, s.gsPBHandle = some h →
    ∃ t u, s.thread t = some u ∧ (u.phase.Uses ∨ u.phase = .clear)
  uses : ∀ t u, s.thread t = some u → u.phase.Uses →
    ∃ h, s.gsPBHandle = some h ∧ Holds recording s h u
  reads : ∀ t u, s.thread t = some u → u.phase.Reads → s.danaAvEvent = some u.wanted
  unsent : ∀ t u, s.thread t = some u → u.phase.Reads → u.sent = []
  sent : ∀ t u, s.thread t = some u → u.sent <+: recording u.wanted u.wanted

/-- The next frame of a thread whose handle is as it needs it. -/
theorem nextFrame_eq {hd : ℕ} {u : PlaybackThread ε φ} (hhandle : u.handle = some hd)
    (hfile : (s.handle hd).file = some u.wanted) (htime : (s.handle hd).time = some u.wanted)
    (hindex : (s.handle hd).index = u.sent.length) :
    s.nextFrame recording u = (recording u.wanted u.wanted)[u.sent.length]? := by
  simp [nextFrame, hhandle, hfile, htime, hindex]

theorem Holds.of_handle {s' : PlaybackSessions ε φ} {hd : ℕ} {u : PlaybackThread ε φ}
    (h : Holds recording s hd u) (heq : s'.handle = s.handle) : Holds recording s' hd u := by
  obtain ⟨halive, hfile, hplays, hsend⟩ := h
  rw [← heq] at halive hfile hplays
  exact ⟨halive, hfile, hplays, hsend⟩

theorem start_inv : Inv recording (start : PlaybackSessions ε φ) := by
  constructor <;> simp [start]

theorem Inv.keptApart (h : Inv recording s) : KeptApart recording s where
  one t t' u u' ht ht' hu hu' hc := by
    have hid := (h.conn t u ht hu).thread
    rw [hc, (h.conn t' u' ht' hu').thread] at hid
    exact (Option.some.inj hid).symm
  ended c hended := by
    rintro ⟨t, u, ht, hu, rfl⟩
    exact absurd (hended.symm.trans (h.conn t u ht hu).ended) (by decide)
  alive t u ht huse := by
    obtain ⟨hd, hgs, hholds⟩ := h.uses t u ht huse
    refine ⟨hd, ?_, hholds.alive⟩
    split
    · exact (hholds.plays ‹_›).1
    · exact hgs
  own t u ht hplays := by
    obtain ⟨hd, -, hholds⟩ := h.uses t u ht hplays.uses
    exact ⟨hd, hholds.plays hplays⟩
  next t u ht hplays := by
    obtain ⟨hd, -, hholds⟩ := h.uses t u ht hplays.uses
    obtain ⟨hhandle, hfile, htime, hindex⟩ := hholds.plays hplays
    exact nextFrame_eq hhandle hfile htime hindex
  sent := h.sent

/-- Beside a thread that owns the handle no other one does. -/
def Alone (s : PlaybackSessions ε φ) (t : ℕ) : Prop :=
  ∀ t' v, t' ≠ t → s.thread t' = some v → ¬ v.phase.Owns

theorem Inv.alone (h : Inv recording s) {t : ℕ} {u : PlaybackThread ε φ} (ht : s.thread t = some u)
    (hu : u.phase.Owns) : s.Alone t :=
  fun t' v hne ht' hv => hne (h.owner t' t v u ht' ht hv hu)

/-- After an update a thread is the new one or was there before. -/
theorem thread_update_cases {t t' : ℕ} {u' v : PlaybackThread ε φ}
    (hv : Function.update s.thread t (some u') t' = some v) :
    t' = t ∧ v = u' ∨ t' ≠ t ∧ s.thread t' = some v := by
  by_cases hne : t' = t
  · rw [hne, Function.update_self] at hv
    exact Or.inl ⟨hne, (Option.some.inj hv).symm⟩
  · rw [Function.update_of_ne hne] at hv
    exact Or.inr ⟨hne, hv⟩

/-- The step lemma for a thread that becomes `u'`, with new handles if it owns the handle. -/
theorem Inv.setThread (h : Inv recording s) {t : ℕ} {u u' : PlaybackThread ε φ}
    {p : PlaybackPhase} (p' : PlaybackPhase) {handle : ℕ → PlaybackHandle ε} {nextHandle : ℕ}
    {gsPBHandle : Option ℕ} (ht : s.thread t = some u) (hp : u.phase = p) (hp' : u'.phase = p')
    (hlive : p ≠ .gone) (hconn : u'.conn = u.conn) (hwanted : u'.wanted = u.wanted)
    (hreads : p'.Reads → p.Reads ∧ u'.sent = u.sent)
    (hsent : u'.sent <+: recording u'.wanted u'.wanted) (howns : p'.Owns → s.Alone t)
    (huses : p'.Uses →
      ∃ hd, gsPBHandle = some hd ∧ Holds recording { s with handle := handle } hd u')
    (hheld : ∀ hd, gsPBHandle = some hd → (p'.Uses ∨ p' = .clear)
      ∨ s.gsPBHandle = some hd ∧ ¬ (p.Uses ∨ p = .clear))
    (hothers : s.Alone t ∨ handle = s.handle ∧ gsPBHandle = s.gsPBHandle) :
    Inv recording
      { s with
        thread := Function.update s.thread t (some u')
        handle := handle
        nextHandle := nextHandle
        gsPBHandle := gsPBHandle } := by
  subst hp hp'
  have hself : Function.update s.thread t (some u') t = some u' := Function.update_self ..
  constructor
  case fresh =>
    intro t' ht'
    have hne : t' ≠ t := by
      rintro rfl
      rw [h.fresh t' ht'] at ht
      exact nomatch ht
    show Function.update s.thread t (some u') t' = none
    rw [Function.update_of_ne hne]
    exact h.fresh t' ht'
  case conn =>
    intro t' v hv hgone
    rcases thread_update_cases hv with ⟨rfl, rfl⟩ | ⟨-, hv⟩
    · rw [hconn]
      exact h.conn t' u ht hlive
    · exact h.conn t' v hv hgone
  case owner =>
    intro t₁ t₂ u₁ u₂ h₁ h₂ hown₁ hown₂
    rcases thread_update_cases h₁ with ⟨e₁, rfl⟩ | ⟨hne₁, h₁'⟩
    · rcases thread_update_cases h₂ with ⟨e₂, -⟩ | ⟨hne₂, h₂'⟩
      · exact e₁.trans e₂.symm
      · exact absurd hown₂ (howns hown₁ t₂ u₂ hne₂ h₂')
    · rcases thread_update_cases h₂ with ⟨-, rfl⟩ | ⟨-, h₂'⟩
      · exact absurd hown₁ (howns hown₂ t₁ u₁ hne₁ h₁')
      · exact h.owner t₁ t₂ u₁ u₂ h₁' h₂' hown₁ hown₂
  case held =>
    intro hd hgs
    rcases hheld hd hgs with huse | ⟨hgs, hnot⟩
    · exact ⟨t, u', hself, huse⟩
    · obtain ⟨t', v, hv, huse⟩ := h.held hd hgs
      have hne : t' ≠ t := by
        rintro rfl
        rw [ht] at hv
        obtain rfl := Option.some.inj hv
        exact hnot huse
      exact ⟨t', v, (Function.update_of_ne hne ..).trans hv, huse⟩
  case uses =>
    intro t' v hv huse
    rcases thread_update_cases hv with ⟨-, rfl⟩ | ⟨hne, hv'⟩
    · obtain ⟨hd, hgs, hholds⟩ := huses huse
      exact ⟨hd, hgs, hholds.of_handle rfl⟩
    · rcases hothers with halone | ⟨rfl, rfl⟩
      · exact absurd huse.owns (halone t' v hne hv')
      · obtain ⟨hd, hgs, hholds⟩ := h.uses t' v hv' huse
        exact ⟨hd, hgs, hholds.of_handle rfl⟩
  case reads =>
    intro t' v hv hr
    rcases thread_update_cases hv with ⟨rfl, rfl⟩ | ⟨-, hv⟩
    · rw [hwanted]
      exact h.reads t' u ht (hreads hr).1
    · exact h.reads t' v hv hr
  case unsent =>
    intro t' v hv hr
    rcases thread_update_cases hv with ⟨rfl, rfl⟩ | ⟨-, hv⟩
    · rw [(hreads hr).2]
      exact h.unsent t' u ht (hreads hr).1
    · exact h.unsent t' v hv hr
  case sent =>
    intro t' v hv
    rcases thread_update_cases hv with ⟨rfl, rfl⟩ | ⟨-, hv⟩
    · exact hsent
    · exact h.sent t' v hv

@[simp]
theorem onHandle_some (hd : ℕ) (f : PlaybackHandle ε → PlaybackHandle ε) :
    s.onHandle (some hd) f = { s with handle := Function.update s.handle hd (f (s.handle hd)) } :=
  rfl

/-- While no thread owns the handle it is not there. -/
theorem Inv.gsPBHandle_none (h : Inv recording s) {t : ℕ} {u : PlaybackThread ε φ}
    (ht : s.thread t = some u) (hp : u.phase = .created) (halone : s.Alone t) :
    s.gsPBHandle = none := by
  rw [Option.eq_none_iff_forall_ne_some]
  intro hd hgs
  obtain ⟨t', v, hv, huse⟩ := h.held hd hgs
  have hown := PlaybackPhase.owns_of_uses_or_clear huse
  have hne : t' ≠ t := by
    rintro rfl
    rw [ht] at hv
    obtain rfl := Option.some.inj hv
    rw [hp] at hown
    exact absurd hown (by decide)
  exact halone t' v hne hv hown

/-- The step lemma for a thread that goes on owning the handle. -/
theorem Inv.setOwner (h : Inv recording s) {t : ℕ} {u u' : PlaybackThread ε φ}
    {p : PlaybackPhase} (p' : PlaybackPhase) {handle : ℕ → PlaybackHandle ε} {nextHandle : ℕ}
    {gsPBHandle : Option ℕ} (ht : s.thread t = some u) (hp : u.phase = p) (hp' : u'.phase = p')
    (hown : p.Owns) (hlive : p ≠ .gone) (hconn : u'.conn = u.conn) (hwanted : u'.wanted = u.wanted)
    (hreads : p'.Reads → p.Reads ∧ u'.sent = u.sent)
    (hsent : u'.sent <+: recording u'.wanted u'.wanted)
    (huses : p'.Uses →
      ∃ hd, gsPBHandle = some hd ∧ Holds recording { s with handle := handle } hd u')
    (hheld : p'.Uses ∨ p' = .clear) :
    Inv recording
      { s with
        thread := Function.update s.thread t (some u')
        handle := handle
        nextHandle := nextHandle
        gsPBHandle := gsPBHandle } := by
  subst hp
  have halone := h.alone ht hown
  exact h.setThread p' ht rfl hp' hlive hconn hwanted hreads hsent (fun _ => halone) huses
    (fun _ _ => Or.inl hheld) (Or.inl halone)

/-! ## A step of a thread keeps the invariant -/

section Phases

variable {t : ℕ} {u : PlaybackThread ε φ}

theorem Inv.created (h : Inv recording s) (ht : s.thread t = some u) (hp : u.phase = .created)
    (ok : Bool) (halone : s.Alone t) : Inv recording (s.thHistoryMedia recording t u ok) := by
  have hgs := h.gsPBHandle_none ht hp halone
  have hstep : s.thHistoryMedia recording t u ok = s.setThread t { u with phase := .alloc } := by
    simp [PlaybackSessions.thHistoryMedia, hp, hgs]
  rw [hstep]
  refine h.setThread .alloc ht hp rfl (by decide) rfl rfl (fun _ => ⟨by decide, rfl⟩)
    (h.sent t u ht) (fun _ => halone) (fun hu => absurd hu (by decide)) ?_ (Or.inl halone)
  intro hd hhd
  rw [hgs] at hhd
  exact nomatch hhd

theorem Inv.alloc (h : Inv recording s) (ht : s.thread t = some u) (hp : u.phase = .alloc)
    (ok : Bool) : Inv recording (s.thHistoryMedia recording t u ok) := by
  rw [PlaybackSessions.thHistoryMedia, hp]
  refine h.setOwner .opening ht hp rfl (by decide) (by decide) rfl rfl
    (fun _ => ⟨by decide, rfl⟩) (h.sent t u ht)
    (fun _ => ⟨s.nextHandle, rfl, ?_, nofun, nofun, nofun⟩) (by decide)
  simp

theorem Inv.opening (h : Inv recording s) (ht : s.thread t = some u) (hp : u.phase = .opening)
    (ok : Bool) : Inv recording (s.thHistoryMedia recording t u ok) := by
  obtain ⟨hd, hgs, hholds⟩ := h.uses t u ht (by rw [hp]; decide)
  cases ok with
  | false =>
    have hstep : s.thHistoryMedia recording t u false
        = s.setThread t { u with phase := .destroy } := by
      simp [PlaybackSessions.thHistoryMedia, hp]
    rw [hstep]
    exact h.setOwner .destroy ht hp rfl (by decide) (by decide) rfl rfl
      (fun hr => absurd hr (by decide)) (h.sent t u ht)
      (fun _ => ⟨hd, hgs, hholds.alive, nofun, nofun, nofun⟩) (by decide)
  | true =>
    have hnote := h.reads t u ht (by rw [hp]; decide)
    rw [PlaybackSessions.thHistoryMedia, hp, hgs, hnote]
    refine h.setOwner .position ht hp rfl (by decide) (by decide) rfl rfl
      (fun _ => ⟨by decide, rfl⟩) (h.sent t u ht)
      (fun _ => ⟨hd, hgs, ?_, fun _ => ?_, nofun, nofun⟩) (by decide)
    · simpa using hholds.alive
    · simp

theorem Inv.position (h : Inv recording s) (ht : s.thread t = some u) (hp : u.phase = .position)
    (ok : Bool) : Inv recording (s.thHistoryMedia recording t u ok) := by
  obtain ⟨hd, hgs, hholds⟩ := h.uses t u ht (by rw [hp]; decide)
  have hreads : u.phase.Reads := by rw [hp]; decide
  have hnote := h.reads t u ht hreads
  have hunsent := h.unsent t u ht hreads
  rw [PlaybackSessions.thHistoryMedia, hp, hgs, hnote]
  refine h.setOwner .loop ht hp rfl (by decide) (by decide) rfl rfl
    (fun hr => absurd hr (by decide)) (h.sent t u ht)
    (fun _ => ⟨hd, hgs, ?_, nofun, fun _ => ?_, nofun⟩) (by decide)
  · simpa using hholds.alive
  · simp [hholds.file hp, hunsent]

theorem Inv.loop (h : Inv recording s) (ht : s.thread t = some u) (hp : u.phase = .loop)
    (ok : Bool) : Inv recording (s.thHistoryMedia recording t u ok) := by
  obtain ⟨hd, hgs, hholds⟩ := h.uses t u ht (by rw [hp]; decide)
  have hplays := hholds.plays (by rw [hp]; decide)
  rw [PlaybackSessions.thHistoryMedia, hp]
  dsimp only
  split
  case isTrue hgo =>
    have hmore : u.sent.length < (recording u.wanted u.wanted).length := by
      obtain ⟨hhandle, hfile, htime, hindex⟩ := hplays
      have hsome := hgo.2
      rwa [nextFrame_eq hhandle hfile htime hindex, isSome_getElem?] at hsome
    exact h.setOwner .send ht hp rfl (by decide) (by decide) rfl rfl
      (fun hr => absurd hr (by decide)) (h.sent t u ht)
      (fun _ => ⟨hd, hgs, hholds.alive, nofun, fun _ => hplays, fun _ => hmore⟩) (by decide)
  case isFalse =>
    exact h.setOwner .destroy ht hp rfl (by decide) (by decide) rfl rfl
      (fun hr => absurd hr (by decide)) (h.sent t u ht)
      (fun _ => ⟨hd, hgs, hholds.alive, nofun, fun _ => hplays, nofun⟩) (by decide)

/-- What a thread sends continues the beginning of its recording. -/
theorem sent_concat {u : PlaybackThread ε φ} (hsent : u.sent <+: recording u.wanted u.wanted)
    (hmore : u.sent.length < (recording u.wanted u.wanted).length) :
    u.sent ++ [(recording u.wanted u.wanted)[u.sent.length]] <+: recording u.wanted u.wanted :=
  calc u.sent ++ [(recording u.wanted u.wanted)[u.sent.length]]
      = (recording u.wanted u.wanted).take u.sent.length
          ++ [(recording u.wanted u.wanted)[u.sent.length]] := by
        rw [← List.prefix_iff_eq_take.mp hsent]
    _ = (recording u.wanted u.wanted).take (u.sent.length + 1) := List.take_append_getElem hmore
    _ <+: recording u.wanted u.wanted := List.take_prefix ..

theorem Inv.send (h : Inv recording s) (ht : s.thread t = some u) (hp : u.phase = .send)
    (ok : Bool) : Inv recording (s.thHistoryMedia recording t u ok) := by
  obtain ⟨hd, hgs, hholds⟩ := h.uses t u ht (by rw [hp]; decide)
  obtain ⟨hhandle, hfile, htime, hindex⟩ := hholds.plays (by rw [hp]; decide)
  have hmore := hholds.send hp
  have hnext : s.nextFrame recording u = some (recording u.wanted u.wanted)[u.sent.length] := by
    rw [nextFrame_eq hhandle hfile htime hindex, List.getElem?_eq_getElem hmore]
  rw [PlaybackSessions.thHistoryMedia, hp, hnext, hhandle]
  refine h.setOwner .loop ht hp rfl (by decide) (by decide) rfl rfl
    (fun hr => absurd hr (by decide)) (sent_concat (h.sent t u ht) hmore)
    (fun _ => ⟨hd, hgs, ?_, nofun, fun _ => ⟨rfl, ?_, ?_, ?_⟩, nofun⟩) (by decide)
  · simpa using hholds.alive
  · simpa using hfile
  · simpa using htime
  · simpa using hindex

theorem Inv.destroy (h : Inv recording s) (ht : s.thread t = some u) (hp : u.phase = .destroy)
    (ok : Bool) : Inv recording (s.thHistoryMedia recording t u ok) := by
  obtain ⟨hd, hgs, -⟩ := h.uses t u ht (by rw [hp]; decide)
  rw [PlaybackSessions.thHistoryMedia, hp, hgs]
  exact h.setOwner .clear ht hp rfl (by decide) (by decide) rfl rfl
    (fun hr => absurd hr (by decide)) (h.sent t u ht) (fun hu => absurd hu (by decide)) (by decide)

theorem Inv.clear (h : Inv recording s) (ht : s.thread t = some u) (hp : u.phase = .clear)
    (ok : Bool) : Inv recording (s.thHistoryMedia recording t u ok) := by
  have halone := h.alone ht (by rw [hp]; decide)
  rw [PlaybackSessions.thHistoryMedia, hp]
  exact h.setThread .exiting ht hp rfl (by decide) rfl rfl (fun hr => absurd hr (by decide))
    (h.sent t u ht) (fun _ => halone) (fun hu => absurd hu (by decide)) nofun (Or.inl halone)

theorem Inv.exiting (h : Inv recording s) (ht : s.thread t = some u) (hp : u.phase = .exiting)
    (ok : Bool) : Inv recording (s.thHistoryMedia recording t u ok) := by
  rw [PlaybackSessions.thHistoryMedia, hp]
  exact h.setThread .gone ht hp rfl (by decide) rfl rfl (fun hr => absurd hr (by decide))
    (h.sent t u ht) (fun hown => absurd hown (by decide)) (fun hu => absurd hu (by decide))
    (fun hd hhd => Or.inr ⟨hhd, by decide⟩) (Or.inr ⟨rfl, rfl⟩)

/-- A step of a thread keeps the invariant, if no other one owns the handle that it tests. -/
theorem Inv.thHistoryMedia (h : Inv recording s) (ok : Bool) (ht : s.thread t = some u)
    (hcreated : u.phase = .created → s.Alone t) :
    Inv recording (s.thHistoryMedia recording t u ok) := by
  cases hp : u.phase with
  | created => exact h.created ht hp ok (hcreated hp)
  | alloc => exact h.alloc ht hp ok
  | opening => exact h.opening ht hp ok
  | position => exact h.position ht hp ok
  | loop => exact h.loop ht hp ok
  | send => exact h.send ht hp ok
  | destroy => exact h.destroy ht hp ok
  | clear => exact h.clear ht hp ok
  | exiting => exact h.exiting ht hp ok
  | gone =>
    rw [PlaybackSessions.thHistoryMedia, hp]
    exact h

end Phases

/-! ## Events -/

/-- A connection whose run flag is not set, and whose handler does not wait, has no thread. -/
theorem Inv.not_runs (h : Inv recording s) {c : ℕ} (hidle : ¬ s.Busy c)
    (hrun : (s.conn c).runHistoryMedia = false) : ¬ s.Runs c := by
  rintro ⟨t, u, ht, hu, rfl⟩
  rcases (h.conn t u ht hu).flag with hr | hj
  · rw [hrun] at hr
    exact nomatch hr
  · exact hidle (Or.inl hj)

/-- The note may become what every thread that still has to read it was started for. -/
theorem Inv.note (h : Inv recording s) {event : ε}
    (hnote : ∀ t u, s.thread t = some u → u.phase.Reads → u.wanted = event) :
    Inv recording { s with danaAvEvent := some event } where
  fresh := h.fresh
  conn := h.conn
  owner := h.owner
  held := h.held
  uses t u ht huse := by
    obtain ⟨hd, hgs, hholds⟩ := h.uses t u ht huse
    exact ⟨hd, hgs, hholds.of_handle rfl⟩
  reads t u ht hr := by
    rw [hnote t u ht hr]
  unsent := h.unsent
  sent := h.sent

/-- `MYDATA` may become what suits the live thread of its connection. -/
theorem Inv.setConn (h : Inv recording s) {c : ℕ} {d : PlaybackConn}
    (hd : ∀ t u, s.thread t = some u → u.phase ≠ .gone → u.conn = c → Knows d t) :
    Inv recording (s.setConn c d) where
  fresh := h.fresh
  conn t u ht hu := by
    show Knows (Function.update s.conn c d u.conn) t
    by_cases hc : u.conn = c
    · rw [hc, Function.update_self]
      exact hd t u ht hu hc
    · rw [Function.update_of_ne hc]
      exact h.conn t u ht hu
  owner := h.owner
  held := h.held
  uses t u ht huse := by
    obtain ⟨hd, hgs, hholds⟩ := h.uses t u ht huse
    exact ⟨hd, hgs, hholds.of_handle rfl⟩
  reads := h.reads
  unsent := h.unsent
  sent := h.sent

/-- Of a connection without a thread `MYDATA` may change in any way. -/
theorem Inv.setConn_of_not_runs (h : Inv recording s) {c : ℕ} (hruns : ¬ s.Runs c)
    (d : PlaybackConn) : Inv recording (s.setConn c d) :=
  h.setConn fun t u ht hu hc => absurd ⟨t, u, ht, hu, hc⟩ hruns

theorem Inv.ne_nextThread (h : Inv recording s) {t : ℕ} {u : PlaybackThread ε φ}
    (ht : s.thread t = some u) : t ≠ s.nextThread := by
  rintro rfl
  rw [h.fresh _ (Nat.le_refl _)] at ht
  exact nomatch ht

/-- A thread that is created reads the note, and owns nothing yet. -/
theorem Inv.newThread (h : Inv recording s) {event : ε} (c : ℕ)
    (hnote : s.danaAvEvent = some event) (hc : Knows (s.conn c) s.nextThread) :
    Inv recording
      { s with
        thread := Function.update s.thread s.nextThread (some ⟨c, event, .created, none, []⟩)
        nextThread := s.nextThread + 1 } := by
  have hold : ∀ t u, Function.update s.thread s.nextThread
      (some (⟨c, event, .created, none, []⟩ : PlaybackThread ε φ)) t = some u →
      u.phase.Owns → s.thread t = some u := by
    intro t u hu hown
    rcases thread_update_cases hu with ⟨-, rfl⟩ | ⟨-, hu'⟩
    · exact absurd hown (show ¬ PlaybackPhase.created.Owns by decide)
    · exact hu'
  constructor
  case fresh =>
    intro t ht
    show Function.update s.thread s.nextThread _ t = none
    rw [Function.update_of_ne (by intro he; rw [he] at ht; exact Nat.not_succ_le_self _ ht)]
    exact h.fresh t (Nat.le_of_succ_le ht)
  case conn =>
    intro t u hu hgone
    rcases thread_update_cases hu with ⟨rfl, rfl⟩ | ⟨-, hu'⟩
    · exact hc
    · exact h.conn t u hu' hgone
  case owner =>
    intro t t' u u' hu hu' hown hown'
    exact h.owner t t' u u' (hold t u hu hown) (hold t' u' hu' hown') hown hown'
  case held =>
    intro hd hgs
    obtain ⟨t, u, ht, huse⟩ := h.held hd hgs
    exact ⟨t, u, (Function.update_of_ne (h.ne_nextThread ht) ..).trans ht, huse⟩
  case uses =>
    intro t u hu huse
    obtain ⟨hd, hgs, hholds⟩ := h.uses t u (hold t u hu huse.owns) huse
    exact ⟨hd, hgs, hholds.of_handle rfl⟩
  case reads =>
    intro t u hu hr
    rcases thread_update_cases hu with ⟨-, rfl⟩ | ⟨-, hu'⟩
    · exact hnote
    · exact h.reads t u hu' hr
  case unsent =>
    intro t u hu hr
    rcases thread_update_cases hu with ⟨-, rfl⟩ | ⟨-, hu'⟩
    · rfl
    · exact h.unsent t u hu' hr
  case sent =>
    intro t u hu
    rcases thread_update_cases hu with ⟨-, rfl⟩ | ⟨-, hu'⟩
    · exact List.nil_prefix
    · exact h.sent t u hu'

/-! ## What each step keeps -/

theorem Inv.recPlay (h : Inv recording s) {c : ℕ} {event : ε} (ok : Bool) (hidle : ¬ s.Busy c)
    (hnote : ∀ t u, s.thread t = some u → u.phase.Reads → u.wanted = event) :
    Inv recording (s.recPlay c event ok) := by
  have hnoted := h.note hnote
  by_cases hrun : (s.conn c).runHistoryMedia = true
  · have hstep : s.recPlay c event ok = { s with danaAvEvent := some event } := by
      simp [PlaybackSessions.recPlay, hrun]
    rw [hstep]
    exact hnoted
  · rw [Bool.not_eq_true] at hrun
    have hruns : ¬ Runs { s with danaAvEvent := some event } c := h.not_runs hidle hrun
    cases ok with
    | false =>
      have hstep : s.recPlay c event false
          = PlaybackSessions.setConn { s with danaAvEvent := some event } c
              { s.conn c with runHistoryMedia := false, threadHistoryMedia := none } := by
        simp [PlaybackSessions.recPlay, hrun]
      rw [hstep]
      exact hnoted.setConn_of_not_runs hruns _
    | true =>
      have hstep : s.recPlay c event true
          = { PlaybackSessions.setConn { s with danaAvEvent := some event } c
                { s.conn c with
                  runHistoryMedia := true
                  threadHistoryMedia := some s.nextThread
                  ended := false } with
              thread := Function.update s.thread s.nextThread
                (some ⟨c, event, .created, none, []⟩)
              nextThread := s.nextThread + 1 } := by
        simp [PlaybackSessions.recPlay, hrun, PlaybackSessions.setConn]
      rw [hstep]
      have hfreed : (s.conn c).freed = false := by
        rw [← Bool.not_eq_true]
        exact fun hf => hidle (Or.inr hf)
      have hset := hnoted.setConn_of_not_runs hruns
        { s.conn c with
          runHistoryMedia := true
          threadHistoryMedia := some s.nextThread
          ended := false }
      refine hset.newThread c rfl ?_
      show Knows (Function.update s.conn c _ c) s.nextThread
      rw [Function.update_self]
      exact ⟨rfl, Or.inl rfl, hfreed, rfl⟩

theorem Inv.recStop (h : Inv recording s) (c : ℕ) : Inv recording (s.recStop c) := by
  unfold PlaybackSessions.recStop
  split
  case isTrue =>
    refine h.setConn fun t u ht hu hc => ?_
    have hknows := h.conn t u ht hu
    rw [hc] at hknows
    exact ⟨hknows.thread, Or.inr rfl, hknows.freed, hknows.ended⟩
  case isFalse hnone =>
    refine h.setConn_of_not_runs ?_ _
    rintro ⟨t, u, ht, hu, rfl⟩
    rw [(h.conn t u ht hu).thread] at hnone
    exact hnone rfl

/-- A thread that has been joined does not run, and no other one does. -/
theorem Inv.not_runs_of_joined (h : Inv recording s) {c : ℕ} (hjoined : s.joined c = true) :
    ¬ s.Runs c := by
  rintro ⟨t, u, ht, hu, rfl⟩
  rw [joined, (h.conn t u ht hu).thread] at hjoined
  simp only [ht, decide_eq_true_eq] at hjoined
  exact hu hjoined

theorem Inv.recStopReturns (h : Inv recording s) (c : ℕ) : Inv recording (s.recStopReturns c) := by
  unfold PlaybackSessions.recStopReturns
  split
  case isTrue hjoin => exact h.setConn_of_not_runs (h.not_runs_of_joined hjoin.2) _
  case isFalse => exact h

/-- A step that meets the condition keeps the invariant. -/
theorem Inv.step (h : Inv recording s) {a : Step ε} (hok : s.Meets a) :
    Inv recording (s.step recording a) := by
  cases a with
  | recPlay c found ok =>
    cases found with
    | none => exact h
    | some event =>
      rw [PlaybackSessions.step]
      split
      case isTrue => exact h
      case isFalse hidle => exact h.recPlay ok hidle (hok hidle).1
  | recStop c =>
    rw [PlaybackSessions.step]
    split
    case isTrue => exact h
    case isFalse => exact h.recStop c
  | recStopReturns c => exact h.recStopReturns c
  | aborted c =>
    rw [PlaybackSessions.step]
    split
    case isTrue => exact h
    case isFalse hidle => exact h.setConn_of_not_runs (hok hidle) _
  | thread t ok =>
    rw [PlaybackSessions.step]
    split
    case h_1 => exact h
    case h_2 u ht => exact h.thHistoryMedia ok ht fun hp t' v _ hv => hok u ht hp t' v hv

/-- A `RECPLAY` that meets the condition starts its thread. -/
theorem Inv.starts (h : Inv recording s) {a : Step ε} (hok : s.Meets a) :
    s.Starts recording a := by
  match a, hok with
  | .recPlay c (some event) true, hok =>
    intro hidle hruns
    have hrun : ¬ (s.conn c).runHistoryMedia = true :=
      fun hrun => hruns ((hok hidle).2 rfl hrun)
    refine ⟨s.nextThread, ⟨c, event, .created, none, []⟩, h.fresh _ (Nat.le_refl _), nofun, rfl,
      rfl, ?_⟩
    simp [PlaybackSessions.step, PlaybackSessions.recPlay, hidle, hrun, PlaybackSessions.setConn]
  | .recPlay _ none _, _ => trivial
  | .recPlay _ (some _) false, _ => trivial
  | .recStop _, _ => trivial
  | .recStopReturns _, _ => trivial
  | .aborted _, _ => trivial
  | .thread _ _, _ => trivial

end Invariant

/-! ## Where a step leads that does not meet the condition -/

section Breaks

/-- A step of a thread leaves the other threads alone. -/
theorem thHistoryMedia_thread_of_ne (recording : ε → ε → List φ) (s : PlaybackSessions ε φ)
    {t t' : ℕ} (hne : t' ≠ t) (u : PlaybackThread ε φ) (ok : Bool) :
    (s.thHistoryMedia recording t u ok).thread t' = s.thread t' := by
  have hset : ∀ (s' : PlaybackSessions ε φ) (v : PlaybackThread ε φ),
      (s'.setThread t v).thread t' = s'.thread t' := by
    intro s' v
    simp [setThread, hne]
  have hon : ∀ (pointer : Option ℕ) (f : PlaybackHandle ε → PlaybackHandle ε),
      (s.onHandle pointer f).thread = s.thread := by
    intro pointer f
    cases pointer <;> rfl
  unfold thHistoryMedia
  split
  case h_3 => split <;> simp only [hset, hon]
  case h_5 => split <;> simp only [hset]
  all_goals simp only [hset, hon]

variable {recording : ε → ε → List φ} {s : PlaybackSessions ε φ} {t t' hd : ℕ}
  {u u' : PlaybackThread ε φ}

/-- The run can go on to where the sessions are not kept apart. -/
def Breaks (recording : ε → ε → List φ) (s : PlaybackSessions ε φ) : Prop :=
  ∃ more : List (Step ε), ¬ KeptApart recording (more.foldl (step recording) s)

theorem Breaks.now (h : ¬ KeptApart recording s) : Breaks recording s := ⟨[], h⟩

theorem Breaks.of_step (a : Step ε) (h : Breaks recording (s.step recording a)) :
    Breaks recording s := by
  obtain ⟨more, hmore⟩ := h
  exact ⟨a :: more, hmore⟩

theorem step_thread (ht : s.thread t = some u) (ok : Bool) :
    s.step recording (.thread t ok) = s.thHistoryMedia recording t u ok := by
  simp [step, ht]

@[simp]
theorem setThread_thread_self : (s.setThread t u).thread t = some u :=
  Function.update_self ..

theorem step_thread_of_ne (recording : ε → ε → List φ) (s : PlaybackSessions ε φ) (hne : t' ≠ t)
    (ok : Bool) :
    (s.step recording (.thread t ok)).thread t' = s.thread t' := by
  rw [step]
  split
  · rfl
  · exact thHistoryMedia_thread_of_ne recording s hne _ ok

/-- A thread whose next step uses the handle, while that is destroyed. -/
theorem not_keptApart_of_destroyed (hd : ℕ) (ht : s.thread t = some u) (huse : u.phase.Uses)
    (hhandle : (if u.phase.Plays then u.handle else s.gsPBHandle) = some hd)
    (hdead : (s.handle hd).destroyed = true) : ¬ KeptApart recording s := by
  intro hkept
  obtain ⟨hd', heq, halive⟩ := hkept.alive t u ht huse
  rw [hhandle] at heq
  obtain rfl := Option.some.inj heq
  rw [hdead] at halive
  exact nomatch halive

/-- A thread is about to use the handle, and another one destroys it. -/
theorem breaks_of_destroy (hne : t' ≠ t) (ht : s.thread t = some u) (hp : u.phase = .destroy)
    (hgs : s.gsPBHandle = some hd) (ht' : s.thread t' = some u') (huse : u'.phase.Uses)
    (hplays : u'.phase.Plays → u'.handle = some hd) : Breaks recording s := by
  refine Breaks.of_step (.thread t true) (Breaks.now ?_)
  have hthread := (step_thread_of_ne recording s hne true).trans ht'
  rw [step_thread ht, thHistoryMedia, hp, hgs] at hthread ⊢
  refine not_keptApart_of_destroyed hd hthread huse ?_ (by simp [setThread])
  split
  · exact hplays ‹_›
  · exact hgs

/-- Two threads play from one handle: what the first one sends moves the second one on. -/
theorem breaks_of_loop (hne : t' ≠ t) (ht : s.thread t = some u) (hp : u.phase = .loop)
    (hhandle : u.handle = some hd) (hgs : s.gsPBHandle = some hd) (ht' : s.thread t' = some u')
    (hplays : u'.phase.Plays) (hhandle' : u'.handle = some hd) : Breaks recording s := by
  by_contra hnot
  have hkept : KeptApart recording s := by
    by_contra h
    exact hnot (Breaks.now h)
  obtain ⟨hd', heq, -, -, hindex⟩ := hkept.own t' u' ht' hplays
  rw [hhandle'] at heq
  obtain rfl := Option.some.inj heq
  refine hnot (Breaks.of_step (.thread t true) ?_)
  have hthread := (step_thread_of_ne recording s hne true).trans ht'
  rw [step_thread ht, thHistoryMedia, hp] at hthread ⊢
  dsimp only at hthread ⊢
  split at hthread
  case isTrue hgo =>
    rw [if_pos hgo]
    refine Breaks.of_step (.thread t true) (Breaks.now fun hlater => ?_)
    have hlater' := hlater.own t' u' ((step_thread_of_ne recording _ hne true).trans hthread) hplays
    obtain ⟨hd', heq, -, -, hmoved⟩ := hlater'
    rw [hhandle'] at heq
    obtain rfl := Option.some.inj heq
    rw [step_thread setThread_thread_self, thHistoryMedia] at hmoved
    simp only [hhandle, onHandle_some, setThread, Function.update_self, hindex] at hmoved
    exact Nat.succ_ne_self _ hmoved
  case isFalse hgo =>
    rw [if_neg hgo]
    exact breaks_of_destroy hne setThread_thread_self rfl hgs hthread
      hplays.uses fun _ => hhandle'

/-- A thread positions the handle that another one plays from. -/
theorem breaks_of_position (hne : t' ≠ t) (ht : s.thread t = some u) (hp : u.phase = .position)
    (hgs : s.gsPBHandle = some hd) (ht' : s.thread t' = some u') (hplays : u'.phase.Plays)
    (hhandle' : u'.handle = some hd) : Breaks recording s := by
  refine Breaks.of_step (.thread t true) ?_
  have hthread := (step_thread_of_ne recording s hne true).trans ht'
  rw [step_thread ht, thHistoryMedia, hp, hgs] at hthread ⊢
  exact breaks_of_loop hne setThread_thread_self rfl rfl hgs hthread hplays hhandle'

/-- A thread cannot open its file, and destroys the handle that another one is about to use. -/
theorem breaks_of_opening (hne : t' ≠ t) (ht : s.thread t = some u) (hp : u.phase = .opening)
    (hgs : s.gsPBHandle = some hd) (ht' : s.thread t' = some u') (huse : u'.phase.Uses)
    (hplays : u'.phase.Plays → u'.handle = some hd) : Breaks recording s := by
  refine Breaks.of_step (.thread t false) ?_
  have hthread := (step_thread_of_ne recording s hne false).trans ht'
  rw [step_thread ht, thHistoryMedia, hp] at hthread ⊢
  exact breaks_of_destroy hne setThread_thread_self rfl hgs hthread huse hplays

/-- A thread found the handle there, which another one uses. -/
theorem breaks_of_shared (hne : t' ≠ t) (ht : s.thread t = some u) (hp : u.phase = .position)
    (hgs : s.gsPBHandle = some hd) (ht' : s.thread t' = some u') (huse : u'.phase.Uses)
    (hplays : u'.phase.Plays → u'.handle = some hd) : Breaks recording s := by
  have huse_t : u.phase.Uses := by rw [hp]; decide
  have hplays_t : u.phase.Plays → u.handle = some hd := by rw [hp]; exact nofun
  rcases huse with hopen | hpos | hplay | hdestroy
  · exact breaks_of_opening hne.symm ht' hopen hgs ht huse_t hplays_t
  · refine Breaks.of_step (.thread t' true) ?_
    have hthread := (step_thread_of_ne recording s hne.symm true).trans ht
    rw [step_thread ht', thHistoryMedia, hpos, hgs] at hthread ⊢
    exact breaks_of_position hne hthread hp hgs setThread_thread_self (Or.inl rfl) rfl
  · exact breaks_of_position hne ht hp hgs ht' hplay (hplays hplay)
  · exact breaks_of_destroy hne.symm ht' hdestroy hgs ht huse_t hplays_t

/-- A thread is about to replace the handle that another one was about to open. -/
theorem breaks_of_alloc_opening (hne : t' ≠ t) (ht : s.thread t = some u) (hp : u.phase = .alloc)
    (ht' : s.thread t' = some u') (hp' : u'.phase = .opening) : Breaks recording s := by
  refine Breaks.of_step (.thread t true) ?_
  have hthread := (step_thread_of_ne recording s hne true).trans ht'
  rw [step_thread ht, thHistoryMedia, hp] at hthread ⊢
  exact breaks_of_opening hne setThread_thread_self rfl rfl hthread (Or.inl hp')
    (by rw [hp']; exact nofun)

/-- Two threads found no handle, and each is about to make one. -/
theorem breaks_of_alloc (hne : t' ≠ t) (ht : s.thread t = some u) (hp : u.phase = .alloc)
    (ht' : s.thread t' = some u') (hp' : u'.phase = .alloc) : Breaks recording s := by
  refine Breaks.of_step (.thread t true) ?_
  have hthread := (step_thread_of_ne recording s hne true).trans ht'
  rw [step_thread ht, thHistoryMedia, hp] at hthread ⊢
  exact breaks_of_alloc_opening hne.symm hthread hp' setThread_thread_self rfl

/-- A thread that was to open or position the handle finds `NULL`. -/
theorem breaks_of_clear (hne : t' ≠ t) (ht : s.thread t = some u) (hp : u.phase = .clear)
    (ht' : s.thread t' = some u') (huse : u'.phase.Uses) (hplays : ¬ u'.phase.Plays) :
    Breaks recording s := by
  refine Breaks.of_step (.thread t true) (Breaks.now fun hkept => ?_)
  have hthread := (step_thread_of_ne recording s hne true).trans ht'
  rw [step_thread ht, thHistoryMedia, hp] at hthread hkept
  obtain ⟨hd, heq, -⟩ := hkept.alive t' u' hthread huse
  rw [if_neg hplays] at heq
  exact nomatch heq

/-- A thread tests `gs_pPBHandle` while another one owns the handle. -/
theorem Inv.created_breaks (h : Inv recording s) (ht : s.thread t = some u)
    (hp : u.phase = .created) (ok : Bool) (ht' : s.thread t' = some u') (hown : u'.phase.Owns) :
    Breaks recording (s.step recording (.thread t ok)) := by
  have hne : t' ≠ t := by
    rintro rfl
    rw [ht] at ht'
    obtain rfl := Option.some.inj ht'
    rw [hp] at hown
    exact absurd hown (by decide)
  have hthread := (step_thread_of_ne recording s hne ok).trans ht'
  rw [step_thread ht, PlaybackSessions.thHistoryMedia, hp] at hthread ⊢
  dsimp only at hthread ⊢
  cases hgs : s.gsPBHandle with
  | none =>
    rw [hgs] at hthread
    rcases hown with halloc | huse | hclear
    · exact breaks_of_alloc hne setThread_thread_self rfl hthread halloc
    · obtain ⟨hd, hsome, -⟩ := h.uses t' u' ht' huse
      rw [hgs] at hsome
      exact nomatch hsome
    · -- this thread makes a handle, and the other one forgets it
      refine Breaks.of_step (.thread t true) ?_
      have hlater := (step_thread_of_ne recording _ hne true).trans hthread
      rw [step_thread setThread_thread_self, PlaybackSessions.thHistoryMedia] at hlater ⊢
      exact breaks_of_clear hne.symm hlater hclear setThread_thread_self (Or.inl rfl) nofun
  | some hd =>
    rw [hgs] at hthread
    rcases hown with halloc | huse | hclear
    · obtain ⟨t₂, v, hv, huse⟩ := h.held hd hgs
      obtain rfl := h.owner t' t₂ u' v ht' hv (Or.inl halloc)
        (PlaybackPhase.owns_of_uses_or_clear huse)
      rw [ht'] at hv
      obtain rfl := Option.some.inj hv
      rw [halloc] at huse
      exact absurd huse (by decide)
    · obtain ⟨hd', hsome, hholds⟩ := h.uses t' u' ht' huse
      rw [hgs] at hsome
      obtain rfl := Option.some.inj hsome
      exact breaks_of_shared hne setThread_thread_self rfl hgs hthread huse
        fun hplays => (hholds.plays hplays).1
    · exact breaks_of_clear hne.symm hthread hclear setThread_thread_self (Or.inr (Or.inl rfl))
        nofun

/-- A thread positions the handle for another recording than it was started for. -/
theorem breaks_of_note_position {event : ε} (ht : s.thread t = some u) (hp : u.phase = .position)
    (hgs : s.gsPBHandle = some hd) (hnote : s.danaAvEvent = some event) (hne : u.wanted ≠ event) :
    Breaks recording s := by
  refine Breaks.of_step (.thread t true) (Breaks.now fun hkept => ?_)
  rw [step_thread ht, thHistoryMedia, hp, hgs, hnote] at hkept
  obtain ⟨hd', heq, -, htime, -⟩ := hkept.own t _ setThread_thread_self (Or.inl rfl)
  obtain rfl := Option.some.inj heq
  simp only [onHandle_some, setThread, Function.update_self] at htime
  exact hne (Option.some.inj htime).symm

/-- A thread opens another recording than it was started for. -/
theorem breaks_of_note_opening {event : ε} (ht : s.thread t = some u) (hp : u.phase = .opening)
    (hgs : s.gsPBHandle = some hd) (hnote : s.danaAvEvent = some event) (hne : u.wanted ≠ event) :
    Breaks recording s := by
  refine Breaks.of_step (.thread t true) ?_
  rw [step_thread ht, thHistoryMedia, hp, hgs]
  exact breaks_of_note_position setThread_thread_self rfl hgs hnote hne

theorem breaks_of_note_alloc {event : ε} (ht : s.thread t = some u) (hp : u.phase = .alloc)
    (hnote : s.danaAvEvent = some event) (hne : u.wanted ≠ event) : Breaks recording s := by
  refine Breaks.of_step (.thread t true) ?_
  rw [step_thread ht, thHistoryMedia, hp]
  exact breaks_of_note_opening setThread_thread_self rfl rfl hnote hne

/-- A thread that still has to read the note finds another recording there than it was started
for. -/
theorem breaks_of_note {event : ε} (ht : s.thread t = some u) (hr : u.phase.Reads)
    (hgs : u.phase.Uses → ∃ hd, s.gsPBHandle = some hd) (hnote : s.danaAvEvent = some event)
    (hne : u.wanted ≠ event) : Breaks recording s := by
  rcases hr with hp | hp | hp | hp
  · refine Breaks.of_step (.thread t true) ?_
    rw [step_thread ht, thHistoryMedia, hp]
    cases hgs' : s.gsPBHandle with
    | none => exact breaks_of_note_alloc setThread_thread_self rfl hnote hne
    | some hd => exact breaks_of_note_position setThread_thread_self rfl hgs' hnote hne
  · exact breaks_of_note_alloc ht hp hnote hne
  · obtain ⟨hd, hsome⟩ := hgs (Or.inl hp)
    exact breaks_of_note_opening ht hp hsome hnote hne
  · obtain ⟨hd, hsome⟩ := hgs (Or.inr (Or.inl hp))
    exact breaks_of_note_position ht hp hsome hnote hne

/-- What a `RECPLAY` leaves behind: the note, the handle, and the threads that were there. -/
theorem Inv.recPlay_frame (h : Inv recording s) (c : ℕ) (event : ε) (ok : Bool)
    (ht : s.thread t = some u) :
    (s.recPlay c event ok).thread t = some u ∧ (s.recPlay c event ok).danaAvEvent = some event
      ∧ (s.recPlay c event ok).gsPBHandle = s.gsPBHandle := by
  have hne := h.ne_nextThread ht
  unfold PlaybackSessions.recPlay
  dsimp only
  split
  · exact ⟨ht, rfl, rfl⟩
  · split
    · exact ⟨(Function.update_of_ne hne ..).trans ht, rfl, rfl⟩
    · exact ⟨ht, rfl, rfl⟩

/-- So after every step that does not meet the condition, unless it was itself a `RECPLAY` that
started nothing, the run can go on to where the sessions are not kept apart. -/
theorem Inv.breaks (h : Inv recording s) {a : Step ε} (hmeets : ¬ s.Meets a) :
    ¬ s.Starts recording a ∨ Breaks recording (s.step recording a) := by
  match a, hmeets with
  | .recPlay c (some event) ok, hmeets =>
    simp only [Meets, not_forall, not_and_or, exists_prop] at hmeets
    obtain ⟨hidle, ⟨t, u, ht, hr, hne⟩ | ⟨rfl, hrun, hruns⟩⟩ := hmeets
    · obtain ⟨hthread, hnote, hgs⟩ := h.recPlay_frame c event ok ht
      rw [PlaybackSessions.step, if_neg hidle]
      refine Or.inr (breaks_of_note hthread hr (fun huse => ?_) hnote hne)
      obtain ⟨hd, hsome, -⟩ := h.uses t u ht huse
      exact ⟨hd, hgs.trans hsome⟩
    · refine Or.inl fun hstarts => ?_
      obtain ⟨t, u, hnone, -, -, -, hsome⟩ := hstarts hidle hruns
      simp only [PlaybackSessions.step, hidle, PlaybackSessions.recPlay, hrun, if_true, if_false,
        hnone] at hsome
      exact nomatch hsome
  | .aborted c, hmeets =>
    simp only [Meets, not_forall, exists_prop, not_not] at hmeets
    obtain ⟨hidle, hruns⟩ := hmeets
    rw [PlaybackSessions.step, if_neg hidle]
    refine Or.inr (Breaks.now fun hkept => hkept.ended c ?_ hruns)
    show (Function.update s.conn c _ c).ended = true
    rw [Function.update_self]
  | .thread t ok, hmeets =>
    simp only [Meets, not_forall, exists_prop, not_not] at hmeets
    obtain ⟨u, ht, hp, t', u', ht', hown⟩ := hmeets
    exact Or.inr (h.created_breaks ht hp ok ht' hown)
  | .recPlay _ none _, hmeets => exact absurd trivial hmeets
  | .recStop _, hmeets => exact absurd trivial hmeets
  | .recStopReturns _, hmeets => exact absurd trivial hmeets

end Breaks

/-! ## Runs of the sessions -/

/-- Every `RECPLAY` of the run starts its thread, and at the end the sessions are kept apart. -/
def ApartAfter (recording : ε → ε → List φ) (steps : List (Step ε)) : Prop :=
  GuardedRun.Guarded (step recording) (Starts recording) start steps
    ∧ KeptApart recording (run recording steps)

/-- In every run whose steps all meet the condition a `RECPLAY` starts its thread, and the sessions
are kept apart in every state; after any other step the run can go on to where this is not so. -/
theorem sessions_kept_apart (recording : ε → ε → List φ) (steps : List (Step ε))
    (hrun : GuardedRun.Guarded (step recording) Meets start steps) :
    ApartAfter recording steps
      ∧ ∀ a, ¬ Meets (run recording steps) a →
        ∃ more, ¬ ApartAfter recording (steps ++ a :: more) := by
  have hkeep : ∀ s a, Inv recording s → Meets s a → Inv recording (step recording s a) :=
    fun _ _ h hok => h.step hok
  have hinv : Inv recording (run recording steps) := hrun.invariant hkeep start_inv
  refine ⟨⟨hrun.imp hkeep (fun _ _ h hok => h.starts hok) start_inv, hinv.keptApart⟩, ?_⟩
  intro a hmeets
  rcases hinv.breaks hmeets with hstarts | ⟨more, hmore⟩
  · refine ⟨[], fun hapart => hstarts ?_⟩
    obtain ⟨-, hlast, -⟩ := (GuardedRun.guarded_append _ _ _ _ _).mp hapart.1
    exact hlast
  · refine ⟨more, fun hapart => hmore ?_⟩
    have hkept := hapart.2
    rwa [run, List.foldl_append, List.foldl_cons] at hkept

/-- A thread that has tested the handle may always go on. -/
theorem meets_thread {s : PlaybackSessions ε φ} {t : ℕ} {u : PlaybackThread ε φ} (ok : Bool)
    (ht : s.thread t = some u) (hp : u.phase ≠ .created) : s.Meets (.thread t ok) := by
  intro u' hu' hp'
  rw [ht] at hu'
  obtain rfl := Option.some.inj hu'
  exact absurd hp' hp

/-- One `RECPLAY`, and the thread that it starts sends a frame. -/
theorem sessions_kept_apart_recPlay :
    ApartAfter (fun _ _ : Unit => [()])
      [.recPlay 0 (some ()) true, .thread 0 true, .thread 0 true, .thread 0 true, .thread 0 true,
        .thread 0 true, .thread 0 true] := by
  refine (sessions_kept_apart (fun _ _ => [()]) _ ?_).1
  refine ⟨fun _ => ⟨fun _ _ ht => (nomatch ht), fun _ hrun => (nomatch hrun)⟩, ?_,
    meets_thread true rfl (by decide), meets_thread true rfl (by decide),
    meets_thread true rfl (by decide), meets_thread true rfl (by decide),
    meets_thread true rfl (by decide), trivial⟩
  -- the thread tests the handle, and no other thread is there
  intro _ _ _ t' u' ht' hown
  match t', ht' with
  | 0, rfl => exact absurd hown (show ¬ PlaybackPhase.created.Owns by decide)

theorem foldl_thread_of_ne (recording : ε → ε → List φ) (s : PlaybackSessions ε φ) {t t' : ℕ}
    (hne : t' ≠ t) (n : ℕ) :
    ((List.replicate n (Step.thread t true)).foldl (step recording) s).thread t' = s.thread t' := by
  induction n generalizing s with
  | zero => rfl
  | succ n ih =>
    rw [List.replicate_succ, List.foldl_cons, ih, step]
    split
    · rfl
    · exact thHistoryMedia_thread_of_ne recording s hne _ true

/-- A recording of one frame is played to its end. -/
def playedToEnd : List (Step ℕ) :=
  .recPlay 0 (some 1) true :: List.replicate 10 (.thread 0 true)

theorem gone_of_playedToEnd (t : ℕ) (u : PlaybackThread ℕ Unit)
    (ht : (run (fun _ _ => [()]) playedToEnd).thread t = some u) : u.phase = .gone := by
  by_cases hne : t = 0
  · subst hne
    obtain rfl : ⟨0, 1, .gone, some 0, [()]⟩ = u := Option.some.inj ht
    rfl
  · rw [run, playedToEnd, List.foldl_cons, foldl_thread_of_ne _ _ hne] at ht
    have hnone : Function.update (fun _ => none) 0
        (some (⟨0, 1, .created, none, []⟩ : PlaybackThread ℕ Unit)) t = some u := ht
    rw [Function.update_of_ne hne] at hnone
    exact nomatch hnone

/-- The run flag is still set after the end of the file, and the next `RECPLAY` starts nothing. -/
theorem not_started_after_end : ¬ ∀ (recording : ℕ → ℕ → List Unit) (steps : List (Step ℕ)),
    ApartAfter recording steps := by
  intro h
  have hstarts := (h (fun _ _ => [()]) (playedToEnd ++ [.recPlay 0 (some 2) true])).1
  rw [GuardedRun.guarded_append] at hstarts
  obtain ⟨t, u, -, hlive, -, -, hu⟩ := hstarts.2.1 (by decide) fun ⟨t, u, ht, hlive, _⟩ =>
    hlive (gone_of_playedToEnd t u ht)
  exact hlive (gone_of_playedToEnd t u hu)

end PlaybackSessions
