/-
# The picture of a session (`tutk_Server.c`)

A session of the app has a slot, `gClientInfo[SID]`.  A start command sets `bEnableVideo` and
creates a thread that sends the picture; a stop command, the end of the session and an error of the
connection clear the flag, and the thread leaves its loop.  The thread refuses to run beside
another one by `threadVideo_active`, which it sets only when its stream is open and clears a second
after it has left the loop, and the session waits for this flag before it stops its server.

`senders_kept_apart` says that nothing goes wrong as long as no start command comes while a thread
is on its way into or out of the loop.  Within the second that a thread takes to end, a start
command is lost: its thread refuses to run, and `restart_is_lost` says that the picture then stays
away until the app stops it once more.
-/
import IpCamera.GuardedRun
import Mathlib.Tactic

/-! ## The threads -/

/-- Where a thread of `thread_VideoFrameData` is. -/
inductive SenderPhase
  /-- not created yet -/
  | idle
  /-- about to test `threadVideo_active` -/
  | created
  /-- the flag was found clear; the stream is being opened -/
  | entered
  /-- the flag is set; about to test `bEnableVideo` -/
  | atTest
  /-- in the body of the loop -/
  | sending
  /-- out of the loop; the stream is closed, and a second goes by -/
  | closing
  | gone
  deriving DecidableEq, Repr

/-- Where the thread of the session, `thread_ForAVServerStart`, is. -/
inductive SessionPhase
  /-- there is no session with this number -/
  | none
  /-- commands are received -/
  | serving
  /-- both flags are cleared; waits for the senders -/
  | waiting
  /-- the server is stopped -/
  | stopped
  deriving DecidableEq, Repr

/-- A slot.  `server` is the server of the session as long as it is open; `resets` counts the
sessions that have been closed, so that their number may be given away again, but have not cleared
`avIndex` yet. -/
structure VideoSlot where
  session : SessionPhase
  server : Option ℕ
  avIndex : Option ℕ
  bEnableVideo : Bool
  threadVideoActive : Bool
  resets : ℕ
  sender : ℕ → SenderPhase
  nextSender : ℕ
  nextServer : ℕ

/-- What may happen next.  A pass of a sender's loop may send or not, and it may find that the
session is closed. -/
inductive VideoAction
  | login
  | startVideo
  | stopVideo
  | logout
  | avServStop
  | sessionClose
  | reset
  | sender (i : ℕ) (lost : Bool)
  deriving DecidableEq, Repr

namespace SenderPhase

/-- In the loop. -/
def InLoop (p : SenderPhase) : Prop := p = atTest ∨ p = sending

/-- Between the test of `threadVideo_active` and its clearing. -/
def Inside (p : SenderPhase) : Prop := p = entered ∨ p.InLoop ∨ p = closing

/-- `threadVideo_active` is set. -/
def Active (p : SenderPhase) : Prop := p.InLoop ∨ p = closing

def Alive (p : SenderPhase) : Prop := p = created ∨ p.Inside

instance (p : SenderPhase) : Decidable p.InLoop := inferInstanceAs (Decidable (_ ∨ _))

instance (p : SenderPhase) : Decidable p.Inside := inferInstanceAs (Decidable (_ ∨ _))

instance (p : SenderPhase) : Decidable p.Active := inferInstanceAs (Decidable (_ ∨ _))

instance (p : SenderPhase) : Decidable p.Alive := inferInstanceAs (Decidable (_ ∨ _))

end SenderPhase

namespace VideoSlot

/-- `init_AVInfo` -/
def start : VideoSlot where
  session := .none
  server := none
  avIndex := none
  bEnableVideo := false
  threadVideoActive := false
  resets := 0
  sender _ := .idle
  nextSender := 0
  nextServer := 0

def setSender (s : VideoSlot) (i : ℕ) (p : SenderPhase) : VideoSlot :=
  { s with sender := Function.update s.sender i p }

/-- `thread_VideoFrameData`: the next step of a thread. -/
def thread (s : VideoSlot) (i : ℕ) (lost : Bool) : VideoSlot :=
  match s.sender i with
  | .idle => s
  | .created => s.setSender i (if s.threadVideoActive then .gone else .entered)
  | .entered => { s.setSender i .atTest with threadVideoActive := true }
  | .atTest => s.setSender i (if s.bEnableVideo then .sending else .closing)
  | .sending => { s.setSender i .atTest with bEnableVideo := s.bEnableVideo && !lost }
  | .closing => { s.setSender i .gone with threadVideoActive := false }
  | .gone => s

/-- `regedit_client_to_video` -/
def regeditClientToVideo (s : VideoSlot) : VideoSlot :=
  let s := { s with avIndex := s.avIndex.or s.server }
  if s.bEnableVideo then s
  else { s.setSender s.nextSender .created with
    bEnableVideo := true
    nextSender := s.nextSender + 1 }

/-- `unregedit_client_from_video` -/
def unregeditClientFromVideo (s : VideoSlot) : VideoSlot := { s with bEnableVideo := false }

/-- One step; what is not possible in a state does nothing. -/
def step (s : VideoSlot) : VideoAction → VideoSlot
  | .login =>
      if s.session = .none then
        { s with
          session := .serving
          server := some s.nextServer
          avIndex := s.avIndex.or (some s.nextServer)
          nextServer := s.nextServer + 1 }
      else s
  | .startVideo => if s.session = .serving then s.regeditClientToVideo else s
  | .stopVideo => if s.session = .serving then s.unregeditClientFromVideo else s
  | .logout =>
      if s.session = .serving then { s.unregeditClientFromVideo with session := .waiting } else s
  | .avServStop =>
      if s.session = .waiting ∧ s.threadVideoActive = false then
        { s with session := .stopped, server := none }
      else s
  | .sessionClose =>
      if s.session = .stopped then { s with session := .none, resets := s.resets + 1 } else s
  | .reset =>
      if 0 < s.resets then { s with avIndex := none, resets := s.resets - 1 } else s
  | .sender i lost => s.thread i lost

/-! ## What should hold -/

/-- The server that a thread sends to is the open one of the session. -/
def SendsToServer (s : VideoSlot) : Prop := ∃ v, s.server = some v ∧ s.avIndex = some v

/-- At most one thread is in its loop; what is sent goes to the open server of the session, which
then waits for the thread; and as long as the picture is asked for, a thread is on its way to the
loop, or in it. -/
structure KeptApart (s : VideoSlot) : Prop where
  one : ∀ i j, (s.sender i).InLoop → (s.sender j).InLoop → i = j
  sends : ∀ i, s.sender i = .sending → s.SendsToServer ∧ (s.step .avServStop).server = s.server
  serves : s.bEnableVideo = true → ∃ i, (s.sender i).InLoop ∨ s.sender i = .entered
    ∨ s.sender i = .created ∧ s.threadVideoActive = false

/-- A start command that asks for the picture comes when every thread is in its loop or gone, and
when the sessions before this one are through. -/
def Meets (s : VideoSlot) : VideoAction → Prop
  | .startVideo => s.session = .serving → s.bEnableVideo = false →
      s.resets = 0 ∧ ∀ i, (s.sender i).Alive → (s.sender i).InLoop
  | _ => True

/-- The threads: at most one, `holder`, is inside, at most one, `waiter`, is created and has not
looked at the flag yet, and none is while another opens its stream. -/
structure Holds (s : VideoSlot) (holder waiter : Option ℕ) : Prop where
  inside : ∀ i, (s.sender i).Inside ↔ holder = some i
  created : ∀ i, s.sender i = .created ↔ waiter = some i
  entered : ∀ i, s.sender i = .entered → waiter = none
  active : s.threadVideoActive = true ↔ ∃ i, (s.sender i).Active
  fresh : ∀ i, s.nextSender ≤ i → s.sender i = .idle
  serves : s.bEnableVideo = true →
    (∃ i, holder = some i ∧ s.sender i ≠ .closing) ∨ holder = none ∧ waiter ≠ none

/-- The session and its number. -/
structure Serves (s : VideoSlot) : Prop where
  enabled : s.bEnableVideo = true → s.session = .serving ∧ s.resets = 0 ∧ s.SendsToServer
  sending : ∀ i, s.sender i = .sending →
    (s.session = .serving ∨ s.session = .waiting) ∧ s.resets = 0 ∧ s.SendsToServer
  index : s.resets = 0 → s.session ≠ .stopped → s.avIndex = none ∨ s.avIndex = s.server
  server : s.session = .serving → ∃ v, s.server = some v
  noServer : s.session = .none ∨ s.session = .stopped → s.server = none

/-- The invariant. -/
def Inv (s : VideoSlot) : Prop := s.Serves ∧ ∃ holder waiter, s.Holds holder waiter

section Steps

variable {s : VideoSlot} {i j : ℕ} {lost : Bool} {holder waiter : Option ℕ}

@[simp] theorem setSender_self (p : SenderPhase) : (s.setSender i p).sender i = p :=
  Function.update_self _ _ _

theorem setSender_of_ne (p : SenderPhase) (h : j ≠ i) :
    (s.setSender i p).sender j = s.sender j :=
  Function.update_of_ne h _ _

/-- What holds of the thread that moves, and of the others, holds of all. -/
theorem forall_setSender {P : ℕ → SenderPhase → Prop} {p : SenderPhase} (hi : P i p)
    (hj : ∀ j, j ≠ i → P j (s.sender j)) (j : ℕ) : P j ((s.setSender i p).sender j) := by
  by_cases h : j = i
  · subst h
    rwa [setSender_self]
  · rw [setSender_of_ne p h]
    exact hj j h

theorem start_inv : start.Inv := by
  refine ⟨⟨nofun, nofun, fun _ _ => .inl rfl, nofun, fun _ => rfl⟩, none, none, ?_⟩
  constructor <;> simp [start, SenderPhase.Active, SenderPhase.Inside, SenderPhase.InLoop]

theorem Holds.holder_of_active (h : s.Holds holder waiter) (hi : (s.sender i).Active) :
    holder = some i :=
  (h.inside i).mp (.inr hi)

/-- Only the holder is inside. -/
theorem Holds.not_inside (h : s.Holds holder waiter) (hi : holder = some i) (hj : j ≠ i) :
    ¬ (s.sender j).Inside := fun hin => by
  rw [h.inside j, hi] at hin
  exact hj (Option.some.inj hin).symm

/-- The holder takes a step inside. -/
theorem Holds.move (h : s.Holds holder waiter) {p : SenderPhase} (hi : (s.sender i).Inside)
    (hp : p.Active) (b : Bool)
    (hb : b = true → p ≠ .closing) :
    Holds { s.setSender i p with bEnableVideo := b, threadVideoActive := true } holder waiter := by
  have hholder := (h.inside i).mp hi
  have hne : p ≠ .idle ∧ p ≠ .created ∧ p ≠ .entered := by
    refine ⟨?_, ?_, ?_⟩ <;> rintro rfl <;> revert hp <;> decide
  have hold : s.sender i ≠ .idle ∧ s.sender i ≠ .created := by
    refine ⟨?_, ?_⟩ <;> intro heq <;> rw [heq] at hi <;> revert hi <;> decide
  constructor
  · exact forall_setSender (P := fun j q => q.Inside ↔ holder = some j)
      ⟨fun _ => hholder, fun _ => .inr hp⟩ fun j _ => h.inside j
  · refine forall_setSender (P := fun j q => q = .created ↔ waiter = some j)
      ⟨fun heq => absurd heq hne.2.1, fun heq => absurd ((h.created i).mpr heq) hold.2⟩ ?_
    exact fun j _ => h.created j
  · refine forall_setSender (P := fun _ q => q = .entered → waiter = none)
      (fun heq => absurd heq hne.2.2) fun j _ => h.entered j
  · exact ⟨fun _ => ⟨i, by rwa [setSender_self]⟩, fun _ => rfl⟩
  · refine forall_setSender (P := fun j q => s.nextSender ≤ j → q = .idle)
      (fun hle => absurd (h.fresh i hle) hold.1) fun j _ => h.fresh j
  · exact fun henable => .inl ⟨i, hholder, by rw [setSender_self]; exact hb henable⟩

/-- What is about the threads alone does not see the session. -/
theorem Holds.of_eq {t : VideoSlot} (h : s.Holds holder waiter) (hsender : t.sender = s.sender)
    (hactive : t.threadVideoActive = s.threadVideoActive) (hnext : t.nextSender = s.nextSender)
    (henable : t.bEnableVideo = true → s.bEnableVideo = true) : t.Holds holder waiter := by
  constructor
  · rw [hsender]
    exact h.inside
  · rw [hsender]
    exact h.created
  · rw [hsender]
    exact h.entered
  · rw [hsender, hactive]
    exact h.active
  · rw [hsender, hnext]
    exact h.fresh
  · rw [hsender]
    exact fun hb => h.serves (henable hb)

/-- A thread tests the flag: it leaves, or it is the holder. -/
theorem Holds.test (h : s.Holds holder waiter) (hi : s.sender i = .created) :
    ∃ holder, (s.setSender i (if s.threadVideoActive then .gone else .entered)).Holds
      holder none := by
  have hwaiter := (h.created i).mp hi
  have hfresh : ∀ p : SenderPhase, s.nextSender ≤ i → p = .idle := fun _ hle =>
    absurd (h.fresh i hle) (by rw [hi]; decide)
  have hcreated : ∀ j, j ≠ i → s.sender j ≠ .created := fun j hj heq =>
    hj (Option.some.inj (((h.created j).mp heq).symm.trans hwaiter))
  have hout : ¬ (s.sender i).Inside := by rw [hi]; decide
  by_cases hactive : s.threadVideoActive = true
  · -- another thread is in the loop, or has just left it
    rw [if_pos hactive]
    refine ⟨holder, ?_, ?_, fun _ _ => rfl, ?_, ?_, ?_⟩
    · refine forall_setSender (P := fun j q => q.Inside ↔ holder = some j) ?_ fun j _ => h.inside j
      exact iff_of_false (by decide) fun heq => hout ((h.inside i).mpr heq)
    · refine forall_setSender (P := fun j q => q = .created ↔ none = some j) ?_ fun j hj => ?_
      · exact iff_of_false nofun nofun
      · exact iff_of_false (hcreated j hj) nofun
    · obtain ⟨k, hk⟩ := h.active.mp hactive
      have hki : k ≠ i := fun heq => by
        rw [heq, hi] at hk
        exact absurd hk (by decide)
      exact iff_of_true hactive ⟨k, by rwa [setSender_of_ne _ hki]⟩
    · exact forall_setSender (P := fun j q => s.nextSender ≤ j → q = .idle) (hfresh _)
        fun j _ => h.fresh j
    · obtain ⟨k, hk⟩ := h.active.mp hactive
      intro henable
      obtain ⟨j, hj, hne⟩ | ⟨hnone, -⟩ := h.serves henable
      · have hji : j ≠ i := fun heq => hout (heq ▸ (h.inside j).mpr hj)
        exact .inl ⟨j, hj, by rwa [setSender_of_ne _ hji]⟩
      · exact absurd ((h.holder_of_active hk).symm.trans hnone) nofun
  · -- nobody is inside: who has tested the flag before sets it first
    rw [if_neg hactive]
    have hnone : ∀ j, ¬ (s.sender j).Inside := by
      rintro j (hj | hj | hj)
      · exact absurd ((h.entered j hj).symm.trans hwaiter) nofun
      · exact hactive (h.active.mpr ⟨j, .inl hj⟩)
      · exact hactive (h.active.mpr ⟨j, .inr hj⟩)
    refine ⟨some i, ?_, ?_, fun _ _ => rfl, ?_, ?_, ?_⟩
    · refine forall_setSender (P := fun j q => q.Inside ↔ some i = some j) ?_ fun j hj => ?_
      · exact iff_of_true (.inl rfl) rfl
      · exact iff_of_false (hnone j) fun heq => hj (Option.some.inj heq).symm
    · refine forall_setSender (P := fun j q => q = .created ↔ none = some j) ?_ fun j hj => ?_
      · exact iff_of_false nofun nofun
      · exact iff_of_false (hcreated j hj) nofun
    · refine iff_of_false hactive ?_
      rintro ⟨j, hj⟩
      revert hj
      refine forall_setSender (P := fun _ q => ¬ q.Active) (by decide) ?_ j
      exact fun j _ hj => hnone j (.inr hj)
    · exact forall_setSender (P := fun j q => s.nextSender ≤ j → q = .idle) (hfresh _)
        fun j _ => h.fresh j
    · exact fun _ => .inl ⟨i, rfl, by rw [setSender_self]; decide⟩

/-- The holder ends, and the flag is clear. -/
theorem Holds.leave (h : s.Holds holder waiter) (hi : s.sender i = .closing) :
    Holds { s.setSender i .gone with threadVideoActive := false } none waiter := by
  have hholder : holder = some i := (h.inside i).mp (by rw [hi]; decide)
  have hother : ∀ j, j ≠ i → ¬ (s.sender j).Inside := fun j hj => h.not_inside hholder hj
  refine ⟨?_, ?_, ?_, ?_, ?_, ?_⟩
  · refine forall_setSender (P := fun j q => q.Inside ↔ none = some j) ?_ fun j hj => ?_
    · exact iff_of_false (by decide) nofun
    · exact iff_of_false (hother j hj) nofun
  · refine forall_setSender (P := fun j q => q = .created ↔ waiter = some j) ?_ fun j _ =>
      h.created j
    exact iff_of_false nofun fun heq => absurd ((h.created i).mpr heq) (by rw [hi]; decide)
  · exact forall_setSender (P := fun _ q => q = .entered → waiter = none) nofun
      fun j _ => h.entered j
  · refine iff_of_false nofun ?_
    rintro ⟨j, hj⟩
    revert hj
    exact forall_setSender (P := fun _ q => ¬ q.Active) (by decide)
      (fun j hj hact => hother j hj (.inr hact)) j
  · exact forall_setSender (P := fun j q => s.nextSender ≤ j → q = .idle)
      (fun hle => absurd (h.fresh i hle) (by rw [hi]; decide)) fun j _ => h.fresh j
  · intro henable
    obtain ⟨j, hj, hne⟩ | ⟨hnone, -⟩ := h.serves henable
    · rw [hholder] at hj
      exact absurd (Option.some.inj hj ▸ hi) hne
    · exact absurd (hholder.symm.trans hnone) nofun

/-- A start command creates the waiter. -/
theorem Holds.create (h : s.Holds holder waiter)
    (halive : ∀ i, (s.sender i).Alive → (s.sender i).InLoop) (index : Option ℕ) :
    Holds { s.setSender s.nextSender .created with
      avIndex := index, bEnableVideo := true, nextSender := s.nextSender + 1 }
      holder (some s.nextSender) := by
  have hidle := h.fresh _ le_rfl
  refine ⟨?_, ?_, ?_, ?_, ?_, ?_⟩
  · refine forall_setSender (P := fun j q => q.Inside ↔ holder = some j) ?_ fun j _ => h.inside j
    refine iff_of_false (by decide) fun heq => ?_
    exact absurd ((h.inside _).mpr heq) (by rw [hidle]; decide)
  · refine forall_setSender (P := fun j q => q = .created ↔ some s.nextSender = some j) ?_ ?_
    · exact iff_of_true rfl rfl
    · intro j hj
      refine iff_of_false (fun heq => ?_) fun heq => hj (Option.some.inj heq).symm
      have := halive j (.inl heq)
      rw [heq] at this
      exact absurd this (by decide)
  · refine forall_setSender (P := fun _ q => q = .entered → some s.nextSender = none) nofun ?_
    intro j _ heq
    have := halive j (.inr (.inl heq))
    rw [heq] at this
    exact absurd this (by decide)
  · refine h.active.trans ⟨?_, ?_⟩ <;> rintro ⟨j, hj⟩
    · have hne : j ≠ s.nextSender := fun heq => by
        rw [heq, hidle] at hj
        exact absurd hj (by decide)
      exact ⟨j, by rwa [setSender_of_ne _ hne]⟩
    · refine ⟨j, ?_⟩
      revert hj
      exact forall_setSender (P := fun j q => q.Active → (s.sender j).Active)
        (fun hact => absurd hact (by decide)) (fun _ _ => id) j
  · refine forall_setSender (P := fun j q => s.nextSender + 1 ≤ j → q = .idle) ?_ ?_
    · exact fun hle => absurd hle (by omega)
    · exact fun j _ hle => h.fresh j (by omega)
  · intro _
    cases hholder : holder with
    | none => exact .inr ⟨rfl, nofun⟩
    | some k =>
      have hin := (h.inside k).mpr hholder
      have hloop := halive k (.inr hin)
      have hne : k ≠ s.nextSender := fun heq => by
        rw [heq, hidle] at hin
        exact absurd hin (by decide)
      refine .inl ⟨k, rfl, ?_⟩
      rw [setSender_of_ne _ hne]
      intro heq
      rw [heq] at hloop
      exact absurd hloop (by decide)

/-- A step of a thread keeps what holds of the threads. -/
theorem Holds.thread (h : s.Holds holder waiter) (i : ℕ) (lost : Bool) :
    ∃ holder waiter, (s.thread i lost).Holds holder waiter := by
  have hset : (s.sender i).Active → s.threadVideoActive = true := fun hi => h.active.mpr ⟨i, hi⟩
  rw [VideoSlot.thread]
  cases hi : s.sender i with
  | idle => exact ⟨holder, waiter, h⟩
  | created =>
    obtain ⟨holder', h'⟩ := h.test hi
    exact ⟨holder', none, h'⟩
  | entered =>
    exact ⟨holder, waiter, h.move (by rw [hi]; decide) (by decide) s.bEnableVideo fun _ => nofun⟩
  | atTest =>
    refine ⟨holder, waiter, ?_⟩
    have hmove := h.move (p := if s.bEnableVideo then .sending else .closing)
      (by rw [hi]; decide) (by split <;> decide) s.bEnableVideo fun hb => by rw [if_pos hb]; decide
    exact hmove.of_eq rfl (hset (by rw [hi]; decide)) rfl id
  | sending =>
    refine ⟨holder, waiter, ?_⟩
    have hmove := h.move (p := .atTest) (by rw [hi]; decide) (by decide)
      (s.bEnableVideo && !lost) fun _ => nofun
    exact hmove.of_eq rfl (hset (by rw [hi]; decide)) rfl id
  | closing => exact ⟨none, waiter, h.leave hi⟩
  | gone => exact ⟨holder, waiter, h⟩

/-- A step of a thread leaves the session as it is. -/
theorem Serves.thread (h : s.Serves) (i : ℕ) (lost : Bool) : (s.thread i lost).Serves := by
  -- a thread comes to send only where the flag is found set
  have hset : ∀ p, (p = .sending → s.bEnableVideo = true) → (s.setSender i p).Serves := by
    intro p hp
    refine ⟨h.enabled, ?_, h.index, h.server, h.noServer⟩
    exact forall_setSender (P := fun _ q => q = .sending →
      (s.session = .serving ∨ s.session = .waiting) ∧ s.resets = 0 ∧ s.SendsToServer)
      (fun heq => ⟨.inl (h.enabled (hp heq)).1, (h.enabled (hp heq)).2⟩) fun j _ => h.sending j
  rw [VideoSlot.thread]
  cases hi : s.sender i with
  | idle => exact h
  | created => exact hset _ (by split <;> nofun)
  | entered =>
    obtain ⟨henabled, hsending, hindex, hserver, hno⟩ := hset .atTest nofun
    exact ⟨henabled, hsending, hindex, hserver, hno⟩
  | atTest => exact hset _ (by split <;> simp [*])
  | sending =>
    obtain ⟨henabled, hsending, hindex, hserver, hno⟩ := hset .atTest nofun
    exact ⟨fun hb => henabled (Bool.and_elim_left hb), hsending, hindex, hserver, hno⟩
  | closing =>
    obtain ⟨henabled, hsending, hindex, hserver, hno⟩ := hset .gone nofun
    exact ⟨henabled, hsending, hindex, hserver, hno⟩
  | gone => exact h

/-- A start command, under its condition. -/
theorem Inv.regedit (h : s.Inv) (hserving : s.session = .serving)
    (hmeets : s.bEnableVideo = false →
      s.resets = 0 ∧ ∀ i, (s.sender i).Alive → (s.sender i).InLoop) :
    s.regeditClientToVideo.Inv := by
  obtain ⟨hserves, holder, waiter, hholds⟩ := h
  obtain ⟨v, hv⟩ := hserves.server hserving
  cases henable : s.bEnableVideo with
  | true =>
    -- nothing to do: the thread is there, and the index is set
    obtain ⟨-, hresets, w, hw, hindex⟩ := hserves.enabled henable
    have hor : s.avIndex.or s.server = s.avIndex := by rw [hindex, Option.some_or]
    rw [regeditClientToVideo, if_pos henable, hor]
    exact ⟨hserves, holder, waiter, hholds⟩
  | false =>
    obtain ⟨hresets, halive⟩ := hmeets henable
    have hindex : s.avIndex.or s.server = some v := by
      obtain heq | heq := hserves.index hresets (by rw [hserving]; decide)
      · rw [heq, Option.none_or, hv]
      · rw [heq, hv, Option.some_or]
    rw [regeditClientToVideo, if_neg (by simp [henable])]
    refine ⟨⟨?_, ?_, ?_, fun _ => ⟨v, hv⟩, ?_⟩, holder, some s.nextSender,
      hholds.create halive _⟩
    · exact fun _ => ⟨hserving, hresets, v, hv, hindex⟩
    · exact fun _ _ => ⟨.inl hserving, hresets, v, hv, hindex⟩
    · exact fun _ _ => .inr (hindex.trans hv.symm)
    · exact fun hno => absurd (hserves.noServer hno) (by rw [hv]; nofun)

theorem Inv.step (a : VideoAction) (h : s.Inv) (hmeets : s.Meets a) : (s.step a).Inv := by
  have hinv := h
  obtain ⟨hserves, holder, waiter, hholds⟩ := h
  cases a with
  | login =>
    rw [VideoSlot.step]
    split
    · rename_i hnone
      have hoff : s.bEnableVideo ≠ true := fun henable => by
        have := (hserves.enabled henable).1
        rw [hnone] at this
        exact absurd this nofun
      have hquiet : ∀ i, s.sender i ≠ .sending := fun i hi => by
        have := (hserves.sending i hi).1
        rw [hnone] at this
        exact absurd this (by simp)
      refine ⟨⟨fun hb => absurd hb hoff, fun i hi => absurd hi (hquiet i), ?_,
        fun _ => ⟨_, rfl⟩, by simp⟩, holder, waiter, hholds.of_eq rfl rfl rfl id⟩
      intro hresets _
      right
      obtain heq | heq := hserves.index hresets (by rw [hnone]; decide)
      · exact congrArg (fun o : Option ℕ => o.or (some s.nextServer)) heq
      · rw [hserves.noServer (.inl hnone)] at heq
        exact congrArg (fun o : Option ℕ => o.or (some s.nextServer)) heq
    · exact hinv
  | startVideo =>
    rw [VideoSlot.step]
    split
    · rename_i hserving
      exact hinv.regedit hserving (hmeets hserving)
    · exact hinv
  | stopVideo =>
    rw [VideoSlot.step]
    split
    · exact ⟨⟨nofun, hserves.sending, hserves.index, hserves.server, hserves.noServer⟩,
        holder, waiter, hholds.of_eq rfl rfl rfl nofun⟩
    · exact hinv
  | logout =>
    rw [VideoSlot.step]
    split
    · rename_i hserving
      refine ⟨⟨nofun, fun i hi => ⟨.inr rfl, (hserves.sending i hi).2⟩, ?_, nofun,
        fun hno => absurd hno (by simp)⟩, holder, waiter, hholds.of_eq rfl rfl rfl nofun⟩
      exact fun hresets _ => hserves.index hresets (by rw [hserving]; decide)
    · exact hinv
  | avServStop =>
    rw [VideoSlot.step]
    split
    · rename_i hwait
      have hquiet : ∀ i, s.sender i ≠ .sending := fun i hi => by
        have := hholds.active.mpr ⟨i, by rw [hi]; decide⟩
        exact absurd (this.symm.trans hwait.2) nofun
      have hoff : s.bEnableVideo ≠ true := fun henable => by
        have := (hserves.enabled henable).1
        rw [hwait.1] at this
        exact absurd this nofun
      exact ⟨⟨fun hb => absurd hb hoff, fun i hi => absurd hi (hquiet i),
        fun _ hne => absurd rfl hne, nofun, fun _ => rfl⟩,
        holder, waiter, hholds.of_eq rfl rfl rfl id⟩
    · exact hinv
  | sessionClose =>
    rw [VideoSlot.step]
    split
    · rename_i hstopped
      have hquiet : ∀ i, s.sender i ≠ .sending := fun i hi => by
        have := (hserves.sending i hi).1
        rw [hstopped] at this
        exact absurd this (by simp)
      have hoff : s.bEnableVideo ≠ true := fun henable => by
        have := (hserves.enabled henable).1
        rw [hstopped] at this
        exact absurd this nofun
      exact ⟨⟨fun hb => absurd hb hoff, fun i hi => absurd hi (hquiet i),
        fun hresets => absurd hresets (Nat.succ_ne_zero _), nofun,
        fun _ => hserves.noServer (.inr hstopped)⟩,
        holder, waiter, hholds.of_eq rfl rfl rfl id⟩
    · exact hinv
  | reset =>
    rw [VideoSlot.step]
    split
    · rename_i hpos
      have hquiet : ∀ i, s.sender i ≠ .sending := fun i hi =>
        absurd (hserves.sending i hi).2.1 hpos.ne'
      have hoff : s.bEnableVideo ≠ true := fun henable =>
        absurd (hserves.enabled henable).2.1 hpos.ne'
      exact ⟨⟨fun hb => absurd hb hoff, fun i hi => absurd hi (hquiet i), fun _ _ => .inl rfl,
        hserves.server, hserves.noServer⟩, holder, waiter, hholds.of_eq rfl rfl rfl id⟩
    · exact hinv
  | sender i lost => exact ⟨hserves.thread i lost, hholds.thread i lost⟩

theorem Inv.keptApart (h : s.Inv) : s.KeptApart := by
  obtain ⟨hserves, holder, waiter, hholds⟩ := h
  refine ⟨fun i j hi hj => ?_, fun i hi => ⟨(hserves.sending i hi).2.2, ?_⟩, fun henable => ?_⟩
  · have hholder := hholds.holder_of_active (.inl hi)
    exact Option.some.inj (hholder.symm.trans (hholds.holder_of_active (.inl hj)))
  · have hset := hholds.active.mpr ⟨i, by rw [hi]; decide⟩
    rw [VideoSlot.step, if_neg (fun hstop => Bool.false_ne_true (hstop.2.symm.trans hset))]
  · obtain ⟨i, hi, hne⟩ | ⟨hnone, hsome⟩ := hholds.serves henable
    · obtain hp | hp | hp := (hholds.inside i).mpr hi
      · exact ⟨i, .inr (.inl hp)⟩
      · exact ⟨i, .inl hp⟩
      · exact absurd hp hne
    · obtain ⟨i, hi⟩ := Option.ne_none_iff_exists'.mp hsome
      refine ⟨i, .inr (.inr ⟨(hholds.created i).mpr hi, ?_⟩)⟩
      rw [Bool.eq_false_iff]
      intro hset
      obtain ⟨k, hk⟩ := hholds.active.mp hset
      exact absurd ((hholds.holder_of_active hk).symm.trans hnone) nofun

end Steps

/-- As long as no start command comes while a thread is on its way into or out of its loop, nor
before the slot of an earlier session is reset, whatever the order of the steps: one thread at most
sends, to the open server of the session, and none is missing. -/
theorem senders_kept_apart (steps : List VideoAction)
    (hrun : GuardedRun.Guarded step Meets start steps) : (steps.foldl step start).KeptApart :=
  (hrun.invariant (I := Inv) (fun _ a h hmeets => h.step a hmeets) start_inv).keptApart

theorem senders_kept_apart_restart :
    ([.login, .startVideo, .sender 0 false, .sender 0 false, .sender 0 false, .sender 0 true,
      .sender 0 false, .sender 0 false, .startVideo].foldl step start).KeptApart :=
  senders_kept_apart _ (by
    simp [GuardedRun.Guarded, Meets, step, thread, setSender, regeditClientToVideo, start,
      SenderPhase.Alive, SenderPhase.Inside, SenderPhase.InLoop, Function.update_apply]
    intro i
    split <;> simp)

/-! ## The start command that is lost -/

/-- The picture is asked for, and there is no thread to send it. -/
def Stuck (s : VideoSlot) : Prop := s.bEnableVideo = true ∧ ∀ i, ¬ (s.sender i).Alive

/-- A further start command does not help. -/
theorem Stuck.step {s : VideoSlot} (h : s.Stuck) (a : VideoAction) (hstop : a ≠ .stopVideo)
    (hlogout : a ≠ .logout) : (s.step a).Stuck := by
  cases a with
  | login =>
    rw [VideoSlot.step]
    split <;> exact h
  | startVideo =>
    rw [VideoSlot.step]
    split
    · rw [regeditClientToVideo, if_pos h.1]
      exact h
    · exact h
  | stopVideo => exact absurd rfl hstop
  | logout => exact absurd rfl hlogout
  | avServStop =>
    rw [VideoSlot.step]
    split <;> exact h
  | sessionClose =>
    rw [VideoSlot.step]
    split <;> exact h
  | reset =>
    rw [VideoSlot.step]
    split <;> exact h
  | sender i lost =>
    rw [VideoSlot.step, VideoSlot.thread]
    have hi := h.2 i
    cases heq : s.sender i <;> rw [heq] at hi
    case idle | gone => exact h
    all_goals exact absurd (by decide) hi

end VideoSlot
