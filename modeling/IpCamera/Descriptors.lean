/-
# Descriptors whose calls do part of the work

A `read` moves at most the bytes asked for, a `write` at most the bytes given; both may
move fewer, or fail.  What a call does depends on a state that the calls change.

A caller's loop is described by the calls it made: their results in order, the bytes
that were delivered or taken in all.
-/
import IpCamera.RiffChunks

/-- What `read` gives: the bytes it moved, none of them at the end of the file, or an error. -/
inductive ReadResult where
  | moved (bytes : List UInt8)
  | failed (errno : ℕ)
  deriving DecidableEq

/-- What `write` gives: the number of bytes it moved, or an error. -/
inductive WriteResult where
  | moved (n : ℕ)
  | failed (errno : ℕ)
  deriving DecidableEq

/-- A descriptor that is read. -/
structure ReadFd (σ : Type*) where
  read : σ → ℕ → ReadResult × σ
  length_le : ∀ {s n bytes}, (read s n).1 = .moved bytes → bytes.length ≤ n

/-- A descriptor that is written. -/
structure WriteFd (σ : Type*) where
  write : σ → List UInt8 → WriteResult × σ
  le_length : ∀ {s bytes n}, (write s bytes).1 = .moved n → n ≤ bytes.length

/-! ## Calls one after the other -/

variable {σ : Type*}

/-- The bytes a call delivered. -/
def ReadResult.bytes : ReadResult → List UInt8
  | moved bytes => bytes
  | failed _ => []

/-- The number of bytes a call moves at most. -/
def WriteResult.amount : WriteResult → ℕ
  | moved n => n
  | failed _ => 0

/-- The bytes a call took of those it was given. -/
def WriteResult.taken (given : List UInt8) : WriteResult → List UInt8
  | moved n => given.take n
  | failed _ => []

/-- What a call returns. -/
def ReadResult.ret : ReadResult → ℤ
  | moved bytes => bytes.length
  | failed _ => -1

def WriteResult.ret : WriteResult → ℤ
  | moved n => n
  | failed _ => -1

/-- `errno` after a call; one that does not fail leaves it alone. -/
def ReadResult.errno (before : ℕ) : ReadResult → ℕ
  | moved _ => before
  | failed errno => errno

def WriteResult.errno (before : ℕ) : WriteResult → ℕ
  | moved _ => before
  | failed errno => errno

/-- The bytes some calls delivered. -/
def delivered (results : List ReadResult) : List UInt8 := results.flatMap ReadResult.bytes

/-- The bytes some calls took; each call comes with what it was given. -/
def taken (calls : List (List UInt8 × WriteResult)) : List UInt8 :=
  calls.flatMap fun c => c.2.taken c.1

/-- Calls lead from a state to another, with these results; each asks for something. -/
inductive ReadFd.Calls (r : ReadFd σ) : σ → List ReadResult → σ → Prop where
  | nil (s : σ) : Calls r s [] s
  | cons {s s' s'' : σ} {n : ℕ} {result : ReadResult} {rest : List ReadResult} :
      0 < n → r.read s n = (result, s') → Calls r s' rest s'' → Calls r s (result :: rest) s''

/-- Calls lead from a state to another; each comes with what it was given. -/
inductive WriteFd.Calls (w : WriteFd σ) : σ → List (List UInt8 × WriteResult) → σ → Prop where
  | nil (s : σ) : Calls w s [] s
  | cons {s s' s'' : σ} {bytes : List UInt8} {result : WriteResult}
      {rest : List (List UInt8 × WriteResult)} :
      w.write s bytes = (result, s') → Calls w s' rest s'' → Calls w s ((bytes, result) :: rest) s''

/-- What holds at the start of the bytes moved so far and the state, and is kept by every call, holds
at the end. -/
theorem ReadFd.Calls.induct {r : ReadFd σ} {s s' : σ} {results : List ReadResult}
    (h : r.Calls s results s') (P : List UInt8 → σ → Prop) (hstart : P [] s)
    (hstep : ∀ got s n result s', P got s → r.read s n = (result, s') → P (got ++ result.bytes) s') :
    P (delivered results) s' := by
  suffices hfrom : ∀ before, P before s → P (before ++ delivered results) s' from hfrom [] hstart
  clear hstart
  induction h with
  | nil s =>
    intro before hbefore
    rwa [delivered, List.flatMap_nil, List.append_nil]
  | cons _ hcall _ ih =>
    intro before hbefore
    rw [delivered, List.flatMap_cons, ← List.append_assoc]
    exact ih _ (hstep _ _ _ _ _ hbefore hcall)

/-- A result is that of one of the calls. -/
theorem ReadFd.Calls.exists_call {r : ReadFd σ} {s s' : σ} {results : List ReadResult}
    (h : r.Calls s results s') {result : ReadResult} (hmem : result ∈ results) :
    ∃ before after s₁ s₂ n, results = before ++ result :: after ∧ r.Calls s before s₁ ∧ 0 < n
      ∧ r.read s₁ n = (result, s₂) ∧ r.Calls s₂ after s' := by
  induction h with
  | nil s => cases hmem
  | @cons s s' s'' n first rest hn hcall hrest ih =>
    cases hmem with
    | head => exact ⟨[], rest, s, s', n, rfl, .nil s, hn, hcall, hrest⟩
    | tail _ hmem =>
      obtain ⟨before, after, s₁, s₂, m, rfl, hbefore, hm, hcall', hafter⟩ := ih hmem
      exact ⟨first :: before, after, s₁, s₂, m, rfl, .cons hn hcall hbefore, hm, hcall', hafter⟩

theorem WriteFd.Calls.induct {w : WriteFd σ} {s s' : σ} {calls : List (List UInt8 × WriteResult)}
    (h : w.Calls s calls s') (P : List UInt8 → σ → Prop) (hstart : P [] s)
    (hstep : ∀ got s bytes result s', P got s → w.write s bytes = (result, s') →
      P (got ++ result.taken bytes) s') :
    P (taken calls) s' := by
  suffices hfrom : ∀ before, P before s → P (before ++ taken calls) s' from hfrom [] hstart
  clear hstart
  induction h with
  | nil s =>
    intro before hbefore
    rwa [taken, List.flatMap_nil, List.append_nil]
  | cons hcall _ ih =>
    intro before hbefore
    rw [taken, List.flatMap_cons, ← List.append_assoc]
    exact ih _ (hstep _ _ _ _ _ hbefore hcall)

/-! ## Given results -/

/-- The state of a descriptor whose results are given: the number of calls, and the bytes moved. -/
structure CallLog where
  calls : ℕ
  moved : List UInt8

/-- The descriptor whose calls have these results, of which a call gives no more than it was asked
for. -/
def ReadFd.ofResults (results : ℕ → ReadResult) : ReadFd CallLog where
  read s n :=
    match results s.calls with
    | .moved bytes => (.moved (bytes.take n), ⟨s.calls + 1, s.moved ++ bytes.take n⟩)
    | .failed errno => (.failed errno, ⟨s.calls + 1, s.moved⟩)
  length_le {s n bytes} h := by
    split at h
    · obtain rfl := ReadResult.moved.inj h
      exact List.length_take_le _ _
    · cases h

def WriteFd.ofResults (results : ℕ → WriteResult) : WriteFd CallLog where
  write s bytes :=
    match results s.calls with
    | .moved n => (.moved (min n bytes.length), ⟨s.calls + 1, s.moved ++ bytes.take n⟩)
    | .failed errno => (.failed errno, ⟨s.calls + 1, s.moved⟩)
  le_length {s bytes n} h := by
    split at h
    · obtain rfl := WriteResult.moved.inj h
      exact Nat.min_le_right _ _
    · cases h

/-- What one call adds to the log. -/
theorem ReadFd.log_of_read {results : ℕ → ReadResult} {s s' : CallLog} {n : ℕ}
    {result : ReadResult} (h : (ReadFd.ofResults results).read s n = (result, s')) :
    s' = ⟨s.calls + 1, s.moved ++ result.bytes⟩ := by
  rw [ReadFd.ofResults] at h
  dsimp only at h
  split at h
  · obtain ⟨rfl, rfl⟩ := Prod.mk.inj h
    rfl
  · obtain ⟨rfl, rfl⟩ := Prod.mk.inj h
    rw [ReadResult.bytes, List.append_nil]

theorem WriteFd.log_of_write {results : ℕ → WriteResult} {s s' : CallLog} {bytes : List UInt8}
    {result : WriteResult} (h : (WriteFd.ofResults results).write s bytes = (result, s')) :
    s' = ⟨s.calls + 1, s.moved ++ result.taken bytes⟩ := by
  rw [WriteFd.ofResults] at h
  dsimp only at h
  split at h
  · obtain ⟨rfl, rfl⟩ := Prod.mk.inj h
    rw [WriteResult.taken, List.take_eq_take_min]
  · obtain ⟨rfl, rfl⟩ := Prod.mk.inj h
    rw [WriteResult.taken, List.append_nil]

/-- The log of the calls. -/
theorem ReadFd.Calls.log {results : ℕ → ReadResult} {s s' : CallLog} {trace : List ReadResult}
    (h : (ReadFd.ofResults results).Calls s trace s') :
    s'.calls = s.calls + trace.length ∧ s'.moved = s.moved ++ delivered trace := by
  induction h with
  | nil s => exact ⟨rfl, (List.append_nil _).symm⟩
  | cons _ hcall _ ih =>
    rw [delivered, List.flatMap_cons, List.length_cons, ih.1, ih.2, delivered, ← List.append_assoc,
      ReadFd.log_of_read hcall]
    exact ⟨by dsimp only; omega, rfl⟩

/-- An error is one of the results given. -/
theorem ReadFd.Calls.failed_mem {results : ℕ → ReadResult} {s s' : CallLog}
    {trace : List ReadResult} (h : (ReadFd.ofResults results).Calls s trace s') {errno : ℕ}
    (hmem : .failed errno ∈ trace) : ∃ j < s'.calls, results j = .failed errno := by
  obtain ⟨before, after, s₁, s₂, n, rfl, hbefore, -, hcall, -⟩ := h.exists_call hmem
  refine ⟨s₁.calls, ?_, ?_⟩
  · rw [h.log.1, hbefore.log.1, List.length_append, List.length_cons]
    omega
  · rw [ReadFd.ofResults] at hcall
    dsimp only at hcall
    split at hcall
    · cases (Prod.mk.inj hcall).1
    · rename_i hres
      rw [hres, ReadResult.failed.inj (Prod.mk.inj hcall).1]

/-- An end of the file is one of the results given. -/
theorem ReadFd.Calls.end_mem {results : ℕ → ReadResult} {s s' : CallLog}
    {trace : List ReadResult} (h : (ReadFd.ofResults results).Calls s trace s')
    (hmem : .moved [] ∈ trace) : ∃ j < s'.calls, results j = .moved [] := by
  obtain ⟨before, after, s₁, s₂, n, rfl, hbefore, hn, hcall, -⟩ := h.exists_call hmem
  refine ⟨s₁.calls, ?_, ?_⟩
  · rw [h.log.1, hbefore.log.1, List.length_append, List.length_cons]
    omega
  · rw [ReadFd.ofResults] at hcall
    dsimp only at hcall
    split at hcall
    · rename_i bytes hres
      have hnil := ReadResult.moved.inj (Prod.mk.inj hcall).1
      rcases List.take_eq_nil_iff.mp hnil with h0 | h0
      · omega
      · rw [hres, h0]
    · cases (Prod.mk.inj hcall).1

theorem WriteFd.Calls.log {results : ℕ → WriteResult} {s s' : CallLog}
    {calls : List (List UInt8 × WriteResult)} (h : (WriteFd.ofResults results).Calls s calls s') :
    s'.calls = s.calls + calls.length ∧ s'.moved = s.moved ++ taken calls := by
  induction h with
  | nil s => exact ⟨rfl, (List.append_nil _).symm⟩
  | cons hcall _ ih =>
    rw [taken, List.flatMap_cons, List.length_cons, ih.1, ih.2, taken, ← List.append_assoc,
      WriteFd.log_of_write hcall]
    exact ⟨by dsimp only; omega, rfl⟩
