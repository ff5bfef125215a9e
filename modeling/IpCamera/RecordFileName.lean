/-
# The names of recordings

`avi_record_nornal_close` and `avi_record_event_close` give a finished recording its
name; `avi_get_start_time` and `avi_get_stop_time` read the two times from a name.
The first writes `<start>-<seconds>.avi`, the readers expect the times at the places
they have in `chN_<start>_<stop>.avi`.  The second looks for a `ch` that no name has,
and uses the null pointer it gets.

Proved: no recording's name is read back as its own times
(`names_never_round_trip`).
-/
import IpCamera.SdCard
import IpCamera.SegmentLength

open CString

/-! ## The close of an event recording -/

/-- The name `avi_record_event_close` makes: the directory, `al`, and what follows `ch` in the old
name.  There is no name when the old one has no `ch`: `lastname + 2` is then no string. -/
def eventFileName (filename : List Char) (stop : ℕ) : Option (List Char) :=
  (filename.tails.find? fun lastname => ['c', 'h'].isPrefixOf lastname).map fun lastname =>
    filename.take 22 ++ ['a', 'l'] ++ lastname.drop 2 ++ '_' :: Nat.toDigits 10 stop
      ++ ['.', 'a', 'v', 'i']

/-- `avi_record_event_close`; `stop` is `file_info.stop`.  No result where the source uses a null
pointer. -/
def aviRecordEventClose (s : AviFile) (stop : ℕ) (io : CloseIo) : Option (ℤ × AviFile) :=
  if io.sdOk 0 = false then some (-1, s)
  else if s.newFlag = false then
    match runSteps [flushRest io, aviAddIndex io] s with
    | (false, s) => some (-1, s)
    | (true, s) =>
        (eventFileName s.filename.toList stop).map fun newname =>
          let s := { s with filename := String.ofList newname }
          if io.renameOk then (0, { s with preIndexPos := 0 }) else (-1, s)
  else some (0, { s with preIndexPos := 0 })

/-! ## What closing does to the handle's name -/

/-- The name and the bound of the duration, the two fields the new name is made of. -/
def AviFile.naming (s : AviFile) : String × Bool := (s.filename, s.duration < 4294967296)

theorem AviFile.clampDuration_naming (s : AviFile) : s.clampDuration.naming = s.naming := by
  have hsame : decide (s.clampDuration.duration < 4294967296) = decide (s.duration < 4294967296) := by
    apply decide_eq_decide.mpr
    show (if s.duration < 1000 then 1000 else s.duration) < 4294967296 ↔ s.duration < 4294967296
    split <;> omega
  exact congrArg (Prod.mk s.filename) hsame

theorem updateAviHeader_naming (io : CloseIo) (s : AviFile) :
    (updateAviHeader io s).2.naming = s.naming := by
  refine runSteps_preserves AviFile.naming _ ?_ s
  simp only [List.mem_cons, List.not_mem_nil, or_false]
  rintro step (rfl | rfl | rfl | rfl | rfl | rfl | rfl | rfl | rfl | rfl) s'
  case inr.inr.inr.inr.inr.inr.inr.inr.inl => exact s'.clampDuration_naming
  all_goals rfl

theorem aviAddIndex_naming (io : CloseIo) (s : AviFile) :
    (aviAddIndex io s).2.naming = s.naming := by
  refine runSteps_preserves AviFile.naming _ ?_ s
  simp only [List.mem_cons, List.not_mem_nil, or_false]
  rintro step (rfl | rfl | rfl | rfl | rfl | rfl | rfl | rfl) s'
  case inr.inr.inl =>
    unfold flushPending
    split <;> rfl
  case inr.inr.inr.inr.inr.inr.inl => exact copyIndex_preserves AviFile.naming (fun _ _ _ => rfl) io _ 0 s'
  case inr.inr.inr.inr.inr.inr.inr => exact updateAviHeader_naming io s'
  all_goals rfl

theorem runSteps_fst_cons {step : AviFile → Bool × AviFile} {steps : List (AviFile → Bool × AviFile)}
    {s : AviFile} (h : (step s).1 = true) (hrest : (runSteps steps (step s).2).1 = true) :
    (runSteps (step :: steps) s).1 = true := by
  rw [runSteps_cons (Prod.ext h rfl)]
  exact hrest

/-- The rest of the buffer and the index written. -/
theorem naming_of_index {io : CloseIo} {s s₁ s₂ : AviFile} (hflush : flushRest io s = (true, s₁))
    (hindex : aviAddIndex io s₁ = (true, s₂)) : s₂.naming = s.naming := by
  have h₁ := flushRest_preserves AviFile.naming (fun _ _ _ _ => rfl) io s
  have h₂ := aviAddIndex_naming io s₁
  rw [hflush] at h₁
  rw [hindex] at h₂
  exact h₂.trans h₁

/-! ## The names given -/

/-- The name a recording has from its opening on. -/
def openedName (date : String) (start : ℕ) : String :=
  grdSdMountPoint ++ "/" ++ date ++ "/" ++ toString start

/-- Steps that all succeed. -/
theorem runSteps_cons_true {step : AviFile → Bool × AviFile} {steps : List (AviFile → Bool × AviFile)}
    {s s' : AviFile} (h : runSteps (step :: steps) s = (true, s')) :
    ∃ s₁, step s = (true, s₁) ∧ runSteps steps s₁ = (true, s') := by
  unfold runSteps at h
  rcases hstep : step s with ⟨ok, s₁⟩
  rw [hstep] at h
  cases ok with
  | false => cases h
  | true => exact ⟨s₁, rfl, h⟩

theorem aviRecordNornalClose_filename {s s' : AviFile} {io : CloseIo} (hnew : s.newFlag = false)
    (hduration : s.duration < 4294967296) (h : aviRecordNornalClose s io = (0, s')) :
    ∃ seconds < 4294968,
      s'.filename = s.filename ++ "-" ++ toString seconds ++ ".avi" := by
  have hkeep : ∀ s₁ : AviFile, s₁.naming = s.naming →
      s₁.filename = s.filename ∧ s₁.duration < 4294967296 := by
    intro s₁ heq
    obtain ⟨hname, hlt⟩ := Prod.mk.inj heq
    exact ⟨hname, of_decide_eq_true (hlt.trans (decide_eq_true hduration))⟩
  unfold aviRecordNornalClose at h
  by_cases hsd : io.sdOk 0 = false
  · rw [if_pos hsd] at h
    cases h
  · rw [if_neg hsd, if_pos hnew] at h
    dsimp only at h
    split at h
    · cases h
    · rename_i s₀ hsteps
      obtain ⟨-, rfl⟩ := Prod.mk.inj h
      obtain ⟨s₁, hflush, hsteps⟩ := runSteps_cons_true hsteps
      obtain ⟨s₂, hindex, hsteps⟩ := runSteps_cons_true hsteps
      obtain ⟨s₃, hremove, hsteps⟩ := runSteps_cons_true hsteps
      obtain ⟨s₄, hrename, hsteps⟩ := runSteps_cons_true hsteps
      obtain ⟨-, rfl⟩ := Prod.mk.inj hsteps
      obtain ⟨-, rfl⟩ := Prod.mk.inj hremove
      obtain ⟨-, rfl⟩ := Prod.mk.inj hrename
      obtain ⟨hname, hlt⟩ := hkeep s₂ (naming_of_index hflush hindex)
      exact ⟨s₂.duration / 1000, by omega, by rw [← hname]⟩

theorem closedName_toList {filename date : String} {start seconds : ℕ}
    (h : filename = openedName date start ++ "-" ++ toString seconds ++ ".avi") :
    filename.toList = sdPath date.toList ++ '/' :: (Nat.toDigits 10 start
      ++ '-' :: (Nat.toDigits 10 seconds ++ ['.', 'a', 'v', 'i'])) := by
  rw [h, openedName]
  simp [sdPath, String.toList_append]

/-- A number of at least two digits is at least the power of ten below its length. -/
theorem pow_le_of_toDigits {n : ℕ} (hlen : 2 ≤ (Nat.toDigits 10 n).length) :
    10 ^ ((Nat.toDigits 10 n).length - 1) ≤ n := by
  by_contra hlt
  have hshorter := (Nat.length_toDigits_le_iff (b := 10) (n := n)
    (k := (Nat.toDigits 10 n).length - 1) (by decide) (by omega)).mpr (by omega)
  omega

/-- The first reader sees the start time without its first four digits. -/
theorem aviGetStartTime_digits {digits : List Char} (rest : List Char) (hdigits : Digits digits)
    (hlen : 4 < digits.length) (hlong : 18 ≤ (digits ++ '-' :: rest).length) :
    ∃ v, aviGetStartTime (digits ++ '-' :: rest) = some v ∧ v < 10 ^ (digits.length - 4) := by
  set seen := (digits.drop 4).take 14 with hseen
  have hseenDigits : Digits seen := fun c hc =>
    hdigits c (List.mem_of_mem_drop (List.mem_of_mem_take hc))
  have hseenLen : seen.length ≤ 14 ∧ seen.length ≤ digits.length - 4 ∧ 0 < seen.length := by
    rw [hseen, List.length_take, List.length_drop]
    omega
  have hsub : aviSubstring (digits ++ '-' :: rest) 4 18
      = some (seen ++ ('-' :: rest).take (14 - (digits.drop 4).length)) := by
    rw [aviSubstring, if_neg (by omega)]
    dsimp only
    rw [if_neg (by omega), List.drop_append_of_le_length (by omega), List.take_append]
  have hstops : Stops (('-' :: rest).take (14 - (digits.drop 4).length)) :=
    (stops_cons (by decide) rest).take _
  have hlt := ofDigitChars_lt hseenDigits
  have hle14 : 10 ^ seen.length ≤ 10 ^ 14 := Nat.pow_le_pow_right (by decide) hseenLen.1
  have hle : 10 ^ seen.length ≤ 10 ^ (digits.length - 4) :=
    Nat.pow_le_pow_right (by decide) hseenLen.2.1
  have hread := strtol_digits_append hseenDigits (List.ne_nil_of_length_pos hseenLen.2.2) hstops
  refine ⟨Nat.ofDigitChars 10 seen 0, ?_, by omega⟩
  rw [aviGetStartTime, hsub, Option.map_some, atoll_of_strtol hread (by omega),
    toUint64_natCast (by omega)]

/-- The normal close writes the two numbers where the readers do not look for them. -/
theorem normalName_not_read (start stop : ℕ) {seconds : ℕ} (hsec : seconds < 4294968) :
    ¬ (aviGetStartTime (Nat.toDigits 10 start ++ '-' :: (Nat.toDigits 10 seconds
          ++ ['.', 'a', 'v', 'i'])) = some start
      ∧ aviGetStopTime (Nat.toDigits 10 start ++ '-' :: (Nat.toDigits 10 seconds
          ++ ['.', 'a', 'v', 'i'])) = some stop) := by
  rintro ⟨hstart, hstop⟩
  have hseclen : (Nat.toDigits 10 seconds).length ≤ 7 :=
    (Nat.length_toDigits_le_iff (by decide) (by decide)).mpr (by omega)
  set digits := Nat.toDigits 10 start with hdigits
  set rest := Nat.toDigits 10 seconds ++ ['.', 'a', 'v', 'i'] with hrest
  have hrestlen : rest.length ≤ 11 := by
    rw [hrest]
    simp only [List.length_cons, List.length_append, List.length_nil]
    omega
  -- a name too short for the second reader has no stop time at all
  have hlong : 19 ≤ (digits ++ '-' :: rest).length := by
    by_contra hshort
    rw [aviGetStopTime, aviSubstring, if_pos (by omega)] at hstop
    cases hstop
  have hlen : (digits ++ '-' :: rest).length = digits.length + (rest.length + 1) := by
    rw [List.length_append, List.length_cons]
  -- otherwise the start time has at least seven digits, of which the first reader drops four
  have hdigs : Digits digits := digits_toDigits start
  obtain ⟨v, hread, hlt⟩ := aviGetStartTime_digits rest hdigs (by omega) (by omega)
  have hv : v = start := Option.some.inj (hread.symm.trans hstart)
  have hge : 10 ^ (digits.length - 1) ≤ start :=
    pow_le_of_toDigits (show 2 ≤ digits.length by omega)
  have hle : 10 ^ (digits.length - 4) ≤ 10 ^ (digits.length - 1) :=
    Nat.pow_le_pow_right (by decide) (by omega)
  omega

/-- No name of an opened recording has a `ch` in it. -/
theorem eventFileName_openedName {date : String} (hdate : Digits date.toList) (start stop : ℕ) :
    eventFileName (openedName date start).toList stop = none := by
  have hnoh : 'h' ∉ (openedName date start).toList := by
    rw [openedName, String.toList_append, String.toList_append, String.toList_append,
      String.toList_append, Nat.toString_eq_repr, Nat.toList_repr]
    simp only [List.mem_append, not_or]
    refine ⟨⟨⟨⟨by decide, by decide⟩, fun h => ?_⟩, by decide⟩, fun h => ?_⟩
    · exact absurd (hdate 'h' h) (by decide)
    · exact absurd (digits_toDigits start 'h' h) (by decide)
  rw [eventFileName, Option.map_eq_none_iff, List.find?_eq_none]
  intro lastname htail hprefix
  obtain ⟨rest, rfl⟩ := List.isPrefixOf_iff_prefix.mp hprefix
  exact hnoh (((List.mem_tails _ _).mp htail).subset (by simp))

/-- A handle of a minute recorded from 1704067200 on. -/
def minuteHandle : AviFile :=
  { AviFile.zero with
    filename := openedName "20240101" 1704067200
    start := 1704067200
    duration := 60000 }

theorem minuteHandle_close :
    (aviRecordNornalClose minuteHandle (RecordSession.ofFrames []).closeIo).1 = 0 := by
  have hcopy : ∀ (s : AviFile), s.indexCount = 0 →
      copyIndex (RecordSession.ofFrames []).closeIo 0 s.indexCount s = (true, s) := by
    intro s hs
    rw [copyIndex, if_pos hs]
  have hindex : (aviAddIndex (RecordSession.ofFrames []).closeIo minuteHandle).1 = true := by
    refine runSteps_fst_cons rfl (runSteps_fst_cons rfl (runSteps_fst_cons rfl (runSteps_fst_cons rfl
      (runSteps_fst_cons rfl (runSteps_fst_cons rfl (runSteps_fst_cons ?_ ?_))))))
    · rw [hcopy _ rfl]
    · rw [hcopy _ rfl]
      rfl
  unfold aviRecordNornalClose
  rw [if_neg (by decide), if_pos (show minuteHandle.newFlag = false from rfl)]
  dsimp only
  rw [runSteps_cons (show flushRest _ minuteHandle = (true, minuteHandle) from rfl),
    runSteps_cons (Prod.ext hindex rfl)]
  rfl

/-- The recording of `date` that began at `start` and ended at `stop` is closed under a name that
is read back as these times. -/
def NameRoundTrips (closed : Option (ℤ × AviFile)) (date : String) (start stop : ℕ) : Prop :=
  ∃ s' name, closed = some (0, s') ∧ s'.filename.toList = sdPath date.toList ++ '/' :: name
    ∧ aviGetStartTime name = some start ∧ aviGetStopTime name = some stop

/-- **No recording's name is read back.**  Neither close gives any recording a name from which its
times are read. -/
theorem names_never_round_trip (s : AviFile) {date : String} (hdate : Digits date.toList)
    (start stop : ℕ) (hopened : s.filename = openedName date start) (hnew : s.newFlag = false)
    (hduration : s.duration < 4294967296) (io : CloseIo) :
    ¬ NameRoundTrips (some (aviRecordNornalClose s io)) date start stop
      ∧ ¬ NameRoundTrips (aviRecordEventClose s stop io) date start stop := by
  refine ⟨?_, ?_⟩
  · rintro ⟨s', name, hclose, hname, hstart, hstop⟩
    obtain ⟨seconds, hsec, hfile⟩ :=
      aviRecordNornalClose_filename hnew hduration (Option.some.inj hclose)
    rw [hopened] at hfile
    rw [closedName_toList hfile] at hname
    obtain rfl := (List.cons.inj (List.append_cancel_left hname)).2
    exact normalName_not_read start stop hsec ⟨hstart, hstop⟩
  · -- the event close finds no `ch` in the name, and has no result
    rintro ⟨s', name, hclose, -⟩
    unfold aviRecordEventClose at hclose
    by_cases hsd : io.sdOk 0 = false
    · rw [if_pos hsd] at hclose
      cases hclose
    · rw [if_neg hsd, if_pos hnew] at hclose
      split at hclose
      · cases hclose
      · rename_i s₀ hsteps
        obtain ⟨s₁, hflush, hsteps⟩ := runSteps_cons_true hsteps
        obtain ⟨s₂, hindex, hsteps⟩ := runSteps_cons_true hsteps
        obtain ⟨-, rfl⟩ := Prod.mk.inj hsteps
        have hname := (Prod.mk.inj (naming_of_index hflush hindex)).1
        rw [hname, hopened, eventFileName_openedName hdate] at hclose
        cases hclose

theorem names_never_round_trip_minute :
    ¬ NameRoundTrips (some (aviRecordNornalClose minuteHandle
        (RecordSession.ofFrames []).closeIo)) "20240101" 1704067200 1704067260
      ∧ ¬ NameRoundTrips (aviRecordEventClose minuteHandle 1704067260
        (RecordSession.ofFrames []).closeIo) "20240101" 1704067200 1704067260 :=
  names_never_round_trip minuteHandle (List.all_eq_true.mp (by decide)) 1704067200 1704067260
    rfl rfl (by decide) (RecordSession.ofFrames []).closeIo

/-- A recording of a minute is closed as `1704067200-60.avi`, from which the start time `67200` is
read, and no stop time. -/
theorem minute_not_read_back :
    openedName "20240101" 1704067200 = minuteHandle.filename
      ∧ (∃ s', some (aviRecordNornalClose minuteHandle (RecordSession.ofFrames []).closeIo)
          = some (0, s'))
      ∧ ¬ NameRoundTrips (some (aviRecordNornalClose minuteHandle
          (RecordSession.ofFrames []).closeIo)) "20240101" 1704067200 1704067260
      ∧ aviGetStartTime "1704067200-60.avi".toList = some 67200
      ∧ aviGetStopTime "1704067200-60.avi".toList = none := by
  have hclose : aviRecordNornalClose minuteHandle (RecordSession.ofFrames []).closeIo
      = (0, (aviRecordNornalClose minuteHandle (RecordSession.ofFrames []).closeIo).2) :=
    Prod.ext minuteHandle_close rfl
  refine ⟨rfl, ⟨_, congrArg some hclose⟩, ?_, by decide, by decide⟩
  rintro ⟨s', name, heq, hname, hstart, hstop⟩
  obtain ⟨seconds, hsec, hfile⟩ := aviRecordNornalClose_filename (s := minuteHandle) rfl (by decide)
    (Option.some.inj heq)
  rw [closedName_toList hfile] at hname
  obtain rfl := (List.cons.inj (List.append_cancel_left hname)).2
  exact normalName_not_read 1704067200 1704067260 hsec ⟨hstart, hstop⟩
