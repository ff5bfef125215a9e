/-
# The list of alarms for a client (`tutk_msg_handle.c`)

Two log files hold one alarm a line.  `get_alarmList_req_handle` counts their lines, lists the
entries of a time window in a table of that size, and sends the table in responses of at most
126 entries.  `list_alarmall_log` copies the token of a line without looking whether there is
one, and it takes any two fields for an entry, and any piece of a long line for a line.

The loops end, and the table is never overrun; `alarm_list_iff` tells for which files and
windows exactly the well-formed entries are sent.

Sizes are natural numbers, and memory is taken to suffice.
-/
import IpCamera.CString
import IpCamera.LineInput
import IpCamera.Paging

open CString LineInput Paging

/-! ## The log files -/

/-- What `ALARM_PATH1` and `ALARM_PATH` hold, if they are there; the first is the older one. -/
structure AlarmFiles where
  alarmfile1 : Option (List Char)
  alarmfile : Option (List Char)

/-- `alarm_log` -/
structure AlarmLog where
  time : ℕ
  eventType : ℤ
  deriving DecidableEq, Repr

/-- `pattern` has 512 characters, one of them for the end of the string. -/
def patternRoom : ℕ := 511

/-- The string in a buffer ends at the first zero. -/
def cString (pattern : List Char) : List Char := pattern.takeWhile (· ≠ '\x00')

/-- What `list_alarmall_log` makes of a pattern: nothing if the token that it copies is missing,
no entry if a field is. -/
def logPattern (pattern : List Char) : Option (Option AlarmLog) := do
  let (token, _) ← strtok '\n' (cString pattern)
  pure do
    let (time, rest) ← strtok '=' token
    let (optType, _) ← strtok '=' rest
    pure ⟨(atoi time % 4294967296).toNat, atoi optType⟩

/-- The entry is in the window. -/
def AlarmLog.InWindow (nStartTime nEndTime : ℕ) (e : AlarmLog) : Prop :=
  nStartTime ≤ e.time ∧ e.time ≤ nEndTime

instance (nStartTime nEndTime : ℕ) : DecidablePred (AlarmLog.InWindow nStartTime nEndTime) :=
  fun _ => inferInstanceAs (Decidable (_ ∧ _))

/-! ## Counting -/

/-- The loop of `get_alarmlog_number` over a file. -/
def countFile (fp : Stream) (index : ℕ) : ℕ :=
  if heof : fp.eof = true then index
  else
    match h : fgets patternRoom fp with
    | (none, fp') => countFile fp' index
    | (some _, fp') => countFile fp' (index + 1)
termination_by fp.rest.length + (if fp.eof then 0 else 1)
decreasing_by
  · rw [eof_of_fgets_none h]
    simp [heof]
  · have := length_rest_fgets (by decide) h
    simp only [heof]
    split <;> simp <;> omega

/-- `get_alarmlog_number` -/
def getAlarmlogNumber (files : AlarmFiles) : ℕ :=
  let index :=
    match files.alarmfile1 with
    | none => 0
    | some s => countFile ⟨s, false⟩ 0
  match files.alarmfile with
  | none => index
  | some s => countFile ⟨s, false⟩ index

/-! ## Listing -/

/-- The table that is filled, and whether a token was missing, which ends the process. -/
structure Listing where
  table : List AlarmLog
  crashed : Bool
  deriving DecidableEq, Repr

/-- The body of the loop of `list_alarmall_log` for a pattern. -/
def listPattern (maxAlarmNum nStartTime nEndTime : ℕ) (table : List AlarmLog)
    (pattern : List Char) : Listing :=
  match logPattern pattern with
  | none => ⟨table, true⟩
  | some none => ⟨table, false⟩
  | some (some e) =>
      if e.InWindow nStartTime nEndTime ∧ table.length < maxAlarmNum then ⟨table ++ [e], false⟩
      else ⟨table, false⟩

/-- `fgets`, and once more if that found nothing. -/
def fgetsTwice (fp : Stream) : Option (List Char) × Stream :=
  match fgets patternRoom fp with
  | (none, fp') => fgets patternRoom fp'
  | r => r

theorem length_rest_fgetsTwice {fp fp' : Stream} {p : List Char}
    (h : fgetsTwice fp = (some p, fp')) : fp'.rest.length < fp.rest.length := by
  unfold fgetsTwice at h
  split at h
  · rename_i fp₁ hnone
    rw [eof_of_fgets_none hnone, fgets_nil] at h
    cases h
  · exact length_rest_fgets (by decide) h

/-- The loop of `list_alarmall_log` over a file. -/
def listFile (maxAlarmNum nStartTime nEndTime : ℕ) (fp : Stream) (table : List AlarmLog) :
    Listing :=
  if fp.eof = true then ⟨table, false⟩
  else
    match h : fgetsTwice fp with
    | (none, _) => ⟨table, false⟩
    | (some pattern, fp') =>
        let l := listPattern maxAlarmNum nStartTime nEndTime table pattern
        if l.crashed then l else listFile maxAlarmNum nStartTime nEndTime fp' l.table
termination_by fp.rest.length
decreasing_by exact length_rest_fgetsTwice h

/-- `list_alarmall_log` -/
def listAlarmallLog (files : AlarmFiles) (maxAlarmNum nStartTime nEndTime : ℕ) : Listing :=
  let l :=
    match files.alarmfile1 with
    | none => ⟨[], false⟩
    | some s => listFile maxAlarmNum nStartTime nEndTime ⟨s, false⟩ []
  if l.crashed then l
  else
    match files.alarmfile with
    | none => l
    | some s => listFile maxAlarmNum nStartTime nEndTime ⟨s, false⟩ l.table

/-! ## Sending -/

/-- `SMsgAVIoctrlAlarmListResp` -/
structure AlarmListResp where
  total : ℕ
  index : UInt8
  endflag : UInt8
  count : UInt8
  stalarm : List AlarmLog
  deriving DecidableEq, Repr

/-- `sizeof(SMsgAVIoctrlAlarmListResp)` -/
def sizeofAlarmListResp : ℕ := 8

def sizeofAlarmLog : ℕ := 8

def onePackAlarmNum : ℕ := (1024 - sizeofAlarmListResp) / sizeofAlarmLog - 1

/-- The loop over the responses; there is no result if an entry behind the table is read. -/
def sendAlarms (tmp : List AlarmLog) (alarmSendNum index : ℕ) : Option (List AlarmListResp) :=
  if 0 < alarmSendNum then do
    let endflag : UInt8 := if alarmSendNum > onePackAlarmNum then 0 else 1
    let count := if alarmSendNum > onePackAlarmNum then onePackAlarmNum else alarmSendNum
    let stalarm ← entries tmp (index * onePackAlarmNum) count
    let resps ← sendAlarms tmp (alarmSendNum - count) (index + 1)
    pure (⟨tmp.length, UInt8.ofNat index, endflag, UInt8.ofNat count, stalarm⟩ :: resps)
  else some []
termination_by alarmSendNum
decreasing_by
  split
  · have : 0 < onePackAlarmNum := by decide
    omega
  · omega

/-- `get_alarmList_req_handle`, what it sends; there is no result if the process ends. -/
def getAlarmListReqHandle (files : AlarmFiles) (nStartTime nEndTime : ℕ) :
    Option (List AlarmListResp) :=
  let l := listAlarmallLog files (getAlarmlogNumber files) nStartTime nEndTime
  if l.crashed then none
  else if l.table.length = 0 then some [⟨0, 0, 1, 0, []⟩]
  else sendAlarms l.table l.table.length 0

/-! ## What the client should get -/

/-- The texts of the files that are there, the older one first. -/
def AlarmFiles.texts (files : AlarmFiles) : List (List Char) :=
  files.alarmfile1.toList ++ files.alarmfile.toList

/-- The entry of a well-formed line: a time and an event type with `=` between them, both decimal
numbers that an `int` holds, in a line that the buffer holds. -/
def logEntry (l : List Char) : Option AlarmLog :=
  let text := l.takeWhile (· ≠ '\n')
  let time := leadingDigits text
  match text.dropWhile Char.isDigit with
  | '=' :: eventType =>
      if time ≠ [] ∧ eventType ≠ [] ∧ eventType.all Char.isDigit ∧ text.length < patternRoom
          ∧ Nat.ofDigitChars 10 time 0 < 2147483648
          ∧ Nat.ofDigitChars 10 eventType 0 < 2147483648 then
        some ⟨Nat.ofDigitChars 10 time 0, Nat.ofDigitChars 10 eventType 0⟩
      else none
  | _ => none

/-- The entries of the window, in the order of the files. -/
def alarmsInWindow (files : AlarmFiles) (nStartTime nEndTime : ℕ) : List AlarmLog :=
  ((files.texts.flatMap rawLines).filterMap logEntry).filter
    (AlarmLog.InWindow nStartTime nEndTime)

/-- The table is not overrun, and the responses carry exactly the entries of the window. -/
structure ListsAlarms (files : AlarmFiles) (nStartTime nEndTime : ℕ) : Prop where
  inside : (listAlarmallLog files (getAlarmlogNumber files) nStartTime nEndTime).table.length
    ≤ getAlarmlogNumber files
  sent : ∃ resps, getAlarmListReqHandle files nStartTime nEndTime = some resps
    ∧ resps.flatMap AlarmListResp.stalarm = alarmsInWindow files nStartTime nEndTime
    ∧ (∀ r ∈ resps, r.total = (alarmsInWindow files nStartTime nEndTime).length)
    ∧ resps.map AlarmListResp.endflag = List.replicate (resps.length - 1) 0 ++ [1]

/-- What is read at once is blank. -/
def BlankPattern (p : List Char) : Prop := p.head? = some '\n' ∨ p.head? = some '\x00'

/-- No read is blank. -/
def NoneBlank (files : AlarmFiles) : Prop :=
  ∀ p ∈ files.texts.flatMap (pieces patternRoom), ¬ BlankPattern p

/-- No piece of a line that is not well-formed is taken for an entry of the window. -/
def OnlyEntries (files : AlarmFiles) (nStartTime nEndTime : ℕ) : Prop :=
  ∀ l ∈ files.texts.flatMap rawLines, logEntry l = none →
    ∀ p ∈ pieces patternRoom l, ∀ e, logPattern p = some (some e) →
      ¬ e.InWindow nStartTime nEndTime

/-! ## Both passes read the pieces of the files -/

theorem countFile_some {s p : List Char} {fp : Stream}
    (h : fgets patternRoom ⟨s, false⟩ = (some p, fp)) (index : ℕ) :
    countFile ⟨s, false⟩ index = countFile fp (index + 1) := by
  rw [countFile, dif_neg Bool.false_ne_true]
  split
  · rename_i hnone
    rw [h] at hnone
    cases hnone
  · rename_i hsome
    rw [h] at hsome
    cases hsome
    rfl

theorem countFile_eof (s : List Char) (index : ℕ) : countFile ⟨s, true⟩ index = index := by
  rw [countFile, dif_pos rfl]

theorem countFile_nil (index : ℕ) : countFile ⟨[], false⟩ index = index := by
  rw [countFile, dif_neg Bool.false_ne_true]
  split
  · rename_i hnone
    cases hnone
    exact countFile_eof [] index
  · rename_i hsome
    cases hsome

/-- The first pass counts the pieces. -/
theorem countFile_eq (s : List Char) (eof : Bool) (heof : eof = true → s = []) (index : ℕ) :
    countFile ⟨s, eof⟩ index = index + (pieces patternRoom s).length := by
  induction hn : s.length using Nat.strong_induction_on generalizing s eof index with
  | _ n ih =>
    cases eof with
    | true =>
      rw [countFile_eof, heof rfl, pieces_nil]
      rfl
    | false =>
      by_cases hs : s = []
      · rw [hs, countFile_nil, pieces_nil]
        rfl
      · obtain ⟨eof', heof', hread⟩ := fgets_of_ne_nil patternRoom hs
        have hlt := length_line_lt (show 0 < patternRoom by decide) hs
        rw [countFile_some hread, ih _ (hn ▸ hlt) _ eof' heof' (index + 1) rfl,
          pieces_of_ne_nil (by decide) hs, List.length_cons]
        omega

theorem getAlarmlogNumber_eq (files : AlarmFiles) :
    getAlarmlogNumber files = (files.texts.flatMap (pieces patternRoom)).length := by
  obtain ⟨f1, f⟩ := files
  cases f1 <;> cases f <;> simp [getAlarmlogNumber, AlarmFiles.texts, countFile_eq]

section Passes

variable {maxAlarmNum nStartTime nEndTime : ℕ}

/-- The patterns of a list one after the other. -/
def listPieces (maxAlarmNum nStartTime nEndTime : ℕ) :
    List (List Char) → List AlarmLog → Listing
  | [], table => ⟨table, false⟩
  | p :: ps, table =>
      let l := listPattern maxAlarmNum nStartTime nEndTime table p
      if l.crashed then l else listPieces maxAlarmNum nStartTime nEndTime ps l.table

theorem listPieces_append (ps qs : List (List Char)) (table : List AlarmLog) :
    listPieces maxAlarmNum nStartTime nEndTime (ps ++ qs) table
      = if (listPieces maxAlarmNum nStartTime nEndTime ps table).crashed then
          listPieces maxAlarmNum nStartTime nEndTime ps table
        else listPieces maxAlarmNum nStartTime nEndTime qs
          (listPieces maxAlarmNum nStartTime nEndTime ps table).table := by
  induction ps generalizing table with
  | nil => rfl
  | cons p ps ih =>
    rw [List.cons_append, listPieces, listPieces]
    by_cases hcrashed : (listPattern maxAlarmNum nStartTime nEndTime table p).crashed = true
    · rw [if_pos hcrashed, if_pos hcrashed, if_pos hcrashed]
    · rw [if_neg hcrashed, if_neg hcrashed, ih]

theorem fgetsTwice_of_ne_nil {s : List Char} (hs : s ≠ []) :
    ∃ eof, (eof = true → (line patternRoom s).2 = [])
      ∧ fgetsTwice ⟨s, false⟩
        = (some (line patternRoom s).1, ⟨(line patternRoom s).2, eof⟩) := by
  obtain ⟨eof, heof, hread⟩ := fgets_of_ne_nil patternRoom hs
  refine ⟨eof, heof, ?_⟩
  rw [fgetsTwice, hread]

theorem listFile_some {s p : List Char} {fp : Stream}
    (h : fgetsTwice ⟨s, false⟩ = (some p, fp)) (table : List AlarmLog) :
    listFile maxAlarmNum nStartTime nEndTime ⟨s, false⟩ table
      = let l := listPattern maxAlarmNum nStartTime nEndTime table p
        if l.crashed then l else listFile maxAlarmNum nStartTime nEndTime fp l.table := by
  rw [listFile, if_neg Bool.false_ne_true]
  split
  · rename_i hnone
    rw [h] at hnone
    cases hnone
  · rename_i hsome
    rw [h] at hsome
    cases hsome
    rfl

theorem listFile_nil (eof : Bool) (table : List AlarmLog) :
    listFile maxAlarmNum nStartTime nEndTime ⟨[], eof⟩ table = ⟨table, false⟩ := by
  rw [listFile]
  split
  · rfl
  · split
    · rfl
    · rename_i hsome
      cases hsome

/-- The second pass goes through the pieces too. -/
theorem listFile_eq (s : List Char) (eof : Bool) (heof : eof = true → s = [])
    (table : List AlarmLog) :
    listFile maxAlarmNum nStartTime nEndTime ⟨s, eof⟩ table
      = listPieces maxAlarmNum nStartTime nEndTime (pieces patternRoom s) table := by
  induction hn : s.length using Nat.strong_induction_on generalizing s eof table with
  | _ n ih =>
    by_cases hs : s = []
    · rw [hs, listFile_nil, pieces_nil]
      rfl
    · obtain rfl : eof = false := by
        rw [← Bool.not_eq_true]
        exact fun h => hs (heof h)
      obtain ⟨eof', heof', hread⟩ := fgetsTwice_of_ne_nil hs
      have hlt := length_line_lt (show 0 < patternRoom by decide) hs
      rw [listFile_some hread, pieces_of_ne_nil (by decide) hs, listPieces]
      dsimp only
      split
      · rfl
      · exact ih _ (hn ▸ hlt) _ eof' heof' _ rfl

theorem listAlarmallLog_eq (files : AlarmFiles) :
    listAlarmallLog files maxAlarmNum nStartTime nEndTime
      = listPieces maxAlarmNum nStartTime nEndTime (files.texts.flatMap (pieces patternRoom)) [] := by
  obtain ⟨f1, f⟩ := files
  cases f1 with
  | none =>
    cases f <;> simp [listAlarmallLog, AlarmFiles.texts, listFile_eq, listPieces]
  | some s1 =>
    cases f with
    | none =>
      simp [listAlarmallLog, AlarmFiles.texts, listFile_eq]
    | some s =>
      simp [listAlarmallLog, AlarmFiles.texts, listFile_eq, listPieces_append]

theorem length_listPattern_le {table : List AlarmLog} (h : table.length ≤ maxAlarmNum)
    (p : List Char) :
    (listPattern maxAlarmNum nStartTime nEndTime table p).table.length ≤ maxAlarmNum := by
  unfold listPattern
  split
  · exact h
  · exact h
  · split
    · rename_i hroom
      rw [List.length_append]
      exact hroom.2
    · exact h

/-- The table is never overrun. -/
theorem length_listPieces_le (ps : List (List Char)) {table : List AlarmLog}
    (h : table.length ≤ maxAlarmNum) :
    (listPieces maxAlarmNum nStartTime nEndTime ps table).table.length ≤ maxAlarmNum := by
  induction ps generalizing table with
  | nil => exact h
  | cons p ps ih =>
    rw [listPieces]
    split
    · exact length_listPattern_le h p
    · exact ih (length_listPattern_le h p)

/-- The entry that a piece is taken for. -/
def pieceEntry (p : List Char) : Option AlarmLog := (logPattern p).join

/-- The entries of the window that the pieces are taken for. -/
def piecesInWindow (nStartTime nEndTime : ℕ) (ps : List (List Char)) : List AlarmLog :=
  (ps.filterMap pieceEntry).filter (AlarmLog.InWindow nStartTime nEndTime)

theorem piecesInWindow_append (ps qs : List (List Char)) :
    piecesInWindow nStartTime nEndTime (ps ++ qs)
      = piecesInWindow nStartTime nEndTime ps ++ piecesInWindow nStartTime nEndTime qs := by
  rw [piecesInWindow, List.filterMap_append, List.filter_append, piecesInWindow, piecesInWindow]

theorem listPattern_eq {table : List AlarmLog} (h : table.length < maxAlarmNum) {p : List Char}
    (hp : logPattern p ≠ none) :
    listPattern maxAlarmNum nStartTime nEndTime table p
      = ⟨table ++ piecesInWindow nStartTime nEndTime [p], false⟩ := by
  unfold listPattern piecesInWindow pieceEntry
  match hlog : logPattern p, hp with
  | some none, _ => simp [hlog]
  | some (some e), _ =>
    by_cases he : e.InWindow nStartTime nEndTime
    · simp [hlog, he, h]
    · simp [hlog, he]

/-- While every piece has a token and the table has room for all of them, it gets the entries of the
window. -/
theorem listPieces_eq (ps : List (List Char)) {table : List AlarmLog}
    (hps : ∀ p ∈ ps, logPattern p ≠ none) (h : table.length + ps.length ≤ maxAlarmNum) :
    listPieces maxAlarmNum nStartTime nEndTime ps table
      = ⟨table ++ piecesInWindow nStartTime nEndTime ps, false⟩ := by
  induction ps generalizing table with
  | nil => simp [listPieces, piecesInWindow]
  | cons p ps ih =>
    rw [List.length_cons] at h
    have hone : (piecesInWindow nStartTime nEndTime [p]).length ≤ 1 :=
      (List.length_filter_le _ _).trans (List.length_filterMap_le _ _)
    rw [listPieces, listPattern_eq (by omega) (hps p List.mem_cons_self)]
    dsimp only
    rw [if_neg Bool.false_ne_true, ih (fun q hq => hps q (List.mem_cons_of_mem p hq)),
      List.append_assoc, ← piecesInWindow_append, List.singleton_append]
    rw [List.length_append]
    omega

/-- A piece without a token ends the process. -/
theorem listPieces_crashed (ps : List (List Char)) {p : List Char} (hp : p ∈ ps)
    (hnone : logPattern p = none) (table : List AlarmLog) :
    (listPieces maxAlarmNum nStartTime nEndTime ps table).crashed = true := by
  induction ps generalizing table with
  | nil => cases hp
  | cons q ps ih =>
    rw [listPieces]
    split
    · rename_i hcrashed
      exact hcrashed
    · rename_i hgoes
      rcases List.mem_cons.mp hp with rfl | hp
      · refine absurd ?_ hgoes
        rw [listPattern, hnone]
      · exact ih hp _

end Passes

/-- A piece has no token exactly when it is blank. -/
theorem logPattern_eq_none_iff {room : ℕ} {s p : List Char} (hp : p ∈ pieces room s) :
    logPattern p = none ↔ BlankPattern p := by
  obtain ⟨hne, t, ht, hshape⟩ := pieces_shape hp
  have hnone : logPattern p = none ↔ strtok '\n' (cString p) = none := by
    unfold logPattern
    cases strtok '\n' (cString p) <;> simp
  rw [hnone, strtok_eq_none_iff]
  match p, hne with
  | c :: p, _ =>
    by_cases hzero : c = '\x00'
    · subst hzero
      refine iff_of_true ?_ (Or.inr rfl)
      simp [cString]
    · have hstring : cString (c :: p) = c :: cString p :=
        List.takeWhile_cons_of_pos (by simpa using hzero)
      rw [hstring]
      constructor
      · intro h
        exact Or.inl (congrArg some (h c List.mem_cons_self))
      · rintro (h | h)
        · -- a newline is the end of its piece
          obtain rfl := Option.some.inj h
          have hend : p = [] := by
            rcases hshape with rfl | heq
            · exact absurd List.mem_cons_self ht
            · cases t with
              | nil => exact (List.cons.inj heq).2
              | cons d t =>
                obtain ⟨rfl, -⟩ := List.cons.inj heq
                exact absurd List.mem_cons_self ht
          rw [hend]
          simp [cString]
        · exact absurd (Option.some.inj h) hzero

/-! ## The entries of well-formed lines -/

/-- What a well-formed line looks like. -/
theorem of_logEntry {l : List Char} {e : AlarmLog} (h : logEntry l = some e) :
    ∃ time eventType, l.takeWhile (· ≠ '\n') = time ++ '=' :: eventType
      ∧ Digits time ∧ time ≠ [] ∧ Digits eventType ∧ eventType ≠ []
      ∧ (time ++ '=' :: eventType).length < patternRoom
      ∧ Nat.ofDigitChars 10 time 0 < 2147483648 ∧ Nat.ofDigitChars 10 eventType 0 < 2147483648
      ∧ e = ⟨Nat.ofDigitChars 10 time 0, Nat.ofDigitChars 10 eventType 0⟩ := by
  unfold logEntry at h
  dsimp only at h
  split at h
  · rename_i eventType hdrop
    split at h
    · rename_i hcond
      obtain ⟨hne, hne', hdigits, hlen, htime, htype⟩ := hcond
      have hsplit : leadingDigits (l.takeWhile (· ≠ '\n')) ++ '=' :: eventType
          = l.takeWhile (· ≠ '\n') := by
        rw [← hdrop]
        exact List.takeWhile_append_dropWhile
      refine ⟨leadingDigits (l.takeWhile (· ≠ '\n')), eventType, hsplit.symm, ?_, hne, ?_, hne',
        ?_, htime, htype, (Option.some.inj h).symm⟩
      · exact fun c hc => List.all_eq_true.mp List.all_takeWhile c hc
      · exact fun c hc => List.all_eq_true.mp hdigits c hc
      · rwa [hsplit]
    · cases h
  · cases h

theorem not_mem_of_digits {s : List Char} (hs : Digits s) {c : Char} (hc : c.isDigit = false) :
    c ∉ s := fun h => by
  have := hs c h
  rw [hc] at this
  cases this

/-- What is read of digits that make a number of an `int`. -/
theorem atoi_digits {s : List Char} (hs : Digits s) (hne : s ≠ [])
    (hlt : Nat.ofDigitChars 10 s 0 < 2147483648) : atoi s = Nat.ofDigitChars 10 s 0 := by
  have hread := strtol_digits_append hs hne (t := []) (fun c hc => nomatch hc)
  rw [List.append_nil] at hread
  rw [atoi, hread]
  omega

theorem logPattern_of_token {t l : List Char} (htoken : ∃ rest, strtok '\n' (cString l) = some (t, rest))
    {time eventType : List Char} (ht : t = time ++ '=' :: eventType) (hd : Digits time)
    (hne : time ≠ []) (hd' : Digits eventType) (hne' : eventType ≠ []) :
    logPattern l = some (some ⟨(atoi time % 4294967296).toNat, atoi eventType⟩) := by
  obtain ⟨rest, htoken⟩ := htoken
  have htime : strtok '=' (time ++ '=' :: eventType) = some (time, eventType) :=
    strtok_append hne (not_mem_of_digits hd (by decide)) eventType
  have htype : strtok '=' eventType = some (eventType, []) :=
    strtok_of_not_mem hne' (not_mem_of_digits hd' (by decide))
  rw [← ht] at htime
  unfold logPattern
  rw [htoken]
  simp [htime, htype]

/-- A well-formed line is its only piece, and is taken for its entry. -/
theorem piece_of_logEntry {s l : List Char} (hl : l ∈ rawLines s) {e : AlarmLog}
    (h : logEntry l = some e) : pieces patternRoom l = [l] ∧ pieceEntry l = some e := by
  obtain ⟨time, eventType, htext, hd, hne, hd', hne', hlen, htime, htype, rfl⟩ := of_logEntry h
  obtain ⟨t, ht, hshape⟩ := mem_rawLines hl
  have hall : ∀ c ∈ t, decide (c ≠ '\n') = true :=
    fun c hc => decide_eq_true fun h => ht (h ▸ hc)
  have ht_eq : t = time ++ '=' :: eventType := by
    rw [← htext]
    rcases hshape with ⟨rfl, -⟩ | rfl
    · exact (List.takeWhile_eq_self_iff.mpr hall).symm
    · rw [List.takeWhile_append_of_pos hall]
      simp
  have htne : t ≠ [] := by
    rw [ht_eq]
    simp
  have hzero : '\x00' ∉ t := by
    rw [ht_eq, List.mem_append, List.mem_cons]
    rintro (h | h | h)
    · exact not_mem_of_digits hd (by decide) h
    · exact absurd h (by decide)
    · exact not_mem_of_digits hd' (by decide) h
  have hstring : cString l = l := by
    refine List.takeWhile_eq_self_iff.mpr fun c hc => decide_eq_true ?_
    rintro rfl
    rcases hshape with ⟨rfl, -⟩ | rfl
    · exact hzero hc
    · rcases List.mem_append.mp hc with hc | hc
      · exact hzero hc
      · exact absurd (List.mem_singleton.mp hc) (by decide)
  rw [← ht_eq] at hlen
  have hentry : ∃ rest, strtok '\n' (cString l) = some (t, rest) := by
    rw [hstring]
    rcases hshape with ⟨rfl, -⟩ | rfl
    · exact ⟨_, strtok_of_not_mem htne ht⟩
    · exact ⟨_, strtok_append htne ht []⟩
  constructor
  · rcases hshape with ⟨rfl, -⟩ | rfl
    · exact pieces_of_end ht htne hlen.le
    · exact pieces_of_lt ht hlen
  · rw [pieceEntry, logPattern_of_token hentry ht_eq hd hne hd' hne', atoi_digits hd hne htime,
      atoi_digits hd' hne' htype]
    have hmod : ((Nat.ofDigitChars 10 time 0 : ℤ) % 4294967296).toNat
        = Nat.ofDigitChars 10 time 0 := by omega
    rw [hmod]
    rfl

/-! ## When exactly the entries are sent -/

/-- Two ways to make lists of the same things, of which the second never makes more, make the same
list when they agree on each. -/
theorem flatMap_eq_iff {α β : Type} {f g : α → List β} (as : List α)
    (h : ∀ a ∈ as, f a = g a ∨ g a = []) :
    as.flatMap f = as.flatMap g ↔ ∀ a ∈ as, f a = g a := by
  have hle : ∀ bs : List α, (∀ a ∈ bs, f a = g a ∨ g a = []) →
      (bs.flatMap g).length ≤ (bs.flatMap f).length := by
    intro bs hbs
    induction bs with
    | nil => exact le_rfl
    | cons b bs ih =>
      have ih := ih fun a ha => hbs a (List.mem_cons_of_mem b ha)
      rw [List.flatMap_cons, List.flatMap_cons, List.length_append, List.length_append]
      rcases hbs b List.mem_cons_self with hb | hb
      · rw [hb]
        omega
      · rw [hb, List.length_nil]
        omega
  induction as with
  | nil => simp
  | cons a as ih =>
    have htail : ∀ b ∈ as, f b = g b ∨ g b = [] := fun b hb => h b (List.mem_cons_of_mem a hb)
    have ih := ih htail
    rw [List.flatMap_cons, List.flatMap_cons, List.forall_mem_cons]
    constructor
    · intro heq
      rcases h a List.mem_cons_self with ha | ha
      · rw [ha] at heq
        exact ⟨ha, ih.mp (List.append_cancel_left heq)⟩
      · have hlen := congrArg List.length heq
        have := hle as htail
        rw [ha, List.nil_append, List.length_append] at hlen
        have hnil : f a = [] := List.length_eq_zero_iff.mp (by omega)
        rw [hnil, ha] at heq
        exact ⟨hnil.trans ha.symm, ih.mp heq⟩
    · rintro ⟨ha, hrest⟩
      rw [ha, ih.mpr hrest]

/-- The responses of a table. -/
def alarmResp (tmp : List AlarmLog) (c : Cut) : AlarmListResp where
  total := tmp.length
  index := UInt8.ofNat c.index
  endflag := if c.last then 1 else 0
  count := UInt8.ofNat c.count
  stalarm := (tmp.drop (c.index * onePackAlarmNum)).take c.count

theorem sendAlarms_eq (tmp : List AlarmLog) (left index : ℕ) (hpos : 0 < left)
    (hroom : index * onePackAlarmNum + left ≤ tmp.length) :
    sendAlarms tmp left index = some ((cuts onePackAlarmNum left index).map (alarmResp tmp)) := by
  induction hn : left using Nat.strong_induction_on generalizing left index with
  | _ n ih =>
    rw [sendAlarms, ← hn, if_pos hpos]
    by_cases hlt : left > onePackAlarmNum
    · have hindex : (index + 1) * onePackAlarmNum = index * onePackAlarmNum + onePackAlarmNum :=
        Nat.succ_mul ..
      have hfull : 0 < onePackAlarmNum := by decide
      have hrest := ih (left - onePackAlarmNum) (by omega) (left - onePackAlarmNum) (index + 1)
        (by omega) (by omega) rfl
      simp only [if_pos hlt]
      rw [entries_eq tmp _ _ (by omega), hrest, cuts_of_lt hfull hlt]
      simp [alarmResp]
    · simp only [if_neg hlt]
      have hend : sendAlarms tmp 0 (index + 1) = some [] := by
        rw [sendAlarms, if_neg (by omega)]
      rw [entries_eq tmp _ _ (by omega), Nat.sub_self, hend, cuts_of_le hpos (by omega)]
      simp [alarmResp]

section Window

variable {nStartTime nEndTime : ℕ}

theorem piecesInWindow_flatMap (ls : List (List Char)) :
    piecesInWindow nStartTime nEndTime (ls.flatMap (pieces patternRoom))
      = ls.flatMap fun l => piecesInWindow nStartTime nEndTime (pieces patternRoom l) := by
  induction ls with
  | nil => rfl
  | cons l ls ih => rw [List.flatMap_cons, piecesInWindow_append, ih, List.flatMap_cons]

theorem piecesInWindow_eq_nil_iff (ps : List (List Char)) :
    piecesInWindow nStartTime nEndTime ps = []
      ↔ ∀ p ∈ ps, ∀ e, logPattern p = some (some e) → ¬ e.InWindow nStartTime nEndTime := by
  rw [piecesInWindow, List.filter_eq_nil_iff]
  constructor
  · intro h p hp e he hin
    refine h e (List.mem_filterMap.mpr ⟨p, hp, ?_⟩) (decide_eq_true hin)
    rw [pieceEntry, he]
    rfl
  · intro h e he hin
    obtain ⟨p, hp, hentry⟩ := List.mem_filterMap.mp he
    exact h p hp e (Option.join_eq_some_iff.mp hentry) (of_decide_eq_true hin)

theorem mem_lines {files : AlarmFiles} {l : List Char} (hl : l ∈ files.texts.flatMap rawLines) :
    ∃ s, l ∈ rawLines s := by
  obtain ⟨s, -, hs⟩ := List.mem_flatMap.mp hl
  exact ⟨s, hs⟩

/-- The pieces make exactly the entries of the window when no other line makes one. -/
theorem piecesInWindow_iff (files : AlarmFiles) :
    piecesInWindow nStartTime nEndTime (files.texts.flatMap (pieces patternRoom))
        = alarmsInWindow files nStartTime nEndTime
      ↔ OnlyEntries files nStartTime nEndTime := by
  have hpieces : files.texts.flatMap (pieces patternRoom)
      = (files.texts.flatMap rawLines).flatMap (pieces patternRoom) := by
    rw [List.flatMap_assoc]
    congr 1
    funext s
    exact pieces_eq (by decide) s
  have hentries : alarmsInWindow files nStartTime nEndTime
      = (files.texts.flatMap rawLines).flatMap fun l =>
        (logEntry l).toList.filter (AlarmLog.InWindow nStartTime nEndTime) := by
    rw [alarmsInWindow, List.filterMap_eq_flatMap_toList, List.filter_flatMap]
  have hwell : ∀ l ∈ files.texts.flatMap rawLines, ∀ e, logEntry l = some e →
      piecesInWindow nStartTime nEndTime (pieces patternRoom l)
        = (logEntry l).toList.filter (AlarmLog.InWindow nStartTime nEndTime) := by
    intro l hl e he
    obtain ⟨s, hs⟩ := mem_lines hl
    obtain ⟨hone, hentry⟩ := piece_of_logEntry hs he
    rw [hone, he, piecesInWindow, List.filterMap_cons_some hentry, List.filterMap_nil]
    rfl
  rw [hpieces, piecesInWindow_flatMap, hentries, flatMap_eq_iff]
  · refine forall₂_congr fun l hl => ?_
    cases he : logEntry l with
    | none =>
      rw [← piecesInWindow_eq_nil_iff]
      exact ⟨fun h _ => h, fun h => h rfl⟩
    | some e =>
      rw [hwell l hl e he, he]
      exact iff_of_true rfl nofun
  · intro l hl
    cases he : logEntry l with
    | none => exact Or.inr rfl
    | some e => exact Or.inl (he ▸ hwell l hl e he)

/-- What is sent for a table. -/
theorem sent_of_table (tmp : List AlarmLog) :
    ∃ resps, (if tmp.length = 0 then some [⟨0, 0, 1, 0, []⟩] else sendAlarms tmp tmp.length 0)
        = some resps
      ∧ resps.flatMap AlarmListResp.stalarm = tmp ∧ (∀ r ∈ resps, r.total = tmp.length)
      ∧ resps.map AlarmListResp.endflag = List.replicate (resps.length - 1) 0 ++ [1] := by
  by_cases hnil : tmp.length = 0
  · rw [if_pos hnil]
    refine ⟨_, rfl, ?_, ?_, rfl⟩
    · rw [List.length_eq_zero_iff.mp hnil]
      rfl
    · intro r hr
      rw [List.mem_singleton.mp hr, hnil]
  · rw [if_neg hnil, sendAlarms_eq tmp _ 0 (by omega) (by omega)]
    refine ⟨_, rfl, ?_, ?_, ?_⟩
    · rw [List.flatMap_map]
      exact flatMap_cuts tmp onePackAlarmNum
    · intro r hr
      obtain ⟨c, -, rfl⟩ := List.mem_map.mp hr
      rfl
    · have hmap : ((cuts onePackAlarmNum tmp.length 0).map (alarmResp tmp)).map
            AlarmListResp.endflag
          = ((cuts onePackAlarmNum tmp.length 0).map Cut.last).map fun b => if b then 1 else 0 := by
        rw [List.map_map, List.map_map]
        rfl
      rw [hmap, map_last_cuts, List.map_append, List.map_replicate, List.length_map]
      rfl

/-- A blank read ends the process. -/
theorem handle_of_blank {files : AlarmFiles} {p : List Char}
    (hp : p ∈ files.texts.flatMap (pieces patternRoom)) (hblank : BlankPattern p) :
    getAlarmListReqHandle files nStartTime nEndTime = none := by
  obtain ⟨s, -, hs⟩ := List.mem_flatMap.mp hp
  have hcrashed : (listPieces (getAlarmlogNumber files) nStartTime nEndTime
      (files.texts.flatMap (pieces patternRoom)) []).crashed = true :=
    listPieces_crashed _ hp ((logPattern_eq_none_iff hs).mpr hblank) []
  rw [getAlarmListReqHandle, listAlarmallLog_eq, if_pos hcrashed]

theorem noneBlank_of_sent {files : AlarmFiles} {resps : List AlarmListResp}
    (h : getAlarmListReqHandle files nStartTime nEndTime = some resps) : NoneBlank files := by
  intro p hp hblank
  rw [handle_of_blank hp hblank] at h
  cases h

/-- Without a blank read, what the pieces make is sent. -/
theorem handle_of_noneBlank {files : AlarmFiles} (h : NoneBlank files) (nStartTime nEndTime : ℕ) :
    ∃ resps, getAlarmListReqHandle files nStartTime nEndTime = some resps
      ∧ resps.flatMap AlarmListResp.stalarm
        = piecesInWindow nStartTime nEndTime (files.texts.flatMap (pieces patternRoom))
      ∧ (∀ r ∈ resps, r.total
        = (piecesInWindow nStartTime nEndTime (files.texts.flatMap (pieces patternRoom))).length)
      ∧ resps.map AlarmListResp.endflag = List.replicate (resps.length - 1) 0 ++ [1] := by
  have htokens : ∀ p ∈ files.texts.flatMap (pieces patternRoom), logPattern p ≠ none := by
    intro p hp hnone
    obtain ⟨s, -, hs⟩ := List.mem_flatMap.mp hp
    exact h p hp ((logPattern_eq_none_iff hs).mp hnone)
  have hlisting : listPieces (getAlarmlogNumber files) nStartTime nEndTime
      (files.texts.flatMap (pieces patternRoom)) []
        = ⟨piecesInWindow nStartTime nEndTime (files.texts.flatMap (pieces patternRoom)), false⟩ :=
    listPieces_eq _ htokens (by rw [getAlarmlogNumber_eq, List.length_nil, Nat.zero_add])
  rw [getAlarmListReqHandle, listAlarmallLog_eq, hlisting, if_neg Bool.false_ne_true]
  exact sent_of_table _

/-- The table is never overrun, and exactly the entries of the window are sent, when no read is
blank and no piece of another line is taken for an entry of the window. -/
theorem alarm_list_iff (files : AlarmFiles) (nStartTime nEndTime : ℕ) :
    ListsAlarms files nStartTime nEndTime
      ↔ NoneBlank files ∧ OnlyEntries files nStartTime nEndTime := by
  constructor
  · rintro ⟨-, resps, hsent, hall, -, -⟩
    have hblank := noneBlank_of_sent hsent
    obtain ⟨resps', hsent', hall', -, -⟩ := handle_of_noneBlank hblank nStartTime nEndTime
    obtain rfl := Option.some.inj (hsent.symm.trans hsent')
    exact ⟨hblank, (piecesInWindow_iff files).mp (hall'.symm.trans hall)⟩
  · rintro ⟨hblank, honly⟩
    obtain ⟨resps, hsent, hall, htotal, hend⟩ := handle_of_noneBlank hblank nStartTime nEndTime
    rw [(piecesInWindow_iff files).mpr honly] at hall htotal
    refine ⟨?_, resps, hsent, hall, htotal, hend⟩
    rw [listAlarmallLog_eq]
    exact length_listPieces_le _ (Nat.zero_le _)

end Window

/-- A blank line in the newer file ends the process. -/
theorem alarm_list_not_complete :
    ¬ ∀ files nStartTime nEndTime, ListsAlarms files nStartTime nEndTime := by
  intro h
  obtain ⟨resps, hsent, -⟩ := (h ⟨none, some ['\n']⟩ 0 10).sent
  have hread : pieces patternRoom ['\n'] = [['\n']] :=
    pieces_of_lt (t := []) List.not_mem_nil (by decide)
  refine noneBlank_of_sent hsent ['\n'] ?_ (Or.inl rfl)
  rw [AlarmFiles.texts, List.flatMap_append]
  simp [hread]
