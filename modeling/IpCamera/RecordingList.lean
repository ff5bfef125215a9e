/-
# The app's list of recordings (`danale_history_recordplay_list`)

The app asks for the recordings of a day from some moment on, and for the recording that covers
a moment.  Both searches go through the directory of the day and read start and length of
a recording at fixed places of its name.

The list is counted from an uninitialised number and may have one entry more than the app asked
for.  `recordings_exact_iff` tells from the names in the directory when both answers are
right, and `readNode_finishedName` which names are read right.
-/
import IpCamera.CleanUp

open CString

/-! ## Reading a name -/

/-- `NodeIndex`, without the type of the recording, which is not set. -/
structure NodeIndex where
  uiStartTime : ℤ
  uiDurations : ℕ
  deriving DecidableEq, Repr

/-- An entry that both searches look at. -/
def Dirent.isRecordEntry (ent : Dirent) : Bool :=
  ent.hasRegBit && !ent.isDots && isAviDirFormat ent.d_name

/-- `dana_fileNode`; the two buffers are cleared before. -/
def readNode (d_name : List Char) : NodeIndex where
  uiStartTime := atoll ((aviSubstring d_name 0 10).getD [])
  uiDurations := (atoi ((aviSubstring d_name 11 (11 + 3)).getD []) % 4294967296).toNat

/-! ## The list -/

/-- `libdanavideo_reclist_recordinfo_t` -/
structure RecordInfo where
  startTime : ℤ
  length : ℕ
  recordType : ℕ
  deriving DecidableEq, Repr

/-- The counter and the table, with the places written so far. -/
structure RecListState where
  counter : ℤ
  recLists : ℤ → RecordInfo
  written : List ℤ

/-- One more entry. -/
def RecListState.push (s : RecListState) (info : RecordInfo) : RecListState where
  counter := s.counter + 1
  recLists := Function.update s.recLists s.counter info
  written := s.written ++ [s.counter]

/-- The entries that are sent: as many of the table as counted. -/
def RecListState.sent (s : RecListState) : List RecordInfo :=
  (List.range s.counter.toNat).map fun i : ℕ => s.recLists i

/-! ## The lookup -/

/-- `time_stamp` is within the recording. -/
def NodeIndex.Covers (node : NodeIndex) (timeStamp : ℤ) : Prop :=
  timeStamp ≥ node.uiStartTime ∧ timeStamp < node.uiStartTime + node.uiDurations

instance (node : NodeIndex) (timeStamp : ℤ) : Decidable (node.Covers timeStamp) :=
  inferInstanceAs (Decidable (_ ∧ _))

/-- `%s/%lld-%d.avi`, in a buffer of 64 bytes. -/
def danaFileName (fullname : List Char) (node : NodeIndex) : List Char :=
  (fullname ++ '/' :: (printD node.uiStartTime ++ '-' :: (printD (toInt32 node.uiDurations)
    ++ ['.', 'a', 'v', 'i']))).take 63

/-- A finished recording in a directory, of positive length and from `lastTime` on, as it should be
listed. -/
def IsListed (ents : List Dirent) (lastTime : ℤ) (info : RecordInfo) : Prop :=
  ∃ start seconds : ℕ, (⟨dtReg, finishedName start seconds⟩ : Dirent) ∈ ents
    ∧ lastTime ≤ start ∧ 0 < seconds ∧ info = ⟨start, seconds, 1⟩

/-- The path leads to a finished recording that covers the moment. -/
def CoveredBy (card : SdCard) (timeStamp : ℤ) (path : List Char) : Prop :=
  ∃ date start seconds : ℕ, card.Finished date start seconds
    ∧ start ≤ timeStamp ∧ timeStamp < start + seconds
    ∧ path = sdPath (Nat.toDigits 10 date) ++ '/' :: finishedName start seconds

/-- What the list takes from an entry. -/
def listedInfo (lastTime : ℤ) (ent : Dirent) : Option RecordInfo :=
  let node := readNode ent.d_name
  if ent.isRecordEntry ∧ ¬(node.uiStartTime < lastTime ∨ node.uiDurations = 0) then
    some ⟨node.uiStartTime, node.uiDurations, 1⟩
  else none

/-- What the names in a directory say is to be listed; nothing is when the number asked for is
negative as an `int`. -/
def namedList (ents : List Dirent) (lastTime : ℤ) (getNum : UInt32) : List RecordInfo :=
  if getNum.toNat < 2147483648 then ents.filterMap (listedInfo lastTime) else []

/-- The names say no more than was asked for and fits the table; they say start and length of
different recordings, and of all of them or as many as were asked for. -/
structure NamesRight (ents : List Dirent) (lastTime : ℤ) (getNum : UInt32) : Prop where
  atMost : (namedList ents lastTime getNum).length ≤ min getNum.toNat 35
  nodup : (namedList ents lastTime getNum).Nodup
  listed : ∀ info ∈ namedList ents lastTime getNum, IsListed ents lastTime info
  complete : (∀ info, IsListed ents lastTime info → info ∈ namedList ents lastTime getNum)
    ∨ (namedList ents lastTime getNum).length = min getNum.toNat 35

/-- The first name that says that its recording covers the moment. -/
def firstNamed (ents : List Dirent) (timeStamp : ℤ) : Option NodeIndex :=
  ((ents.filter Dirent.isRecordEntry).map fun ent => readNode ent.d_name).find?
    fun node => node.Covers timeStamp

/-- No name in the directory says so and no recording covers the moment, or the name made from what
the first such name says is that of one which does. -/
def NameRight (card : SdCard) (day : ℤ → List Char) (timeStamp : ℤ) : Prop :=
  match firstNamed ((card.dir (day timeStamp)).getD []) timeStamp with
  | none => ∀ path, ¬CoveredBy card timeStamp path
  | some node => CoveredBy card timeStamp (danaFileName (sdPath (day timeStamp)) node)

/-! ## The loop of the list -/

variable {ents : List Dirent} {lastTime maxCount timeStamp : ℤ} {getNum : UInt32}

namespace RecListState

end RecListState

/-- Ten digits of a start and at most three of the seconds are read where they stand. -/
theorem readNode_finishedName {start seconds : ℕ} (hge : 1000000000 ≤ start)
    (hlt : start < 10000000000) (hseconds : seconds < 1000) :
    readNode (finishedName start seconds) = ⟨start, seconds⟩ := by
  set a := Nat.toDigits 10 start with ha
  set b := Nat.toDigits 10 seconds with hb
  have hlena : a.length = 10 := by
    have hle : a.length ≤ 10 := (Nat.length_toDigits_le_iff (by decide) (by decide)).mpr hlt
    have hnot : ¬a.length ≤ 9 := fun h =>
      absurd ((Nat.length_toDigits_le_iff (by decide) (by decide)).mp h) (by omega)
    omega
  have hlenb : b.length ≤ 3 := (Nat.length_toDigits_le_iff (by decide) (by decide)).mpr hseconds
  have hname : finishedName start seconds = a ++ '-' :: (b ++ ['.', 'a', 'v', 'i']) := rfl
  have hlen : (finishedName start seconds).length = b.length + 15 := by
    rw [hname]
    simp only [List.length_append, List.length_cons, List.length_nil]
    omega
  have hpos : 0 < b.length := List.length_pos_iff.mpr Nat.toDigits_ne_nil
  have hstart : aviSubstring (finishedName start seconds) 0 10 = some a := by
    rw [aviSubstring, if_neg (by omega)]
    dsimp only
    rw [if_neg (by omega), hname, List.drop_zero, List.take_left' hlena]
  have hdurations : aviSubstring (finishedName start seconds) 11 (11 + 3)
      = some (b ++ ['.', 'a', 'v', 'i'].take (3 - b.length)) := by
    have hdrop : (finishedName start seconds).drop 11 = b ++ ['.', 'a', 'v', 'i'] := by
      rw [hname, List.append_cons]
      exact List.drop_left' (by rw [List.length_append, hlena]; rfl)
    rw [aviSubstring, if_neg (by omega)]
    dsimp only
    rw [if_neg (by omega), hdrop, List.take_append, List.take_of_length_le (by omega)]
  have hstops : Stops (['.', 'a', 'v', 'i'].take (3 - b.length)) :=
    (stops_cons (by decide) _).take _
  have hreada := strtol_toDigits_append start stops_nil
  rw [List.append_nil] at hreada
  have hreadb := strtol_toDigits_append seconds hstops
  rw [readNode, hstart, hdurations, Option.getD_some, Option.getD_some,
    atoll_of_strtol hreada (by omega), atoi_of_strtol hreadb (by omega), NodeIndex.mk.injEq]
  exact ⟨rfl, by omega⟩

theorem isRecordEntry_finishedName (start seconds : ℕ) :
    (⟨dtReg, finishedName start seconds⟩ : Dirent).isRecordEntry := by
  have havi := isAviFile_finished start seconds
  rw [Dirent.isAviFile, Bool.and_eq_true] at havi
  have hminus : '-' ∈ finishedName start seconds := by simp [finishedName]
  have hdots : (⟨dtReg, finishedName start seconds⟩ : Dirent).isDots = false := by
    rw [Dirent.isDots, Bool.or_eq_false_iff, decide_eq_false_iff_not, decide_eq_false_iff_not]
    constructor
    · intro h
      change finishedName start seconds = _ at h
      rw [h] at hminus
      exact absurd hminus (by decide)
    · intro h
      change finishedName start seconds = _ at h
      rw [h] at hminus
      exact absurd hminus (by decide)
  rw [Dirent.isRecordEntry, havi.1, hdots]
  exact havi.2

/-- Every entry that the searches look at is a recording with such a name. -/
def RecorderNames (ents : List Dirent) : Prop :=
  ∀ ent ∈ ents, ent.isRecordEntry → ∃ start seconds, 1000000000 ≤ start ∧ start < 10000000000
    ∧ seconds < 1000 ∧ ent = ⟨dtReg, finishedName start seconds⟩

/-- A recording in such a directory is read right. -/
theorem RecorderNames.readNode_eq (hnames : RecorderNames ents) {start seconds : ℕ}
    (hmem : (⟨dtReg, finishedName start seconds⟩ : Dirent) ∈ ents) :
    readNode (finishedName start seconds) = ⟨start, seconds⟩ := by
  obtain ⟨start', seconds', hge, hlt, hsec, heq⟩ :=
    hnames _ hmem (isRecordEntry_finishedName start seconds)
  have hname : finishedName start seconds = finishedName start' seconds' :=
    congrArg Dirent.d_name heq
  obtain rfl := finishedName_start hname
  obtain rfl := finishedName_seconds hname
  exact readNode_finishedName hge hlt hsec

/-- With such names the list is right exactly if no more recordings are to be listed than were
asked for and fit the table. -/
theorem namesRight_of_recorderNames (hnames : RecorderNames ents) (hnodup : ents.Nodup)
    (hnum : getNum.toNat < 2147483648) : NamesRight ents lastTime getNum
      ↔ (namedList ents lastTime getNum).length ≤ min getNum.toNat 35 := by
  have hread : ∀ ent ∈ ents, ∀ info, listedInfo lastTime ent = some info →
      ∃ start seconds : ℕ, ent = ⟨dtReg, finishedName start seconds⟩ ∧ lastTime ≤ start
        ∧ 0 < seconds ∧ info = ⟨start, seconds, 1⟩ := by
    intro ent hent info hinfo
    rw [listedInfo] at hinfo
    split at hinfo
    · rename_i htake
      obtain ⟨start, seconds, -, -, -, rfl⟩ := hnames ent hent htake.1
      have htake' := htake.2
      rw [hnames.readNode_eq hent] at hinfo htake'
      rw [not_or, not_lt] at htake'
      exact ⟨start, seconds, rfl, htake'.1, Nat.pos_of_ne_zero htake'.2,
        (Option.some.inj hinfo).symm⟩
    · cases hinfo
  have hnamed : namedList ents lastTime getNum = ents.filterMap (listedInfo lastTime) := if_pos hnum
  refine ⟨fun h => h.atMost, fun hmost => ⟨hmost, ?_, ?_, Or.inl ?_⟩⟩
  · rw [hnamed, List.Nodup, List.pairwise_filterMap]
    refine hnodup.imp_of_mem fun {e e'} he he' hne info hinfo info' hinfo' heq => hne ?_
    obtain ⟨start, seconds, rfl, -, -, rfl⟩ := hread e he info hinfo
    obtain ⟨start', seconds', rfl, -, -, rfl⟩ := hread e' he' info' hinfo'
    rw [RecordInfo.mk.injEq, Nat.cast_inj] at heq
    rw [heq.1, heq.2.1]
  · intro info hinfo
    rw [hnamed] at hinfo
    obtain ⟨ent, hent, hsome⟩ := List.mem_filterMap.mp hinfo
    obtain ⟨start, seconds, rfl, hle, hpos, rfl⟩ := hread ent hent info hsome
    exact ⟨start, seconds, hent, hle, hpos, rfl⟩
  · rintro info ⟨start, seconds, hmem, hle, hpos, rfl⟩
    rw [hnamed]
    refine List.mem_filterMap.mpr ⟨_, hmem, ?_⟩
    rw [listedInfo, hnames.readNode_eq hmem, if_pos]
    refine ⟨isRecordEntry_finishedName start seconds, ?_⟩
    rw [not_or, not_lt]
    exact ⟨hle, hpos.ne'⟩

/-- The path made from what is read fits the buffer. -/
theorem danaFileName_eq {date start seconds : ℕ} (hdate : IsDate date) (hlt : start < 10000000000)
    (hseconds : seconds < 1000) : danaFileName (sdPath (Nat.toDigits 10 date)) ⟨start, seconds⟩
      = sdPath (Nat.toDigits 10 date) ++ '/' :: finishedName start seconds := by
  have hdate' := hdate.lt
  have h₁ : (Nat.toDigits 10 date).length ≤ 8 :=
    (Nat.length_toDigits_le_iff (by decide) (by decide)).mpr (by omega)
  have h₂ : (Nat.toDigits 10 start).length ≤ 10 :=
    (Nat.length_toDigits_le_iff (by decide) (by decide)).mpr hlt
  have h₃ : (Nat.toDigits 10 seconds).length ≤ 3 :=
    (Nat.length_toDigits_le_iff (by decide) (by decide)).mpr hseconds
  have hmount : grdSdMountPoint.toList.length = 12 := by decide
  rw [danaFileName]
  dsimp only
  rw [printD_natCast, toInt32_natCast (by omega), printD_natCast, finishedName,
    List.take_of_length_le]
  simp only [sdPath, List.length_append, List.length_cons, List.length_nil]
  omega

/-- With such names the lookup is right exactly if no recording covers the moment, or one in the
directory of its day does. -/
theorem nameRight_of_recorderNames {card : SdCard} {day : ℤ → List Char} {date : ℕ}
    (hday : day timeStamp = Nat.toDigits 10 date) (hdate : card.DateDir date)
    (hdir : card.dir (Nat.toDigits 10 date) = some ents) (hnames : RecorderNames ents) :
    NameRight card day timeStamp ↔ ((∃ path, CoveredBy card timeStamp path) →
      ∃ ent ∈ ents, ent.isRecordEntry ∧ (readNode ent.d_name).Covers timeStamp) := by
  rw [NameRight, hday, hdir, Option.getD_some]
  rcases hfirst : firstNamed ents timeStamp with _ | node
  · have hnot : ¬∃ ent ∈ ents, ent.isRecordEntry ∧ (readNode ent.d_name).Covers timeStamp := by
      rintro ⟨ent, hent, hrecord, hcovers⟩
      have hmem : readNode ent.d_name
          ∈ (ents.filter Dirent.isRecordEntry).map fun ent => readNode ent.d_name :=
        List.mem_map.mpr ⟨ent, List.mem_filter.mpr ⟨hent, hrecord⟩, rfl⟩
      exact List.find?_eq_none.mp hfirst _ hmem (decide_eq_true hcovers)
    constructor
    · rintro h ⟨path, hpath⟩
      exact absurd hpath (h path)
    · exact fun h path hpath => hnot (h ⟨path, hpath⟩)
  · have hcovers : node.Covers timeStamp := of_decide_eq_true
      (List.find?_some (p := fun node => decide (NodeIndex.Covers node timeStamp)) hfirst)
    obtain ⟨ent, hfilter, rfl⟩ := List.mem_map.mp (List.mem_of_find?_eq_some hfirst)
    obtain ⟨hent, hrecord⟩ := List.mem_filter.mp hfilter
    refine iff_of_true ?_ fun _ => ⟨ent, hent, hrecord, hcovers⟩
    obtain ⟨start, seconds, hge, hlt, hsec, rfl⟩ := hnames ent hent hrecord
    dsimp only at hcovers ⊢
    rw [hnames.readNode_eq hent] at hcovers ⊢
    have hfinished : card.Finished date start seconds :=
      ⟨by omega, by omega, hdate, ents, hdir, hent⟩
    refine ⟨date, start, seconds, hfinished, hcovers.1, hcovers.2, ?_⟩
    exact danaFileName_eq hdate.1 hlt hsec
