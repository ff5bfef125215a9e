/-
# The search for recordings (`avi_search_api.c`)

`search_file_by_time` looks up the date directory of a request and lists the
recordings in it that overlap the requested times.  In `add_to_list` the statement
`FLAG = 1` stands on the line of an `#endif`, where the compiler reads no code: the
directory found is never looked into.

Proved: the list is exact if and only if no recording of the channel overlaps
(`search_exact_iff`).

Memory is taken to suffice; a name that overruns a buffer, or whose times are not in
it, has no result.
-/
import IpCamera.SdCard

open CString

/-! ## The list -/

/-- `FILE_NODE` -/
structure FileNode where
  path : List Char
  start : ℕ
  stop : ℕ
  deriving DecidableEq, Repr

/-- `FILE_LIST`; `nodes` are those behind the head node. -/
structure FileList where
  type : ℕ
  chNum : ℕ
  start : ℕ
  stop : ℕ
  nodes : List FileNode
  len : ℕ
  index : ℕ
  deriving DecidableEq, Repr

/-- `creat_empty_list` -/
def creatEmptyList (type chNum start stop : ℕ) : FileList where
  type := type
  chNum := chNum
  start := start
  stop := stop
  nodes := []
  len := 0
  index := 0

/-- The loop of `insert_node`: `p` before the first node that starts later, nothing where one
starts at the same time. -/
def insertByStart (p : FileNode) : List FileNode → Option (List FileNode)
  | [] => some [p]
  | q :: qs =>
      if q.start < p.start then (insertByStart p qs).map (q :: ·)
      else if q.start = p.start then none
      else some (p :: q :: qs)

/-- `insert_node` -/
def insertNode (list : FileList) (filePath : List Char) : Option FileList :=
  let i := lastIndexAt filePath '/' filePath.length
  let fileName := filePath.drop (i + 1).toNat
  (aviGetStartTime fileName).bind fun start =>
    (aviGetStopTime fileName).map fun stop =>
      match insertByStart ⟨filePath, start, stop⟩ list.nodes with
      | none => list
      | some nodes => { list with nodes := nodes, len := list.len + 1 }

/-! ## The directories -/

/-- The loop of `add_file_to_list`.  `timeStop64` is carried from one file to the next. -/
def addFiles (chNum begin stop : ℕ) (dirPath : List Char) (ignoreType : Bool) :
    List Dirent → (timeStop64 : ℕ) → FileList → Option FileList
  | [], _, list => some list
  | ent :: ents, timeStop64, list =>
      if ent.hasRegBit then
        if isAviFileFormat ent.d_name = false then
          addFiles chNum begin stop dirPath ignoreType ents timeStop64 list
        else if chNum ≠ aviGetChNum ent.d_name then
          addFiles chNum begin stop dirPath ignoreType ents timeStop64 list
        else
          (aviGetStartTime ent.d_name).bind fun timeStart64 =>
            let timeStop64 :=
              if 37 = ent.d_name.length then (aviGetStopTime ent.d_name).getD 0 else timeStop64
            if (timeStop64 ≠ 0 ∧ timeStop64 < begin) ∨ timeStart64 > stop then
              addFiles chNum begin stop dirPath ignoreType ents timeStop64 list
            else if ignoreType = false ∧ ((timeStop64 ≠ 0 ∧ timeStop64 ≠ stop) ∨ timeStart64 ≠ begin) then
              addFiles chNum begin stop dirPath ignoreType ents timeStop64 list
            else
              let filePath := dirPath ++ '/' :: ent.d_name
              if filePath.length ≥ 128 then none
              else
                (insertNode list filePath).bind
                  (addFiles chNum begin stop dirPath ignoreType ents timeStop64)
      else addFiles chNum begin stop dirPath ignoreType ents timeStop64 list

/-- `add_file_to_list` -/
def addFileToList (card : SdCard) (list : FileList) (chNum begin stop : ℕ) (dir : List Char)
    (ignoreType : Bool) : Option FileList :=
  let dirPath := sdPath dir
  if dirPath.length ≥ 128 then none
  else
    match card.dir dir with
    | none => some list
    | some ents => addFiles chNum begin stop dirPath ignoreType ents 0 list

/-- `(uint32_t)atoi(name)` -/
def dirDate (name : List Char) : ℕ := (atoi name % 4294967296).toNat

/-- The loop of `add_to_list`: `FLAG` and `filename` when it is left.  The text `FLAG = 1;` stands
behind an `#endif` on its line and is no statement, so a match stores the name only. -/
def findDir (dateStart32 dateStop32 flag : ℕ) : List Dirent → ℕ × List Char
  | [] => (flag, [])
  | ent :: ents =>
      if ent.hasDirBit then
        -- `.` and `..`, then every name without `.avi` in it, which a date has not
        if ent.isDots then findDir dateStart32 dateStop32 flag ents
        else if isAviDirFormat ent.d_name = false then findDir dateStart32 dateStop32 flag ents
        else if dirDate ent.d_name = dateStart32 ∧ dirDate ent.d_name = dateStop32 then
          -- the assignment to `FLAG` that is meant to stand here is discarded
          (flag, ent.d_name)
        else findDir dateStart32 dateStop32 flag ents
      else findDir dateStart32 dateStop32 flag ents

/-- `add_to_list` -/
def addToList (card : SdCard) (list : FileList) (chNum begin stop : ℕ) (ignoreType : Bool) :
    Option FileList :=
  let dateStart32 := begin / 1000000 % 4294967296
  let dateStop32 := stop / 1000000 % 4294967296
  match card.root with
  | none => some list
  | some ents =>
      let (flag, filename) := findDir dateStart32 dateStop32 0 ents
      if flag = 1 then addFileToList card list chNum begin stop filename ignoreType
      else some list

/-! ## The search -/

/-- `INDEX_NODE` -/
structure IndexNode where
  chNum : ℕ
  start : ℕ
  stop : ℕ

/-- An index file: its count, if it can be read, and its nodes. -/
structure IndexFile where
  count : Option ℤ
  nodes : List IndexNode

/-- The part of the request a node covers. -/
def adjustTime (start stop : ℕ) (node : IndexNode) : ℕ × ℕ :=
  if start ≤ node.start ∧ node.stop ≤ stop then (node.start, node.stop)
  else if node.start ≤ start ∧ stop ≤ node.stop then (start, stop)
  else if node.start ≤ start ∧ start ≤ node.stop then (start, node.stop)
  else (node.start, stop)

/-- The loop over the nodes of an index file. -/
def searchIndex (card : SdCard) (chNum start stop : ℕ) :
    List IndexNode → FileList → Option FileList
  | [], list => some list
  | node :: nodes, list =>
      if chNum ≠ node.chNum then searchIndex card chNum start stop nodes list
      else if node.stop < start ∨ stop < node.start then
        searchIndex card chNum start stop nodes list
      else
        let (begin, end') := adjustTime start stop node
        if begin = end' then searchIndex card chNum start stop nodes list
        else
          (addToList card list chNum begin end' false).bind
            (searchIndex card chNum start stop nodes)

/-- `SDK_RECORD_TYPE_MANU`, `_SCHED`, `_MOTION` and `_ALARM`, the types with an index file. -/
def indexedTypes : List ℕ := [1, 2, 3, 4]

/-- `search_file_by_time`; `indexFile` is what `fopen` of the type's index file gives.  The result
is `some none` for a null pointer.  A node read behind the end of the file is all zeros, and the
loop ends after it. -/
def searchFileByTime (card : SdCard) (indexFile : ℕ → Option IndexFile)
    (type chNum start stop : ℕ) : Option (Option FileList) :=
  let list := creatEmptyList type chNum start stop
  if type ∈ indexedTypes then
    match indexFile type with
    | none => some none
    | some file =>
        match file.count with
        | none => some none
        | some count =>
            (searchIndex card chNum start stop
              ((file.nodes ++ [(⟨0, 0, 0⟩ : IndexNode)]).take count.toNat) list).map some
  else (addToList card list chNum start stop true).map some

/-! ## What the search finds -/

theorem findDir_flag (dateStart32 dateStop32 flag : ℕ) (ents : List Dirent) :
    (findDir dateStart32 dateStop32 flag ents).1 = flag := by
  induction ents with
  | nil => rfl
  | cons ent ents ih =>
    unfold findDir
    split
    · split
      · exact ih
      · split
        · exact ih
        · split
          · rfl
          · exact ih
    · exact ih

/-- No directory is looked into. -/
theorem addToList_eq (card : SdCard) (list : FileList) (chNum begin stop : ℕ)
    (ignoreType : Bool) : addToList card list chNum begin stop ignoreType = some list := by
  unfold addToList
  split
  · rfl
  · dsimp only
    rw [findDir_flag, if_neg (by decide)]

/-- A request for all types gets the empty list. -/
theorem searchFileByTime_all (card : SdCard) (indexFile : ℕ → Option IndexFile) {type : ℕ}
    (htype : type ∉ indexedTypes) (chNum start stop : ℕ) :
    searchFileByTime card indexFile type chNum start stop
      = some (some (creatEmptyList type chNum start stop)) := by
  unfold searchFileByTime
  rw [if_neg htype, addToList_eq]
  rfl

/-! ## What it should find -/

/-- The decimal digits of a number, filled up with zeros in front. -/
def padded (width n : ℕ) : List Char :=
  List.replicate (width - (Nat.toDigits 10 n).length) '0' ++ Nat.toDigits 10 n

/-- A recording by its name: channel, start and, unless it is still open, stop, both as
`YYYYMMDDhhmmss`. -/
structure NamedRecording where
  channel : ℕ
  start : ℕ
  stop : Option ℕ
  channel_lt : channel < 10
  start_lt : start < 100000000000000
  stop_lt : ∀ t ∈ stop, t < 100000000000000

namespace NamedRecording

/-- `chN_<start>_<stop>.avi`, or `chN_<start>.avi`. -/
def fileName (r : NamedRecording) : List Char :=
  ['c', 'h'] ++ Nat.toDigits 10 r.channel ++ '_' :: padded 14 r.start
    ++ (match r.stop with
      | none => []
      | some stop => '_' :: padded 14 stop)
    ++ ['.', 'a', 'v', 'i']

/-- Some part of it lies in the requested times. -/
def Overlaps (r : NamedRecording) (start stop : ℕ) : Prop :=
  r.start ≤ stop ∧ ∀ t ∈ r.stop, start ≤ t

/-- It stands in the directory of the day. -/
def OnCard (r : NamedRecording) (card : SdCard) (day : ℕ) : Prop :=
  (∃ ents, card.root = some ents ∧ (⟨dtDir, padded 8 day⟩ : Dirent) ∈ ents)
    ∧ ∃ ents, card.dir (padded 8 day) = some ents ∧ (⟨dtReg, r.fileName⟩ : Dirent) ∈ ents

end NamedRecording

/-- The list holds the recordings of the day and channel that overlap, each once and in the order
of their start times. -/
def SearchExact (card : SdCard) (chNum start stop : ℕ) (found : Option (Option FileList)) : Prop :=
  ∃ list, found = some (some list) ∧ list.len = list.nodes.length
    ∧ (list.nodes.map FileNode.start).Pairwise (· < ·)
    ∧ ∀ path, path ∈ list.nodes.map FileNode.path ↔
        ∃ r : NamedRecording, r.OnCard card (start / 1000000) ∧ r.channel = chNum
          ∧ r.Overlaps start stop
          ∧ path = sdPath (padded 8 (start / 1000000)) ++ '/' :: r.fileName

/-- A card with one recording, of channel 0. -/
def oneRecording : NamedRecording where
  channel := 0
  start := 20240101080000
  stop := some 20240101081000
  channel_lt := by decide
  start_lt := by decide
  stop_lt := by decide

def oneRecordingCard : SdCard where
  root := some [⟨dtDir, padded 8 20240101⟩]
  dir name := if name = padded 8 20240101 then some [⟨dtReg, oneRecording.fileName⟩] else none

theorem oneRecordingCard_dir :
    oneRecordingCard.dir (padded 8 20240101) = some [⟨dtReg, oneRecording.fileName⟩] := by
  simp only [oneRecordingCard, if_true]

/-- **The search is exact for the days on which it has nothing to find.** -/
theorem search_exact_iff (card : SdCard) (indexFile : ℕ → Option IndexFile) {type : ℕ}
    (htype : type ∉ indexedTypes) (chNum start stop : ℕ) :
    SearchExact card chNum start stop (searchFileByTime card indexFile type chNum start stop) ↔
      ∀ r : NamedRecording, r.OnCard card (start / 1000000) → r.channel = chNum →
        ¬ r.Overlaps start stop := by
  rw [searchFileByTime_all card indexFile htype]
  constructor
  · -- a recording that should be listed is not in the empty list
    rintro ⟨list, hfound, -, -, hpaths⟩ r hcard hchannel hoverlaps
    obtain rfl := Option.some.inj (Option.some.inj hfound)
    have hmem := (hpaths _).mpr ⟨r, hcard, hchannel, hoverlaps, rfl⟩
    exact absurd hmem List.not_mem_nil
  · intro hnone
    refine ⟨_, rfl, rfl, List.Pairwise.nil, fun path => ⟨fun h => ?_, ?_⟩⟩
    · exact absurd h List.not_mem_nil
    · rintro ⟨r, hcard, hchannel, hoverlaps, -⟩
      exact absurd hoverlaps (hnone r hcard hchannel)

/-- A request for channel 1 on the card that holds a recording of channel 0. -/
theorem search_exact_other_channel :
    SearchExact oneRecordingCard 1 20240101000000 20240101235959
      (searchFileByTime oneRecordingCard (fun _ => none) 0 1 20240101000000 20240101235959) := by
  refine (search_exact_iff oneRecordingCard (fun _ => none) (by decide) 1 20240101000000
    20240101235959).mpr fun r hcard hchannel _ => ?_
  obtain ⟨-, ents, hents, hmem⟩ := hcard
  obtain rfl := Option.some.inj (hents.symm.trans oneRecordingCard_dir)
  have hname : r.fileName = oneRecording.fileName :=
    congrArg Dirent.d_name (List.mem_singleton.mp hmem)
  have hthird := congrArg (fun l => l[2]?) hname
  rw [NamedRecording.fileName, hchannel] at hthird
  exact absurd (show some '1' = some '0' from hthird) (by decide)

/-- The recording of 8:00 to 8:10 is not found on its day. -/
theorem search_misses_recording :
    oneRecording.OnCard oneRecordingCard 20240101
      ∧ oneRecording.Overlaps 20240101000000 20240101235959
      ∧ ¬ SearchExact oneRecordingCard 0 20240101000000 20240101235959
        (searchFileByTime oneRecordingCard (fun _ => none) 0 0 20240101000000 20240101235959) := by
  have hcard : oneRecording.OnCard oneRecordingCard 20240101 :=
    ⟨⟨_, rfl, List.mem_singleton.mpr rfl⟩, ⟨_, oneRecordingCard_dir, List.mem_singleton.mpr rfl⟩⟩
  have hoverlaps : oneRecording.Overlaps 20240101000000 20240101235959 := by
    refine ⟨by decide, fun t ht => ?_⟩
    obtain rfl := Option.some.inj ht
    decide
  refine ⟨hcard, hoverlaps, ?_⟩
  rintro ⟨list, hfound, -, -, hpaths⟩
  rw [searchFileByTime_all oneRecordingCard _ (by decide)] at hfound
  obtain rfl := Option.some.inj (Option.some.inj hfound)
  exact absurd ((hpaths _).mpr ⟨oneRecording, hcard, rfl, hoverlaps, rfl⟩) List.not_mem_nil
