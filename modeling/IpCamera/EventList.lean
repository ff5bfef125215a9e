/-
# The list of recordings for a client (`tutk_msg_handle.c`)

`get_listEvent_req_handle` sends the recordings that `get_avi_list` has found in responses of
at most 50 entries.  The element that an entry is taken from is computed with the number of
entries of its own response, which is smaller in the last one, so that the last response
repeats earlier recordings.  `list_complete_iff` tells when the client gets the whole list.

The search itself is not part of the repository: its results are a parameter.
-/
import IpCamera.Paging
import Mathlib.Data.List.Infix
import Mathlib.Data.UInt
import Mathlib.Tactic

open Paging

/-! ## The recordings found -/

/-- `sdk_time_t` -/
structure SdkTime where
  year : UInt32
  mon : UInt32
  day : UInt32
  hour : UInt32
  min : UInt32
  sec : UInt32
  deriving DecidableEq, Repr

/-- `GRD_REC_FILE_INFO`, as `st_find_next_file` fills it in. -/
structure RecFileInfo where
  stStartTime : SdkTime
  stStopTime : SdkTime
  csFileName : List Char
  deriving DecidableEq, Repr

/-- `avi_list_t` -/
structure AviListEntry where
  stStartTime : SdkTime
  csFileName : List Char
  deriving DecidableEq, Repr

/-- The loop of `get_avi_list`: `left` more recordings have room in `list_avi`. -/
def fillAviList : ℕ → List RecFileInfo → List AviListEntry
  | 0, _ => []
  | _ + 1, [] => []
  | left + 1, f :: files =>
      if ".avi".toList <:+: f.csFileName ∧ 0 < f.stStopTime.year then
        ⟨f.stStartTime, f.csFileName.take 128⟩ :: fillAviList left files
      else fillAviList (left + 1) files

/-- `get_avi_list`, given what `st_find_file_open` returns and what `st_find_next_file` finds. -/
def getAviList (aviNum : ℤ) (files : List RecFileInfo) : Option (List AviListEntry) :=
  if aviNum ≤ 0 then none else some (fillAviList aviNum.toNat files)

/-! ## The responses -/

/-- `STimeDay`; the day of the week is not set. -/
structure STimeDay where
  year : UInt16
  month : UInt8
  day : UInt8
  hour : UInt8
  minute : UInt8
  second : UInt8
  deriving DecidableEq, Repr

/-- `SAvEvent`, what is set of it. -/
structure SAvEvent where
  stTime : STimeDay
  event : UInt8
  deriving DecidableEq, Repr

/-- `SMsgAVIoctrlListEventResp`, what is set of it. -/
structure ListEventResp where
  total : UInt32
  index : UInt8
  endflag : UInt8
  count : UInt8
  stEvent : List SAvEvent
  deriving DecidableEq, Repr

/-- An entry; its fields are narrower than those of the list. -/
def AviListEntry.event (r : AviListEntry) : SAvEvent where
  stTime :=
    { year := r.stStartTime.year.toUInt16
      month := r.stStartTime.mon.toUInt8
      day := r.stStartTime.day.toUInt8
      hour := r.stStartTime.hour.toUInt8
      minute := r.stStartTime.min.toUInt8
      second := r.stStartTime.sec.toUInt8 }
  event := 0

/-- `sizeof(SMsgAVIoctrlListEventResp)`, with its `videotime[MAX_VIDEO_NUM]` -/
def sizeofListEventResp : ℕ := 4 + 4 + 4 + 4 * 100

def sizeofSAvEvent : ℕ := 12

/-- `max_file_num` -/
def maxFileNum : ℕ := (1024 - sizeofListEventResp) / sizeofSAvEvent - 1

/-- The loop over the responses, with `rounds` left to go; there is no result if an element behind
the list is read. -/
def sendPages (list : List AviListEntry) (fileCount : ℕ) :
    (rounds i leftNum : ℕ) → Option (List ListEventResp)
  | 0, _, _ => some []
  | rounds + 1, i, leftNum => do
      let forCount := if leftNum > maxFileNum then maxFileNum else leftNum
      let read ← entries list (i * forCount) forCount
      let resp : ListEventResp :=
        { total := UInt32.ofNat fileCount
          index := UInt8.ofNat i
          endflag := if leftNum - forCount = 0 then 1 else 0
          count := UInt8.ofNat forCount
          stEvent := read.map AviListEntry.event }
      if leftNum - forCount = 0 then pure [resp]
      else do
        let resps ← sendPages list fileCount rounds (i + 1) (leftNum - forCount)
        pure (resp :: resps)

/-- The responses for a list that has been found. -/
def listEventResps (list : List AviListEntry) : Option (List ListEventResp) :=
  let fileCount := list.length
  if fileCount = 0 ∨ fileCount > 1000000000 then some []
  else sendPages list fileCount ((fileCount + maxFileNum) / maxFileNum) 0 fileCount

/-- `get_listEvent_req_handle`, what it sends; without a list its `file_count` has no value. -/
def getListEventReqHandle (aviNum : ℤ) (files : List RecFileInfo) : Option (List ListEventResp) := do
  let list ← getAviList aviNum files
  listEventResps list

/-- `DE_get_listEvent_req_handle`, which sends the same through `avSendDefaultIOCtrl`. -/
def deGetListEventReqHandle (aviNum : ℤ) (files : List RecFileInfo) :
    Option (List ListEventResp) := do
  let list ← getAviList aviNum files
  listEventResps list

/-! ## What the client should get -/

/-- The entry shows the time. -/
def STimeDay.Shows (e : STimeDay) (t : SdkTime) : Prop :=
  e.year.toNat = t.year.toNat ∧ e.month.toNat = t.mon.toNat ∧ e.day.toNat = t.day.toNat
    ∧ e.hour.toNat = t.hour.toNat ∧ e.minute.toNat = t.min.toNat ∧ e.second.toNat = t.sec.toNat

/-- The responses carry the whole list. -/
structure ListComplete (list : List AviListEntry) (resps : List ListEventResp) : Prop where
  times : List.Forall₂ (fun e r => e.stTime.Shows r.stStartTime)
    (resps.flatMap ListEventResp.stEvent) list
  total : ∀ r ∈ resps, r.total.toNat = list.length
  index : resps.map (fun r => r.index.toNat) = List.range resps.length
  count : ∀ r ∈ resps, r.count.toNat = r.stEvent.length
  endflag : resps.map ListEventResp.endflag = List.replicate (resps.length - 1) 0 ++ [1]

/-- A time that the fields of an entry can show. -/
def SdkTime.Fits (t : SdkTime) : Prop :=
  t.year < 65536 ∧ t.mon < 256 ∧ t.day < 256 ∧ t.hour < 256 ∧ t.min < 256 ∧ t.sec < 256

instance (t : SdkTime) : Decidable t.Fits := inferInstanceAs (Decidable (_ ∧ _))

/-- The recordings of the last response start when those do that stand so much before them as the
response lacks entries, for every response before it. -/
def LastPageRepeats (list : List AviListEntry) : Prop :=
  ∀ j < list.length % maxFileNum,
    (list[list.length / maxFileNum * (list.length % maxFileNum) + j]?).map
        AviListEntry.stStartTime
      = (list[list.length / maxFileNum * maxFileNum + j]?).map AviListEntry.stStartTime

/-! ## The responses of a list -/

/-- The response of a page. -/
def pageResp (list : List AviListEntry) (c : Cut) : ListEventResp where
  total := UInt32.ofNat list.length
  index := UInt8.ofNat c.index
  endflag := if c.last then 1 else 0
  count := UInt8.ofNat c.count
  stEvent := ((list.drop (c.index * c.count)).take c.count).map AviListEntry.event

section Resps

variable {list : List AviListEntry}

/-- The loop sends the pages that are left. -/
theorem sendPages_eq : ∀ rounds i left, 0 < left → left ≤ rounds * maxFileNum →
    i * maxFileNum + left ≤ list.length →
    sendPages list list.length rounds i left
      = some ((cuts maxFileNum left i).map (pageResp list)) := by
  intro rounds
  induction rounds with
  | zero =>
    intro i left hpos hrounds
    omega
  | succ rounds ih =>
    intro i left hpos hrounds hlen
    rw [sendPages]
    by_cases hle : left ≤ maxFileNum
    · -- the last page
      have hmul := Nat.mul_le_mul_left i hle
      rw [if_neg (by omega), entries_eq list _ _ (by omega), cuts_of_le hpos hle]
      simp [pageResp]
    · have hfull : i * maxFileNum + maxFileNum ≤ list.length := by omega
      rw [if_pos (by omega), entries_eq list _ _ hfull, cuts_of_lt (by decide) (by omega)]
      have hmul : (rounds + 1) * maxFileNum = rounds * maxFileNum + maxFileNum := Nat.succ_mul ..
      have hi : (i + 1) * maxFileNum = i * maxFileNum + maxFileNum := Nat.succ_mul ..
      have hmore : ¬ left - maxFileNum = 0 := by omega
      have hrest := ih (i + 1) (left - maxFileNum) (by omega) (by omega) (by omega)
      simp only [hrest, hmore, if_false]
      simp [pageResp]

theorem listEventResps_eq (hne : list ≠ []) (hlen : list.length ≤ 1000000000) :
    listEventResps list = some ((cuts maxFileNum list.length 0).map (pageResp list)) := by
  have hpos : 0 < list.length := List.length_pos_iff.mpr hne
  unfold listEventResps
  dsimp only
  rw [if_neg (by omega)]
  refine sendPages_eq _ 0 _ hpos ?_ (by omega)
  have hdiv : (list.length + maxFileNum) / maxFileNum = list.length / maxFileNum + 1 :=
    Nat.add_div_right _ (by decide)
  have hmod := Nat.lt_div_mul_add (a := list.length) (show 0 < maxFileNum by decide)
  rw [hdiv, Nat.succ_mul]
  omega

/-- The recordings that the entries of the responses are taken from. -/
def sentRecordings (list : List AviListEntry) : List AviListEntry :=
  (cuts maxFileNum list.length 0).flatMap fun c => (list.drop (c.index * c.count)).take c.count

theorem flatMap_stEvent :
    ((cuts maxFileNum list.length 0).map (pageResp list)).flatMap ListEventResp.stEvent
      = (sentRecordings list).map AviListEntry.event := by
  rw [List.flatMap_map, sentRecordings, List.map_flatMap]
  rfl

theorem sentRecordings_eq :
    sentRecordings list = list.take ((list.length - 1) / maxFileNum * maxFileNum)
      ++ (list.drop ((list.length - 1) / maxFileNum
          * (list.length - (list.length - 1) / maxFileNum * maxFileNum))).take
        (list.length - (list.length - 1) / maxFileNum * maxFileNum) := by
  rw [sentRecordings, cuts, List.flatMap_append, List.flatMap_map, List.flatMap_singleton]
  simp only [Nat.zero_add]
  rw [flatMap_full_pages]

theorem mem_of_mem_sentRecordings {r : AviListEntry} (hr : r ∈ sentRecordings list) : r ∈ list := by
  rw [sentRecordings_eq] at hr
  rcases List.mem_append.mp hr with h | h
  · exact List.mem_of_mem_take h
  · exact List.mem_of_mem_drop (List.mem_of_mem_take h)

theorem fits_of_shows {e : STimeDay} {t : SdkTime} (h : e.Shows t) : t.Fits := by
  obtain ⟨hyear, hmon, hday, hhour, hmin, hsec⟩ := h
  simp only [SdkTime.Fits, UInt32.lt_iff_toNat_lt, ← hyear, ← hmon, ← hday, ← hhour, ← hmin, ← hsec]
  exact ⟨e.year.toNat_lt, e.month.toNat_lt, e.day.toNat_lt, e.hour.toNat_lt, e.minute.toNat_lt,
    e.second.toNat_lt⟩

/-- An entry shows the time it was made of, if that fits. -/
theorem event_shows {r : AviListEntry} (hfits : r.stStartTime.Fits) :
    r.event.stTime.Shows r.stStartTime := by
  obtain ⟨hyear, hmon, hday, hhour, hmin, hsec⟩ := hfits
  rw [UInt32.lt_iff_toNat_lt] at hyear hmon hday hhour hmin hsec
  refine ⟨?_, ?_, ?_, ?_, ?_, ?_⟩
  · exact (UInt32.toNat_toUInt16 _).trans (Nat.mod_eq_of_lt hyear)
  · exact (UInt32.toNat_toUInt8 _).trans (Nat.mod_eq_of_lt hmon)
  · exact (UInt32.toNat_toUInt8 _).trans (Nat.mod_eq_of_lt hday)
  · exact (UInt32.toNat_toUInt8 _).trans (Nat.mod_eq_of_lt hhour)
  · exact (UInt32.toNat_toUInt8 _).trans (Nat.mod_eq_of_lt hmin)
  · exact (UInt32.toNat_toUInt8 _).trans (Nat.mod_eq_of_lt hsec)

/-- An entry shows one time only. -/
theorem shows_unique {e : STimeDay} {t t' : SdkTime} (h : e.Shows t) (h' : e.Shows t') : t = t' := by
  obtain ⟨hyear, hmon, hday, hhour, hmin, hsec⟩ := h
  obtain ⟨hyear', hmon', hday', hhour', hmin', hsec'⟩ := h'
  cases t
  cases t'
  simp only [SdkTime.mk.injEq, ← UInt32.toNat_inj]
  exact ⟨hyear.symm.trans hyear', hmon.symm.trans hmon', hday.symm.trans hday',
    hhour.symm.trans hhour', hmin.symm.trans hmin', hsec.symm.trans hsec'⟩

theorem forall₂_same_start {rs rs' : List AviListEntry} :
    List.Forall₂ (fun r r' => r.stStartTime = r'.stStartTime) rs rs'
      ↔ rs.map AviListEntry.stStartTime = rs'.map AviListEntry.stStartTime := by
  have heq : (rs.map AviListEntry.stStartTime = rs'.map AviListEntry.stStartTime)
      = List.Forall₂ (· = ·) (rs.map AviListEntry.stStartTime)
        (rs'.map AviListEntry.stStartTime) := by
    rw [List.forall₂_eq_eq_eq]
  rw [heq, List.forall₂_map_left_iff, List.forall₂_map_right_iff]

/-- The entries show the times of the list when these fit and are those of the recordings sent. -/
theorem forall₂_shows_iff :
    List.Forall₂ (fun e r => e.stTime.Shows r.stStartTime)
        ((sentRecordings list).map AviListEntry.event) list
      ↔ (∀ r ∈ list, r.stStartTime.Fits)
        ∧ (sentRecordings list).map AviListEntry.stStartTime
          = list.map AviListEntry.stStartTime := by
  rw [List.forall₂_map_left_iff, ← forall₂_same_start]
  have hsent : (∀ r ∈ list, r.stStartTime.Fits) → ∀ r ∈ sentRecordings list, r.stStartTime.Fits :=
    fun hfits r hr => hfits r (mem_of_mem_sentRecordings hr)
  constructor
  · intro h
    have hfits : ∀ r ∈ list, r.stStartTime.Fits := by
      intro r hr
      obtain ⟨i, hi, rfl⟩ := List.getElem_of_mem hr
      exact fits_of_shows (h.get (h.length_eq ▸ hi) hi)
    refine ⟨hfits, ?_⟩
    refine ((List.forall₂_and_left _ _).mpr ⟨hsent hfits, h⟩).imp ?_
    rintro r r' ⟨hr, hshows⟩
    exact shows_unique (event_shows hr) hshows
  · rintro ⟨hfits, h⟩
    refine ((List.forall₂_and_left _ _).mpr ⟨hsent hfits, h⟩).imp ?_
    rintro r r' ⟨hr, hsame⟩
    exact hsame ▸ event_shows hr

theorem maxFileNum_eq : maxFileNum = 50 := by decide

/-- All responses but the last one find their recordings. -/
theorem map_start_iff_last (hne : list ≠ []) :
    (sentRecordings list).map AviListEntry.stStartTime = list.map AviListEntry.stStartTime
      ↔ ∀ j < list.length - (list.length - 1) / maxFileNum * maxFileNum,
        (list[(list.length - 1) / maxFileNum
            * (list.length - (list.length - 1) / maxFileNum * maxFileNum) + j]?).map
            AviListEntry.stStartTime
          = (list[(list.length - 1) / maxFileNum * maxFileNum + j]?).map
            AviListEntry.stStartTime := by
  have hpos : 0 < list.length := List.length_pos_iff.mpr hne
  rw [sentRecordings_eq]
  obtain ⟨q, hq⟩ : ∃ q, q = (list.length - 1) / maxFileNum := ⟨_, rfl⟩
  obtain ⟨c, hc⟩ : ∃ c, c = list.length - q * maxFileNum := ⟨_, rfl⟩
  rw [← hq, ← hc]
  have hlist : list.map AviListEntry.stStartTime
      = (list.take (q * maxFileNum)).map AviListEntry.stStartTime
        ++ (list.drop (q * maxFileNum)).map AviListEntry.stStartTime := by
    rw [← List.map_append, List.take_append_drop]
  rw [List.map_append, hlist, List.append_cancel_left_eq, List.ext_getElem?_iff]
  refine forall_congr' fun j => ?_
  rw [List.getElem?_map, List.getElem?_map, List.getElem?_take, List.getElem?_drop,
    List.getElem?_drop]
  by_cases hj : j < c
  · rw [if_pos hj]
    exact ⟨fun h _ => h, fun h => h hj⟩
  · rw [if_neg hj, List.getElem?_eq_none (by omega)]
    exact iff_of_true rfl fun h => absurd h hj

/-- Which recordings the last response has. -/
theorem map_start_iff (hne : list ≠ []) :
    (sentRecordings list).map AviListEntry.stStartTime = list.map AviListEntry.stStartTime
      ↔ list.length ≤ maxFileNum ∨ maxFileNum ∣ list.length ∨ LastPageRepeats list := by
  rw [map_start_iff_last hne]
  have hpos : 0 < list.length := List.length_pos_iff.mpr hne
  by_cases hdvd : maxFileNum ∣ list.length
  · -- the last response is full, and finds its own recordings
    obtain ⟨k, hk⟩ := hdvd
    have hfull : list.length - (list.length - 1) / maxFileNum * maxFileNum = maxFileNum := by
      rw [maxFileNum_eq] at hk ⊢
      omega
    rw [hfull]
    exact iff_of_true (fun _ _ => rfl) (Or.inr (Or.inl ⟨k, hk⟩))
  · have hq : (list.length - 1) / maxFileNum = list.length / maxFileNum := by
      rw [maxFileNum_eq] at hdvd ⊢
      omega
    have hr : list.length - list.length / maxFileNum * maxFileNum
        = list.length % maxFileNum := by
      rw [Nat.mod_eq_sub, Nat.mul_comm]
    rw [hq, hr]
    by_cases hone : list.length ≤ maxFileNum
    · have hzero : list.length / maxFileNum = 0 := by
        rw [maxFileNum_eq] at hdvd hone ⊢
        omega
      rw [hzero, Nat.zero_mul, Nat.zero_mul]
      exact iff_of_true (fun _ _ => rfl) (Or.inl hone)
    · exact (or_iff_right hone).trans (or_iff_right hdvd) |>.symm

/-! ## When the list is complete -/

theorem toNat_ofNat_u8 {n : ℕ} (h : n < 256) : (UInt8.ofNat n).toNat = n := by
  rw [UInt8.toNat_ofNat']
  exact Nat.mod_eq_of_lt h

/-- A page has the entries it counts. -/
theorem length_pageResp (hne : list ≠ []) {c : Cut} (hc : c ∈ cuts maxFileNum list.length 0) :
    (pageResp list c).stEvent.length = c.count := by
  have hpos : 0 < list.length := List.length_pos_iff.mpr hne
  have hroom := room_of_mem_cuts hpos hc
  have hle := count_le_of_mem_cuts (by decide) hc
  have hmul := Nat.mul_le_mul_left c.index hle
  rw [pageResp, List.length_map, List.length_take, List.length_drop]
  omega

/-- The numbers of the responses are right as long as a byte holds them. -/
theorem map_index_iff :
    ((cuts maxFileNum list.length 0).map (pageResp list)).map (fun r => r.index.toNat)
        = List.range ((cuts maxFileNum list.length 0).map (pageResp list)).length
      ↔ list.length ≤ 12800 := by
  have hindex : ((cuts maxFileNum list.length 0).map (pageResp list)).map (fun r => r.index.toNat)
      = (List.range (cuts maxFileNum list.length 0).length).map fun i => i % 256 := by
    rw [← map_index_cuts, List.map_map, List.map_map]
    exact List.map_congr_left fun c _ => UInt8.toNat_ofNat'
  have hlen : (cuts maxFileNum list.length 0).length ≤ 256 ↔ list.length ≤ 12800 := by
    rw [length_cuts, maxFileNum_eq]
    omega
  rw [hindex, List.length_map, ← hlen]
  constructor
  · intro h
    by_contra hlt
    have h256 := congrArg (fun l => l[256]?) h
    have hin : 256 < (cuts maxFileNum list.length 0).length := by omega
    simp [hin] at h256
  · intro hle
    refine (List.map_congr_left fun i hi => ?_).trans (List.map_id _)
    have := List.mem_range.mp hi
    exact Nat.mod_eq_of_lt (by omega)

/-- The pages of a list of which the guard on `file_count` lets something be sent. -/
theorem pages_complete_iff (hne : list ≠ []) (hlen : list.length ≤ 1000000000) :
    ListComplete list ((cuts maxFileNum list.length 0).map (pageResp list))
      ↔ (∀ r ∈ list, r.stStartTime.Fits) ∧ list.length ≤ 12800
        ∧ (list.length ≤ maxFileNum ∨ maxFileNum ∣ list.length ∨ LastPageRepeats list) := by
  have htimes := @forall₂_shows_iff list
  rw [← flatMap_stEvent, map_start_iff hne] at htimes
  constructor
  · intro h
    obtain ⟨hfits, hlast⟩ := htimes.mp h.times
    exact ⟨hfits, map_index_iff.mp h.index, hlast⟩
  · rintro ⟨hfits, hindex, hlast⟩
    refine ⟨htimes.mpr ⟨hfits, hlast⟩, ?_, map_index_iff.mpr hindex, ?_, ?_⟩
    · intro r hr
      obtain ⟨c, -, rfl⟩ := List.mem_map.mp hr
      exact (UInt32.toNat_ofNat').trans (Nat.mod_eq_of_lt (by omega))
    · intro r hr
      obtain ⟨c, hc, rfl⟩ := List.mem_map.mp hr
      rw [length_pageResp hne hc]
      have hle := count_le_of_mem_cuts (by decide) hc
      rw [maxFileNum_eq] at hle
      exact toNat_ofNat_u8 (by omega)
    · have hmap : ((cuts maxFileNum list.length 0).map (pageResp list)).map ListEventResp.endflag
          = ((cuts maxFileNum list.length 0).map Cut.last).map fun b => if b then 1 else 0 := by
        rw [List.map_map, List.map_map]
        rfl
      rw [hmap, map_last_cuts, List.map_append, List.map_replicate, List.length_map]
      rfl

theorem listEventResps_complete_iff (hne : list ≠ []) :
    (∃ resps, listEventResps list = some resps ∧ ListComplete list resps)
      ↔ (∀ r ∈ list, r.stStartTime.Fits) ∧ list.length ≤ 12800
        ∧ (list.length ≤ maxFileNum ∨ maxFileNum ∣ list.length ∨ LastPageRepeats list) := by
  by_cases hlen : list.length ≤ 1000000000
  · rw [← pages_complete_iff hne hlen, listEventResps_eq hne hlen]
    exact ⟨fun ⟨resps, heq, h⟩ => Option.some.inj heq ▸ h, fun h => ⟨_, rfl, h⟩⟩
  · -- the guard refuses the list, and nothing is sent
    have hnone : listEventResps list = some [] := by
      unfold listEventResps
      exact if_pos (Or.inr (not_le.mp hlen))
    rw [hnone]
    refine iff_of_false ?_ fun h => hlen (h.2.1.trans (by decide))
    rintro ⟨resps, heq, h⟩
    obtain rfl := Option.some.inj heq
    exact hne (List.forall₂_nil_left_iff.mp h.times)

end Resps

/-- The client gets the whole list of recordings exactly when their times fit, a byte holds the
number of every response, and the last response is full, is the only one, or repeats recordings
that start when its own do. -/
theorem list_complete_iff (aviNum : ℤ) (files : List RecFileInfo) {list : List AviListEntry}
    (hfound : getAviList aviNum files = some list) (hne : list ≠ []) :
    (∃ resps, getListEventReqHandle aviNum files = some resps ∧ ListComplete list resps)
      ↔ (∀ r ∈ list, r.stStartTime.Fits) ∧ list.length ≤ 12800
        ∧ (list.length ≤ maxFileNum ∨ maxFileNum ∣ list.length ∨ LastPageRepeats list) := by
  have hresps : getListEventReqHandle aviNum files = listEventResps list := by
    rw [getListEventReqHandle, hfound]
    rfl
  rw [hresps]
  exact listEventResps_complete_iff hne

/-- A recording for each minute from midnight on. -/
def recordingAt (minute : ℕ) : RecFileInfo where
  stStartTime := ⟨2017, 1, 1, 0, UInt32.ofNat minute, 0⟩
  stStopTime := ⟨2017, 1, 1, 0, UInt32.ofNat minute, 30⟩
  csFileName := "ch0.avi".toList

/-- A single recording is listed. -/
theorem list_complete_single :
    ∃ resps, getListEventReqHandle 1 [recordingAt 0] = some resps
      ∧ ListComplete [⟨⟨2017, 1, 1, 0, 0, 0⟩, "ch0.avi".toList⟩] resps :=
  (list_complete_iff 1 [recordingAt 0] (by decide +kernel) (by decide)).mpr
    ⟨by decide, by decide, Or.inl (by decide)⟩

/-- Of 51 recordings the last one is not listed; the second one is listed in its place. -/
theorem list_not_complete :
    ¬ ∀ (aviNum : ℤ) (files : List RecFileInfo) (list : List AviListEntry),
      getAviList aviNum files = some list → list ≠ [] →
      ∃ resps, getListEventReqHandle aviNum files = some resps ∧ ListComplete list resps := by
  intro h
  obtain ⟨list, hlist⟩ : ∃ list, list = fillAviList 51 ((List.range 51).map recordingAt) := ⟨_, rfl⟩
  have hlen : list.length = 51 := by
    rw [hlist]
    decide +kernel
  have hne : list ≠ [] := by
    intro hnil
    rw [hnil] at hlen
    exact absurd hlen (by decide)
  have hfound : getAviList 51 ((List.range 51).map recordingAt) = some list := by
    rw [hlist]
    rfl
  have hcomplete := h 51 _ list hfound hne
  rw [getListEventReqHandle, hfound] at hcomplete
  obtain ⟨-, -, hone | hdvd | hlast⟩ := (listEventResps_complete_iff hne).mp hcomplete
  · rw [hlen] at hone
    exact absurd hone (by decide)
  · rw [hlen] at hdvd
    exact absurd hdvd (by decide)
  · have hfirst := hlast 0 (by rw [hlen]; decide)
    rw [hlen, hlist] at hfirst
    exact absurd hfirst (by decide +kernel)
