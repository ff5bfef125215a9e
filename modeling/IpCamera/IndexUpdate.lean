/-
# Adding to and removing from an index file (`avi_search_api.c`)

`write_manage_info` appends a record to the index file of a type and counts it,
`search_rm_node_by_name` takes the first record out whose times are within five of
those in a file name.  The file always holds as many records as it says
(`Indexed.run`).

A record with exactly these times is the one that goes exactly if it is the first one
within five of them: `index_calls_exact_iff`.
-/
import Mathlib.Data.List.Perm.Basic
import Mathlib.Data.Multiset.ZeroCons
import IpCamera.IndexFiles

open IndexRecord

/-! ## The calls -/

/-- The largest file `fwrite` makes, `LONG_MAX` bytes. -/
def fileLimit : ℕ := 2147483647

/-- `write_manage_info`; `none` where the file would get too large. -/
def writeManageInfo (card : CardFiles) (type : ℤ) (chNum : UInt32) (start stop : UInt64) :
    Option (CardFiles × ℤ) :=
  let indexFile := indexFileName type
  if indexFile = "" then some (card, -1)
  else
    -- a file that is not there is made with a count of 0
    let bytes := (card indexFile).getD (word 0)
    if bytes.length < 4 then some (card, -1)
    else
      let count := wordAt bytes 0
      let indexNode := { IndexRecord.zero with chNum := chNum, start := start, stop := stop }
      let bytes := bytes ++ IndexRecord.codec.encode indexNode
      if fileLimit < bytes.length then none
      else some (Function.update card indexFile (some (word (count + 1) ++ bytes.drop 4)), 0)

/-- `llabs(a - b)` of two `unsigned long long`. -/
def llabsSub (a b : ℕ) : ℤ :=
  let d := toUint64 ((a : ℤ) - b)
  if d < 9223372036854775808 then d else 18446744073709551616 - d

/-- The test for the record to remove. -/
def IndexRecord.Near (begin stop : ℕ) (node : IndexRecord) : Prop :=
  node.HasTimes begin stop
    ∨ (0 ≤ llabsSub begin node.start.toNat ∧ llabsSub begin node.start.toNat ≤ 5)
      ∧ (0 ≤ llabsSub stop node.stop.toNat ∧ llabsSub stop node.stop.toNat ≤ 5)

instance (begin stop : ℕ) (node : IndexRecord) : Decidable (node.Near begin stop) :=
  inferInstanceAs (Decidable (_ ∨ _))

/-- The loop that copies the records before the one to remove, `left` still to look at.  `buf` is
the part of the buffer that is filled, from its front. -/
def keepRecords (begin stop : ℕ) :
    (left i : ℕ) → InStream → (buf : List UInt8) → ℕ × InStream × List UInt8
  | 0, i, fp, buf => (i, fp, buf)
  | left + 1, i, fp, buf =>
      if fp.eof then (i, fp, buf)
      else
        let (got, fp) := fp.fread IndexRecord.size
        let node := IndexRecord.codec.readInto .zero got
        if node.Near begin stop then (i, fp, buf)
        else keepRecords begin stop left (i + 1) fp (buf ++ IndexRecord.codec.encode node)

/-- `search_rm_node_by_name`; `none` for a negative count, with which it writes all memory. -/
def searchRmNodeByName (card : CardFiles) (file : NamedTimes) (type : ℤ) :
    Option (CardFiles × ℤ) :=
  match openRead card (indexFileName type) with
  | none => some (card, -1)
  | some fp =>
      let (got, fp) := fp.fread 4
      if got.length < 4 then some (card, -1)
      else
        let count := toInt32 (wordAt got 0)
        let (i, fp, buf) := keepRecords file.begin file.stop count.toNat 0 fp []
        if count = i then some (card, -2)
        else if count < 0 then none
        else
          let left := count.toNat - (i + 1)
          let buf := if 0 < left then buf ++ (fp.fread (IndexRecord.size * left)).1 else buf
          -- the buffer is zero behind what was put in it
          let size := IndexRecord.size * (count.toNat - 1)
          let bytes := word (count.toNat - 1) ++ (buf ++ List.replicate size 0).take size
          some (Function.update card (indexFileName type) (some bytes), 0)

/-- A call on the index file of a type. -/
inductive IndexCall where
  | write (chNum : UInt32) (start stop : UInt64)
  | rm (file : NamedTimes)

namespace IndexCall

/-- The card after a call, and what it returns. -/
def run (type : ℤ) (card : CardFiles) : IndexCall → Option (CardFiles × ℤ)
  | write chNum start stop => writeManageInfo card type chNum start stop
  | rm file => searchRmNodeByName card file type

/-- The card after some calls, one behind the other. -/
def runAll (type : ℤ) : CardFiles → List IndexCall → Option CardFiles
  | card, [] => some card
  | card, c :: calls => (run type card c).bind fun r => runAll type r.1 calls

end IndexCall

/-! ## Files that hold as many records as they say -/

/-- The file of these records. -/
def indexFile (nodes : List IndexRecord) : List UInt8 :=
  word nodes.length ++ nodes.flatMap IndexRecord.codec.encode

theorem length_encode_node (node : IndexRecord) : (IndexRecord.codec.encode node).length = size :=
  IndexRecord.codec.length_encode node

theorem length_encode_nodes (nodes : List IndexRecord) :
    (nodes.flatMap IndexRecord.codec.encode).length = size * nodes.length := by
  induction nodes with
  | nil => rfl
  | cons node nodes ih =>
    rw [List.flatMap_cons, List.length_append, ih, length_encode_node, List.length_cons,
      Nat.mul_succ, Nat.add_comm]

theorem length_indexFile (nodes : List IndexRecord) :
    (indexFile nodes).length = 4 + size * nodes.length := by
  rw [indexFile, List.length_append, word_length, length_encode_nodes]

theorem wordAt_indexFile (nodes : List IndexRecord) :
    wordAt (indexFile nodes) 0 = nodes.length % 4294967296 :=
  wordAt_word _ _

theorem indexFile_drop (nodes : List IndexRecord) :
    (indexFile nodes).drop 4 = nodes.flatMap IndexRecord.codec.encode :=
  List.drop_left' (word_length _)

/-- The records of a file, as many as it has bytes for. -/
def storedNodes (bytes : List UInt8) : List IndexRecord :=
  (List.range ((bytes.length - 4) / size)).map (nth bytes)

/-- The bytes from a record on. -/
theorem drop_encode_nodes (nodes : List IndexRecord) {k : ℕ} (hk : k < nodes.length) :
    ∃ rest, (nodes.flatMap IndexRecord.codec.encode).drop (size * k)
      = IndexRecord.codec.encode nodes[k] ++ rest := by
  induction nodes generalizing k with
  | nil => exact absurd hk (Nat.not_lt_zero k)
  | cons node nodes ih =>
    cases k with
    | zero => exact ⟨_, rfl⟩
    | succ k =>
      obtain ⟨rest, hrest⟩ := ih (Nat.lt_of_succ_lt_succ hk)
      refine ⟨rest, ?_⟩
      rw [List.flatMap_cons, Nat.mul_succ, Nat.add_comm, ← List.drop_drop,
        List.drop_left' (length_encode_node node), hrest]
      rfl

theorem nth_indexFile (nodes : List IndexRecord) {k : ℕ} (hk : k < nodes.length) :
    nth (indexFile nodes) k = nodes[k] := by
  obtain ⟨rest, hrest⟩ := drop_encode_nodes nodes hk
  rw [nth, ← List.drop_drop, indexFile_drop, hrest, List.take_left' (length_encode_node _),
    ← List.append_nil (IndexRecord.codec.encode nodes[k]), Codec.readInto_encode]

theorem storedNodes_indexFile (nodes : List IndexRecord) :
    storedNodes (indexFile nodes) = nodes := by
  apply List.ext_getElem
  · rw [storedNodes, List.length_map, List.length_range, length_indexFile, Nat.add_sub_cancel_left,
      Nat.mul_div_cancel_left _ (by decide)]
  · intro k _ hk
    simp only [storedNodes, List.getElem_map, List.getElem_range, nth_indexFile nodes hk]

/-! ## What a call does to such a file -/

section

variable {card : CardFiles} {type : ℤ} {nodes : List IndexRecord}

/-- The index file of the type holds these records, or is not there yet and there are none. -/
inductive Indexed (card : CardFiles) (type : ℤ) : List IndexRecord → Prop where
  | absent : card (indexFileName type) = none → Indexed card type []
  | present {nodes : List IndexRecord} : card (indexFileName type) = some (indexFile nodes) →
      (indexFile nodes).length ≤ fileLimit → Indexed card type nodes

/-- The record `write_manage_info` appends. -/
def writtenNode (chNum : UInt32) (start stop : UInt64) : IndexRecord :=
  ⟨chNum, Vector.replicate 4 0, start, stop⟩

theorem writeManageInfo_eq (htype : indexFileName type ≠ "") (h : Indexed card type nodes)
    (chNum : UInt32) (start stop : UInt64) :
    writeManageInfo card type chNum start stop =
      if fileLimit < (indexFile (nodes ++ [writtenNode chNum start stop])).length then none
      else some (Function.update card (indexFileName type)
        (some (indexFile (nodes ++ [writtenNode chNum start stop]))), 0) := by
  have hbytes : (card (indexFileName type)).getD (word 0) = indexFile nodes := by
    cases h with
    | absent h => rw [h]; rfl
    | present h _ => rw [h]; rfl
  have hlt : nodes.length < 4294967296 := by
    cases h with
    | absent => decide
    | present _ h =>
      rw [length_indexFile, size, fileLimit] at h
      omega
  have hsplit : (indexFile (nodes ++ [writtenNode chNum start stop]))
      = word (nodes.length + 1) ++ (indexFile nodes
        ++ IndexRecord.codec.encode (writtenNode chNum start stop)).drop 4 := by
    rw [List.drop_append_of_le_length (by rw [length_indexFile]; omega), indexFile_drop, indexFile,
      List.length_append, List.flatMap_append, List.flatMap_singleton]
    rfl
  have hlen : (indexFile nodes ++ IndexRecord.codec.encode (writtenNode chNum start stop)).length
      = (indexFile (nodes ++ [writtenNode chNum start stop])).length := by
    rw [List.length_append, length_encode_node, length_indexFile, length_indexFile,
      List.length_append, List.length_singleton, Nat.mul_succ]
    omega
  rw [writeManageInfo, if_neg htype, hbytes, if_neg (by rw [length_indexFile]; omega),
    wordAt_indexFile, Nat.mod_eq_of_lt hlt]
  dsimp only
  rw [show ({ IndexRecord.zero with chNum := chNum, start := start, stop := stop } : IndexRecord)
    = writtenNode chNum start stop from rfl, hlen, ← hsplit]

/-- Where the loop stands at the first record near the times, and what it has copied. -/
theorem keepRecords_eq (begin stop : ℕ) (nodes : List IndexRecord) (i : ℕ) (buf : List UInt8) :
    let k := nodes.findIdx fun node => decide (node.Near begin stop)
    keepRecords begin stop nodes.length i ⟨nodes.flatMap IndexRecord.codec.encode, false⟩ buf
      = (i + k, ⟨(nodes.drop (k + 1)).flatMap IndexRecord.codec.encode, false⟩,
          buf ++ (nodes.take k).flatMap IndexRecord.codec.encode) := by
  induction nodes generalizing i buf with
  | nil =>
    show (i, _, buf) = (i + 0, _, buf ++ [])
    rw [List.append_nil]
    rfl
  | cons node nodes ih =>
    have hread : InStream.fread size ⟨(node :: nodes).flatMap IndexRecord.codec.encode, false⟩
        = (IndexRecord.codec.encode node,
          ⟨nodes.flatMap IndexRecord.codec.encode, false⟩) := by
      rw [InStream.fread, List.flatMap_cons, List.take_left' (length_encode_node node),
        List.drop_left' (length_encode_node node), List.length_append, length_encode_node]
      simp
    have hnode := IndexRecord.codec.readInto_encode .zero node []
    rw [List.append_nil] at hnode
    rw [List.length_cons, keepRecords, if_neg Bool.false_ne_true, hread]
    dsimp only
    rw [hnode, List.findIdx_cons]
    by_cases hnear : node.Near begin stop
    · rw [if_pos hnear, decide_eq_true hnear, cond_true, List.take_zero, List.flatMap_nil,
        List.append_nil]
      rfl
    · rw [if_neg hnear, ih, decide_eq_false hnear, cond_false, List.take_succ_cons,
        List.flatMap_cons, List.append_assoc, List.drop_succ_cons, Nat.add_right_comm, Nat.add_assoc]

/-- With a record near the times the first such record is taken out. -/
theorem searchRmNodeByName_eq (htype : indexFileName type ≠ "")
    (hfile : card (indexFileName type) = some (indexFile nodes))
    (hlimit : (indexFile nodes).length ≤ fileLimit) (file : NamedTimes) :
    searchRmNodeByName card file type =
      let k := nodes.findIdx fun node => decide (node.Near file.begin file.stop)
      if k = nodes.length then some (card, -2)
      else some (Function.update card (indexFileName type)
        (some (indexFile (nodes.eraseIdx k))), 0) := by
  have hcount : toInt32 (wordAt ((indexFile nodes).take 4) 0) = nodes.length := by
    rw [length_indexFile, size, fileLimit] at hlimit
    have htake : (indexFile nodes).take 4 = word nodes.length ++ [] := by
      rw [List.append_nil]
      exact List.take_left' (word_length _)
    rw [htake, wordAt_word, Nat.mod_eq_of_lt (by omega), toInt32_natCast (by omega)]
  have hgot : ¬((indexFile nodes).take 4).length < 4 := by
    rw [List.length_take, length_indexFile]
    omega
  have heof : (false || decide ((indexFile nodes).length < 4)) = false := by
    rw [length_indexFile]
    simp
  have hopen : openRead card (indexFileName type) = some ⟨indexFile nodes, false⟩ := by
    rw [openRead, if_neg htype, hfile, Option.map_some]
  rw [searchRmNodeByName, hopen]
  show (if ((indexFile nodes).take 4).length < 4 then _ else _) = _
  rw [if_neg hgot]
  dsimp only
  rw [hcount, heof, indexFile_drop, Int.toNat_natCast, keepRecords_eq]
  dsimp only
  generalize hk : nodes.findIdx (fun node => decide (node.Near file.begin file.stop)) = k
  have hle : k ≤ nodes.length := by
    rw [← hk]
    exact List.findIdx_le_length
  rw [Nat.zero_add, List.nil_append]
  by_cases hnone : k = nodes.length
  · rw [if_pos (by omega), if_pos hnone]
  · have hkept : (nodes.take k).flatMap IndexRecord.codec.encode
          ++ (nodes.drop (k + 1)).flatMap IndexRecord.codec.encode
        = (nodes.eraseIdx k).flatMap IndexRecord.codec.encode := by
      rw [List.eraseIdx_eq_take_drop_succ, List.flatMap_append]
    have hlen : ((nodes.eraseIdx k).flatMap IndexRecord.codec.encode).length
        = size * (nodes.length - 1) := by
      rw [length_encode_nodes, List.length_eraseIdx_of_lt (by omega)]
    have hbuf : (if 0 < nodes.length - (k + 1) then
          (nodes.take k).flatMap IndexRecord.codec.encode ++ (InStream.fread
            (size * (nodes.length - (k + 1)))
            ⟨(nodes.drop (k + 1)).flatMap IndexRecord.codec.encode, false⟩).1
        else (nodes.take k).flatMap IndexRecord.codec.encode)
        = (nodes.eraseIdx k).flatMap IndexRecord.codec.encode := by
      rw [← hkept]
      by_cases hlast : 0 < nodes.length - (k + 1)
      · have hrest : ((nodes.drop (k + 1)).flatMap IndexRecord.codec.encode).take
              (size * (nodes.length - (k + 1)))
            = (nodes.drop (k + 1)).flatMap IndexRecord.codec.encode := by
          apply List.take_of_length_le
          rw [length_encode_nodes, List.length_drop]
        rw [if_pos hlast, InStream.fread, hrest]
      · rw [if_neg hlast, List.drop_eq_nil_of_le (by omega), List.flatMap_nil, List.append_nil]
    rw [if_neg (by omega), if_neg (by omega), if_neg hnone, hbuf, List.take_left' hlen, indexFile,
      List.length_eraseIdx_of_lt (by omega)]

theorem Indexed.write (htype : indexFileName type ≠ "") (h : Indexed card type nodes)
    {chNum : UInt32} {start stop : UInt64} {after : CardFiles} {ret : ℤ}
    (hrun : writeManageInfo card type chNum start stop = some (after, ret)) :
    Indexed after type (nodes ++ [writtenNode chNum start stop]) ∧ ret = 0 := by
  rw [writeManageInfo_eq htype h] at hrun
  split at hrun
  · cases hrun
  · rename_i hlimit
    obtain ⟨rfl, rfl⟩ := Prod.mk.inj (Option.some.inj hrun)
    exact ⟨.present (Function.update_self ..) (Nat.not_lt.mp hlimit), rfl⟩

/-- A record that fits is written. -/
theorem Indexed.exists_write (htype : indexFileName type ≠ "") (h : Indexed card type nodes)
    (chNum : UInt32) (start stop : UInt64) (hfits : 4 + size * (nodes.length + 1) ≤ fileLimit) :
    ∃ after, writeManageInfo card type chNum start stop = some (after, 0)
      ∧ Indexed after type (nodes ++ [writtenNode chNum start stop]) := by
  have hrun := writeManageInfo_eq htype h chNum start stop
  rw [length_indexFile, List.length_append, List.length_singleton,
    if_neg (Nat.not_lt.mpr hfits)] at hrun
  exact ⟨_, hrun, (h.write htype hrun).1⟩

theorem Indexed.rm_of_near (htype : indexFileName type ≠ "") (h : Indexed card type nodes)
    {file : NamedTimes} (hnear : ∃ node ∈ nodes, node.Near file.begin file.stop)
    {after : CardFiles} {ret : ℤ} (hrun : searchRmNodeByName card file type = some (after, ret)) :
    Indexed after type
      (nodes.eraseIdx (nodes.findIdx fun node => decide (node.Near file.begin file.stop))) := by
  have hlt : nodes.findIdx (fun node => decide (node.Near file.begin file.stop)) < nodes.length := by
    obtain ⟨node, hmem, hnear⟩ := hnear
    exact List.findIdx_lt_length_of_exists ⟨node, hmem, decide_eq_true hnear⟩
  cases h with
  | absent => exact absurd hlt (Nat.not_lt_zero _)
  | present hfile hlimit =>
    rw [searchRmNodeByName_eq htype hfile hlimit] at hrun
    dsimp only at hrun
    rw [if_neg (Nat.ne_of_lt hlt)] at hrun
    obtain ⟨rfl, -⟩ := Prod.mk.inj (Option.some.inj hrun)
    refine .present (Function.update_self ..) (le_trans ?_ hlimit)
    rw [length_indexFile, length_indexFile, List.length_eraseIdx_of_lt hlt]
    have := Nat.mul_le_mul_left size (Nat.sub_le nodes.length 1)
    omega

theorem Indexed.rm_of_not_near (htype : indexFileName type ≠ "") (h : Indexed card type nodes)
    {file : NamedTimes} (hnear : ∀ node ∈ nodes, ¬node.Near file.begin file.stop)
    {after : CardFiles} {ret : ℤ} (hrun : searchRmNodeByName card file type = some (after, ret)) :
    after = card ∧ (card (indexFileName type) ≠ none → ret = -2) := by
  cases h with
  | absent hfile =>
    rw [searchRmNodeByName, openRead, if_neg htype, hfile] at hrun
    obtain ⟨rfl, -⟩ := Prod.mk.inj (Option.some.inj hrun)
    exact ⟨rfl, fun h => absurd hfile h⟩
  | present hfile hlimit =>
    have hnone : nodes.findIdx (fun node => decide (node.Near file.begin file.stop))
        = nodes.length :=
      List.findIdx_eq_length_of_false fun node hmem => decide_eq_false (hnear node hmem)
    rw [searchRmNodeByName_eq htype hfile hlimit] at hrun
    dsimp only at hrun
    rw [if_pos hnone] at hrun
    obtain ⟨rfl, rfl⟩ := Prod.mk.inj (Option.some.inj hrun)
    exact ⟨rfl, fun _ => rfl⟩

/-- One call. -/
theorem Indexed.run (htype : indexFileName type ≠ "") (h : Indexed card type nodes)
    {c : IndexCall} {after : CardFiles} {ret : ℤ} (hrun : c.run type card = some (after, ret)) :
    ∃ nodes', Indexed after type nodes' := by
  cases c with
  | write chNum start stop => exact ⟨_, (h.write htype hrun).1⟩
  | rm file =>
    by_cases hnear : ∃ node ∈ nodes, node.Near file.begin file.stop
    · exact ⟨_, h.rm_of_near htype hnear hrun⟩
    · obtain ⟨rfl, -⟩ := h.rm_of_not_near htype
        (fun node hmem hn => hnear ⟨node, hmem, hn⟩) hrun
      exact ⟨_, h⟩

theorem Indexed.runAll (htype : indexFileName type ≠ "") {calls : List IndexCall}
    (h : Indexed card type nodes) {after : CardFiles}
    (hrun : IndexCall.runAll type card calls = some after) : ∃ nodes', Indexed after type nodes' := by
  induction calls generalizing card nodes with
  | nil =>
    obtain rfl := Option.some.inj hrun
    exact ⟨nodes, h⟩
  | cons c calls ih =>
    obtain ⟨⟨next, ret⟩, hcall, hrest⟩ := Option.bind_eq_some_iff.mp hrun
    obtain ⟨nodes', h'⟩ := h.run htype hcall
    exact ih h' hrest

end

/-! ## What the calls should do -/

section

variable (card : CardFiles) (type : ℤ)

/-- The records of the type's index file. -/
def cardNodes : List IndexRecord := ((card (indexFileName type)).map storedNodes).getD []

/-- The count in the type's index file. -/
def cardCount : ℤ := ((card (indexFileName type)).map countOf).getD 0

/-- The file, if it is there, holds as many records as it says and nothing else. -/
def CountRight : Prop :=
  ∀ bytes, card (indexFileName type) = some bytes →
    countOf bytes = (storedNodes bytes).length
      ∧ bytes.length = 4 + size * (storedNodes bytes).length

end

namespace IndexCall

/-- What a call should do: append exactly the record given; take out one record with exactly the
times of the name if there is one, and change nothing if there is none within the tolerance. -/
def Does (type : ℤ) (before after : CardFiles) (ret : ℤ) : IndexCall → Prop
  | write chNum start stop =>
      cardNodes after type = cardNodes before type ++ [writtenNode chNum start stop] ∧ ret = 0
  | rm file => before (indexFileName type) ≠ none →
      ((∃ node ∈ cardNodes before type, node.HasTimes file.begin file.stop) →
        ∃ k, ∃ hk : k < (cardNodes before type).length,
          (cardNodes before type)[k].HasTimes file.begin file.stop
            ∧ cardNodes after type = (cardNodes before type).eraseIdx k
            ∧ cardCount after type = cardCount before type - 1)
      ∧ ((∀ node ∈ cardNodes before type, ¬node.Near file.begin file.stop) →
        ret = -2 ∧ after = before)

/-- The first record within the tolerance of the name has exactly its times, if some record has. -/
def FirstNearExact (type : ℤ) (before : CardFiles) : IndexCall → Prop
  | write _ _ _ => True
  | rm file => (∃ node ∈ cardNodes before type, node.HasTimes file.begin file.stop) →
      ∀ node, (cardNodes before type).find? (fun node => node.Near file.begin file.stop) = some node →
        node.HasTimes file.begin file.stop

end IndexCall

section

variable {card : CardFiles} {type : ℤ} {nodes : List IndexRecord}

theorem Indexed.cardNodes_eq (h : Indexed card type nodes) : cardNodes card type = nodes := by
  cases h with
  | absent h => rw [cardNodes, h]; rfl
  | present h _ => rw [cardNodes, h, Option.map_some, Option.getD_some, storedNodes_indexFile]

theorem countOf_indexFile (hlimit : (indexFile nodes).length ≤ fileLimit) :
    countOf (indexFile nodes) = nodes.length := by
  rw [length_indexFile, size, fileLimit] at hlimit
  rw [countOf, wordAt_indexFile, Nat.mod_eq_of_lt (by omega), toInt32_natCast (by omega)]

theorem Indexed.cardCount_eq (h : Indexed card type nodes) : cardCount card type = nodes.length := by
  cases h with
  | absent h => rw [cardCount, h]; rfl
  | present h hlimit =>
    rw [cardCount, h, Option.map_some, Option.getD_some, countOf_indexFile hlimit]

theorem Indexed.countRight (h : Indexed card type nodes) : CountRight card type := by
  intro bytes hbytes
  cases h with
  | absent h =>
    rw [h] at hbytes
    cases hbytes
  | present h hlimit =>
    rw [h] at hbytes
    obtain rfl := Option.some.inj hbytes
    rw [storedNodes_indexFile, countOf_indexFile hlimit, length_indexFile]
    exact ⟨rfl, rfl⟩

end

/-- A list without one entry tells which value is missing. -/
theorem getElem_eq_of_eraseIdx_eq {α : Type*} {l : List α} {i j : ℕ} (hi : i < l.length)
    (hj : j < l.length) (h : l.eraseIdx i = l.eraseIdx j) : l[i] = l[j] := by
  have hperm : (l[i] :: l.eraseIdx j).Perm (l[j] :: l.eraseIdx j) :=
    (h ▸ List.getElem_cons_eraseIdx_perm hi).trans (List.getElem_cons_eraseIdx_perm hj).symm
  exact (Multiset.cons_inj_left (l.eraseIdx j : Multiset α)).mp (Multiset.coe_eq_coe.mpr hperm)

/-- A call on a file that holds as many records as it says. -/
theorem Indexed.does_iff {card : CardFiles} {type : ℤ} {nodes : List IndexRecord}
    (htype : indexFileName type ≠ "") (h : Indexed card type nodes) {c : IndexCall}
    {after : CardFiles} {ret : ℤ} (hrun : c.run type card = some (after, ret)) :
    c.Does type card after ret ↔ c.FirstNearExact type card := by
  cases c with
  | write chNum start stop =>
    obtain ⟨h', hret⟩ := h.write htype hrun
    rw [IndexCall.Does, IndexCall.FirstNearExact, h'.cardNodes_eq, h.cardNodes_eq]
    exact ⟨fun _ => trivial, fun _ => ⟨rfl, hret⟩⟩
  | rm file =>
    rw [IndexCall.Does, IndexCall.FirstNearExact, h.cardNodes_eq, h.cardCount_eq]
    by_cases hnear : ∃ node ∈ nodes, node.Near file.begin file.stop
    · have h' := h.rm_of_near htype hnear hrun
      have hlt : nodes.findIdx (fun node => decide (node.Near file.begin file.stop))
          < nodes.length := by
        obtain ⟨node, hmem, hnear⟩ := hnear
        exact List.findIdx_lt_length_of_exists ⟨node, hmem, decide_eq_true hnear⟩
      have hfind : nodes.find? (fun node => decide (node.Near file.begin file.stop))
          = some nodes[nodes.findIdx fun node => decide (node.Near file.begin file.stop)] := by
        rw [List.find?_eq_getElem?_findIdx, List.getElem?_eq_getElem hlt]
      have hthere : card (indexFileName type) ≠ none := by
        cases h with
        | absent => exact absurd hlt (Nat.not_lt_zero _)
        | present hfile _ => exact fun hnone => absurd (hfile.symm.trans hnone) (by simp)
      rw [h'.cardNodes_eq, h'.cardCount_eq, hfind, List.length_eraseIdx_of_lt hlt]
      constructor
      · intro hdoes hexact node hnode
        obtain ⟨k, hk, htimes, herase, -⟩ := (hdoes hthere).1 hexact
        obtain rfl := Option.some.inj hnode
        rw [getElem_eq_of_eraseIdx_eq hlt hk herase]
        exact htimes
      · intro hfirst _
        constructor
        · intro hexact
          exact ⟨_, hlt, hfirst hexact _ rfl, rfl, by omega⟩
        · intro hnot
          obtain ⟨node, hmem, hnode⟩ := hnear
          exact absurd hnode (hnot node hmem)
    · have hnot : ∀ node ∈ nodes, ¬node.Near file.begin file.stop :=
        fun node hmem hn => hnear ⟨node, hmem, hn⟩
      obtain ⟨rfl, hret⟩ := h.rm_of_not_near htype hnot hrun
      constructor
      · rintro - ⟨node, hmem, htimes⟩
        exact absurd (Or.inl htimes) (hnot node hmem)
      · intro _ hthere
        constructor
        · rintro ⟨node, hmem, htimes⟩
          exact absurd (Or.inl htimes) (hnot node hmem)
        · exact fun _ => ⟨hret hthere, rfl⟩

namespace IndexCall

/-- After any calls, from no file on, the file holds as many records as it says, and the next call
does what it should exactly if, for a removal, the first record within the tolerance is one with
exactly the times of the name, where there is one. -/
theorem index_calls_exact_iff {type : ℤ} (htype : indexFileName type ≠ "") {card : CardFiles}
    (hcard : card (indexFileName type) = none) {calls : List IndexCall} {before : CardFiles}
    (hcalls : runAll type card calls = some before) {c : IndexCall} {after : CardFiles} {ret : ℤ}
    (hrun : c.run type before = some (after, ret)) :
    CountRight after type ∧ (c.Does type before after ret ↔ c.FirstNearExact type before) := by
  obtain ⟨nodes, h⟩ := (Indexed.absent hcard).runAll htype hcalls
  obtain ⟨nodes', h'⟩ := h.run htype hrun
  exact ⟨h'.countRight, h.does_iff htype hrun⟩

/-- A record is written and removed again. -/
theorem index_calls_write_rm :
    ∃ before after,
      runAll 1 (fun _ => none) [write 0 20120101010101 20120101010201] = some before
        ∧ (rm ⟨"ch0_20120101010101_20120101010201.avi".toList, 0, 0⟩).run 1 before = some (after, 0)
        ∧ CountRight after 1
        ∧ ((rm ⟨"ch0_20120101010101_20120101010201.avi".toList, 0, 0⟩).Does 1 before after 0
          ↔ (rm ⟨"ch0_20120101010101_20120101010201.avi".toList, 0, 0⟩).FirstNearExact 1 before) := by
  have htype : indexFileName 1 ≠ "" := by decide
  have hnone : Indexed (fun _ => none) 1 [] := .absent rfl
  obtain ⟨before, hcall, h⟩ := hnone.exists_write htype 0 20120101010101 20120101010201 (by decide)
  have hcalls : runAll 1 (fun _ => none) [write 0 20120101010101 20120101010201] = some before := by
    rw [runAll, IndexCall.run, hcall]
    rfl
  cases h with
  | present hfile hlimit =>
    have hrun := searchRmNodeByName_eq htype hfile hlimit
      ⟨"ch0_20120101010101_20120101010201.avi".toList, 0, 0⟩
    dsimp only at hrun
    rw [if_neg (by decide +kernel)] at hrun
    exact ⟨_, _, hcalls, hrun, index_calls_exact_iff htype rfl hcalls hrun⟩

/-- A record written first whose times are two seconds later goes instead of the one named. -/
theorem index_calls_neighbour :
    ∃ (calls : List IndexCall) (before after : CardFiles) (c : IndexCall) (ret : ℤ),
      runAll 1 (fun _ => none) calls = some before ∧ c.run 1 before = some (after, ret)
        ∧ ¬c.Does 1 before after ret := by
  have htype : indexFileName 1 ≠ "" := by decide
  have hnone : Indexed (fun _ => none) 1 [] := .absent rfl
  obtain ⟨first, hfirst, h₁⟩ := hnone.exists_write htype 0 20120101010103 20120101010203 (by decide)
  obtain ⟨before, hsecond, h₂⟩ := h₁.exists_write htype 0 20120101010101 20120101010201 (by decide)
  have hcalls : runAll 1 (fun _ => none) [write 0 20120101010103 20120101010203,
      write 0 20120101010101 20120101010201] = some before := by
    rw [runAll, IndexCall.run, hfirst, Option.bind_some, runAll, IndexCall.run, hsecond]
    rfl
  cases h₂ with
  | present hfile hlimit =>
    have hrun := searchRmNodeByName_eq htype hfile hlimit
      ⟨"ch0_20120101010101_20120101010201.avi".toList, 0, 0⟩
    dsimp only at hrun
    rw [if_neg (by decide +kernel)] at hrun
    have hcall : (rm ⟨"ch0_20120101010101_20120101010201.avi".toList, 0, 0⟩).run 1 before
      = some (_, 0) := hrun
    have h : Indexed before 1 _ := .present hfile hlimit
    refine ⟨_, _, _, _, 0, hcalls, hcall, ?_⟩
    rw [h.does_iff htype hcall, FirstNearExact, h.cardNodes_eq]
    intro hnear
    exact absurd (hnear (by decide +kernel) (writtenNode 0 20120101010103 20120101010203)
      (by decide +kernel)) (by decide +kernel)

end IndexCall
