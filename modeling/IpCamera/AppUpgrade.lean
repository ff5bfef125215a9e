/-
# The upgrade from the app (`tutk_msg_handle.c`)

`app_upgrade_req_handle` stores packets 0, 1, .. of an upload and calls
`tutk_start_updatedeal` at the packet with the end flag that makes up the total.
The file, the byte count and the last index survive from packet to packet: packet 0
resets none of them, and completion leaves the byte count.

`Upload` is what the handler is for: the packets received in order since the latest
packet 0.  `uploads_exact` says in which runs the handler agrees with it.
-/
import IpCamera.ByteMemory

/-! ## The handler -/

/-- `SMsgAVIoctrlUpgradeSystemReq`; `data` are the `size` bytes of `szBuf`. -/
structure UpgradeReq where
  total : ℕ
  index : ℕ
  endflag : ℕ
  data : List UInt8
  total_lt : total < 4294967296
  index_lt : index < 65536
  size_lt : data.length < 4294967296

namespace UpgradeReq

def size (p : UpgradeReq) : ℕ := p.data.length

end UpgradeReq

/-- The globals of the upload; `fileOpen` is `g_upgrade_fp != NULL`, and `stored` is the file
`UPGRADE_TMP_FILE_PATH`.  The `int` byte count is its 32 bits. -/
structure AppUpgrade where
  fileOpen : Bool
  stored : List UInt8
  upgradeSizeAdd : ℕ
  upgradePackIndex : ℕ
  tutkUpdateing : ℤ
deriving DecidableEq

/-- Outcomes of a packet: the open, and the bytes the write stores. -/
structure UploadIo where
  openOk : Bool
  written : ℕ

namespace AppUpgrade

/-- The globals as they are initialised. -/
def init (stored : List UInt8) : AppUpgrade := ⟨false, stored, 0, 0, -1⟩

/-- What the handler does before it returns early. -/
def reject (s : AppUpgrade) : AppUpgrade :=
  { s with fileOpen := false, upgradeSizeAdd := 0, upgradePackIndex := 0, tutkUpdateing := -1 }

/-- `fopen(UPGRADE_TMP_FILE_PATH, "w")` if the file is not open. -/
def openFile (s : AppUpgrade) : AppUpgrade :=
  if s.fileOpen = false then { s with fileOpen := true, stored := [] } else s

/-- The packet is neither packet 0 nor the one after the last. -/
def Rejects (s : AppUpgrade) (p : UpgradeReq) : Prop :=
  p.index ≠ 0 ∧ p.index ≠ s.upgradePackIndex + 1

instance (s : AppUpgrade) (p : UpgradeReq) : Decidable (s.Rejects p) :=
  inferInstanceAs (Decidable (_ ∧ _))

/-- `fwrite`, the byte count and the last index. -/
def storePacket (s : AppUpgrade) (p : UpgradeReq) (io : UploadIo) : AppUpgrade :=
  { s with
    tutkUpdateing := if p.index = 0 then 1 else s.tutkUpdateing
    stored := s.stored ++ p.data.take io.written
    upgradeSizeAdd := (s.upgradeSizeAdd + p.size) % 4294967296
    upgradePackIndex := p.index }

/-- `app_upgrade_req_handle`, with the file `tutk_start_updatedeal` is called for. -/
def appUpgradeReqHandle (s : AppUpgrade) (p : UpgradeReq) (io : UploadIo) :
    AppUpgrade × Option (List UInt8) :=
  if s.fileOpen = false ∧ io.openOk = false then (s.reject, none)
  else
    let s := s.openFile
    if s.Rejects p then (s.reject, none)
    else
      let s := s.storePacket p io
      if p.endflag ≠ 0 ∧ s.upgradeSizeAdd = p.total then
        ({ s with fileOpen := false, upgradePackIndex := 0 }, some s.stored)
      else (s, none)

end AppUpgrade

/-! ## Uploads -/

/-- The packets received in order since the latest packet 0, if every packet since then was the next
one. -/
abbrev Upload := Option (List UpgradeReq)

namespace Upload

/-- One packet more. -/
def step (u : Upload) (p : UpgradeReq) : Upload :=
  if p.index = 0 then some [p]
  else
    match u with
    | none => none
    | some ps => if p.index = ps.length then some (ps ++ [p]) else none

/-- The bytes of the packets. -/
def bytesOf (ps : List UpgradeReq) : List UInt8 := ps.flatMap UpgradeReq.data

/-- The packet has the end flag, and the sizes of the packets add up to its total. -/
def Completes (u : Upload) (p : UpgradeReq) : Prop :=
  p.endflag ≠ 0 ∧ ∃ ps, u.step p = some ps ∧ (bytesOf ps).length = p.total

end Upload

/-- The handler and the upload it should be following. -/
structure UploadSystem where
  handler : AppUpgrade
  upload : Upload

namespace UploadSystem

/-- Before the first packet. -/
def init (stored : List UInt8) : UploadSystem := ⟨.init stored, none⟩

/-- One packet, the file operations succeeding. -/
def step (s : UploadSystem) (p : UpgradeReq) : UploadSystem :=
  ⟨(s.handler.appUpgradeReqHandle p ⟨true, p.size⟩).1, s.upload.step p⟩

/-- What `tutk_start_updatedeal` is called for at this packet. -/
def startsFor (s : UploadSystem) (p : UpgradeReq) : Option (List UInt8) :=
  (s.handler.appUpgradeReqHandle p ⟨true, p.size⟩).2

/-- At this packet the upgrade is started if and only if the packet completes the upload, and then
the file holds exactly its bytes. -/
def ExactAt (s : UploadSystem) (p : UpgradeReq) : Prop :=
  ((s.startsFor p).isSome ↔ s.upload.Completes p)
    ∧ ∀ file, s.startsFor p = some file → ∃ ps, s.upload.step p = some ps ∧ file = Upload.bytesOf ps

/-- Packet 0 finds the file closed and the byte count at zero; a packet that finds the file closed is
neither packet 1 nor the next one of the upload before; and the byte count stays below 2^32. -/
def FreshAt (s : UploadSystem) (p : UpgradeReq) : Prop :=
  (p.index = 0 → s.handler.fileOpen = false ∧ s.handler.upgradeSizeAdd = 0)
    ∧ (s.handler.fileOpen = false → p.index ≠ 1
      ∧ ∀ ps, s.upload = some ps → p.index ≠ 0 → p.index ≠ ps.length)
    ∧ s.handler.upgradeSizeAdd + p.size < 4294967296

/-- `P` holds at every packet, in the state it finds. -/
def EveryPacket (P : UploadSystem → UpgradeReq → Prop) : UploadSystem → List UpgradeReq → Prop
  | _, [] => True
  | s, p :: ps => P s p ∧ EveryPacket P (s.step p) ps

end UploadSystem

/-! ## The invariant -/

namespace AppUpgrade

/-- A packet that is turned down. -/
theorem handle_rejects {s : AppUpgrade} {p : UpgradeReq} (io : UploadIo) (hopen : io.openOk = true)
    (hrej : s.Rejects p) : s.appUpgradeReqHandle p io = (s.openFile.reject, none) := by
  have hrej' : s.openFile.Rejects p := by
    unfold openFile
    split
    · exact hrej
    · exact hrej
  unfold appUpgradeReqHandle
  rw [if_neg fun h => absurd hopen (by rw [h.2]; decide)]
  exact if_pos hrej'

/-- A packet that is stored. -/
theorem handle_stores {s : AppUpgrade} {p : UpgradeReq} (io : UploadIo) (hopen : io.openOk = true)
    (hrej : ¬ s.Rejects p) :
    s.appUpgradeReqHandle p io =
      if p.endflag ≠ 0 ∧ (s.openFile.storePacket p io).upgradeSizeAdd = p.total then
        ({ s.openFile.storePacket p io with fileOpen := false, upgradePackIndex := 0 },
          some (s.openFile.storePacket p io).stored)
      else (s.openFile.storePacket p io, none) := by
  have hrej' : ¬ s.openFile.Rejects p := by
    unfold openFile
    split
    · exact hrej
    · exact hrej
  unfold appUpgradeReqHandle
  rw [if_neg fun h => absurd hopen (by rw [h.2]; decide)]
  exact if_neg hrej'

end AppUpgrade

/-- What a packet may do to an upload: begin it, or continue it. -/
theorem Upload.step_eq_some {u : Upload} {p : UpgradeReq} {ps : List UpgradeReq} :
    u.step p = some ps ↔ (p.index = 0 ∧ ps = [p])
      ∨ (p.index ≠ 0 ∧ ∃ qs, u = some qs ∧ p.index = qs.length ∧ ps = qs ++ [p]) := by
  unfold Upload.step
  by_cases hzero : p.index = 0
  · simp [hzero, eq_comm]
  · cases u with
    | none => simp [hzero]
    | some qs =>
      by_cases hnext : p.index = qs.length
      · simp [hnext, eq_comm] at hzero ⊢
        simp [hzero]
      · simp [hzero, hnext]

theorem Upload.bytesOf_concat (ps : List UpgradeReq) (p : UpgradeReq) :
    Upload.bytesOf (ps ++ [p]) = Upload.bytesOf ps ++ p.data := by
  simp [Upload.bytesOf]

namespace UploadSystem

/-- While the file is open it holds the upload so far, and the byte count and the last index are
those of the upload.  Once it is closed the last index is zero. -/
structure Following (s : UploadSystem) : Prop where
  opened : s.handler.fileOpen = true → ∃ ps, s.upload = some ps ∧ ps ≠ []
    ∧ s.handler.stored = Upload.bytesOf ps
    ∧ s.handler.upgradeSizeAdd = (Upload.bytesOf ps).length
    ∧ s.handler.upgradePackIndex + 1 = ps.length
  closed : s.handler.fileOpen = false → s.handler.upgradePackIndex = 0

variable {s : UploadSystem} {p : UpgradeReq}

theorem init_following (stored : List UInt8) : Following (init stored) where
  opened := fun h => absurd h Bool.false_ne_true
  closed := fun _ => rfl

/-- The handler turns down what does not continue the upload. -/
theorem Following.rejects_iff (h : Following s) (hfresh : s.FreshAt p) :
    s.handler.Rejects p ↔ s.upload.step p = none := by
  unfold AppUpgrade.Rejects Upload.step
  by_cases hzero : p.index = 0
  · simp [hzero]
  · rw [if_neg hzero]
    cases hopen : s.handler.fileOpen with
    | true =>
      -- the last index is that of the upload
      obtain ⟨ps, hps, -, -, -, hindex⟩ := h.opened hopen
      rw [hps, hindex]
      by_cases hnext : p.index = ps.length
      · simp [hnext]
      · simp [hnext, hzero]
    | false =>
      -- the last index is zero, so only packet 1 would be taken
      obtain ⟨hone, hnext⟩ := hfresh.2.1 hopen
      rw [h.closed hopen]
      cases hup : s.upload with
      | none => simp [hzero, hone]
      | some ps => simp [hzero, hone, hnext ps hup hzero]

/-- A packet that continues the upload is stored behind it. -/
theorem Following.stores (h : Following s) (hfresh : s.FreshAt p) {ps : List UpgradeReq}
    (hstep : s.upload.step p = some ps) :
    (s.handler.openFile.storePacket p ⟨true, p.size⟩).stored = Upload.bytesOf ps
      ∧ (s.handler.openFile.storePacket p ⟨true, p.size⟩).upgradeSizeAdd
          = (Upload.bytesOf ps).length
      ∧ p.index + 1 = ps.length := by
  have htake : p.data.take p.size = p.data := List.take_of_length_le le_rfl
  have hmod : (s.handler.upgradeSizeAdd + p.size) % 4294967296
      = s.handler.upgradeSizeAdd + p.size := Nat.mod_eq_of_lt hfresh.2.2
  obtain ⟨hzero, rfl⟩ | ⟨hzero, qs, hup, hnext, rfl⟩ := Upload.step_eq_some.mp hstep
  · -- a new upload
    obtain ⟨hclosed, hcount⟩ := hfresh.1 hzero
    have hfile : s.handler.openFile = { s.handler with fileOpen := true, stored := [] } :=
      if_pos hclosed
    rw [hfile]
    refine ⟨?_, ?_, ?_⟩
    · show [] ++ p.data.take p.size = _
      rw [htake]
      simp [Upload.bytesOf]
    · show (s.handler.upgradeSizeAdd + p.size) % 4294967296 = _
      rw [hmod, hcount]
      simp [Upload.bytesOf, UpgradeReq.size]
    · rw [hzero]
      rfl
  · have hopen : s.handler.fileOpen = true := by
      by_contra hc
      exact (hfresh.2.1 (by simpa using hc)).2 qs hup hzero hnext
    obtain ⟨qs', hup', -, hstored, hcount, -⟩ := h.opened hopen
    obtain rfl : qs = qs' := Option.some.inj (hup.symm.trans hup')
    have hfile : s.handler.openFile = s.handler := if_neg (by rw [hopen]; decide)
    rw [hfile, Upload.bytesOf_concat]
    refine ⟨?_, ?_, ?_⟩
    · show s.handler.stored ++ p.data.take p.size = _
      rw [htake, hstored]
    · show (s.handler.upgradeSizeAdd + p.size) % 4294967296 = _
      rw [hmod, hcount, List.length_append]
      rfl
    · rw [hnext, List.length_append]
      rfl

/-- One packet: the handler follows the upload, and starts the upgrade when it should. -/
theorem Following.step (h : Following s) (hfresh : s.FreshAt p) :
    s.ExactAt p ∧ Following (s.step p) := by
  unfold ExactAt startsFor UploadSystem.step Upload.Completes
  cases hstep : s.upload.step p with
  | none =>
    rw [AppUpgrade.handle_rejects ⟨true, p.size⟩ rfl ((h.rejects_iff hfresh).mpr hstep)]
    refine ⟨⟨?_, ?_⟩, fun hc => absurd hc Bool.false_ne_true, fun _ => rfl⟩
    · simp
    · intro file hfile
      cases hfile
  | some ps =>
    have hrej : ¬ s.handler.Rejects p := by
      rw [h.rejects_iff hfresh, hstep]
      exact Option.some_ne_none ps
    obtain ⟨hstored, hcount, hindex⟩ := h.stores hfresh hstep
    rw [AppUpgrade.handle_stores ⟨true, p.size⟩ rfl hrej]
    by_cases hdone : p.endflag ≠ 0
        ∧ (s.handler.openFile.storePacket p ⟨true, p.size⟩).upgradeSizeAdd = p.total
    · rw [if_pos hdone]
      refine ⟨⟨?_, ?_⟩, fun hc => absurd hc Bool.false_ne_true, fun _ => rfl⟩
      · rw [hcount] at hdone
        exact iff_of_true rfl ⟨hdone.1, ps, rfl, hdone.2⟩
      · intro file hfile
        obtain rfl := Option.some.inj hfile
        exact ⟨ps, rfl, hstored⟩
    · rw [if_neg hdone]
      refine ⟨⟨?_, ?_⟩, fun _ => ?_, fun hc => ?_⟩
      · refine iff_of_false Bool.false_ne_true ?_
        rintro ⟨hend, qs, hqs, htotal⟩
        obtain rfl := Option.some.inj hqs
        exact hdone ⟨hend, hcount.trans htotal⟩
      · intro file hfile
        cases hfile
      · refine ⟨ps, rfl, ?_, hstored, hcount, hindex⟩
        rintro rfl
        cases hindex
      · have hopened : s.handler.openFile.fileOpen = true := by
          unfold AppUpgrade.openFile
          split
          · rfl
          · rename_i hopen
            simpa using hopen
        rw [show s.handler.openFile.fileOpen = false from hc] at hopened
        cases hopened

/-- In every run in which packet 0 finds the file closed and the byte count at zero, no other packet
is taken for the beginning or the end of an upload, and the byte count does not overflow: the
upgrade is started exactly at the packets that complete an upload, with exactly its bytes. -/
theorem uploads_exact (stored : List UInt8) (ps : List UpgradeReq)
    (hfresh : EveryPacket FreshAt (init stored) ps) : EveryPacket ExactAt (init stored) ps := by
  have hinit := init_following stored
  revert hinit hfresh
  generalize init stored = s
  induction ps generalizing s with
  | nil => intro _ _; trivial
  | cons p ps ih =>
    intro hfresh hinit
    obtain ⟨hexact, hnext⟩ := Following.step hinit hfresh.1
    exact ⟨hexact, ih _ hfresh.2 hnext⟩

/-- A packet of one byte. -/
def bytePacket (index endflag total : ℕ) (ht : total < 4294967296) (hi : index < 65536) :
    UpgradeReq := ⟨total, index, endflag, [0], ht, hi, by decide⟩

/-- An upload of two packets. -/
theorem uploads_exact_sample :
    EveryPacket ExactAt (init [])
      [bytePacket 0 0 2 (by decide) (by decide), bytePacket 1 1 2 (by decide) (by decide)] := by
  apply uploads_exact
  refine ⟨⟨fun _ => ⟨rfl, rfl⟩, fun _ => ⟨by decide, ?_⟩, by decide⟩,
    ⟨fun h => absurd h (by decide), fun h => absurd h (by decide), by decide⟩, trivial⟩
  intro ps hps
  cases hps

/-- After a complete upload the next one is not started: its bytes are counted on top. -/
theorem uploads_inexact :
    ¬ EveryPacket ExactAt (init [])
      [bytePacket 0 1 1 (by decide) (by decide), bytePacket 0 1 1 (by decide) (by decide)] := by
  rintro ⟨-, ⟨hiff, -⟩, -⟩
  have hstart := hiff.mpr ⟨by decide, _, rfl, rfl⟩
  exact absurd hstart (by decide)

end UploadSystem
