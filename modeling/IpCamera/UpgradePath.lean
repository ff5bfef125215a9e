/-
# From the input files to the upgrade

`mkupgrade` writes a package, `upgrade_tool` sends it, and the handler of the camera stores it and
starts the upgrade with what it has stored.  The three have been looked at one by one;
`package_delivered_iff` puts them together: what the upgrade starts with is one file, and read as a
package it is the head that was built, with the bytes of every input file in its own region.
-/
import IpCamera.UpgradePackage
import IpCamera.UpgradeTool
import Mathlib.Data.List.GetD

/-! ## Files and their bytes -/

namespace StdioFile

/-- `fopen` with mode `rb` of a file with these bytes. -/
def ofBytes (l : List UInt8) : StdioFile where
  bytes := listMem l
  size := l.length
  pos := 0
  zero_beyond _ hx := List.getD_eq_default _ _ hx

/-- What is on the disk. -/
def content (f : StdioFile) : List UInt8 := loadBytes f.bytes 0 f.size

theorem length_content (f : StdioFile) : f.content.length = f.size := loadBytes_length _ _ _

/-- A file that is opened again. -/
theorem ofBytes_content (f : StdioFile) : ofBytes f.content = f.fseek 0 := by
  have hbytes : listMem f.content = f.bytes := by
    funext x
    by_cases hx : x < f.size
    · have hlt : x < f.content.length := by rwa [length_content]
      have hget : f.content[x] = f.bytes (0 + x) := by
        simp only [content, loadBytes, List.getElem_map, List.getElem_range]
      rw [listMem, List.getD_eq_getElem _ _ hlt, hget, Nat.zero_add]
    · rw [f.zero_beyond x (by omega)]
      exact List.getD_eq_default _ _ (by rw [length_content]; omega)
  have hsize := length_content f
  unfold ofBytes fseek
  congr

end StdioFile

/-! ## The image -/

theorem upgradePackets_small {bytes : List UInt8} (hsmall : bytes.length < 2147483648)
    (session : ℕ) : upgradePackets session bytes
      = sendPackets session (0 + (bytes.length / maxBlockSize + 1) : ℕ)
          (bytes.length / maxBlockSize + 1) 0 bytes := by
  unfold upgradePackets
  rw [(requestInfo_small hsmall).1, Nat.zero_add, Int.toNat_natCast]

theorem length_upgradePackets {bytes : List UInt8} (hsmall : bytes.length < 2147483648)
    (session : ℕ) : (upgradePackets session bytes).length = bytes.length / maxBlockSize + 1 := by
  rw [upgradePackets_small hsmall]
  exact (sendPackets_blocks session _ 0 bytes rfl).2.1

theorem flatten_upgradePackets {bytes : List UInt8} (hsmall : bytes.length < 2147483648)
    (session : ℕ) : ((upgradePackets session bytes).map BinStream.data).flatten = bytes := by
  rw [upgradePackets_small hsmall]
  exact (sendPackets_blocks session _ 0 bytes rfl).1

/-- What the tool sends of an image below 2^31 bytes is what it announces, cut into packets. -/
def sentImage (session : ℕ) (bytes : List UInt8) (hsmall : bytes.length < 2147483648) :
    UpgradeImage where
  packets := (upgradePackets session bytes).map BinStream.data
  packets_lt := by
    have hle := Nat.div_le_self bytes.length maxBlockSize
    rw [List.length_map, length_upgradePackets hsmall]
    omega
  bytes_lt := by
    rw [flatten_upgradePackets hsmall]
    omega

section Image

variable {session : ℕ} {bytes : List UInt8} (hsmall : bytes.length < 2147483648)

theorem sentImage_bytes : (sentImage session bytes hsmall).bytes = bytes :=
  flatten_upgradePackets hsmall session

theorem sentImage_info : (sentImage session bytes hsmall).info = requestInfo bytes.length := by
  have hcount : (sentImage session bytes hsmall).packets.length
      = bytes.length / maxBlockSize + 1 := by
    show ((upgradePackets session bytes).map BinStream.data).length = _
    rw [List.length_map, length_upgradePackets hsmall]
  rw [UpgradeImage.info, sentImage_bytes hsmall, hcount, (requestInfo_small hsmall).2]

/-- The camera takes the request and then every packet. -/
theorem image_transferred (hlt : bytes.length < 2147483648) {h : PuUpgHandle} {io : ReqIo}
    (startOk : Bool) (hr : h.Reachable) (hrun : io.running = false) (hopen : io.openOk = true) :
    Transferred h bytes io startOk := by
  obtain ⟨hrep, hidle⟩ := hr.idle
  obtain ⟨hfile, hsession, hrec⟩ :=
    h.msgNetUpgradeReq_receiving hidle hrun hrep hopen (sentImage io.session bytes hlt)
  rw [sentImage_info hlt] at hfile hsession hrec
  have hflag : ∀ bs ∈ upgradePackets io.session bytes, bs.flag = io.session := by
    rw [upgradePackets_small hlt]
    exact (sendPackets_blocks io.session _ 0 bytes rfl).2.2
  have hne : upgradePackets io.session bytes ≠ [] := fun hnil => by
    have hlen := length_upgradePackets hlt io.session
    rw [hnil, List.length_nil] at hlen
    exact Nat.succ_ne_zero _ hlen.symm
  have hdone := hrec.receive startOk (upgradePackets io.session bytes) hfile
    (fun bs hbs => by rw [hflag bs hbs, hsession]) hne rfl
  rwa [sentImage_bytes hlt] at hdone

end Image

/-! ## The package -/

namespace MkUpgrade

variable {files : List InputFile} {info : PacketInfo} {fd : StdioFile}

/-- What is said of a package does not depend on where the file stands. -/
theorem Exact.fseek (h : Exact files info fd) : Exact files info (fd.fseek 0) where
  readsBack := h.readsBack
  count := h.count
  total := h.total
  name := h.name
  size := h.size
  region := h.region
  inFile := h.inFile
  first := h.first
  contiguous := h.contiguous
  disjoint := h.disjoint
  behindHead := h.behindHead

/-- The length of the package. -/
theorem mkupgrade_size {arg : List UInt8} {date : Vector UInt8 16}
    (h : mkupgrade arg date files = .ok (info, fd))
    (hlong : ∀ f ∈ files, f.bytes.length < 4294967296) :
    fd.size = headLen files.length + (files.flatMap InputFile.bytes).length := by
  obtain ⟨-, -, t, hpacked, -, hhead⟩ := mkupgrade_ok h
  have hstored : storedBytes files = files.flatMap InputFile.bytes := by
    refine List.flatMap_congr fun f hf => ?_
    rw [InputFile.stored, InputFile.storedLen, Nat.mod_eq_of_lt (hlong f hf), List.take_length]
  have hsize := pkgAddHead_size hpacked
  rwa [hhead, hstored] at hsize

/-- Files that the head has room for are packed. -/
theorem packed_of_accepted {arg : List UInt8} {date : Vector UInt8 16} (hne : files ≠ [])
    (haccepted : mkupgrade arg date files ≠ .error .refused) (hroom : files.length ≤ 116)
    (harg : arg.length < sizeofFileName) (hargs : ∀ f ∈ files, f.arg.length < sizeofFileName)
    (hlong : ∀ f ∈ files, f.bytes.length < 4294967296) :
    ∃ info fd, mkupgrade arg date files = .ok (info, fd) ∧ Exact files info fd := by
  cases hrun : mkupgrade arg date files with
  | error e =>
    have he : e ≠ .refused := fun heq => haccepted (heq ▸ hrun)
    obtain h | ⟨f, hf, h⟩ | h := mkupgrade_error hrun hne he
    · exact absurd harg (Nat.not_lt.mpr h)
    · exact absurd (hargs f hf) (Nat.not_lt.mpr h)
    · exact absurd hroom (Nat.not_le.mpr h)
  | ok result =>
    obtain ⟨info, fd⟩ := result
    obtain ⟨-, -, t, hpacked, hsize, hhead⟩ := mkupgrade_ok hrun
    have hexact := hpacked.exact hne hsize hlong
    rw [hhead] at hexact
    exact ⟨info, fd, rfl, hexact⟩

/-- The files reach the upgrade: the tool packs them, the camera stores what the tool has written
and calls `upgrade_start` with it once, and the stored file is the package of the files. -/
def Delivered (arg : List UInt8) (date : Vector UInt8 16) (files : List InputFile)
    (h : PuUpgHandle) (io : ReqIo) (startOk : Bool) : Prop :=
  ∃ info fd, mkupgrade arg date files = .ok (info, fd)
    ∧ Transferred h fd.content io startOk
    ∧ ∃ image, ((h.msgNetUpgradeReq (requestInfo fd.content.length) io).2.receive startOk
          (upgradePackets io.session fd.content)).2 = [image]
        ∧ Exact files info (.ofBytes image)

/-- Whenever no input is refused and the camera takes the request, the input files are what the
upgrade is started with, if and only if the head has room for their entries, the arguments fit the
array they are copied to, and the package is smaller than 2^31 bytes. -/
theorem package_delivered_iff (arg : List UInt8) (date : Vector UInt8 16) (files : List InputFile)
    (hne : files ≠ []) (haccepted : mkupgrade arg date files ≠ .error .refused)
    (h : PuUpgHandle) (io : ReqIo) (startOk : Bool) (hr : h.Reachable) (hrun : io.running = false)
    (hopen : io.openOk = true) :
    Delivered arg date files h io startOk ↔
      files.length ≤ 116 ∧ arg.length < sizeofFileName
        ∧ (∀ f ∈ files, f.arg.length < sizeofFileName)
        ∧ headLen files.length + (files.flatMap InputFile.bytes).length < 2147483648 := by
  constructor
  · rintro ⟨info, fd, hok, htransfer, image, hstart, hexact⟩
    obtain ⟨-, harg, t, hpacked, -, hhead⟩ := mkupgrade_ok hok
    have hlong : ∀ f ∈ files, f.bytes.length < 4294967296 := by
      intro f hf
      obtain ⟨i, hi⟩ := List.mem_iff_getElem?.mp hf
      rw [← hexact.size i f hi]
      exact UInt32.toNat_lt _
    have hsmall := transferred_lt hr hrun hopen htransfer
    rw [StdioFile.length_content, mkupgrade_size hok hlong] at hsmall
    exact ⟨hpacked.room, harg, hpacked.args, hsmall⟩
  · rintro ⟨hroom, harg, hargs, hsmall⟩
    have hlong : ∀ f ∈ files, f.bytes.length < 4294967296 := by
      intro f hf
      have hle : f.bytes.length ≤ (files.flatMap InputFile.bytes).length :=
        (List.sublist_flatten_of_mem (List.mem_map_of_mem hf)).length_le
      omega
    obtain ⟨info, fd, hok, hexact⟩ := packed_of_accepted hne haccepted hroom harg hargs hlong
    have htransfer : Transferred h fd.content io startOk := by
      refine image_transferred ?_ startOk hr hrun hopen
      rwa [StdioFile.length_content, mkupgrade_size hok hlong]
    refine ⟨info, fd, hok, htransfer, fd.content, htransfer.2.1, ?_⟩
    rw [StdioFile.ofBytes_content]
    exact hexact.fseek

theorem package_delivered_startapp :
    Delivered (ascii "grain_813X@V2") (.replicate 16 0) [startappFile] (.init []) ⟨false, true, 7⟩
      true :=
  (package_delivered_iff _ _ _ (List.cons_ne_nil _ _)
    (fun h => absurd (congrArg Except.toBool h) (by decide)) _ _ _ (.init []) rfl rfl).mpr
    (by decide)

end MkUpgrade
