/-
# The upgrade package tool

`mkupgrade.c`: the tool takes a device and a list of files, each named
`name@type@version`, and writes them to a package: a head, a table of one entry a file,
and the files one behind the other.  The head is built in an array of 16 KB; a store
behind its end, or a name of 1024 bytes and more, is an overrun.

* `parseFileName_ok`, `parseFileName_refused`, `parseFileName_error` : what a name parses to,
  when it is refused, and when its entry does not fit.
-/
import IpCamera.Codec
import IpCamera.FileBuffer

/-! ## The package -/

namespace MkUpgrade

/-- `upgrade_file_t` -/
structure UpgradeFile where
  name : Vector UInt8 64
  type : Vector UInt8 16
  ver : Vector UInt8 16
  addr : UInt32
  size : UInt32
  dstPath : Vector UInt8 32
  crc32 : UInt32
deriving DecidableEq

/-- `upgrade_packet_t`, without the table behind it -/
structure UpgradePacket where
  crc32 : UInt32
  deviceType : Vector UInt8 16
  ver : Vector UInt8 16
  date : Vector UInt8 16
  fileNum : UInt32
  size : UInt32
  exAddr : UInt32
deriving DecidableEq

/-- The layout of `upgrade_file_t`. -/
def UpgradeFile.codec : Codec UpgradeFile :=
  ((Codec.bytes 64).prod <| (Codec.bytes 16).prod <| (Codec.bytes 16).prod <|
    Codec.uint32.prod <| Codec.uint32.prod <| (Codec.bytes 32).prod Codec.uint32).ofEquiv
  { toFun := fun f => (f.name, f.type, f.ver, f.addr, f.size, f.dstPath, f.crc32)
    invFun := fun (name, type, ver, addr, size, dstPath, crc32) =>
      ⟨name, type, ver, addr, size, dstPath, crc32⟩
    left_inv := fun _ => rfl
    right_inv := fun _ => rfl }

/-- The layout of `upgrade_packet_t`. -/
def UpgradePacket.codec : Codec UpgradePacket :=
  (Codec.uint32.prod <| (Codec.bytes 16).prod <| (Codec.bytes 16).prod <|
    (Codec.bytes 16).prod <| Codec.uint32.prod <| Codec.uint32.prod Codec.uint32).ofEquiv
  { toFun := fun p => (p.crc32, p.deviceType, p.ver, p.date, p.fileNum, p.size, p.exAddr)
    invFun := fun (crc32, deviceType, ver, date, fileNum, size, exAddr) =>
      ⟨crc32, deviceType, ver, date, fileNum, size, exAddr⟩
    left_inv := fun _ => rfl
    right_inv := fun _ => rfl }

/-- `sizeof(upgrade_file_t)` -/
def sizeofUpgradeFile : ℕ := 140
/-- `sizeof(upgrade_packet_t)` -/
def sizeofUpgradePacket : ℕ := 64
/-- `sizeof(packet_info)` -/
def sizeofPacketInfo : ℕ := 16 * 1024

theorem UpgradeFile.codec_width : UpgradeFile.codec.width = sizeofUpgradeFile := rfl
theorem UpgradePacket.codec_width : UpgradePacket.codec.width = sizeofUpgradePacket := rfl

/-- `packet_info`: a head and its entries.  The array ends within the entry of index 116, which
`inside` says. -/
structure PacketInfo where
  pkg : UpgradePacket
  file : ℕ → UpgradeFile

/-- `packet_info[16*1024] = {0}` -/
def PacketInfo.zero : PacketInfo where
  pkg := ⟨0, .replicate 16 0, .replicate 16 0, .replicate 16 0, 0, 0, 0⟩
  file _ := ⟨.replicate 64 0, .replicate 16 0, .replicate 16 0, 0, 0, .replicate 32 0, 0⟩

/-- The `n` bytes at offset `o` of entry `j` lie inside `packet_info`. -/
def inside (j o n : ℕ) : Bool :=
  sizeofUpgradePacket + j * sizeofUpgradeFile + o + n ≤ sizeofPacketInfo

/-- The length of a head with `n` entries. -/
def headLen (n : ℕ) : ℕ := sizeofUpgradePacket + n * sizeofUpgradeFile

/-! ## Arguments -/

/-- How the tool ends without a package: with one argument it prints the head of a package, an
input can be refused, and a store can leave its array, after which C promises nothing. -/
inductive Fault
  | inspects
  | refused
  | overrun
deriving DecidableEq, Repr

/-- `MAX_FIELD_SIZE` -/
def maxFieldSize : ℕ := 16
/-- `sizeof(_file_name)` -/
def sizeofFileName : ℕ := 1024

/-- `strncpy`: what is missing up to `k` bytes is filled with zeros. -/
def strncpy {n : ℕ} (dst : Vector UInt8 n) (src : List UInt8) (k : ℕ) : Vector UInt8 n :=
  .ofFn fun i => if i.1 < k then src.getD i 0 else dst[i]

/-- The string in an array. -/
def cstr {n : ℕ} (v : Vector UInt8 n) : List UInt8 := v.toList.takeWhile (· ≠ 0)

/-- `strsep(&left, "@")`: the token, and what is left behind the separator. -/
def strsep (left : List UInt8) : List UInt8 × Option (List UInt8) :=
  (left.takeWhile (· ≠ 0x40), match left.dropWhile (· ≠ 0x40) with
    | [] => none
    | _ :: rest => some rest)

/-- The loop of `parse_device_type` and of `parse_file_name` over their fields: each token must be
shorter than a field. -/
def parseFields {σ : Type} : List (List UInt8 → σ → Except Fault σ) → Option (List UInt8) → σ →
    Except Fault σ
  | [], _, s => .ok s
  | _ :: _, none, s => .ok s
  | store :: stores, some left, s =>
      let token := strsep left
      if maxFieldSize ≤ token.1.length then .error .refused
      else match store token.1 s with
        | .error e => .error e
        | .ok s => parseFields stores token.2 s

/-- An argument is copied to `_file_name` first. -/
def parseArg {σ : Type} (stores : List (List UInt8 → σ → Except Fault σ)) (arg : List UInt8)
    (s : σ) : Except Fault σ :=
  if sizeofFileName ≤ arg.length then .error .overrun else parseFields stores (some arg) s

/-- `parse_device_type` -/
def parseDeviceType (arg : List UInt8) (pkg : UpgradePacket) : Except Fault UpgradePacket :=
  parseArg
    [fun token pkg => .ok { pkg with deviceType := strncpy pkg.deviceType token maxFieldSize },
     fun token pkg => .ok { pkg with ver := strncpy pkg.ver token maxFieldSize }] arg pkg

/-- A store of `n` bytes at offset `o` of entry `j`. -/
def storeAt (j o n : ℕ) (f : UpgradeFile) : Except Fault UpgradeFile :=
  if inside j o n then .ok f else .error .overrun

/-- `parse_file_name`, into entry `j` -/
def parseFileName (j : ℕ) (arg : List UInt8) (f : UpgradeFile) : Except Fault UpgradeFile :=
  parseArg
    [fun token f => storeAt j 0 maxFieldSize { f with name := strncpy f.name token maxFieldSize },
     fun token f => storeAt j 64 maxFieldSize { f with type := strncpy f.type token maxFieldSize },
     fun token f => storeAt j 80 maxFieldSize { f with ver := strncpy f.ver token maxFieldSize }]
    arg f

/-! ## Devices -/

/-- `mtd_path_t`; no modelled function reads its type. -/
structure MtdPath where
  name : List UInt8
  path : List UInt8
  size : UInt32

/-- `device_mtd_t` -/
structure DeviceMtd where
  deviceType : List UInt8
  mtd : List MtdPath

/-- The bytes of a literal. -/
def ascii (s : String) : List UInt8 := s.toList.map fun c => .ofNat c.toNat

/-- The table the tool is built with. -/
def device : List DeviceMtd :=
  [⟨ascii "grain_813X",
    [⟨ascii "uboot", ascii "/dev/mtd0", 0x60000⟩,
     ⟨ascii "kernel", ascii "/dev/mtd1", 0x300000⟩,
     ⟨ascii "rootfs", ascii "/dev/mtd2", 0x400000⟩,
     ⟨ascii "config", ascii "/dev/mtd3", 0x100000⟩,
     ⟨ascii "app", ascii "/dev/mtd4", 0x7A0000⟩,
     ⟨ascii "sysparam_upg", ascii "/config/param/", 0x100000⟩,
     ⟨ascii "app.tgz", ascii "/mnt/mtd/", 0x7A0000⟩,
     ⟨ascii "startapp", ascii "/mnt/mtd/", 0x7A0000⟩]⟩,
   ⟨ascii "NULL", [⟨ascii "NULL", ascii "NULL", 0⟩]⟩]

/-- `_check_device`.  Its two searches, for images and for other files, go through the same
entries: those with a name are those with a type. -/
def checkDevice (deviceType name : List UInt8) : Option MtdPath :=
  (device.filter fun d => d.deviceType = deviceType).findSome? fun d =>
    d.mtd.find? fun m => m.name = name

/-! ## Writing -/

/-- An input: the argument that names it, a C string, and its bytes. -/
structure InputFile where
  arg : List UInt8
  bytes : List UInt8
  arg_ne_zero : ∀ c ∈ arg, c ≠ 0

/-- `file_len`: the offset of the end, as an `int` -/
def fileLen (bytes : List UInt8) : ℤ := toInt32 (bytes.length % 4294967296)

/-- What `main` works on: the head, the package and the static `pkg_offset`. -/
structure Tool where
  info : PacketInfo
  packetFd : StdioFile
  pkgOffset : ℤ

/-- The stores to entry `j` have made it `f`. -/
def Tool.setFile (t : Tool) (j : ℕ) (f : UpgradeFile) : Tool :=
  { t with info := ⟨t.info.pkg, Function.update t.info.file j f⟩ }

@[simp] theorem Tool.setFile_pkg (t : Tool) (j : ℕ) (f : UpgradeFile) :
    (t.setFile j f).info.pkg = t.info.pkg := rfl
@[simp] theorem Tool.setFile_file (t : Tool) (j : ℕ) (f : UpgradeFile) :
    (t.setFile j f).info.file = Function.update t.info.file j f := rfl
@[simp] theorem Tool.setFile_packetFd (t : Tool) (j : ℕ) (f : UpgradeFile) :
    (t.setFile j f).packetFd = t.packetFd := rfl
@[simp] theorem Tool.setFile_pkgOffset (t : Tool) (j : ℕ) (f : UpgradeFile) :
    (t.setFile j f).pkgOffset = t.pkgOffset := rfl

/-- `BUCKET_SIZE` -/
def bucketSize : ℕ := 8 * 1024

/-- The loop of `pkg_add_file`, at most `rounds` times: `input` is still to be read. -/
def copyLoop : ℕ → StdioFile → List UInt8 → ℕ → StdioFile
  | 0, fd, _, _ => fd
  | rounds + 1, fd, input, leftSize =>
      if leftSize = 0 then fd
      else
        let copySize := if bucketSize ≤ leftSize then bucketSize else leftSize
        copyLoop rounds (fd.put (listMem (input.take copySize)) copySize) (input.drop copySize)
          (leftSize - copySize)

/-- `pkg_offset` when file `i` is added: it is set with the first file. -/
def startOffset (t : Tool) (i : ℕ) : ℤ :=
  if i = 0 then toInt32 (headLen t.info.pkg.fileNum.toNat % 4294967296) else t.pkgOffset

/-- `pkg_add_file`.  A negative offset makes `lseek` fail; what it returns is not looked at. -/
def pkgAddFile (t : Tool) (input : List UInt8) (fdSize : ℤ) (i : ℕ) : Except Fault Tool :=
  let pkgOffset := startOffset t i
  if pkgOffset < 0 then .ok { t with pkgOffset := pkgOffset }
  else
    let fd := copyLoop fdSize.toNat (t.packetFd.fseek pkgOffset.toNat) input fdSize.toNat
    -- `addr` and `size` are at offset 96 of the entry
    match storeAt i 96 8 { t.info.file i with
        addr := .ofInt pkgOffset, size := .ofInt fdSize } with
    | .error e => .error e
    | .ok f => .ok { t.setFile i f with packetFd := fd, pkgOffset := pkgOffset + fdSize }

/-- One pass of the loop over the arguments. -/
def packFile (t : Tool) (j : ℕ) (f : InputFile) : Except Fault Tool :=
  match parseFileName j f.arg (t.info.file j) with
  | .error e => .error e
  | .ok entry =>
    match checkDevice (cstr t.info.pkg.deviceType) (cstr entry.name) with
    | none => .error .refused
    | some mtdPath =>
      -- the length is compared as an `unsigned int`
      if mtdPath.path = [] ∨ mtdPath.size.toNat < (fileLen f.bytes % 4294967296).toNat then
        .error .refused
      else match storeAt j 104 32 { entry with dstPath := strncpy entry.dstPath mtdPath.path 32 } with
        | .error e => .error e
        | .ok entry => pkgAddFile (t.setFile j entry) f.bytes (fileLen f.bytes) j

/-- The loop over the arguments, from entry `j` on. -/
def packFiles : ℕ → List InputFile → Tool → Except Fault Tool
  | _, [], t => .ok t
  | j, f :: fs, t =>
      match packFile t j f with
      | .error e => .error e
      | .ok t => packFiles (j + 1) fs t

/-- `pkg_add_head` -/
def pkgAddHead (t : Tool) : PacketInfo × StdioFile :=
  let n := t.info.pkg.fileNum.toNat
  let size := (List.range n).foldl (fun size i => size + (t.info.file i).size) t.info.pkg.size
  let pkg := { t.info.pkg with size := size }
  let bytes := UpgradePacket.codec.encode pkg ++ UpgradeFile.codec.encodeAll t.info.file n
  ({ t.info with pkg := pkg }, (t.packetFd.fseek 0).put (listMem bytes) (headLen n))

/-- `main` with the arguments `arg` and those of the files: the head it has built, and the package.
The date is what `snprintf` makes of the clock. -/
def mkupgrade (arg : List UInt8) (date : Vector UInt8 16) (files : List InputFile) :
    Except Fault (PacketInfo × StdioFile) :=
  if files = [] then .error .inspects
  else match parseDeviceType arg PacketInfo.zero.pkg with
    | .error e => .error e
    | .ok pkg =>
      let fileNum : UInt32 := .ofNat files.length
      let pkg := { pkg with
        fileNum := fileNum, size := fileNum * .ofNat sizeofUpgradeFile, date := date }
      match packFiles 0 files ⟨{ PacketInfo.zero with pkg := pkg }, .create, 0⟩ with
      | .error e => .error e
      | .ok t => .ok (pkgAddHead t)

/-! ## Reading -/

/-- `read(fd, .., n)`: the bytes there are, up to `n`. -/
def readBytes (f : StdioFile) (n : ℕ) : List UInt8 × StdioFile :=
  let got := loadBytes f.bytes f.pos (min n (f.size - f.pos))
  (got, f.fseek (f.pos + got.length))

/-- `pkg_read_head`: what it returns, and `pkg`. -/
def pkgReadHead (f : StdioFile) (info : PacketInfo) : Except Fault (ℤ × PacketInfo) :=
  let head := readBytes f sizeofUpgradePacket
  let pkg := UpgradePacket.codec.readInto info.pkg head.1
  if head.1.length ≠ sizeofUpgradePacket then .ok (-1, { info with pkg := pkg })
  else if pkg.fileNum = 0 then .ok (0, { info with pkg := pkg })
  else if sizeofPacketInfo < headLen pkg.fileNum.toNat then .error .overrun
  else
    let table := readBytes head.2 (pkg.fileNum.toNat * sizeofUpgradeFile)
    .ok (0, ⟨pkg, fun i =>
      UpgradeFile.codec.readInto (info.file i) (table.1.drop (i * sizeofUpgradeFile))⟩)

/-! ## The loops -/

theorem copyLoop_eq (rounds : ℕ) : ∀ (fd : StdioFile) (input : List UInt8) (leftSize : ℕ),
    leftSize ≤ rounds → leftSize ≤ input.length →
      copyLoop rounds fd input leftSize = fd.put (listMem input) leftSize := by
  induction rounds with
  | zero =>
    intro fd input leftSize hrounds _
    obtain rfl : leftSize = 0 := by omega
    rw [StdioFile.put_zero]
    rfl
  | succ rounds ih =>
    intro fd input leftSize hrounds hlen
    rw [copyLoop]
    by_cases hzero : leftSize = 0
    · rw [if_pos hzero, hzero, StdioFile.put_zero]
    · rw [if_neg hzero]
      have hcopy : ∃ c, (if bucketSize ≤ leftSize then bucketSize else leftSize) = c
          ∧ 0 < c ∧ c ≤ leftSize := by
        refine ⟨_, rfl, ?_, ?_⟩ <;> unfold bucketSize <;> split <;> omega
      obtain ⟨c, hc, hpos, hle⟩ := hcopy
      dsimp only
      rw [hc, ih _ _ _ (by omega) (by rw [List.length_drop]; omega)]
      -- the bucket and the rest of the input are the input
      have hbucket : fd.put (listMem (input.take c)) c = fd.put (listMem input) c := by
        apply StdioFile.put_congr
        intro i hi
        simp [listMem, hi]
      have hrest : listMem (input.drop c) = fun i => listMem input (c + i) := by
        funext i
        simp [listMem, List.getElem?_drop]
      rw [hbucket, hrest, StdioFile.put_put, Nat.add_sub_cancel' hle]

section Fields

variable {σ : Type}

/-- What every store of a field keeps, a parse keeps. -/
theorem parseFields_keeps {P : σ → Prop} (stores : List (List UInt8 → σ → Except Fault σ)) :
    ∀ left s s', (∀ store ∈ stores, ∀ token s s', P s → store token s = .ok s' → P s') → P s →
      parseFields stores left s = .ok s' → P s' := by
  induction stores with
  | nil =>
    intro left s s' _ hs h
    rw [parseFields] at h
    cases h
    exact hs
  | cons store stores ih =>
    intro left s s' hkeeps hs h
    cases left with
    | none =>
      rw [parseFields] at h
      cases h
      exact hs
    | some left =>
      simp only [parseFields] at h
      split at h
      · cases h
      · split at h
        · cases h
        · rename_i s₁ hstore
          apply ih _ _ _ _ (hkeeps store List.mem_cons_self _ _ _ hs hstore) h
          intro d hd
          exact hkeeps d (List.mem_cons_of_mem store hd)

/-- A parse that is not refused fails in a store of it. -/
theorem parseFields_error (stores : List (List UInt8 → σ → Except Fault σ)) :
    ∀ left s e, parseFields stores left s = .error e → e ≠ .refused →
      ∃ store ∈ stores, ∃ token s, store token s = .error e := by
  induction stores with
  | nil =>
    intro left s e h
    rw [parseFields] at h
    cases h
  | cons store stores ih =>
    intro left s e h hne
    cases left with
    | none =>
      rw [parseFields] at h
      cases h
    | some left =>
      simp only [parseFields] at h
      split at h
      · cases h
        exact absurd rfl hne
      · split at h
        · rename_i e' hstore
          cases h
          exact ⟨store, List.mem_cons_self, _, _, hstore⟩
        · obtain ⟨d, hd, hfails⟩ := ih _ _ _ h hne
          exact ⟨d, List.mem_cons_of_mem store hd, hfails⟩

/-- A parse stores its first token. -/
theorem parseArg_first {store : List UInt8 → σ → Except Fault σ}
    {stores : List (List UInt8 → σ → Except Fault σ)} {arg : List UInt8} {s s' : σ}
    (h : parseArg (store :: stores) arg s = .ok s') :
    arg.length < sizeofFileName ∧ (strsep arg).1.length < maxFieldSize
      ∧ ∃ s₁, store (strsep arg).1 s = .ok s₁ ∧ parseFields stores (strsep arg).2 s₁ = .ok s' := by
  unfold parseArg at h
  split at h
  · cases h
  · rename_i hlen
    simp only [parseFields] at h
    split at h
    · cases h
    · rename_i hsize
      split at h
      · cases h
      · rename_i s₁ hstore
        exact ⟨Nat.not_le.mp hlen, Nat.not_le.mp hsize, s₁, hstore, h⟩

/-- One of the first `k` tokens does not fit its field. -/
def tooLong : ℕ → Option (List UInt8) → Bool
  | 0, _ => false
  | _ + 1, none => false
  | k + 1, some left => maxFieldSize ≤ (strsep left).1.length || tooLong k (strsep left).2

/-- Stores refuse nothing, so what a parse refuses is a token. -/
theorem parseFields_refused (stores : List (List UInt8 → σ → Except Fault σ)) :
    ∀ left s, (∀ store ∈ stores, ∀ token s, store token s ≠ .error .refused) →
      parseFields stores left s = .error .refused → tooLong stores.length left = true := by
  induction stores with
  | nil =>
    intro left s _ h
    rw [parseFields] at h
    cases h
  | cons store stores ih =>
    intro left s hstores h
    cases left with
    | none =>
      rw [parseFields] at h
      cases h
    | some left =>
      rw [List.length_cons, tooLong, Bool.or_eq_true]
      simp only [parseFields] at h
      split at h
      · rename_i hlong
        exact .inl (decide_eq_true hlong)
      · split at h
        · rename_i e hstore
          cases h
          exact absurd hstore (hstores store List.mem_cons_self _ _)
        · right
          apply ih _ _ _ h
          intro d hd
          exact hstores d (List.mem_cons_of_mem store hd)

theorem parseArg_refused {stores : List (List UInt8 → σ → Except Fault σ)} {arg : List UInt8} {s : σ}
    (hstores : ∀ store ∈ stores, ∀ token s, store token s ≠ .error .refused)
    (h : parseArg stores arg s = .error .refused) : tooLong stores.length (some arg) = true := by
  unfold parseArg at h
  split at h
  · cases h
  · exact parseFields_refused _ _ _ hstores h

end Fields

theorem storeAt_ok {j o n : ℕ} {f f' : UpgradeFile} (h : storeAt j o n f = .ok f') :
    inside j o n = true ∧ f' = f := by
  unfold storeAt at h
  split at h
  · rename_i hin
    cases h
    exact ⟨hin, rfl⟩
  · cases h

theorem storeAt_error {j o n : ℕ} {f : UpgradeFile} {e : Fault} (h : storeAt j o n f = .error e)
    (hon : o + n ≤ sizeofUpgradeFile) : 116 ≤ j := by
  unfold storeAt at h
  split at h
  · cases h
  · rename_i hout
    simp only [inside, decide_eq_true_eq] at hout
    unfold sizeofUpgradePacket sizeofUpgradeFile sizeofPacketInfo at *
    omega

theorem storeAt_ne_refused (j o n : ℕ) (f : UpgradeFile) : storeAt j o n f ≠ .error .refused := by
  unfold storeAt
  split
  · exact nofun
  · exact nofun

/-- A string that is shorter than the field reads back. -/
theorem cstr_strncpy {n k : ℕ} (dst : Vector UInt8 n) {s : List UInt8} (hs : ∀ c ∈ s, c ≠ 0)
    (hk : s.length < k) (hn : k ≤ n) : cstr (strncpy dst s k) = s := by
  have hsplit : ∃ rest, (strncpy dst s k).toList = s ++ 0 :: rest := by
    refine ⟨(strncpy dst s k).toList.drop (s.length + 1), ?_⟩
    apply List.ext_getElem
    · simp
      omega
    · intro i h₁ h₂
      have hi : i < n := by simpa using h₁
      rcases Nat.lt_trichotomy i s.length with hlt | rfl | hgt
      · rw [List.getElem_append_left hlt]
        simp [strncpy, hlt, hlt.trans hk]
      · rw [List.getElem_append_right le_rfl]
        simp [strncpy, hk]
      · rw [List.getElem_append_right hgt.le]
        obtain ⟨d, rfl⟩ := Nat.exists_eq_add_of_lt hgt
        have hd : s.length + d + 1 - s.length = d + 1 := by omega
        simp only [hd, List.getElem_cons_succ, List.getElem_drop]
        congr 1
        omega
  obtain ⟨rest, hrest⟩ := hsplit
  rw [cstr, hrest, List.takeWhile_append_of_pos]
  · simp
  · intro c hc
    exact decide_eq_true (hs c hc)

theorem strsep_sub {left : List UInt8} : ∀ c ∈ (strsep left).1, c ∈ left :=
  fun _ hc => List.takeWhile_subset _ hc

/-- An accepted name: the entry lies inside the array, or only its version does not. -/
theorem parseFileName_ok {j : ℕ} {f : InputFile} {e e' : UpgradeFile}
    (h : parseFileName j f.arg e = .ok e') :
    f.arg.length < sizeofFileName ∧ j ≤ 116 ∧ cstr e'.name = (strsep f.arg).1 := by
  obtain ⟨harg, htoken, e₁, hstore, hrest⟩ := parseArg_first h
  obtain ⟨hin, rfl⟩ := storeAt_ok hstore
  refine ⟨harg, ?_, ?_⟩
  · simp only [inside, decide_eq_true_eq] at hin
    unfold sizeofUpgradePacket sizeofUpgradeFile sizeofPacketInfo maxFieldSize at hin
    omega
  · apply parseFields_keeps (P := fun e => cstr e.name = (strsep f.arg).1) _ _ _ _ _ _ hrest
    · intro store hstore token s s' hs hs'
      simp only [List.mem_cons, List.not_mem_nil, or_false] at hstore
      rcases hstore with rfl | rfl
      · obtain ⟨-, rfl⟩ := storeAt_ok hs'
        exact hs
      · obtain ⟨-, rfl⟩ := storeAt_ok hs'
        exact hs
    · apply cstr_strncpy _ _ htoken (by decide)
      exact fun c hc => f.arg_ne_zero c (strsep_sub c hc)

/-- A name is refused, or too long, or its entry does not lie inside the array. -/
theorem parseFileName_error {j : ℕ} {arg : List UInt8} {e : UpgradeFile} {err : Fault}
    (h : parseFileName j arg e = .error err) (hne : err ≠ .refused) :
    sizeofFileName ≤ arg.length ∨ 116 ≤ j := by
  unfold parseFileName parseArg at h
  split at h
  · rename_i hlen
    exact .inl hlen
  · obtain ⟨store, hstore, token, s, hfails⟩ := parseFields_error _ _ _ _ h hne
    right
    simp only [List.mem_cons, List.not_mem_nil, or_false] at hstore
    rcases hstore with rfl | rfl | rfl <;> exact storeAt_error hfails (by decide)

theorem parseFileName_refused {j : ℕ} {arg : List UInt8} {e : UpgradeFile}
    (h : parseFileName j arg e = .error .refused) : tooLong 3 (some arg) = true := by
  apply parseArg_refused _ h
  intro store hstore token s
  simp only [List.mem_cons, List.not_mem_nil, or_false] at hstore
  rcases hstore with rfl | rfl | rfl <;> exact storeAt_ne_refused _ _ _ _

theorem parseDeviceType_refused {arg : List UInt8} {pkg : UpgradePacket}
    (h : parseDeviceType arg pkg = .error .refused) : tooLong 2 (some arg) = true := by
  apply parseArg_refused _ h
  intro store hstore token s
  simp only [List.mem_cons, List.not_mem_nil, or_false] at hstore
  rcases hstore with rfl | rfl <;> exact nofun

theorem parseDeviceType_error {arg : List UInt8} {pkg : UpgradePacket} {err : Fault}
    (h : parseDeviceType arg pkg = .error err) (hne : err ≠ .refused) :
    sizeofFileName ≤ arg.length := by
  unfold parseDeviceType parseArg at h
  split at h
  · rename_i hlen
    exact hlen
  · obtain ⟨store, hstore, token, s, hfails⟩ := parseFields_error _ _ _ _ h hne
    simp only [List.mem_cons, List.not_mem_nil, or_false] at hstore
    rcases hstore with rfl | rfl <;> cases hfails

theorem parseDeviceType_ok {arg : List UInt8} {pkg pkg' : UpgradePacket}
    (hstr : ∀ c ∈ arg, c ≠ 0) (h : parseDeviceType arg pkg = .ok pkg') :
    arg.length < sizeofFileName ∧ cstr pkg'.deviceType = (strsep arg).1 := by
  obtain ⟨harg, htoken, pkg₁, hstore, hrest⟩ := parseArg_first h
  refine ⟨harg, ?_⟩
  apply parseFields_keeps (P := fun pkg => cstr pkg.deviceType = (strsep arg).1) _ _ _ _ _ _ hrest
  · intro store hstore token s s' hs hs'
    obtain rfl := List.mem_singleton.mp hstore
    cases hs'
    exact hs
  · cases hstore
    apply cstr_strncpy _ _ htoken le_rfl
    exact fun c hc => hstr c (strsep_sub c hc)

/-- The largest partition of the table. -/
def maxMtdSize : ℕ := 0x7A0000

theorem checkDevice_size {deviceType name : List UInt8} {m : MtdPath}
    (h : checkDevice deviceType name = some m) : m.size.toNat ≤ maxMtdSize := by
  have hall : ∀ d ∈ device, ∀ m ∈ d.mtd, m.size.toNat ≤ maxMtdSize := by decide
  obtain ⟨d, hd, hm⟩ := List.exists_of_findSome?_eq_some h
  exact hall d (List.mem_filter.mp hd).1 m (List.mem_of_find?_eq_some hm)

end MkUpgrade
