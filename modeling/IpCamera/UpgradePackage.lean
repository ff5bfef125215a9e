/-
# The round trip of an upgrade package

What `mkupgrade` packs and how it reads back.  A pass of its loop puts one more file
behind those packed before; the head has room for 116 entries, and the length of a file
is an `int`.

* `Packed.run`             : the loop packs the files one behind the other;
* `pkgReadHead_pkgAddHead` : the head reads back;
* `package_round_trip_iff` : the package is that of the files exactly when there are at most
  116, each shorter than 4 GB, and every argument is shorter than 1024.
-/
import IpCamera.MkUpgrade

namespace MkUpgrade

/-! ## What a package should be -/

/-- The package in `fd` is that of the files, and `info` is its head: it reads back as it was built,
it counts the files and their bytes, and entry by entry it names the file and says where its bytes
are; the regions follow each other, and the head ends where the first begins. -/
structure Exact (files : List InputFile) (info : PacketInfo) (fd : StdioFile) : Prop where
  readsBack : pkgReadHead (fd.fseek 0) PacketInfo.zero = .ok (0, info)
  count : info.pkg.fileNum.toNat = files.length
  total : info.pkg.size.toNat
    = files.length * sizeofUpgradeFile + (files.flatMap InputFile.bytes).length
  name : ∀ i f, files[i]? = some f → cstr (info.file i).name = (strsep f.arg).1
  size : ∀ i f, files[i]? = some f → (info.file i).size.toNat = f.bytes.length
  region : ∀ i f, files[i]? = some f →
    loadBytes fd.bytes (info.file i).addr.toNat (info.file i).size.toNat = f.bytes
  inFile : ∀ i < files.length,
    (info.file i).addr.toNat + (info.file i).size.toNat ≤ fd.size
  first : (info.file 0).addr.toNat = headLen files.length
  contiguous : ∀ i, i + 1 < files.length →
    (info.file (i + 1)).addr.toNat = (info.file i).addr.toNat + (info.file i).size.toNat
  disjoint : ∀ i k, i < k → k < files.length →
    (info.file i).addr.toNat + (info.file i).size.toNat ≤ (info.file k).addr.toNat
  behindHead : ∀ i < files.length, headLen files.length ≤ (info.file i).addr.toNat

/-- The tool ends with the package of the files. -/
def RoundTrips (arg : List UInt8) (date : Vector UInt8 16) (files : List InputFile) : Prop :=
  ∃ info fd, mkupgrade arg date files = .ok (info, fd) ∧ Exact files info fd

/-! ## What the tool has packed -/

/-- How many bytes of the file the tool copies: those its `int` counts. -/
def InputFile.storedLen (f : InputFile) : ℕ := f.bytes.length % 4294967296

/-- The bytes copied. -/
def InputFile.stored (f : InputFile) : List UInt8 := f.bytes.take f.storedLen

theorem InputFile.stored_length (f : InputFile) : f.stored.length = f.storedLen := by
  rw [stored, List.length_take]
  exact min_eq_left (Nat.mod_le _ _)

/-- The bytes behind the head, when `done` has been packed. -/
def storedBytes (done : List InputFile) : List UInt8 := done.flatMap InputFile.stored

theorem storedBytes_concat (done : List InputFile) (f : InputFile) :
    storedBytes (done ++ [f]) = storedBytes done ++ f.stored := by
  rw [storedBytes, List.flatMap_append, List.flatMap_singleton, storedBytes]

theorem length_storedBytes_le {done : List InputFile} (h : ∀ f ∈ done, f.storedLen ≤ maxMtdSize) :
    (storedBytes done).length ≤ done.length * maxMtdSize := by
  induction done with
  | nil => exact Nat.zero_le _
  | cons f done ih =>
    rw [storedBytes, List.flatMap_cons, List.length_append, ← storedBytes, f.stored_length,
      List.length_cons, Nat.succ_mul]
    have hf := h f List.mem_cons_self
    have hdone := ih fun g hg => h g (List.mem_cons_of_mem f hg)
    omega

/-- An `int` that is not negative, stored as an `unsigned int`. -/
theorem toNat_ofInt_natCast {v : ℕ} (h : v < 4294967296) : (UInt32.ofInt v).toNat = v := by
  rw [UInt32.ofInt, UInt32.toNat_ofNat', ← Int.toNat_natCast v]
  omega

/-- The length of a file that fits a partition is what `file_len` says. -/
theorem fileLen_eq {f : InputFile} (h : f.storedLen ≤ maxMtdSize) : fileLen f.bytes = f.storedLen := by
  unfold fileLen toInt32
  unfold InputFile.storedLen maxMtdSize at h
  rw [if_pos (by omega), InputFile.storedLen]

theorem fileLen_mod (f : InputFile) : (fileLen f.bytes % 4294967296).toNat = f.storedLen := by
  unfold fileLen toInt32 InputFile.storedLen
  split <;> omega

/-- The entry of `f`, packed behind `before` in a package of `n` files. -/
structure Entry (n : ℕ) (before : List InputFile) (f : InputFile) (e : UpgradeFile) : Prop where
  name : cstr e.name = (strsep f.arg).1
  addr : e.addr.toNat = headLen n + (storedBytes before).length
  size : e.size.toNat = f.storedLen

/-- The tool has packed `done`, of `n` files. -/
structure Packed (n : ℕ) (done : List InputFile) (t : Tool) : Prop where
  num : t.info.pkg.fileNum.toNat = n
  room : done.length ≤ 116
  offset : done ≠ [] → t.pkgOffset = (headLen n + (storedBytes done).length : ℕ)
  length : max t.packetFd.size (headLen n) = headLen n + (storedBytes done).length
  bytes : loadBytes t.packetFd.bytes (headLen n) (storedBytes done).length = storedBytes done
  entry : ∀ i f, done[i]? = some f → Entry n (done.take i) f (t.info.file i)
  fresh : ∀ i, done.length ≤ i → t.info.file i = PacketInfo.zero.file i
  small : ∀ f ∈ done, f.storedLen ≤ maxMtdSize
  args : ∀ f ∈ done, f.arg.length < sizeofFileName

/-- The places of a package of at most 117 files are positive as an `int`. -/
theorem Packed.place_lt {n : ℕ} {done : List InputFile} {t : Tool} (h : Packed n done t)
    (hn : n ≤ 117) : headLen n + (storedBytes done).length + maxMtdSize < 2147483648 := by
  have hlen := length_storedBytes_le h.small
  have hroom := h.room
  have hbound : done.length * maxMtdSize ≤ 116 * maxMtdSize := Nat.mul_le_mul_right _ hroom
  unfold headLen sizeofUpgradePacket sizeofUpgradeFile
  unfold maxMtdSize at *
  omega

/-- What a pass that packs a file has done. -/
theorem packFile_ok {t t' : Tool} {j : ℕ} {f : InputFile} (h : packFile t j f = .ok t') :
    f.arg.length < sizeofFileName ∧ j ≤ 116 ∧ f.storedLen ≤ maxMtdSize
      ∧ ∃ entry : UpgradeFile, cstr entry.name = (strsep f.arg).1
        ∧ pkgAddFile (t.setFile j entry) f.bytes f.storedLen j = .ok t' := by
  unfold packFile at h
  split at h
  · cases h
  · rename_i e₁ hparse
    obtain ⟨harg, hj, hname⟩ := parseFileName_ok hparse
    split at h
    · cases h
    · rename_i m hcheck
      rw [fileLen_mod] at h
      split at h
      · cases h
      · rename_i hfits
        push Not at hfits
        have hsmall : f.storedLen ≤ maxMtdSize := hfits.2.trans (checkDevice_size hcheck)
        rw [fileLen_eq hsmall] at h
        split at h
        · cases h
        · rename_i e₂ hdst
          obtain ⟨-, rfl⟩ := storeAt_ok hdst
          exact ⟨harg, hj, hsmall, { e₁ with dstPath := strncpy e₁.dstPath m.path 32 }, hname, h⟩

/-- What `pkg_add_file` does at an offset that is one. -/
theorem pkgAddFile_ok {t t' : Tool} {input : List UInt8} {fdSize : ℤ} {i : ℕ}
    (h : pkgAddFile t input fdSize i = .ok t') (hplace : 0 ≤ startOffset t i) :
    i < 116 ∧ t' = { t.setFile i
        { t.info.file i with addr := .ofInt (startOffset t i), size := .ofInt fdSize } with
      packetFd := copyLoop fdSize.toNat (t.packetFd.fseek (startOffset t i).toNat) input fdSize.toNat
      pkgOffset := startOffset t i + fdSize } := by
  unfold pkgAddFile at h
  dsimp only at h
  rw [if_neg (Int.not_lt.mpr hplace)] at h
  split at h
  · cases h
  · rename_i f hstore
    obtain ⟨hin, rfl⟩ := storeAt_ok hstore
    cases h
    refine ⟨?_, rfl⟩
    simp only [inside, decide_eq_true_eq] at hin
    unfold sizeofUpgradePacket sizeofUpgradeFile sizeofPacketInfo at hin
    omega

theorem pkgAddFile_pkg {t t' : Tool} {input : List UInt8} {fdSize : ℤ} {i : ℕ}
    (h : pkgAddFile t input fdSize i = .ok t') : t'.info.pkg = t.info.pkg := by
  by_cases hplace : 0 ≤ startOffset t i
  · obtain ⟨-, rfl⟩ := pkgAddFile_ok h hplace
    rfl
  · unfold pkgAddFile at h
    dsimp only at h
    rw [if_pos (Int.not_le.mp hplace)] at h
    cases h
    rfl

theorem pkgAddFile_error {t : Tool} {input : List UInt8} {fdSize : ℤ} {i : ℕ} {err : Fault}
    (h : pkgAddFile t input fdSize i = .error err) : 116 ≤ i := by
  unfold pkgAddFile at h
  dsimp only at h
  split at h
  · cases h
  · split at h
    · rename_i hstore
      exact storeAt_error hstore (by decide)
    · cases h

theorem packFile_error {t : Tool} {j : ℕ} {f : InputFile} {err : Fault}
    (h : packFile t j f = .error err) (hne : err ≠ .refused) :
    sizeofFileName ≤ f.arg.length ∨ 116 ≤ j := by
  unfold packFile at h
  split at h
  · rename_i hparse
    cases h
    exact parseFileName_error hparse hne
  · split at h
    · cases h
      exact absurd rfl hne
    · split at h
      · cases h
        exact absurd rfl hne
      · split at h
        · rename_i hdst
          exact .inr (storeAt_error hdst (by decide))
        · exact .inr (pkgAddFile_error h)

/-- An input the tool refuses for a device: a token does not fit, or there is no partition that
takes the file. -/
def InputFile.Refused (f : InputFile) (deviceType : List UInt8) : Prop :=
  tooLong 3 (some f.arg) = true ∨ ∀ m, checkDevice deviceType (strsep f.arg).1 = some m →
    m.path = [] ∨ m.size.toNat < f.storedLen

theorem packFile_refused {t : Tool} {j : ℕ} {f : InputFile} (h : packFile t j f = .error .refused) :
    f.Refused (cstr t.info.pkg.deviceType) := by
  unfold packFile at h
  split at h
  · rename_i e hparse
    cases h
    exact .inl (parseFileName_refused hparse)
  · rename_i entry hparse
    right
    rw [(parseFileName_ok hparse).2.2] at h
    intro m hm
    rw [hm] at h
    dsimp only at h
    rw [fileLen_mod] at h
    split at h
    · assumption
    · split at h
      · rename_i e hdst
        cases h
        exact absurd hdst (storeAt_ne_refused _ _ _ _)
      · unfold pkgAddFile at h
        dsimp only at h
        split at h
        · cases h
        · split at h
          · rename_i e hstore
            cases h
            exact absurd hstore (storeAt_ne_refused _ _ _ _)
          · cases h

/-- Every pass keeps the head as it is. -/
theorem packFile_pkg {t t' : Tool} {j : ℕ} {f : InputFile} (h : packFile t j f = .ok t') :
    t'.info.pkg = t.info.pkg := by
  obtain ⟨-, -, -, entry, -, hadd⟩ := packFile_ok h
  rw [pkgAddFile_pkg hadd, Tool.setFile_pkg]

namespace Packed

variable {n : ℕ} {done : List InputFile} {t t' : Tool} {f : InputFile}

/-- The offset of the next file. -/
theorem startOffset_eq (h : Packed n done t) (hn : n ≤ 117) (e : UpgradeFile) :
    startOffset (t.setFile done.length e) done.length
      = (headLen n + (storedBytes done).length : ℕ) := by
  unfold startOffset
  by_cases hzero : done.length = 0
  · obtain rfl := List.length_eq_zero_iff.mp hzero
    have hlt : headLen n < 2147483648 := by
      have := h.place_lt hn
      omega
    rw [if_pos hzero, Tool.setFile_pkg, h.num, Nat.mod_eq_of_lt (by omega), toInt32, if_pos hlt]
    rfl
  · rw [if_neg hzero, Tool.setFile_pkgOffset]
    apply h.offset
    rintro rfl
    exact hzero rfl

/-- The pass that packs the next file. -/
theorem pass (h : Packed n done t) (hn : n ≤ 117) (hf : packFile t done.length f = .ok t') :
    done.length < 116 ∧ f.arg.length < sizeofFileName ∧ f.storedLen ≤ maxMtdSize
      ∧ (∃ e, t'.info.file = Function.update t.info.file done.length e ∧ Entry n done f e)
      ∧ t'.packetFd = (t.packetFd.fseek (headLen n + (storedBytes done).length)).put
          (listMem f.bytes) f.storedLen
      ∧ t'.pkgOffset = (headLen n + (storedBytes done).length + f.storedLen : ℕ) := by
  obtain ⟨harg, -, hsmall, entry, hname, hadd⟩ := packFile_ok hf
  have hplace := h.startOffset_eq hn entry
  have hlt := h.place_lt hn
  obtain ⟨hroom, ht'⟩ := pkgAddFile_ok hadd (by rw [hplace]; exact Int.natCast_nonneg _)
  rw [hplace] at ht'
  refine ⟨hroom, harg, hsmall, ⟨{ entry with
    addr := .ofInt (headLen n + (storedBytes done).length : ℕ), size := .ofInt f.storedLen },
    ?_, ?_⟩, ?_, ?_⟩
  · rw [ht']
    simp [Function.update_idem]
  · constructor
    · exact hname
    · show (UInt32.ofInt _).toNat = _
      exact toNat_ofInt_natCast (by omega)
    · show (UInt32.ofInt _).toNat = _
      exact toNat_ofInt_natCast (Nat.mod_lt _ (by decide))
  · rw [ht']
    show copyLoop _ _ _ _ = _
    rw [Int.toNat_natCast, Int.toNat_natCast, Tool.setFile_packetFd]
    exact copyLoop_eq _ _ _ _ le_rfl (Nat.mod_le _ _)
  · rw [ht']
    exact (Nat.cast_add _ _).symm

/-- One pass of the loop. -/
theorem step (h : Packed n done t) (hn : n ≤ 117) (hf : packFile t done.length f = .ok t') :
    Packed n (done ++ [f]) t' := by
  obtain ⟨hroom, harg, hsmall, ⟨e, hfile, he⟩, hfd, hoffset⟩ := h.pass hn hf
  have hlen : (storedBytes (done ++ [f])).length = (storedBytes done).length + f.storedLen := by
    rw [storedBytes_concat, List.length_append, f.stored_length]
  constructor
  · rw [packFile_pkg hf, h.num]
  · rw [List.length_append, List.length_singleton]
    omega
  · intro _
    rw [hoffset, hlen, Nat.add_assoc]
  · rw [hlen, hfd]
    have hold := h.length
    show max (if f.storedLen = 0 then t.packetFd.size
      else max t.packetFd.size (headLen n + (storedBytes done).length + f.storedLen)) _ = _
    split <;> omega
  · -- the bytes packed before lie in front of the new ones
    rw [hlen, storedBytes_concat, loadBytes_add, hfd, StdioFile.put_bytes, StdioFile.fseek_bytes,
      StdioFile.fseek_pos, loadBytes_memcpy_outside _ _ _ (by omega), h.bytes,
      loadBytes_memcpy_inside]
    congr 1
    have htake := loadBytes_listMem f.stored
    rw [f.stored_length] at htake
    rw [← htake]
    apply loadBytes_congr
    intro i hi
    simp [listMem, InputFile.stored, hi]
  · intro i g hg
    rw [hfile]
    rcases Nat.lt_trichotomy i done.length with hlt | rfl | hgt
    · rw [List.getElem?_append_left hlt] at hg
      rw [List.take_append_of_le_length hlt.le, Function.update_of_ne hlt.ne]
      exact h.entry i g hg
    · rw [List.getElem?_append_right le_rfl, Nat.sub_self] at hg
      obtain rfl : f = g := by simpa using hg
      rw [List.take_left, Function.update_self]
      exact he
    · rw [List.getElem?_eq_none (by simp; omega)] at hg
      cases hg
  · intro i hi
    rw [List.length_append, List.length_singleton] at hi
    rw [hfile, Function.update_of_ne (by omega)]
    exact h.fresh i (by omega)
  · intro g hg
    rcases List.mem_append.mp hg with hg | hg
    · exact h.small g hg
    · rw [List.mem_singleton.mp hg]
      exact hsmall
  · intro g hg
    rcases List.mem_append.mp hg with hg | hg
    · exact h.args g hg
    · rw [List.mem_singleton.mp hg]
      exact harg

/-- A run of the loop. -/
theorem run (hn : n ≤ 117) {fs : List InputFile} : ∀ {done t t'}, Packed n done t →
    packFiles done.length fs t = .ok t' → Packed n (done ++ fs) t' ∧ t'.info.pkg = t.info.pkg := by
  induction fs with
  | nil =>
    intro done t t' h hrun
    rw [packFiles] at hrun
    cases hrun
    rw [List.append_nil]
    exact ⟨h, rfl⟩
  | cons f fs ih =>
    intro done t t' h hrun
    rw [packFiles] at hrun
    split at hrun
    · cases hrun
    · rename_i t₁ hf
      have hlen : done.length + 1 = (done ++ [f]).length := by simp
      rw [hlen] at hrun
      obtain ⟨hpacked, hpkg⟩ := ih (h.step hn hf) hrun
      rw [List.append_assoc, List.singleton_append] at hpacked
      exact ⟨hpacked, hpkg.trans (packFile_pkg hf)⟩

end Packed

/-! ## The package written -/

theorem storedBytes_take_succ {done : List InputFile} {i : ℕ} {f : InputFile}
    (hf : done[i]? = some f) :
    storedBytes (done.take (i + 1)) = storedBytes (done.take i) ++ f.stored := by
  rw [List.take_add_one, hf, Option.toList_some, storedBytes_concat]

theorem storedBytes_take_mono (done : List InputFile) {i k : ℕ} (hik : i ≤ k) :
    (storedBytes (done.take i)).length ≤ (storedBytes (done.take k)).length := by
  obtain ⟨d, rfl⟩ := Nat.exists_eq_add_of_le hik
  rw [List.take_add, storedBytes, storedBytes, List.flatMap_append, List.length_append]
  omega

namespace Packed

variable {n : ℕ} {done : List InputFile} {t : Tool}

/-- Before the first file. -/
theorem init {pkg : UpgradePacket} (hnum : pkg.fileNum.toNat = n) :
    Packed n [] ⟨{ PacketInfo.zero with pkg := pkg }, .create, 0⟩ where
  num := hnum
  room := by decide
  offset h := absurd rfl h
  length := Nat.max_eq_right (Nat.zero_le _)
  bytes := rfl
  entry i f hf := by
    rw [List.getElem?_nil] at hf
    cases hf
  fresh i _ := rfl
  small f hf := absurd hf List.not_mem_nil
  args f hf := absurd hf List.not_mem_nil

/-- The bytes of a file packed. -/
theorem region (h : Packed n done t) {i : ℕ} {f : InputFile} (hf : done[i]? = some f) :
    loadBytes t.packetFd.bytes (headLen n + (storedBytes (done.take i)).length) f.storedLen
      = f.stored := by
  have hsplit : storedBytes done
      = storedBytes (done.take i) ++ (f.stored ++ storedBytes (done.drop (i + 1))) := by
    rw [← List.append_assoc, ← storedBytes_take_succ hf, storedBytes, storedBytes, storedBytes,
      ← List.flatMap_append, List.take_append_drop]
  have hbytes := h.bytes
  nth_rewrite 2 [hsplit] at hbytes
  have hrest := (loadBytes_eq_append hbytes).2
  rw [← f.stored_length]
  exact (loadBytes_eq_append hrest).1

/-- The region of a file ends where that of the next one begins. -/
theorem region_end (h : Packed n done t) {i : ℕ} (hi : i < done.length) :
    (t.info.file i).addr.toNat + (t.info.file i).size.toNat
      = headLen n + (storedBytes (done.take (i + 1))).length := by
  have hf := List.getElem?_eq_getElem hi
  have he := h.entry i _ hf
  rw [he.addr, he.size, storedBytes_take_succ hf, List.length_append, InputFile.stored_length,
    Nat.add_assoc]

theorem addr_eq (h : Packed n done t) {i : ℕ} (hi : i < done.length) :
    (t.info.file i).addr.toNat = headLen n + (storedBytes (done.take i)).length :=
  (h.entry i _ (List.getElem?_eq_getElem hi)).addr

/-- The sizes of the entries add up. -/
theorem sum_sizes (h : Packed n done t) (size : UInt32) (k : ℕ) (hk : k ≤ done.length) :
    ((List.range k).foldl (fun size i => size + (t.info.file i).size) size).toNat
      = (size.toNat + (storedBytes (done.take k)).length) % 4294967296 := by
  induction k with
  | zero =>
    rw [List.range_zero, List.foldl_nil, List.take_zero, storedBytes, List.flatMap_nil,
      List.length_nil, Nat.add_zero, Nat.mod_eq_of_lt size.toNat_lt]
  | succ k ih =>
    have hf := List.getElem?_eq_getElem (show k < done.length by omega)
    rw [List.range_succ, List.foldl_append, List.foldl_cons, List.foldl_nil, UInt32.toNat_add,
      ih (by omega), (h.entry k _ hf).size, storedBytes_take_succ hf, List.length_append,
      InputFile.stored_length]
    omega

end Packed

section Head

variable {done : List InputFile} {t : Tool}

/-- The bytes of the head. -/
def headBytes (info : PacketInfo) (n : ℕ) : List UInt8 :=
  UpgradePacket.codec.encode info.pkg ++ UpgradeFile.codec.encodeAll info.file n

theorem length_headBytes (info : PacketInfo) (n : ℕ) : (headBytes info n).length = headLen n := by
  rw [headBytes, List.length_append, UpgradePacket.codec.length_encode, Codec.length_encodeAll]
  rfl

theorem pkgAddHead_fd (t : Tool) : (pkgAddHead t).2
    = (t.packetFd.fseek 0).put (listMem (headBytes (pkgAddHead t).1 t.info.pkg.fileNum.toNat))
        (headLen t.info.pkg.fileNum.toNat) := rfl

theorem pkgAddHead_file (t : Tool) : (pkgAddHead t).1.file = t.info.file := rfl

/-- The package starts with the head. -/
theorem pkgAddHead_head (t : Tool) :
    loadBytes (pkgAddHead t).2.bytes 0 (headLen t.info.pkg.fileNum.toNat)
      = headBytes (pkgAddHead t).1 t.info.pkg.fileNum.toNat := by
  rw [pkgAddHead_fd, StdioFile.put_bytes, StdioFile.fseek_pos, loadBytes_memcpy_inside,
    ← length_headBytes (pkgAddHead t).1, loadBytes_listMem]

/-- The head leaves what is behind it. -/
theorem pkgAddHead_behind (t : Tool) {a k : ℕ} (ha : headLen t.info.pkg.fileNum.toNat ≤ a) :
    loadBytes (pkgAddHead t).2.bytes a k = loadBytes t.packetFd.bytes a k := by
  rw [pkgAddHead_fd, StdioFile.put_bytes, StdioFile.fseek_pos]
  exact loadBytes_memcpy_outside _ _ _ (.inr (by omega))

theorem pkgAddHead_size (h : Packed done.length done t) :
    (pkgAddHead t).2.size = headLen done.length + (storedBytes done).length := by
  have hpos : headLen done.length ≠ 0 := by
    unfold headLen sizeofUpgradePacket
    omega
  have hlen := h.length
  rw [pkgAddHead_fd, h.num]
  show (if headLen done.length = 0 then t.packetFd.size
    else max t.packetFd.size (0 + headLen done.length)) = _
  rw [if_neg hpos, Nat.zero_add, hlen]

theorem readBytes_inside {f : StdioFile} {n : ℕ} (h : f.pos + n ≤ f.size) :
    readBytes f n = (loadBytes f.bytes f.pos n, f.fseek (f.pos + n)) := by
  rw [readBytes, min_eq_left (by omega), loadBytes_length]

/-- A head and a table that can be read are those of `packet_info`. -/
theorem pkgReadHead_eq {f f₁ f₂ : StdioFile} {pkg : UpgradePacket} {file : ℕ → UpgradeFile} {n : ℕ}
    (info : PacketInfo) (hnum : pkg.fileNum.toNat = n) (hn : n ≠ 0) (hroom : n ≤ 116)
    (hhead : readBytes f sizeofUpgradePacket = (UpgradePacket.codec.encode pkg, f₁))
    (htable : readBytes f₁ (n * sizeofUpgradeFile) = (UpgradeFile.codec.encodeAll file n, f₂)) :
    pkgReadHead f info = .ok (0, ⟨pkg, fun i => if i < n then file i else info.file i⟩) := by
  have hinto : UpgradePacket.codec.readInto info.pkg (UpgradePacket.codec.encode pkg) = pkg := by
    have := UpgradePacket.codec.readInto_encode info.pkg pkg []
    rwa [List.append_nil] at this
  have hlen : (UpgradePacket.codec.encode pkg).length = sizeofUpgradePacket := by
    rw [UpgradePacket.codec.length_encode, UpgradePacket.codec_width]
  have hzero : pkg.fileNum ≠ 0 := by
    intro hzero
    rw [hzero] at hnum
    exact hn hnum.symm
  have hfits : ¬ sizeofPacketInfo < headLen n := by
    unfold headLen sizeofPacketInfo sizeofUpgradePacket sizeofUpgradeFile
    omega
  have hfile : (fun i => UpgradeFile.codec.readInto (info.file i)
        ((UpgradeFile.codec.encodeAll file n).drop (i * sizeofUpgradeFile)))
      = fun i => if i < n then file i else info.file i := by
    funext i
    rw [← UpgradeFile.codec_width, Codec.readInto_encodeAll]
  rw [← hfile]
  unfold pkgReadHead
  simp only [hhead, hinto, hlen, hnum, htable, ne_eq, not_true, if_false, if_neg hzero,
    if_neg hfits]

/-- Reading the head of a package. -/
theorem readBytes_head (h : Packed done.length done t) :
    readBytes ((pkgAddHead t).2.fseek 0) sizeofUpgradePacket
      = (UpgradePacket.codec.encode (pkgAddHead t).1.pkg,
          (pkgAddHead t).2.fseek sizeofUpgradePacket) := by
  have hhead := (loadBytes_eq_append (pkgAddHead_head t)).1
  rw [UpgradePacket.codec.length_encode, UpgradePacket.codec_width] at hhead
  rw [readBytes_inside]
  · rw [StdioFile.fseek_bytes, StdioFile.fseek_pos, hhead]
    rfl
  · rw [StdioFile.fseek_pos, StdioFile.fseek_size, pkgAddHead_size h, headLen]
    omega

/-- Reading the table behind it. -/
theorem readBytes_table (h : Packed done.length done t) :
    ∃ f, readBytes ((pkgAddHead t).2.fseek sizeofUpgradePacket) (done.length * sizeofUpgradeFile)
      = (UpgradeFile.codec.encodeAll t.info.file done.length, f) := by
  have htable := (loadBytes_eq_append (pkgAddHead_head t)).2
  rw [UpgradePacket.codec.length_encode, UpgradePacket.codec_width, Codec.length_encodeAll,
    UpgradeFile.codec_width, Nat.zero_add, h.num, pkgAddHead_file] at htable
  rw [readBytes_inside]
  · rw [StdioFile.fseek_bytes, StdioFile.fseek_pos, htable]
    exact ⟨_, rfl⟩
  · rw [StdioFile.fseek_pos, StdioFile.fseek_size, pkgAddHead_size h, headLen]
    omega

/-- The head reads back from a package of at most 116 entries. -/
theorem pkgReadHead_pkgAddHead (h : Packed done.length done t) (hne : done ≠ []) :
    pkgReadHead ((pkgAddHead t).2.fseek 0) PacketInfo.zero = .ok (0, (pkgAddHead t).1) := by
  obtain ⟨f, htable⟩ := readBytes_table h
  have hnum : (pkgAddHead t).1.pkg.fileNum.toNat = done.length := h.num
  have hpos : done.length ≠ 0 := fun hzero => hne (List.length_eq_zero_iff.mp hzero)
  rw [pkgReadHead_eq _ hnum hpos h.room (readBytes_head h) htable]
  -- the entries behind the table are zero in both
  have hfile : (fun i => if i < done.length then t.info.file i else PacketInfo.zero.file i)
      = (pkgAddHead t).1.file := by
    funext i
    split
    · rfl
    · rename_i hi
      rw [pkgAddHead_file, h.fresh i (by omega)]
  rw [hfile]

end Head

/-! ## The round trip -/

/-- The loop has got through at most 117 files: the last one's head lies outside the array. -/
theorem packFiles_le {fs : List InputFile} (hfs : fs ≠ []) : ∀ {j t t'},
    packFiles j fs t = .ok t' → j + fs.length ≤ 117 := by
  induction fs with
  | nil => exact absurd rfl hfs
  | cons f fs ih =>
    intro j t t' h
    rw [packFiles] at h
    split at h
    · cases h
    · rename_i t₁ hf
      have hj := (packFile_ok hf).2.1
      rw [List.length_cons]
      by_cases hlast : fs = []
      · rw [hlast, List.length_nil]
        omega
      · have := ih hlast h
        omega

/-- The loop fails, unless an input is refused, at a name that is too long or for want of room. -/
theorem packFiles_error {fs : List InputFile} : ∀ {j t e}, packFiles j fs t = .error e →
    e ≠ .refused → (∃ f ∈ fs, sizeofFileName ≤ f.arg.length) ∨ 116 < j + fs.length := by
  induction fs with
  | nil =>
    intro j t e h
    rw [packFiles] at h
    cases h
  | cons f fs ih =>
    intro j t e h hne
    rw [packFiles] at h
    rw [List.length_cons]
    split at h
    · rename_i hf
      cases h
      rcases packFile_error hf hne with harg | hj
      · exact .inl ⟨f, List.mem_cons_self, harg⟩
      · right
        omega
    · rcases ih h hne with ⟨g, hg, harg⟩ | hj
      · exact .inl ⟨g, List.mem_cons_of_mem f hg, harg⟩
      · right
        omega

/-- The loop refuses one of its inputs. -/
theorem packFiles_refused {fs : List InputFile} : ∀ {j t},
    packFiles j fs t = .error .refused → ∃ f ∈ fs, f.Refused (cstr t.info.pkg.deviceType) := by
  induction fs with
  | nil =>
    intro j t h
    rw [packFiles] at h
    cases h
  | cons f fs ih =>
    intro j t h
    rw [packFiles] at h
    split at h
    · rename_i e hf
      cases h
      exact ⟨f, List.mem_cons_self, packFile_refused hf⟩
    · rename_i t₁ hf
      obtain ⟨g, hg, hrefused⟩ := ih h
      rw [packFile_pkg hf] at hrefused
      exact ⟨g, List.mem_cons_of_mem f hg, hrefused⟩

section Main

variable {arg : List UInt8} {date : Vector UInt8 16} {files : List InputFile}

/-- A package written is that of at most 116 files, all packed. -/
theorem mkupgrade_ok {info : PacketInfo} {fd : StdioFile}
    (h : mkupgrade arg date files = .ok (info, fd)) :
    files ≠ [] ∧ arg.length < sizeofFileName ∧ ∃ t, Packed files.length files t
      ∧ t.info.pkg.size = t.info.pkg.fileNum * .ofNat sizeofUpgradeFile
      ∧ pkgAddHead t = (info, fd) := by
  unfold mkupgrade at h
  split at h
  · cases h
  · rename_i hne
    split at h
    · cases h
    · rename_i pkg hdevice
      dsimp only at h
      split at h
      · cases h
      · rename_i t hrun
        cases h
        have hle := packFiles_le hne hrun
        have hnum : (UInt32.ofNat files.length).toNat = files.length := by
          rw [UInt32.toNat_ofNat', Nat.mod_eq_of_lt (by omega)]
        obtain ⟨hpacked, hpkg⟩ := Packed.run (by omega) (Packed.init hnum) hrun
        exact ⟨hne, (parseArg_first hdevice).1, t, hpacked, by rw [hpkg], rfl⟩

/-- What the tool refuses is its device or an input. -/
theorem mkupgrade_refused (hstr : ∀ c ∈ arg, c ≠ 0)
    (h : mkupgrade arg date files = .error .refused) :
    tooLong 2 (some arg) = true ∨ ∃ f ∈ files, f.Refused (strsep arg).1 := by
  unfold mkupgrade at h
  split at h
  · cases h
  · split at h
    · rename_i e hdevice
      cases h
      exact .inl (parseDeviceType_refused hdevice)
    · rename_i pkg hdevice
      dsimp only at h
      split at h
      · rename_i e hrun
        cases h
        have hrefused := packFiles_refused hrun
        rw [(parseDeviceType_ok hstr hdevice).2] at hrefused
        exact .inr hrefused
      · cases h

/-- The tool fails, unless an input is refused, for an argument that is too long or for want of
room. -/
theorem mkupgrade_error {e : Fault} (h : mkupgrade arg date files = .error e) (hne : files ≠ [])
    (he : e ≠ .refused) : sizeofFileName ≤ arg.length
      ∨ (∃ f ∈ files, sizeofFileName ≤ f.arg.length) ∨ 116 < files.length := by
  unfold mkupgrade at h
  rw [if_neg hne] at h
  split at h
  · rename_i hdevice
    cases h
    exact .inl (parseDeviceType_error hdevice he)
  · dsimp only at h
    split at h
    · rename_i hrun
      cases h
      have := packFiles_error hrun he
      rw [Nat.zero_add] at this
      exact .inr this
    · cases h

/-- The package of files that an `int` can count. -/
theorem Packed.exact {t : Tool} (h : Packed files.length files t) (hne : files ≠ [])
    (hsize : t.info.pkg.size = t.info.pkg.fileNum * .ofNat sizeofUpgradeFile)
    (hlong : ∀ f ∈ files, f.bytes.length < 4294967296) :
    Exact files (pkgAddHead t).1 (pkgAddHead t).2 := by
  have hstoredLen : ∀ f ∈ files, f.storedLen = f.bytes.length :=
    fun f hf => Nat.mod_eq_of_lt (hlong f hf)
  have hstored : ∀ f ∈ files, f.stored = f.bytes := by
    intro f hf
    rw [InputFile.stored, hstoredLen f hf, List.take_length]
  have hpos : 0 < files.length := List.length_pos_iff.mpr hne
  have hplace := h.place_lt (h.room.trans (by decide))
  have hnum := h.num
  constructor
  · exact pkgReadHead_pkgAddHead h hne
  · exact hnum
  · have hall : storedBytes files = files.flatMap InputFile.bytes := List.flatMap_congr hstored
    have hroom := h.room
    show ((List.range t.info.pkg.fileNum.toNat).foldl _ t.info.pkg.size).toNat = _
    rw [hnum, h.sum_sizes _ _ le_rfl, List.take_length, hsize, UInt32.toNat_mul, hnum, ← hall]
    have hwidth : (UInt32.ofNat sizeofUpgradeFile).toNat = sizeofUpgradeFile := rfl
    have htable : files.length * sizeofUpgradeFile ≤ headLen files.length := Nat.le_add_left _ _
    rw [hwidth, Nat.mod_eq_of_lt (by omega), Nat.mod_eq_of_lt (by omega)]
  · intro i f hf
    exact (h.entry i f hf).name
  · intro i f hf
    rw [pkgAddHead_file, (h.entry i f hf).size, hstoredLen f (List.mem_of_getElem? hf)]
  · intro i f hf
    have hmem := List.mem_of_getElem? hf
    rw [pkgAddHead_file, (h.entry i f hf).addr, (h.entry i f hf).size, pkgAddHead_behind,
      h.region hf, hstored f hmem]
    rw [hnum]
    exact Nat.le_add_right _ _
  · intro i hi
    rw [pkgAddHead_file, h.region_end hi, pkgAddHead_size h]
    have := storedBytes_take_mono files (show i + 1 ≤ files.length from hi)
    rw [List.take_length] at this
    omega
  · rw [pkgAddHead_file, h.addr_eq hpos]
    rfl
  · intro i hi
    rw [pkgAddHead_file, h.addr_eq hi, h.region_end (by omega)]
  · intro i k hik hk
    rw [pkgAddHead_file, h.addr_eq hk, h.region_end (hik.trans hk)]
    have := storedBytes_take_mono files (show i + 1 ≤ k from hik)
    omega
  · intro i hi
    rw [pkgAddHead_file, h.addr_eq hi]
    omega

/-- A package is that of the files only if there are at most 116. -/
theorem RoundTrips.room (h : RoundTrips arg date files) : files.length ≤ 116 := by
  obtain ⟨info, fd, hok, -⟩ := h
  obtain ⟨-, -, t, hpacked, -⟩ := mkupgrade_ok hok
  exact hpacked.room

end Main

/-- Whenever no input is refused, the package the tool writes reads back as the head that was built
and holds every file's bytes in its own region, if and only if the head has room for the entries,
the arguments fit the array they are copied to, and an `int` counts the files' bytes. -/
theorem package_round_trip_iff (arg : List UInt8) (date : Vector UInt8 16)
    (files : List InputFile) (hne : files ≠ [])
    (haccepted : mkupgrade arg date files ≠ .error .refused) :
    RoundTrips arg date files ↔ files.length ≤ 116 ∧ arg.length < sizeofFileName
      ∧ ∀ f ∈ files, f.arg.length < sizeofFileName ∧ f.bytes.length < 4294967296 := by
  constructor
  · rintro ⟨info, fd, hok, hexact⟩
    obtain ⟨-, harg, t, hpacked, -, hhead⟩ := mkupgrade_ok hok
    refine ⟨hpacked.room, harg, ?_⟩
    intro f hf
    obtain ⟨i, hi⟩ := List.mem_iff_getElem?.mp hf
    refine ⟨hpacked.args f hf, ?_⟩
    rw [← hexact.size i f hi]
    exact UInt32.toNat_lt _
  · rintro ⟨hroom, harg, hfiles⟩
    cases hrun : mkupgrade arg date files with
    | error e =>
      have he : e ≠ .refused := by
        rintro rfl
        exact haccepted hrun
      rcases mkupgrade_error hrun hne he with h | ⟨f, hf, h⟩ | h
      · exact absurd harg (Nat.not_lt.mpr h)
      · exact absurd (hfiles f hf).1 (Nat.not_lt.mpr h)
      · omega
    | ok result =>
      obtain ⟨info, fd⟩ := result
      obtain ⟨-, -, t, hpacked, hsize, hhead⟩ := mkupgrade_ok hrun
      refine ⟨info, fd, hrun, ?_⟩
      have hexact := hpacked.exact hne hsize fun f hf => (hfiles f hf).2
      rwa [hhead] at hexact

/-- A package of one file. -/
def startappFile : InputFile where
  arg := ascii "startapp@file@V1"
  bytes := [1, 2, 3]
  arg_ne_zero := by decide +kernel

theorem package_round_trip_startapp :
    RoundTrips (ascii "grain_813X@V2") (.replicate 16 0) [startappFile] :=
  (package_round_trip_iff _ _ _ (List.cons_ne_nil _ _) fun h =>
    absurd (congrArg Except.toBool h) (by decide)).mpr (by decide)

theorem startappFile_accepted : ¬ startappFile.Refused (ascii "grain_813X") := by
  rintro (hlong | hnone)
  · exact absurd hlong (by decide)
  · rcases hnone ⟨ascii "startapp", ascii "/mnt/mtd/", 0x7A0000⟩ rfl with hpath | hsize
    · exact absurd hpath (by decide)
    · exact absurd hsize (by decide)

/-- The 117th entry does not lie inside the array. -/
theorem package_overrun :
    mkupgrade (ascii "grain_813X@V2") (.replicate 16 0) (List.replicate 117 startappFile)
        ≠ .error .refused
      ∧ ¬ RoundTrips (ascii "grain_813X@V2") (.replicate 16 0)
        (List.replicate 117 startappFile) := by
  constructor
  · intro h
    rcases mkupgrade_refused (by decide +kernel) h with hdevice | ⟨f, hf, hrefused⟩
    · exact absurd hdevice (by decide)
    · rw [List.eq_of_mem_replicate hf] at hrefused
      exact startappFile_accepted hrefused
  · intro h
    have := h.room
    rw [List.length_replicate] at this
    omega

end MkUpgrade
