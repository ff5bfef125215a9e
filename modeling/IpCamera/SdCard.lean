/-
# The SD card and the names on it (`avi_common_api.c`, `mmc_api.c`)

What `opendir` and `readdir` show of the card, and the functions that read a
recording's channel and times from its name.  A name is the list of its characters
before the terminating zero.  `avi_substring` leaves its destination alone when it
starts behind the end of the source; the destinations are not initialised, so what
is read of them then is no value (`none`).
-/
import IpCamera.CString
import IpCamera.AviRecord

open CString

/-! ## Directories -/

/-- `DT_DIR` and `DT_REG` -/
def dtDir : ℕ := 4
def dtReg : ℕ := 8

/-- `struct dirent` -/
structure Dirent where
  d_type : ℕ
  d_name : List Char
  deriving DecidableEq, Repr

namespace Dirent

/-- `ent->d_type & DT_DIR` -/
def hasDirBit (ent : Dirent) : Bool := ent.d_type &&& dtDir ≠ 0

/-- `ent->d_type & DT_REG` -/
def hasRegBit (ent : Dirent) : Bool := ent.d_type &&& dtReg ≠ 0

/-- `strcmp(ent->d_name,".") == 0 || strcmp(ent->d_name,"..") == 0` -/
def isDots (ent : Dirent) : Bool := ent.d_name = ['.'] || ent.d_name = ['.', '.']

end Dirent

/-- What `readdir` gives for the mount point, and for a directory in it; `none` where `opendir`
fails. -/
structure SdCard where
  root : Option (List Dirent)
  dir : List Char → Option (List Dirent)

/-- `GRD_SD_MOUNT_POINT/name` -/
def sdPath (name : List Char) : List Char := grdSdMountPoint.toList ++ '/' :: name

/-! ## Names -/

/-- `avi_substring` -/
def aviSubstring (src : List Char) (start stop : ℕ) : Option (List Char) :=
  if start > src.length then none
  else
    let stop := if stop > src.length then src.length else stop
    some ((src.drop start).take (stop - start))

/-- `last_index_at`, with `n` still to look at.  It never looks at the last character; the
last round would look before the string, where no `/` is taken to stand. -/
def lastIndexAt (str : List Char) (c : Char) : (n : ℕ) → ℤ
  | 0 => -1
  | n + 1 => if 0 < n ∧ str[n - 1]? = some c then n - 1 else lastIndexAt str c n

/-- `(unsigned long long)` of a signed number. -/
def toUint64 (v : ℤ) : ℕ := (v % 18446744073709551616).toNat

theorem toUint64_natCast {n : ℕ} (h : n < 18446744073709551616) : toUint64 n = n := by
  rw [toUint64]
  omega

/-- `avi_get_ch_num` -/
def aviGetChNum (fileName : List Char) : ℕ :=
  ((fileName.getD 2 '\x00').toNat + 4294967296 - 48) % 4294967296

/-- `avi_get_start_time` -/
def aviGetStartTime (fileName : List Char) : Option ℕ :=
  (aviSubstring fileName 4 (4 + 14)).map fun tmpStr => toUint64 (atoll tmpStr)

/-- `avi_get_stop_time` -/
def aviGetStopTime (fileName : List Char) : Option ℕ :=
  (aviSubstring fileName 19 (19 + 14)).map fun tmpStr => toUint64 (atoll tmpStr)

/-- `strstr(str, ".avi") != NULL`, the test of `is_avi_dir_format` and `is_avi_file_format`
alike. -/
def isAviFormat (str : List Char) : Bool := ['.', 'a', 'v', 'i'] <:+: str

/-- `is_avi_dir_format` -/
def isAviDirFormat (str : List Char) : Bool := isAviFormat str

/-- `is_avi_file_format` -/
def isAviFileFormat (str : List Char) : Bool := isAviFormat str

example : aviGetStartTime "ch0_20120101010101_20120101010201.avi".toList = some 20120101010101
    ∧ aviGetStopTime "ch0_20120101010101_20120101010201.avi".toList = some 20120101010201 := by
  decide
