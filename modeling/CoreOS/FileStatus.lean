/-
The status of files (`syscall/vfs.rs`): `fstat`, `fstatat`, `fsize` and `lseek` report
one size. The number of blocks is rounded up twice, once by adding 511 and once by
`div_ceil`.
-/
import CoreOS.FileRefine
import CoreOS.PathNames

namespace CoreOS

open ByteMem

/-- `fsize_impl`, by `file_size`. -/
def fsize (k : Kernel) (fd : Nat) : Except SysError Nat :=
  match descriptorInfo k fd with
  | some (.file _ size) => .ok size
  | _ => .error .badFd

/-- The end of `fstatat_impl`, on the name. -/
def statName (k : Kernel) (name : List Char) : Except SysError Stat :=
  match fsFindIdx k.fs name with
  | none => .error .noEntry
  | some fileIdx => .ok (statForFileIdx fileIdx (toI64 (fsFileSize k.fs fileIdx)))

/-- `fstatat_impl`, up to the copy of the record. -/
def fstatat (user : Mem) (k : Kernel) (dirfd : BitVec 64) (pathPtr : Nat) (flags : BitVec 64) : Except SysError Stat :=
  if dirfd.toInt ≠ atFdcwd then .error .unsupported
  else if flags ≠ 0 then .error .unsupported
  else
    match copyCstrFromUser user pathPtr with
    | none => .error .fault
    | some raw =>
      if [devNull, devZero, devTty, devStdin, devStdout, devStderr].contains raw then .ok charStat
      else if raw = procSelfExe then
        if (currentExePath k).isEmpty then .error .noEntry else statName k ((currentExePath k).map byteChar)
      else
        match copyPathCstrFromUser user pathPtr with
        | none => .error .fault
        | some name => statName k name

theorem fstatat_eq {user : Mem} {k : Kernel} {pathPtr : Nat} {name : List Char}
    (h : copyPathCstrFromUser user pathPtr = some name) :
    fstatat user k (.ofInt 64 atFdcwd) pathPtr 0 = statName k name := by
  obtain ⟨raw, hraw, hname⟩ := Option.bind_eq_some_iff.mp h
  obtain ⟨hspecial, -⟩ := not_special hname
  have hdev : raw ∉ [devNull, devZero, devTty, devStdin, devStdout, devStderr] :=
    fun hmem => hspecial (List.mem_append_left [procSelfExe] hmem)
  have hexe : raw ≠ procSelfExe := fun he => hspecial (he ▸ by decide)
  unfold fstatat
  rw [if_neg (by decide), if_neg (by decide), hraw]
  dsimp only
  rw [if_neg fun hc => hdev (List.contains_iff_mem.mp hc), if_neg hexe, h]

theorem stBlocks_iff {fileIdx size : Nat} (h : size < 2 ^ 62) :
    (statForFileIdx fileIdx (toI64 size)).stBlocks = (size + 511) / 512 ↔ size % 512 = 1 := by
  have hwrap : (BitVec.ofInt 64 (toI64 size)).toNat = size := by
    rw [toI64, BitVec.ofInt_toInt, BitVec.toNat_ofNat]
    omega
  have hadd : wrappingAdd size 511 = size + 511 := by
    apply wrappingAdd_of_lt
    unfold usizeMod
    omega
  have hblocks : (statForFileIdx fileIdx (toI64 size)).stBlocks = ((size + 511 + 512 - 1) / 512 : Nat) := by
    rw [← toI64_of_lt (n := (size + 511 + 512 - 1) / 512) (by omega)]
    simp only [statForFileIdx, hwrap, hadd, divCeil]
  rw [hblocks]
  omega

/-- The calls agree about a file of `size` bytes. -/
structure StatusAgrees (user : Mem) (k : Kernel) (fd pathPtr size : Nat) (st : Stat) : Prop where
  fstat : CoreOS.fstat k fd = .ok st
  fstatat : CoreOS.fstatat user k (.ofInt 64 atFdcwd) pathPtr 0 = .ok st
  fsize : CoreOS.fsize k fd = .ok size
  lseek : (CoreOS.lseek k fd 0 seekEnd).1 = .ok size
  stSize : st.stSize = size

theorem OnFile.statusAgrees {user : Mem} {k : Kernel} {fd i pathPtr : Nat} {name : List Char} {data : List Byte}
    (hon : OnFile k fd i) (hdata : fsData k.fs (k.openFiles i).fileIdx = some data) (hsize : data.length < 2 ^ 62)
    (hpath : copyPathCstrFromUser user pathPtr = some name)
    (hfind : fsFindIdx k.fs name = some (k.openFiles i).fileIdx) :
    StatusAgrees user k fd pathPtr data.length (statForFileIdx (k.openFiles i).fileIdx (toI64 data.length)) := by
  have hlen : fsFileSize k.fs (k.openFiles i).fileIdx = data.length := by rw [fsFileSize, hdata]
  have hinfo := hon.info
  rw [hlen] at hinfo
  refine ⟨by rw [fstat, hinfo], ?_, by rw [fsize, hinfo], ?_, toI64_of_lt (by omega)⟩
  · rw [fstatat_eq hpath, statName, hfind]
    dsimp only
    rw [hlen]
  · have hbase : i64SaturatingAdd (toI64 data.length) (BitVec.toInt 0#64) = data.length := by
      rw [toI64_of_lt (by omega), BitVec.toInt_zero, i64SaturatingAdd]
      omega
    have htarget : seekTarget (toI64 data.length) (toI64 (k.openFiles i).offset) (BitVec.toInt 0#64) seekEnd =
        some (data.length : Int) := by
      rw [seekTarget, if_neg (by decide), if_neg (by decide), if_pos rfl, hbase]
    have hseek : seek k fd (BitVec.toInt 0#64) seekEnd =
        some (data.length, k.setOpenFile i { k.openFiles i with offset := data.length }) := by
      simp only [seek, hon.openIdx, Option.bind_eq_bind, Option.bind_some, hlen, htarget]
      rw [if_neg (by omega), Int.toNat_natCast]
    simp only [CoreOS.lseek, hinfo]
    rw [show (0 : BitVec 64).toInt = BitVec.toInt 0#64 from rfl, hseek]

/-- **File status.** For every file of less than `2^62` bytes, open behind any
descriptor and found under any path: `fstat` and `fstatat` give one record, whose size
is that of `fsize` and of a seek to the end; and its blocks are those that cover the
size exactly if the size is one more than a multiple of 512. -/
theorem file_status_consistent_iff (user : Mem) (k : Kernel) (fd i pathPtr : Nat) (name : List Char) (data : List Byte)
    (hon : OnFile k fd i) (hdata : fsData k.fs (k.openFiles i).fileIdx = some data) (hsize : data.length < 2 ^ 62)
    (hpath : copyPathCstrFromUser user pathPtr = some name)
    (hfind : fsFindIdx k.fs name = some (k.openFiles i).fileIdx) :
    (∃ st, StatusAgrees user k fd pathPtr data.length st ∧ st.stBlocks = (data.length + 511) / 512) ↔
      data.length % 512 = 1 := by
  have hagrees := hon.statusAgrees hdata hsize hpath hfind
  rw [← stBlocks_iff hsize]
  constructor
  · rintro ⟨st, hst, hblocks⟩
    have hsame := hst.fstat.symm.trans hagrees.fstat
    rwa [Except.ok.inj hsame] at hblocks
  · exact fun h => ⟨_, hagrees, h⟩

/-- A file `a` of one byte. -/
def oneByteFile : Kernel := { fileSharers with fs := some ⟨[⟨['a'], [1]⟩]⟩ }

def pathOfA : Mem := store (fun _ => 0) 4096 (pathBytes ['/', 'a'] ++ [0])

theorem file_status_consistent_iff_oneByteFile :
    ∃ st, StatusAgrees pathOfA oneByteFile 3 4096 1 st ∧ st.stBlocks = 1 :=
  (file_status_consistent_iff pathOfA oneByteFile 3 0 4096 ['a'] [1] ⟨rfl, rfl⟩ rfl (by decide)
    (by decide +kernel) (by decide +kernel)).mpr rfl

/-- An empty file is said to take one block, and one of 512 bytes two. -/
theorem empty_file_has_a_block :
    ∃ st, StatusAgrees pathOfA fileSharers 3 4096 0 st ∧ st.stBlocks = 1 ∧
      (statForFileIdx 0 512).stBlocks = 2 := by
  have hon : OnFile fileSharers 3 0 := ⟨rfl, rfl⟩
  exact ⟨_, hon.statusAgrees rfl (by decide) (by decide +kernel : copyPathCstrFromUser pathOfA 4096 = some ['a'])
    (by decide +kernel), by decide, by decide⟩

end CoreOS
