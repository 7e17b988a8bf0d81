/-
The file system calls (`syscall/vfs.rs`, the file part of `syscall/io.rs`,
`proc/fd_io.rs`), between the copying of their arguments from user memory and
of their results to it: a path is the byte string the caller passed, a buffer
is a byte list, and `fstat` returns its record.
-/
import CoreOS.Fd
import CoreOS.SyscallBase

namespace CoreOS

open ByteMem

def maxPathLen : Nat := 64

def oLargefile : BitVec 64 := 0o100000

def oCloexec : BitVec 64 := 0o2000000

def atRemovedir : BitVec 64 := 0x200

/-- An ASCII string as the bytes the caller passes. -/
def pathBytes (s : List Char) : List Byte := s.map fun ch => BitVec.ofNat 8 ch.toNat

def devNull : List Byte := pathBytes ['/', 'd', 'e', 'v', '/', 'n', 'u', 'l', 'l']
def devZero : List Byte := pathBytes ['/', 'd', 'e', 'v', '/', 'z', 'e', 'r', 'o']
def devTty : List Byte := pathBytes ['/', 'd', 'e', 'v', '/', 't', 't', 'y']
def devStdin : List Byte := pathBytes ['/', 'd', 'e', 'v', '/', 's', 't', 'd', 'i', 'n']
def devStdout : List Byte := pathBytes ['/', 'd', 'e', 'v', '/', 's', 't', 'd', 'o', 'u', 't']
def devStderr : List Byte := pathBytes ['/', 'd', 'e', 'v', '/', 's', 't', 'd', 'e', 'r', 'r']
def procSelfExe : List Byte := pathBytes ['/', 'p', 'r', 'o', 'c', '/', 's', 'e', 'l', 'f', '/', 'e', 'x', 'e']

def byteChar (b : Byte) : Char := Char.ofNat b.toNat

/-- `normalize_path_bytes`: leading slashes dropped, no slash after them. -/
def normalizePathBytes (raw : List Byte) : Option (List Char) :=
  if raw.isEmpty ∨ maxPathLen < raw.length then none
  else
    let name := raw.dropWhile fun b => byteChar b = '/'
    if name.isEmpty then none
    else if name.any fun b => byteChar b = '/' then none
    else some (name.map byteChar)

/-! ## Opening -/

def validOpenFlags (flags : BitVec 64) : Bool :=
  let allowed := (oAccmode ||| oCreat ||| oExcl ||| oTrunc ||| oAppend ||| oNonblock).setWidth 64 ||| oLargefile |||
    oCloexec
  flags &&& ~~~allowed = 0

/-- Whether `flags` has a bit of `mask`. -/
def hasFlag (flags : BitVec 64) (mask : BitVec 32) : Bool := flags &&& mask.setWidth 64 ≠ 0

def accmode (flags : BitVec 64) : BitVec 64 := flags &&& oAccmode.setWidth 64

/-- The end of `open_path`, once the file is found or created: it is truncated
if asked, and a descriptor is allocated. -/
def openFound (k : Kernel) (fileIdx : Option Nat) (flags : BitVec 64) : Except SysError Nat × Kernel :=
  match fileIdx with
  | none => (.error .noEntry, k)
  | some fileIdx =>
    let truncated : Option Kernel :=
      if hasFlag flags oTrunc ∧ accmode flags ≠ oRdonly.setWidth 64 then
        match fsResize k.fs fileIdx 0 with
        | some (some fs) => some (k.setFs (some fs))
        -- the length 0 is never too long for a vector, so there is no panic here
        | some none | none => none
      else some k
    match truncated with
    | none => (.error .invalid, k)
    | some k =>
      let statusFlags := flags.setWidth 32 &&& (oAccmode ||| oAppend ||| oNonblock)
      match openFile k fileIdx statusFlags with
      | (some fd, k) => (.ok fd, k)
      | (none, k) => (.error .badFd, k)

def openPath (k : Kernel) (path : List Char) (flags : BitVec 64) : Except SysError Nat × Kernel :=
  if ¬ validOpenFlags flags then (.error .invalid, k)
  else if ¬ (accmode flags = oRdonly.setWidth 64 ∨ accmode flags = oWronly.setWidth 64 ∨
      accmode flags = oRdwr.setWidth 64) then (.error .invalid, k)
  else if hasFlag flags oTrunc ∧ accmode flags = oRdonly.setWidth 64 then (.error .invalid, k)
  else
    match fsFindIdx k.fs path with
    | some fileIdx =>
      if hasFlag flags oCreat ∧ hasFlag flags oExcl then (.error .invalid, k)
      else openFound k (some fileIdx) flags
    | none =>
      if ¬ hasFlag flags oCreat then (.error .noEntry, k)
      else
        match Vfs.create k.fs path with
        | none => (.error .invalid, k)
        | some fs => openFound (k.setFs (some fs)) (fsFindIdx (some fs) path) flags

/-- `current_exe_path`, empty without a current process. -/
def currentExePath (k : Kernel) : List Byte := (k.currentProcess.map Process.exePath).getD []

/-- A descriptor or `BadFd`. -/
def fdOrBad : Option Nat × Kernel → Except SysError Nat × Kernel
  | (some fd, k) => (.ok fd, k)
  | (none, k) => (.error .badFd, k)

/-- `open_special_path`, `none` for a path that is not special. -/
def openSpecialPath (k : Kernel) (raw : List Byte) (flags : BitVec 64) : Option (Except SysError Nat × Kernel) :=
  if ¬ validOpenFlags flags then some (.error .invalid, k)
  else if raw = devNull then some (fdOrBad (openDevice k .null))
  else if raw = devZero then some (fdOrBad (openDevice k .zero))
  else if raw = devTty then some (fdOrBad (openDevice k .tty))
  else if raw = devStdin then some (fdOrBad (dupMin k 0 3 false))
  else if raw = devStdout then some (fdOrBad (dupMin k 1 3 false))
  else if raw = devStderr then some (fdOrBad (dupMin k 2 3 false))
  else if raw = procSelfExe then
    if (currentExePath k).isEmpty then some (.error .noEntry, k)
    else some (openPath k ((currentExePath k).map byteChar) flags)
  else none
where
  openDevice (k : Kernel) (target : FdTarget) : Option Nat × Kernel :=
    match openCharDevice k target with
    | some (fd, k) => (some fd, k)
    | none => (none, k)

/-- `open_impl`. -/
def syscallOpen (k : Kernel) (raw : List Byte) (flags : BitVec 64) : Except SysError Nat × Kernel :=
  match openSpecialPath k raw flags with
  | some r => r
  | none =>
    match normalizePathBytes raw with
    | none => (.error .fault, k)
    | some path => openPath k path flags

/-- `AT_FDCWD`. -/
def atFdcwd : Int := -100

/-- `openat_impl`. -/
def openat (k : Kernel) (dirfd : BitVec 64) (raw : List Byte) (flags : BitVec 64) : Except SysError Nat × Kernel :=
  if dirfd.toInt = atFdcwd then syscallOpen k raw flags else (.error .unsupported, k)

/-! ## Creating and removing -/

/-- `touch_impl`. -/
def touch (k : Kernel) (raw : List Byte) : Except SysError Nat × Kernel :=
  match normalizePathBytes raw with
  | none => (.error .fault, k)
  | some path =>
    match Vfs.create k.fs path with
    | none => (.error .invalid, k)
    | some fs => (.ok 0, k.setFs (some fs))

/-- `rm_impl`. -/
def rm (k : Kernel) (raw : List Byte) : Except SysError Nat × Kernel :=
  match normalizePathBytes raw with
  | none => (.error .fault, k)
  | some path =>
    match Vfs.remove k.fs path with
    | none => (.error .noEntry, k)
    | some fs => (.ok 0, k.setFs (some fs))

/-- `unlinkat_impl` with `AT_FDCWD`: the special paths cannot be removed. -/
def unlinkat (k : Kernel) (raw : List Byte) (flags : BitVec 64) : Except SysError Nat × Kernel :=
  if ¬ (flags = 0 ∨ flags = atRemovedir) then (.error .invalid, k)
  else if flags &&& atRemovedir ≠ 0 then (.error .unsupported, k)
  else if raw ∈ [devNull, devZero, devTty, devStdin, devStdout, devStderr, procSelfExe] then (.error .access, k)
  else rm k raw

/-! ## Reading and writing -/

def isStdin (k : Kernel) (fd : Nat) : Bool :=
  match descriptorInfo k fd with
  | some (.stdio 0) => true
  | _ => false

def isStdoutOrStderr (k : Kernel) (fd : Nat) : Bool :=
  match descriptorInfo k fd with
  | some (.stdio 1) | some (.stdio 2) => true
  | _ => false

/-- `write_to_fd`: a file, then a pipe; the terminal takes everything. -/
def writeToFd (k : Kernel) (fd : Nat) (bytes : List Byte) : Option (Option Nat × Kernel) :=
  if isStdoutOrStderr k fd then some (some bytes.length, k)
  else
    match getFdTarget k fd with
    | some .tty | some .null | some .zero => some (some bytes.length, k)
    | _ =>
      match writeFile k fd bytes with
      | none => none
      | some (some written, k) => some (some written, k)
      | some (none, k) =>
        match FdPipe.write k fd bytes with
        | some (written, k) => some (some written, k)
        | none => some (none, k)

/-- `read_from_fd`: a pipe (one round of its loop), then a file. `typed` is
what the terminal hands over. -/
def readFromFd (k : Kernel) (fd count : Nat) (typed : List Byte) : Option (FdPipe.ReadRound × Kernel) :=
  if count = 0 then some (.bytes [], k)
  else if isStdin k fd then some (.bytes (typed.take count), k)
  else
    match getFdTarget k fd with
    | some .tty => some (.bytes (typed.take count), k)
    | some .null => some (.bytes [], k)
    | some .zero => some (.bytes (List.replicate count 0), k)
    | _ =>
      match FdPipe.read k fd count with
      | some r => some r
      | none => (readFile k fd count).map fun (bytes, k) => (.bytes bytes, k)

/-- `pread64_impl`. -/
def pread64 (k : Kernel) (fd count offset : Nat) : Option (Except SysError (List Byte)) :=
  match getStatusFlags k fd with
  | none => some (.error .badFd)
  | some status =>
    if status &&& oAccmode = oWronly then some (.error .badFd)
    else
      match descriptorInfo k fd with
      | none => some (.error .badFd)
      | some (.file fileIdx _) => (fsReadToVec k.fs fileIdx offset count).map fun
        | some bytes => .ok bytes
        | none => .error .badFd
      | some _ => some (.error .notSeekable)

/-- `pwrite64_impl`. -/
def pwrite64 (k : Kernel) (fd : Nat) (bytes : List Byte) (offset : Nat) : Option (Except SysError Nat × Kernel) :=
  match getStatusFlags k fd with
  | none => some (.error .badFd, k)
  | some status =>
    if status &&& oAccmode = oRdonly then some (.error .badFd, k)
    else
      match descriptorInfo k fd with
      | none => some (.error .badFd, k)
      | some (.file fileIdx _) => (fsWriteAt k.fs fileIdx offset bytes).map fun
        | some fs => (.ok bytes.length, k.setFs (some fs))
        | none => (.error .badFd, k)
      | some _ => some (.error .notSeekable, k)

/-- `lseek_impl`. -/
def lseek (k : Kernel) (fd : Nat) (offset : BitVec 64) (whence : Nat) : Except SysError Nat × Kernel :=
  match descriptorInfo k fd with
  | none => (.error .badFd, k)
  | some (.file ..) =>
    match seek k fd offset.toInt whence with
    | some (newOff, k) => (.ok newOff, k)
    | none => (.error .invalid, k)
  | some _ => (.error .notSeekable, k)

/-- `ftruncate_impl`. -/
def ftruncate (k : Kernel) (fd len : Nat) : Option (Except SysError Nat × Kernel) :=
  match descriptorInfo k fd with
  | none => some (.error .badFd, k)
  | some (.file fileIdx _) => (fsResize k.fs fileIdx len).map fun
    | some fs => (.ok 0, k.setFs (some fs))
    | none => (.error .invalid, k)
  | some _ => some (.error .invalid, k)

/-! ### Several buffers

The buffers of a vector call are given as a list, a buffer outside user memory
being `none`. -/

def maxIov : Nat := 16

/-- Whether `copy_iovecs_from_user` takes a vector of this length. -/
def iovcntOk (iovcnt : Nat) : Bool := iovcnt ≠ 0 && iovcnt ≤ maxIov

/-- The loop of `writev_impl`. -/
def writevLoop (fd : Nat) : Kernel → List (Option (List Byte)) → Nat → Option (Except SysError Nat × Kernel)
  | k, [], total => some (.ok total, k)
  | k, none :: _, _ => some (.error .fault, k)
  | k, some bytes :: iovs, total =>
    match writeToFd k fd bytes with
    | none => none
    | some (none, k) => some (.error .badFd, k)
    | some (some written, k) =>
      let total := saturatingAdd total written
      if written ≠ bytes.length then some (.ok total, k) else writevLoop fd k iovs total

/-- `writev_impl`. -/
def writev (k : Kernel) (fd : Nat) (iovs : List (Option (List Byte))) : Option (Except SysError Nat × Kernel) :=
  if iovcntOk iovs.length then writevLoop fd k iovs 0 else some (.error .fault, k)

/-- A buffer to be read into: its length, and what the terminal would hand over
for it. -/
structure ReadBuf where
  len : Nat
  typed : List Byte

/-- How far `readv_impl` got: to its result, or to a pipe that has to be waited
for, with the buffers that are left. -/
inductive ReadvEnd
  | done (result : Except SysError Nat)
  | wait (iovs : List (Option ReadBuf)) (total : Nat)

/-- The loop of `readv_impl`, with the bytes put into each buffer. -/
def readvLoop (fd : Nat) : Kernel → List (Option ReadBuf) → Nat → List (List Byte) × ReadvEnd × Kernel
  | k, [], total => ([], .done (.ok total), k)
  | k, none :: _, _ => ([], .done (.error .fault), k)
  | k, some buf :: iovs, total =>
    match readFromFd k fd buf.len buf.typed with
    | none => ([], .done (.error .badFd), k)
    | some (.wait, k) => ([], .wait (some buf :: iovs) total, k)
    | some (.bytes bytes, k) =>
      let total := saturatingAdd total bytes.length
      if bytes.length ≠ buf.len then ([bytes], .done (.ok total), k)
      else
        let (chunks, r) := readvLoop fd k iovs total
        (bytes :: chunks, r)

/-- `readv_impl`. -/
def readv (k : Kernel) (fd : Nat) (iovs : List (Option ReadBuf)) : List (List Byte) × ReadvEnd × Kernel :=
  if iovcntOk iovs.length then readvLoop fd k iovs 0 else ([], .done (.error .fault), k)

/-- The loop of `preadv_impl` over buffers of the given lengths, with the bytes
put into each. -/
def preadvLoop (k : Kernel) (fd : Nat) : List (Option Nat) → Nat → Nat → Option (List (List Byte) × Except SysError Nat)
  | [], _, total => some ([], .ok total)
  | none :: _, _, _ => some ([], .error .fault)
  | some len :: iovs, curOff, total =>
    match pread64 k fd len curOff with
    | none => none
    | some (.error e) => some ([], .error e)
    | some (.ok bytes) =>
      let total := saturatingAdd total bytes.length
      let curOff := saturatingAdd curOff bytes.length
      if bytes.length ≠ len then some ([bytes], .ok total)
      else (preadvLoop k fd iovs curOff total).map fun (chunks, r) => (bytes :: chunks, r)

/-- `preadv_impl`. -/
def preadv (k : Kernel) (fd : Nat) (iovs : List (Option Nat)) (offset : Nat) :
    Option (List (List Byte) × Except SysError Nat) :=
  if iovcntOk iovs.length then preadvLoop k fd iovs offset 0 else some ([], .error .fault)

/-- The loop of `pwritev_impl`. -/
def pwritevLoop (fd : Nat) :
    Kernel → List (Option (List Byte)) → Nat → Nat → Option (Except SysError Nat × Kernel)
  | k, [], _, total => some (.ok total, k)
  | k, none :: _, _, _ => some (.error .fault, k)
  | k, some bytes :: iovs, curOff, total =>
    match pwrite64 k fd bytes curOff with
    | none => none
    | some (.error e, k) => some (.error e, k)
    | some (.ok written, k) =>
      let total := saturatingAdd total written
      let curOff := saturatingAdd curOff written
      if written ≠ bytes.length then some (.ok total, k) else pwritevLoop fd k iovs curOff total

/-- `pwritev_impl`. -/
def pwritev (k : Kernel) (fd : Nat) (iovs : List (Option (List Byte))) (offset : Nat) :
    Option (Except SysError Nat × Kernel) :=
  if iovcntOk iovs.length then pwritevLoop fd k iovs offset 0 else some (.error .fault, k)

/-! ### From file to file -/

/-- The `offset_ptr` of `sendfile`: null, outside user memory, or what it points
to. -/
inductive OffsetArg
  | null
  | outside
  | value (offset : Int)

/-- Where `sendfile` starts to read. -/
def OffsetArg.start (k : Kernel) (inFd : Nat) : OffsetArg → Except SysError Nat
  | .null =>
    match fdOpenIdx k inFd with
    | some i => .ok (k.openFiles i).offset
    | none => .error .badFd
  | .outside => .error .fault
  | .value offset => if offset < 0 then .error .invalid else .ok offset.toNat

/-- The end of `sendfile_impl`: the cursor or the caller's offset moves on. -/
def OffsetArg.advance (k : Kernel) (inFd start written : Nat) : OffsetArg → Except SysError (Nat × Option Int) × Kernel
  | .null =>
    match fdOpenIdx k inFd with
    | some i =>
      (.ok (written, none), k.setOpenFile i { k.openFiles i with offset := wrappingAdd start written })
    | none => (.error .badFd, k)
  | .outside => (.error .fault, k)
  | .value _ => (.ok (written, some (toI64 (wrappingAdd start written))), k)

/-- `sendfile_impl`: the number of bytes sent, and the new offset where the
caller gave one. -/
def sendfile (k : Kernel) (outFd inFd : Nat) (offset : OffsetArg) (count : Nat) :
    Option (Except SysError (Nat × Option Int) × Kernel) :=
  match getStatusFlags k inFd with
  | none => some (.error .badFd, k)
  | some status =>
    if status &&& oAccmode = oWronly then some (.error .badFd, k)
    else
      match descriptorInfo k inFd with
      | none => some (.error .badFd, k)
      | some (.file fileIdx _) =>
        match offset.start k inFd with
        | .error e => some (.error e, k)
        | .ok start =>
          match fsReadToVec k.fs fileIdx start count with
          | none => none
          | some none => some (.error .badFd, k)
          | some (some bytes) =>
            match writeToFd k outFd bytes with
            | none => none
            | some (none, k) => some (.error .badFd, k)
            | some (some written, k) => some (offset.advance k inFd start written)
      | some _ => some (.error .notSeekable, k)

/-! ## Descriptor control -/

def fDupfd : Nat := 0
def fGetfd : Nat := 1
def fSetfd : Nat := 2
def fGetfl : Nat := 3
def fSetfl : Nat := 4
def fDupfdCloexec : Nat := 1030

def fcntlStatusMask : BitVec 32 := oAppend ||| oNonblock

/-- `syscall_fcntl_impl`. -/
def syscallFcntl (k : Kernel) (fd cmd : Nat) (arg : BitVec 64) : Except SysError Nat × Kernel :=
  if cmd = fDupfd then fdOrBad (dupMin k fd arg.toNat false)
  else if cmd = fDupfdCloexec then fdOrBad (dupMin k fd arg.toNat true)
  else if cmd = fGetfd then
    match getFdFlags k fd with
    | some flags => (.ok flags.toNat, k)
    | none => (.error .badFd, k)
  else if cmd = fSetfd then
    match setCloexec k fd (arg.setWidth 32 &&& fdCloexec ≠ 0) with
    | some k => (.ok 0, k)
    | none => (.error .badFd, k)
  else if cmd = fGetfl then
    match getStatusFlags k fd with
    | some flags => (.ok (flags ||| oRdonly).toNat, k)
    | none => (.error .badFd, k)
  else if cmd = fSetfl then
    match setStatusFlags k fd (arg.setWidth 32 &&& fcntlStatusMask) with
    | some k => (.ok 0, k)
    | none => (.error .badFd, k)
  else (.error .unsupported, k)

/-- `syscall_dup_impl`. -/
def syscallDup (k : Kernel) (oldFd : Nat) : Except SysError Nat × Kernel := fdOrBad (dupMin k oldFd 0 false)

/-- `syscall_dup3_impl`. -/
def syscallDup3 (k : Kernel) (oldFd newFd : Nat) (flags : BitVec 64) : Except SysError Nat × Kernel :=
  if flags &&& ~~~oCloexec ≠ 0 then (.error .invalid, k)
  else if oldFd = newFd then (.error .invalid, k)
  else fdOrBad (dupExact k oldFd newFd (flags &&& oCloexec ≠ 0))

/-- `syscall_pipe_impl`: the two descriptors go to user memory as `i32`s. -/
def syscallPipe (k : Kernel) (user : Mem) (pipefdPtr : Nat) : Except SysError Nat × Kernel × Mem :=
  if ¬ userRangeOk pipefdPtr 8 then (.error .fault, k, user)
  else
    match allocPipe k with
    | (none, k) => (.error .invalid, k, user)
    | (some (readFd, writeFd), k) =>
      match copyToUser user pipefdPtr (toBytes 4 readFd ++ toBytes 4 writeFd) with
      | some user => (.ok 0, k, user)
      | none =>
        let k := (closeFd k readFd).getD k
        (.error .fault, (closeFd k writeFd).getD k, user)

/-- An `i32` read back, as a `usize`. -/
def fdOfBytes (bytes : List Byte) : Nat := ((BitVec.ofNat 32 (ofBytes bytes)).signExtend 64).toNat

/-- One round of the loop of `syscall_pipe2_impl`. -/
def pipe2End (k : Kernel) (flags : BitVec 64) (fd : Nat) : Except SysError Nat × Kernel :=
  match if flags &&& oCloexec ≠ 0 then setCloexec k fd true else some k with
  | none => (.error .badFd, k)
  | some k =>
    match if hasFlag flags oNonblock then setStatusFlags k fd oNonblock else some k with
    | none => (.error .badFd, k)
    | some k => (.ok 0, k)

/-- `syscall_pipe2_impl`: the descriptors are read back from user memory. -/
def syscallPipe2 (k : Kernel) (user : Mem) (pipefdPtr : Nat) (flags : BitVec 64) : Except SysError Nat × Kernel × Mem :=
  if flags &&& ~~~(oCloexec ||| oNonblock.setWidth 64) ≠ 0 then (.error .invalid, k, user)
  else
    match syscallPipe k user pipefdPtr with
    | (.error e, k, user) => (.error e, k, user)
    | (.ok _, k, user) =>
      match copyFromUser user pipefdPtr 8 with
      | none => (.error .fault, k, user)
      | some raw =>
        match pipe2End k flags (fdOfBytes (raw.take 4)) with
        | (.error e, k) => (.error e, k, user)
        | (.ok _, k) =>
          let (r, k) := pipe2End k flags (fdOfBytes (raw.drop 4))
          (r, k, user)

/-! ## Status -/

structure Stat where
  stDev : Nat
  stIno : Nat
  stMode : Nat
  stNlink : Nat
  stUid : Nat
  stGid : Nat
  stRdev : Nat
  stSize : Int
  stBlksize : Int
  stBlocks : Int
  stAtime : Int
  stMtime : Int
  stCtime : Int

def defaultFileMode : Nat := 0o100000 + 0o644
def defaultCharMode : Nat := 0o020000 + 0o666
def defaultPipeMode : Nat := 0o010000 + 0o666

/-- The record of something that has no contents of its own. -/
def emptyStat (stDev stIno stMode : Nat) (stBlksize : Int) : Stat where
  stDev
  stIno
  stMode
  stNlink := 1
  stUid := 0
  stGid := 0
  stRdev := 0
  stSize := 0
  stBlksize
  stBlocks := 0
  stAtime := 0
  stMtime := 0
  stCtime := 0

def charStat : Stat := emptyStat 3 1 defaultCharMode 1

def statForFileIdx (fileIdx : Nat) (size : Int) : Stat :=
  { emptyStat 1 (wrappingAdd fileIdx 1) defaultFileMode 4096 with
    stSize := size
    stBlocks := toI64 (divCeil (wrappingAdd (BitVec.ofInt 64 size).toNat 511) 512) }

/-- `fstat_impl`. -/
def fstat (k : Kernel) (fd : Nat) : Except SysError Stat :=
  match descriptorInfo k fd with
  | none => .error .badFd
  | some (.stdio index) => .ok (emptyStat 0 index defaultCharMode 1)
  | some .charDevice => .ok charStat
  | some (.file fileIdx size) => .ok (statForFileIdx fileIdx (toI64 size))
  | some .pipe => .ok (emptyStat 2 fd defaultPipeMode 1024)

/-- `syscall_close_impl`. -/
def syscallClose (k : Kernel) (fd : Nat) : Except SysError Nat × Kernel :=
  match closeFd k fd with
  | some k => (.ok 0, k)
  | none => (.error .badFd, k)

end CoreOS
