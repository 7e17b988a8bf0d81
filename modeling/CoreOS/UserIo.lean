/-
Reading and writing through descriptors, with the caller's memory and the
terminal (`syscall/io.rs`, `proc/fd_io.rs`): the calls on one buffer and on
vectors of buffers.
-/
import CoreOS.FileBounds
import CoreOS.Lib.Vectored
import CoreOS.Tty

namespace CoreOS

open ByteMem

/-- What a call can change: the kernel, the terminal with what was written to it,
and the memory of the caller. -/
structure Io where
  kernel : Kernel
  tty : Tty
  console : List Byte
  user : Mem

structure Iovec where
  base : Nat
  len : Nat
  deriving DecidableEq

/-- The buffer is in user memory. -/
def Iovec.ok (v : Iovec) : Bool := userRangeOk v.base v.len

/-- `copy_iovecs_from_user`. -/
def copyIovecsFromUser (user : Mem) (iovPtr iovcnt : Nat) : Option (List Iovec) :=
  if ¬ iovcntOk iovcnt then none
  else if ¬ userRangeOk iovPtr (16 * iovcnt) then none
  else
    some ((List.range iovcnt).map fun i =>
      ⟨(loadWord user (iovPtr + 16 * i)).toNat, (loadWord user (iovPtr + 16 * i + 8)).toNat⟩)

abbrev IoMoved := Vectored.Moved Io SysError

abbrev IoResult := Vectored.Result Io SysError Iovec

namespace Io

/-- The bytes `bs` put at `base` of the caller's memory. -/
def put (s : Io) (base : Nat) (bs : List Byte) : Io := { s with user := store s.user base bs }

/-- The bytes of a buffer. -/
def get (s : Io) (v : Iovec) : List Byte := load s.user v.base v.len

@[simp] theorem get_length (s : Io) (v : Iovec) : (s.get v).length = v.len := by simp [get, load]

def withKernel (s : Io) (k : Kernel) : Io := { s with kernel := k }

@[simp] theorem put_kernel (s : Io) (base : Nat) (bs : List Byte) : (s.put base bs).kernel = s.kernel := rfl

@[simp] theorem withKernel_kernel (s : Io) (k : Kernel) : (s.withKernel k).kernel = k := rfl

/-- Whether a write goes to the terminal. -/
def writesTerminal (k : Kernel) (fd : Nat) : Bool := isStdoutOrStderr k fd || getFdTarget k fd = some .tty

/-- Whether a read comes from the terminal. -/
def readsTerminal (k : Kernel) (fd : Nat) : Bool := isStdin k fd || getFdTarget k fd = some .tty

/-- `write_to_fd`; the outer `none` is a panic. -/
def writeToFd (s : Io) (fd : Nat) (bytes : List Byte) : Option (Option Nat × Io) :=
  (CoreOS.writeToFd s.kernel fd bytes).map fun (written, k) =>
    (written, { s with kernel := k, console := if writesTerminal s.kernel fd then s.console ++ bytes else s.console })

/-- `read_from_fd`, up to where it has to wait: the bytes it puts into the
buffer. -/
def readFromFd (s : Io) (fd count : Nat) : Option (FdPipe.ReadRound × Io) :=
  if count ≠ 0 ∧ readsTerminal s.kernel fd then
    let (r, tty) := s.tty.read count
    some (r, { s with tty })
  else (CoreOS.readFromFd s.kernel fd count []).map fun (r, k) => (r, s.withKernel k)

/-! ## One buffer -/

/-- A buffer in `readv_impl`; alone it is `read_impl`. -/
def readBuf (fd : Nat) (s : Io) (v : Iovec) : IoMoved :=
  if ¬ v.ok then .failed .fault s
  else
    match s.readFromFd fd v.len with
    | none => .failed .badFd s
    | some (.wait, s) => .wait s
    | some (.bytes bytes, s) => .moved bytes.length (s.put v.base bytes)

/-- A buffer in `writev_impl`; alone it is `write_impl`. -/
def writeBuf (fd : Nat) (s : Io) (v : Iovec) : IoMoved :=
  if ¬ v.ok then .failed .fault s
  else
    match s.writeToFd fd (s.get v) with
    | none => .panics
    | some (none, s) => .failed .badFd s
    | some (some written, s) => .moved written s

/-- `pread64_impl`. -/
def preadBuf (fd offset : Nat) (s : Io) (v : Iovec) : IoMoved :=
  if ¬ v.ok then .failed .fault s
  else
    match CoreOS.pread64 s.kernel fd v.len offset with
    | none => .panics
    | some (.error e) => .failed e s
    | some (.ok bytes) => .moved bytes.length (s.put v.base bytes)

/-- `pwrite64_impl`. -/
def pwriteBuf (fd offset : Nat) (s : Io) (v : Iovec) : IoMoved :=
  if ¬ v.ok then .failed .fault s
  else
    match CoreOS.pwrite64 s.kernel fd (s.get v) offset with
    | none => .panics
    | some (.error e, k) => .failed e (s.withKernel k)
    | some (.ok written, k) => .moved written (s.withKernel k)

/-! ## Vectors of buffers -/

/-- A buffer of `preadv_impl` or `pwritev_impl`, with the offset that moves on. -/
def atOffset (buf : Nat → Io → Iovec → IoMoved) (s : Io × Nat) (v : Iovec) : Vectored.Moved (Io × Nat) SysError :=
  match buf s.2 s.1 v with
  | .moved n t => .moved n (t, saturatingAdd s.2 n)
  | .failed e t => .failed e (t, s.2)
  | .wait t => .wait (t, s.2)
  | .panics => .panics

/-- The loop of `readv_impl`. -/
def readvLoop (fd : Nat) (s : Io) (iovs : List Iovec) : IoResult :=
  Vectored.run Iovec.len saturatingAdd (readBuf fd) s iovs 0

/-- The loop of `writev_impl`. -/
def writevLoop (fd : Nat) (s : Io) (iovs : List Iovec) : IoResult :=
  Vectored.run Iovec.len saturatingAdd (writeBuf fd) s iovs 0

/-- The loop of `preadv_impl`, which checks the range before `pread64_impl` does. -/
def preadvLoop (fd : Nat) (s : Io) (iovs : List Iovec) (offset : Nat) : IoResult :=
  (Vectored.run Iovec.len saturatingAdd (atOffset (preadBuf fd)) (s, offset) iovs 0).map Prod.fst

/-- The loop of `pwritev_impl`. -/
def pwritevLoop (fd : Nat) (s : Io) (iovs : List Iovec) (offset : Nat) : IoResult :=
  (Vectored.run Iovec.len saturatingAdd (atOffset (pwriteBuf fd)) (s, offset) iovs 0).map Prod.fst

/-- What the four calls begin with. -/
def vectored (s : Io) (iovPtr iovcnt : Nat) (loop : List Iovec → IoResult) : IoResult :=
  match copyIovecsFromUser s.user iovPtr iovcnt with
  | none => .failed .fault s
  | some iovs => loop iovs

/-- `readv_impl`. -/
def readv (s : Io) (fd iovPtr iovcnt : Nat) : IoResult := s.vectored iovPtr iovcnt (readvLoop fd s)

/-- `writev_impl`. -/
def writev (s : Io) (fd iovPtr iovcnt : Nat) : IoResult := s.vectored iovPtr iovcnt (writevLoop fd s)

/-- `preadv_impl`. -/
def preadv (s : Io) (fd iovPtr iovcnt offset : Nat) : IoResult :=
  s.vectored iovPtr iovcnt fun iovs => preadvLoop fd s iovs offset

/-- `pwritev_impl`. -/
def pwritev (s : Io) (fd iovPtr iovcnt offset : Nat) : IoResult :=
  s.vectored iovPtr iovcnt fun iovs => pwritevLoop fd s iovs offset

end Io

/-! ## What a descriptor leads to -/

/-- Where a read comes from. -/
inductive ReadSide
  | terminal
  | null
  | zero
  | pipe (j : Nat)
  | file (i : Nat)
  | closed

def readSide (k : Kernel) (fd : Nat) : ReadSide :=
  match getFdTarget k fd with
  | some (.stdio 0) | some .tty => .terminal
  | some .null => .null
  | some .zero => .zero
  | some (.pipeRead j) => if FdPipe.live k j then .pipe j else .closed
  | some (.openFile i) => if FdOpen.live k i then .file i else .closed
  | _ => .closed

/-- A read of at least one byte. -/
def ReadSide.read (s : Io) (count : Nat) : ReadSide → Option (FdPipe.ReadRound × Io)
  | .terminal => some ((s.tty.read count).1, { s with tty := (s.tty.read count).2 })
  | .null => some (.bytes [], s)
  | .zero => some (.bytes (List.replicate count 0), s)
  | .pipe j =>
    if 0 < (s.kernel.pipes j).len then
      let (bs, p) := (s.kernel.pipes j).readBytes count
      some (.bytes bs, s.withKernel (s.kernel.setPipe j p))
    else if (s.kernel.pipes j).writeRefs = 0 then some (.bytes [], s)
    else some (.wait, s)
  | .file i =>
    let f := s.kernel.openFiles i
    if f.statusFlags &&& oAccmode = oWronly then none
    else
      let bytes := fsRead s.kernel.fs f.fileIdx f.offset count
      some (.bytes bytes, s.withKernel (s.kernel.setOpenFile i { f with offset := wrappingAdd f.offset bytes.length }))
  | .closed => none

/-- Where a write goes to. -/
inductive WriteSide
  | terminal
  | null
  | pipe (j : Nat)
  | file (i : Nat)
  | closed

def writeSide (k : Kernel) (fd : Nat) : WriteSide :=
  match getFdTarget k fd with
  | some (.stdio 1) | some (.stdio 2) | some .tty => .terminal
  | some .null | some .zero => .null
  | some (.pipeWrite j) => if FdPipe.live k j then .pipe j else .closed
  | some (.openFile i) => if FdOpen.live k i then .file i else .closed
  | _ => .closed

def WriteSide.write (s : Io) (bytes : List Byte) : WriteSide → Option (Option Nat × Io)
  | .terminal => some (some bytes.length, { s with console := s.console ++ bytes })
  | .null => some (some bytes.length, s)
  | .pipe j =>
    if (s.kernel.pipes j).readRefs = 0 then some (some 0, s)
    else
      let (n, p) := (s.kernel.pipes j).writeBytes bytes
      some (some n, s.withKernel (s.kernel.setPipe j p))
  | .file i =>
    let f := s.kernel.openFiles i
    let accmode := f.statusFlags &&& oAccmode
    if accmode = oWronly ∨ accmode = oRdwr then
      let offset := f.writePos (fsFileSize s.kernel.fs f.fileIdx)
      match fsWriteAt s.kernel.fs f.fileIdx offset bytes with
      | none => none
      | some none => some (none, s)
      | some (some fs) =>
        some (some bytes.length, s.withKernel ((s.kernel.setFs (some fs)).setOpenFile i
          { f with offset := wrappingAdd offset bytes.length }))
    else some (none, s)
  | .closed => some (none, s)

namespace Io

variable {s : Io} {fd : Nat}

theorem readFromFd_zero : s.readFromFd fd 0 = some (.bytes [], s) := rfl

/-- **What a read comes to**, by what the descriptor leads to. -/
theorem readFromFd_eq {count : Nat} (hc : count ≠ 0) : s.readFromFd fd count = (readSide s.kernel fd).read s count := by
  unfold readFromFd readsTerminal CoreOS.readFromFd isStdin descriptorInfo readSide FdPipe.read FdPipe.peerClosed
    FdPipe.getMut CoreOS.readFile fdOpenIdx
  cases ht : getFdTarget s.kernel fd with
  | none => simp [hc, ReadSide.read]
  | some target =>
    cases target with
    | empty => simp [hc, ReadSide.read, FdPipe.resolve]
    | stdio index =>
      by_cases hz : index = 0
      · subst hz
        simp [hc, ReadSide.read]
      · simp [hc, hz, ReadSide.read, FdPipe.resolve]
    | tty => simp [hc, ReadSide.read]
    | null => simp [hc, ReadSide.read, withKernel]
    | zero => simp [hc, ReadSide.read, withKernel]
    | openFile i =>
      by_cases hlive : FdOpen.live s.kernel i
      · by_cases hmode : (s.kernel.openFiles i).statusFlags &&& oAccmode = oWronly
        · simp [hc, ReadSide.read, FdPipe.resolve, FdOpen.descriptorInfo, hlive, hmode]
        · simp [hc, ReadSide.read, FdPipe.resolve, FdOpen.descriptorInfo, hlive, hmode]
      · simp [hc, ReadSide.read, FdPipe.resolve, FdOpen.descriptorInfo, hlive]
    | pipeRead j =>
      by_cases hlive : FdPipe.live s.kernel j
      · by_cases hlen : 0 < (s.kernel.pipes j).len
        · simp [hc, ReadSide.read, FdPipe.resolve, hlive, hlen]
        · by_cases hrefs : (s.kernel.pipes j).writeRefs = 0
          · simp [hc, ReadSide.read, FdPipe.resolve, hlive, hlen, hrefs, withKernel]
          · simp [hc, ReadSide.read, FdPipe.resolve, hlive, hlen, hrefs, withKernel]
      · simp [hc, ReadSide.read, FdPipe.resolve, hlive]
    | pipeWrite j =>
      by_cases hlive : FdPipe.live s.kernel j
      · simp [hc, ReadSide.read, FdPipe.resolve, hlive]
      · simp [hc, ReadSide.read, FdPipe.resolve, hlive]

/-- **What a write comes to.** -/
theorem writeToFd_eq {bytes : List Byte} : s.writeToFd fd bytes = (writeSide s.kernel fd).write s bytes := by
  unfold writeToFd writesTerminal CoreOS.writeToFd isStdoutOrStderr descriptorInfo writeSide FdPipe.write FdPipe.getMut
    writeFile fdOpenIdx
  cases ht : getFdTarget s.kernel fd with
  | none => simp [ht, WriteSide.write]
  | some target =>
    cases target with
    | empty => simp [ht, WriteSide.write, FdPipe.resolve]
    | stdio index =>
      by_cases h1 : index = 1
      · simp [h1, WriteSide.write]
      · by_cases h2 : index = 2
        · simp [h2, WriteSide.write]
        · simp [ht, WriteSide.write, FdPipe.resolve, h1, h2]
    | tty | null | zero => simp [WriteSide.write]
    | openFile i =>
      by_cases hlive : FdOpen.live s.kernel i
      · by_cases hmode : (s.kernel.openFiles i).statusFlags &&& oAccmode = oWronly ∨
            (s.kernel.openFiles i).statusFlags &&& oAccmode = oRdwr
        · simp only [FdOpen.descriptorInfo, hlive, hmode, if_true, WriteSide.write, OpenFile.writePos, reduceCtorEq,
            Option.some.injEq, decide_false, Bool.false_or, Bool.false_eq_true, if_false]
          rcases fsWriteAt s.kernel.fs (s.kernel.openFiles i).fileIdx (if (s.kernel.openFiles i).statusFlags &&& oAppend ≠ 0
            then fsFileSize s.kernel.fs (s.kernel.openFiles i).fileIdx else (s.kernel.openFiles i).offset) bytes with _ | _ | fs
          all_goals simp [ht, withKernel, FdPipe.resolve]
        · simp [ht, FdOpen.descriptorInfo, hlive, hmode, WriteSide.write, FdPipe.resolve]
      · simp [ht, WriteSide.write, FdOpen.descriptorInfo, FdPipe.resolve, hlive]
    | pipeRead j =>
      by_cases hlive : FdPipe.live s.kernel j <;> simp [ht, WriteSide.write, FdPipe.resolve, hlive]
    | pipeWrite j =>
      by_cases hlive : FdPipe.live s.kernel j
      · by_cases hrefs : (s.kernel.pipes j).readRefs = 0 <;>
          simp [ht, WriteSide.write, FdPipe.resolve, hlive, hrefs, withKernel]
      · simp [ht, WriteSide.write, FdPipe.resolve, hlive]

end Io

end CoreOS
