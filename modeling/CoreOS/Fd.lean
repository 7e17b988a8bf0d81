/-
Descriptors (`proc/fd.rs`) over the open-file table (`proc/fd_open.rs`) and
the pipe table (`proc/fd_pipe.rs`).
-/
import CoreOS.Fs

namespace CoreOS

open ByteMem
open Function (update)

namespace Kernel

@[simps -fullyApplied] def setOpenFile (k : Kernel) (i : Nat) (f : OpenFile) : Kernel :=
  { k with openFiles := update k.openFiles i f }

@[simps -fullyApplied] def setPipe (k : Kernel) (j : Nat) (p : Pipe) : Kernel :=
  { k with pipes := update k.pipes j p }

def setFs (k : Kernel) (fs : Option RamFS) : Kernel := { k with fs }

end Kernel

/-! ## The open-file table -/

namespace FdOpen

def alloc (k : Kernel) (fileIdx : Nat) (statusFlags : BitVec 32) : Option (Nat × Kernel) :=
  match (List.range maxOpenFiles).find? fun i => !(k.openFiles i).inUse with
  | some i => some (i, k.setOpenFile i (.new fileIdx statusFlags))
  | none => none

/-- The check every access by index starts with. -/
def live (k : Kernel) (openIdx : Nat) : Bool := openIdx < maxOpenFiles && (k.openFiles openIdx).inUse

def retain (k : Kernel) (openIdx : Nat) : Option Kernel :=
  if live k openIdx then
    let f := k.openFiles openIdx
    some (k.setOpenFile openIdx { f with refs := f.refs + 1 })
  else none

def release (k : Kernel) (openIdx : Nat) : Kernel :=
  if live k openIdx then
    let f := k.openFiles openIdx
    if 1 < f.refs then k.setOpenFile openIdx { f with refs := f.refs - 1 }
    else k.setOpenFile openIdx .empty
  else k

def descriptorInfo (k : Kernel) (openIdx : Nat) : Option DescriptorInfo :=
  if live k openIdx then
    let f := k.openFiles openIdx
    some (.file f.fileIdx (fsFileSize k.fs f.fileIdx))
  else none

def statusFlags (k : Kernel) (openIdx : Nat) : Option (BitVec 32) :=
  if live k openIdx then some (k.openFiles openIdx).statusFlags else none

def setStatusFlags (k : Kernel) (openIdx : Nat) (flags : BitVec 32) : Option Kernel :=
  if live k openIdx then some (k.setOpenFile openIdx { k.openFiles openIdx with statusFlags := flags })
  else none

end FdOpen

/-! ## The pipe table -/

namespace FdPipe

def live (k : Kernel) (pipeIdx : Nat) : Bool := pipeIdx < maxPipes && (k.pipes pipeIdx).inUse

def retainRead (k : Kernel) (pipeIdx : Nat) : Option Kernel :=
  if live k pipeIdx then
    let p := k.pipes pipeIdx
    some (k.setPipe pipeIdx { p with readRefs := p.readRefs + 1 })
  else none

def retainWrite (k : Kernel) (pipeIdx : Nat) : Option Kernel :=
  if live k pipeIdx then
    let p := k.pipes pipeIdx
    some (k.setPipe pipeIdx { p with writeRefs := p.writeRefs + 1 })
  else none

/-- A pipe neither end of which is referenced is emptied. -/
def collect (p : Pipe) : Pipe := if p.readRefs = 0 ∧ p.writeRefs = 0 then .empty else p

def releaseRead (k : Kernel) (pipeIdx : Nat) : Kernel :=
  if live k pipeIdx then
    let p := k.pipes pipeIdx
    k.setPipe pipeIdx (collect { p with readRefs := p.readRefs - 1 })
  else k

def releaseWrite (k : Kernel) (pipeIdx : Nat) : Kernel :=
  if live k pipeIdx then
    let p := k.pipes pipeIdx
    k.setPipe pipeIdx (collect { p with writeRefs := p.writeRefs - 1 })
  else k

def alloc (k : Kernel) : Option (Nat × Kernel) :=
  match (List.range maxPipes).find? fun j => !(k.pipes j).inUse with
  | some j => some (j, k.setPipe j .new)
  | none => none

def clear (k : Kernel) (pipeIdx : Nat) : Kernel :=
  if pipeIdx < maxPipes then k.setPipe pipeIdx .empty else k

end FdPipe

namespace Pipe

def pushByte (p : Pipe) (b : Byte) : Pipe :=
  { p with
    buf := update p.buf p.writePos b
    writePos := (p.writePos + 1) % pipeCapacity
    len := p.len + 1 }

def popByte (p : Pipe) : Pipe :=
  { p with
    readPos := (p.readPos + 1) % pipeCapacity
    len := p.len - 1 }

/-- The loop of `fd_pipe::write`: bytes go in until the buffer of the call is
used up or the ring is full. Returns how many went in. -/
def writeBytes (p : Pipe) : List Byte → Nat × Pipe
  | [] => (0, p)
  | b :: bs =>
    if p.len < pipeCapacity then
      let r := writeBytes (p.pushByte b) bs
      (r.1 + 1, r.2)
    else (0, p)

/-- The loop of `fd_pipe::read`: at most `count` bytes come out. -/
def readBytes (p : Pipe) : Nat → List Byte × Pipe
  | 0 => ([], p)
  | count + 1 =>
    if 0 < p.len then
      let r := readBytes p.popByte count
      (p.buf p.readPos :: r.1, r.2)
    else ([], p)

end Pipe

/-! ## Descriptors -/

/-- The descriptor's target, `none` for a closed or out-of-range one. -/
def getFdTarget (k : Kernel) (fd : Nat) : Option FdTarget := do
  let p ← k.currentProcess
  if maxFds ≤ fd then none
  else
    match p.fds fd with
    | .empty => none
    | target => some target

namespace FdPipe

/-- The pipe a target leads to, and whether it is the read end. -/
def resolve (k : Kernel) : FdTarget → Option (Nat × Bool)
  | .pipeRead j => if live k j then some (j, true) else none
  | .pipeWrite j => if live k j then some (j, false) else none
  | _ => none

def getMut (k : Kernel) (fd : Nat) : Option (Nat × Bool) := (getFdTarget k fd).bind (resolve k)

def peerClosed (k : Kernel) (fd : Nat) : Option Bool :=
  (getMut k fd).map fun (j, isReadEnd) =>
    if isReadEnd then (k.pipes j).writeRefs == 0 else (k.pipes j).readRefs == 0

def statusFlags (k : Kernel) (fd : Nat) : Option (BitVec 32) :=
  (getMut k fd).map fun (j, isReadEnd) =>
    if isReadEnd then (k.pipes j).readFlags else (k.pipes j).writeFlags

def setStatusFlags (k : Kernel) (fd : Nat) (flags : BitVec 32) : Option Kernel :=
  (getMut k fd).map fun (j, isReadEnd) =>
    let p := k.pipes j
    k.setPipe j (if isReadEnd then { p with readFlags := flags } else { p with writeFlags := flags })

/-- `fd_pipe::write`: the number of bytes accepted. -/
def write (k : Kernel) (fd : Nat) (bytes : List Byte) : Option (Nat × Kernel) := do
  let (j, isReadEnd) ← getMut k fd
  if isReadEnd then none
  else if (k.pipes j).readRefs = 0 then some (0, k)
  else
    let (written, p) := (k.pipes j).writeBytes bytes
    some (written, k.setPipe j p)

/-- What one round of the loop of `fd_pipe::read` comes to. -/
inductive ReadRound
  | bytes (bs : List Byte)
  | wait
  deriving DecidableEq

/-- One round of the loop of `fd_pipe::read`; `wait` is the call of
`wait_for_event`, after which the loop starts again in whatever state it then
finds. -/
def read (k : Kernel) (fd count : Nat) : Option (ReadRound × Kernel) := do
  let peerClosed ← peerClosed k fd
  let (j, isReadEnd) ← getMut k fd
  if !isReadEnd then none
  else if 0 < (k.pipes j).len then
    let (bs, p) := (k.pipes j).readBytes count
    some (.bytes bs, k.setPipe j p)
  else if peerClosed then some (.bytes [], k)
  else some (.wait, k)

end FdPipe

def retainFdTarget (k : Kernel) : FdTarget → Option Kernel
  | .empty => none
  | .stdio _ | .tty | .null | .zero => some k
  | .openFile i => FdOpen.retain k i
  | .pipeRead j => FdPipe.retainRead k j
  | .pipeWrite j => FdPipe.retainWrite k j

def releaseFdTarget (k : Kernel) : FdTarget → Kernel
  | .openFile i => FdOpen.release k i
  | .pipeRead j => FdPipe.releaseRead k j
  | .pipeWrite j => FdPipe.releaseWrite k j
  | _ => k

/-- The first `maxFds` entries of a descriptor array, in order. -/
def fdList (fds : Nat → FdTarget) : List FdTarget := (List.range maxFds).map fds

def releaseFds (k : Kernel) (fds : Nat → FdTarget) : Kernel := (fdList fds).foldl releaseFdTarget k

/-- The retain that `fork_current` writes out inline: like
`retain_fd_target`, but a target it cannot retain is skipped. -/
def forkRetain (k : Kernel) (target : FdTarget) : Kernel :=
  match target with
  | .openFile i =>
    if i < maxOpenFiles then
      if (k.openFiles i).inUse then
        k.setOpenFile i { k.openFiles i with refs := (k.openFiles i).refs + 1 }
      else k
    else k
  | .pipeRead j =>
    if j < maxPipes ∧ (k.pipes j).inUse then
      k.setPipe j { k.pipes j with readRefs := (k.pipes j).readRefs + 1 }
    else k
  | .pipeWrite j =>
    if j < maxPipes ∧ (k.pipes j).inUse then
      k.setPipe j { k.pipes j with writeRefs := (k.pipes j).writeRefs + 1 }
    else k
  | _ => k

namespace Kernel

/-- `NEXT_PID.fetch_add(1)`, done. -/
def bumpPid (k : Kernel) : Kernel := { k with nextPid := wrappingAdd k.nextPid 1 }

/-- One descriptor of the process in slot `g` replaced, with its flags. -/
def setFd (k : Kernel) (g : Slot) (fd : Nat) (target : FdTarget) (flags : BitVec 32) : Kernel :=
  match k.processes g with
  | some p =>
    k.setProcess g (some { p with
      fds := update p.fds fd target
      fdFlags := update p.fdFlags fd flags })
  | none => k

end Kernel

/-- `fork_current`; it panics without a current process. -/
def forkCurrent (k : Kernel) (taskSlot : Slot) : Option (Nat × Kernel) := do
  let pid := k.nextPid
  let k := k.bumpPid
  let parent ← k.currentProcess
  let parentThread ← k.currentThread
  let k := (fdList parent.fds).foldl forkRetain k
  let k := k.setProcess taskSlot (some (parent.forkFrom pid))
  some (pid, k.setThread taskSlot (some (.newGroupMember pid parentThread.tid taskSlot taskSlot 0
    parentThread.fsBase parentThread.sigMask)))

/-- `reap_slot`: only a zombie is reaped. -/
def reapSlot (k : Kernel) (slot : Slot) : Option (Int × Kernel) :=
  match k.processes slot with
  | some p =>
    if p.state = .zombie then
      some (p.exitCode, ((releaseFds k p.fds).setProcess slot none).setThread slot none)
    else none
  | none => none

/-- The lowest closed descriptor from `minFd` on. -/
def firstEmptyFd (p : Process) (minFd : Nat) : Option Nat :=
  (List.range maxFds).find? fun fd => minFd ≤ fd && p.fds fd == .empty

/-- `alloc_specific_fd`. -/
def allocSpecificFd (k : Kernel) (target : FdTarget) (fdFlags : BitVec 32) : Option (Nat × Kernel) := do
  let t ← k.currentThread
  let p ← k.processes t.groupSlot
  let fd ← firstEmptyFd p 3
  some (fd, k.setFd t.groupSlot fd target fdFlags)

/-- `open_file`, through `alloc_fd_with_flags`. Without a current process the
allocated description is left behind. -/
def openFile (k : Kernel) (fileIdx : Nat) (statusFlags : BitVec 32) : Option Nat × Kernel :=
  match FdOpen.alloc k fileIdx statusFlags with
  | none => (none, k)
  | some (openIdx, k) =>
    match k.currentThread, k.currentProcess with
    | some t, some p =>
      match firstEmptyFd p 3 with
      | some fd => (some fd, k.setFd t.groupSlot fd (.openFile openIdx) 0)
      | none => (none, releaseFdTarget k (.openFile openIdx))
    | _, _ => (none, k)

def openCharDevice (k : Kernel) (target : FdTarget) : Option (Nat × Kernel) :=
  match target with
  | .tty | .null | .zero => allocSpecificFd k target 0
  | _ => none

def closeFd (k : Kernel) (fd : Nat) : Option Kernel := do
  let t ← k.currentThread
  let p ← k.processes t.groupSlot
  if maxFds ≤ fd then none
  else if p.fds fd = .empty then none
  else some (releaseFdTarget (k.setFd t.groupSlot fd .empty 0) (p.fds fd))

/-- Where `dup_fd` puts the copy. -/
inductive DupDest
  | fail
  | same (fd : Nat)
  | dest (fd : Nat)

def dupDest (p : Process) (oldFd minFd : Nat) : Option Nat → DupDest
  | some fd => if maxFds ≤ fd then .fail else if fd = oldFd then .same fd else .dest fd
  | none =>
    match firstEmptyFd p minFd with
    | some fd => .dest fd
    | none => .fail

/-- `dup_fd`. The destination is emptied and released before the target is
retained; if that fails the destination stays empty. -/
def dupFd (k : Kernel) (oldFd minFd : Nat) (newFd : Option Nat) (cloexec : Bool) : Option Nat × Kernel :=
  match k.currentThread, k.currentProcess with
  | some t, some p =>
    if maxFds ≤ oldFd then (none, k)
    else if p.fds oldFd = .empty then (none, k)
    else
      match dupDest p oldFd minFd newFd with
      | .fail => (none, k)
      | .same fd => (some fd, k)
      | .dest fd =>
        let k :=
          if p.fds fd = .empty then k
          else releaseFdTarget (k.setFd t.groupSlot fd .empty (p.fdFlags fd)) (p.fds fd)
        match retainFdTarget k (p.fds oldFd) with
        | none => (none, k)
        | some k => (some fd, k.setFd t.groupSlot fd (p.fds oldFd) (if cloexec then fdCloexec else 0))
  | _, _ => (none, k)

def dupMin (k : Kernel) (oldFd minFd : Nat) (cloexec : Bool) : Option Nat × Kernel :=
  dupFd k oldFd minFd none cloexec

def dupExact (k : Kernel) (oldFd newFd : Nat) (cloexec : Bool) : Option Nat × Kernel :=
  dupFd k oldFd 0 (some newFd) cloexec

/-- `alloc_pipe`: the pipe, then its two descriptors, each failure undoing
what was done before it. -/
def allocPipe (k : Kernel) : Option (Nat × Nat) × Kernel :=
  match FdPipe.alloc k with
  | none => (none, k)
  | some (pipeIdx, k) =>
    match allocSpecificFd k (.pipeRead pipeIdx) 0 with
    | none => (none, FdPipe.clear k pipeIdx)
    | some (readFd, k) =>
      match allocSpecificFd k (.pipeWrite pipeIdx) 0 with
      | some (writeFd, k) => (some (readFd, writeFd), k)
      | none => (none, FdPipe.clear ((closeFd k readFd).getD k) pipeIdx)

def descriptorInfo (k : Kernel) (fd : Nat) : Option DescriptorInfo :=
  match getFdTarget k fd with
  | some (.stdio index) => some (.stdio index)
  | some .tty | some .null | some .zero => some .charDevice
  | some (.openFile i) => FdOpen.descriptorInfo k i
  | some (.pipeRead _) | some (.pipeWrite _) => some .pipe
  | some .empty | none => none

def getStatusFlags (k : Kernel) (fd : Nat) : Option (BitVec 32) :=
  match getFdTarget k fd with
  | some (.stdio _) | some .tty | some .null | some .zero => some 0
  | some (.openFile i) => FdOpen.statusFlags k i
  | some (.pipeRead _) | some (.pipeWrite _) => FdPipe.statusFlags k fd
  | some .empty | none => none

def setStatusFlags (k : Kernel) (fd : Nat) (flags : BitVec 32) : Option Kernel :=
  match getFdTarget k fd with
  | some (.stdio _) | some .tty | some .null | some .zero => some k
  | some (.openFile i) => FdOpen.setStatusFlags k i flags
  | some (.pipeRead _) | some (.pipeWrite _) => FdPipe.setStatusFlags k fd flags
  | some .empty | none => none

/-- `with_fd_mut`: the index of the live description behind a descriptor,
which the caller's closure then reads and replaces. -/
def fdOpenIdx (k : Kernel) (fd : Nat) : Option Nat :=
  match getFdTarget k fd with
  | some (.openFile i) => if FdOpen.live k i then some i else none
  | _ => none

def getFdFlags (k : Kernel) (fd : Nat) : Option (BitVec 32) := do
  let p ← k.currentProcess
  if maxFds ≤ fd ∨ p.fds fd = .empty then none else some (p.fdFlags fd)

def setFdFlags (k : Kernel) (fd : Nat) (flags : BitVec 32) : Option Kernel := do
  let t ← k.currentThread
  let p ← k.processes t.groupSlot
  if maxFds ≤ fd ∨ p.fds fd = .empty then none
  else some (k.setProcess t.groupSlot (some { p with fdFlags := update p.fdFlags fd flags }))

def setCloexec (k : Kernel) (fd : Nat) (cloexec : Bool) : Option Kernel :=
  setFdFlags k fd (if cloexec then fdCloexec else 0)

def seekSet : Nat := 0
def seekCur : Nat := 1
def seekEnd : Nat := 2

/-- Where `seek` goes; the sums saturate. -/
def seekTarget (fileSize cur offset : Int) (whence : Nat) : Option Int :=
  if whence = seekSet then some offset
  else if whence = seekCur then some (i64SaturatingAdd cur offset)
  else if whence = seekEnd then some (i64SaturatingAdd fileSize offset)
  else none

/-- `seek`: the new cursor. -/
def seek (k : Kernel) (fd : Nat) (offset : Int) (whence : Nat) : Option (Nat × Kernel) := do
  let i ← fdOpenIdx k fd
  let f := k.openFiles i
  let newOff ← seekTarget (toI64 (fsFileSize k.fs f.fileIdx)) (toI64 f.offset) offset whence
  if newOff < 0 then none
  else some (newOff.toNat, k.setOpenFile i { f with offset := newOff.toNat })

/-- `read_file`: the bytes read, the cursor moved past them. -/
def readFile (k : Kernel) (fd count : Nat) : Option (List Byte × Kernel) := do
  let i ← fdOpenIdx k fd
  let f := k.openFiles i
  if f.statusFlags &&& oAccmode = oWronly then none
  else
    let bytes := fsRead k.fs f.fileIdx f.offset count
    some (bytes, k.setOpenFile i { f with offset := wrappingAdd f.offset bytes.length })

/-- `write_file`: the outer `none` is a panic inside `fs_write_at`. -/
def writeFile (k : Kernel) (fd : Nat) (bytes : List Byte) : Option (Option Nat × Kernel) :=
  match fdOpenIdx k fd with
  | none => some (none, k)
  | some i =>
    let f := k.openFiles i
    let accmode := f.statusFlags &&& oAccmode
    if accmode = oWronly ∨ accmode = oRdwr then
      let offset := if f.statusFlags &&& oAppend ≠ 0 then fsFileSize k.fs f.fileIdx else f.offset
      match fsWriteAt k.fs f.fileIdx offset bytes with
      | none => none
      | some none => some (none, k)
      | some (some fs) =>
        some (some bytes.length,
          (k.setFs (some fs)).setOpenFile i { f with offset := wrappingAdd offset bytes.length })
    else some (none, k)

end CoreOS
