/-
The kernel's data model (`proc/state.rs`, `fs.rs`, the records of
`proc/task.rs`): open-file descriptions, descriptor targets, pipes, memory
regions, threads, processes, tasks and the RAM filesystem, with the global
tables joined in one `Kernel`.
-/
import CoreOS.Pmm

namespace CoreOS

open ByteMem

def maxFds : Nat := 16

def maxOpenFiles : Nat := 32

def maxPipes : Nat := 16

def maxVmas : Nat := 32

def exePathMax : Nat := 64

def maxTasks : Nat := 8

def mmapBase : Nat := 0x100000000

def pipeCapacity : Nat := 1024

def fdCloexec : BitVec 32 := 1

def oAccmode : BitVec 32 := 0o3
def oRdonly : BitVec 32 := 0o0
def oWronly : BitVec 32 := 0o1
def oRdwr : BitVec 32 := 0o2
def oCreat : BitVec 32 := 0o100
def oExcl : BitVec 32 := 0o200
def oTrunc : BitVec 32 := 0o1000
def oAppend : BitVec 32 := 0o2000
def oNonblock : BitVec 32 := 0o4000

/-! ## Files -/

structure File where
  name : List Char
  data : List Byte

structure RamFS where
  files : List File

/-- A shared open-file description pointing into `RamFS.files`. -/
structure OpenFile where
  fileIdx : Nat
  offset : Nat
  statusFlags : BitVec 32
  refs : Nat
  inUse : Bool

def OpenFile.empty : OpenFile where
  fileIdx := 0
  offset := 0
  statusFlags := 0
  refs := 0
  inUse := false

def OpenFile.new (fileIdx : Nat) (statusFlags : BitVec 32) : OpenFile where
  fileIdx
  offset := 0
  statusFlags
  refs := 1
  inUse := true

/-- What a descriptor refers to. -/
inductive FdTarget
  | empty
  | stdio (index : Nat)
  | tty
  | null
  | zero
  | openFile (openIdx : Nat)
  | pipeRead (pipeIdx : Nat)
  | pipeWrite (pipeIdx : Nat)
  deriving DecidableEq

inductive DescriptorInfo
  | stdio (index : Nat)
  | charDevice
  | file (fileIdx size : Nat)
  | pipe

/-- A pipe's ring buffer and the counts of its two ends. -/
structure Pipe where
  buf : Nat → Byte
  readPos : Nat
  writePos : Nat
  len : Nat
  readRefs : Nat
  writeRefs : Nat
  readFlags : BitVec 32
  writeFlags : BitVec 32
  inUse : Bool

def Pipe.empty : Pipe where
  buf := fun _ => 0
  readPos := 0
  writePos := 0
  len := 0
  readRefs := 0
  writeRefs := 0
  readFlags := 0
  writeFlags := 0
  inUse := false

def Pipe.new : Pipe where
  buf := fun _ => 0
  readPos := 0
  writePos := 0
  len := 0
  readRefs := 1
  writeRefs := 1
  readFlags := 0
  writeFlags := 0
  inUse := true

/-! ## Signals -/

/-- `[u64; 16]`. -/
structure SigSet where
  bits : Nat → BitVec 64

def SigSet.empty : SigSet := ⟨fun _ => 0⟩

structure SigAction where
  handler : Nat
  flags : BitVec 64
  restorer : Nat
  mask : SigSet

def SigAction.empty : SigAction where
  handler := 0
  flags := 0
  restorer := 0
  mask := .empty

structure StackT where
  ssSp : Nat
  ssFlags : BitVec 32
  ssSize : Nat

def StackT.disabled : StackT where
  ssSp := 0
  ssFlags := 2
  ssSize := 0

/-! ## Processes, threads and tasks -/

structure VmRegion where
  start : Nat
  len : Nat
  prot : BitVec 32
  flags : BitVec 32
  inUse : Bool

def VmRegion.empty : VmRegion where
  start := 0
  len := 0
  prot := 0
  flags := 0
  inUse := false

def VmRegion.new (start len : Nat) (prot flags : BitVec 32) : VmRegion where
  start
  len
  prot
  flags
  inUse := true

/-- A scheduler slot, an index of the task, thread and process tables. -/
abbrev Slot := Fin maxTasks

instance : NeZero maxTasks := ⟨by decide⟩

inductive ProcessState
  | running
  | zombie
  deriving DecidableEq

inductive ThreadState
  | running
  | zombie
  deriving DecidableEq

structure Thread where
  tid : Nat
  parentTid : Nat
  groupSlot : Slot
  taskSlot : Slot
  state : ThreadState
  clearChildTid : Nat
  fsBase : Nat
  sigPending : SigSet
  sigMask : SigSet
  savedSigMask : SigSet
  sigAltstack : StackT
  inSignalHandler : Bool
  onAltstack : Bool
  robustListHead : Nat
  robustListLen : Nat

def Thread.newLeader (tid parentTid : Nat) (groupSlot taskSlot : Slot) : Thread where
  tid
  parentTid
  groupSlot
  taskSlot
  state := .running
  clearChildTid := 0
  fsBase := 0
  sigPending := .empty
  sigMask := .empty
  savedSigMask := .empty
  sigAltstack := .disabled
  inSignalHandler := false
  onAltstack := false
  robustListHead := 0
  robustListLen := 0

def Thread.newGroupMember (tid parentTid : Nat) (groupSlot taskSlot : Slot) (clearChildTid fsBase : Nat)
    (sigMask : SigSet) : Thread where
  tid
  parentTid
  groupSlot
  taskSlot
  state := .running
  clearChildTid
  fsBase
  sigPending := .empty
  sigMask
  savedSigMask := .empty
  sigAltstack := .disabled
  inSignalHandler := false
  onAltstack := false
  robustListHead := 0
  robustListLen := 0

structure Process where
  pid : Nat
  parentPid : Nat
  pgid : Nat
  sid : Nat
  state : ProcessState
  threadCount : Nat
  exitCode : Int
  uid : Nat
  euid : Nat
  gid : Nat
  egid : Nat
  umask : Nat
  exePath : List Byte
  programBreak : Nat
  nextMmapBase : Nat
  sigHandlers : Nat → SigAction
  sigPending : SigSet
  fds : Nat → FdTarget
  fdFlags : Nat → BitVec 32
  vmas : Nat → VmRegion

/-- Descriptors 0, 1 and 2 start as stdio. -/
def defaultFds : Nat → FdTarget := fun fd => if fd < 3 then .stdio fd else .empty

def defaultFdFlags : Nat → BitVec 32 := fun _ => 0

/-- The record of a newly spawned thread group; the path keeps the low byte
of each of the name's first `exePathMax` characters. -/
def Process.newLeader (pid parentPid : Nat) (name : List Char) : Process where
  pid
  parentPid
  pgid := pid
  sid := pid
  state := .running
  threadCount := 1
  exitCode := 0
  uid := 0
  euid := 0
  gid := 0
  egid := 0
  umask := 0o022
  exePath := (name.take exePathMax).map fun ch => BitVec.ofNat 8 ch.toNat
  programBreak := 0x40000000
  nextMmapBase := mmapBase
  sigHandlers := fun _ => .empty
  sigPending := .empty
  fds := defaultFds
  fdFlags := defaultFdFlags
  vmas := fun _ => .empty

/-- The process-visible state `fork` copies. -/
def Process.forkFrom (parent : Process) (pid : Nat) : Process where
  pid
  parentPid := parent.pid
  pgid := parent.pgid
  sid := parent.sid
  state := .running
  threadCount := 1
  exitCode := 0
  uid := parent.uid
  euid := parent.euid
  gid := parent.gid
  egid := parent.egid
  umask := parent.umask
  exePath := parent.exePath
  programBreak := parent.programBreak
  nextMmapBase := parent.nextMmapBase
  sigHandlers := parent.sigHandlers
  sigPending := .empty
  fds := parent.fds
  fdFlags := parent.fdFlags
  vmas := parent.vmas

inductive TaskState
  | ready
  | running
  | dead
  deriving DecidableEq

structure Task where
  rsp : Nat
  stackBase : Nat
  state : TaskState
  id : Nat
  rspValid : Bool
  pml4 : Nat

/-! ## The global tables -/

/-- The addresses of the two routines a new task's first switch returns
into. -/
structure CodeAddrs where
  userTaskTrampoline : BitVec 64
  forkReturnTrampoline : BitVec 64

structure Kernel where
  phys : Phys
  code : CodeAddrs
  kernelPml4 : Nat
  tasks : Slot → Option Task
  current : Slot
  nextId : Nat
  processes : Slot → Option Process
  threads : Slot → Option Thread
  nextPid : Nat
  openFiles : Nat → OpenFile
  pipes : Nat → Pipe
  fs : Option RamFS

namespace Kernel

/-- The statics' initial values, over the memory and the root table that the
boot code leaves. -/
def statics (phys : Phys) (code : CodeAddrs) (kernelPml4 : Nat) : Kernel where
  phys
  code
  kernelPml4
  tasks := fun _ => none
  current := 0
  nextId := 1
  processes := fun _ => none
  threads := fun _ => none
  nextPid := 1
  openFiles := fun _ => .empty
  pipes := fun _ => .empty
  fs := none

def currentThread (k : Kernel) : Option Thread := k.threads k.current

def currentProcess (k : Kernel) : Option Process :=
  k.currentThread.bind fun t => k.processes t.groupSlot

/-- The record of slot `s` replaced. -/
@[simps -fullyApplied] def setProcess (k : Kernel) (s : Slot) (p : Option Process) : Kernel :=
  { k with processes := Function.update k.processes s p }

@[simps -fullyApplied] def setThread (k : Kernel) (s : Slot) (t : Option Thread) : Kernel :=
  { k with threads := Function.update k.threads s t }

@[simps -fullyApplied] def setTask (k : Kernel) (s : Slot) (t : Option Task) : Kernel :=
  { k with tasks := Function.update k.tasks s t }

/-- `current_process_mut`: `f` applied to the current process, `none` when
there is none. -/
def modifyCurrent (k : Kernel) (f : Process → Process) : Option Kernel := do
  let t ← k.currentThread
  let p ← k.processes t.groupSlot
  some (k.setProcess t.groupSlot (some (f p)))

end Kernel

end CoreOS
