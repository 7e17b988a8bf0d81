/-
Tasks and their life (`proc/task.rs`, `proc/process.rs`, and the parts of
`syscall/process.rs` that create, end and switch tasks).
-/
import CoreOS.Fd

namespace CoreOS

open ByteMem

def stackPages : Nat := 4

/-- `size_of::<Context>()`: six registers. -/
def contextSize : Nat := 6 * 8

def syscallFrameSize : Nat := 16 * 8

/-! ## Kernel stacks -/

/-- Words pushed below `sp`, the first one highest. -/
def pushWords (mem : Mem) (sp : Nat) : List Word → Mem × Nat
  | [] => (mem, sp)
  | w :: ws => pushWords (storeWord mem (v2p (sp - 8)) w) (sp - 8) ws

/-- The zeroed `Context` a switch pops. -/
def contextWords : List Word := List.replicate 6 0

namespace Kernel

def setPhys (k : Kernel) (phys : Phys) : Kernel := { k with phys }

/-- `tasks.iter_mut().position(|t| t.is_none())`. -/
def freeTaskSlot (k : Kernel) : Option Slot := (List.finRange maxTasks).find? fun s => (k.tasks s).isNone

/-- What `add_task`, `spawn_user_task` and `spawn_forked_task` share: a free
slot, a kernel stack laid out by `layout` from its top down, and a ready task.
`none` leaves everything as it was. -/
def spawnTask (k : Kernel) (pml4 : Nat) (layout : Mem → Nat → Mem × Nat) : Option (Slot × Kernel) :=
  match k.freeTaskSlot with
  | none => none
  | some slot =>
    let (stackPhys, phys) := k.phys.allocFrames stackPages
    if stackPhys = 0 then none
    else
      let stackBase := p2v stackPhys
      let (mem, sp) := layout phys.mem (stackBase + stackPages * pageSize)
      some (slot,
        { k with
          phys := { phys with mem }
          nextId := wrappingAdd k.nextId 1
          tasks := Function.update k.tasks slot (some
            { rsp := sp, stackBase, state := .ready, id := k.nextId, rspValid := true, pml4 }) })

/-- A kernel task that starts at `entry`. -/
def addTask (k : Kernel) (entry : Word) : Option (Slot × Kernel) :=
  k.spawnTask k.kernelPml4 fun mem top => pushWords mem top (entry :: contextWords)

/-- A task that drops to user mode at `entry`. -/
def spawnUserTask (k : Kernel) (entry stackTop : Word) (pml4 : Nat) : Option (Slot × Kernel) :=
  k.spawnTask pml4 fun mem top =>
    pushWords mem top (BitVec.ofNat 64 pml4 :: stackTop :: entry :: k.code.userTaskTrampoline :: contextWords)

/-- A task that returns from the system call whose saved frame is at
`syscallFrame`, with 0 in the result register. -/
def spawnForkedTask (k : Kernel) (syscallFrame pml4 : Nat) : Option (Slot × Kernel) :=
  k.spawnTask pml4 fun mem top =>
    let frameStart := top - syscallFrameSize
    let mem := copy mem (v2p frameStart) (v2p syscallFrame) syscallFrameSize
    let mem := storeWord mem (v2p (frameStart + 88)) 0
    pushWords mem frameStart (k.code.forkReturnTrampoline :: contextWords)

def currentPml4 (k : Kernel) : Nat :=
  match k.tasks k.current with
  | some t => t.pml4
  | none => k.kernelPml4

def initMainTask (k : Kernel) (stackBase : Nat) : Kernel :=
  { k with
    tasks := Function.update k.tasks 0 (some
      { rsp := 0, stackBase, state := .running, id := 0, rspValid := true, pml4 := k.kernelPml4 })
    current := 0 }

def killTask (k : Kernel) (slot : Slot) : Kernel :=
  match k.tasks slot with
  | some t => k.setTask slot (some { t with state := .dead })
  | none => k

/-! ## Processes and threads -/

/-- `current_pid`, `0` without a current process. -/
def currentPid (k : Kernel) : Nat := (k.currentProcess.map Process.pid).getD 0

def currentPpid (k : Kernel) : Nat := (k.currentProcess.map Process.parentPid).getD 0

/-- `spawn_named`: a new thread-group leader in the given slot. -/
def spawnNamed (k : Kernel) (taskSlot : Slot) (name : List Char) : Nat × Kernel :=
  let pid := k.nextPid
  let parentPid := k.currentPid
  let k := k.bumpPid.setProcess taskSlot (some (.newLeader pid parentPid name))
  (pid, k.setThread taskSlot (some (.newLeader pid parentPid taskSlot taskSlot)))

/-- `spawn_thread_in_group`; it panics without a current process. -/
def spawnThreadInGroup (k : Kernel) (taskSlot : Slot) (clearChildTid fsBase : Nat) : Option (Nat × Kernel) := do
  let tid := k.nextPid
  let k := k.bumpPid
  let current ← k.currentThread
  let process ← k.processes current.groupSlot
  let k := k.setProcess current.groupSlot (some { process with threadCount := process.threadCount + 1 })
  some (tid, k.setThread taskSlot (some (.newGroupMember tid current.tid current.groupSlot taskSlot
    clearChildTid fsBase current.sigMask)))

/-- One round of the loop of `exit_thread` over the thread table: a thread of
the group is a zombie, and its task is killed unless it is the caller's. -/
def exitGroupThread (groupSlot taskSlot : Slot) (k : Kernel) (slot : Slot) : Kernel :=
  match k.threads slot with
  | none => k
  | some t =>
    if t.groupSlot ≠ groupSlot then k
    else
      let k := k.setThread slot (some { t with state := .zombie })
      if slot ≠ taskSlot then k.killTask slot else k

/-- `exit_thread`: whether the process became a zombie. -/
def exitThread (k : Kernel) (code : Int) (wholeGroup : Bool) : Bool × Kernel :=
  match k.currentThread with
  | none => (false, k)
  | some thread =>
    let k := k.setThread k.current (some { thread with state := .zombie })
    match k.processes thread.groupSlot with
    | none => (false, k)
    | some process =>
      if wholeGroup then
        let k := k.setProcess thread.groupSlot
          (some { process with state := .zombie, exitCode := code, threadCount := 0 })
        (true, (List.finRange maxTasks).foldl (exitGroupThread thread.groupSlot thread.taskSlot) k)
      else if process.threadCount - 1 = 0 then
        (true, k.setProcess thread.groupSlot
          (some { process with threadCount := 0, state := .zombie, exitCode := code }))
      else
        (false, k.setProcess thread.groupSlot (some { process with threadCount := process.threadCount - 1 }))

/-- `task_slot_reaped`: the record of a thread that does not lead its group
goes with its task. -/
def taskSlotReaped (k : Kernel) (slot : Slot) : Kernel :=
  match k.threads slot with
  | some t => if t.groupSlot ≠ slot then k.setThread slot none else k
  | none => k

def isRunningInSlot (k : Kernel) (slot : Slot) : Bool :=
  match k.processes slot with
  | some p => p.state = .running
  | none => false

def findSlotByPid (k : Kernel) (pid : Nat) : Option Slot :=
  (List.finRange maxTasks).find? fun s => (k.processes s).any fun p => p.pid == pid

def findThreadSlotByTid (k : Kernel) (tid : Nat) : Option Slot :=
  (List.finRange maxTasks).find? fun s => (k.threads s).any fun t => t.tid == tid

/-! ## Switching -/

/-- What `next_task_switch` hands to the assembly: the slot whose `rsp` field
receives the old stack pointer (`none` for a dead task's), and what the new
task continues with. -/
structure SwitchTo where
  saveRsp : Option Slot
  stackTop : Nat
  rsp : Nat
  pml4 : Nat
  fsBase : Nat

def schedulable (k : Kernel) (s : Slot) : Bool := (k.tasks s).any fun t => t.state == .ready && t.rspValid

/-- The slots after `cur`, in the order the round robin looks at them; `cur`
itself comes last. -/
def roundRobin (cur : Slot) : List Slot :=
  (List.range' 1 maxTasks).map fun i => ⟨(cur.val + i) % maxTasks, Nat.mod_lt _ (by decide)⟩

/-- The current task gives way: a running one is ready again, a dead one
leaves its slot. -/
def leaveTask (k : Kernel) : Option Slot × Kernel :=
  match k.tasks k.current with
  | none => (none, k)
  | some t =>
    if t.state = .dead then (none, (k.taskSlotReaped k.current).setTask k.current none)
    else
      let state := if t.state = .running then .ready else t.state
      (some k.current, k.setTask k.current (some { t with state, rspValid := true }))

/-- `next_task_switch`, `none` when no other task is ready. -/
def nextTaskSwitch (k : Kernel) : Option (SwitchTo × Kernel) := do
  let nextIdx ← (roundRobin k.current).find? k.schedulable
  let (saveRsp, k) := k.leaveTask
  let next ← k.tasks nextIdx
  let k := { k.setTask nextIdx (some { next with state := .running }) with current := nextIdx }
  some (
    { saveRsp
      stackTop := next.stackBase + 4 * pageSize
      rsp := next.rsp
      pml4 := next.pml4
      fsBase := ((k.threads nextIdx).map Thread.fsBase).getD 0 }, k)

end Kernel

/-! ## Signals to a process -/

def sigChld : Nat := 17

def sigsetAdd (set : SigSet) (sig : Nat) : SigSet :=
  ⟨Function.update set.bits ((sig - 1) / 64) (set.bits ((sig - 1) / 64) ||| (1#64 <<< ((sig - 1) % 64)))⟩

def queueSignal (k : Kernel) (slot : Slot) (sig : Nat) : Kernel :=
  match k.processes slot with
  | some p => k.setProcess slot (some { p with sigPending := sigsetAdd p.sigPending sig })
  | none => k

def notifyParentExit (k : Kernel) (parentPid : Nat) : Kernel :=
  if parentPid = 0 then k
  else
    match k.findSlotByPid parentPid with
    | some slot => queueSignal k slot sigChld
    | none => k

/-! ## System calls

The address space of a new task is made before these run; they are given its
root table. What `exit` does to user memory (the robust list and
`clear_child_tid`) is left out. -/

/-- The rest of `syscall_fork_impl`, and of `syscall_clone_impl` without
`CLONE_THREAD`, once the address space is copied. The outer `none` is the
panic of `fork_current`, the inner one the error return. -/
def forkTask (k : Kernel) (syscallFrame childPml4 : Nat) : Option (Option Nat × Kernel) :=
  match k.spawnForkedTask syscallFrame childPml4 with
  | none => some (none, k)
  | some (slot, k) => (forkCurrent k slot).map fun (pid, k) => (some pid, k)

/-- `syscall_clone_impl` with `CLONE_THREAD`: a task in the caller's address
space and thread group. -/
def cloneThread (k : Kernel) (syscallFrame clearChildTid tls : Nat) : Option (Option Nat × Kernel) :=
  match k.spawnForkedTask syscallFrame k.currentPml4 with
  | none => some (none, k)
  | some (slot, k) => (k.spawnThreadInGroup slot clearChildTid tls).map fun (tid, k) => (some tid, k)

/-- The rest of `exec_as_task` once the image is loaded and the initial stack
is built. -/
def execTask (k : Kernel) (entry stackTop : Word) (pml4 : Nat) (name : List Char) : Option Nat × Kernel :=
  match k.spawnUserTask entry stackTop pml4 with
  | none => (none, k)
  | some (slot, k) =>
    let (pid, k) := k.spawnNamed slot name
    (some pid, k)

def syscallExit (k : Kernel) (code : Int) : Kernel :=
  let parentPid := k.currentPpid
  let (groupDead, k) := k.exitThread code false
  let k := if groupDead then notifyParentExit k parentPid else k
  k.killTask k.current

def syscallExitGroup (k : Kernel) (code : Int) : Kernel :=
  let parentPid := k.currentPpid
  let k := notifyParentExit (k.exitThread code true).2 parentPid
  k.killTask k.current

/-- `default_exception`: the faulting thread exits with the vector as its code,
and its parent gets no notice. -/
def defaultException (k : Kernel) (vector : Nat) : Kernel :=
  let k := (k.exitThread vector false).2
  k.killTask k.current

end CoreOS
