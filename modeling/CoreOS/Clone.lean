/-
`fork` and `clone` as system calls (`syscall/process.rs`): the address space of
the new task is copied or shared, and the flags of `clone` decide which. What
`clone` writes to user memory (the new thread's id, at the two pointers) is left
out, the checks of the pointers are not.
-/
import CoreOS.Task
import CoreOS.Paging
import CoreOS.SyscallBase

namespace CoreOS

open ByteMem

def cloneVm : Word := 0x100
def cloneFs : Word := 0x200
def cloneFiles : Word := 0x400
def cloneSighand : Word := 0x800
def clonePidfd : Word := 0x1000
def clonePtrace : Word := 0x2000
def cloneVfork : Word := 0x4000
def cloneParent : Word := 0x8000
def cloneThreadFlag : Word := 0x10000
def cloneNewns : Word := 0x20000
def cloneSysvsem : Word := 0x40000
def cloneSettls : Word := 0x80000
def cloneParentSettid : Word := 0x100000
def cloneChildCleartid : Word := 0x200000
def cloneDetached : Word := 0x400000
def cloneUntraced : Word := 0x800000
def cloneChildSettid : Word := 0x1000000
def cloneNewcgroup : Word := 0x2000000
def cloneNewuts : Word := 0x4000000
def cloneNewipc : Word := 0x8000000
def cloneNewuser : Word := 0x10000000
def cloneNewpid : Word := 0x20000000
def cloneNewnet : Word := 0x40000000
def cloneIo : Word := 0x80000000

def cloneSignalMask : Word := 0xff

def cloneThreadFlags : Word := cloneVm ||| cloneFs ||| cloneFiles ||| cloneSighand ||| cloneThreadFlag

def cloneSupportedMask : Word := cloneChildCleartid ||| cloneChildSettid ||| cloneSettls ||| cloneParentSettid

def cloneRefusedMask : Word :=
  cloneVfork ||| cloneParent ||| clonePidfd ||| clonePtrace ||| cloneNewns ||| cloneSysvsem ||| cloneDetached |||
    cloneUntraced ||| cloneNewcgroup ||| cloneNewuts ||| cloneNewipc ||| cloneNewuser ||| cloneNewpid |||
    cloneNewnet ||| cloneIo

/-- The checks `clone` makes of its flags. -/
def cloneRefused (flags : Word) : Option SysError :=
  let exitSignal := (flags &&& cloneSignalMask).toNat
  if flags &&& ~~~(cloneSignalMask ||| cloneSupportedMask ||| cloneThreadFlags) ≠ 0 then some .unsupported
  else if flags &&& cloneRefusedMask ≠ 0 then some .unsupported
  else if flags &&& cloneThreadFlag ≠ 0 then
    if flags &&& cloneThreadFlags ≠ cloneThreadFlags then some .invalid
    else if exitSignal ≠ 0 then some .unsupported
    else none
  else if exitSignal = 0 ∨ exitSignal = sigChld then none
  else some .unsupported

namespace Kernel

/-- Word `i` of the frame on the kernel stack of a task that has not run yet. -/
def taskFrameWord (t : Task) (i : Nat) : Nat := v2p (t.rsp + contextSize + 8 + i * 8)

/-- `task_frame_mut(slot).r10 = sp`. -/
def setChildStack (k : Kernel) (slot : Slot) (sp : Word) : Option Kernel :=
  (k.tasks slot).map fun t => k.setPhys { k.phys with mem := storeWord k.phys.mem (taskFrameWord t 14) sp }

/-- `THREADS[slot].clear_child_tid = ptr`. -/
def setClearChildTid (k : Kernel) (slot : Slot) (ptr : Nat) : Option Kernel :=
  (k.threads slot).map fun t => k.setThread slot (some { t with clearChildTid := ptr })

/-- `fs_base` of the current thread, `0` without one. -/
def currentFsBase (k : Kernel) : Nat := (k.currentThread.map Thread.fsBase).getD 0

end Kernel

/-- `syscall_set_tid_address_impl`. -/
def syscallSetTidAddress (k : Kernel) (tidptr : Nat) : Except SysError Nat × Kernel :=
  match k.currentThread with
  | none => (.error .invalid, k)
  | some t => (.ok t.tid, k.setThread k.current (some { t with clearChildTid := tidptr }))

/-- `syscall_fork_impl`; the outer `none` is a panic, here and below. -/
def syscallFork (k : Kernel) (framePtr : Nat) : Option (Except SysError Nat × Kernel) :=
  if framePtr = 0 then some (.error .invalid, k)
  else
    match k.phys.cloneUserAddressSpace k.kernelPml4 k.currentPml4 with
    | none => none
    | some (childPml4, phys) =>
      match forkTask (k.setPhys phys) framePtr childPml4 with
      | none => none
      | some (none, k) => some (.error .invalid, k)
      | some (some pid, k) => some (.ok pid, k)

/-- The thread or the process that `clone` makes, with its slot. -/
def cloneTask (k : Kernel) (flags childTidPtr : Word) (framePtr : Nat) :
    Option (Except SysError (Slot × Nat) × Kernel) :=
  if flags &&& cloneThreadFlag ≠ 0 then
    match k.spawnForkedTask framePtr k.currentPml4 with
    | none => some (.error .invalid, k)
    | some (slot, k) =>
      if flags &&& cloneSettls ≠ 0 ∧ framePtr = 0 then some (.error .invalid, k)
      else
        let tls := if flags &&& cloneSettls ≠ 0 then (loadWord k.phys.mem (v2p (framePtr + 6 * 8))).toNat
          else k.currentFsBase
        let clear := if flags &&& cloneChildCleartid ≠ 0 ∨ flags &&& cloneChildSettid ≠ 0 then childTidPtr.toNat else 0
        (k.spawnThreadInGroup slot clear tls).map fun (tid, k) => (.ok (slot, tid), k)
  else
    match k.phys.cloneUserAddressSpace k.kernelPml4 k.currentPml4 with
    | none => none
    | some (childPml4, phys) =>
      let k := k.setPhys phys
      match k.spawnForkedTask framePtr childPml4 with
      | none => some (.error .invalid, k)
      | some (slot, k) => (forkCurrent k slot).map fun (pid, k) => (.ok (slot, pid), k)

/-- What `cloneTask` can do. -/
inductive CloneOutcome (k : Kernel) (flags childTidPtr : Word) (framePtr : Nat) :
    Except SysError (Slot × Nat) → Kernel → Prop
  | noThread (hthread : flags &&& cloneThreadFlag ≠ 0) (hsp : k.spawnForkedTask framePtr k.currentPml4 = none) :
      CloneOutcome k flags childTidPtr framePtr (.error .invalid) k
  | noTls {slot : Slot} {k1 : Kernel} (hthread : flags &&& cloneThreadFlag ≠ 0)
      (hsp : k.spawnForkedTask framePtr k.currentPml4 = some (slot, k1)) (htls : flags &&& cloneSettls ≠ 0 ∧ framePtr = 0) :
      CloneOutcome k flags childTidPtr framePtr (.error .invalid) k1
  | thread {slot : Slot} {k1 k' : Kernel} {tid tls : Nat} (hthread : flags &&& cloneThreadFlag ≠ 0)
      (hsp : k.spawnForkedTask framePtr k.currentPml4 = some (slot, k1)) (htls : ¬ (flags &&& cloneSettls ≠ 0 ∧ framePtr = 0))
      (ht : k1.spawnThreadInGroup slot
        (if flags &&& cloneChildCleartid ≠ 0 ∨ flags &&& cloneChildSettid ≠ 0 then childTidPtr.toNat else 0) tls =
          some (tid, k')) : CloneOutcome k flags childTidPtr framePtr (.ok (slot, tid)) k'
  | noProcess {pml4 : Nat} {s : Phys} (hprocess : flags &&& cloneThreadFlag = 0)
      (hclone : k.phys.cloneUserAddressSpace k.kernelPml4 k.currentPml4 = some (pml4, s))
      (hsp : (k.setPhys s).spawnForkedTask framePtr pml4 = none) :
      CloneOutcome k flags childTidPtr framePtr (.error .invalid) (k.setPhys s)
  | process {pml4 : Nat} {s : Phys} {slot : Slot} {k1 k' : Kernel} {pid : Nat} (hprocess : flags &&& cloneThreadFlag = 0)
      (hclone : k.phys.cloneUserAddressSpace k.kernelPml4 k.currentPml4 = some (pml4, s))
      (hsp : (k.setPhys s).spawnForkedTask framePtr pml4 = some (slot, k1)) (hf : forkCurrent k1 slot = some (pid, k')) :
      CloneOutcome k flags childTidPtr framePtr (.ok (slot, pid)) k'

theorem cloneTask_cases {k k' : Kernel} {flags childTidPtr : Word} {framePtr : Nat} {r : Except SysError (Slot × Nat)}
    (h : cloneTask k flags childTidPtr framePtr = some (r, k')) : CloneOutcome k flags childTidPtr framePtr r k' := by
  unfold cloneTask at h
  split at h
  next hthread =>
    split at h
    next hsp =>
      cases h
      exact .noThread hthread hsp
    next slot k1 hsp =>
      split at h
      next htls =>
        cases h
        exact .noTls hthread hsp htls
      next htls =>
        obtain ⟨x, ht, he⟩ := Option.map_eq_some_iff.mp h
        cases he
        exact .thread hthread hsp htls ht
  next hthread =>
    have hprocess : flags &&& cloneThreadFlag = 0 := not_not.mp hthread
    split at h
    · cases h
    next pml4 s hclone =>
      dsimp only at h
      split at h
      next hsp =>
        cases h
        exact .noProcess hprocess hclone hsp
      next slot k1 hsp =>
        obtain ⟨x, hf, he⟩ := Option.map_eq_some_iff.mp h
        cases he
        exact .process hprocess hclone hsp hf

/-- `fork` is the part of `clone` that makes a process. -/
theorem syscallFork_eq {framePtr : Nat} (k : Kernel) (h : framePtr ≠ 0) :
    syscallFork k framePtr = (cloneTask k 0 0 framePtr).map fun x => (x.1.map Prod.snd, x.2) := by
  unfold syscallFork cloneTask forkTask
  rw [if_neg h, if_neg (by decide)]
  cases k.phys.cloneUserAddressSpace k.kernelPml4 k.currentPml4 with
  | none => rfl
  | some x =>
    dsimp only
    cases (k.setPhys x.2).spawnForkedTask framePtr x.1 with
    | none => rfl
    | some y =>
      dsimp only
      cases forkCurrent y.2 y.1 <;> rfl

/-- The rest of `syscall_clone_impl`, on the thread or process just made. -/
def cloneFinish (k : Kernel) (flags childStack parentTidPtr childTidPtr : Word) (slot : Slot) (childId : Nat) :
    Except SysError Nat × Kernel :=
  match if childStack = 0 then some k else k.setChildStack slot childStack with
  | none => (.error .invalid, k)
  | some k =>
    match if flags &&& cloneChildSettid = 0 then some k else k.setClearChildTid slot childTidPtr.toNat with
    | none => (.error .invalid, k)
    | some k =>
      if flags &&& cloneChildSettid ≠ 0 ∧ ¬ userRangeOk childTidPtr.toNat 4 then (.error .fault, k)
      else
        match if flags &&& cloneChildCleartid = 0 then some k else k.setClearChildTid slot childTidPtr.toNat with
        | none => (.error .invalid, k)
        | some k =>
          if parentTidPtr ≠ 0 ∧ ¬ userRangeOk parentTidPtr.toNat 4 then (.error .fault, k)
          else (.ok childId, k)

def syscallClone (k : Kernel) (flags childStack parentTidPtr childTidPtr : Word) (framePtr : Nat) :
    Option (Except SysError Nat × Kernel) :=
  match cloneRefused flags with
  | some e => some (.error e, k)
  | none =>
    match cloneTask k flags childTidPtr framePtr with
    | none => none
    | some (.error e, k) => some (.error e, k)
    | some (.ok (slot, childId), k) => some (cloneFinish k flags childStack parentTidPtr childTidPtr slot childId)

end CoreOS
