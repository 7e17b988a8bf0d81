/-
Futexes (`FutexWaiter`, `futex_wait`, `futex_wake` and what wakes at the end of
a thread, of `syscall/process.rs`).
-/
import CoreOS.State
import CoreOS.SyscallBase

namespace CoreOS

open ByteMem

/-- `MAX_FUTEX_WAITERS`. -/
def maxFutexWaiters : Nat := 16

structure FutexWaiter where
  inUse : Bool
  addr : Nat
  deriving DecidableEq

def FutexWaiter.empty : FutexWaiter := ⟨false, 0⟩

/-- `FUTEX_WAITERS`, of which the first `maxFutexWaiters` entries exist. -/
abbrev FutexTable := Nat → FutexWaiter

structure TimeSpec where
  tvSec : Int
  tvNsec : Int

/-- `copy_struct_from_user::<TimeSpec>`. -/
def copyTimeSpecFromUser (user : Mem) (ptr : Nat) : Option TimeSpec :=
  (copyFromUser user ptr 16).map fun bytes =>
    ⟨(BitVec.ofNat 64 (ofBytes (bytes.take 8))).toInt, (BitVec.ofNat 64 (ofBytes (bytes.drop 8))).toInt⟩

/-- `u64::MAX`. -/
def u64Max : Nat := 2 ^ 64 - 1

/-- The ticks of 10 ms that a timeout comes to, rounded up. -/
def TimeSpec.ticks (timeout : TimeSpec) : Nat :=
  let totalNs := min (min (timeout.tvSec.toNat * 1000000000) u64Max + timeout.tvNsec.toNat) u64Max
  divCeil totalNs 10000000

/-- The timeout of a wait, `none` for no limit. -/
def futexTimeout (user : Mem) (timeoutPtr : Nat) : Except SysError (Option Nat) :=
  if timeoutPtr = 0 then .ok none
  else
    match copyTimeSpecFromUser user timeoutPtr with
    | none => .error .fault
    | some timeout =>
      if 0 ≤ timeout.tvSec ∧ 0 ≤ timeout.tvNsec then .ok (some timeout.ticks)
      else .error .invalid

/-- The local variables of `futex_wait` in its loop. -/
structure FutexFrame where
  slot : Nat
  uaddr : Nat
  expected : BitVec 32
  timeoutTicks : Option Nat
  start : Nat

/-- `FUTEX_WAITERS.iter().position(|waiter| !waiter.in_use)`. -/
def freeWaiter (waiters : FutexTable) : Option Nat :=
  (List.range maxFutexWaiters).find? fun i => !(waiters i).inUse

/-- `futex_wait` up to its loop: the checks, then the registration. -/
def futexWaitStart (waiters : FutexTable) (user : Mem) (ticks uaddr : Nat) (expected : BitVec 32) (timeoutPtr : Nat) :
    Except SysError (FutexFrame × FutexTable) := do
  let current ← (copyU32FromUser user uaddr).elim (.error .fault) .ok
  if current ≠ expected then .error .again
  let timeoutTicks ← futexTimeout user timeoutPtr
  let slot ← (freeWaiter waiters).elim (.error .noMem) .ok
  .ok (⟨slot, uaddr, expected, timeoutTicks, ticks⟩, Function.update waiters slot ⟨true, uaddr⟩)

/-- Whether the limit of a wait is over. -/
def FutexFrame.timedOut (f : FutexFrame) (ticks : Nat) : Bool :=
  match f.timeoutTicks with
  | some limit => limit ≤ ticks - f.start
  | none => false

/-- One round of the loop of `futex_wait`, `none` when it ends in
`yield_now`. -/
def futexWaitRound (waiters : FutexTable) (user : Mem) (ticks : Nat) (f : FutexFrame) :
    Option (Except SysError Nat) × FutexTable :=
  if !(waiters f.slot).inUse then (some (.ok 0), waiters)
  else
    match copyU32FromUser user f.uaddr with
    | none => (some (.error .fault), waiters)
    | some current =>
      if current ≠ f.expected then (some (.error .again), Function.update waiters f.slot .empty)
      else if f.timedOut ticks then (some (.error .timedOut), Function.update waiters f.slot .empty)
      else (none, waiters)

/-- The loop of `futex_wake` over the entries `is`. A `count` of 0 is never
reached, so it wakes all. -/
def futexWakeLoop (uaddr count : Nat) : List Nat → Nat → FutexTable → Nat × FutexTable
  | [], woke, waiters => (woke, waiters)
  | i :: is, woke, waiters =>
    if !(waiters i).inUse || (waiters i).addr != uaddr then futexWakeLoop uaddr count is woke waiters
    else
      let waiters := Function.update waiters i { waiters i with inUse := false }
      if woke + 1 = count then (woke + 1, waiters)
      else futexWakeLoop uaddr count is (woke + 1) waiters

/-- `futex_wake`. -/
def futexWake (waiters : FutexTable) (uaddr count : Nat) : Nat × FutexTable :=
  futexWakeLoop uaddr count (List.range maxFutexWaiters) 0 waiters

/-- `FUTEX_WAKE` of `syscall_futex`. -/
def syscallFutexWake (waiters : FutexTable) (uaddr count : Nat) : Except SysError Nat × FutexTable :=
  if userRangeOk uaddr 4 then
    let (woke, waiters) := futexWake waiters uaddr count
    (.ok woke, waiters)
  else (.error .fault, waiters)

/-! ## The end of a thread

What follows reads and writes user memory on its way, so both the table and
the memory are passed along. -/

def futexOwnerDied : BitVec 32 := 0x40000000
def futexTidMask : BitVec 32 := 0x3fffffff

/-- `ROBUST_LIST_LIMIT`. -/
def robustListLimit : Nat := 64

/-- `copy_struct_to_user` of a `u32`, its result ignored. -/
def putU32ToUser (user : Mem) (ptr : Nat) (value : BitVec 32) : Mem :=
  (copyToUser user ptr (toBytes 4 value.toNat)).getD user

def wakeRobustFutex (waiters : FutexTable) (user : Mem) (uaddr : Nat) (tid : BitVec 32) : FutexTable × Mem :=
  match copyU32FromUser user uaddr with
  | none => (waiters, user)
  | some word =>
    if word &&& futexTidMask ≠ tid then (waiters, user)
    else ((futexWake waiters uaddr 1).2, putU32ToUser user uaddr ((word &&& ~~~futexTidMask) ||| futexOwnerDied))

structure RobustListHead where
  next : Nat
  futexOffset : Int
  listOpPending : Nat

/-- `size_of::<RobustListHead>()`. -/
def robustListHeadSize : Nat := 24

def copyRobustListHeadFromUser (user : Mem) (ptr : Nat) : Option RobustListHead :=
  (copyFromUser user ptr robustListHeadSize).map fun bytes =>
    ⟨ofBytes (bytes.take 8), toI64 (ofBytes ((bytes.drop 8).take 8)), ofBytes (bytes.drop 16)⟩

/-- `copy_struct_from_user::<RobustList>`. -/
def copyRobustListFromUser (user : Mem) (ptr : Nat) : Option Nat := (copyFromUser user ptr 8).map ofBytes

/-- Where the futex of a node is. -/
def RobustListHead.futexAddr (head : RobustListHead) (nodePtr : Nat) : Nat :=
  if 0 ≤ head.futexOffset then saturatingAdd nodePtr head.futexOffset.toNat
  else nodePtr - (-head.futexOffset).toNat

/-- The loop of `release_robust_list`, with the number of nodes it may still
see. -/
def robustListLoop (head : RobustListHead) (headPtr : Nat) (tid : BitVec 32) :
    Nat → Nat → FutexTable → Mem → FutexTable × Mem
  | 0, _, waiters, user => (waiters, user)
  | left + 1, nodePtr, waiters, user =>
    if nodePtr = 0 ∨ nodePtr = headPtr then (waiters, user)
    else
      let (waiters, user) := wakeRobustFutex waiters user (head.futexAddr nodePtr) tid
      match copyRobustListFromUser user nodePtr with
      | none => (waiters, user)
      | some next => robustListLoop head headPtr tid left next waiters user

/-- `release_robust_list` of the current thread. -/
def releaseRobustList (thread : Option Thread) (waiters : FutexTable) (user : Mem) : FutexTable × Mem :=
  match thread with
  | none => (waiters, user)
  | some thread =>
    if thread.robustListHead = 0 ∨ thread.robustListLen ≠ robustListHeadSize then (waiters, user)
    else
      let tid := BitVec.ofNat 32 thread.tid
      match copyRobustListHeadFromUser user thread.robustListHead with
      | none => (waiters, user)
      | some head =>
        let (waiters, user) := robustListLoop head thread.robustListHead tid robustListLimit head.next waiters user
        if head.listOpPending ≠ 0 then wakeRobustFutex waiters user (head.futexAddr head.listOpPending) tid
        else (waiters, user)

/-- `clear_child_tid_and_wake` of the current thread. -/
def clearChildTidAndWake (thread : Option Thread) (waiters : FutexTable) (user : Mem) : FutexTable × Mem :=
  let (waiters, user) := releaseRobustList thread waiters user
  match thread with
  | none => (waiters, user)
  | some thread =>
    if thread.clearChildTid = 0 then (waiters, user)
    else ((futexWake waiters thread.clearChildTid 1).2, putU32ToUser user thread.clearChildTid 0)

end CoreOS
