/-
Signals (the signal part of `syscall/process.rs`). A signal is pending at a
process or at a thread; it is looked for at the end of a system call of the
thread that acts on it, and acted on by a handler in user space, by ending the
process, or not at all. A handler starts with the interrupted frame saved on
the user stack, from where `rt_sigreturn` takes it back.
-/
import CoreOS.Task
import CoreOS.SyscallBase

namespace CoreOS

open ByteMem

def saRestorer : BitVec 64 := 0x04000000

def saOnstack : BitVec 64 := 0x08000000

def sigBlock : Nat := 0
def sigUnblock : Nat := 1
def sigSetmask : Nat := 2

def sigKill : Nat := 9

def ssDisable : BitVec 32 := 2

/-- `size_of::<SigSet>()`. -/
def sigsetSize : Nat := 16 * 8

/-! ## Signal sets -/

/-- `sig_bit`: the word of a signal and its bit there. -/
def sigBit (sig : Nat) : Nat × BitVec 64 := ((sig - 1) / 64, 1#64 <<< ((sig - 1) % 64))

def sigsetContains (set : SigSet) (sig : Nat) : Bool := set.bits (sigBit sig).1 &&& (sigBit sig).2 != 0

def sigsetRemove (set : SigSet) (sig : Nat) : SigSet :=
  ⟨Function.update set.bits (sigBit sig).1 (set.bits (sigBit sig).1 &&& ~~~(sigBit sig).2)⟩

def sanitizeSigmask (set : SigSet) : SigSet := sigsetRemove set sigKill

/-- `dst |= src`, word by word. -/
def SigSet.union (dst src : SigSet) : SigSet := ⟨fun i => dst.bits i ||| src.bits i⟩

/-- `dst &= !src`, word by word. -/
def SigSet.diff (dst src : SigSet) : SigSet := ⟨fun i => dst.bits i &&& ~~~src.bits i⟩

/-! ## Sending -/

def queueThreadSignal (k : Kernel) (slot : Slot) (sig : Nat) : Kernel :=
  match k.threads slot with
  | some t => k.setThread slot (some { t with sigPending := sigsetAdd t.sigPending sig })
  | none => k

def signalDefaultIgnored (sig : Nat) : Bool := sig = sigChld

/-- One round of the loop of `terminate_process_group` over the thread table. -/
def terminateThread (groupSlot : Slot) (k : Kernel) (slot : Slot) : Kernel :=
  match k.threads slot with
  | none => k
  | some t =>
    if t.groupSlot ≠ groupSlot then k
    else (k.setThread slot (some { t with state := .zombie })).killTask slot

def terminateProcessGroup (k : Kernel) (groupSlot : Slot) (sig : Nat) : Kernel :=
  let parentPid := ((k.processes groupSlot).map Process.parentPid).getD 0
  let k :=
    match k.processes groupSlot with
    | some p => k.setProcess groupSlot (some { p with state := .zombie, exitCode := 128 + sig, threadCount := 0 })
    | none => k
  notifyParentExit ((List.finRange maxTasks).foldl (terminateThread groupSlot) k) parentPid

def syscallKill (k : Kernel) (pid sig : Nat) : Except SysError Word × Kernel :=
  match k.findSlotByPid pid with
  | none => (.error .noEntry, k)
  | some slot =>
    if sig = 0 then (.ok 0, k)
    else if ¬ sig < 65 then (.error .invalid, k)
    else if sig = sigKill then (.ok 0, terminateProcessGroup k slot sigKill)
    else (.ok 0, queueSignal k slot sig)

def syscallTkill (k : Kernel) (tid sig : Nat) : Except SysError Word × Kernel :=
  if tid = 0 then (.error .invalid, k)
  else if ¬ sig < 65 then (.error .invalid, k)
  else
    match k.findThreadSlotByTid tid with
    | none => (.error .noEntry, k)
    | some slot =>
      if sig = 0 then (.ok 0, k)
      else if sig = sigKill then
        match k.threads slot with
        | none => (.error .noEntry, k)
        | some t => (.ok 0, terminateProcessGroup k t.groupSlot sigKill)
      else (.ok 0, queueThreadSignal k slot sig)

def syscallTgkill (k : Kernel) (tgid tid sig : Nat) : Except SysError Word × Kernel :=
  if ¬ (tgid ≠ 0 ∧ tid ≠ 0) then (.error .invalid, k)
  else
    match (k.findThreadSlotByTid tid).bind k.threads with
    | none => (.error .noEntry, k)
    | some t =>
      match k.processes t.groupSlot with
      | none => (.error .noEntry, k)
      | some p => if p.pid ≠ tgid then (.error .noEntry, k) else syscallTkill k tid sig

/-! ## Frames and structs in user memory -/

/-- The user registers a system call saves: the instruction pointer is in
`rcx`, the flags in `r11` and the stack pointer in `r10`. -/
structure SyscallFrame where
  rbp : Word
  r15 : Word
  r14 : Word
  r13 : Word
  r12 : Word
  r9 : Word
  r8 : Word
  rsi : Word
  rdi : Word
  rdx : Word
  rbx : Word
  rax : Word
  rcx : Word
  r11 : Word
  r10 : Word
  deriving DecidableEq

namespace SyscallFrame

def zero : SyscallFrame := ⟨0, 0, 0, 0, 0, 0, 0, 0, 0, 0, 0, 0, 0, 0, 0⟩

def words (f : SyscallFrame) : List Word :=
  [f.rbp, f.r15, f.r14, f.r13, f.r12, f.r9, f.r8, f.rsi, f.rdi, f.rdx, f.rbx, f.rax, f.rcx, f.r11, f.r10]

def ofWords : List Word → SyscallFrame
  | [rbp, r15, r14, r13, r12, r9, r8, rsi, rdi, rdx, rbx, rax, rcx, r11, r10] =>
    { rbp, r15, r14, r13, r12, r9, r8, rsi, rdi, rdx, rbx, rax, rcx, r11, r10 }
  | _ => zero

/-- `size_of::<SyscallFrame>()` in words. -/
def wordCount : Nat := 15

end SyscallFrame

def SigSet.ofWords (ws : List Word) : SigSet := ⟨fun i => ws.getD i 0⟩

def SigSet.words (set : SigSet) : List Word := (List.range 16).map set.bits

def SigAction.words (a : SigAction) : List Word :=
  BitVec.ofNat 64 a.handler :: a.flags :: BitVec.ofNat 64 a.restorer :: a.mask.words

def SigAction.ofWords (ws : List Word) : SigAction where
  handler := (ws.getD 0 0).toNat
  flags := ws.getD 1 0
  restorer := (ws.getD 2 0).toNat
  mask := SigSet.ofWords (ws.drop 3)

/-! ## Delivery -/

/-- The lowest signal that is pending and not masked, and whether it is
pending at the thread. -/
def chooseSignal (p : Process) (t : Thread) : Option (Nat × Bool) :=
  (List.range' 1 64).findSome? fun sig =>
    if sigsetContains t.sigPending sig && !sigsetContains t.sigMask sig then some (sig, true)
    else if sigsetContains p.sigPending sig && !sigsetContains t.sigMask sig then some (sig, false)
    else none

/-- The pending bit of the chosen signal is cleared. -/
def takeSignal (k : Kernel) (p : Process) (t : Thread) (sig : Nat) (threadDirected : Bool) : Kernel :=
  if threadDirected then k.setThread k.current (some { t with sigPending := sigsetRemove t.sigPending sig })
  else k.setProcess t.groupSlot (some { p with sigPending := sigsetRemove p.sigPending sig })

/-- A thread at the end of a system call: what the kernel holds, its saved
registers and its memory. -/
structure UserContext where
  kernel : Kernel
  frame : SyscallFrame
  user : Mem

/-- The current thread replaced. -/
def UserContext.setThread (c : UserContext) (t : Thread) : UserContext :=
  { c with kernel := c.kernel.setThread c.kernel.current (some t) }

def UserContext.setRax (c : UserContext) (rax : Word) : UserContext := { c with frame := { c.frame with rax } }

/-- The stack pointer a handler's frame goes below, and whether it is that of
the alternate stack. -/
def handlerStack (t : Thread) (action : SigAction) (frame : SyscallFrame) : Except SysError (Nat × Bool) :=
  if action.flags &&& saOnstack ≠ 0 ∧ t.sigAltstack.ssFlags &&& ssDisable = 0 then
    if t.sigAltstack.ssSp + t.sigAltstack.ssSize < usizeMod then
      .ok (t.sigAltstack.ssSp + t.sigAltstack.ssSize, true)
    else .error .range
  else .ok (frame.r10.toNat, false)

/-- The mask while the handler of `sig` runs. -/
def handlerMask (t : Thread) (action : SigAction) (sig : Nat) : SigSet :=
  sanitizeSigmask ((sigsetAdd t.sigMask sig).union action.mask)

/-- The rest of `deliver_pending_signal` for a signal with a handler: `t` is the
current thread, the signal taken. -/
def startHandler (c : UserContext) (t : Thread) (action : SigAction) (sig : Nat) : Except SysError Unit × UserContext :=
  if action.restorer = 0 then (.error .invalid, c)
  else
    match handlerStack t action c.frame with
    | .error e => (.error e, c)
    | .ok (userRsp, onAltstack) =>
      let t := { t with onAltstack }
      let c := c.setThread t
      if userRsp < 8 + 8 * SyscallFrame.wordCount then (.error .fault, c)
      else
        let restorerPtr := userRsp - (8 + 8 * SyscallFrame.wordCount)
        if ¬ userRangeOk restorerPtr (8 + 8 * SyscallFrame.wordCount) then (.error .fault, c)
        else
          match copyWordsToUser c.user restorerPtr [BitVec.ofNat 64 action.restorer] with
          | none => (.error .fault, c)
          | some user =>
            let c := { c with user }
            match copyWordsToUser c.user (restorerPtr + 8) c.frame.words with
            | none => (.error .fault, c)
            | some user =>
              let t := { t with
                savedSigMask := t.sigMask
                sigMask := handlerMask t action sig
                inSignalHandler := true }
              (.ok (), { c.setThread t with
                frame := { c.frame with
                  rdi := BitVec.ofNat 64 sig
                  rcx := BitVec.ofNat 64 action.handler
                  r10 := BitVec.ofNat 64 restorerPtr }
                user })

/-- What `deliver_pending_signal` came to: nothing to do, no thread or process
to do it for, or a signal, pending at the thread or at the process, that was
taken and then acted on or not. -/
inductive Delivery
  | nothing
  | noThread
  | ignored (sig : Nat) (threadDirected : Bool)
  | terminated (sig : Nat) (threadDirected : Bool)
  | handled (sig : Nat) (threadDirected : Bool)
  | failed (sig : Nat) (threadDirected : Bool) (e : SysError)
  deriving DecidableEq

/-- The result `deliver_pending_signal` returns. -/
def Delivery.result : Delivery → Except SysError Word
  | noThread => .error .invalid
  | failed _ _ e => .error e
  | _ => .ok 0

def deliverPendingSignal (c : UserContext) : Delivery × UserContext :=
  match c.kernel.currentThread, c.kernel.currentProcess with
  | some t, some p =>
    if t.inSignalHandler then (.nothing, c)
    else
      match chooseSignal p t with
      | none => (.nothing, c)
      | some (sig, threadDirected) =>
        let c := { c with kernel := takeSignal c.kernel p t sig threadDirected }
        let action := p.sigHandlers sig
        if action.handler = 0 then
          if signalDefaultIgnored sig then (.ignored sig threadDirected, c)
          else (.terminated sig threadDirected, { c with kernel := terminateProcessGroup c.kernel t.groupSlot sig })
        else
          let t := if threadDirected then { t with sigPending := sigsetRemove t.sigPending sig } else t
          match startHandler c t action sig with
          | (.ok (), c) => (.handled sig threadDirected, c)
          | (.error e, c) => (.failed sig threadDirected e, c)
  | _, _ => (.noThread, c)

/-- `finish_syscall`: the result goes to `rax`, and except after `rt_sigreturn`
a signal is delivered. The value left in `rax` is what the caller gets. -/
def finishSyscall (c : UserContext) (isSigreturn : Bool) (ret : Word) : UserContext :=
  let c := c.setRax ret
  if isSigreturn then c else (deliverPendingSignal c).2

/-! ## The calls of a thread on its own signals -/

/-- A struct goes to user memory unless its pointer is null. -/
def UserContext.putWords (c : UserContext) (ptr : Nat) (ws : List Word) : Option UserContext :=
  if ptr = 0 then some c else (copyWordsToUser c.user ptr ws).map fun user => { c with user }

def rtSigaction (c : UserContext) (sig act oldact size : Nat) : Except SysError Word × UserContext :=
  if ¬ (0 < sig ∧ sig < 65) then (.error .invalid, c)
  else if size ≠ sigsetSize then (.error .invalid, c)
  else
    match c.kernel.currentThread, c.kernel.currentProcess with
    | some t, some p =>
      match c.putWords oldact (p.sigHandlers sig).words with
      | none => (.error .fault, c)
      | some c =>
        if act = 0 then (.ok 0, c)
        else
          match copyWordsFromUser c.user act 19 with
          | none => (.error .fault, c)
          | some ws =>
            let new := SigAction.ofWords ws
            if new.flags &&& ~~~(saRestorer ||| saOnstack) ≠ 0 then (.error .unsupported, c)
            else if new.handler ≠ 0 ∧ (new.flags &&& saRestorer = 0 ∨ new.restorer = 0) then (.error .invalid, c)
            else
              let p := { p with sigHandlers := Function.update p.sigHandlers sig new }
              (.ok 0, { c with kernel := c.kernel.setProcess t.groupSlot (some p) })
    | _, _ => (.error .invalid, c)

/-- How `rt_sigprocmask` combines the mask with the new set. -/
def combineMask (how : Nat) (mask new : SigSet) : SigSet :=
  if how = sigBlock then mask.union new else if how = sigUnblock then mask.diff new else new

def rtSigprocmask (c : UserContext) (how set oldset size : Nat) : Except SysError Word × UserContext :=
  if size ≠ sigsetSize then (.error .invalid, c)
  else if ¬ (how = sigBlock ∨ how = sigUnblock ∨ how = sigSetmask) then (.error .invalid, c)
  else
    match c.kernel.currentThread with
    | none => (.error .invalid, c)
    | some t =>
      match c.putWords oldset t.sigMask.words with
      | none => (.error .fault, c)
      | some c =>
        if set = 0 then (.ok 0, c)
        else
          match copyWordsFromUser c.user set 16 with
          | none => (.error .fault, c)
          | some ws =>
            let new := sanitizeSigmask (SigSet.ofWords ws)
            (.ok 0, c.setThread { t with sigMask := sanitizeSigmask (combineMask how t.sigMask new) })

/-- `rt_sigreturn`: the frame saved at the user stack pointer is taken back,
whole, before the thread is looked up. -/
def rtSigreturn (c : UserContext) : Except SysError Word × UserContext :=
  match copyWordsFromUser c.user c.frame.r10.toNat SyscallFrame.wordCount with
  | none => (.error .fault, c)
  | some ws =>
    let c := { c with frame := .ofWords ws }
    match c.kernel.currentThread with
    | none => (.error .invalid, c)
    | some t =>
      (.ok c.frame.rax,
        c.setThread { t with sigMask := t.savedSigMask, inSignalHandler := false, onAltstack := false })

end CoreOS
