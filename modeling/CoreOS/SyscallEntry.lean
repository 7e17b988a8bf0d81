/-
The way into a system call and back (`syscall_entry` in `syscall/mod.rs`). The
user's registers are pushed on the kernel stack, with the stack pointer in the
place of `r10`; the handler runs; and the registers are popped, `rax` replaced by
the result.
-/
import CoreOS.Lib.Straight
import CoreOS.Signal

namespace CoreOS

open ByteMem Straight

/-- What the code below names apart from the general registers and the stack. -/
inductive CpuVar
  | syscallArg4 | tssRsp0 | inSyscall | rip | rflags | cr3 | fsBase
  deriving DecidableEq

abbrev CpuState := Straight.State CpuVar

/-- The kernel reaches its stacks through the direct map. -/
def cpuLayout (addr : CpuVar → Word) : Straight.Layout CpuVar := ⟨v2p, addr⟩

variable {addr : CpuVar → Word}

@[simp] theorem cpuLayout_place : (cpuLayout addr).place = v2p := rfl

/-! ## The code -/

/-- `SFMASK`: the interrupt flag. -/
def sfmask : Word := 1 <<< 9

/-- The `syscall` instruction, with `LSTAR` in `lstar`. -/
def syscallInstruction (lstar : Word) (s : CpuState) : CpuState :=
  (((s.set .rcx (s.vars .rip)).set .r11 (s.vars .rflags)).setVar .rflags (s.vars .rflags &&& ~~~sfmask)).setVar .rip lstar

/-- `sysretq` clears the flags that a return to user mode may not set. -/
def sysretFlags (r11 : Word) : Word := r11 &&& 0x3C7FD7 ||| 2

def sysretq (s : CpuState) : CpuState := (s.setVar .rip (s.regs .rcx)).setVar .rflags (sysretFlags (s.regs .r11))

/-- The first push is padding. -/
def entryPushes : List Reg :=
  [.r10, .r10, .r11, .rcx, .rax, .rbx, .rdx, .rdi, .rsi, .r8, .r9, .r12, .r13, .r14, .r15, .rbp]

def framePops : List Reg := [.rbp, .r15, .r14, .r13, .r12, .r9, .r8, .rsi, .rdi, .rdx, .rbx, .rax, .rcx, .r11, .r10]

def toKernelStack : List (Instr CpuVar) :=
  [.storeVar .syscallArg4 .r10, .mov .r10 .rsp, .lea .rsp .tssRsp0, .loadVar .rsp .tssRsp0]

/-- The arguments of `syscall_dispatch`. -/
def dispatchArguments : List (Instr CpuVar) :=
  [.lea .rax .inSyscall, .setVar .inSyscall 1, .load .rdi .rsp (8 * 11), .load .rsi .rsp (8 * 8),
    .load .rdx .rsp (8 * 7), .load .rcx .rsp (8 * 9), .loadVar .r8 .syscallArg4, .mov .r9 .rsp]

/-- `syscall_entry` up to the call of `syscall_dispatch`. -/
def entrySequence : List (Instr CpuVar) := toKernelStack ++ entryPushes.map .push ++ dispatchArguments

def toUserStack : List (Instr CpuVar) := [.add .rsp 8, .mov .rsp .r10]

/-- `syscall_entry` from the return of `syscall_dispatch` to `sysretq`. -/
def returnSequence : List (Instr CpuVar) :=
  [.store .rsp (8 * 11) .rax, .lea .rax .inSyscall, .setVar .inSyscall 0] ++ (framePops.map .pop ++ toUserStack)

section

variable (addr : CpuVar → Word) (lstar : Word)

/-- The machine when the handler is called. -/
def entered (s : CpuState) : CpuState := run (cpuLayout addr) (syscallInstruction lstar s) entrySequence

/-- The machine back in user mode, from the return of the handler. -/
def returned (s : CpuState) : CpuState := sysretq (run (cpuLayout addr) s returnSequence)

/-- A whole system call. -/
def systemCall (handler : CpuState → CpuState) (s : CpuState) : CpuState := returned addr (handler (entered addr lstar s))

end

/-! ## Frames -/

/-- What a system call of `s` saves. -/
def userFrame (s : CpuState) : SyscallFrame where
  rbp := s.regs .rbp
  r15 := s.regs .r15
  r14 := s.regs .r14
  r13 := s.regs .r13
  r12 := s.regs .r12
  r9 := s.regs .r9
  r8 := s.regs .r8
  rsi := s.regs .rsi
  rdi := s.regs .rdi
  rdx := s.regs .rdx
  rbx := s.regs .rbx
  rax := s.regs .rax
  rcx := s.vars .rip
  r11 := s.vars .rflags
  r10 := s.regs .rsp

/-- The registers a frame restores. -/
def SyscallFrame.regs (f : SyscallFrame) : Reg → Word
  | .rax => f.rax
  | .rbx => f.rbx
  | .rcx => f.rcx
  | .rdx => f.rdx
  | .rsi => f.rsi
  | .rdi => f.rdi
  | .rbp => f.rbp
  | .rsp => f.r10
  | .r8 => f.r8
  | .r9 => f.r9
  | .r10 => f.r10
  | .r11 => f.r11
  | .r12 => f.r12
  | .r13 => f.r13
  | .r14 => f.r14
  | .r15 => f.r15

/-- The frame `f` is saved at the stack pointer of `s`. -/
def SavedFrame (s : CpuState) (f : SyscallFrame) : Prop :=
  loadWords s.mem (v2p (s.regs .rsp).toNat) SyscallFrame.wordCount = f.words

/-- There is room for a frame, and the padding, at the stack pointer. -/
def OnKernelStack (sp : Word) : Prop := physicalOffset ≤ sp.toNat ∧ sp.toNat + syscallFrameSize < 2 ^ 64

/-- From `s` to `t` the stack pointer and the frame at it are kept. -/
structure FrameKept (s t : CpuState) : Prop where
  rsp : t.regs .rsp = s.regs .rsp
  mem : ∀ x, v2p (s.regs .rsp).toNat ≤ x → x < v2p (s.regs .rsp).toNat + 8 * SyscallFrame.wordCount → t.mem x = s.mem x

variable {s : CpuState} {f : SyscallFrame}

theorem FrameKept.savedFrame {t : CpuState} (h : FrameKept s t) (hs : SavedFrame s f) : SavedFrame t f := by
  unfold SavedFrame
  rw [h.rsp, ← hs]
  exact loadWords_congr h.mem

theorem FrameKept.refl (s : CpuState) : FrameKept s s := ⟨rfl, fun _ _ _ => rfl⟩

theorem FrameKept.id (s : CpuState) : FrameKept s (id s) := refl s

theorem cpuLayout_linear (addr : CpuVar → Word) {a n : Nat} (h : physicalOffset ≤ a) : (cpuLayout addr).Linear a n := by
  intro i _
  simp only [cpuLayout, v2p, if_pos h, if_pos (Nat.le_add_right_of_le h)]
  omega

theorem frame_address {sp : Word} {i : Nat} (h : OnKernelStack sp) (hi : i < SyscallFrame.wordCount) :
    v2p (sp + BitVec.ofNat 64 (8 * i)).toNat = v2p sp.toNat + 8 * i := by
  have hi' : i < 15 := hi
  have hoff : (BitVec.ofNat 64 (8 * i)).toNat = 8 * i := by rw [BitVec.toNat_ofNat, Nat.mod_eq_of_lt (by omega)]
  have hroom : sp.toNat + 128 < 2 ^ 64 := h.2
  rw [BitVec.toNat_add_of_lt (by omega), hoff]
  exact cpuLayout_linear (fun _ => 0) (n := 128) h.1 (8 * i) (by omega)

theorem SavedFrame.word {i : Nat} (h : SavedFrame s f) (hs : OnKernelStack (s.regs .rsp))
    (hi : i < SyscallFrame.wordCount) :
    some (loadWord s.mem (v2p (s.regs .rsp + BitVec.ofNat 64 (8 * i)).toNat)) = f.words[i]? := by
  rw [frame_address hs hi, ← loadWords_getElem? hi, h]

/-! ## The way in -/

theorem toKernelStack_regs {lstar : Word} :
    (run (cpuLayout addr) (syscallInstruction lstar s) toKernelStack).regs =
      Function.update (userFrame s).regs .rsp (s.vars .tssRsp0) := by
  funext r
  cases r <;> simp [toKernelStack, exec, syscallInstruction, userFrame, SyscallFrame.regs]

/-- The machine with the registers on the kernel stack. -/
def registersPushed (addr : CpuVar → Word) (lstar : Word) (s : CpuState) : CpuState :=
  run (cpuLayout addr) (syscallInstruction lstar s) (toKernelStack ++ entryPushes.map .push)

/-- The stack pointer in the handler. -/
def framePointer (s : CpuState) : Nat := (s.vars .tssRsp0).toNat - syscallFrameSize

/-- There is room for the frame on the kernel stack `TSS_RSP0` points to. -/
def HasKernelStack (s : CpuState) : Prop := physicalOffset + syscallFrameSize ≤ (s.vars .tssRsp0).toNat

theorem HasKernelStack.onKernelStack (h : HasKernelStack s) : OnKernelStack (BitVec.ofNat 64 (framePointer s)) := by
  have hlt := (s.vars .tssRsp0).isLt
  unfold HasKernelStack at h
  unfold OnKernelStack framePointer
  rw [BitVec.toNat_ofNat, Nat.mod_eq_of_lt (by omega)]
  omega

section

variable (addr : CpuVar → Word) (lstar : Word) {s : CpuState}

theorem registersPushed_pushed (h : HasKernelStack s) :
    Pushed (cpuLayout addr) (run (cpuLayout addr) (syscallInstruction lstar s) toKernelStack) entryPushes (framePointer s)
      (registersPushed addr lstar s) := by
  unfold HasKernelStack at h
  rw [registersPushed, run_append]
  refine run_pushes _ _ (by decide) ?_ (cpuLayout_linear addr (by unfold framePointer; omega))
  rw [toKernelStack_regs, Function.update_self]
  exact Nat.sub_add_cancel (Nat.le_of_add_left_le h)

theorem registersPushed_rsp (h : HasKernelStack s) :
    (registersPushed addr lstar s).regs .rsp = BitVec.ofNat 64 (framePointer s) := by
  rw [(registersPushed_pushed addr lstar h).regs, Function.update_self]

theorem registersPushed_arg4 (h : HasKernelStack s) : (registersPushed addr lstar s).vars .syscallArg4 = s.regs .r10 := by
  rw [(registersPushed_pushed addr lstar h).vars]
  simp [toKernelStack, exec, syscallInstruction]

theorem registersPushed_savedFrame (h : HasKernelStack s) : SavedFrame (registersPushed addr lstar s) (userFrame s) := by
  have hwords := (registersPushed_pushed addr lstar h).words
  have hlt := (s.vars .tssRsp0).isLt
  have hframe : entryPushes.reverse.map (Function.update (userFrame s).regs .rsp (s.vars .tssRsp0)) =
      (userFrame s).words ++ [s.regs .rsp] := by
    simp [entryPushes, SyscallFrame.words, SyscallFrame.regs, userFrame]
  -- the sixteenth word is the padding
  rw [toKernelStack_regs, hframe, show entryPushes.length = SyscallFrame.wordCount + 1 from rfl, loadWords_succ, cpuLayout_place]
    at hwords
  unfold SavedFrame
  rw [registersPushed_rsp addr lstar h, BitVec.toNat_ofNat, Nat.mod_eq_of_lt (by unfold framePointer; omega)]
  exact List.append_inj_left' hwords (by simp)

/-- **What the handler finds**: the frame at its stack pointer, and the
arguments of `syscall_dispatch`, the fourth through `SYSCALL_ARG4`. -/
structure Entered (s t : CpuState) : Prop where
  rsp : t.regs .rsp = BitVec.ofNat 64 (framePointer s)
  frame : SavedFrame t (userFrame s)
  number : t.regs .rdi = s.regs .rax
  arg1 : t.regs .rsi = s.regs .rdi
  arg2 : t.regs .rdx = s.regs .rsi
  arg3 : t.regs .rcx = s.regs .rdx
  arg4 : t.regs .r8 = s.regs .r10
  framePtr : t.regs .r9 = t.regs .rsp

theorem dispatchArguments_frame {t : CpuState} {f : SyscallFrame} (h : SavedFrame t f) :
    SavedFrame (run (cpuLayout addr) t dispatchArguments) f := by
  simpa [SavedFrame, dispatchArguments, exec] using h

theorem entered_of_stack (h : HasKernelStack s) : Entered s (entered addr lstar s) := by
  have hsp : OnKernelStack ((registersPushed addr lstar s).regs .rsp) := by
    rw [registersPushed_rsp addr lstar h]
    exact h.onKernelStack
  have hrsp := registersPushed_rsp addr lstar h
  have harg4 := registersPushed_arg4 addr lstar h
  have hframe := registersPushed_savedFrame addr lstar h
  have heq : entered addr lstar s = run (cpuLayout addr) (registersPushed addr lstar s) dispatchArguments := by
    rw [entered, entrySequence, run_append, registersPushed]
  rw [heq]
  generalize registersPushed addr lstar s = t at *
  have hnumber := hframe.word (i := 11) hsp (by decide)
  have harg1 := hframe.word (i := 8) hsp (by decide)
  have harg2 := hframe.word (i := 7) hsp (by decide)
  have harg3 := hframe.word (i := 9) hsp (by decide)
  refine ⟨?_, dispatchArguments_frame addr hframe, ?_, ?_, ?_, ?_, ?_, ?_⟩
  · simpa [dispatchArguments, exec] using hrsp
  · simpa [dispatchArguments, exec, SyscallFrame.words, userFrame] using hnumber
  · simpa [dispatchArguments, exec, SyscallFrame.words, userFrame] using harg1
  · simpa [dispatchArguments, exec, SyscallFrame.words, userFrame] using harg2
  · simpa [dispatchArguments, exec, SyscallFrame.words, userFrame] using harg3
  · simpa [dispatchArguments, exec] using harg4
  · simp [dispatchArguments, exec]

end

/-! ## The way back -/

theorem run_framePops (hs : OnKernelStack (s.regs .rsp)) (hf : SavedFrame s f) :
    (run (cpuLayout addr) s (framePops.map .pop ++ toUserStack)).regs = f.regs := by
  have hroom : (s.regs .rsp).toNat + 128 < 2 ^ 64 := hs.2
  have hp : Popped (cpuLayout addr) s framePops (run (cpuLayout addr) s (framePops.map .pop)) :=
    run_pops _ _ (by decide) (by decide) (show (s.regs .rsp).toNat + 120 < _ by omega) (cpuLayout_linear addr hs.1)
  have hwords : framePops.map (run (cpuLayout addr) s (framePops.map .pop)).regs = f.words := hp.words.trans hf
  rw [run_append]
  generalize run (cpuLayout addr) s (framePops.map .pop) = t at hwords
  simp only [framePops, SyscallFrame.words, List.map_cons, List.map_nil, List.cons.injEq, and_true] at hwords
  obtain ⟨hrbp, hr15, hr14, hr13, hr12, hr9, hr8, hrsi, hrdi, hrdx, hrbx, hrax, hrcx, hr11, hr10⟩ := hwords
  funext r
  cases r <;> simp [toUserStack, exec, SyscallFrame.regs, *]

theorem SyscallFrame.words_rax (f : SyscallFrame) (w : Word) : f.words.set 11 w = { f with rax := w }.words := rfl

theorem returned_regs (hs : OnKernelStack (s.regs .rsp)) (hf : SavedFrame s f) :
    (returned addr s).regs = { f with rax := s.regs .rax }.regs := by
  rw [returned, returnSequence, run_append]
  refine run_framePops hs ?_
  unfold SavedFrame
  have hstore := loadWords_storeWord (m := s.mem) (w := s.regs .rax) (a := v2p (s.regs .rsp).toNat)
    (show 11 < SyscallFrame.wordCount by decide)
  rw [hf, SyscallFrame.words_rax, ← frame_address hs (by decide)] at hstore
  exact hstore

theorem returned_vars :
    (returned addr s).vars .rip = (returned addr s).regs .rcx ∧
    (returned addr s).vars .rflags = sysretFlags ((returned addr s).regs .r11) := by
  simp [returned, sysretq]

theorem systemCall_regs {lstar : Word} {handler : CpuState → CpuState} (h : HasKernelStack s)
    (hkeep : FrameKept (entered addr lstar s) (handler (entered addr lstar s))) :
    (systemCall addr lstar handler s).regs =
      { userFrame s with rax := (handler (entered addr lstar s)).regs .rax }.regs := by
  have hin := entered_of_stack addr lstar h
  refine returned_regs ?_ (hkeep.savedFrame hin.frame)
  rw [hkeep.rsp, hin.rsp]
  exact h.onKernelStack

/-- **A system call keeps the registers, but for `r10`.** Around any handler that
keeps the saved frame, every register other than `rax`, `rcx`, `r11` and `r10`
has its value of before, the stack pointer included, and the program goes on
after the call with its flags. `r10` comes back with the stack pointer in it, so
all but `rax`, `rcx` and `r11` are kept exactly when it held that already. -/
theorem system_call_keeps_registers (addr : CpuVar → Word) (lstar : Word) (s : CpuState) (handler : CpuState → CpuState)
    (h : HasKernelStack s) (hkeep : FrameKept (entered addr lstar s) (handler (entered addr lstar s))) :
    (∀ r, r ≠ .rax → r ≠ .rcx → r ≠ .r11 → r ≠ .r10 → (systemCall addr lstar handler s).regs r = s.regs r) ∧
    (systemCall addr lstar handler s).vars .rip = s.vars .rip ∧
    (systemCall addr lstar handler s).vars .rflags = sysretFlags (s.vars .rflags) ∧
    ((∀ r, r ≠ .rax → r ≠ .rcx → r ≠ .r11 → (systemCall addr lstar handler s).regs r = s.regs r) ↔
      s.regs .r10 = s.regs .rsp) := by
  have hregs := systemCall_regs h hkeep
  have hkept : ∀ r, r ≠ .rax → r ≠ .rcx → r ≠ .r11 → r ≠ .r10 → (systemCall addr lstar handler s).regs r = s.regs r := by
    intro r hax hcx h11 h10
    rw [hregs]
    cases r <;> first | rfl | contradiction
  refine ⟨hkept, ?_, ?_, ?_⟩
  · exact returned_vars.1.trans (congrFun hregs .rcx)
  · exact returned_vars.2.trans (congrArg sysretFlags (congrFun hregs .r11))
  · constructor
    · intro hall
      rw [← hall .r10 (by decide) (by decide) (by decide), hregs]
      rfl
    · intro h10 r hax hcx h11
      by_cases hr : r = .r10
      · rw [hr, hregs]
        exact h10.symm
      · exact hkept r hax hcx h11 hr

/-- A program at a system call on the first kernel stack, with `r10` in `r10`. -/
def callerWith (r10 : Word) : CpuState where
  regs := Function.update (Function.update (fun _ => 7) .rsp 0x7FFFFF00) .r10 r10
  vars := Function.update (fun _ => 0) .tssRsp0 (BitVec.ofNat 64 (physicalOffset + 0x2000))
  mem := fun _ => 0

theorem callerWith_stack (r10 : Word) : HasKernelStack (callerWith r10) := by
  have htop : (callerWith r10).vars .tssRsp0 = BitVec.ofNat 64 (physicalOffset + 0x2000) := rfl
  unfold HasKernelStack
  rw [htop]
  decide

theorem system_call_keeps_registers_id :
    HasKernelStack (callerWith 0x7FFFFF00) ∧
      ∀ r, r ≠ .rax → r ≠ .rcx → r ≠ .r11 →
        (systemCall (fun _ => 0) 0 id (callerWith 0x7FFFFF00)).regs r = (callerWith 0x7FFFFF00).regs r :=
  ⟨callerWith_stack _, (system_call_keeps_registers (fun _ => 0) 0 (callerWith 0x7FFFFF00) id (callerWith_stack _)
    (.id _)).2.2.2.mpr rfl⟩

/-- A fourth argument does not survive the call. -/
theorem system_call_loses_r10 :
    HasKernelStack (callerWith 4) ∧ (callerWith 4).regs .r10 = 4 ∧
      (systemCall (fun _ => 0) 0 id (callerWith 4)).regs .r10 = 0x7FFFFF00 :=
  ⟨callerWith_stack _, rfl, congrFun (systemCall_regs (callerWith_stack _) (.id _)) .r10⟩

end CoreOS
