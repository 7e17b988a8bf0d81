/-
The context a system call returns to. The return sequence loads the
instruction pointer and the flags from the saved frame (`rcx` and `r11`), and
only two things write those slots: the start of a handler, which puts the
registered address in `rcx`, and `rt_sigreturn`, which takes the whole frame
from user memory. Neither checks what it takes. So a return is to user space
with the I/O privilege clear as long as the addresses given to `rt_sigaction`
and the frames given to `rt_sigreturn` are (`return_context_benign`).
-/
import CoreOS.LifeFrame

namespace CoreOS

open ByteMem

/-- The I/O privilege level in the flags. -/
def iopl : Word := 0x3000

/-- The frame leads to user space, without I/O privilege. -/
def SyscallFrame.Benign (f : SyscallFrame) : Prop := f.rcx.toNat < userTop ∧ f.r11 &&& iopl = 0

instance (f : SyscallFrame) : Decidable f.Benign := inferInstanceAs (Decidable (_ ∧ _))

/-- Every registered handler is in user space. -/
def Kernel.HandlersBelow (k : Kernel) : Prop :=
  ∀ x p sig, k.processes x = some p → (p.sigHandlers sig).handler < userTop

/-! ## The end of a call -/

theorem deliver_frame {c c' : UserContext} {d : Delivery} (h : deliverPendingSignal c = (d, c')) :
    c'.frame = c.frame ∨ ∃ x p sig, c.kernel.processes x = some p ∧
      c'.frame.rcx = BitVec.ofNat 64 (p.sigHandlers sig).handler ∧ c'.frame.r11 = c.frame.r11 := by
  rcases deliverPendingSignal_cases h with ⟨rfl, -⟩ | ⟨t, p, sig, td, -, hp, -, -, hcase⟩
  · exact .inl rfl
  · rcases hcase with ⟨-, -, -, rfl⟩ | ⟨-, -, rfl⟩ | ⟨-, -, hstart⟩ | ⟨e, -, -, hstart⟩
    · exact .inl rfl
    · exact .inl rfl
    · obtain ⟨ptr, user, onAltstack, -, -, hframe, -⟩ := startHandler_ok hstart
      refine .inr ⟨t.groupSlot, p, sig, hp, ?_, ?_⟩
      · rw [hframe]
      · rw [hframe]
    · exact .inl (startHandler_error hstart).1

theorem deliver_benign {c : UserContext} (hhandlers : c.kernel.HandlersBelow) (h : c.frame.Benign) :
    (deliverPendingSignal c).2.frame.Benign := by
  rcases deliver_frame (Prod.mk.eta (p := deliverPendingSignal c)).symm with hf | ⟨x, p, sig, hp, hrcx, hr11⟩
  · rw [hf]
    exact h
  · have hlt := hhandlers x p sig hp
    refine ⟨?_, by rw [hr11]; exact h.2⟩
    rw [hrcx, BitVec.toNat_ofNat]
    exact lt_of_le_of_lt (Nat.mod_le _ _) hlt

theorem rtSigreturn_frame {c c' : UserContext} {r : Except SysError Word} (h : rtSigreturn c = (r, c')) :
    c'.frame = (copyWordsFromUser c.user c.frame.r10.toNat SyscallFrame.wordCount).elim c.frame .ofWords := by
  unfold rtSigreturn at h
  cases hread : copyWordsFromUser c.user c.frame.r10.toNat SyscallFrame.wordCount with
  | none =>
    rw [hread] at h
    cases h
    rfl
  | some ws =>
    rw [hread] at h
    dsimp only at h
    split at h
    · cases h
      rfl
    · cases h
      rfl

/-! ## Where handlers come from -/

/-- Calls other than `rt_sigaction` leave the handlers of a process alone. -/
def LifeOp.keepHandlers : LifeOp → LifeOp
  | other phys f g => other phys (fun p => { f p with sigHandlers := p.sigHandlers }) g
  | op => op

/-- Steps of the kernel: those of the process state machine, and
`rt_sigaction`. -/
inductive ContextOp
  | life (op : LifeOp)
  | sigaction (frame : SyscallFrame) (user : Mem) (sig act oldact size : Nat)

def ContextOp.step (k : Kernel) : ContextOp → Option Kernel
  | life op => op.keepHandlers.step k
  | sigaction frame user sig act oldact size => some (rtSigaction ⟨k, frame, user⟩ sig act oldact size).2.kernel

/-- The condition on a step: `rt_sigaction` leaves the caller with a handler in
user space. -/
def ContextOp.RegistersBelow (k : Kernel) : ContextOp → Prop
  | life _ => True
  | sigaction frame user sig act oldact size =>
    ∀ p, (rtSigaction ⟨k, frame, user⟩ sig act oldact size).2.kernel.currentProcess = some p →
      (p.sigHandlers sig).handler < userTop

namespace Kernel.HandlersBelow

variable {k k' : Kernel}

theorem of_processes (h : k.HandlersBelow) (hpr : k'.processes = k.processes) : k'.HandlersBelow :=
  fun x p sig hp => h x p sig (hpr ▸ hp)

theorem of_records (h : k.HandlersBelow) (hs : SameRecords k k') : k'.HandlersBelow := by
  intro x p' sig hp'
  obtain ⟨p, hp, hkept⟩ := hs.process hp'
  have hsame := congrArg (fun p : Process => (p.sigHandlers sig).handler) hkept
  exact hsame ▸ h x p sig hp

theorem update (h : k.HandlersBelow) {g : Slot} {o : Option Process}
    (hpr : k'.processes = Function.update k.processes g o)
    (ho : ∀ p sig, o = some p → (p.sigHandlers sig).handler < userTop) : k'.HandlersBelow := by
  intro x p sig hp
  rw [hpr] at hp
  by_cases hx : x = g
  · rw [hx, Function.update_self] at hp
    exact ho p sig hp
  · rw [Function.update_of_ne hx] at hp
    exact h x p sig hp

theorem boot {phys : Phys} {code : CodeAddrs} {kernelPml4 stackBase : Nat} :
    ((Kernel.statics phys code kernelPml4).initMainTask stackBase).HandlersBelow := nofun

theorem life {op : LifeOp} (h : k.HandlersBelow) (hs : op.keepHandlers.step k = some k') : k'.HandlersBelow := by
  cases op with
  | fork frame pml4 =>
    obtain ⟨⟨pid, k''⟩, hf, rfl⟩ := Option.map_eq_some_iff.mp hs
    rcases forkTask_cases hf with ⟨-, rfl⟩ | ⟨slot, k1, parent, pt, -, sp, hparent, hpt, hpr, -⟩
    · exact h
    · refine (h.of_processes sp.processes).update hpr fun p sig hp => ?_
      cases hp
      rw [currentProcess, hpt, Option.bind_some] at hparent
      exact h _ parent sig hparent
  | exec entry stackTop pml4 name =>
    cases hs
    rcases execTask_cases k entry stackTop pml4 name with he | ⟨slot, k1, k'', he, sp, hpr, -⟩
    · rw [he]
      exact h
    · rw [he]
      refine (h.of_processes sp.processes).update hpr fun p sig hp => ?_
      cases hp
      exact (by decide : 0 < userTop)
  | cloneThread frame c b =>
    obtain ⟨⟨tid, k''⟩, hf, rfl⟩ := Option.map_eq_some_iff.mp hs
    rcases cloneThread_cases hf with ⟨-, rfl⟩ | ⟨slot, k1, pt, p, -, sp, -, hp, hpr, -⟩
    · exact h
    · refine (h.of_processes sp.processes).update hpr fun p' sig hp' => ?_
      cases hp'
      exact h _ p sig hp
  | exit | exitGroup | kill | tkill | tgkill | finish | fault => exact h.of_records (LifeOp.sameRecords rfl hs)
  | reap slot =>
    cases hs
    cases hr : reapSlot k slot with
    | none => exact h
    | some x =>
      obtain ⟨p, -, -, -, hpr, -⟩ := reapSlot_spec hr
      exact h.update hpr fun p sig hp => by cases hp
  | other phys f g =>
    cases hs
    intro x p' sig hp'
    obtain ⟨p, hp, rfl⟩ := Option.map_eq_some_iff.mp hp'
    exact h x p sig hp
  | switch =>
    cases hs
    cases hsw : k.nextTaskSwitch with
    | none => exact h
    | some x => exact h.of_processes (nextTaskSwitch_tables hsw).1

theorem step {op : ContextOp} (h : k.HandlersBelow) (hop : op.RegistersBelow k) (hs : op.step k = some k') :
    k'.HandlersBelow := by
  cases op with
  | life op => exact h.life hs
  | sigaction frame user sig act oldact size =>
    cases hx : rtSigaction ⟨k, frame, user⟩ sig act oldact size with | mk r c =>
    simp only [ContextOp.step, ContextOp.RegistersBelow, hx] at hs hop
    cases hs
    rcases rtSigaction_kernel hx with hk | ⟨t, p, new, ht, hp, -, hk⟩
    · rw [hk]
      exact h
    · have hcurrent : c.kernel.currentProcess =
          some { p with sigHandlers := Function.update p.sigHandlers sig new } := by
        have hthread : k.currentThread = some t := ht
        rw [hk, currentProcess]
        show k.currentThread.bind (fun t => _) = _
        rw [hthread, Option.bind_some]
        exact Function.update_self ..
      have hnew := hop _ hcurrent
      dsimp only at hk
      refine h.update (congrArg Kernel.processes hk) fun p' sig' hp' => ?_
      cases hp'
      by_cases hsig : sig' = sig
      · rw [hsig]
        exact hnew
      · dsimp only
        rw [Function.update_of_ne hsig]
        exact h _ p sig' hp

end Kernel.HandlersBelow

/-- **The context of a return.** In every state a run reaches from boot, when
`rt_sigaction` is only given handlers in user space: every call that comes with
a benign frame goes back to one, whatever signal its end delivers; and
`rt_sigreturn` goes back to one exactly when the frame it finds on the user
stack, if it can read one, is benign. -/
theorem return_context_benign (phys : Phys) (code : CodeAddrs) (kernelPml4 stackBase : Nat) (ops : List ContextOp)
    (k : Kernel) (frame : SyscallFrame) (user : Mem)
    (hregister : Lts.Meets ContextOp.step ContextOp.RegistersBelow
      ((Kernel.statics phys code kernelPml4).initMainTask stackBase) ops)
    (hrun : Lts.exec ContextOp.step ((Kernel.statics phys code kernelPml4).initMainTask stackBase) ops = some k)
    (hentry : frame.Benign) :
    (∀ value, (finishSyscall ⟨k, frame, user⟩ false value).frame.Benign) ∧
      ∀ r c, rtSigreturn ⟨k, frame, user⟩ = (r, c) →
        ((finishSyscall c true (ret r)).frame.Benign ↔
          ∀ ws, copyWordsFromUser user frame.r10.toNat SyscallFrame.wordCount = some ws →
            (SyscallFrame.ofWords ws).Benign) := by
  have hbelow : k.HandlersBelow :=
    Lts.exec_invariant_of_meets Kernel.HandlersBelow (fun _ _ _ h hop hs => h.step hop hs) .boot hregister hrun
  refine ⟨fun value => deliver_benign hbelow hentry, fun r c hret => ?_⟩
  have hframe := rtSigreturn_frame hret
  show c.frame.Benign ↔ _
  rw [hframe]
  cases copyWordsFromUser user frame.r10.toNat SyscallFrame.wordCount with
  | none => exact ⟨nofun, fun _ => hentry⟩
  | some ws => exact ⟨fun hws ws' he => Option.some.inj he ▸ hws, fun h => h ws rfl⟩

/-- A process handles signal 10 and sends it to itself. -/
def selfHandled (handler : Word) : List ContextOp :=
  [.life (.exec 0 0 0 []), .life .switch,
    .sigaction .zero (storeWords (fun _ => 0) 0x1000 [handler, saRestorer, 0x400100]) 10 0x1000 0 sigsetSize,
    .life (.kill 1 10)]

/-- A frame with user registers. -/
def benignFrame : SyscallFrame := { SyscallFrame.zero with rcx := 0x400200, r11 := 0x202, r10 := 0x8000 }

/-- A handler in user space is entered there, and the frame on the stack, here
of zeros, is gone back to. -/
theorem return_context_benign_selfHandled :
    ∃ k, Lts.exec ContextOp.step ((Kernel.statics allFree ⟨0, 0⟩ 0).initMainTask 0) (selfHandled 0x400000) = some k ∧
      (finishSyscall ⟨k, benignFrame, fun _ => 0⟩ false 0).frame.rcx = 0x400000 ∧
      (finishSyscall ⟨k, benignFrame, fun _ => 0⟩ false 0).frame.Benign ∧
      ∀ r c, rtSigreturn ⟨k, benignFrame, fun _ => 0⟩ = (r, c) → (finishSyscall c true (ret r)).frame.Benign := by
  have hentered : (Lts.exec ContextOp.step ((Kernel.statics allFree ⟨0, 0⟩ 0).initMainTask 0)
      (selfHandled 0x400000)).map (fun k => (finishSyscall ⟨k, benignFrame, fun _ => 0⟩ false 0).frame.rcx) =
      some 0x400000 := by decide +kernel
  obtain ⟨k, hrun, hrcx⟩ := Option.map_eq_some_iff.mp hentered
  have hregister : Lts.Meets ContextOp.step ContextOp.RegistersBelow
      ((Kernel.statics allFree ⟨0, 0⟩ 0).initMainTask 0) (selfHandled 0x400000) := by
    refine ⟨trivial, fun k1 h1 => ⟨trivial, fun k2 h2 => ⟨fun p hp => ?_, fun k3 h3 => ⟨trivial, fun _ _ => trivial⟩⟩⟩⟩
    have hbefore : Lts.exec ContextOp.step ((Kernel.statics allFree ⟨0, 0⟩ 0).initMainTask 0)
        [.life (.exec 0 0 0 []), .life .switch] = some k2 := Lts.exec_cons.mpr ⟨k1, h1, Lts.exec_cons.mpr ⟨k2, h2, rfl⟩⟩
    have hbelow : (Lts.exec ContextOp.step ((Kernel.statics allFree ⟨0, 0⟩ 0).initMainTask 0)
        [.life (.exec 0 0 0 []), .life .switch]).all (fun k =>
          (rtSigaction ⟨k, .zero, storeWords (fun _ => 0) 0x1000 [0x400000, saRestorer, 0x400100]⟩ 10 0x1000 0
            sigsetSize).2.kernel.currentProcess.all fun p => (p.sigHandlers 10).handler < userTop) = true := by
      decide +kernel
    rw [hbefore, Option.all_some, hp, Option.all_some] at hbelow
    exact of_decide_eq_true hbelow
  have hbenign := return_context_benign allFree ⟨0, 0⟩ 0 0 _ k benignFrame (fun _ => 0) hregister hrun (by decide)
  refine ⟨k, hrun, hrcx, hbenign.1 0, fun r c hret => (hbenign.2 r c hret).mpr fun ws hws => ?_⟩
  have hzero : (copyWordsFromUser (fun _ => 0) benignFrame.r10.toNat SyscallFrame.wordCount).all
      (fun ws => (SyscallFrame.ofWords ws).Benign) = true := by decide +kernel
  rw [hws] at hzero
  exact of_decide_eq_true hzero

/-- A handler in the kernel's half is entered, and `rt_sigreturn` takes any
instruction pointer and any flags. -/
theorem return_context_hostile :
    ∃ k, Lts.exec ContextOp.step ((Kernel.statics allFree ⟨0, 0⟩ 0).initMainTask 0) (selfHandled 0xffff800000000000) =
        some k ∧ benignFrame.Benign ∧
      (finishSyscall ⟨k, benignFrame, fun _ => 0⟩ false 0).frame.rcx = 0xffff800000000000 ∧
      (finishSyscall (rtSigreturn ⟨k, benignFrame, fun _ => 0xff⟩).2 true 0).frame.rcx = 0xffffffffffffffff ∧
      (finishSyscall (rtSigreturn ⟨k, benignFrame, fun _ => 0xff⟩).2 true 0).frame.r11 &&& iopl = iopl := by
  have hrun : (Lts.exec ContextOp.step ((Kernel.statics allFree ⟨0, 0⟩ 0).initMainTask 0)
      (selfHandled 0xffff800000000000)).map (fun k =>
        ((finishSyscall ⟨k, benignFrame, fun _ => 0⟩ false 0).frame.rcx,
          (finishSyscall (rtSigreturn ⟨k, benignFrame, fun _ => 0xff⟩).2 true 0).frame.rcx,
          (finishSyscall (rtSigreturn ⟨k, benignFrame, fun _ => 0xff⟩).2 true 0).frame.r11)) =
      some (0xffff800000000000, 0xffffffffffffffff, 0xffffffffffffffff) := by decide +kernel
  obtain ⟨k, hk, he⟩ := Option.map_eq_some_iff.mp hrun
  simp only [Prod.mk.injEq] at he
  obtain ⟨hrcx, hreturned, hflags⟩ := he
  refine ⟨k, hk, by decide, hrcx, hreturned, ?_⟩
  rw [hflags]
  decide

end CoreOS
