/-
How a forked child gets to user mode: `spawn_forked_task` lays a copy of the
parent's frame out on the child's kernel stack (`proc/task.rs`), below it the
address of `fork_return_trampoline` and six zero words, which the first
`switch_to` (`proc/scheduler.rs`) pops.
-/
import CoreOS.SyscallEntry
import CoreOS.Clone
import CoreOS.PmmFacts

namespace CoreOS

open ByteMem Straight

/-! ## The code -/

def switchPushes : List Reg := [.rbp, .rbx, .r12, .r13, .r14, .r15]

def switchPops : List Reg := [.r15, .r14, .r13, .r12, .rbx, .rbp]

/-- The address space and the thread pointer of the new task. -/
def switchSpace : List (Instr CpuVar) :=
  [.storeVar .cr3 .rdx, .mov32 .rax .rcx, .shr .rcx 32, .mov32 .rdx .rcx, .movImm .rcx 0xC0000100, .wrmsr .fsBase]

/-- `switch_to`; `sti` sets the interrupt flag. -/
def switchTo : List (Instr CpuVar) :=
  switchPushes.map .push ++ (.store .rdi 0 .rsp :: switchSpace ++ [.mov .rsp .rsi]) ++ switchPops.map .pop ++
    [.orVar .rflags (1 <<< 9), .popVar .rip]

def trampolinePops : List Reg := [.rbp, .r15, .r14, .r13, .r12, .r9, .r8, .rsi, .rdi, .rdx, .rbx, .rax, .rcx, .r11, .r10]

/-- `fork_return_trampoline` up to its `sysretq`. -/
def forkReturnTrampoline : List (Instr CpuVar) := trampolinePops.map .pop ++ [.add .rsp 8, .mov .rsp .r10]

/-- A task's first switch, from the call of `switch_to` to user mode. -/
def firstReturn (addr : CpuVar → Word) (s : CpuState) : CpuState :=
  sysretq (run (cpuLayout addr) (run (cpuLayout addr) s switchTo) forkReturnTrampoline)

/-! ## The child's stack -/

/-- The context, the return address and the frame with its padding. -/
def childStackSize : Nat := contextSize + 8 + syscallFrameSize

/-- What the stack of a task that has not run yet holds from its stack pointer up. -/
structure ForkedChild (mem : Mem) (trampoline : Word) (rsp : Nat) (f : SyscallFrame) : Prop where
  low : physicalOffset ≤ rsp
  high : rsp + childStackSize < 2 ^ 64
  ret : loadWord mem (v2p rsp + contextSize) = trampoline
  frame : loadWords mem (v2p rsp + contextSize + 8) SyscallFrame.wordCount = f.words

variable {f : SyscallFrame}

theorem ForkedChild.congr {mem mem' : Mem} {trampoline : Word} {rsp : Nat} (h : ForkedChild mem trampoline rsp f)
    (hmem : ∀ x, v2p rsp ≤ x → x < v2p rsp + childStackSize → mem' x = mem x) : ForkedChild mem' trampoline rsp f where
  low := h.low
  high := h.high
  ret := by
    rw [← h.ret]
    exact loadWord_congr fun x h1 h2 => hmem x (by omega) (by unfold childStackSize contextSize syscallFrameSize at *; omega)
  frame := by
    rw [← h.frame]
    refine loadWords_congr fun x h1 h2 => hmem x (by omega) ?_
    unfold childStackSize contextSize syscallFrameSize SyscallFrame.wordCount at *
    omega

theorem v2p_add {a n : Nat} (h : physicalOffset ≤ a) : v2p (a + n) = v2p a + n := by
  simp only [v2p, if_pos h, if_pos (Nat.le_add_right_of_le h)]
  omega

theorem v2p_sub {a n : Nat} (h : physicalOffset + n ≤ a) : v2p (a - n) + n = v2p a := by
  rw [← v2p_add (by omega), Nat.sub_add_cancel (by omega)]

theorem pushWords_spec : ∀ (ws : List Word) (mem : Mem) (sp : Nat), physicalOffset + 8 * ws.length ≤ sp →
    (pushWords mem sp ws).2 = sp - 8 * ws.length ∧
    loadWords (pushWords mem sp ws).1 (v2p (sp - 8 * ws.length)) ws.length = ws.reverse ∧
    ∀ x, x < v2p (sp - 8 * ws.length) ∨ v2p sp ≤ x → (pushWords mem sp ws).1 x = mem x
  | [], _, _, _ => ⟨rfl, rfl, fun _ _ => rfl⟩
  | w :: ws, mem, sp, h => by
    rw [List.length_cons, Nat.mul_add] at h
    obtain ⟨hsp, hwords, hout⟩ := pushWords_spec ws (storeWord mem (v2p (sp - 8)) w) (sp - 8) (by omega)
    have hlow : sp - 8 - 8 * ws.length = sp - 8 * (ws.length + 1) := by omega
    have hplace : v2p (sp - 8 * (ws.length + 1)) + 8 * ws.length = v2p (sp - 8) := by
      rw [← hlow]
      exact v2p_sub (by omega)
    have htop : v2p (sp - 8) + 8 = v2p sp := v2p_sub (by omega)
    rw [hlow] at hsp hwords hout
    rw [pushWords, List.length_cons]
    refine ⟨hsp, ?_, fun x hx => ?_⟩
    · have hlast : loadWord (pushWords (storeWord mem (v2p (sp - 8)) w) (sp - 8) ws).1 (v2p (sp - 8)) = w := by
        rw [loadWord_congr fun x h1 _ => hout x (.inr h1), loadWord_storeWord]
      rw [loadWords_succ, hwords, hplace, hlast, List.reverse_cons]
    · rw [hout x (by omega), storeWord_out (by omega)]

variable {k k' : Kernel} {slot : Slot}

theorem Kernel.spawnTask_stack {pml4 : Nat} {layout : Mem → Nat → Mem × Nat}
    (h : k.spawnTask pml4 layout = some (slot, k')) :
    ∃ f phys t, k.phys.Took f stackPages phys ∧ k'.tasks slot = some t ∧ t.state = .ready ∧ t.rspValid = true ∧
      t.pml4 = pml4 ∧ k'.phys.pmm = phys.pmm ∧
      (t.rsp, k'.phys.mem) = (layout phys.mem (f * pageSize + physicalOffset + stackPages * pageSize)).swap := by
  unfold Kernel.spawnTask at h
  rcases k.phys.allocFrames_cases (show 0 < stackPages by decide) with ⟨f, phys, he, ht⟩ | ⟨he, -⟩
  · have hpos := ht.pos
    have hbound := ht.bound
    have hframe : f * pageSize ≠ 0 := by
      unfold pageSize
      omega
    have hbase : p2v (f * pageSize) = f * pageSize + physicalOffset := by
      apply p2v_of_lt
      unfold stackPages maxFrames at hbound
      unfold pageSize
      omega
    rw [he] at h
    split at h
    · cases h
    · simp only [if_neg hframe, hbase, Option.some.injEq, Prod.mk.injEq] at h
      obtain ⟨rfl, rfl⟩ := h
      exact ⟨f, phys, _, ht, Function.update_self .., rfl, rfl, rfl, rfl, rfl⟩
  · rw [he] at h
    split at h
    · cases h
    · simp at h

/-- **A new child's stack** holds the frame of the call it is made by, with 0 as
the result, when the frame is in memory that is in use. -/
theorem Kernel.spawnForkedTask_child {syscallFrame pml4 : Nat}
    (h : k.spawnForkedTask syscallFrame pml4 = some (slot, k'))
    (hf : loadWords k.phys.mem (v2p syscallFrame) SyscallFrame.wordCount = f.words)
    (hused : ∀ x, v2p syscallFrame ≤ x → x < v2p syscallFrame + 8 * SyscallFrame.wordCount → k.phys.pmm.isFree (x / pageSize) = false) :
    
    ∃ t, k'.tasks slot = some t ∧ t.state = .ready ∧ t.rspValid = true ∧
      ForkedChild k'.phys.mem k.code.forkReturnTrampoline t.rsp { f with rax := 0 } := by
  obtain ⟨g, phys, t, ht, htask, hready, hvalid, -, -, hlayout⟩ := spawnTask_stack h
  refine ⟨t, htask, hready, hvalid, ?_⟩
  have hbound : g + 4 ≤ 2 ^ 20 := ht.bound
  generalize htop : g * pageSize + physicalOffset + stackPages * pageSize = top at hlayout
  have hhigh : physicalOffset + 8 * 7 ≤ top - syscallFrameSize ∧ top < 2 ^ 64 := by
    unfold stackPages pageSize physicalOffset at htop
    unfold physicalOffset syscallFrameSize
    omega
  generalize hstart : top - syscallFrameSize = frameStart at hlayout hhigh
  obtain ⟨hrsp, hmem⟩ := Prod.mk.inj hlayout
  obtain ⟨hsp, hwords, hout⟩ := pushWords_spec (k.code.forkReturnTrampoline :: contextWords)
    (storeWord (copy phys.mem (v2p frameStart) (v2p syscallFrame) syscallFrameSize) (v2p (frameStart + 88)) 0) frameStart hhigh.1
  have hrsp : t.rsp = frameStart - 8 * 7 := hrsp.trans hsp
  have hplace : v2p t.rsp + contextSize + 8 = v2p frameStart := by
    rw [hrsp]
    exact v2p_sub hhigh.1
  -- the taken frames are zeroed, and the parent's frame is in none of them
  have hold : ∀ x, v2p syscallFrame ≤ x → x < v2p syscallFrame + 8 * SyscallFrame.wordCount →
      phys.mem x = k.phys.mem x := by
    intro x h1 h2
    rw [ht.mem]
    refine fill_out ?_
    by_contra hin
    have hfree := ht.run (x / pageSize - g) (by unfold pageSize stackPages at *; omega)
    rw [Nat.add_sub_cancel' (by unfold pageSize at *; omega), hused x h1 h2] at hfree
    cases hfree
  refine ⟨by omega, ?_, ?_, ?_⟩
  · unfold childStackSize contextSize syscallFrameSize at *
    omega
  · have hret := loadWords_getElem? (m := k'.phys.mem) (a := v2p t.rsp) (show 6 < 7 by decide)
    rw [hmem, hrsp] at hret
    rw [hmem, hrsp]
    exact Option.some.inj (hret.symm.trans (congrArg (·[6]?) hwords))
  · rw [hplace, hmem]
    have hbelow : loadWords (pushWords (storeWord (copy phys.mem (v2p frameStart) (v2p syscallFrame) syscallFrameSize)
        (v2p (frameStart + 88)) 0) frameStart (k.code.forkReturnTrampoline :: contextWords)).1 (v2p frameStart)
        SyscallFrame.wordCount = _ := loadWords_congr fun x h1 _ => hout x (.inr h1)
    have hcopy : loadWords (copy phys.mem (v2p frameStart) (v2p syscallFrame) syscallFrameSize) (v2p frameStart)
        SyscallFrame.wordCount = f.words := by
      rw [← hf]
      refine loadWords_shift fun i hi => ?_
      rw [copy_in (Nat.lt_trans hi (by decide))]
      exact hold _ (by omega) (by omega)
    refine hbelow.trans ?_
    rw [v2p_add (n := 88) (by omega), show 88 = 8 * 11 from rfl, loadWords_storeWord (by decide), hcopy]
    exact f.words_rax 0

theorem Kernel.setChildStack_child {sp trampoline : Word} {t : Task} (h : k.setChildStack slot sp = some k')
    (ht : k.tasks slot = some t) (hc : ForkedChild k.phys.mem trampoline t.rsp f) :
    k'.tasks = k.tasks ∧ ForkedChild k'.phys.mem trampoline t.rsp { f with r10 := sp } := by
  unfold Kernel.setChildStack at h
  rw [ht, Option.map_some] at h
  obtain rfl := Option.some.inj h
  have hplace : taskFrameWord t 14 = v2p t.rsp + contextSize + 8 + 8 * 14 := by
    unfold taskFrameWord
    rw [Nat.add_assoc, Nat.add_assoc, v2p_add hc.low, Nat.add_assoc, Nat.add_assoc]
  refine ⟨rfl, hc.low, hc.high, ?_, ?_⟩
  · rw [← hc.ret]
    exact loadWord_congr fun x _ h2 => storeWord_out (.inl (by omega))
  · show loadWords (storeWord k.phys.mem (taskFrameWord t 14) sp) _ _ = _
    rw [hplace, loadWords_storeWord (by decide), hc.frame]
    rfl

/-! ## The switch -/

/-- The stack being left and the cell its pointer is saved in are apart from the
new task's stack, which starts at `rsi`. -/
structure SwitchApart (s : CpuState) : Prop where
  stack : physicalOffset + contextSize ≤ (s.regs .rsp).toNat
  pushes : v2p (s.regs .rsp).toNat ≤ v2p (s.regs .rsi).toNat ∨
    v2p (s.regs .rsi).toNat + childStackSize + contextSize ≤ v2p (s.regs .rsp).toNat
  cell : v2p (s.regs .rdi).toNat + 8 ≤ v2p (s.regs .rsi).toNat ∨
    v2p (s.regs .rsi).toNat + childStackSize ≤ v2p (s.regs .rdi).toNat

section

variable (addr : CpuVar → Word) {s : CpuState} {trampoline : Word} {f : SyscallFrame}

theorem switchPushes_child (ha : SwitchApart s) (hc : ForkedChild s.mem trampoline (s.regs .rsi).toNat f) :
    ForkedChild
      (run (cpuLayout addr) s (switchPushes.map .push ++ (.store .rdi 0 .rsp :: switchSpace ++ [.mov .rsp .rsi]))).mem
      trampoline (s.regs .rsi).toNat f ∧
    (run (cpuLayout addr) s
      (switchPushes.map .push ++ (.store .rdi 0 .rsp :: switchSpace ++ [.mov .rsp .rsi]))).regs .rsp = s.regs .rsi := by
  have hstack := ha.stack
  have hp : Pushed (cpuLayout addr) s switchPushes ((s.regs .rsp).toNat - contextSize)
      (run (cpuLayout addr) s (switchPushes.map .push)) :=
    run_pushes _ _ (by decide) (Nat.sub_add_cancel (by omega)) (cpuLayout_linear addr (by omega))
  have hplace : v2p ((s.regs .rsp).toNat - contextSize) + contextSize = v2p (s.regs .rsp).toNat := v2p_sub hstack
  have hsave : ForkedChild (run (cpuLayout addr) s (switchPushes.map .push)).mem trampoline (s.regs .rsi).toNat f := by
    refine hc.congr fun x h1 h2 => hp.out x ?_
    rw [cpuLayout_place]
    have := ha.pushes
    rw [← hplace] at this
    have hlen : 8 * switchPushes.length = contextSize := rfl
    omega
  have hrdi : (run (cpuLayout addr) s (switchPushes.map .push)).regs .rdi = s.regs .rdi := by rw [hp.regs]; rfl
  have hrsi : (run (cpuLayout addr) s (switchPushes.map .push)).regs .rsi = s.regs .rsi := by rw [hp.regs]; rfl
  rw [run_append]
  generalize run (cpuLayout addr) s (switchPushes.map .push) = t at *
  have hcell := ha.cell
  constructor
  · have hmem : (run (cpuLayout addr) t (.store .rdi 0 .rsp :: switchSpace ++ [.mov .rsp .rsi])).mem =
        storeWord t.mem (v2p (s.regs .rdi).toNat) (t.regs .rsp) := by
      simp [switchSpace, exec, hrdi]
    rw [hmem]
    exact hsave.congr fun x h1 h2 => storeWord_out (by omega)
  · simp [switchSpace, exec, hrsi]

/-- **The switch to a new child** ends at the trampoline, with the frame at the
stack pointer. -/
theorem switchTo_child (ha : SwitchApart s) (hc : ForkedChild s.mem trampoline (s.regs .rsi).toNat f) :
    (run (cpuLayout addr) s switchTo).vars .rip = trampoline ∧
    OnKernelStack ((run (cpuLayout addr) s switchTo).regs .rsp) ∧ SavedFrame (run (cpuLayout addr) s switchTo) f := by
  obtain ⟨hchild, hrsp⟩ := switchPushes_child addr ha hc
  rw [switchTo, run_append, run_append]
  generalize run (cpuLayout addr) s
    (switchPushes.map .push ++ (.store .rdi 0 .rsp :: switchSpace ++ [.mov .rsp .rsi])) = t at *
  rw [← hrsp] at hchild
  have hlow := hchild.low
  have hhigh : (t.regs .rsp).toNat + 184 < 2 ^ 64 := hchild.high
  have hp : Popped (cpuLayout addr) t switchPops (run (cpuLayout addr) t (switchPops.map .pop)) :=
    run_pops _ _ (by decide) (by decide) (show (t.regs .rsp).toNat + 48 < _ by omega) (cpuLayout_linear addr hlow)
  have hsp : ((run (cpuLayout addr) t (switchPops.map .pop)).regs .rsp).toNat = (t.regs .rsp).toNat + contextSize := by
    rw [hp.rsp, BitVec.toNat_add_of_lt (show (t.regs .rsp).toNat + 48 < _ by omega)]
    rfl
  have hsp' : ((run (cpuLayout addr) t (switchPops.map .pop)).regs .rsp + 8).toNat =
      (t.regs .rsp).toNat + contextSize + 8 := by
    rw [BitVec.toNat_add_of_lt (by rw [hsp]; show (t.regs .rsp).toNat + 48 + 8 < _; omega), hsp]
    rfl
  have hmem := hp.mem
  generalize run (cpuLayout addr) t (switchPops.map .pop) = u at *
  have hret := hchild.ret
  have hframe := hchild.frame
  rw [← v2p_add hlow] at hret hframe
  rw [← v2p_add (Nat.le_add_right_of_le hlow)] at hframe
  refine ⟨?_, ?_, ?_⟩
  · simp [exec, hsp, hmem, hret]
  · unfold OnKernelStack
    simp only [run_cons, run_nil, exec, State.set_regs, State.setVar_regs, Function.update_self, hsp']
    unfold contextSize syscallFrameSize
    omega
  · unfold SavedFrame
    simp only [run_cons, run_nil, exec, State.set_regs, State.setVar_regs, State.setVar_mem, State.set_mem,
      Function.update_self, hsp', hmem, hframe]

theorem firstReturn_regs (ha : SwitchApart s) (hc : ForkedChild s.mem trampoline (s.regs .rsi).toNat f) :
    (firstReturn addr s).regs = f.regs := by
  obtain ⟨-, hsp, hframe⟩ := switchTo_child addr ha hc
  exact run_framePops hsp hframe

theorem firstReturn_vars : (firstReturn addr s).vars .rip = (firstReturn addr s).regs .rcx ∧
    (firstReturn addr s).vars .rflags = sysretFlags ((firstReturn addr s).regs .r11) := by
  simp [firstReturn, sysretq]

end

theorem nextTaskSwitch_rsp {sw : Kernel.SwitchTo} (h : k.nextTaskSwitch = some (sw, k')) :
    ∃ t, k.tasks k'.current = some t ∧ sw.rsp = t.rsp := by
  simp only [Kernel.nextTaskSwitch, Option.bind_eq_bind, Option.bind_eq_some_iff, Option.some.injEq,
    Prod.mk.injEq] at h
  obtain ⟨next, -, task, htask, rfl, rfl⟩ := h
  have hreaped : (k.taskSlotReaped k.current).tasks = k.tasks := by
    unfold Kernel.taskSlotReaped
    split
    · split <;> rfl
    · rfl
  show ∃ t, k.tasks next = some t ∧ task.rsp = t.rsp
  unfold Kernel.leaveTask at htask
  split at htask
  · exact ⟨task, htask, rfl⟩
  next o ho =>
    by_cases hn : next = k.current
    · subst hn
      refine ⟨o, ho, ?_⟩
      split at htask
      · cases (Function.update_self ..).symm.trans htask
      · cases (Function.update_self ..).symm.trans htask
        rfl
    · split at htask
      · have hsame := Function.update_of_ne hn none (k.taskSlotReaped k.current).tasks
        exact ⟨task, by rw [← hreaped, ← hsame]; exact htask, rfl⟩
      · exact ⟨task, (Function.update_of_ne hn ..).symm.trans htask, rfl⟩

/-- From `k` to `k'` the task in `slot` has not run: its stack pointer and what
is on its stack are as they were. -/
structure NotRunYet (slot : Slot) (k k' : Kernel) : Prop where
  task : ∀ t, k.tasks slot = some t → ∃ t', k'.tasks slot = some t' ∧ t'.rsp = t.rsp
  mem : ∀ t, k.tasks slot = some t → ∀ x, v2p t.rsp ≤ x → x < v2p t.rsp + childStackSize →
    k'.phys.mem x = k.phys.mem x

theorem NotRunYet.refl (slot : Slot) (k : Kernel) : NotRunYet slot k k :=
  ⟨fun t ht => ⟨t, ht, rfl⟩, fun _ _ _ _ _ => rfl⟩

/-- A system call that makes a task, and the task's first switch. -/
structure ForkRun (addr : CpuVar → Word) (lstar : Word) where
  /-- The parent at its `syscall` instruction. -/
  caller : CpuState
  stack : HasKernelStack caller
  /-- The parent's machine when it calls `spawn_forked_task`, and the kernel then. -/
  spawning : CpuState
  before : Kernel
  spawning_kept : FrameKept (entered addr lstar caller) spawning
  before_mem : before.phys.mem = spawning.mem
  /-- The parent's kernel stack is in frames in use. -/
  used : ∀ x, v2p (framePointer caller) ≤ x → x < v2p (framePointer caller) + 8 * SyscallFrame.wordCount →
    before.phys.pmm.isFree (x / pageSize) = false
  pml4 : Nat
  slot : Slot
  spawned : Kernel
  spawn : before.spawnForkedTask (framePointer caller) pml4 = some (slot, spawned)
  /-- `child_stack` is written before the child runs, 0 for `fork`. -/
  childStack : Word
  patching : Kernel
  patched : Kernel
  patching_kept : NotRunYet slot spawned patching
  patch : (if childStack = 0 then some patching else patching.setChildStack slot childStack) = some patched
  /-- The kernel and the machine when `switch_to` is called for the child. -/
  leaving : Kernel
  switched : Kernel
  sw : Kernel.SwitchTo
  leaving_kept : NotRunYet slot patched leaving
  switch : leaving.nextTaskSwitch = some (sw, switched)
  first : switched.current = slot
  switching : CpuState
  switching_mem : switching.mem = leaving.phys.mem
  switching_rsi : switching.regs .rsi = BitVec.ofNat 64 sw.rsp
  apart : SwitchApart switching
  /-- The parent's machine when its handler returns. -/
  returning : CpuState
  returning_kept : FrameKept (entered addr lstar caller) returning

namespace ForkRun

variable {addr : CpuVar → Word} {lstar : Word}

/-- The parent back in user mode. -/
def parent (r : ForkRun addr lstar) : CpuState := returned addr r.returning

/-- The child in user mode. -/
def child (r : ForkRun addr lstar) : CpuState := firstReturn addr r.switching

/-- The child's stack pointer. -/
def childRsp (r : ForkRun addr lstar) : Word := if r.childStack = 0 then r.caller.regs .rsp else r.childStack

theorem parent_regs (r : ForkRun addr lstar) :
    r.parent.regs = { userFrame r.caller with rax := r.returning.regs .rax }.regs := by
  have hin := entered_of_stack addr lstar r.stack
  refine returned_regs ?_ (r.returning_kept.savedFrame hin.frame)
  rw [r.returning_kept.rsp, hin.rsp]
  exact r.stack.onKernelStack

theorem before_words (r : ForkRun addr lstar) :
    loadWords r.before.phys.mem (v2p (framePointer r.caller)) SyscallFrame.wordCount = (userFrame r.caller).words := by
  have hin := entered_of_stack addr lstar r.stack
  have hframe := r.spawning_kept.savedFrame hin.frame
  have hlt := (r.caller.vars .tssRsp0).isLt
  have hsp : (BitVec.ofNat 64 (framePointer r.caller)).toNat = framePointer r.caller := by
    rw [BitVec.toNat_ofNat, Nat.mod_eq_of_lt (by unfold framePointer; omega)]
  unfold SavedFrame at hframe
  rw [r.spawning_kept.rsp, hin.rsp, hsp, ← r.before_mem] at hframe
  exact hframe

theorem leaving_child (r : ForkRun addr lstar) : ∃ t, r.leaving.tasks r.slot = some t ∧
    ForkedChild r.leaving.phys.mem r.before.code.forkReturnTrampoline t.rsp
      { userFrame r.caller with rax := 0, r10 := r.childRsp } := by
  obtain ⟨t, ht, -, -, hc⟩ := Kernel.spawnForkedTask_child r.spawn r.before_words r.used
  obtain ⟨t1, ht1, hrsp1⟩ := r.patching_kept.task t ht
  have hc1 := hc.congr (r.patching_kept.mem t ht)
  rw [← hrsp1] at hc1
  have hpatched : r.patched.tasks r.slot = some t1 ∧
      ForkedChild r.patched.phys.mem r.before.code.forkReturnTrampoline t1.rsp
        { userFrame r.caller with rax := 0, r10 := r.childRsp } := by
    have hpatch := r.patch
    unfold childRsp
    split at hpatch
    next h0 =>
      rw [if_pos h0, ← Option.some.inj hpatch]
      exact ⟨ht1, hc1⟩
    next h0 =>
      obtain ⟨htasks, hc2⟩ := Kernel.setChildStack_child hpatch ht1 hc1
      rw [if_neg h0, htasks]
      exact ⟨ht1, hc2⟩
  obtain ⟨ht2, hc2⟩ := hpatched
  obtain ⟨t3, ht3, hrsp3⟩ := r.leaving_kept.task t1 ht2
  refine ⟨t3, ht3, ?_⟩
  rw [hrsp3]
  exact hc2.congr (r.leaving_kept.mem t1 ht2)

theorem switching_child (r : ForkRun addr lstar) :
    ForkedChild r.switching.mem r.before.code.forkReturnTrampoline (r.switching.regs .rsi).toNat
      { userFrame r.caller with rax := 0, r10 := r.childRsp } := by
  obtain ⟨t, ht, hc⟩ := r.leaving_child
  obtain ⟨t', ht', hrsp⟩ := nextTaskSwitch_rsp r.switch
  rw [r.first, ht] at ht'
  obtain rfl := Option.some.inj ht'
  have hhigh := hc.high
  rw [r.switching_mem, r.switching_rsi, hrsp, BitVec.toNat_ofNat, Nat.mod_eq_of_lt (by omega)]
  exact hc

theorem child_regs (r : ForkRun addr lstar) :
    r.child.regs = { userFrame r.caller with rax := 0, r10 := r.childRsp }.regs :=
  firstReturn_regs addr r.apart r.switching_child

end ForkRun

/-- **A forked child resumes with the parent's registers, but for `r10`.** It
starts at the trampoline and comes to user mode where the parent's own return
does, with the same flags, 0 in `rax`, its stack pointer the parent's or
`child_stack`, and every register other than `rax`, `rsp` and `r10` as the
parent's return restores it. `r10` holds the stack pointer in both, so it is the
parent's exactly when the child has no stack of its own. -/
theorem forked_child_resumes (addr : CpuVar → Word) (lstar : Word) (r : ForkRun addr lstar) :
    (run (cpuLayout addr) r.switching switchTo).vars .rip = r.before.code.forkReturnTrampoline ∧
    r.child.regs .rax = 0 ∧
    r.child.regs .rsp = (if r.childStack = 0 then r.caller.regs .rsp else r.childStack) ∧
    r.parent.regs .rsp = r.caller.regs .rsp ∧
    r.child.vars .rip = r.parent.vars .rip ∧ r.child.vars .rflags = r.parent.vars .rflags ∧
    (∀ q, q ≠ .rax → q ≠ .rsp → q ≠ .r10 → r.child.regs q = r.parent.regs q) ∧
    ((∀ q, q ≠ .rax → q ≠ .rsp → r.child.regs q = r.parent.regs q) ↔
      r.childStack = 0 ∨ r.childStack = r.caller.regs .rsp) := by
  have hchild := r.child_regs
  have hparent := r.parent_regs
  have hother : ∀ q, q ≠ .rax → q ≠ .rsp → q ≠ .r10 → r.child.regs q = r.parent.regs q := by
    intro q hax hsp h10
    rw [hchild, hparent]
    cases q <;> first | rfl | contradiction
  refine ⟨(switchTo_child addr r.apart r.switching_child).1, congrFun hchild .rax, congrFun hchild .rsp,
    congrFun hparent .rsp, ?_, ?_, hother, ?_⟩
  · exact (firstReturn_vars addr).1.trans ((hother .rcx (by decide) (by decide) (by decide)).trans returned_vars.1.symm)
  · refine (firstReturn_vars addr).2.trans (Eq.trans ?_ returned_vars.2.symm)
    exact congrArg sysretFlags (hother .r11 (by decide) (by decide) (by decide))
  · have hr10 : r.child.regs .r10 = r.parent.regs .r10 ↔ r.childStack = 0 ∨ r.childStack = r.caller.regs .rsp := by
      rw [hchild, hparent]
      show r.childRsp = r.caller.regs .rsp ↔ _
      unfold ForkRun.childRsp
      split
      next h0 => exact iff_of_true rfl (.inl h0)
      next h0 => exact ⟨.inr, fun h => h.resolve_left h0⟩
    rw [← hr10]
    refine ⟨fun h => h .r10 (by decide) (by decide), fun h10 q hax hsp => ?_⟩
    by_cases hq : q = .r10
    · rw [hq]
      exact h10
    · exact hother q hax hsp hq

/-- A kernel with its main task; the frames from 2 on are free. -/
def forkingKernel (mem : Mem) : Kernel :=
  (Kernel.statics
    { pmm := { bitmap := fun i => if i = 0 then 3 else 0, totalFrames := maxFrames, freeFrames := maxFrames - 2 }, mem }
    ⟨0, 0⟩ 0).initMainTask 0

theorem forkingKernel_mem (mem : Mem) : (forkingKernel mem).phys.mem = mem := rfl

/-- The parent in its handler, on a kernel stack in frame 1. -/
def forkingCaller : CpuState := entered (fun _ => 0) 0 (callerWith 4)

/-- The child is spawned, given its stack and switched to. -/
def forkedSwitch (childStack : Word) : Option (Slot × Kernel × Kernel × Kernel.SwitchTo × Kernel) :=
  ((forkingKernel forkingCaller.mem).spawnForkedTask (framePointer (callerWith 4)) 0).bind fun x =>
    (if childStack = 0 then some x.2 else x.2.setChildStack x.1 childStack).bind fun k =>
      k.nextTaskSwitch.map fun y => (x.1, x.2, k, y)

/-- The kernel's machine at that switch. -/
def switchingTo (mem : Mem) (rsp : Nat) : CpuState where
  regs := Function.update (Function.update (Function.update (fun _ => 0) .rsi (BitVec.ofNat 64 rsp))
    .rsp (BitVec.ofNat 64 (physicalOffset + 0x1800))) .rdi (BitVec.ofNat 64 (physicalOffset + 0x100))
  vars := fun _ => 0
  mem

theorem switchingTo_apart (mem : Mem) : SwitchApart (switchingTo mem (physicalOffset + 0x5F48)) := by
  have hrsi : (switchingTo mem (physicalOffset + 0x5F48)).regs .rsi = BitVec.ofNat 64 (physicalOffset + 0x5F48) := rfl
  have hrsp : (switchingTo mem (physicalOffset + 0x5F48)).regs .rsp = BitVec.ofNat 64 (physicalOffset + 0x1800) := rfl
  have hrdi : (switchingTo mem (physicalOffset + 0x5F48)).regs .rdi = BitVec.ofNat 64 (physicalOffset + 0x100) := rfl
  constructor
  · rw [hrsp]
    decide
  · rw [hrsp, hrsi]
    decide
  · rw [hrdi, hrsi]
    decide

theorem forkRun_of_forkedSwitch (childStack : Word)
    (h : (forkedSwitch childStack).map (fun x => (x.1, x.2.2.2.1.rsp, x.2.2.2.2.current)) =
      some (1, physicalOffset + 0x5F48, 1)) :
    ∃ r : ForkRun (fun _ => 0) 0, r.caller = callerWith 4 ∧ r.childStack = childStack := by
  obtain ⟨⟨slot, spawned, patched, sw, switched⟩, hx, he⟩ := Option.map_eq_some_iff.mp h
  obtain ⟨rfl, hrsp, hcur⟩ : slot = 1 ∧ sw.rsp = physicalOffset + 0x5F48 ∧ switched.current = 1 := by simpa using he
  obtain ⟨⟨slot', k1⟩, hspawn, hx⟩ := Option.bind_eq_some_iff.mp hx
  obtain ⟨k2, hpatch, hx⟩ := Option.bind_eq_some_iff.mp hx
  obtain ⟨⟨sw', k3⟩, hswitch, hx⟩ := Option.map_eq_some_iff.mp hx
  obtain ⟨rfl, rfl, rfl, rfl, rfl⟩ : slot' = 1 ∧ k1 = spawned ∧ k2 = patched ∧ sw' = sw ∧ k3 = switched := by
    simpa using hx
  refine ⟨
    { caller := callerWith 4
      stack := callerWith_stack 4
      spawning := forkingCaller
      before := forkingKernel forkingCaller.mem
      spawning_kept := .refl _
      before_mem := forkingKernel_mem _
      used := fun x h1 h2 => ?_
      pml4 := 0
      slot := 1
      spawned := k1
      spawn := hspawn
      childStack
      patching := k1
      patched := k2
      patching_kept := .refl ..
      patch := hpatch
      leaving := k2
      switched := k3
      sw := sw'
      leaving_kept := .refl ..
      switch := hswitch
      first := hcur
      switching := switchingTo k2.phys.mem sw'.rsp
      switching_mem := rfl
      switching_rsi := rfl
      apart := hrsp ▸ switchingTo_apart _
      returning := forkingCaller
      returning_kept := .refl _ }, rfl, rfl⟩
  have hframe : v2p (framePointer (callerWith 4)) = 0x1F80 := by decide +kernel
  have hpage : x / pageSize = 1 := by
    rw [hframe] at h1 h2
    unfold SyscallFrame.wordCount at h2
    unfold pageSize
    omega
  rw [hpage]
  decide +kernel

theorem forked_child_resumes_fork :
    ∃ r : ForkRun (fun _ => 0) 0, r.caller = callerWith 4 ∧
      ∀ q, q ≠ .rax → q ≠ .rsp → r.child.regs q = r.parent.regs q := by
  obtain ⟨r, hcaller, hstack⟩ := forkRun_of_forkedSwitch 0 (by decide +kernel)
  exact ⟨r, hcaller, (forked_child_resumes _ _ r).2.2.2.2.2.2.2.mpr (.inl hstack)⟩

/-- A child with a stack of its own has it in `r10` too, where the parent's
return leaves the parent's. -/
theorem cloned_child_r10 :
    ∃ r : ForkRun (fun _ => 0) 0, r.childStack = 0x70000000 ∧
      r.child.regs .r10 = 0x70000000 ∧ r.parent.regs .r10 = 0x7FFFFF00 := by
  obtain ⟨r, hcaller, hstack⟩ := forkRun_of_forkedSwitch 0x70000000 (by decide +kernel)
  refine ⟨r, hstack, ?_, ?_⟩
  · rw [r.child_regs]
    show r.childRsp = _
    rw [ForkRun.childRsp, hstack]
    rfl
  · rw [r.parent_regs, hcaller]
    rfl

end CoreOS
