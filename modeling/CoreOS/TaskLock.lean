/-
The lock of the task table and the timer handler.
-/
import CoreOS.InSyscall

namespace CoreOS

open ByteMem
open Function (update_self update_of_ne)

/-! ## The machine -/

/-- The calls under which `TASKS` is taken, apart from the switch itself; the
lock is held from their first statement to their last. -/
inductive TaskCall
  | addTask (entry : Word)
  | spawnUserTask (entry stackTop : Word) (pml4 : Nat)
  | spawnForkedTask (syscallFrame pml4 : Nat)
  | killTask (slot : Slot)
  | currentPml4
  | taskFrameMut (slot : Slot)

/-- What a task executes: ring-0 code outside of system calls, as in the boot
task, `run_shell` and the tasks of `add_task`; a user program; a system call;
`default_exception`; or the loop around `hlt` in which tasks end. -/
inductive Code
  | kernelTask
  | user
  | syscall
  | exception
  | halting
  deriving DecidableEq

/-- The rest of a function that has switched to another task: of the timer
handler, or of a `yield_now` with the flag it will put back. -/
inductive SwitchFrame
  | tick
  | yieldNow (prev : Bool)
  deriving DecidableEq

/-- One processor. `frames` are, for each task, the switches that it is in, the
innermost first, and `handlerWaits` says that the timer handler spins on the
lock that the code below it holds. -/
structure IrqCpu where
  kernel : Kernel
  interrupts : Bool
  inSyscall : Bool
  ticks : Nat
  held : Option TaskCall
  code : Slot → Code
  frames : Slot → List SwitchFrame
  handlerWaits : Bool

/-- What happens next: a timer interrupt, the end of the innermost switch of the
current task, or a step of the code that it executes. The stack pointers are
those that a switch saves. -/
inductive IrqOp
  | tick (rsp : Nat)
  | resume
  | setInterrupts (on : Bool)
  | lock (call : TaskCall)
  | unlock
  | syscallEntry
  | sysret
  | yieldNow (rsp : Nat)
  | exit
  | exception
  | halt

namespace TaskCall

/-- Which code makes which calls. -/
def madeBy : TaskCall → Code → Bool
  | _, .kernelTask | _, .syscall => true
  | killTask _, .exception => true
  | _, _ => false

/-- The task table after the call, with the code that a new task starts in. -/
def run (k : Kernel) : TaskCall → Kernel × Code
  | addTask entry => (((k.addTask entry).map Prod.snd).getD k, .kernelTask)
  | spawnUserTask entry stackTop pml4 => (((k.spawnUserTask entry stackTop pml4).map Prod.snd).getD k, .user)
  | spawnForkedTask syscallFrame pml4 => (((k.spawnForkedTask syscallFrame pml4).map Prod.snd).getD k, .user)
  | killTask slot => (k.killTask slot, .user)
  | currentPml4 | taskFrameMut _ => (k, .user)

theorem spawnTask_current (k : Kernel) (pml4 : Nat) (layout : Mem → Nat → Mem × Nat) :
    (((k.spawnTask pml4 layout).map Prod.snd).getD k).current = k.current := by
  cases h : k.spawnTask pml4 layout with
  | none => rfl
  | some r => exact (Kernel.spawnTask_task h).2.1

theorem run_current (k : Kernel) (call : TaskCall) : (call.run k).1.current = k.current := by
  cases call with
  | addTask | spawnUserTask | spawnForkedTask => exact spawnTask_current k ..
  | killTask slot => exact (Kernel.killTask_kills k slot).current
  | currentPml4 | taskFrameMut => rfl

theorem run_code (k : Kernel) (call : TaskCall) : (call.run k).2 ≠ .syscall := by
  cases call <;> nofun

end TaskCall

/-- Which code takes which step. -/
def IrqOp.madeBy : IrqOp → Code → Bool
  | lock call, c => call.madeBy c
  | setInterrupts _, c | yieldNow _, c => c == .kernelTask || c == .syscall
  | syscallEntry, c => c == .user
  | sysret, c | exit, c => c == .syscall
  | exception, c => c == .kernelTask || c == .user || c == .syscall
  | halt, c => c == .exception
  | tick _, _ | resume, _ | unlock, _ => false

namespace IrqCpu

/-- The current task goes on with other code. -/
def goto (s : IrqCpu) (c : Code) : IrqCpu := { s with code := Function.update s.code s.kernel.current c }

def setFrames (s : IrqCpu) (fs : List SwitchFrame) : IrqCpu :=
  { s with frames := Function.update s.frames s.kernel.current fs }

/-- `next_task_switch` and `switch_to`, which enables interrupts in the task it
goes to. -/
def switchTask (s : IrqCpu) (rsp : Nat) (f : SwitchFrame) : IrqCpu :=
  let k := s.kernel.contextSwitch rsp
  if k.current = s.kernel.current then { s with kernel := k }
  else { s.setFrames (f :: s.frames s.kernel.current) with kernel := k, interrupts := true }

/-- `pit_handler`, `tick` and `try_switch`. -/
def tick (s : IrqCpu) (rsp : Nat) : IrqCpu :=
  let s := { s with ticks := wrappingAdd s.ticks 1 }
  if s.ticks % 10 = 0 ∧ s.inSyscall = false then
    if s.held.isSome then { s with handlerWaits := true } else s.switchTask rsp .tick
  else s

/-- `yield_now`. The flag is clear for its `try_switch`; when that finds no
other task, the rest of the function follows at once. -/
def yieldNow (s : IrqCpu) (rsp : Nat) : IrqCpu :=
  let prev := s.inSyscall
  let t := { s with interrupts := false, inSyscall := false }.switchTask rsp (.yieldNow prev)
  if t.kernel.current = s.kernel.current then { t with inSyscall := prev, interrupts := true } else t

/-- What is left of the function that switched, in the task that runs again:
`yield_now` puts the flag back and enables interrupts, the handler returns to
code that had them enabled. -/
def resume (s : IrqCpu) : Option IrqCpu :=
  match s.frames s.kernel.current with
  | [] => none
  | .tick :: fs => some { s.setFrames fs with interrupts := true }
  | .yieldNow prev :: fs => some { s.setFrames fs with interrupts := true, inSyscall := prev }

/-- The end of a call: a task that was not there before starts in no switch. -/
def unlock (s : IrqCpu) (call : TaskCall) : IrqCpu :=
  let (k, c) := call.run s.kernel
  let new := fun x => (s.kernel.tasks x).isNone && (k.tasks x).isSome
  { s with
    kernel := k
    held := none
    code := fun x => if new x then c else s.code x
    frames := fun x => if new x then [] else s.frames x }

/-- A step of the code that the current task executes, when it holds no lock. -/
def codeStep (s : IrqCpu) : IrqOp → IrqCpu
  | .lock call => { s with held := some call }
  -- `sti` and `cli`, as in `init_runtime` and `wait_for_event`
  | .setInterrupts on => { s with interrupts := on }
  | .yieldNow rsp => s.yieldNow rsp
  | .syscallEntry => { s.goto .syscall with interrupts := false, inSyscall := true }
  | .sysret => { s.goto .user with interrupts := true, inSyscall := false }
  -- the last steps of `syscall_exit`, after its `kill_task`
  | .exit => { s.goto .halting with interrupts := true, inSyscall := false }
  -- `default_exception` starts with `sti`
  | .exception => { s.goto .exception with interrupts := true }
  | .halt => s.goto .halting
  | .tick _ | .resume | .unlock => s

/-- One step; none once the handler spins. Code that holds the lock gives it
back before it does anything else. -/
def step (s : IrqCpu) (op : IrqOp) : Option IrqCpu :=
  if s.handlerWaits then none
  else
    match op, s.held with
    | .tick rsp, _ => if s.interrupts then some (s.tick rsp) else none
    | .resume, _ => s.resume
    | .unlock, some call => some (s.unlock call)
    | op, none => if s.frames s.kernel.current = [] ∧ op.madeBy (s.code s.kernel.current) then some (s.codeStep op) else none
    | _, some _ => none

/-- The main task is registered, and interrupts are still off. -/
def start (phys : Phys) (code : CodeAddrs) (kernelPml4 stackBase : Nat) : IrqCpu where
  kernel := (Kernel.statics phys code kernelPml4).initMainTask stackBase
  interrupts := false
  inSyscall := false
  ticks := 0
  held := none
  code := fun _ => .kernelTask
  frames := fun _ => []
  handlerWaits := false

/-- The condition on a step: outside of system calls the lock is taken only with
interrupts off. `IN_SYSCALL` is set too while a fault of a system call is
handled. -/
def LocksGuarded (s : IrqCpu) : IrqOp → Prop
  | .lock _ => s.code s.kernel.current ≠ .syscall → s.interrupts = false ∨ s.inSyscall = true
  | _ => True

instance {s : IrqCpu} {op : IrqOp} : Decidable (s.LocksGuarded op) := by
  unfold LocksGuarded
  split <;> infer_instance

/-! ## What keeps the handler from waiting -/

/-- The lock is held only where the handler does not take it, by a task that is
in no switch. System calls run with the flag set: the one that is in no switch
is the current task's, and the others are in a `yield_now` that will put the
flag back. -/
structure Guarded (s : IrqCpu) : Prop where
  held : s.held.isSome → s.frames s.kernel.current = [] ∧ (s.interrupts = false ∨ s.inSyscall = true)
  inside : ∀ {x}, s.code x = .syscall → s.frames x = [] → x = s.kernel.current ∧ s.inSyscall = true
  yielded : ∀ {x f}, s.code x = .syscall → (s.frames x).getLast? = some f → f = .yieldNow true
  waits : s.handlerWaits = false

variable {s t : IrqCpu}

theorem Guarded.start (phys : Phys) (code : CodeAddrs) (kernelPml4 stackBase : Nat) :
    (IrqCpu.start phys code kernelPml4 stackBase).Guarded where
  held := nofun
  inside := nofun
  yielded := nofun
  waits := rfl

namespace Guarded

theorem goto {c : Code} {i b : Bool} (h : s.Guarded) (hheld : s.held = none) (hframes : s.frames s.kernel.current = [])
    (hc : c = .syscall → b = true) : Guarded { s.goto c with interrupts := i, inSyscall := b } where
  held := fun hsome => by simp [IrqCpu.goto, hheld] at hsome
  inside := by
    intro x hx hfr
    by_cases hxc : x = s.kernel.current
    · subst hxc
      simp only [IrqCpu.goto, update_self] at hx
      exact ⟨rfl, hc hx⟩
    · simp only [IrqCpu.goto, update_of_ne hxc] at hx
      exact absurd (h.inside hx hfr).1 hxc
  yielded := by
    intro x f hx hf
    by_cases hxc : x = s.kernel.current
    · subst hxc
      replace hf : (s.frames s.kernel.current).getLast? = some f := hf
      rw [hframes] at hf
      cases hf
    · simp only [IrqCpu.goto, update_of_ne hxc] at hx
      exact h.yielded hx hf
  waits := h.waits

theorem switched {k : Kernel} {f : SwitchFrame} {i b : Bool} (h : s.Guarded) (hheld : s.held = none)
    (hf : s.code s.kernel.current = .syscall → s.frames s.kernel.current = [] → f = .yieldNow true) :
    Guarded { s.setFrames (f :: s.frames s.kernel.current) with kernel := k, interrupts := i, inSyscall := b } where
  held := fun hsome => by simp [setFrames, hheld] at hsome
  inside := by
    -- no task in a system call is left without a switch
    intro x hx hfr
    by_cases hxc : x = s.kernel.current
    · subst hxc
      simp only [setFrames, update_self] at hfr
      cases hfr
    · simp only [setFrames, update_of_ne hxc] at hfr
      exact absurd (h.inside hx hfr).1 hxc
  yielded := by
    intro x g hx hg
    by_cases hxc : x = s.kernel.current
    · subst hxc
      simp only [setFrames, update_self] at hg
      cases hfr : s.frames s.kernel.current with
      | nil =>
        rw [hfr] at hg
        cases hg
        exact hf hx hfr
      | cons g' fs =>
        rw [hfr, List.getLast?_cons_cons, ← hfr] at hg
        exact h.yielded hx hg
    · simp only [setFrames, update_of_ne hxc] at hg
      exact h.yielded hx hg
  waits := h.waits

theorem stays {k : Kernel} {i : Bool} (h : s.Guarded) (hheld : s.held = none) (hk : k.current = s.kernel.current) :
    Guarded { s with kernel := k, interrupts := i } where
  held := fun hsome => by simp [hheld] at hsome
  inside := fun hx hfr => hk ▸ h.inside hx hfr
  yielded := h.yielded
  waits := h.waits

theorem tick (h : s.Guarded) (hi : s.interrupts = true) (rsp : Nat) : (s.tick rsp).Guarded := by
  have hcount : Guarded { s with ticks := wrappingAdd s.ticks 1 } := ⟨h.held, h.inside, h.yielded, h.waits⟩
  unfold IrqCpu.tick
  dsimp only
  split
  next hdue =>
    split
    next hheld =>
      -- the lock is held with interrupts on, so inside a system call
      rcases (h.held hheld).2 with hoff | hflag
      · rw [hi] at hoff
        cases hoff
      · rw [hdue.2] at hflag
        cases hflag
    next hheld =>
      replace hheld : s.held = none := by simpa using hheld
      unfold switchTask
      dsimp only
      split
      next hk => exact hcount.stays hheld hk
      · refine hcount.switched hheld fun hx hfr => ?_
        have hflag := (h.inside hx hfr).2
        rw [hdue.2] at hflag
        cases hflag
  · exact hcount

theorem yieldNow (h : s.Guarded) (hheld : s.held = none) (rsp : Nat) :
    (s.yieldNow rsp).Guarded := by
  unfold IrqCpu.yieldNow switchTask
  dsimp only
  by_cases hk : (s.kernel.contextSwitch rsp).current = s.kernel.current
  · simp only [if_pos hk]
    exact h.stays hheld hk
  · simp only [if_neg hk]
    refine h.switched hheld fun hx hfr => ?_
    rw [(h.inside hx hfr).2]

theorem popped {f : SwitchFrame} {fs : List SwitchFrame} {b : Bool} (h : s.Guarded)
    (hframes : s.frames s.kernel.current = f :: fs) (hb : f = .yieldNow true → b = true) :
    Guarded { s.setFrames fs with interrupts := true, inSyscall := b } where
  held := by
    intro hsome
    have hnil := (h.held hsome).1
    rw [hframes] at hnil
    cases hnil
  inside := by
    intro x hx hfr
    by_cases hxc : x = s.kernel.current
    · subst hxc
      simp only [setFrames, update_self] at hfr
      subst hfr
      exact ⟨rfl, hb (h.yielded hx (by rw [hframes]; rfl))⟩
    · simp only [setFrames, update_of_ne hxc] at hfr
      exact absurd (h.inside hx hfr).1 hxc
  yielded := by
    intro x g hx hg
    refine h.yielded (x := x) hx ?_
    by_cases hxc : x = s.kernel.current
    · subst hxc
      simp only [setFrames, update_self] at hg
      rw [hframes, List.getLast?_cons, hg]
      rfl
    · simpa only [setFrames, update_of_ne hxc] using hg
  waits := h.waits

theorem resume (h : s.Guarded) (ht : s.resume = some t) : t.Guarded := by
  unfold IrqCpu.resume at ht
  split at ht
  · cases ht
  next fs hframes =>
    cases ht
    exact h.popped hframes nofun
  next prev fs hframes =>
    cases ht
    exact h.popped hframes fun hprev => (SwitchFrame.yieldNow.inj hprev)

theorem unlock (h : s.Guarded) (call : TaskCall) : (s.unlock call).Guarded where
  held := nofun
  inside := by
    intro x hx hfr
    simp only [IrqCpu.unlock] at hx hfr
    split at hx
    · exact absurd hx (call.run_code s.kernel)
    next hnew =>
      rw [if_neg hnew] at hfr
      exact ⟨(h.inside hx hfr).1.trans (call.run_current s.kernel).symm, (h.inside hx hfr).2⟩
  yielded := by
    intro x f hx hf
    simp only [IrqCpu.unlock] at hx hf
    split at hx
    · exact absurd hx (call.run_code s.kernel)
    next hnew =>
      rw [if_neg hnew] at hf
      exact h.yielded hx hf
  waits := h.waits

theorem lock (h : s.Guarded) (hframes : s.frames s.kernel.current = []) (call : TaskCall)
    (hC : s.LocksGuarded (.lock call)) : Guarded { s with held := some call } where
  held := by
    refine fun _ => ⟨hframes, ?_⟩
    by_cases hcode : s.code s.kernel.current = .syscall
    · exact .inr (h.inside hcode hframes).2
    · exact hC hcode
  inside := h.inside
  yielded := h.yielded
  waits := h.waits

theorem codeStep {op : IrqOp} (h : s.Guarded) (hheld : s.held = none) (hframes : s.frames s.kernel.current = [])
    (hC : s.LocksGuarded op) : (s.codeStep op).Guarded := by
  cases op with
  | tick | resume | unlock => exact h
  | lock call => exact h.lock hframes call hC
  | setInterrupts => exact h.stays hheld rfl
  | yieldNow rsp => exact h.yieldNow hheld rsp
  | syscallEntry => exact h.goto hheld hframes fun _ => rfl
  | sysret | exit | exception | halt => exact h.goto hheld hframes nofun

theorem step {op : IrqOp} (h : s.Guarded) (hC : s.LocksGuarded op) (ht : s.step op = some t) : t.Guarded := by
  unfold IrqCpu.step at ht
  rw [if_neg (by simp [h.waits])] at ht
  split at ht
  next rsp =>
    split at ht
    next hi =>
      cases ht
      exact h.tick hi rsp
    · cases ht
  · exact h.resume ht
  next call _ =>
    cases ht
    exact h.unlock call
  next hheld =>
    split at ht
    next hmade =>
      cases ht
      exact h.codeStep hheld hmade.1 hC
    · cases ht
  · cases ht

end Guarded

/-! ## What makes it wait -/

theorem step_tick_of_due (hw : s.handlerWaits = false) (hi : s.interrupts = true) (hf : s.inSyscall = false)
    (hheld : s.held.isSome) (hdue : wrappingAdd s.ticks 1 % 10 = 0) (rsp : Nat) :
    s.step (.tick rsp) = some { s with ticks := wrappingAdd s.ticks 1, handlerWaits := true } := by
  simp [step, tick, hw, hi, hf, hheld, hdue]

theorem step_tick_of_not_due (hw : s.handlerWaits = false) (hi : s.interrupts = true)
    (hdue : wrappingAdd s.ticks 1 % 10 ≠ 0) (rsp : Nat) :
    s.step (.tick rsp) = some { s with ticks := wrappingAdd s.ticks 1 } := by
  simp [step, tick, hw, hi, hdue]

theorem ticks_reach_held (rsp j : Nat) (s : IrqCpu) (hw : s.handlerWaits = false) (hi : s.interrupts = true)
    (hf : s.inSyscall = false) (hheld : s.held.isSome) (hdue : wrappingAdd s.ticks (j + 1) % 10 = 0) :
    ∃ (rsps : List Nat) (t : IrqCpu), Lts.exec step s (rsps.map IrqOp.tick) = some t ∧ t.handlerWaits = true := by
  by_cases hnow : wrappingAdd s.ticks 1 % 10 = 0
  · refine ⟨[rsp], { s with ticks := wrappingAdd s.ticks 1, handlerWaits := true }, ?_, rfl⟩
    exact Lts.exec_cons.mpr ⟨_, step_tick_of_due hw hi hf hheld hnow rsp, rfl⟩
  · -- the tick only counts, and one tick less is left
    cases j with
    | zero => exact absurd hdue hnow
    | succ j =>
      obtain ⟨rsps, t, ht, hwaits⟩ := ticks_reach_held rsp j { s with ticks := wrappingAdd s.ticks 1 } hw hi hf hheld
        (by rwa [Cpu.wrappingAdd_next])
      exact ⟨rsp :: rsps, t, Lts.exec_cons.mpr ⟨_, step_tick_of_not_due hw hi hnow rsp, ht⟩, hwaits⟩

theorem step_lock {call : TaskCall} (ht : s.step (.lock call) = some t) :
    s.handlerWaits = false ∧ t = { s with held := some call } := by
  unfold step at ht
  split at ht
  · cases ht
  next hw =>
    refine ⟨by simpa using hw, ?_⟩
    cases hheld : s.held with
    | some =>
      simp only [hheld] at ht
      cases ht
    | none =>
      simp only [hheld] at ht
      split at ht
      · cases ht
        rfl
      · cases ht

/-- **The timer handler and the lock.** From boot on, as long as the lock is
taken outside of system calls with interrupts off, the handler never finds it
held by the code it interrupts, whatever system calls do; and wherever it is
taken otherwise, timer ticks alone lead to a handler that waits for good. -/
theorem handler_waits_iff_unguarded (phys : Phys) (code : CodeAddrs) (kernelPml4 stackBase : Nat) (ops : List IrqOp)
    (s : IrqCpu) (hrun : Lts.exec step (start phys code kernelPml4 stackBase) ops = some s) :
    (Lts.Meets step LocksGuarded (start phys code kernelPml4 stackBase) ops → s.handlerWaits = false) ∧
      ∀ call t, s.step (.lock call) = some t → ¬ s.LocksGuarded (.lock call) →
        ∃ (rsps : List Nat) (u : IrqCpu), Lts.exec step t (rsps.map IrqOp.tick) = some u ∧ u.handlerWaits = true := by
  constructor
  · intro hmeets
    have hstep : ∀ s op t, Guarded s → s.LocksGuarded op → s.step op = some t → Guarded t :=
      fun s op t h hC ht => h.step hC ht
    exact (Lts.exec_invariant_of_meets Guarded hstep (.start phys code kernelPml4 stackBase) hmeets hrun).waits
  · intro call t ht hC
    obtain ⟨hw, rfl⟩ := step_lock ht
    obtain ⟨hi, hf⟩ : s.interrupts = true ∧ s.inSyscall = false := by
      simp only [LocksGuarded, Classical.not_imp, not_or, Bool.not_eq_false, Bool.not_eq_true] at hC
      exact hC.2
    obtain ⟨j, hj⟩ := Cpu.exists_due_tick s.ticks
    exact ticks_reach_held 0 j { s with held := some call } hw hi hf rfl hj

end IrqCpu

/-- The boot task spawns a program before it enables interrupts, and is
preempted for it. -/
def intoProgram : List IrqOp :=
  [.lock (.spawnUserTask 0 0 0), .unlock, .setInterrupts true] ++ List.replicate 10 (.tick 0)

/-- A system call of the program yields to the boot task and goes on afterwards,
with interrupts enabled, to kill a task, and the ticks that arrive meanwhile find
the flag set. When the program faults instead, the handler of exceptions kills
it with the flag clear. -/
theorem handler_waits_iff_unguarded_yielded :
    (∃ s, Lts.exec IrqCpu.step (.start allFree ⟨0, 0⟩ 0 0) (intoProgram ++ [.syscallEntry, .yieldNow 0, .resume] ++
        List.replicate 10 (.tick 0) ++ [.resume, .lock (.killTask 0)] ++ List.replicate 10 (.tick 0)) = some s ∧
      s.interrupts = true ∧ s.held.isSome ∧ s.handlerWaits = false) ∧
    ∃ s t, Lts.exec IrqCpu.step (.start allFree ⟨0, 0⟩ 0 0) (intoProgram ++ [.exception]) = some s ∧
      s.step (.lock (.killTask 1)) = some t ∧
      ∃ (rsps : List Nat) (u : IrqCpu), Lts.exec IrqCpu.step t (rsps.map .tick) = some u ∧ u.handlerWaits = true := by
  constructor
  · have hrun : (Lts.exec IrqCpu.step (.start allFree ⟨0, 0⟩ 0 0) (intoProgram ++
          [.syscallEntry, .yieldNow 0, .resume] ++ List.replicate 10 (.tick 0) ++ [.resume, .lock (.killTask 0)] ++
          List.replicate 10 (.tick 0))).map (fun s => (s.interrupts, s.held.isSome)) = some (true, true) := by
      decide +kernel
    obtain ⟨s, hs, hobs⟩ := Option.map_eq_some_iff.mp hrun
    obtain ⟨hi, hheld⟩ := Prod.mk.inj hobs
    exact ⟨s, hs, hi, hheld, (IrqCpu.handler_waits_iff_unguarded allFree ⟨0, 0⟩ 0 0 _ s hs).1 (by decide +kernel)⟩
  · have hrun : (Lts.exec IrqCpu.step (.start allFree ⟨0, 0⟩ 0 0) (intoProgram ++ [.exception])).map
        (fun s => ((s.step (.lock (.killTask 1))).isSome, decide (s.LocksGuarded (.lock (.killTask 1))))) =
          some (true, false) := by decide +kernel
    obtain ⟨s, hs, hobs⟩ := Option.map_eq_some_iff.mp hrun
    simp only [Prod.mk.injEq, decide_eq_false_iff_not, Option.isSome_iff_exists] at hobs
    obtain ⟨⟨t, ht⟩, hC⟩ := hobs
    exact ⟨s, t, hs, ht, (IrqCpu.handler_waits_iff_unguarded allFree ⟨0, 0⟩ 0 0 _ s hs).2 _ t ht hC⟩

/-- **The boot task deadlocks.** It adds its first task after `sti`, and starts
programs after it: a tick that is due while the lock is held leaves the timer
handler spinning. So does one while a program that faulted is killed. -/
theorem boot_task_deadlocks :
    (∀ call ∈ [TaskCall.addTask 0, .spawnUserTask 0 0 0],
      (Lts.exec IrqCpu.step (.start allFree ⟨0, 0⟩ 0 0)
        ([.setInterrupts true, .lock call] ++ List.replicate 10 (.tick 0))).map IrqCpu.handlerWaits = some true) ∧
    (Lts.exec IrqCpu.step (.start allFree ⟨0, 0⟩ 0 0)
      (intoProgram ++ [.exception, .lock (.killTask 1)] ++ List.replicate 10 (.tick 0))).map IrqCpu.handlerWaits =
        some true := by
  decide +kernel

end CoreOS
