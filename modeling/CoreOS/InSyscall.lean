/-
The `IN_SYSCALL` flag: system calls are not preempted, and a task that waits
inside one has to give the processor up itself.
-/
import CoreOS.Scheduler
import CoreOS.SyscallVfs

namespace CoreOS

open ByteMem
open Function (update update_self update_of_ne)

/-! ## The machine -/

/-- The loops in which a system call waits. -/
inductive WaitLoop
  | pipeRead
  | ttyRead
  | futexWait
  | waitpid
  | sleep
  deriving DecidableEq

/-- Whether a loop waits with `yield_now`; the others wait with `wait_for_event`. -/
def WaitLoop.yields : WaitLoop → Bool
  | futexWait | waitpid | sleep => true
  | pipeRead | ttyRead => false

/-- Where a task is: outside of system calls, inside one, in a wait loop of one,
in a `yield_now` of that loop that has switched away, with the flag it will put
back, or halting for good. -/
inductive Place
  | outside
  | inside
  | waiting (w : WaitLoop)
  | yielded (w : WaitLoop) (prev : Bool)
  | halting
  deriving DecidableEq

structure Cpu where
  kernel : Kernel
  inSyscall : Bool
  ticks : Nat
  place : Slot → Place

/-- What happens next. `work` is what the current task does to the task table,
`world` what it does to anything else; `tick` is a timer interrupt, which may
arrive anywhere. The stack pointers are those that a switch saves. -/
inductive CpuOp
  | syscallEntry
  | sysret
  | work (op : SchedOp)
  | world (f : Kernel → Kernel)
  | wait (w : WaitLoop)
  | wake
  | yieldNow (rsp : Nat)
  | resume
  | tick (rsp : Nat)
  | exit (code : Int)
  | exitGroup (code : Int)
  | exception (vector : Nat)

/-- Exits and switches are steps of their own. -/
def SchedOp.works : SchedOp → Bool
  | exit _ | exitGroup _ | switch _ => false
  | _ => true

namespace Cpu

/-- The current task goes to `p`. -/
def goto (s : Cpu) (p : Place) : Cpu := { s with place := update s.place s.kernel.current p }

/-- Another kernel, in which new tasks begin outside of system calls. -/
def withKernel (s : Cpu) (k : Kernel) : Cpu :=
  { s with
    kernel := k
    place := fun x => if (s.kernel.tasks x).isNone && (k.tasks x).isSome then .outside else s.place x }

def trySwitch (s : Cpu) (rsp : Nat) : Cpu :=
  if s.inSyscall then s else { s with kernel := s.kernel.contextSwitch rsp }

/-- `pit_handler`, and the `tick` of the scheduler. -/
def tick (s : Cpu) (rsp : Nat) : Cpu :=
  let s := { s with ticks := wrappingAdd s.ticks 1 }
  if s.ticks % 10 = 0 then s.trySwitch rsp else s

/-- `yield_now` in the wait loop `w`. When it switches, the rest of it runs once
the task is switched to again. -/
def yieldNow (s : Cpu) (w : WaitLoop) (rsp : Nat) : Cpu :=
  let prev := s.inSyscall
  let t := { s with inSyscall := false }.trySwitch rsp
  if t.kernel.current = s.kernel.current then { t with inSyscall := prev }
  else { t with place := update s.place s.kernel.current (.yielded w prev) }

/-- One step; what the current task does depends on where it is. -/
def step (s : Cpu) (op : CpuOp) : Option Cpu :=
  match op, s.place s.kernel.current with
  | .tick rsp, _ => some (s.tick rsp)
  | .syscallEntry, .outside => some ({ s with inSyscall := true }.goto .inside)
  | .sysret, .inside => some ({ s with inSyscall := false }.goto .outside)
  | .work op, .outside | .work op, .inside =>
    if op.works then (SchedOp.step s.kernel op).map s.withKernel else none
  | .world f, .outside | .world f, .inside =>
    some { s with kernel := { f s.kernel with tasks := s.kernel.tasks, current := s.kernel.current } }
  | .wait w, .inside => some (s.goto (.waiting w))
  | .wake, .waiting _ => some (s.goto .inside)
  | .yieldNow rsp, .waiting w => if w.yields then some (s.yieldNow w rsp) else none
  | .resume, .yielded w prev => some ({ s with inSyscall := prev }.goto (.waiting w))
  | .exit code, .inside => some ({ s with kernel := syscallExit s.kernel code, inSyscall := false }.goto .halting)
  | .exitGroup code, .inside =>
    some ({ s with kernel := syscallExitGroup s.kernel code, inSyscall := false }.goto .halting)
  | .exception vector, .outside | .exception vector, .inside =>
    some ({ s with kernel := defaultException s.kernel vector }.goto .halting)
  | _, _ => none

/-- The main task is registered and runs. -/
def start (phys : Phys) (code : CodeAddrs) (kernelPml4 stackBase : Nat) : Cpu where
  kernel := (Kernel.statics phys code kernelPml4).initMainTask stackBase
  inSyscall := false
  ticks := 0
  place := fun _ => .outside

/-! ## Scheduling goes on -/

/-- What a `try_switch` of the step finds in `IN_SYSCALL`, when there is one. -/
def switchFlag (s : Cpu) : CpuOp → Option Bool
  | .yieldNow _ => some false
  | .tick _ => if wrappingAdd s.ticks 1 % 10 = 0 then some s.inSyscall else none
  | _ => none

/-- The step has a `try_switch` that finds the flag clear and selects another
task. -/
def SwitchesAt (s : Cpu) (op : CpuOp) : Prop :=
  s.switchFlag op = some false ∧ ∃ t, s.step op = some t ∧ t.kernel.current ≠ s.kernel.current

/-- Some step of the run does. -/
def SwitchesIn (s : Cpu) : List CpuOp → Prop
  | [] => False
  | op :: ops => s.SwitchesAt op ∨ ∃ t, s.step op = some t ∧ t.SwitchesIn ops

/-- One of the next `n` ticks is due. -/
def Due (s : Cpu) (n : Nat) : Prop := ∃ j, j < n ∧ wrappingAdd s.ticks (j + 1) % 10 = 0

end Cpu

def Kernel.OtherReady (k : Kernel) : Prop := ∃ s, s ≠ k.current ∧ ((k.tasks s).any fun t => t.state == .ready) = true

instance {k : Kernel} : Decidable k.OtherReady := Nat.decidableExistsFin _

/-- One iteration of a wait loop: its `yield_now`, if it has one, among the ticks
that arrive while it waits. -/
def WaitLoop.iteration (w : WaitLoop) (before : List Nat) (rsp : Nat) (after : List Nat) : List CpuOp :=
  before.map .tick ++ ((if w.yields then [.yieldNow rsp] else []) ++ after.map .tick)

/-- Neither a waiting task nor a dead one keeps the others from running. -/
structure Cpu.GoesOn (s : Cpu) : Prop where
  waiting : ∀ w, s.place s.kernel.current = .waiting w → s.kernel.OtherReady →
    ∀ before rsp after, s.Due (before.length + after.length) → s.SwitchesIn (w.iteration before rsp after)
  halting : ∀ t, s.place s.kernel.current = .halting → s.kernel.tasks s.kernel.current = some t → t.state = .dead →
    s.inSyscall = false ∧ (s.kernel.OtherReady → ∀ rsps : List Nat, s.Due rsps.length → s.SwitchesIn (rsps.map .tick))

/-- The condition on a step: a loop that waits with `wait_for_event` is entered
only when no other task is ready, and nothing faults inside a system call. -/
def Cpu.GivesWay (s : Cpu) : CpuOp → Prop
  | .wait w => s.place s.kernel.current = .inside → w.yields = true ∨ ¬ s.kernel.OtherReady
  | .exception _ => s.place s.kernel.current ≠ .inside
  | _ => True

instance {s : Cpu} {op : CpuOp} : Decidable (s.GivesWay op) :=
  match op with
  | .wait _ => inferInstanceAs (Decidable (_ → _))
  | .exception _ => inferInstanceAs (Decidable (_ ≠ _))
  | .syscallEntry | .sysret | .work _ | .world _ | .wake | .yieldNow _ | .resume | .tick _ | .exit _ | .exitGroup _ =>
    inferInstanceAs (Decidable True)

/-! ## Switches and exits of the task table -/

namespace Kernel

variable {k k' : Kernel}

theorem contextSwitch_cases (h : k.Scheduled) (rsp : Nat) :
    (k.contextSwitch rsp = k ∧ ¬ k.OtherReady) ∨
    ((k.contextSwitch rsp).current ≠ k.current ∧
      (∃ t, k.tasks (k.contextSwitch rsp).current = some t ∧ t.state = .ready) ∧
      ∀ s t', (k.contextSwitch rsp).tasks s = some t' → t'.state = .ready →
        ∃ t, k.tasks s = some t ∧ (t.state = .ready ∨ s = k.current ∧ t.state ≠ .dead)) := by
  unfold Kernel.contextSwitch
  cases hsw : k.nextTaskSwitch with
  | none =>
    refine .inl ⟨rfl, ?_⟩
    rintro ⟨s, -, hs⟩
    obtain ⟨t, ht, hr⟩ : ∃ t, k.tasks s = some t ∧ t.state = .ready := by simpa [Option.any_eq_true] using hs
    obtain ⟨sw, k1, hsome⟩ := nextTaskSwitch_isSome h ht hr
    rw [hsw] at hsome
    cases hsome
  | some r =>
    obtain ⟨sw, k1⟩ := r
    obtain ⟨next, t, hs⟩ := nextTaskSwitch_switched h hsw
    have hkills := saveRsp_kills k1 sw.saveRsp rsp
    dsimp only
    rw [hkills.current, hs.current]
    refine .inr ⟨hs.ne, ⟨t, hs.ready⟩, fun s t' ht' hr => ?_⟩
    obtain ⟨u, hu, -, hstate⟩ := hkills.old ht'
    replace hstate : u.state = .ready := by
      rcases hstate with hstate | hstate
      · exact hstate.symm.trans hr
      · rw [hr] at hstate
        cases hstate
    by_cases hsn : s = next
    · subst hsn
      cases hs.task.symm.trans hu
      cases hstate
    by_cases hsc : s = k.current
    · subst hsc
      obtain ⟨o, ho, -⟩ := h.current
      have hold := hs.old ho
      split at hold
      · rw [hold.1] at hu
        cases hu
      next hd => exact ⟨o, ho, .inr ⟨rfl, hd⟩⟩
    · rw [hs.other hsn hsc] at hu
      exact ⟨u, hu, .inl hstate⟩

/-- What ends the current task: others may be killed with it. -/
structure Ends (k k' : Kernel) : Prop where
  kills : k.Kills k'
  dead : ∃ t, k'.tasks k'.current = some t ∧ t.state = .dead

theorem Kills.ends (h : k.Scheduled) (hk : k.Kills k') : Ends k (k'.killTask k'.current) := by
  obtain ⟨t, ht, -⟩ := (h.kills hk).current
  have hkills := killTask_kills k' k'.current
  refine ⟨hk.trans hkills, { t with state := .dead }, ?_, rfl⟩
  rw [hkills.current]
  simp [killTask, ht]

theorem Scheduled.syscallExit (h : k.Scheduled) (code : Int) : Ends k (syscallExit k code) := by
  unfold CoreOS.syscallExit
  dsimp only
  refine Kills.ends h ?_
  split
  · exact (exitThread_kills k code false).trans (notifyParentExit_kills _ _)
  · exact exitThread_kills k code false

theorem Scheduled.syscallExitGroup (h : k.Scheduled) (code : Int) : Ends k (syscallExitGroup k code) :=
  Kills.ends h ((exitThread_kills k code true).trans (notifyParentExit_kills _ _))

theorem Scheduled.defaultException (h : k.Scheduled) (vector : Nat) : Ends k (defaultException k vector) :=
  Kills.ends h (exitThread_kills k vector false)

end Kernel

namespace Cpu

variable {s t : Cpu}

/-! ## Ticks -/

theorem tick_of_inSyscall (h : s.inSyscall = true) (rsp : Nat) :
    s.tick rsp = { s with ticks := wrappingAdd s.ticks 1 } := by
  unfold tick trySwitch
  simp only [h, if_true, ite_self]

theorem tick_of_not_due (h : wrappingAdd s.ticks 1 % 10 ≠ 0) (rsp : Nat) :
    s.tick rsp = { s with ticks := wrappingAdd s.ticks 1 } := by
  unfold tick
  simp only [if_neg h]

theorem tick_of_due (hf : s.inSyscall = false) (h : wrappingAdd s.ticks 1 % 10 = 0) (rsp : Nat) :
    s.tick rsp = { s with ticks := wrappingAdd s.ticks 1, kernel := s.kernel.contextSwitch rsp } := by
  unfold tick trySwitch
  simp only [if_pos h, hf, Bool.false_eq_true, if_false]

theorem step_tick (s : Cpu) (rsp : Nat) : s.step (.tick rsp) = some (s.tick rsp) := rfl

theorem wrappingAdd_next (n j : Nat) : wrappingAdd (wrappingAdd n 1) j = wrappingAdd n (j + 1) := by
  unfold wrappingAdd
  rw [Nat.mod_add_mod]
  congr 1
  omega

theorem exists_due_tick (n : Nat) : ∃ j, wrappingAdd n (j + 1) % 10 = 0 := by
  refine ⟨usizeMod - n % usizeMod - 1, ?_⟩
  have hzero : wrappingAdd n (usizeMod - n % usizeMod - 1 + 1) = 0 := by
    unfold wrappingAdd usizeMod
    omega
  rw [hzero]

theorem Due.tail {n : Nat} (h : s.Due (n + 1)) (hnow : wrappingAdd s.ticks 1 % 10 ≠ 0) :
    Due { s with ticks := wrappingAdd s.ticks 1 } n := by
  obtain ⟨j, hj, hdue⟩ := h
  cases j with
  | zero => exact absurd hdue hnow
  | succ j => exact ⟨j, by omega, by rwa [wrappingAdd_next]⟩

theorem exists_due (s : Cpu) : ∃ n, s.Due n := by
  obtain ⟨j, hj⟩ := exists_due_tick s.ticks
  exact ⟨j + 1, j, by omega, hj⟩

theorem not_switchesIn_ticks (rsps : List Nat) (s : Cpu) (h : s.inSyscall = true) : ¬ s.SwitchesIn (rsps.map .tick) := by
  induction rsps generalizing s with
  | nil => exact id
  | cons rsp rsps ih =>
    rintro (⟨-, t, ht, hne⟩ | ⟨t, ht, hrest⟩)
    · rw [step_tick, tick_of_inSyscall h] at ht
      cases ht
      exact hne rfl
    · rw [step_tick, tick_of_inSyscall h] at ht
      cases ht
      exact ih { s with ticks := wrappingAdd s.ticks 1 } h hrest

theorem switchesIn_ticks (rsps : List Nat) (s : Cpu) (hk : s.kernel.Scheduled) (hf : s.inSyscall = false)
    (hr : s.kernel.OtherReady) (hdue : s.Due rsps.length) : s.SwitchesIn (rsps.map .tick) := by
  induction rsps generalizing s with
  | nil =>
    obtain ⟨j, hj, -⟩ := hdue
    cases hj
  | cons rsp rsps ih =>
    by_cases hnow : wrappingAdd s.ticks 1 % 10 = 0
    · refine .inl ⟨by simp [switchFlag, hnow, hf], _, step_tick s rsp, ?_⟩
      rw [tick_of_due hf hnow]
      rcases Kernel.contextSwitch_cases hk rsp with ⟨-, hnone⟩ | ⟨hne, -⟩
      · exact absurd hr hnone
      · exact hne
    · refine .inr ⟨_, step_tick s rsp, ?_⟩
      rw [tick_of_not_due hnow]
      exact ih _ hk hf hr (hdue.tail hnow)

theorem switchesIn_iteration {w : WaitLoop} (before : List Nat) {rsp : Nat} {after : List Nat} (s : Cpu)
    (hk : s.kernel.Scheduled) (hf : s.inSyscall = true) (hp : s.place s.kernel.current = .waiting w)
    (hw : w.yields = true) (hr : s.kernel.OtherReady) : s.SwitchesIn (w.iteration before rsp after) := by
  unfold WaitLoop.iteration
  rw [if_pos hw]
  induction before generalizing s with
  | nil =>
    refine .inl ⟨rfl, s.yieldNow w rsp, by simp only [step, hp, if_pos hw], ?_⟩
    rcases Kernel.contextSwitch_cases hk rsp with ⟨-, hnone⟩ | ⟨hne, -⟩
    · exact absurd hr hnone
    · simp only [yieldNow, trySwitch, Bool.false_eq_true, if_false, if_neg hne]
      exact hne
  | cons r before ih =>
    refine .inr ⟨_, step_tick s r, ?_⟩
    rw [tick_of_inSyscall hf]
    exact ih { s with ticks := wrappingAdd s.ticks 1 } hk hf hp hr

/-! ## Where the tasks are -/

/-- What `IN_SYSCALL` is while the current task is at a place; a halting task
may have left it either way. -/
def flagAt : Place → Option Bool
  | .outside | .yielded .. => some false
  | .inside | .waiting _ => some true
  | .halting => none

/-- Where a task is that can be switched to. -/
def Away (p : Place) : Prop := p = .outside ∨ ∃ w prev, p = .yielded w prev

/-- The flag says where the current task is, the tasks that can be switched to
are outside of system calls or in a `yield_now`, and a halting task is dead. -/
structure Tracked (s : Cpu) : Prop where
  scheduled : s.kernel.Scheduled
  flag : ∀ {b}, flagAt (s.place s.kernel.current) = some b → s.inSyscall = b
  yielded : ∀ {x w prev}, s.place x = .yielded w prev → prev = true ∧ w.yields = true
  away : ∀ {x t}, s.kernel.tasks x = some t → t.state = .ready → Away (s.place x)
  halted : s.place s.kernel.current = .halting → ∃ t, s.kernel.tasks s.kernel.current = some t ∧ t.state = .dead

namespace Tracked

theorem start (phys : Phys) (code : CodeAddrs) (kernelPml4 stackBase : Nat) :
    (Cpu.start phys code kernelPml4 stackBase).Tracked where
  scheduled := .initMainTask phys code kernelPml4 stackBase
  flag := fun h => Option.some.inj h
  yielded := nofun
  away := fun _ _ => .inl rfl
  halted := nofun

theorem flag_of_place {p : Place} {b : Bool} (h : s.Tracked) (hp : s.place s.kernel.current = p)
    (hb : flagAt p = some b) : s.inSyscall = b :=
  h.flag (hp ▸ hb)

theorem goto {k : Kernel} {b : Bool} {p : Place} (h : s.Tracked) (hk : s.kernel.Kills k)
    (hflag : ∀ {c}, flagAt p = some c → b = c) (hy : ∀ {w prev}, p ≠ .yielded w prev)
    (hhalt : p = .halting → ∃ t, k.tasks k.current = some t ∧ t.state = .dead) :
    ({ s with kernel := k, inSyscall := b }.goto p).Tracked where
  scheduled := h.scheduled.kills hk
  flag := by
    intro c hc
    simp only [Cpu.goto, update_self] at hc
    exact hflag hc
  yielded := by
    intro x w prev hx
    simp only [Cpu.goto] at hx
    by_cases hxc : x = k.current
    · rw [hxc, update_self] at hx
      exact absurd hx hy
    · rw [update_of_ne hxc] at hx
      exact h.yielded hx
  away := by
    intro x t ht hr
    -- the current task is not ready, so its place does not matter
    have hxc : x ≠ k.current := (h.scheduled.kills hk).ne_current ht hr
    obtain ⟨u, hu, -, hstate⟩ := hk.old ht
    simp only [Cpu.goto, update_of_ne hxc]
    refine h.away hu ?_
    rcases hstate with hstate | hstate
    · exact hstate.symm.trans hr
    · exact absurd (hstate.symm.trans hr) nofun
  halted := by
    intro hp
    simp only [Cpu.goto, update_self] at hp
    exact hhalt hp

theorem work {op : SchedOp} {k : Kernel} (h : s.Tracked) (hp : s.place s.kernel.current ≠ .halting) (hw : op.works = true)
    (hk : SchedOp.step s.kernel op = some k) :
    (s.withKernel k).Tracked ∧ k.current = s.kernel.current ∧
      (s.withKernel k).place k.current = s.place s.kernel.current := by
  obtain ⟨o, ho, -⟩ := h.scheduled.current
  have hplace : (s.withKernel k).place s.kernel.current = s.place s.kernel.current := by simp [withKernel, ho]
  have hyielded : ∀ {x w prev}, (s.withKernel k).place x = .yielded w prev → prev = true ∧ w.yields = true := by
    intro x w prev hx
    simp only [withKernel] at hx
    split at hx
    · cases hx
    · exact h.yielded hx
  have hcur : k.current = s.kernel.current ∧ ∀ {x t}, k.tasks x = some t → t.state = .ready →
      (s.kernel.tasks x = none ∨ ∃ u, s.kernel.tasks x = some u ∧ u.state = .ready) := by
    rcases SchedOp.step_cases hk with ⟨pml4, layout, slot, hspawn⟩ | hkills | ⟨rsp, rfl, -⟩
    · obtain ⟨hfree, hc, u, htasks, -⟩ := Kernel.spawnTask_task hspawn
      refine ⟨hc, fun {x t} ht hr => ?_⟩
      by_cases hx : x = slot
      · exact .inl (hx ▸ hfree)
      · rw [htasks, update_of_ne hx] at ht
        exact .inr ⟨t, ht, hr⟩
    · refine ⟨hkills.current, fun {x t} ht hr => ?_⟩
      obtain ⟨u, hu, -, hstate | hstate⟩ := hkills.old ht
      · exact .inr ⟨u, hu, hstate.symm.trans hr⟩
      · exact absurd (hstate.symm.trans hr) nofun
    · cases hw
  refine ⟨⟨h.scheduled.step hk, fun {b} hb => ?_, hyielded, fun {x t} ht hr => ?_, fun hh => ?_⟩, hcur.1, ?_⟩
  · change flagAt ((s.withKernel k).place k.current) = some b at hb
    rw [hcur.1, hplace] at hb
    exact h.flag hb
  · rcases hcur.2 ht hr with hnone | ⟨u, hu, hur⟩
    · exact .inl (by simp [withKernel, hnone, show k.tasks x = some t from ht])
    · have : (s.withKernel k).place x = s.place x := by simp [withKernel, hu]
      rw [this]
      exact h.away hu hur
  · change (s.withKernel k).place k.current = .halting at hh
    rw [hcur.1, hplace] at hh
    exact absurd hh hp
  · rw [hcur.1, hplace]

theorem switch (place : Slot → Place) (ticks : Nat) {rsp : Nat} (h : s.Tracked)
    (hsw : (s.kernel.contextSwitch rsp).current ≠ s.kernel.current)
    (hother : ∀ {x}, x ≠ s.kernel.current → place x = s.place x)
    (hleft : ∀ {t}, s.kernel.tasks s.kernel.current = some t → t.state ≠ .dead → Away (place s.kernel.current))
    (hy : ∀ {w prev}, place s.kernel.current = .yielded w prev → prev = true ∧ w.yields = true) :
    Tracked ⟨s.kernel.contextSwitch rsp, false, ticks, place⟩ ∧ Away (place (s.kernel.contextSwitch rsp).current) := by
  rcases Kernel.contextSwitch_cases h.scheduled rsp with ⟨heq, -⟩ | ⟨-, ⟨t, ht, hr⟩, hready⟩
  · exact absurd (by rw [heq]) hsw
  have hnow : Away (place (s.kernel.contextSwitch rsp).current) := by
    rw [hother hsw]
    exact h.away ht hr
  refine ⟨⟨h.scheduled.contextSwitch rsp, fun {b} hb => ?_, fun {x w prev} hx => ?_, fun {x t'} ht' hr' => ?_,
    fun hh => ?_⟩, hnow⟩
  · change flagAt (place (s.kernel.contextSwitch rsp).current) = some b at hb
    rcases hnow with hp | ⟨w, prev, hp⟩
    · rw [hp] at hb
      exact Option.some.inj hb
    · rw [hp] at hb
      exact Option.some.inj hb
  · by_cases hxc : x = s.kernel.current
    · exact hy (hxc ▸ hx)
    · exact h.yielded ((hother hxc).symm.trans hx)
  · obtain ⟨u, hu, hur | ⟨rfl, hud⟩⟩ := hready x t' ht' hr'
    · have hxc : x ≠ s.kernel.current := h.scheduled.ne_current hu hur
      change Away (place x)
      rw [hother hxc]
      exact h.away hu hur
    · exact hleft hu hud
  · change place (s.kernel.contextSwitch rsp).current = .halting at hh
    rcases hnow with hp | ⟨w, prev, hp⟩
    · rw [hp] at hh
      cases hh
    · rw [hp] at hh
      cases hh

theorem away_current (h : s.Tracked) (hf : s.inSyscall = false) {t : Task}
    (ht : s.kernel.tasks s.kernel.current = some t) (hd : t.state ≠ .dead) : Away (s.place s.kernel.current) := by
  cases hp : s.place s.kernel.current with
  | outside => exact .inl rfl
  | yielded w prev => exact .inr ⟨w, prev, rfl⟩
  | inside => cases hf.symm.trans (h.flag_of_place hp rfl)
  | waiting w => cases hf.symm.trans (h.flag_of_place hp rfl)
  | halting =>
    obtain ⟨u, hu, hud⟩ := h.halted hp
    cases hu.symm.trans ht
    exact absurd hud hd

end Tracked

/-! ## When scheduling goes on -/

/-- The current task does not wait with `wait_for_event` while another one is
ready, and it does not halt with the flag set. -/
structure Unfrozen (s : Cpu) : Prop where
  waiting : ∀ {w}, s.place s.kernel.current = .waiting w → w.yields = true ∨ ¬ s.kernel.OtherReady
  halting : s.place s.kernel.current = .halting → s.inSyscall = false

theorem Tracked.goesOn_iff (h : s.Tracked) : s.GoesOn ↔ s.Unfrozen := by
  constructor
  · intro hg
    refine ⟨fun {w} hp => ?_, fun hp => ?_⟩
    · by_contra hno
      simp only [not_or, not_not, Bool.not_eq_true] at hno
      obtain ⟨n, hn⟩ := s.exists_due
      have hdue : s.Due ((List.replicate n 0).length + ([] : List Nat).length) := by simpa using hn
      have hin := hg.waiting w hp hno.2 (List.replicate n 0) 0 [] hdue
      simp only [WaitLoop.iteration, hno.1, Bool.false_eq_true, if_false, List.map_nil, List.append_nil] at hin
      exact not_switchesIn_ticks _ s (h.flag_of_place hp rfl) hin
    · obtain ⟨t, ht, hd⟩ := h.halted hp
      exact (hg.halting t hp ht hd).1
  · intro hu
    refine ⟨fun w hp hr before rsp after _ => ?_, fun t hp _ _ => ⟨hu.halting hp, fun hr rsps hdue => ?_⟩⟩
    · have hw : w.yields = true := (hu.waiting hp).resolve_right (not_not_intro hr)
      exact switchesIn_iteration before s h.scheduled (h.flag_of_place hp rfl) hp hw hr
    · exact switchesIn_ticks rsps s h.scheduled (hu.halting hp) hr hdue

theorem Unfrozen.of_away (h : Away (s.place s.kernel.current)) : s.Unfrozen := by
  rcases h with hp | ⟨w, prev, hp⟩
  · exact ⟨fun hw => absurd (hp.symm.trans hw) nofun, fun hh => absurd (hp.symm.trans hh) nofun⟩
  · exact ⟨fun hw => absurd (hp.symm.trans hw) nofun, fun hh => absurd (hp.symm.trans hh) nofun⟩

theorem goto_place (s : Cpu) (p : Place) : (s.goto p).place (s.goto p).kernel.current = p := update_self ..

theorem Tracked.tick (h : s.Tracked) (rsp : Nat) : (s.tick rsp).Tracked ∧ (s.Unfrozen → (s.tick rsp).Unfrozen) := by
  have hcount : Tracked { s with ticks := wrappingAdd s.ticks 1 } := ⟨h.scheduled, h.flag, h.yielded, h.away, h.halted⟩
  by_cases hf : s.inSyscall = true
  · rw [tick_of_inSyscall hf]
    exact ⟨hcount, fun hu => ⟨hu.waiting, hu.halting⟩⟩
  by_cases hdue : wrappingAdd s.ticks 1 % 10 = 0
  · rw [tick_of_due (by simpa using hf) hdue]
    rcases Kernel.contextSwitch_cases h.scheduled rsp with ⟨heq, -⟩ | ⟨hne, -⟩
    · rw [heq]
      exact ⟨hcount, fun hu => ⟨hu.waiting, hu.halting⟩⟩
    · have hclear : s.inSyscall = false := by simpa using hf
      obtain ⟨htr, haway⟩ := h.switch s.place (wrappingAdd s.ticks 1) hne (fun _ => rfl)
        (fun ht hd => h.away_current hclear ht hd) h.yielded
      rw [hclear]
      exact ⟨htr, fun _ => .of_away haway⟩
  · rw [tick_of_not_due hdue]
    exact ⟨hcount, fun hu => ⟨hu.waiting, hu.halting⟩⟩

theorem Tracked.yieldNow {w : WaitLoop} (h : s.Tracked) (hp : s.place s.kernel.current = .waiting w)
    (hw : w.yields = true) (rsp : Nat) : (s.yieldNow w rsp).Tracked ∧ (s.yieldNow w rsp).Unfrozen := by
  have hflag : s.inSyscall = true := h.flag_of_place hp rfl
  simp only [Cpu.yieldNow, trySwitch, Bool.false_eq_true, if_false, hflag]
  rcases Kernel.contextSwitch_cases h.scheduled rsp with ⟨heq, -⟩ | ⟨hne, -⟩
  · rw [heq, if_pos rfl, ← hflag]
    refine ⟨h, fun hq => ?_, fun hq => ?_⟩
    · cases hp.symm.trans hq
      exact .inl hw
    · cases hp.symm.trans hq
  · rw [if_neg hne]
    obtain ⟨htr, haway⟩ := h.switch (update s.place s.kernel.current (.yielded w true)) s.ticks hne
      (fun hx => update_of_ne hx ..) (fun _ _ => .inr ⟨w, true, update_self ..⟩) fun hq => by
        rw [update_self] at hq
        cases hq
        exact ⟨rfl, hw⟩
    exact ⟨htr, .of_away haway⟩

theorem Tracked.ends {k : Kernel} {b : Bool} (h : s.Tracked) (hk : s.kernel.Ends k) :
    ({ s with kernel := k, inSyscall := b }.goto .halting).Tracked ∧
      (({ s with kernel := k, inSyscall := b }.goto .halting).Unfrozen ↔ b = false) := by
  refine ⟨h.goto hk.kills nofun nofun fun _ => hk.dead, fun hu => hu.halting (goto_place _ _), fun hb => ?_⟩
  exact ⟨fun hw => absurd ((goto_place _ _).symm.trans hw) nofun, fun _ => hb⟩

theorem Unfrozen.of_running (hp : s.place s.kernel.current = .outside ∨ s.place s.kernel.current = .inside) :
    s.Unfrozen := by
  rcases hp with hp | hp
  · exact .of_away (.inl hp)
  · exact ⟨fun hw => absurd (hp.symm.trans hw) nofun, fun hh => absurd (hp.symm.trans hh) nofun⟩

theorem Tracked.working {op : SchedOp} (h : s.Tracked)
    (hp : s.place s.kernel.current = .outside ∨ s.place s.kernel.current = .inside)
    (ht : (if op.works then (SchedOp.step s.kernel op).map s.withKernel else none) = some t) : t.Tracked ∧ t.Unfrozen := by
  split at ht
  next hw =>
    obtain ⟨k, hk, rfl⟩ := Option.map_eq_some_iff.mp ht
    have hne : s.place s.kernel.current ≠ .halting := by
      rcases hp with hp | hp
      · rw [hp]
        nofun
      · rw [hp]
        nofun
    obtain ⟨htr, hcur, hplace⟩ := h.work hne hw hk
    refine ⟨htr, .of_running ?_⟩
    rw [show (s.withKernel k).kernel.current = k.current from rfl, hplace]
    exact hp
  · cases ht

theorem Tracked.world (h : s.Tracked) (f : Kernel → Kernel) :
    Tracked { s with kernel := { f s.kernel with tasks := s.kernel.tasks, current := s.kernel.current } } :=
  ⟨h.scheduled.kills (.of_tasks rfl rfl), h.flag, h.yielded, h.away, h.halted⟩

/-- **One step** keeps the invariant, and scheduling goes on after it exactly
when it gives way. -/
theorem Tracked.step {op : CpuOp} (h : s.Tracked) (ht : s.step op = some t) :
    t.Tracked ∧ (s.Unfrozen → (t.Unfrozen ↔ s.GivesWay op)) := by
  have hsame : s.kernel.Kills s.kernel := .of_tasks rfl rfl
  unfold Cpu.step at ht
  split at ht
  next rsp =>
    cases ht
    obtain ⟨htr, hu⟩ := h.tick rsp
    exact ⟨htr, fun hs => iff_of_true (hu hs) trivial⟩
  · cases ht
    exact ⟨h.goto hsame (fun hc => Option.some.inj hc) nofun nofun,
      fun _ => iff_of_true (.of_running (.inr (goto_place _ _))) trivial⟩
  · cases ht
    exact ⟨h.goto hsame (fun hc => Option.some.inj hc) nofun nofun,
      fun _ => iff_of_true (.of_running (.inl (goto_place _ _))) trivial⟩
  next op hp =>
    obtain ⟨htr, hu⟩ := h.working (.inl hp) ht
    exact ⟨htr, fun _ => iff_of_true hu trivial⟩
  next op hp =>
    obtain ⟨htr, hu⟩ := h.working (.inr hp) ht
    exact ⟨htr, fun _ => iff_of_true hu trivial⟩
  next f hp =>
    cases ht
    exact ⟨h.world f, fun _ => iff_of_true (.of_running (.inl hp)) trivial⟩
  next f hp =>
    cases ht
    exact ⟨h.world f, fun _ => iff_of_true (.of_running (.inr hp)) trivial⟩
  next w hp =>
    cases ht
    have hflag : s.inSyscall = true := h.flag_of_place hp rfl
    refine ⟨h.goto hsame (fun hc => hflag.trans (Option.some.inj hc)) nofun nofun, fun _ => ⟨fun hu _ => ?_, fun hw => ?_⟩⟩
    · exact hu.waiting (goto_place _ _)
    · refine ⟨fun hq => ?_, fun hq => absurd ((goto_place _ _).symm.trans hq) nofun⟩
      cases (goto_place _ _).symm.trans hq
      exact hw hp
  next w hp =>
    cases ht
    have hflag : s.inSyscall = true := h.flag_of_place hp rfl
    exact ⟨h.goto hsame (fun hc => hflag.trans (Option.some.inj hc)) nofun nofun,
      fun _ => iff_of_true (.of_running (.inr (goto_place _ _))) trivial⟩
  next rsp w hp =>
    split at ht
    next hw =>
      cases ht
      obtain ⟨htr, hu⟩ := h.yieldNow hp hw rsp
      exact ⟨htr, fun _ => iff_of_true hu trivial⟩
    · cases ht
  next w prev hp =>
    cases ht
    obtain ⟨rfl, hw⟩ := h.yielded hp
    refine ⟨h.goto hsame (fun hc => Option.some.inj hc) nofun nofun, fun _ => iff_of_true ⟨fun hq => ?_, fun hq => ?_⟩ trivial⟩
    · cases (goto_place _ _).symm.trans hq
      exact .inl hw
    · cases (goto_place _ _).symm.trans hq
  next code hp =>
    cases ht
    obtain ⟨htr, hu⟩ := h.ends (h.scheduled.syscallExit code) (b := false)
    exact ⟨htr, fun _ => iff_of_true (hu.mpr rfl) trivial⟩
  next code hp =>
    cases ht
    obtain ⟨htr, hu⟩ := h.ends (h.scheduled.syscallExitGroup code) (b := false)
    exact ⟨htr, fun _ => iff_of_true (hu.mpr rfl) trivial⟩
  next vector hp =>
    cases ht
    obtain ⟨htr, hu⟩ := h.ends (h.scheduled.defaultException vector) (b := s.inSyscall)
    have hflag : s.inSyscall = false := h.flag_of_place hp rfl
    exact ⟨htr, fun _ => iff_of_true (hu.mpr hflag) fun hq => absurd (hp.symm.trans hq) nofun⟩
  next vector hp =>
    cases ht
    obtain ⟨htr, hu⟩ := h.ends (h.scheduled.defaultException vector) (b := s.inSyscall)
    have hflag : s.inSyscall = true := h.flag_of_place hp rfl
    refine ⟨htr, fun _ => iff_of_false (fun hq => ?_) fun hq => hq hp⟩
    cases hflag.symm.trans (hu.mp hq)
  · cases ht

end Cpu

/-- **Scheduling goes on**, exactly as long as every step gives way. Along any
run from the registration of the main task, no waiting and no dead task ever
keeps another from running if and only if no system call waits with
`wait_for_event` while another task is ready, and none faults. -/
theorem scheduling_goes_on_iff (phys : Phys) (code : CodeAddrs) (kernelPml4 stackBase : Nat) (ops : List CpuOp) :
    Lts.Always Cpu.step Cpu.GoesOn (.start phys code kernelPml4 stackBase) ops ↔
      Lts.Meets Cpu.step Cpu.GivesWay (.start phys code kernelPml4 stackBase) ops := by
  have hstart := Cpu.Tracked.start phys code kernelPml4 stackBase
  refine Lts.always_iff_meets (J := Cpu.Tracked) (fun s op t h ht => (h.step ht).1) (fun s op t h hg ht => ?_)
    (fun s op hnone => ?_) hstart (hstart.goesOn_iff.mpr (.of_running (.inl rfl)))
  · obtain ⟨htr, hiff⟩ := h.step ht
    rw [htr.goesOn_iff]
    exact hiff (h.goesOn_iff.mp hg)
  · cases op with
    | wait w =>
      intro hp
      simp only [Cpu.step, hp] at hnone
      cases hnone
    | exception vector =>
      intro hp
      simp only [Cpu.step, hp] at hnone
      cases hnone
    | _ => trivial

/-- The main task starts a program and is preempted for it; then the program
makes a system call. -/
def intoSyscall : List CpuOp :=
  [.work (.spawnUserTask 0 0 0), .world fun k => (k.spawnNamed 1 []).2] ++ List.replicate 10 (.tick 0) ++ [.syscallEntry]

/-- The program waits for a child, lets the main task run, goes on and exits. -/
theorem scheduling_goes_on_waitpid :
    Lts.Always Cpu.step Cpu.GoesOn (.start allFree ⟨0, 0⟩ 0 0) (intoSyscall ++ [.wait .waitpid, .yieldNow 0] ++
      List.replicate 10 (.tick 0) ++ [.resume, .wake, .sysret, .syscallEntry, .exit 0]) :=
  (scheduling_goes_on_iff allFree ⟨0, 0⟩ 0 0 _).mpr (by decide +kernel)

/-- **A wait or a fault stops scheduling.** A program that reads from an empty
pipe of its own waits with the flag set: the main task is ready, and no number
of ticks switches to it. Nor does it when the program faults in a system call,
though it is dead. -/
theorem wait_or_fault_stops_scheduling :
    (∃ s, Lts.exec Cpu.step (.start allFree ⟨0, 0⟩ 0 0) (intoSyscall ++
          [.world fun k => (allocPipe k).2, .sysret, .syscallEntry, .wait .pipeRead]) = some s ∧
      (readFromFd s.kernel 3 1 []).map Prod.fst = some .wait ∧ s.place s.kernel.current = .waiting .pipeRead ∧
      s.kernel.OtherReady ∧
      ∀ before rsp after, ¬ s.SwitchesIn (WaitLoop.pipeRead.iteration before rsp after)) ∧
    ∃ s t, Lts.exec Cpu.step (.start allFree ⟨0, 0⟩ 0 0) (intoSyscall ++ [.exception 14]) = some s ∧
      s.place s.kernel.current = .halting ∧ s.kernel.tasks s.kernel.current = some t ∧ t.state = .dead ∧
      s.inSyscall = true ∧ s.kernel.OtherReady ∧ ∀ rsps : List Nat, ¬ s.SwitchesIn (rsps.map .tick) := by
  constructor
  · have hrun : (Lts.exec Cpu.step (.start allFree ⟨0, 0⟩ 0 0) (intoSyscall ++
          [.world fun k => (allocPipe k).2, .sysret, .syscallEntry, .wait .pipeRead])).map
        (fun s => ((readFromFd s.kernel 3 1 []).map Prod.fst, s.place s.kernel.current, decide s.kernel.OtherReady,
          s.inSyscall)) = some (some .wait, .waiting .pipeRead, true, true) := by decide +kernel
    obtain ⟨s, hs, hobs⟩ := Option.map_eq_some_iff.mp hrun
    simp only [Prod.mk.injEq, decide_eq_true_eq] at hobs
    obtain ⟨hread, hplace, hready, hflag⟩ := hobs
    refine ⟨s, hs, hread, hplace, hready, fun before rsp after => ?_⟩
    have hticks : WaitLoop.pipeRead.iteration before rsp after = (before ++ after).map .tick := by
      simp [WaitLoop.iteration, WaitLoop.yields]
    rw [hticks]
    exact Cpu.not_switchesIn_ticks _ s hflag
  · have hrun : (Lts.exec Cpu.step (.start allFree ⟨0, 0⟩ 0 0) (intoSyscall ++ [.exception 14])).map
        (fun s => (s.place s.kernel.current, (s.kernel.tasks s.kernel.current).map Task.state,
          decide s.kernel.OtherReady, s.inSyscall)) = some (.halting, some .dead, true, true) := by decide +kernel
    obtain ⟨s, hs, hobs⟩ := Option.map_eq_some_iff.mp hrun
    simp only [Prod.mk.injEq, decide_eq_true_eq] at hobs
    obtain ⟨hplace, hdead, hready, hflag⟩ := hobs
    obtain ⟨t, ht, hd⟩ := Option.map_eq_some_iff.mp hdead
    exact ⟨s, t, hs, hplace, ht, hd, hflag, hready, fun rsps => Cpu.not_switchesIn_ticks rsps s hflag⟩

end CoreOS
