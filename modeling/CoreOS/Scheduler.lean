/-
The task table over whole runs: which task is current, which one runs, and
which slots come back.
-/
import CoreOS.Lib.Cyclic
import CoreOS.SlotReuse
import CoreOS.Signal

namespace CoreOS

open ByteMem
open Function (update_self update_of_ne)

namespace Kernel

/-! ## The switch with its saved stack pointer -/

/-- The assembly's store of the old stack pointer through the pointer that
`next_task_switch` hands out. -/
def saveRsp (k : Kernel) (slot : Option Slot) (rsp : Nat) : Kernel :=
  match slot with
  | none => k
  | some s =>
    match k.tasks s with
    | some t => k.setTask s (some { t with rsp })
    | none => k

/-- A switch by a task whose stack pointer is `rsp`; nothing happens when no
other task is ready. -/
def contextSwitch (k : Kernel) (rsp : Nat) : Kernel :=
  match k.nextTaskSwitch with
  | some (sw, k) => k.saveRsp sw.saveRsp rsp
  | none => k

/-! ## The invariant of the task table -/

/-- The current slot holds a task that runs or is dead, no other task runs,
and every saved stack pointer may be used. -/
structure Scheduled (k : Kernel) : Prop where
  current : ∃ t, k.tasks k.current = some t ∧ (t.state = .running ∨ t.state = .dead)
  unique : ∀ {s t}, k.tasks s = some t → t.state = .running → s = k.current
  valid : ∀ {s t}, k.tasks s = some t → t.rspValid = true

variable {s : Slot} {t : Task}

theorem Scheduled.ne_current {k : Kernel} (h : Scheduled k) (ht : k.tasks s = some t) (hr : t.state = .ready) :
    s ≠ k.current := by
  rintro rfl
  obtain ⟨o, ho, hostate⟩ := h.current
  cases ho.symm.trans ht
  rw [hr] at hostate
  rcases hostate with hc | hc <;> cases hc

theorem Scheduled.initMainTask (phys : Phys) (code : CodeAddrs) (kernelPml4 stackBase : Nat) :
    Scheduled ((statics phys code kernelPml4).initMainTask stackBase) := by
  have hzero : ∀ {s t}, ((statics phys code kernelPml4).initMainTask stackBase).tasks s = some t →
      s = 0 ∧ t.rspValid = true := by
    intro s t ht
    by_cases hs : s = 0
    · subst hs
      simp only [Kernel.initMainTask, update_self, Option.some.injEq] at ht
      rw [← ht]
      exact ⟨rfl, rfl⟩
    · simp [Kernel.initMainTask, statics, hs] at ht
  exact ⟨⟨_, rfl, .inl rfl⟩, fun ht _ => (hzero ht).1, fun ht => (hzero ht).2⟩

variable {k k' k'' : Kernel}

/-- Tasks stay where they are: each is as it was, or dead. -/
structure Kills (k k' : Kernel) : Prop where
  current : k'.current = k.current
  none : ∀ {s}, k.tasks s = none → k'.tasks s = none
  some : ∀ {s t}, k.tasks s = some t →
    ∃ t', k'.tasks s = some t' ∧ t'.rspValid = t.rspValid ∧ (t'.state = t.state ∨ t'.state = .dead)

theorem Kills.of_tasks (hc : k'.current = k.current) (ht : k'.tasks = k.tasks) : Kills k k' :=
  ⟨hc, fun h => by rw [ht, h], fun h => ⟨_, by rw [ht, h], rfl, .inl rfl⟩⟩

theorem Kills.trans (h1 : Kills k k') (h2 : Kills k' k'') : Kills k k'' := by
  refine ⟨h2.current.trans h1.current, fun h => h2.none (h1.none h), fun h => ?_⟩
  obtain ⟨t1, ht1, hv1, hs1⟩ := h1.some h
  obtain ⟨t2, ht2, hv2, hs2⟩ := h2.some ht1
  refine ⟨t2, ht2, hv2.trans hv1, ?_⟩
  rcases hs2 with hs2 | hs2
  · rw [hs2]
    exact hs1
  · exact .inr hs2

variable {t' : Task}

theorem Kills.setTask (h : k.tasks s = Option.some t) (hv : t'.rspValid = t.rspValid)
    (hs : t'.state = t.state ∨ t'.state = .dead) : Kills k (k.setTask s (Option.some t')) := by
  refine ⟨rfl, fun {x} hx => ?_, fun {x u} hx => ?_⟩
  · rw [setTask_tasks, update_of_ne, hx]
    rintro rfl
    rw [h] at hx
    cases hx
  · by_cases hxs : x = s
    · subst hxs
      cases h.symm.trans hx
      exact ⟨t', update_self .., hv, hs⟩
    · exact ⟨u, by rw [setTask_tasks, update_of_ne hxs, hx], rfl, .inl rfl⟩

theorem Kills.foldl {α : Type} {f : Kernel → α → Kernel} (hf : ∀ k a, Kills k (f k a)) :
    ∀ {as : List α} {k : Kernel}, Kills k (as.foldl f k)
  | [], _ => .of_tasks rfl rfl
  | a :: _, k => (hf k a).trans (foldl hf)

theorem Kills.old (hk : Kills k k') (ht' : k'.tasks s = Option.some t') :
    ∃ t, k.tasks s = Option.some t ∧ t'.rspValid = t.rspValid ∧ (t'.state = t.state ∨ t'.state = .dead) := by
  cases ht : k.tasks s with
  | none =>
    rw [hk.none ht] at ht'
    cases ht'
  | some t =>
    obtain ⟨u, hu, hv, hs⟩ := hk.some ht
    cases hu.symm.trans ht'
    exact ⟨t, rfl, hv, hs⟩

theorem Scheduled.kills (h : Scheduled k) (hk : Kills k k') : Scheduled k' := by
  refine ⟨?_, fun {s t'} ht' hr => ?_, fun ht' => ?_⟩
  · obtain ⟨t, ht, hs⟩ := h.current
    obtain ⟨t', ht', -, hs'⟩ := hk.some ht
    refine ⟨t', by rw [hk.current, ht'], ?_⟩
    rcases hs' with hs' | hs'
    · rw [hs']
      exact hs
    · exact .inr hs'
  · obtain ⟨t, ht, -, hs⟩ := hk.old ht'
    rw [hk.current]
    rcases hs with hs | hs
    · exact h.unique ht (hs.symm.trans hr)
    · rw [hr] at hs
      cases hs
  · obtain ⟨t, ht, hv, -⟩ := hk.old ht'
    exact hv.trans (h.valid ht)

/-! ## What kills -/

theorem killTask_kills (k : Kernel) (s : Slot) : Kills k (k.killTask s) := by
  unfold killTask
  split
  next t ht => exact .setTask ht rfl (.inr rfl)
  · exact .of_tasks rfl rfl

theorem saveRsp_kills (k : Kernel) (s : Option Slot) (rsp : Nat) : Kills k (k.saveRsp s rsp) := by
  unfold saveRsp
  split
  · exact .of_tasks rfl rfl
  · split
    next t ht => exact .setTask ht rfl (.inl rfl)
    · exact .of_tasks rfl rfl

theorem notifyParentExit_kills (k : Kernel) (parentPid : Nat) : Kills k (notifyParentExit k parentPid) :=
  .of_tasks (notifyParentExit_tables k parentPid).2.2 (notifyParentExit_tables k parentPid).2.1

theorem exitGroupThread_kills (g c : Slot) (k : Kernel) (s : Slot) : Kills k (k.exitGroupThread g c s) := by
  unfold exitGroupThread
  split
  · exact .of_tasks rfl rfl
  next t _ =>
    split
    · exact .of_tasks rfl rfl
    · have hset : Kills k (k.setThread s (Option.some { t with state := .zombie })) := .of_tasks rfl rfl
      dsimp only
      split
      · exact hset.trans (killTask_kills _ s)
      · exact hset

theorem terminateThread_kills (g : Slot) (k : Kernel) (s : Slot) : Kills k (terminateThread g k s) := by
  unfold terminateThread
  split
  · exact .of_tasks rfl rfl
  next t _ =>
    split
    · exact .of_tasks rfl rfl
    · have hset : Kills k (k.setThread s (Option.some { t with state := .zombie })) := .of_tasks rfl rfl
      exact hset.trans (killTask_kills _ s)

theorem exitThread_kills (k : Kernel) (code : Int) (wholeGroup : Bool) : Kills k (k.exitThread code wholeGroup).2 := by
  unfold exitThread
  split
  · exact .of_tasks rfl rfl
  · dsimp only
    split
    · exact .of_tasks rfl rfl
    · split
      · refine .trans ?_ (.foldl (exitGroupThread_kills _ _))
        exact .of_tasks rfl rfl
      · split <;> exact .of_tasks rfl rfl

theorem terminateProcessGroup_kills (k : Kernel) (g : Slot) (sig : Nat) : Kills k (terminateProcessGroup k g sig) := by
  unfold terminateProcessGroup
  refine .trans ?_ (notifyParentExit_kills _ _)
  refine .trans ?_ (.foldl (terminateThread_kills g))
  split <;> exact .of_tasks rfl rfl

theorem syscallExit_kills (k : Kernel) (code : Int) : Kills k (syscallExit k code) := by
  unfold syscallExit
  have hexit := exitThread_kills k code false
  generalize k.exitThread code false = x at hexit
  obtain ⟨groupDead, k1⟩ := x
  dsimp only at hexit ⊢
  refine .trans ?_ (killTask_kills _ _)
  split
  · exact hexit.trans (notifyParentExit_kills _ _)
  · exact hexit

theorem syscallExitGroup_kills (k : Kernel) (code : Int) : Kills k (syscallExitGroup k code) :=
  ((exitThread_kills k code true).trans (notifyParentExit_kills _ _)).trans (killTask_kills _ _)

/-! ## Spawns and switches -/

variable {pml4 : Nat} {layout : Mem → Nat → Mem × Nat} {slot : Slot}

theorem spawnTask_task (h : k.spawnTask pml4 layout = some (slot, k')) :
    k.tasks slot = none ∧ k'.current = k.current ∧
      ∃ t, k'.tasks = Function.update k.tasks slot (some t) ∧ t.state = .ready ∧ t.rspValid = true := by
  unfold spawnTask at h
  split at h
  · cases h
  next s hs =>
    dsimp only at h
    split at h
    · cases h
    · cases h
      exact ⟨freeTaskSlot_spec hs, rfl, _, rfl, rfl, rfl⟩

theorem Scheduled.spawn (h : Scheduled k) (hs : k.spawnTask pml4 layout = some (slot, k')) :
    Scheduled k' ∧ slot ≠ k.current ∧ k'.current = k.current := by
  obtain ⟨hfree, hcur, t, htasks, hready, hvalid⟩ := spawnTask_task hs
  have hne : slot ≠ k.current := by
    rintro rfl
    obtain ⟨u, hu, -⟩ := h.current
    rw [hfree] at hu
    cases hu
  have hold : ∀ {s u}, k'.tasks s = some u → (s = slot ∧ u = t) ∨ k.tasks s = some u := by
    intro s u hu
    by_cases hs : s = slot
    · rw [hs, htasks, update_self] at hu
      cases hu
      exact .inl ⟨hs, rfl⟩
    · rw [htasks, update_of_ne hs] at hu
      exact .inr hu
  refine ⟨⟨?_, fun {s u} hu hr => ?_, fun {s u} hu => ?_⟩, hne, hcur⟩
  · obtain ⟨u, hu, hs⟩ := h.current
    exact ⟨u, by rw [hcur, htasks, update_of_ne hne.symm, hu], hs⟩
  · rcases hold hu with ⟨-, rfl⟩ | hu
    · rw [hready] at hr
      cases hr
    · exact (h.unique hu hr).trans hcur.symm
  · rcases hold hu with ⟨-, rfl⟩ | hu
    · exact hvalid
    · exact h.valid hu

/-- What a switch from the current task to the ready task `t` in `next` does. -/
structure Switched (k : Kernel) (next : Slot) (t : Task) (sw : SwitchTo) (k' : Kernel) : Prop where
  ready : k.tasks next = some t ∧ t.state = .ready
  ne : next ≠ k.current
  current : k'.current = next
  rsp : sw.rsp = t.rsp
  pml4 : sw.pml4 = t.pml4
  task : k'.tasks next = some { t with state := .running }
  old : ∀ {o}, k.tasks k.current = some o →
    if o.state = .dead then k'.tasks k.current = none ∧ sw.saveRsp = none
    else k'.tasks k.current = some { o with state := .ready } ∧ sw.saveRsp = some k.current
  other : ∀ {s}, s ≠ next → s ≠ k.current → k'.tasks s = k.tasks s

theorem leaveTask_tasks (h : Scheduled k) {o : Task} (ho : k.tasks k.current = some o) :
    (∀ {s}, s ≠ k.current → k.leaveTask.2.tasks s = k.tasks s) ∧
      if o.state = .dead then k.leaveTask.2.tasks k.current = none ∧ k.leaveTask.1 = none
      else k.leaveTask.2.tasks k.current = some { o with state := .ready } ∧ k.leaveTask.1 = some k.current := by
  have hreaped : (k.taskSlotReaped k.current).tasks = k.tasks := by
    unfold taskSlotReaped
    split
    · split <;> rfl
    · rfl
  unfold leaveTask
  rw [ho]
  dsimp only
  split
  next hd =>
    refine ⟨fun {s} hs => ?_, ?_, rfl⟩
    · rw [setTask_tasks, update_of_ne hs, hreaped]
    · rw [setTask_tasks, update_self]
  next hd =>
    have hrun : o.state = .running := by
      obtain ⟨u, hu, hs⟩ := h.current
      cases ho.symm.trans hu
      exact hs.resolve_right hd
    refine ⟨fun {s} hs => ?_, ?_, rfl⟩
    · rw [setTask_tasks, update_of_ne hs]
    · rw [setTask_tasks, update_self, if_pos hrun, ← h.valid ho]

variable {sw : SwitchTo}

theorem nextTaskSwitch_switched (h : Scheduled k) (hs : k.nextTaskSwitch = some (sw, k')) :
    ∃ next t, Switched k next t sw k' := by
  simp only [nextTaskSwitch, Option.bind_eq_bind, Option.bind_eq_some_iff, Option.some.injEq, Prod.mk.injEq] at hs
  obtain ⟨next, hfind, task, htask, rfl, rfl⟩ := hs
  obtain ⟨t, ht, hready, -⟩ : ∃ t, k.tasks next = some t ∧ t.state = .ready ∧ t.rspValid = true := by
    simpa [schedulable, Option.any_eq_true] using List.find?_some hfind
  obtain ⟨o, ho, -⟩ := h.current
  have hne : next ≠ k.current := h.ne_current ht hready
  obtain ⟨hother, hold⟩ := leaveTask_tasks h ho
  rw [hother hne, ht] at htask
  obtain rfl : t = task := Option.some.inj htask
  refine ⟨next, t, ⟨ht, hready⟩, hne, rfl, rfl, rfl, update_self .., fun {u} hu => ?_, fun {s} hsn hsc => ?_⟩
  · cases ho.symm.trans hu
    split
    next hd =>
      rw [if_pos hd] at hold
      exact ⟨(update_of_ne hne.symm ..).trans hold.1, hold.2⟩
    next hd =>
      rw [if_neg hd] at hold
      exact ⟨(update_of_ne hne.symm ..).trans hold.1, hold.2⟩
  · exact (update_of_ne hsn ..).trans (hother hsc)

theorem nextTaskSwitch_isSome (h : Scheduled k) (ht : k.tasks s = some t) (hr : t.state = .ready) :
    ∃ sw k', k.nextTaskSwitch = some (sw, k') := by
  have hmem : s ∈ roundRobin k.current := Cyclic.mem_round k.current s
  have hsched : k.schedulable s = true := by simp [schedulable, ht, hr, h.valid ht]
  obtain ⟨next, hnext⟩ := Option.isSome_iff_exists.mp (List.find?_isSome.mpr ⟨s, hmem, hsched⟩)
  obtain ⟨u, hu, hur, -⟩ : ∃ t, k.tasks next = some t ∧ t.state = .ready ∧ t.rspValid = true := by
    simpa [schedulable, Option.any_eq_true] using List.find?_some hnext
  obtain ⟨o, ho, -⟩ := h.current
  have hne : next ≠ k.current := h.ne_current hu hur
  have hleft : k.leaveTask.2.tasks next = some u := ((leaveTask_tasks h ho).1 hne).trans hu
  simp [nextTaskSwitch, hnext, hleft]

variable {next : Slot}

theorem Switched.scheduled (h : Scheduled k) (hs : Switched k next t sw k') : Scheduled k' := by
  obtain ⟨o, ho, -⟩ := h.current
  have hold := hs.old ho
  -- only the task that was switched to runs, and pointers are kept
  have hall : ∀ {s u}, k'.tasks s = some u → u.rspValid = true ∧ (u.state = .running → s = next) := by
    intro s u hu
    by_cases hsn : s = next
    · subst hsn
      have hv := h.valid hs.ready.1
      cases hs.task.symm.trans hu
      exact ⟨hv, fun _ => rfl⟩
    · by_cases hsc : s = k.current
      · subst hsc
        split at hold
        · rw [hold.1] at hu
          cases hu
        · have hv := h.valid ho
          cases hold.1.symm.trans hu
          exact ⟨hv, nofun⟩
      · rw [hs.other hsn hsc] at hu
        exact ⟨h.valid hu, fun hr => absurd (h.unique hu hr) hsc⟩
  have hnow : k'.tasks k'.current = some { t with state := .running } := by rw [hs.current, hs.task]
  refine ⟨⟨_, hnow, .inl rfl⟩, fun hu hr => ?_, fun hu => (hall hu).1⟩
  · rw [hs.current]
    exact (hall hu).2 hr

theorem Switched.dropped {u : Task} (hs : Switched k next t sw k') (hu : k.tasks s = some u)
    (hnone : k'.tasks s = none) : s = k.current ∧ u.state = .dead := by
  by_cases hsn : s = next
  · rw [hsn, hs.task] at hnone
    cases hnone
  · by_cases hsc : s = k.current
    · subst hsc
      have hold := hs.old hu
      split at hold
      next hd => exact ⟨rfl, hd⟩
      · rw [hold.1] at hnone
        cases hnone
    · rw [hs.other hsn hsc, hu] at hnone
      cases hnone

theorem Scheduled.contextSwitch (h : Scheduled k) (rsp : Nat) : Scheduled (k.contextSwitch rsp) := by
  unfold Kernel.contextSwitch
  split
  next sw k1 hsw =>
    obtain ⟨next, t, hs⟩ := nextTaskSwitch_switched h hsw
    exact (hs.scheduled h).kills (saveRsp_kills _ _ _)
  · exact h

end Kernel

/-! ## Runs -/

/-- What drives the task table. `world` stands for everything else: memory, and
the process and thread records, as they may be at the next step. -/
inductive SchedOp
  | addTask (entry : Word)
  | spawnUserTask (entry stackTop : Word) (pml4 : Nat)
  | spawnForkedTask (syscallFrame pml4 : Nat)
  | killTask (slot : Slot)
  | exit (code : Int)
  | exitGroup (code : Int)
  | terminate (groupSlot : Slot) (sig : Nat)
  | switch (rsp : Nat)
  | world (phys : Phys) (processes : Slot → Option Process) (threads : Slot → Option Thread)

/-- The kernel after a spawn, or the same one when it fails. -/
def Kernel.spawned (k : Kernel) (r : Option (Slot × Kernel)) : Kernel := (r.map Prod.snd).getD k

def SchedOp.step (k : Kernel) : SchedOp → Option Kernel
  | addTask entry => some (k.spawned (k.addTask entry))
  | spawnUserTask entry stackTop pml4 => some (k.spawned (k.spawnUserTask entry stackTop pml4))
  | spawnForkedTask syscallFrame pml4 => some (k.spawned (k.spawnForkedTask syscallFrame pml4))
  | killTask slot => some (k.killTask slot)
  | exit code => some (syscallExit k code)
  | exitGroup code => some (syscallExitGroup k code)
  | terminate groupSlot sig => some (terminateProcessGroup k groupSlot sig)
  | switch rsp => some (k.contextSwitch rsp)
  | world phys processes threads => some { k with phys, processes, threads }

variable {k k' : Kernel} {op : SchedOp}

theorem SchedOp.step_cases (h : SchedOp.step k op = some k') :
    (∃ pml4 layout slot, k.spawnTask pml4 layout = some (slot, k')) ∨ k.Kills k' ∨
      ∃ rsp, op = .switch rsp ∧ k' = k.contextSwitch rsp := by
  have hspawn : ∀ {pml4 layout}, k.spawned (k.spawnTask pml4 layout) = k' →
      (∃ pml4 layout slot, k.spawnTask pml4 layout = some (slot, k')) ∨ k.Kills k' ∨
        ∃ rsp, op = .switch rsp ∧ k' = k.contextSwitch rsp := by
    intro pml4 layout h
    cases hr : k.spawnTask pml4 layout with
    | none =>
      rw [hr] at h
      cases h
      exact .inr (.inl (.of_tasks rfl rfl))
    | some x =>
      obtain ⟨slot, k1⟩ := x
      rw [hr] at h
      cases h
      exact .inl ⟨pml4, layout, slot, hr⟩
  cases op <;> cases h
  case addTask => exact hspawn rfl
  case spawnUserTask => exact hspawn rfl
  case spawnForkedTask => exact hspawn rfl
  case killTask slot => exact .inr (.inl (Kernel.killTask_kills k slot))
  case exit code => exact .inr (.inl (Kernel.syscallExit_kills k code))
  case exitGroup code => exact .inr (.inl (Kernel.syscallExitGroup_kills k code))
  case terminate g sig => exact .inr (.inl (Kernel.terminateProcessGroup_kills k g sig))
  case switch rsp => exact .inr (.inr ⟨rsp, rfl, rfl⟩)
  case world => exact .inr (.inl (.of_tasks rfl rfl))

theorem Kernel.Scheduled.step (h : k.Scheduled) (hs : SchedOp.step k op = some k') :
    k'.Scheduled := by
  rcases SchedOp.step_cases hs with ⟨pml4, layout, slot, hspawn⟩ | hkills | ⟨rsp, -, rfl⟩
  · exact (h.spawn hspawn).1
  · exact h.kills hkills
  · exact h.contextSwitch rsp

variable {ops : List SchedOp}

theorem Kernel.scheduled_of_run {phys : Phys} {code : CodeAddrs} {kernelPml4 stackBase : Nat}
    (h : Lts.exec SchedOp.step ((Kernel.statics phys code kernelPml4).initMainTask stackBase) ops = some k) :
    k.Scheduled :=
  Lts.exec_invariant Kernel.Scheduled (fun _ _ _ hk hs => hk.step hs)
    (Kernel.Scheduled.initMainTask phys code kernelPml4 stackBase) h

/-- **The scheduler's invariant.** From the registration of the main task, in
every state a run reaches: the current slot holds a task that runs or is dead,
and no other task runs; a spawn takes another slot than the current one; and a
switch returns what a ready task saved, makes it the one running task, and
drops no task that is not dead. -/
theorem scheduler_sound (phys : Phys) (code : CodeAddrs) (kernelPml4 stackBase : Nat) (ops : List SchedOp) (k : Kernel)
    (h : Lts.exec SchedOp.step ((Kernel.statics phys code kernelPml4).initMainTask stackBase) ops = some k) :
    (∃ t, k.tasks k.current = some t ∧ (t.state = .running ∨ t.state = .dead)) ∧
    (∀ s t, k.tasks s = some t → t.state = .running → s = k.current) ∧
    (∀ slot k', (∃ entry, k.addTask entry = some (slot, k')) ∨
        (∃ entry stackTop pml4, k.spawnUserTask entry stackTop pml4 = some (slot, k')) ∨
        (∃ syscallFrame pml4, k.spawnForkedTask syscallFrame pml4 = some (slot, k')) →
      k.tasks slot = none ∧ slot ≠ k.current ∧ k'.current = k.current) ∧
    ∀ sw k', k.nextTaskSwitch = some (sw, k') →
      (∃ t, k.tasks k'.current = some t ∧ t.state = .ready ∧ sw.rsp = t.rsp ∧ sw.pml4 = t.pml4 ∧
        k'.tasks k'.current = some { t with state := .running }) ∧
      (∀ s t, k'.tasks s = some t → t.state = .running → s = k'.current) ∧
      ∀ s t, k.tasks s = some t → k'.tasks s = none → t.state = .dead := by
  have hk := Kernel.scheduled_of_run h
  refine ⟨hk.current, fun _ _ => hk.unique, fun slot k' hspawn => ?_, fun sw k' hsw => ?_⟩
  · obtain ⟨pml4, layout, hs⟩ : ∃ pml4 layout, k.spawnTask pml4 layout = some (slot, k') := by
      rcases hspawn with ⟨_, hs⟩ | ⟨_, _, _, hs⟩ | ⟨_, _, hs⟩ <;> exact ⟨_, _, hs⟩
    exact ⟨(Kernel.spawnTask_task hs).1, (hk.spawn hs).2⟩
  · obtain ⟨next, t, hs⟩ := Kernel.nextTaskSwitch_switched hk hsw
    refine ⟨⟨t, ?_, hs.ready.2, hs.rsp, hs.pml4, ?_⟩, fun _ _ => (hs.scheduled hk).unique,
      fun s u hu hnone => (hs.dropped hu hnone).2⟩
    · rw [hs.current, hs.ready.1]
    · rw [hs.current, hs.task]

/-- Two tasks, the main one killed and switched away from. -/
def mainKilled : List SchedOp := [.addTask 0, .addTask 0, .killTask 0, .switch 5]

theorem scheduler_sound_mainKilled :
    ∃ k, Lts.exec SchedOp.step ((Kernel.statics allFree ⟨0, 0⟩ 0).initMainTask 0) mainKilled = some k ∧
      k.current = 1 ∧ ∃ t, k.tasks k.current = some t ∧ (t.state = .running ∨ t.state = .dead) := by
  have hrun : (Lts.exec SchedOp.step ((Kernel.statics allFree ⟨0, 0⟩ 0).initMainTask 0) mainKilled).map
      Kernel.current = some 1 := rfl
  obtain ⟨k, hk, hcur⟩ := Option.map_eq_some_iff.mp hrun
  exact ⟨k, hk, hcur, (scheduler_sound _ _ _ _ _ k hk).1⟩

/-! ## Fairness -/

/-- The slot holds a ready task. -/
def Kernel.Ready (k : Kernel) (s : Slot) : Prop := ∃ t, k.tasks s = some t ∧ t.state = .ready

variable {s : Slot}

theorem Kernel.Scheduled.schedulable_iff (h : k.Scheduled) :
    k.schedulable s = true ↔ k.Ready s := by
  simp only [Kernel.schedulable, Kernel.Ready, Option.any_eq_true, Bool.and_eq_true, beq_iff_eq]
  constructor
  · rintro ⟨t, ht, hr, -⟩
    exact ⟨t, ht, hr⟩
  · rintro ⟨t, ht, hr⟩
    exact ⟨t, ht, hr, h.valid ht⟩

theorem Kernel.nextTaskSwitch_find {sw : SwitchTo} (h : k.nextTaskSwitch = some (sw, k')) :
    (Cyclic.round k.current).find? k.schedulable = some k'.current := by
  simp only [nextTaskSwitch, Option.bind_eq_bind, Option.bind_eq_some_iff, Option.some.injEq, Prod.mk.injEq] at h
  obtain ⟨next, hfind, task, -, -, rfl⟩ := h
  exact hfind

/-- Whether a step is a switch that takes place. -/
def SchedOp.switches (k : Kernel) : SchedOp → Bool
  | switch _ => k.nextTaskSwitch.isSome
  | _ => false

/-- The step does not kill the task in the slot. -/
def SchedOp.Spares (s : Slot) (k : Kernel) (op : SchedOp) : Prop :=
  ∀ k' t, SchedOp.step k op = some k' → k'.tasks s = some t → t.state ≠ .dead

theorem Kernel.Kills.ready (hk : k.Kills k') (h : k.Ready s)
    (hspared : ∀ t, k'.tasks s = Option.some t → t.state ≠ .dead) : k'.Ready s := by
  obtain ⟨t, ht, hr⟩ := h
  obtain ⟨t', ht', -, hs⟩ := hk.some ht
  exact ⟨t', ht', (hs.resolve_right (hspared t' ht')).trans hr⟩

theorem Kernel.Ready.contextSwitch (hk : k.Scheduled) (h : k.Ready s) (rsp : Nat)
    (hspared : ∀ t, (k.contextSwitch rsp).tasks s = some t → t.state ≠ .dead) :
    (k.contextSwitch rsp).current = s ∨ ((k.contextSwitch rsp).Ready s ∧
      1 + Cyclic.dist (k.contextSwitch rsp).current s ≤ Cyclic.dist k.current s) := by
  obtain ⟨t, ht, hr⟩ := id h
  obtain ⟨sw, k1, hsw⟩ := nextTaskSwitch_isSome hk ht hr
  obtain ⟨next, u, hs⟩ := nextTaskSwitch_switched hk hsw
  have hkills : k1.Kills (k.contextSwitch rsp) := by
    unfold Kernel.contextSwitch
    rw [hsw]
    exact saveRsp_kills _ _ _
  rw [hkills.current]
  by_cases hnext : next = s
  · exact .inl (hs.current.trans hnext)
  · right
    have hcur : s ≠ k.current := hk.ne_current ht hr
    have hstill : k1.Ready s := ⟨t, (hs.other (Ne.symm hnext) hcur).trans ht, hr⟩
    have hfound := nextTaskSwitch_find hsw
    refine ⟨hkills.ready hstill hspared, ?_⟩
    have hnearer := Cyclic.dist_lt_of_find? hfound (hk.schedulable_iff.mpr h) (by rw [hs.current]; exact hnext)
    omega

theorem Kernel.Ready.step (hk : k.Scheduled) (h : k.Ready s) (hspares : op.Spares s k)
    (hs : SchedOp.step k op = some k') :
    k'.current = s ∨ (k'.Ready s ∧
      (if op.switches k then 1 else 0) + Cyclic.dist k'.current s ≤ Cyclic.dist k.current s) := by
  have hspared := fun t => hspares k' t hs
  by_cases hswitch : ∃ rsp, op = .switch rsp
  · obtain ⟨rsp, rfl⟩ := hswitch
    cases hs
    have hone : (if (SchedOp.switch rsp).switches k then 1 else 0) ≤ 1 := by split <;> decide
    rcases h.contextSwitch hk rsp hspared with hgoal | ⟨hready, hle⟩
    · exact .inl hgoal
    · exact .inr ⟨hready, by omega⟩
  · have hnone : op.switches k = false := by
      cases op
      case switch rsp => exact absurd ⟨rsp, rfl⟩ hswitch
      all_goals rfl
    rw [hnone]
    rcases SchedOp.step_cases hs with ⟨pml4, layout, slot, hspawn⟩ | hkills | ⟨rsp, he, -⟩
    · obtain ⟨hfree, hcur, u, htasks, -⟩ := spawnTask_task hspawn
      obtain ⟨t, ht, hr⟩ := h
      have hne : s ≠ slot := by
        rintro rfl
        rw [hfree] at ht
        cases ht
      refine .inr ⟨⟨t, by rw [htasks, update_of_ne hne, ht], hr⟩, ?_⟩
      rw [hcur]
      exact (Nat.zero_add _).le
    · refine .inr ⟨hkills.ready h hspared, ?_⟩
      rw [hkills.current]
      exact (Nat.zero_add _).le
    · exact absurd ⟨rsp, he⟩ hswitch

/-- **Round robin with bounded bypass.** In every reachable state in which a slot
holds a ready task: along any further spawns, kills and switches that do not kill
it, it is current after at most `maxTasks - 1` switches that take place; and a
switch is to the first slot after the current one, in cyclic order, that holds a
ready task. -/
theorem round_robin_bounded_bypass (phys : Phys) (code : CodeAddrs) (kernelPml4 stackBase : Nat) (ops : List SchedOp)
    (k : Kernel) (s : Slot)
    (h : Lts.exec SchedOp.step ((Kernel.statics phys code kernelPml4).initMainTask stackBase) ops = some k)
    (hready : k.Ready s) :
    (∀ ops' k', Lts.exec SchedOp.step k ops' = some k' → Lts.Meets SchedOp.step (SchedOp.Spares s) k ops' →
      maxTasks - 1 ≤ Lts.count SchedOp.step SchedOp.switches k ops' →
      ∃ before rest k1, ops' = before ++ rest ∧ Lts.exec SchedOp.step k before = some k1 ∧ k1.current = s ∧
        Lts.count SchedOp.step SchedOp.switches k before ≤ maxTasks - 1) ∧
    ∀ sw k', k.nextTaskSwitch = some (sw, k') → k.Ready k'.current ∧
      ∀ i, 0 < i → i < Cyclic.dist k.current k'.current → ¬ k.Ready (Cyclic.after k.current i) := by
  have hk := Kernel.scheduled_of_run h
  constructor
  · intro ops' k' hrun hspares hcount
    obtain ⟨t, ht, hr⟩ := id hready
    have hne : k.current ≠ s := (hk.ne_current ht hr).symm
    have hdist : Cyclic.dist k.current s ≤ maxTasks - 1 := Nat.le_sub_one_of_lt (Cyclic.dist_lt hne)
    obtain ⟨before, rest, k1, hsplit, hbefore, hgoal, hle⟩ :=
      Lts.reaches_within (I := fun k => k.Scheduled ∧ k.Ready s) (G := fun k => k.current = s)
        (fun k => Cyclic.dist k.current s) (fun k _ => Cyclic.dist_pos k.current s)
        (fun k op k' hI hop hs => (hI.2.step hI.1 hop hs).imp_right fun hnext => ⟨⟨hI.1.step hs, hnext.1⟩, hnext.2⟩)
        ⟨hk, hready⟩ hspares hrun (hdist.trans hcount)
    exact ⟨before, rest, k1, hsplit, hbefore, hgoal, hle.trans hdist⟩
  · intro sw k' hsw
    obtain ⟨hfound, hbefore⟩ := Cyclic.find?_round.mp (Kernel.nextTaskSwitch_find hsw)
    refine ⟨hk.schedulable_iff.mp hfound, fun i hpos hi hno => ?_⟩
    have hnot := hbefore i hpos hi
    rw [hk.schedulable_iff.mpr hno] at hnot
    cases hnot

theorem round_robin_bounded_bypass_addTask :
    ∃ k, Lts.exec SchedOp.step ((Kernel.statics allFree ⟨0, 0⟩ 0).initMainTask 0) [.addTask 0, .addTask 0] = some k ∧
      k.Ready 2 ∧ ∀ sw k', k.nextTaskSwitch = some (sw, k') → k.Ready k'.current := by
  have hrun : (Lts.exec SchedOp.step ((Kernel.statics allFree ⟨0, 0⟩ 0).initMainTask 0) [.addTask 0, .addTask 0]).map
      (fun k => (k.tasks 2).map Task.state) = some (some .ready) := rfl
  obtain ⟨k, hk, hstate⟩ := Option.map_eq_some_iff.mp hrun
  obtain ⟨t, ht, hr⟩ := Option.map_eq_some_iff.mp hstate
  have hbypass := round_robin_bounded_bypass _ _ _ _ _ k 2 hk ⟨t, ht, hr⟩
  exact ⟨k, hk, ⟨t, ht, hr⟩, fun sw k' hsw => (hbypass.2 sw k' hsw).1⟩

/-! ## Slots of dead tasks -/

/-- The kernel after further switches, with the stack pointers they save. -/
def Kernel.switches (k : Kernel) (rsps : List Nat) : Kernel := rsps.foldl Kernel.contextSwitch k

/-- A dead task that is not the current one. -/
structure Kernel.Stranded (k : Kernel) (s : Slot) : Prop where
  dead : ∃ t, k.tasks s = some t ∧ t.state = .dead
  ne : s ≠ k.current

theorem Kernel.Kills.stranded (hk : Kills k k') (h : k.Stranded s) : k'.Stranded s := by
  obtain ⟨t, ht, hd⟩ := h.dead
  obtain ⟨t', ht', -, hs⟩ := hk.some ht
  refine ⟨⟨t', ht', ?_⟩, by rw [hk.current]; exact h.ne⟩
  rcases hs with hs | hs
  · exact hs.trans hd
  · exact hs

theorem Kernel.Stranded.contextSwitch (hk : k.Scheduled) (h : k.Stranded s) (rsp : Nat) :
    (k.contextSwitch rsp).Stranded s := by
  unfold Kernel.contextSwitch
  split
  next sw k1 hsw =>
    obtain ⟨next, t, hs⟩ := Kernel.nextTaskSwitch_switched hk hsw
    obtain ⟨u, hu, hd⟩ := h.dead
    -- the task that is switched to is ready, so it is another one
    have hne : s ≠ next := by
      rintro rfl
      cases hs.ready.1.symm.trans hu
      rw [hs.ready.2] at hd
      cases hd
    have h1 : k1.Stranded s := by
      refine ⟨⟨u, by rw [hs.other hne h.ne, hu], hd⟩, ?_⟩
      rw [hs.current]
      exact hne
    exact (Kernel.saveRsp_kills _ _ _).stranded h1
  · exact h

theorem Kernel.Stranded.step (hk : k.Scheduled) (h : k.Stranded s) (hs : SchedOp.step k op = some k') :
    k'.Stranded s := by
  rcases SchedOp.step_cases hs with ⟨pml4, layout, slot, hspawn⟩ | hkills | ⟨rsp, -, rfl⟩
  · obtain ⟨hfree, hcur, t, htasks, -⟩ := Kernel.spawnTask_task hspawn
    obtain ⟨u, hu, hd⟩ := h.dead
    refine ⟨⟨u, ?_, hd⟩, by rw [hcur]; exact h.ne⟩
    rw [htasks, update_of_ne, hu]
    rintro rfl
    rw [hfree] at hu
    cases hu
  · exact hkills.stranded h
  · exact h.contextSwitch hk rsp

theorem Kernel.Stranded.switches : ∀ (rsps : List Nat) {k : Kernel}, k.Scheduled → k.Stranded s →
    (k.switches rsps).Stranded s
  | [], _, _, h => h
  | rsp :: rsps, k, hk, h => by
    have hnext : (k.contextSwitch rsp).Stranded s := h.contextSwitch hk rsp
    exact hnext.switches rsps (hk.contextSwitch rsp)

theorem Kernel.Stranded.run (hk : k.Scheduled) (h : k.Stranded s) (hrun : Lts.exec SchedOp.step k ops = some k') :
    k'.Stranded s := by
  have hboth : k.Scheduled ∧ k.Stranded s := ⟨hk, h⟩
  exact (Lts.exec_invariant (fun k => k.Scheduled ∧ k.Stranded s)
    (fun _ _ _ hi hs => ⟨hi.1.step hs, hi.2.step hi.1 hs⟩) hboth hrun).2

theorem Kernel.contextSwitch_frees (hk : k.Scheduled) {t u : Task} (ht : k.tasks k.current = some t)
    (hd : t.state = .dead) (hu : k.tasks s = some u) (hr : u.state = .ready) (rsp : Nat) :
    (k.contextSwitch rsp).tasks k.current = none := by
  obtain ⟨sw, k1, hsw⟩ := Kernel.nextTaskSwitch_isSome hk hu hr
  obtain ⟨next, v, hs⟩ := Kernel.nextTaskSwitch_switched hk hsw
  have hold := hs.old ht
  rw [if_pos hd] at hold
  simp only [Kernel.contextSwitch, hsw, hold.2, Kernel.saveRsp]
  exact hold.1

/-- **Slots of killed tasks.** In every reachable state, with another task
ready, some number of switches empties the slot of a dead task exactly when it
is the current one; any other dead task is there for good, whatever is spawned,
killed or switched. -/
theorem dead_slot_freed_iff (phys : Phys) (code : CodeAddrs) (kernelPml4 stackBase : Nat) (ops : List SchedOp)
    (k : Kernel) (s r : Slot) (t u : Task)
    (h : Lts.exec SchedOp.step ((Kernel.statics phys code kernelPml4).initMainTask stackBase) ops = some k)
    (ht : k.tasks s = some t) (hd : t.state = .dead) (hu : k.tasks r = some u) (hr : u.state = .ready) :
    ((∃ n, ∀ rsps : List Nat, rsps.length = n → (k.switches rsps).tasks s = none) ↔ s = k.current) ∧
      (s ≠ k.current → ∀ ops' k', Lts.exec SchedOp.step k ops' = some k' →
        ∃ t', k'.tasks s = some t' ∧ t'.state = .dead) := by
  have hk := Kernel.scheduled_of_run h
  have hstranded : s ≠ k.current → k.Stranded s := fun hne => ⟨⟨t, ht, hd⟩, hne⟩
  refine ⟨⟨fun ⟨n, hn⟩ => ?_, ?_⟩, fun hne ops' k' hrun => ((hstranded hne).run hk hrun).dead⟩
  · by_contra hne
    obtain ⟨v, hv, -⟩ := ((hstranded hne).switches (List.replicate n 0) hk).dead
    rw [hn _ (List.length_replicate ..)] at hv
    cases hv
  · rintro rfl
    refine ⟨1, fun rsps hlen => ?_⟩
    obtain ⟨rsp, rfl⟩ := List.length_eq_one_iff.mp hlen
    exact Kernel.contextSwitch_frees hk ht hd hu hr rsp

/-- The main task is killed while it is current. -/
theorem dead_slot_freed_iff_main :
    ∃ k, Lts.exec SchedOp.step ((Kernel.statics allFree ⟨0, 0⟩ 0).initMainTask 0)
        [.addTask 0, .killTask 0] = some k ∧
      ∃ n, ∀ rsps : List Nat, rsps.length = n → (k.switches rsps).tasks 0 = none := by
  have hrun : (Lts.exec SchedOp.step ((Kernel.statics allFree ⟨0, 0⟩ 0).initMainTask 0)
      [.addTask 0, .killTask 0]).map (fun k => (k.current, (k.tasks 0).map Task.state, (k.tasks 1).map Task.state)) =
      some (0, some .dead, some .ready) := rfl
  obtain ⟨k, hk, he⟩ := Option.map_eq_some_iff.mp hrun
  simp only [Prod.mk.injEq, Option.map_eq_some_iff] at he
  obtain ⟨hcur, ⟨t, ht, hd⟩, u, hu, hr⟩ := he
  exact ⟨k, hk, (dead_slot_freed_iff _ _ _ _ _ k 0 1 t u hk ht hd hu hr).1.mpr hcur.symm⟩

/-- **A killed task's slot is lost.** A ready task is killed by the main one;
its slot stays taken through any number of switches although another task is
ready. -/
theorem killed_slot_is_lost :
    ∃ k, Lts.exec SchedOp.step ((Kernel.statics allFree ⟨0, 0⟩ 0).initMainTask 0)
        [.addTask 0, .addTask 0, .killTask 1] = some k ∧
      (∃ t, k.tasks 1 = some t ∧ t.state = .dead) ∧ (∃ u, k.tasks 2 = some u ∧ u.state = .ready) ∧
      ∀ rsps : List Nat, (k.switches rsps).tasks 1 ≠ none := by
  have hrun : (Lts.exec SchedOp.step ((Kernel.statics allFree ⟨0, 0⟩ 0).initMainTask 0)
      [.addTask 0, .addTask 0, .killTask 1]).map
        (fun k => (k.current, (k.tasks 1).map Task.state, (k.tasks 2).map Task.state)) =
      some (0, some .dead, some .ready) := rfl
  obtain ⟨k, hk, he⟩ := Option.map_eq_some_iff.mp hrun
  simp only [Prod.mk.injEq, Option.map_eq_some_iff] at he
  obtain ⟨hcur, hdead, hready⟩ := he
  have hstranded : k.Stranded 1 := ⟨hdead, by rw [hcur]; decide⟩
  refine ⟨k, hk, hdead, hready, fun rsps hnone => ?_⟩
  obtain ⟨v, hv, -⟩ := (hstranded.switches rsps (Kernel.scheduled_of_run hk)).dead
  rw [hnone] at hv
  cases hv

end CoreOS
