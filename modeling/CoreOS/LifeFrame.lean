/-
What the steps of the process state machine can do to the tables: leave every
record with its process, reap one, create a process or a thread in the free
slot, or switch (`LifeOp.step_cases`).
-/
import CoreOS.RecordFrame
import CoreOS.ZombieFinal

namespace CoreOS

open ByteMem

/-- Whether a step creates a process, if it creates a task. -/
def LifeOp.creates : LifeOp → Bool
  | fork .. | exec .. => true
  | _ => false

/-- Which process a record is of, and whose child. -/
def Process.ident (p : Process) : Nat × Nat := (p.pid, p.parentPid)

/-- Nothing is created, taken away or switched to: every record is still that
of its process, tasks are at most killed, and files stay open. -/
structure Lived (k k' : Kernel) : Prop where
  kills : k.Kills k'
  files : k'.openFiles = k.openFiles
  idents : ∀ x, (k'.processes x).map Process.ident = (k.processes x).map Process.ident

theorem SameRecords.lived {k k' : Kernel} (h : SameRecords k k') : Lived k k' :=
  ⟨h.kills, h.openFiles, h.map_processes fun _ => rfl⟩

theorem Lived.refl (k : Kernel) : Lived k k := (SameRecords.refl k).lived

/-! ## Descriptors

Signals, the end of threads, new threads and switches leave every descriptor,
and what it leads to, as it is. -/

theorem SameRecords.sameFds {k k' : Kernel} (h : SameRecords k k') : SameFds k k' where
  openFiles := h.openFiles
  pipes := h.pipes
  fds := h.map_processes fun _ => rfl
  flags := h.map_processes fun _ => rfl
  fs := h.fs

namespace SameFds

variable {k k' : Kernel}

theorem spawnTask {pml4 : Nat} {layout : Mem → Nat → Mem × Nat} {slot : Slot}
    (h : k.spawnTask pml4 layout = some (slot, k')) : SameFds k k' := by
  unfold Kernel.spawnTask at h
  split at h
  · cases h
  · dsimp only at h
    split at h
    · cases h
    · cases h
      exact .of_processes rfl rfl rfl rfl

theorem cloneThread {frame c b : Nat} {tid : Option Nat} (h : CoreOS.cloneThread k frame c b = some (tid, k')) :
    SameFds k k' := by
  unfold CoreOS.cloneThread at h
  split at h
  · cases h
    exact .refl _
  next slot k1 hsp =>
    obtain ⟨⟨tid', k2⟩, hs, he⟩ := Option.map_eq_some_iff.mp h
    cases he
    exact (spawnTask hsp).trans (.spawnThreadInGroup hs)

theorem nextTaskSwitch {sw : Kernel.SwitchTo} (h : k.nextTaskSwitch = some (sw, k')) : SameFds k k' := by
  have hleft : SameFds k k.leaveTask.2 := by
    unfold Kernel.leaveTask Kernel.taskSlotReaped
    split
    · exact .refl k
    · split
      · split
        · split <;> exact .of_processes rfl rfl rfl rfl
        · exact .of_processes rfl rfl rfl rfl
      · exact .of_processes rfl rfl rfl rfl
  simp only [Kernel.nextTaskSwitch, Option.bind_eq_bind, Option.bind_eq_some_iff, Option.some.injEq,
    Prod.mk.injEq] at h
  obtain ⟨next, -, task, -, -, rfl⟩ := h
  exact hleft.trans (.of_processes rfl rfl rfl rfl)

end SameFds

/-- The steps that work on the records there are. -/
def LifeOp.inPlace : LifeOp → Bool
  | exit .. | exitGroup .. | kill .. | tkill .. | tgkill .. | finish .. | fault .. => true
  | _ => false

theorem LifeOp.sameRecords {k k' : Kernel} {op : LifeOp} (hop : op.inPlace = true) (h : op.step k = some k') :
    SameRecords k k' := by
  cases op with
  | exit code => exact Option.some.inj h ▸ .syscallExit code
  | exitGroup code => exact Option.some.inj h ▸ .syscallExitGroup code
  | kill pid sig => exact Option.some.inj h ▸ .syscallKill pid sig
  | tkill tid sig => exact Option.some.inj h ▸ .syscallTkill tid sig
  | tgkill tgid tid sig => exact Option.some.inj h ▸ .syscallTgkill tgid tid sig
  | finish frame user => exact Option.some.inj h ▸ .deliver frame user
  | fault vector => exact Option.some.inj h ▸ (SameRecords.exitThread vector false).trans (.killTask _)
  | fork | exec | cloneThread | reap | other | switch => cases hop

/-- **What a step can do.** It leaves the records with their processes, reaps
one, creates a process or a thread in the free slot, or switches. -/
theorem LifeOp.step_cases {k k' : Kernel} {op : LifeOp} (h : op.step k = some k') :
    Lived k k' ∨
    (∃ slot, k'.processes = Function.update k.processes slot none ∧ k'.tasks = k.tasks ∧ k'.current = k.current) ∨
    (∃ slot k1 p, op.creates = true ∧ Kernel.Spawned k slot k1 ∧
      k'.processes = Function.update k.processes slot (some p) ∧ k'.tasks = k1.tasks ∧ k'.current = k.current) ∨
    (∃ slot k1, op.creates = false ∧ Kernel.Spawned k slot k1 ∧
      (∀ x, (k'.processes x).map Process.ident = (k.processes x).map Process.ident) ∧ k'.tasks = k1.tasks ∧
      k'.current = k.current) ∨
    ∃ sw, k.nextTaskSwitch = some (sw, k') := by
  cases op with
  | fork frame pml4 =>
    obtain ⟨⟨pid, k''⟩, hf, rfl⟩ := Option.map_eq_some_iff.mp h
    rcases forkTask_cases hf with ⟨-, rfl⟩ | ⟨slot, k1, parent, pt, -, sp, -, -, hpr, -, hta, hcur⟩
    · exact .inl (.refl _)
    · exact .inr (.inr (.inl ⟨slot, k1, _, rfl, sp, sp.processes ▸ hpr, hta, hcur⟩))
  | exec entry stackTop pml4 name =>
    cases h
    rcases execTask_cases k entry stackTop pml4 name with he | ⟨slot, k1, k'', he, sp, hpr, -, hta, hcur, -⟩
    · exact he ▸ .inl (.refl k)
    · exact he ▸ .inr (.inr (.inl ⟨slot, k1, _, rfl, sp, sp.processes ▸ hpr, hta, hcur⟩))
  | cloneThread frame c b =>
    obtain ⟨⟨tid, k''⟩, hf, rfl⟩ := Option.map_eq_some_iff.mp h
    rcases cloneThread_cases hf with ⟨-, rfl⟩ | ⟨slot, k1, pt, p, -, sp, -, hp, hpr, -, hta, hcur, -⟩
    · exact .inl (.refl _)
    · rw [sp.processes] at hpr
      refine .inr (.inr (.inr (.inl ⟨slot, k1, rfl, sp, fun x => ?_, hta, hcur⟩)))
      rw [hpr]
      by_cases hx : x = pt.groupSlot
      · rw [hx, Function.update_self, hp]
        rfl
      · rw [Function.update_of_ne hx]
  | exit | exitGroup | kill | tkill | tgkill | finish | fault => exact .inl (sameRecords rfl h).lived
  | reap slot =>
    cases h
    cases hr : reapSlot k slot with
    | none => exact .inl (.refl k)
    | some x =>
      obtain ⟨p, -, -, -, hpr, -, hta, hcur⟩ := reapSlot_spec hr
      exact .inr (.inl ⟨slot, hpr, hta, hcur⟩)
  | other phys f g =>
    cases h
    refine .inl ⟨.of_tasks rfl rfl, rfl, fun x => ?_⟩
    dsimp only
    rw [Option.map_map]
    rfl
  | switch =>
    cases h
    cases hsw : k.nextTaskSwitch with
    | none => exact .inl (.refl k)
    | some x => exact .inr (.inr (.inr (.inr ⟨x.1, rfl⟩)))

end CoreOS
