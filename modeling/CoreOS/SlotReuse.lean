/-
Process and thread records against slot reuse. A new task takes the first slot
whose `TASKS` entry is empty, and its records are then written over whatever
`PROCESSES` and `THREADS` hold there: a zombie waiting for its parent, or a
process whose first thread has exited, is lost (`slot_reuse_loses_zombie`).
As long as every spawn finds its slot without a process record, no record is
lost and every thread stays in the process it was created in
(`records_outlive_slot_reuse`).
-/
import CoreOS.SlotTables

namespace CoreOS

open ByteMem
open Function (update update_self update_of_ne)

/-! ## Runs -/

/-- A process that was created and not yet reaped. -/
structure ProcEntry where
  slot : Slot
  pid : Nat
  deriving DecidableEq

/-- A thread that was created, by a process `pid` led by slot `group`, and has
not exited. -/
structure ThreadEntry where
  slot : Slot
  tid : Nat
  group : Slot
  pid : Nat
  deriving DecidableEq

structure SlotRun where
  kernel : Kernel
  procs : List ProcEntry
  live : List ThreadEntry

/-- `fork` stands for `clone` without `CLONE_THREAD` as well; `memory` is
everything that goes on in memory in between, the copying of address spaces
and the loading of images included. -/
inductive SlotOp
  | memory (phys : Phys)
  | fork (syscallFrame childPml4 : Nat)
  | cloneThread (syscallFrame clearChildTid tls : Nat)
  | exec (entry stackTop : Word) (pml4 : Nat) (name : List Char)
  | exit (code : Int)
  | exitGroup (code : Int)
  | switch
  | reap (slot : Slot)

namespace SlotRun

/-- The caller of a system call: the current thread, not exited. -/
def caller (s : SlotRun) : Option Thread := s.kernel.currentThread.filter fun t => t.state = .running

def withKernel (s : SlotRun) (k : Kernel) : SlotRun := { s with kernel := k }

/-- A process and its first thread were created in `slot`. -/
def addProcess (s : SlotRun) (k : Kernel) (slot : Slot) (pid : Nat) : SlotRun where
  kernel := k
  procs := ⟨slot, pid⟩ :: s.procs
  live := ⟨slot, pid, slot, pid⟩ :: s.live

/-- One step, by a thread that has not exited. Images are also started by the
kernel's own task, which has no thread record. -/
def step (s : SlotRun) : SlotOp → Option SlotRun
  | .memory phys => some (s.withKernel (s.kernel.setPhys phys))
  | .fork syscallFrame childPml4 => do
    let _ ← s.caller
    let (pid, k) ← forkTask s.kernel syscallFrame childPml4
    match pid, s.kernel.freeTaskSlot with
    | some pid, some slot => some (s.addProcess k slot pid)
    | _, _ => some (s.withKernel k)
  | .cloneThread syscallFrame clearChildTid tls => do
    let t ← s.caller
    let (tid, k) ← cloneThread s.kernel syscallFrame clearChildTid tls
    match tid, s.kernel.freeTaskSlot with
    | some tid, some slot =>
      some { s with kernel := k, live := ⟨slot, tid, t.groupSlot, s.kernel.currentPid⟩ :: s.live }
    | _, _ => some (s.withKernel k)
  | .exec entry stackTop pml4 name =>
    if s.kernel.currentThread.isSome ∧ s.caller.isNone then none
    else
      let (pid, k) := execTask s.kernel entry stackTop pml4 name
      match pid, s.kernel.freeTaskSlot with
      | some pid, some slot => some (s.addProcess k slot pid)
      | _, _ => some (s.withKernel k)
  | .exit code => do
    let _ ← s.caller
    some { s with
      kernel := syscallExit s.kernel code
      live := s.live.filter fun e => e.slot ≠ s.kernel.current }
  | .exitGroup code => do
    let t ← s.caller
    some { s with
      kernel := syscallExitGroup s.kernel code
      live := s.live.filter fun e => e.group ≠ t.groupSlot }
  | .switch => some (s.withKernel (s.kernel.nextTaskSwitch.elim s.kernel Prod.snd))
  | .reap slot =>
    match reapSlot s.kernel slot with
    | some (_, k) => some { s with kernel := k, procs := s.procs.filter fun e => e.slot ≠ slot }
    | none => some s

/-- The kernel's own task runs and there are no processes yet. -/
def boot (phys : Phys) (code : CodeAddrs) (kernelPml4 stackBase : Nat) : SlotRun where
  kernel := (Kernel.statics phys code kernelPml4).initMainTask stackBase
  procs := []
  live := []

/-- No record was lost: every process created and not reaped has its record in
its slot, and every thread created and not exited has its record, which leads
to the process it was created in. -/
structure Intact (s : SlotRun) : Prop where
  procs : ∀ e ∈ s.procs, ∃ p, s.kernel.processes e.slot = some p ∧ p.pid = e.pid
  live : ∀ e ∈ s.live, ∃ t p, s.kernel.threads e.slot = some t ∧ t.tid = e.tid ∧ t.groupSlot = e.group ∧
    t.state = .running ∧ s.kernel.processes e.group = some p ∧ p.pid = e.pid

/-- The condition on a step: where a task is about to be created, its slot
holds no process record. -/
def SpawnsIntoFree (s : SlotRun) : SlotOp → Prop
  | .fork .. | .cloneThread .. | .exec .. =>
    ∀ slot, s.kernel.freeTaskSlot = some slot → s.kernel.processes slot = none
  | _ => True

instance {s : SlotRun} {op : SlotOp} : Decidable (s.SpawnsIntoFree op) :=
  match op with
  | .fork .. | .cloneThread .. | .exec .. => inferInstanceAs (Decidable (∀ _, _ → _))
  | .memory .. | .exit .. | .exitGroup .. | .switch | .reap .. => inferInstanceAs (Decidable True)

end SlotRun

/-! ## Records are kept -/

namespace SlotRun

variable {s t : SlotRun}

/-- The tables are consistent and nothing was lost. -/
structure Sound (s : SlotRun) : Prop where
  ok : SlotsOK s.kernel
  intact : s.Intact

variable {k : Kernel}

theorem Intact.keep {live : List ThreadEntry} (h : s.Intact)
    (hpr : ∀ {x q}, s.kernel.processes x = some q → ∃ q', k.processes x = some q' ∧ q'.pid = q.pid)
    (hlive : live ⊆ s.live)
    (hth : ∀ e ∈ live, ∀ {u}, s.kernel.threads e.slot = some u → u.groupSlot = e.group → u.state = .running → k.threads e.slot = some u) :
    Intact { s with kernel := k, live := live } := by
  constructor
  · intro e he
    obtain ⟨p, hp, hpid⟩ := h.procs e he
    obtain ⟨p', hp', heq⟩ := hpr hp
    exact ⟨p', hp', heq.trans hpid⟩
  · intro e he
    obtain ⟨u, p, hu, htid, hg, hr, hp, hpid⟩ := h.live e (hlive he)
    obtain ⟨p', hp', heq⟩ := hpr hp
    exact ⟨u, p', hth e he hu hg hr, htid, hg, hr, hp', heq.trans hpid⟩

variable {slot : Slot} {p : Process} {u : Thread}

theorem Intact.addProcess {pid : Nat} (h : s.Intact) (hnone : s.kernel.processes slot = none)
    (hidle : ∀ u, s.kernel.threads slot = some u → u.state ≠ .running) (hp : p.pid = pid)
    (hu : u.tid = pid ∧ u.groupSlot = slot ∧ u.state = .running)
    (hpr : k.processes = update s.kernel.processes slot (some p))
    (hth : k.threads = update s.kernel.threads slot (some u)) : (s.addProcess k slot pid).Intact := by
  have hne : ∀ {x q}, s.kernel.processes x = some q → x ≠ slot := by
    rintro x q hq rfl
    rw [hnone] at hq
    cases hq
  constructor
  · intro e he
    rcases List.mem_cons.mp he with rfl | he
    · exact ⟨p, hpr ▸ update_self .., hp⟩
    · obtain ⟨q, hq, hpid⟩ := h.procs e he
      exact ⟨q, by rw [SlotRun.addProcess, hpr, update_of_ne (hne hq), hq], hpid⟩
  · intro e he
    rcases List.mem_cons.mp he with rfl | he
    · exact ⟨u, p, hth ▸ update_self .., hu.1, hu.2.1, hu.2.2, hpr ▸ update_self .., hp⟩
    · obtain ⟨w, q, hw, htid, hg, hr, hq, hpid⟩ := h.live e he
      have hx : e.slot ≠ slot := fun hx => hidle w (hx ▸ hw) hr
      refine ⟨w, q, ?_, htid, hg, hr, ?_, hpid⟩
      · rw [SlotRun.addProcess, hth, update_of_ne hx, hw]
      · rw [SlotRun.addProcess, hpr, update_of_ne (hne hq), hq]

theorem Intact.addThread {g : Slot} {tid : Nat} {p' : Process} (h : s.Intact)
    (hidle : ∀ u, s.kernel.threads slot = some u → u.state ≠ .running) (hp : s.kernel.processes g = some p)
    (hpid : p'.pid = p.pid) (hu : u.tid = tid ∧ u.groupSlot = g ∧ u.state = .running)
    (hpr : k.processes = update s.kernel.processes g (some p'))
    (hth : k.threads = update s.kernel.threads slot (some u)) :
    Intact { s with kernel := k, live := ⟨slot, tid, g, p.pid⟩ :: s.live } := by
  have hkeep : Intact { s with kernel := k, live := s.live } := by
    refine h.keep (fun {x q} hx => ?_) (List.Subset.refl _) fun e _ w hw _ hr => ?_
    · by_cases hxg : x = g
      · subst hxg
        cases hp.symm.trans hx
        exact ⟨p', hpr ▸ update_self .., hpid⟩
      · exact ⟨q, by rw [hpr, update_of_ne hxg, hx], rfl⟩
    · rw [hth, update_of_ne, hw]
      rintro rfl
      exact hidle w hw hr
  refine ⟨hkeep.procs, fun e he => ?_⟩
  rcases List.mem_cons.mp he with rfl | he
  · exact ⟨u, p', hth ▸ update_self .., hu.1, hu.2.1, hu.2.2, hpr ▸ update_self .., hpid⟩
  · exact hkeep.live e he

theorem caller_spec (h : s.caller = some u) :
    s.kernel.threads s.kernel.current = some u ∧ u.state = .running := by
  have := Option.filter_eq_some_iff.mp h
  exact ⟨this.1, by simpa using this.2⟩

theorem Sound.newProcess {k1 : Kernel} {pid : Nat} (h : s.Sound) (sp : Kernel.Spawned s.kernel slot k1)
    (hnone : s.kernel.processes slot = none) (hp : p.pid = pid ∧ p.state = .running ∧ p.threadCount = 1)
    (hu : u.tid = pid ∧ u.groupSlot = slot ∧ u.taskSlot = slot ∧ u.state = .running)
    (hpr : k.processes = update k1.processes slot (some p))
    (hth : k.threads = update k1.threads slot (some u)) (hta : k.tasks = k1.tasks) :
    (s.addProcess k slot pid).Sound where
  ok := (sp.slotsOK h.ok).newProcess (sp.processes ▸ hnone) (fun _ hw => sp.idle h.ok hw) sp.task_self hp.2 hu.2
    hpr hth hta
  intact := h.intact.addProcess hnone (fun _ hw => sp.idle h.ok (sp.threads ▸ hw)) hp.1 ⟨hu.1, hu.2.1, hu.2.2.2⟩
    (hpr.trans (by rw [sp.processes])) (hth.trans (by rw [sp.threads]))

theorem Sound.fork {frame pml4 : Nat} (h : s.Sound) (hfree : s.SpawnsIntoFree (.fork frame pml4))
    (hs : s.step (.fork frame pml4) = some t) : t.Sound := by
  simp only [step, Option.bind_eq_bind, Option.bind_eq_some_iff] at hs
  obtain ⟨_, -, ⟨pid, k⟩, hk, hs⟩ := hs
  rcases forkTask_cases hk with ⟨rfl, rfl⟩ | ⟨slot, k1, parent, pt, rfl, sp, -, -, hpr, hth, hta, -⟩
  · cases hs
    exact h
  · rw [sp.free] at hs
    cases hs
    exact h.newProcess sp (hfree slot sp.free) ⟨rfl, rfl, rfl⟩ ⟨rfl, rfl, rfl, rfl⟩ hpr hth hta

theorem Sound.exec {entry stackTop : Word} {pml4 : Nat} {name : List Char} (h : s.Sound)
    (hfree : s.SpawnsIntoFree (.exec entry stackTop pml4 name))
    (hs : s.step (.exec entry stackTop pml4 name) = some t) : t.Sound := by
  simp only [step] at hs
  split at hs
  · cases hs
  rcases execTask_cases s.kernel entry stackTop pml4 name with he | ⟨slot, k1, k, he, sp, hpr, hth, hta, -⟩
  · rw [he] at hs
    cases hs
    exact h
  · rw [he, sp.free] at hs
    cases hs
    exact h.newProcess sp (hfree slot sp.free) ⟨rfl, rfl, rfl⟩ ⟨rfl, rfl, rfl, rfl⟩ hpr hth hta

theorem Sound.cloneThread {frame c b : Nat} (h : s.Sound) (hfree : s.SpawnsIntoFree (.cloneThread frame c b))
    (hs : s.step (.cloneThread frame c b) = some t) : t.Sound := by
  simp only [step, Option.bind_eq_bind, Option.bind_eq_some_iff] at hs
  obtain ⟨pt, hpt, ⟨tid, k⟩, hk, hs⟩ := hs
  obtain ⟨hcur, hrun⟩ := caller_spec hpt
  rcases cloneThread_cases hk with ⟨rfl, rfl⟩ | ⟨slot, k1, pt', p, rfl, sp, hpt', hp, hpr, hth, hta, -⟩
  · cases hs
    exact h
  · have hnone := hfree slot sp.free
    rw [sp.free] at hs
    cases hs
    obtain rfl : pt = pt' := Option.some.inj (hcur.symm.trans hpt')
    obtain ⟨q, hq, hqs⟩ := h.ok.process hcur hrun
    cases hp.symm.trans hq
    have hpid : s.kernel.currentPid = p.pid := by
      simp [Kernel.currentPid, Kernel.currentProcess, Kernel.currentThread, hcur, hp]
    rw [hpid]
    constructor
    · refine (sp.slotsOK h.ok).newThread (sp.processes ▸ hnone) (fun _ hw => sp.idle h.ok hw) sp.task_self
        (sp.processes ▸ hp) hqs ?_ hpr hth hta
      exact ⟨rfl, rfl, rfl⟩
    · rw [sp.processes] at hpr
      rw [sp.threads] at hth
      refine h.intact.addThread (fun _ hw => sp.idle h.ok (sp.threads ▸ hw)) hp ?_ ?_ hpr hth
      · rfl
      · exact ⟨rfl, rfl, rfl⟩

theorem pids_kept {k1 k' : Kernel} {c g : Slot} {p' : Process} (hp : k.processes g = some p) (hpid : p'.pid = p.pid)
    (hpr : k1.processes = update k.processes g (some p')) (hend : Ended k1 c k') {x : Slot} {q : Process}
    (hx : k.processes x = some q) : ∃ q', k'.processes x = some q' ∧ q'.pid = q.pid := by
  have hq1 : ∃ q1, k1.processes x = some q1 ∧ q1.pid = q.pid := by
    by_cases hxg : x = g
    · subst hxg
      cases hp.symm.trans hx
      exact ⟨p', hpr ▸ update_self .., hpid⟩
    · exact ⟨q, by rw [hpr, update_of_ne hxg, hx], rfl⟩
  obtain ⟨q1, hq1, heq⟩ := hq1
  obtain ⟨q', hq', hl⟩ := hend.processes.fwd hq1
  exact ⟨q', hq', (life_pid hl).trans heq⟩

theorem Sound.exit {code : Int} (h : s.Sound) (hs : s.step (.exit code) = some t) : t.Sound := by
  simp only [step, Option.bind_eq_bind, Option.bind_eq_some_iff, Option.some.injEq] at hs
  obtain ⟨pt, hpt, rfl⟩ := hs
  obtain ⟨hcur, hrun⟩ := caller_spec hpt
  obtain ⟨p, hp, hps⟩ := h.ok.process hcur hrun
  obtain ⟨k1, p', hth, hpr, hta, hpid, hcount, hlast, hend⟩ := syscallExit_spec code hcur hp hps
  constructor
  · refine hend.slotsOK (h.ok.exitOne hcur hrun hp hth hpr hcount hlast fun _ htask hd => ⟨_, hta ▸ htask, hd⟩) ?_
    intro u hu
    rw [hth, update_self] at hu
    cases hu
    nofun
  · refine h.intact.keep (pids_kept hp hpid hpr hend) (List.filter_subset_self _) fun e he u hu _ _ => ?_
    have hne : e.slot ≠ s.kernel.current := by simpa using (List.mem_filter.mp he).2
    rw [hend.threads, hth, update_of_ne hne, hu]

theorem Sound.exitGroup {code : Int} (h : s.Sound) (hs : s.step (.exitGroup code) = some t) : t.Sound := by
  simp only [step, Option.bind_eq_bind, Option.bind_eq_some_iff, Option.some.injEq] at hs
  obtain ⟨pt, hpt, rfl⟩ := hs
  obtain ⟨hcur, hrun⟩ := caller_spec hpt
  obtain ⟨p, hp, -⟩ := h.ok.process hcur hrun
  obtain ⟨k1, p', hth, hpr, hta, -, hpid, hz, hend⟩ := syscallExitGroup_spec code hcur hp
  constructor
  · refine hend.slotsOK (h.ok.exitAll (by simp [hp]) hth hpr hz fun {x u task} hu hg htask hd => ?_) ?_
    · refine ⟨task, (hta fun w hw => ?_).trans htask, hd⟩
      cases hu.symm.trans hw
      exact hg
    · intro u hu
      rw [hth, hcur] at hu
      cases hu
      simp [zombify]
  · refine h.intact.keep (pids_kept hp hpid hpr hend) (List.filter_subset_self _) fun e he u hu hg _ => ?_
    have hne : e.group ≠ pt.groupSlot := by simpa using (List.mem_filter.mp he).2
    rw [hend.threads, hth, hu, Option.map_some, zombify, if_neg (hg ▸ hne)]

theorem Sound.switch (h : s.Sound) (hs : s.step .switch = some t) : t.Sound := by
  cases hs
  cases hsw : s.kernel.nextTaskSwitch with
  | none => exact h
  | some r =>
    obtain ⟨hok, hpr, hth⟩ := Kernel.nextTaskSwitch_spec h.ok hsw
    exact ⟨hok, h.intact.keep (fun {x q} hx => ⟨q, hpr ▸ hx, rfl⟩) (List.Subset.refl _) fun _ _ _ hu _ hr => hth hu hr⟩

theorem Sound.reap (h : s.Sound) (hs : s.step (.reap slot) = some t) : t.Sound := by
  simp only [step] at hs
  split at hs
  next code k hreap =>
    cases hs
    obtain ⟨p, hp, hz, -, hpr, hth, hta, -⟩ := reapSlot_spec hreap
    obtain ⟨u, hu, hug⟩ := h.ok.leader hp
    refine ⟨h.ok.reap hp hz hpr hth hta, fun e he => ?_, fun e he => ?_⟩
    · obtain ⟨he, hne⟩ := List.mem_filter.mp he
      obtain ⟨q, hq, hpid⟩ := h.intact.procs e he
      exact ⟨q, by rw [hpr, update_of_ne (by simpa using hne), hq], hpid⟩
    · obtain ⟨w, q, hw, htid, hg, hr, hq, hpid⟩ := h.intact.live e he
      have hgne : e.group ≠ slot := fun hge =>
        h.ok.not_running_of_zombie hp hz hw (hg.trans hge) hr
      have hsne : e.slot ≠ slot := by
        rintro rfl
        cases hu.symm.trans hw
        exact hgne (hg.symm.trans hug)
      refine ⟨w, q, ?_, htid, hg, hr, ?_, hpid⟩
      · rw [hth, update_of_ne hsne, hw]
      · rw [hpr, update_of_ne hgne, hq]
  · cases hs
    exact h

/-- **One step loses no record** when a spawn finds its slot without a process
record. -/
theorem Sound.step {op : SlotOp} (h : s.Sound) (hfree : s.SpawnsIntoFree op) (hs : s.step op = some t) :
    t.Sound := by
  cases op with
  | memory phys =>
    cases hs
    exact ⟨h.ok.congr rfl (fun _ => rfl) fun _ _ ht hd => ⟨_, ht, hd⟩,
      h.intact.keep (fun hx => ⟨_, hx, rfl⟩) (List.Subset.refl _) fun _ _ _ hu _ _ => hu⟩
  | fork frame pml4 => exact h.fork hfree hs
  | cloneThread frame c b => exact h.cloneThread hfree hs
  | exec entry stackTop pml4 name => exact h.exec hfree hs
  | exit code => exact h.exit hs
  | exitGroup code => exact h.exitGroup hs
  | switch => exact h.switch hs
  | reap slot => exact h.reap hs

theorem Sound.boot {phys : Phys} {code : CodeAddrs} {kernelPml4 stackBase : Nat} :
    (SlotRun.boot phys code kernelPml4 stackBase).Sound where
  ok := ⟨nofun, nofun, nofun, nofun, nofun⟩
  intact := ⟨nofun, nofun⟩

end SlotRun

/-- **Records outlive slot reuse, where spawns find a free process slot.** In
every state reached by a run in which each `fork`, `clone` and `exec` happens
when the first free task slot holds no process record: every process created
and not yet reaped has its record in its slot, with its pid, and every thread
created and not yet exited has its record, whose group slot leads to the
process it was created in. -/
theorem records_outlive_slot_reuse (phys : Phys) (code : CodeAddrs) (kernelPml4 stackBase : Nat)
    (ops : List SlotOp) (s : SlotRun)
    (hfree : Lts.Meets SlotRun.step SlotRun.SpawnsIntoFree (.boot phys code kernelPml4 stackBase) ops)
    (h : Lts.exec SlotRun.step (.boot phys code kernelPml4 stackBase) ops = some s) : s.Intact :=
  (Lts.exec_invariant_of_meets SlotRun.Sound (fun _ _ _ hs hC ht => hs.step hC ht) .boot hfree h).intact

/-- Memory with every frame free. -/
def allFree : Phys := ⟨⟨fun _ => 0, 0, 0⟩, fun _ => 0⟩

/-- A program is started, forks, and its child exits. -/
def childExits : List SlotOp := [.exec 0 0 0 [], .switch, .fork 0 0, .switch, .exit 7, .switch, .switch]

/-- The zombie child is still in its slot after its task is gone. -/
theorem records_outlive_slot_reuse_childExits :
    ∃ s, Lts.exec SlotRun.step (.boot allFree ⟨0, 0⟩ 0 0) childExits = some s ∧
      s.procs = [⟨2, 2⟩, ⟨1, 1⟩] ∧ (s.kernel.tasks 2).isNone ∧ s.Intact := by
  have hrun : (Lts.exec SlotRun.step (.boot allFree ⟨0, 0⟩ 0 0) childExits).map
      (fun s => (s.procs, (s.kernel.tasks 2).isNone)) = some ([⟨2, 2⟩, ⟨1, 1⟩], true) := rfl
  obtain ⟨s, hs, he⟩ := Option.map_eq_some_iff.mp hrun
  obtain ⟨hprocs, htask⟩ := Prod.mk.inj he
  exact ⟨s, hs, hprocs, htask, records_outlive_slot_reuse _ _ _ _ childExits s (by decide) hs⟩

/-- **A zombie is lost.** When the parent forks again before it waits, the new
child's record is written over the zombie's. -/
theorem slot_reuse_loses_zombie :
    ∃ s, Lts.exec SlotRun.step (.boot allFree ⟨0, 0⟩ 0 0) (childExits ++ [.fork 0 0]) = some s ∧ ¬ s.Intact := by
  have hrun : (Lts.exec SlotRun.step (.boot allFree ⟨0, 0⟩ 0 0) (childExits ++ [.fork 0 0])).map
      (fun s => (s.procs, (s.kernel.processes 2).map Process.pid)) = some ([⟨2, 3⟩, ⟨2, 2⟩, ⟨1, 1⟩], some 3) := rfl
  obtain ⟨s, hs, he⟩ := Option.map_eq_some_iff.mp hrun
  refine ⟨s, hs, fun h => ?_⟩
  obtain ⟨hprocs, hpid⟩ := Prod.mk.inj he
  obtain ⟨p, hp, hp2⟩ := h.procs ⟨2, 2⟩ (by simp [hprocs])
  rw [hp, Option.map_some, hp2] at hpid
  cases hpid

end CoreOS
