/-
What happens to a process after it became a zombie. Its record is to stay as it
is until it is reaped, and none of its threads is to make another system call.
-/
import CoreOS.SignalFrame

namespace CoreOS

open ByteMem
open Function (update_of_ne update_self)

/-! ## Runs -/

/-- Steps of the process state machine. `reap` is the end of `waitpid`, and
`other` any call that leaves the life of processes and threads alone: it may
rewrite the rest of their records. `finish` is the end of a call, where a
signal is delivered. `switch` and `fault` are no calls. -/
inductive LifeOp
  | fork (syscallFrame childPml4 : Nat)
  | cloneThread (syscallFrame clearChildTid tls : Nat)
  | exec (entry stackTop : Word) (pml4 : Nat) (name : List Char)
  | exit (code : Int)
  | exitGroup (code : Int)
  | kill (pid sig : Nat)
  | tkill (tid sig : Nat)
  | tgkill (tgid tid sig : Nat)
  | reap (slot : Slot)
  | other (phys : Phys) (f : Process → Process) (g : Thread → Thread)
  | finish (frame : SyscallFrame) (user : Mem)
  | fault (vector : Nat)
  | switch

/-- What the life of a process is read from. -/
def Process.keepLife (p : Process) (f : Process → Process) : Process :=
  { f p with
    pid := p.pid
    parentPid := p.parentPid
    state := p.state
    threadCount := p.threadCount
    exitCode := p.exitCode }

def Thread.keepLife (t : Thread) (f : Thread → Thread) : Thread :=
  { f t with
    tid := t.tid
    groupSlot := t.groupSlot
    taskSlot := t.taskSlot
    state := t.state }

def LifeOp.step (k : Kernel) : LifeOp → Option Kernel
  | fork syscallFrame childPml4 => (forkTask k syscallFrame childPml4).map Prod.snd
  | cloneThread syscallFrame clearChildTid tls => (CoreOS.cloneThread k syscallFrame clearChildTid tls).map Prod.snd
  | exec entry stackTop pml4 name => some (execTask k entry stackTop pml4 name).2
  | exit code => some (syscallExit k code)
  | exitGroup code => some (syscallExitGroup k code)
  | kill pid sig => some (syscallKill k pid sig).2
  | tkill tid sig => some (syscallTkill k tid sig).2
  | tgkill tgid tid sig => some (syscallTgkill k tgid tid sig).2
  | reap slot => some ((reapSlot k slot).elim k Prod.snd)
  | other phys f g => some { k with
      phys
      processes := fun x => (k.processes x).map (·.keepLife f)
      threads := fun x => (k.threads x).map (·.keepLife g) }
  | finish frame user => some (deliverPendingSignal ⟨k, frame, user⟩).2.kernel
  | fault vector => some (defaultException k vector)
  | switch => some (k.nextTaskSwitch.elim k Prod.snd)

/-- Whether a step is (part of) a system call of the current thread. -/
def LifeOp.isCall : LifeOp → Bool
  | fault .. | switch => false
  | _ => true

/-- The current task is not dead. -/
def Kernel.alive (k : Kernel) : Bool := (k.tasks k.current).any (·.state ≠ .dead)

/-- The group led by slot `g` may be killed: it is not the caller's own, and its
process is not a zombie already. -/
def Kernel.killable (k : Kernel) (g : Slot) : Bool :=
  k.currentThread.all (·.groupSlot ≠ g) && (k.processes g).all (·.state = .running)

/-- The group of the thread that has the tid. -/
def Kernel.groupOfTid (k : Kernel) (tid : Nat) : Option Slot :=
  ((k.findThreadSlotByTid tid).bind k.threads).map Thread.groupSlot

/-- The condition on a step: calls and faults are those of a task that is not
dead, a new task finds its slot without a process record, and `SIGKILL` is
aimed at groups that may be killed. -/
def LifeOp.Orderly (k : Kernel) : LifeOp → Prop
  | switch => True
  | fork .. | cloneThread .. | exec .. => k.alive ∧ k.freeTaskSlot.all fun slot => (k.processes slot).isNone
  | kill pid sig => k.alive ∧ (sig = sigKill → (k.findSlotByPid pid).all k.killable)
  | tkill tid sig | tgkill _ tid sig => k.alive ∧ (sig = sigKill → (k.groupOfTid tid).all k.killable)
  | _ => k.alive

instance {k : Kernel} {op : LifeOp} : Decidable (op.Orderly k) :=
  match op with
  | .switch => inferInstanceAs (Decidable True)
  | .fork .. | .cloneThread .. | .exec .. => inferInstanceAs (Decidable (_ ∧ _))
  | .kill .. | .tkill .. | .tgkill .. => inferInstanceAs (Decidable (_ ∧ (_ → _)))
  | .exit .. | .exitGroup .. | .reap .. | .other .. | .finish .. | .fault .. => inferInstanceAs (Decidable (_ = true))

/-- A zombie's record stays as it is, unless it is reaped. -/
def ZombiesKept (k k' : Kernel) (reaped : Slot → Prop) : Prop :=
  ∀ x p, k.processes x = some p → p.state = .zombie →
    reaped x ∨ ∃ p', k'.processes x = some p' ∧ p'.pid = p.pid ∧ p'.state = .zombie ∧ p'.exitCode = p.exitCode

/-! ## The invariant -/

/-- The tables agree, and the task of a thread that has exited is dead. -/
structure LifeOK (k : Kernel) : Prop where
  slots : SlotsOK k
  exited : ∀ {x t task}, k.threads x = some t → t.state = .zombie → k.tasks x = some task → task.state = .dead

variable {k : Kernel}

theorem LifeOK.caller (h : LifeOK k) (ha : k.alive = true) {t : Thread} (ht : k.currentThread = some t) :
    t.state = .running ∧ ∃ p, k.processes t.groupSlot = some p ∧ p.state = .running := by
  obtain ⟨task, htask, hd⟩ : ∃ task, k.tasks k.current = some task ∧ task.state ≠ .dead := by
    simpa [Kernel.alive, Option.any_eq_true] using ha
  have hr : t.state = .running := by
    cases hs : t.state with
    | running => rfl
    | zombie => exact absurd (h.exited ht hs htask) hd
  exact ⟨hr, h.slots.process ht hr⟩

theorem ZombiesKept.trans {k' k'' : Kernel} {r : Slot → Prop} (h1 : ZombiesKept k k' r) (h2 : ZombiesKept k' k'' r) :
    ZombiesKept k k'' r := by
  intro x p hp hz
  rcases h1 x p hp hz with hr | ⟨p1, hp1, hpid1, hz1, hc1⟩
  · exact .inl hr
  · rcases h2 x p1 hp1 hz1 with hr | ⟨p2, hp2, hpid2, hz2, hc2⟩
    · exact .inl hr
    · exact .inr ⟨p2, hp2, hpid2.trans hpid1, hz2, hc2.trans hc1⟩

theorem ZombiesKept.update {k' : Kernel} {r : Slot → Prop} {g : Slot} {o : Option Process}
    (hg : ∀ p, k.processes g = some p → p.state = .running) (hpr : k'.processes = Function.update k.processes g o) :
    ZombiesKept k k' r := by
  intro x p hp hz
  have hx : x ≠ g := by
    rintro rfl
    rw [hg p hp] at hz
    cases hz
  exact .inr ⟨p, by rw [hpr, update_of_ne hx, hp], rfl, hz, rfl⟩

/-! ## Steps that leave every life alone -/

/-- What is read of a process's life. -/
def Process.fate (p : Process) : Nat × ProcessState × Nat × Int := (p.pid, p.state, p.threadCount, p.exitCode)

/-- What is read of a thread's life. -/
def Thread.fate (t : Thread) : Slot × Slot × ThreadState := (t.groupSlot, t.taskSlot, t.state)

structure Undisturbed (k k' : Kernel) : Prop where
  tasks : k'.tasks = k.tasks
  current : k'.current = k.current
  processes : ∀ x, (k'.processes x).map Process.fate = (k.processes x).map Process.fate
  threads : ∀ x, (k'.threads x).map Thread.fate = (k.threads x).map Thread.fate

theorem exists_of_map_eq {α β : Type} {f : α → β} {o o' : Option α} (h : o'.map f = o.map f) {a : α}
    (ha : o' = some a) : ∃ b, o = some b ∧ f a = f b := by
  rw [ha, Option.map_some] at h
  obtain ⟨b, hb, he⟩ := Option.map_eq_some_iff.mp h.symm
  exact ⟨b, hb, he.symm⟩

theorem Process.fate_eq {p q : Process} (h : p.fate = q.fate) :
    p.pid = q.pid ∧ p.state = q.state ∧ p.threadCount = q.threadCount ∧ p.exitCode = q.exitCode := by
  simpa [Process.fate] using h

theorem Thread.fate_eq {t u : Thread} (h : t.fate = u.fate) :
    t.groupSlot = u.groupSlot ∧ t.taskSlot = u.taskSlot ∧ t.state = u.state := by
  simpa [Thread.fate] using h

namespace Undisturbed

variable {k k' k'' : Kernel}

theorem refl (k : Kernel) : Undisturbed k k := ⟨rfl, rfl, fun _ => rfl, fun _ => rfl⟩

theorem trans (h1 : Undisturbed k k') (h2 : Undisturbed k' k'') : Undisturbed k k'' :=
  ⟨h2.tasks.trans h1.tasks, h2.current.trans h1.current, fun x => (h2.processes x).trans (h1.processes x),
    fun x => (h2.threads x).trans (h1.threads x)⟩

theorem setProcess {g : Slot} {p p' : Process} (hp : k.processes g = some p) (hf : p'.fate = p.fate) :
    Undisturbed k (k.setProcess g (some p')) := by
  refine ⟨rfl, rfl, fun x => ?_, fun _ => rfl⟩
  by_cases hx : x = g
  · subst hx
    simp [hp, hf]
  · simp [hx]

variable {t : Thread}

theorem setThread {c : Slot} {t' : Thread} (ht : k.threads c = some t) (hf : t'.fate = t.fate) :
    Undisturbed k (k.setThread c (some t')) := by
  refine ⟨rfl, rfl, fun _ => rfl, fun x => ?_⟩
  by_cases hx : x = c
  · subst hx
    simp [ht, hf]
  · simp [hx]

theorem slotsOK (h : Undisturbed k k') (hk : SlotsOK k) : SlotsOK k' := by
  have hrun : ∀ g, k'.runningIn g = k.runningIn g := by
    intro g
    ext s
    simp only [Kernel.mem_runningIn]
    constructor
    · rintro ⟨t, ht, hg, hr⟩
      obtain ⟨u, hu, hf⟩ := exists_of_map_eq (h.threads s) ht
      obtain ⟨hug, -, hus⟩ := Thread.fate_eq hf
      exact ⟨u, hu, hug ▸ hg, hus ▸ hr⟩
    · rintro ⟨t, ht, hg, hr⟩
      obtain ⟨u, hu, hf⟩ := exists_of_map_eq (h.threads s).symm ht
      obtain ⟨hug, -, hus⟩ := Thread.fate_eq hf
      exact ⟨u, hu, hug ▸ hg, hus ▸ hr⟩
  refine ⟨fun {s p} hp => ?_, fun {s t} ht => ?_, fun {s t} ht hr => ?_, fun {s t} ht hr => ?_, fun {g p} hp hs => ?_⟩
  · obtain ⟨q, hq, -⟩ := exists_of_map_eq (h.processes s) hp
    obtain ⟨u, hu, hug⟩ := hk.leader hq
    obtain ⟨t, ht, hf⟩ := exists_of_map_eq (h.threads s).symm hu
    exact ⟨t, ht, (Thread.fate_eq hf).1 ▸ hug⟩
  · obtain ⟨u, hu, hf⟩ := exists_of_map_eq (h.threads s) ht
    rw [(Thread.fate_eq hf).2.1]
    exact hk.taskSlot hu
  · obtain ⟨u, hu, hf⟩ := exists_of_map_eq (h.threads s) ht
    rw [h.tasks]
    exact hk.task hu ((Thread.fate_eq hf).2.2 ▸ hr)
  · obtain ⟨u, hu, hf⟩ := exists_of_map_eq (h.threads s) ht
    obtain ⟨hug, -, hus⟩ := Thread.fate_eq hf
    obtain ⟨q, hq, hqs⟩ := hk.process hu (hus ▸ hr)
    obtain ⟨p, hp, hpf⟩ := exists_of_map_eq (h.processes u.groupSlot).symm hq
    exact ⟨p, hug ▸ hp, (Process.fate_eq hpf).2.1 ▸ hqs⟩
  · obtain ⟨q, hq, hf⟩ := exists_of_map_eq (h.processes g) hp
    obtain ⟨-, hqs, hqc, -⟩ := Process.fate_eq hf
    rw [hqc, hrun]
    exact hk.count hq (hqs ▸ hs)

theorem lifeOK (h : Undisturbed k k') (hk : LifeOK k) : LifeOK k' := by
  refine ⟨h.slotsOK hk.slots, fun {x t task} ht hz htask => ?_⟩
  obtain ⟨u, hu, hf⟩ := exists_of_map_eq (h.threads x) ht
  rw [h.tasks] at htask
  exact hk.exited hu ((Thread.fate_eq hf).2.2 ▸ hz) htask

theorem zombies (h : Undisturbed k k') {r : Slot → Prop} : ZombiesKept k k' r := by
  intro x p hp hz
  obtain ⟨p', hp', hf⟩ := exists_of_map_eq (h.processes x).symm hp
  obtain ⟨hpid, hs, -, hc⟩ := Process.fate_eq hf
  exact .inr ⟨p', hp', hpid.symm, hs ▸ hz, hc.symm⟩

theorem queueSignal (g : Slot) (sig : Nat) : Undisturbed k (CoreOS.queueSignal k g sig) := by
  unfold CoreOS.queueSignal
  split
  next p hp => exact .setProcess hp rfl
  · exact .refl k

theorem queueThreadSignal (c : Slot) (sig : Nat) : Undisturbed k (CoreOS.queueThreadSignal k c sig) := by
  unfold CoreOS.queueThreadSignal
  split
  next t ht => exact .setThread ht rfl
  · exact .refl k

theorem notifyParentExit (parentPid : Nat) : Undisturbed k (CoreOS.notifyParentExit k parentPid) := by
  unfold CoreOS.notifyParentExit
  split
  · exact .refl k
  · split
    next slot _ => exact .queueSignal slot sigChld
    · exact .refl k

theorem takeSignal {p : Process} {sig : Nat} {td : Bool} (ht : k.currentThread = some t)
    (hp : k.processes t.groupSlot = some p) : Undisturbed k (CoreOS.takeSignal k p t sig td) := by
  unfold CoreOS.takeSignal
  split
  · exact .setThread ht rfl
  · exact .setProcess hp rfl

theorem startHandler {c c' : UserContext} {action : SigAction} {sig : Nat} {r : Except SysError Unit}
    (ht : c.kernel.currentThread = some t) (h : CoreOS.startHandler c t action sig = (r, c')) :
    Undisturbed c.kernel c'.kernel := by
  cases r with
  | ok u =>
    obtain ⟨_, _, onAltstack, -, hkernel, -⟩ := startHandler_ok h
    rw [hkernel]
    exact .setThread ht rfl
  | error e =>
    rcases (startHandler_error h).2 with hkernel | ⟨onAltstack, hkernel⟩
    · rw [hkernel]
      exact .refl _
    · rw [hkernel]
      exact .setThread ht rfl

theorem other {phys : Phys} {f : Process → Process} {g : Thread → Thread}
    (h : LifeOp.step k (.other phys f g) = some k') : Undisturbed k k' := by
  cases h
  refine ⟨rfl, rfl, fun x => ?_, fun x => ?_⟩
  · dsimp only
    rw [Option.map_map]
    rfl
  · dsimp only
    rw [Option.map_map]
    rfl

end Undisturbed

/-! ## Steps that end threads -/

theorem terminateThread_round (g : Slot) : Kernel.GroupRound g (fun _ => False) (terminateThread g) := by
  refine .of_eq (fun {k a} hno => ?_) fun {k a t} ht hg => ?_
  · unfold terminateThread
    split
    · rfl
    next t ht => rw [if_pos (hno t ht)]
  · simp only [terminateThread, ht, hg, ne_eq, not_true, if_false]

namespace LifeOK

variable {k k' : Kernel}

variable {g : Slot} {t : Thread}

theorem exited_zombify (h : LifeOK k) (hth : ∀ s, k'.threads s = (k.threads s).map (zombify g))
    (hother : ∀ {s}, (∀ u, k.threads s = some u → u.groupSlot ≠ g) → k'.tasks s = k.tasks s)
    (hkilled : ∀ {s u task}, k.threads s = some u → u.groupSlot = g → k'.tasks s = some task → task.state = .dead)
    {x : Slot} {task : Task} (ht : k'.threads x = some t) (hz : t.state = .zombie) (htask : k'.tasks x = some task) :
    task.state = .dead := by
  rw [hth] at ht
  obtain ⟨u, hu, rfl⟩ := Option.map_eq_some_iff.mp ht
  by_cases hg : u.groupSlot = g
  · exact hkilled hu hg htask
  · rw [zombify, if_neg hg] at hz
    rw [hother fun w hw => by cases hu.symm.trans hw; exact hg] at htask
    exact h.exited hu hz htask

theorem terminate (h : LifeOK k) (g : Slot) (sig : Nat) : LifeOK (terminateProcessGroup k g sig) := by
  unfold terminateProcessGroup
  refine (Undisturbed.notifyParentExit _).lifeOK ?_
  cases hp : k.processes g with
  | none =>
    dsimp only
    obtain ⟨hth, hta, hkilled, -, hpr⟩ := (terminateThread_round g).loop (k := k) (List.nodup_finRange maxTasks)
    -- without a process no thread of the group is running
    have hsame : ∀ s, (k.threads s).map (zombify g) = k.threads s := by
      intro s
      cases ht : k.threads s with
      | none => rfl
      | some t =>
        rw [Option.map_some, zombify]
        split
        next hg =>
          cases hs : t.state with
          | zombie => rw [← hs]
          | running =>
            obtain ⟨p, hp', -⟩ := h.slots.process ht hs
            rw [hg, hp] at hp'
            cases hp'
        · rfl
    have hthreads : ∀ s, ((List.finRange maxTasks).foldl (terminateThread g) k).threads s = k.threads s := fun s => by
      rw [hth, if_pos (List.mem_finRange s), hsame]
    constructor
    · refine h.slots.congr (funext hthreads) (fun s => by rw [hpr]) fun {s t task} ht hr htask hd => ⟨task, ?_, hd⟩
      rw [hta s, htask]
      intro u hu hg
      obtain ⟨p, hp', -⟩ := h.slots.process ht hr
      cases ht.symm.trans hu
      rw [hg, hp] at hp'
      cases hp'
    · exact h.exited_zombify (fun s => by rw [hthreads, hsame]) (fun hs => hta _ hs)
        fun hu hg htask => hkilled _ (List.mem_finRange _) _ _ hu hg id htask
  | some p =>
    dsimp only
    let k0 := k.setProcess g (some { p with state := .zombie, exitCode := 128 + sig, threadCount := 0 })
    obtain ⟨hth, hta, hkilled, -, hpr⟩ := (terminateThread_round g).loop (k := k0) (List.nodup_finRange maxTasks)
    have hthreads : ∀ s, ((List.finRange maxTasks).foldl (terminateThread g) k0).threads s =
        (k.threads s).map (zombify g) := fun s => by
      rw [hth, if_pos (List.mem_finRange s)]
      rfl
    constructor
    · refine h.slots.exitAll (by simp [hp]) hthreads hpr rfl fun {s t task} ht hg htask hd => ⟨task, ?_, hd⟩
      rw [hta s fun u hu => by cases ht.symm.trans hu; exact hg]
      exact htask
    · exact h.exited_zombify hthreads (fun hs => hta _ hs)
        fun hu hg htask => hkilled _ (List.mem_finRange _) _ _ hu hg id htask

variable {r : Slot → Prop}

theorem terminate_zombies (sig : Nat) (hg : ∀ p, k.processes g = some p → p.state = .running) :
    ZombiesKept k (terminateProcessGroup k g sig) r := by
  unfold terminateProcessGroup
  refine ZombiesKept.trans ?_ (Undisturbed.notifyParentExit _).zombies
  cases hp : k.processes g with
  | none =>
    refine .update hg (o := none) ?_
    rw [terminateGroup_processes]
    exact (Function.update_eq_self_iff.mpr hp.symm).symm
  | some p => exact .update hg (terminateGroup_processes _ _)

variable {k1 : Kernel} {p : Process}

theorem exitOne (h : LifeOK k) {p' : Process} (ht : k.threads k.current = some t) (hr : t.state = .running)
    (hp : k.processes t.groupSlot = some p)
    (hth : k1.threads = Function.update k.threads k.current (some { t with state := .zombie }))
    (hpr : k1.processes = Function.update k.processes t.groupSlot (some p')) (hta : k1.tasks = k.tasks)
    (hcount : p'.threadCount = p.threadCount - 1) (hlast : p'.state = .zombie → p.threadCount - 1 = 0)
    (hend : Ended k1 k.current k') : LifeOK k' := by
  constructor
  · refine hend.slotsOK (h.slots.exitOne ht hr hp hth hpr hcount hlast fun _ htask hd => ⟨_, hta ▸ htask, hd⟩) ?_
    intro u hu
    rw [hth, update_self] at hu
    cases hu
    nofun
  · intro x u task hu hz htask
    by_cases hx : x = k.current
    · subst hx
      exact hend.killed htask
    · rw [hend.threads, hth, update_of_ne hx] at hu
      rw [hend.tasks hx, hta] at htask
      exact h.exited hu hz htask

theorem exitGroup (h : LifeOK k) (code : Int) (ht : k.threads k.current = some t)
    (hp : k.processes t.groupSlot = some p) : LifeOK (syscallExitGroup k code) := by
  obtain ⟨k1, p', hth, hpr, hta, hkilled, -, hz, hend⟩ := syscallExitGroup_spec code ht hp
  have hslot : t.taskSlot = k.current := h.slots.taskSlot ht
  constructor
  · refine hend.slotsOK (h.slots.exitAll (by simp [hp]) hth hpr hz fun {x u task} hu hg htask hd => ?_) ?_
    · refine ⟨task, (hta fun w hw => ?_).trans htask, hd⟩
      cases hu.symm.trans hw
      exact hg
    · intro u hu
      rw [hth, ht] at hu
      cases hu
      simp [zombify]
  · refine h.exited_zombify (fun s => by rw [hend.threads, hth]) (fun {s} hs => ?_) fun {s u task} hu hg htask => ?_
    · have hne : s ≠ k.current := by
        rintro rfl
        exact hs t ht rfl
      rw [hend.tasks hne, hta hs]
    · by_cases hx : s = k.current
      · subst hx
        exact hend.killed htask
      · rw [hend.tasks hx] at htask
        exact hkilled hu hg (hslot ▸ hx) htask

theorem exitThread_zombies (code : Int) (wholeGroup : Bool)
    (hcaller : ∀ t p, k.currentThread = some t → k.processes t.groupSlot = some p → p.state = .running) :
    ZombiesKept k (k.exitThread code wholeGroup).2 r := by
  rcases k.exitThread_processes code wholeGroup with h | ⟨t, p, _, _, _, ht, hp, h⟩
  · intro x q hq hz
    exact .inr ⟨q, by rw [h, hq], rfl, hz, rfl⟩
  · refine .update (fun q hq => ?_) h
    exact hcaller t q ht hq

theorem killTask_zombies (c : Slot) : ZombiesKept k (k.killTask c) r := by
  intro x q hq hz
  exact .inr ⟨q, by rw [Kernel.killTask_tables.2, hq], rfl, hz, rfl⟩

/-! ## Steps that create -/

variable {slot : Slot}

theorem newProcess (h : LifeOK k) (sp : Kernel.Spawned k slot k1) (hnone : k.processes slot = none)
    (hp : p.state = .running ∧ p.threadCount = 1) (ht : t.groupSlot = slot ∧ t.taskSlot = slot ∧ t.state = .running)
    (hpr : k'.processes = Function.update k1.processes slot (some p))
    (hth : k'.threads = Function.update k1.threads slot (some t)) (hta : k'.tasks = k1.tasks) :
    LifeOK k' ∧ ∀ {r : Slot → Prop}, ZombiesKept k k' r := by
  obtain ⟨new, htasks, -⟩ := sp.tasks
  refine ⟨⟨?_, fun {x u task} hu hz htask => ?_⟩, fun {r} => ?_⟩
  · exact (sp.slotsOK h.slots).newProcess (sp.processes ▸ hnone) (fun _ hw => sp.idle h.slots hw) sp.task_self hp ht
      hpr hth hta
  · rw [hth, sp.threads] at hu
    rw [hta, htasks] at htask
    by_cases hx : x = slot
    · rw [hx, update_self] at hu
      cases hu
      rw [ht.2.2] at hz
      cases hz
    · rw [update_of_ne hx] at hu htask
      exact h.exited hu hz htask
  · rw [sp.processes] at hpr
    refine .update (fun q hq => ?_) hpr
    rw [hnone] at hq
    cases hq

theorem newThread (h : LifeOK k) (sp : Kernel.Spawned k slot k1) (hnone : k.processes slot = none)
    (hp : k.processes g = some p) (hps : p.state = .running)
    (ht : t.groupSlot = g ∧ t.taskSlot = slot ∧ t.state = .running)
    (hpr : k'.processes = Function.update k1.processes g (some { p with threadCount := p.threadCount + 1 }))
    (hth : k'.threads = Function.update k1.threads slot (some t)) (hta : k'.tasks = k1.tasks) :
    LifeOK k' ∧ ∀ {r : Slot → Prop}, ZombiesKept k k' r := by
  obtain ⟨new, htasks, -⟩ := sp.tasks
  refine ⟨⟨?_, fun {x u task} hu hz htask => ?_⟩, fun {r} => ?_⟩
  · exact (sp.slotsOK h.slots).newThread (sp.processes ▸ hnone) (fun _ hw => sp.idle h.slots hw) sp.task_self
      (sp.processes ▸ hp) hps ht hpr hth hta
  · rw [hth, sp.threads] at hu
    rw [hta, htasks] at htask
    by_cases hx : x = slot
    · rw [hx, update_self] at hu
      cases hu
      rw [ht.2.2] at hz
      cases hz
    · rw [update_of_ne hx] at hu htask
      exact h.exited hu hz htask
  · rw [sp.processes] at hpr
    refine .update (fun q hq => ?_) hpr
    cases hp.symm.trans hq
    exact hps

/-! ## Switches and reaps -/

theorem switch {sw : Kernel.SwitchTo} (h : LifeOK k) (hs : k.nextTaskSwitch = some (sw, k')) : LifeOK k' := by
  refine ⟨(Kernel.nextTaskSwitch_spec h.slots hs).1, fun {x t task} ht hz htask => ?_⟩
  have hold : k.threads x = some t := (nextTaskSwitch_tables hs).2 ht
  obtain ⟨task0, htask0, hdead⟩ := (nextTaskSwitch_tasks hs).2 htask
  exact hdead (h.exited hold hz htask0)

theorem reap {code : Int} (h : LifeOK k) (hs : reapSlot k slot = some (code, k')) : LifeOK k' := by
  obtain ⟨p, hp, hz, -, hpr, hth, hta, -⟩ := reapSlot_spec hs
  refine ⟨h.slots.reap hp hz hpr hth hta, fun {x t task} ht hz' htask => ?_⟩
  rw [hth] at ht
  rw [hta] at htask
  by_cases hx : x = slot
  · rw [hx, update_self] at ht
    cases ht
  · rw [update_of_ne hx] at ht
    exact h.exited ht hz' htask

end LifeOK

/-! ## Every step -/

/-- What is to hold of a step: a call is not that of a zombie's thread, and the
records of zombies stay unless they are reaped. -/
structure ZombieLaw (k : Kernel) (op : LifeOp) (k' : Kernel) : Prop where
  calls : op.isCall = true → ∀ t p, k.currentThread = some t → k.processes t.groupSlot = some p → p.state ≠ .zombie
  kept : ZombiesKept k k' fun x => op = .reap x

theorem LifeOp.Orderly.alive {op : LifeOp} (h : op.Orderly k) (hop : op ≠ .switch) : k.alive = true := by
  cases op <;> first | exact h.1 | exact h | exact absurd rfl hop

namespace LifeOK

variable {k k' : Kernel}

variable {r : Slot → Prop}

theorem terminateKillable (h : LifeOK k) {g : Slot} (hg : k.killable g = true) :
    LifeOK (terminateProcessGroup k g sigKill) ∧ ZombiesKept k (terminateProcessGroup k g sigKill) r := by
  refine ⟨h.terminate g sigKill, terminate_zombies sigKill fun p hp => ?_⟩
  simp only [Kernel.killable, hp, Option.all_some, Bool.and_eq_true, decide_eq_true_eq] at hg
  exact hg.2

variable {sig : Nat}

theorem kill (h : LifeOK k) {pid : Nat} (ho : (LifeOp.kill pid sig).Orderly k) :
    LifeOK (syscallKill k pid sig).2 ∧ ZombiesKept k (syscallKill k pid sig).2 r := by
  rcases syscallKill_cases k pid sig with he | ⟨slot, hslot, hk, he⟩ | ⟨slot, he⟩
  · rw [he]
    exact ⟨h, (Undisturbed.refl k).zombies⟩
  · rw [he]
    exact h.terminateKillable (by simpa [hslot] using ho.2 hk)
  · rw [he]
    exact ⟨(Undisturbed.queueSignal slot sig).lifeOK h, (Undisturbed.queueSignal slot sig).zombies⟩

theorem tkill (h : LifeOK k) {tid : Nat} (ho : (LifeOp.tkill tid sig).Orderly k) :
    LifeOK (syscallTkill k tid sig).2 ∧ ZombiesKept k (syscallTkill k tid sig).2 r := by
  rcases syscallTkill_cases k tid sig with he | ⟨slot, t, hslot, ht, hk, he⟩ | ⟨slot, he⟩
  · rw [he]
    exact ⟨h, (Undisturbed.refl k).zombies⟩
  · rw [he]
    exact h.terminateKillable (by simpa [Kernel.groupOfTid, hslot, ht] using ho.2 hk)
  · rw [he]
    exact ⟨(Undisturbed.queueThreadSignal slot sig).lifeOK h, (Undisturbed.queueThreadSignal slot sig).zombies⟩

theorem tgkill (h : LifeOK k) {tgid tid : Nat} (ho : (LifeOp.tgkill tgid tid sig).Orderly k) :
    LifeOK (syscallTgkill k tgid tid sig).2 ∧ ZombiesKept k (syscallTgkill k tgid tid sig).2 r := by
  rcases syscallTgkill_cases k tgid tid sig with he | he
  · rw [he]
    exact ⟨h, (Undisturbed.refl k).zombies⟩
  · rw [he]
    exact h.tkill ho

theorem finish (h : LifeOK k) (ha : k.alive = true) (frame : SyscallFrame) (user : Mem) :
    LifeOK (deliverPendingSignal ⟨k, frame, user⟩).2.kernel ∧
      ZombiesKept k (deliverPendingSignal ⟨k, frame, user⟩).2.kernel r := by
  cases hd : deliverPendingSignal ⟨k, frame, user⟩ with | mk d c =>
  rcases deliverPendingSignal_cases hd with ⟨rfl, -⟩ | ⟨t, p, sig, td, ht, hp, -, -, hcase⟩
  · exact ⟨h, (Undisturbed.refl k).zombies⟩
  · dsimp only at ht hp hcase
    have htake : Undisturbed k (takeSignal k p t sig td) := .takeSignal ht hp
    have htaken := (takeSignal_spec ht p sig td).1
    rcases hcase with ⟨-, -, -, rfl⟩ | ⟨-, -, rfl⟩ | ⟨-, -, hstart⟩ | ⟨e, -, -, hstart⟩
    · exact ⟨htake.lifeOK h, htake.zombies⟩
    · refine ⟨(htake.lifeOK h).terminate t.groupSlot sig, htake.zombies.trans (terminate_zombies sig fun q hq => ?_)⟩
      obtain ⟨-, p0, hp0, hrun⟩ := h.caller ha ht
      obtain ⟨q0, hq0, hf⟩ := exists_of_map_eq (htake.processes t.groupSlot) hq
      cases hp0.symm.trans hq0
      rw [(Process.fate_eq hf).2.1, hrun]
    · have hboth := htake.trans (.startHandler htaken hstart)
      exact ⟨hboth.lifeOK h, hboth.zombies⟩
    · have hboth := htake.trans (.startHandler htaken hstart)
      exact ⟨hboth.lifeOK h, hboth.zombies⟩

theorem killUnused (h : LifeOK k) {c : Slot} (hc : k.threads c = none) : LifeOK (k.killTask c) := by
  constructor
  · refine h.slots.congr Kernel.killTask_tables.1 (fun s => by rw [Kernel.killTask_tables.2]) ?_
    intro s t task ht _ htask hd
    refine ⟨task, ?_, hd⟩
    rw [Kernel.killTask_tasks_ne, htask]
    rintro rfl
    rw [hc] at ht
    cases ht
  · intro x t task ht hz htask
    rw [Kernel.killTask_tables.1] at ht
    have hx : x ≠ c := by
      rintro rfl
      rw [hc] at ht
      cases ht
    rw [Kernel.killTask_tasks_ne hx] at htask
    exact h.exited ht hz htask

theorem exit (h : LifeOK k) (ha : k.alive = true) (code : Int) : LifeOK (syscallExit k code) := by
  cases ht : k.currentThread with
  | none =>
    simp only [syscallExit, Kernel.exitThread, ht, Bool.false_eq_true, if_false]
    exact h.killUnused ht
  | some t =>
    obtain ⟨hr, p, hp, hps⟩ := h.caller ha ht
    obtain ⟨k1, p', hth, hpr, hta, -, hcount, hlast, hend⟩ := syscallExit_spec code ht hp hps
    exact h.exitOne ht hr hp hth hpr hta hcount hlast hend

theorem exitWhole (h : LifeOK k) (ha : k.alive = true) (code : Int) : LifeOK (syscallExitGroup k code) := by
  cases ht : k.currentThread with
  | none =>
    have hnotify : Undisturbed k (notifyParentExit k k.currentPpid) := .notifyParentExit _
    simp only [syscallExitGroup, Kernel.exitThread, ht]
    refine (hnotify.lifeOK h).killUnused ?_
    rw [(notifyParentExit_tables k _).1, hnotify.current]
    exact ht
  | some t =>
    obtain ⟨-, p, hp, -⟩ := h.caller ha ht
    exact h.exitGroup code ht hp

theorem fault (h : LifeOK k) (ha : k.alive = true) (vector : Nat) : LifeOK (defaultException k vector) := by
  cases ht : k.currentThread with
  | none =>
    simp only [defaultException, Kernel.exitThread, ht]
    exact h.killUnused ht
  | some t =>
    obtain ⟨hr, p, hp, hps⟩ := h.caller ha ht
    obtain ⟨p', hth, hpr, hta, hc, -, hcount, hlast⟩ := exitThread_one vector ht hp hps
    refine h.exitOne ht hr hp hth hpr hta hcount hlast ?_
    rw [← hc]
    exact ended_kill_only

theorem exit_zombies (h : LifeOK k) (ha : k.alive = true) :
    (∀ code, ZombiesKept k (syscallExit k code) r) ∧ (∀ code, ZombiesKept k (syscallExitGroup k code) r) ∧
      ∀ vector, ZombiesKept k (defaultException k vector) r := by
  have hexit : ∀ code whole, ZombiesKept k (k.exitThread code whole).2 r := by
    intro code whole
    refine exitThread_zombies code whole fun t p ht hp => ?_
    obtain ⟨-, q, hq, hrun⟩ := h.caller ha ht
    cases hp.symm.trans hq
    exact hrun
  refine ⟨fun code => ?_, fun code => ?_, fun vector => (hexit vector false).trans (killTask_zombies _)⟩
  · have he := hexit code false
    unfold syscallExit
    generalize k.exitThread code false = x at he
    obtain ⟨groupDead, k1⟩ := x
    dsimp only at he ⊢
    refine ZombiesKept.trans ?_ (killTask_zombies _)
    split
    · exact he.trans (Undisturbed.notifyParentExit _).zombies
    · exact he
  · exact ((hexit code true).trans (Undisturbed.notifyParentExit _).zombies).trans (killTask_zombies _)

theorem fork (h : LifeOK k) {frame pml4 : Nat} (hfree : ∀ slot, k.freeTaskSlot = some slot → k.processes slot = none)
    (hs : LifeOp.step k (.fork frame pml4) = some k') : LifeOK k' ∧ ∀ {r : Slot → Prop}, ZombiesKept k k' r := by
  obtain ⟨⟨pid, k''⟩, hf, rfl⟩ := Option.map_eq_some_iff.mp hs
  rcases forkTask_cases hf with ⟨-, rfl⟩ | ⟨slot, k1, parent, pt, -, sp, -, -, hpr, hth, hta, -⟩
  · exact ⟨h, (Undisturbed.refl _).zombies⟩
  · exact h.newProcess sp (hfree slot sp.free) ⟨rfl, rfl⟩ ⟨rfl, rfl, rfl⟩ hpr hth hta

theorem exec (h : LifeOK k) {entry stackTop : Word} {pml4 : Nat} {name : List Char}
    (hfree : ∀ slot, k.freeTaskSlot = some slot → k.processes slot = none) :
    LifeOK (execTask k entry stackTop pml4 name).2 ∧
      ∀ {r : Slot → Prop}, ZombiesKept k (execTask k entry stackTop pml4 name).2 r := by
  rcases execTask_cases k entry stackTop pml4 name with he | ⟨slot, k1, k', he, sp, hpr, hth, hta, -⟩
  · rw [he]
    exact ⟨h, (Undisturbed.refl k).zombies⟩
  · rw [he]
    exact h.newProcess sp (hfree slot sp.free) ⟨rfl, rfl⟩ ⟨rfl, rfl, rfl⟩ hpr hth hta

theorem clone (h : LifeOK k) (ha : k.alive = true) {frame c b : Nat}
    (hfree : ∀ slot, k.freeTaskSlot = some slot → k.processes slot = none)
    (hs : LifeOp.step k (.cloneThread frame c b) = some k') :
    LifeOK k' ∧ ∀ {r : Slot → Prop}, ZombiesKept k k' r := by
  obtain ⟨⟨tid, k''⟩, hf, rfl⟩ := Option.map_eq_some_iff.mp hs
  rcases cloneThread_cases hf with ⟨-, rfl⟩ | ⟨slot, k1, pt, p, -, sp, hpt, hp, hpr, hth, hta, -⟩
  · exact ⟨h, (Undisturbed.refl _).zombies⟩
  · obtain ⟨-, q, hq, hqs⟩ := h.caller ha hpt
    cases hp.symm.trans hq
    refine h.newThread sp (hfree slot sp.free) hp hqs ?_ hpr hth hta
    exact ⟨rfl, rfl, rfl⟩

/-- **One step** that meets the condition keeps the invariant and the law. -/
theorem step {op : LifeOp} (h : LifeOK k) (ho : op.Orderly k) (hs : op.step k = some k') :
    LifeOK k' ∧ ZombieLaw k op k' := by
  have hcalls : op.isCall = true → ∀ t p, k.currentThread = some t → k.processes t.groupSlot = some p →
      p.state ≠ .zombie := by
    intro hcall t p ht hp hz
    have ha : k.alive = true := ho.alive (by rintro rfl; cases hcall)
    obtain ⟨-, q, hq, hrun⟩ := h.caller ha ht
    cases hp.symm.trans hq
    rw [hrun] at hz
    cases hz
  suffices hgoal : LifeOK k' ∧ ZombiesKept k k' fun x => op = .reap x from ⟨hgoal.1, hcalls, hgoal.2⟩
  have hslot : (k.freeTaskSlot.all fun slot => (k.processes slot).isNone) = true →
      ∀ slot, k.freeTaskSlot = some slot → k.processes slot = none := by
    intro hall slot hslot
    simpa [hslot] using hall
  cases op with
  | fork frame pml4 =>
    obtain ⟨h1, h2⟩ := h.fork (hslot ho.2) hs
    exact ⟨h1, h2⟩
  | cloneThread frame c b =>
    obtain ⟨h1, h2⟩ := h.clone ho.1 (hslot ho.2) hs
    exact ⟨h1, h2⟩
  | exec entry stackTop pml4 name =>
    cases hs
    obtain ⟨h1, h2⟩ := h.exec (hslot ho.2)
    exact ⟨h1, h2⟩
  | exit code =>
    cases hs
    exact ⟨h.exit ho code, (h.exit_zombies ho).1 code⟩
  | exitGroup code =>
    cases hs
    exact ⟨h.exitWhole ho code, (h.exit_zombies ho).2.1 code⟩
  | kill pid sig =>
    cases hs
    exact h.kill ho
  | tkill tid sig =>
    cases hs
    exact h.tkill ho
  | tgkill tgid tid sig =>
    cases hs
    exact h.tgkill ho
  | reap slot =>
    cases hs
    cases hr : reapSlot k slot with
    | none => exact ⟨h, (Undisturbed.refl k).zombies⟩
    | some x =>
      obtain ⟨-, -, -, -, hpr, -⟩ := reapSlot_spec hr
      refine ⟨h.reap hr, fun y p hp hz => ?_⟩
      by_cases hy : y = slot
      · exact .inl (by rw [hy])
      · exact .inr ⟨p, by rw [Option.elim_some, hpr, update_of_ne hy, hp], rfl, hz, rfl⟩
  | other phys f g => exact ⟨(Undisturbed.other hs).lifeOK h, (Undisturbed.other hs).zombies⟩
  | finish frame user =>
    cases hs
    exact h.finish ho frame user
  | fault vector =>
    cases hs
    exact ⟨h.fault ho vector, (h.exit_zombies ho).2.2 vector⟩
  | switch =>
    cases hs
    cases hsw : k.nextTaskSwitch with
    | none => exact ⟨h, (Undisturbed.refl k).zombies⟩
    | some x =>
      refine ⟨h.switch hsw, fun y p hp hz => .inr ⟨p, ?_, rfl, hz, rfl⟩⟩
      rw [Option.elim_some, (nextTaskSwitch_tables hsw).1, hp]

end LifeOK

/-- **A zombie is final.** In every run from boot whose steps all meet the
condition, no step is a system call of a thread whose process is a zombie, and
no step but its reaping changes the state or the exit code of a zombie's
record. -/
theorem zombie_is_final (phys : Phys) (code : CodeAddrs) (kernelPml4 stackBase : Nat) (ops : List LifeOp) (k : Kernel)
    (op : LifeOp) (k' : Kernel)
    (hmeets : Lts.Meets LifeOp.step LifeOp.Orderly ((Kernel.statics phys code kernelPml4).initMainTask stackBase) ops)
    (h : Lts.exec LifeOp.step ((Kernel.statics phys code kernelPml4).initMainTask stackBase) ops = some k)
    (ho : op.Orderly k) (hs : op.step k = some k') :
    (op.isCall = true → ∀ t p, k.currentThread = some t → k.processes t.groupSlot = some p → p.state ≠ .zombie) ∧
    ∀ x p, k.processes x = some p → p.state = .zombie →
      op = .reap x ∨ ∃ p', k'.processes x = some p' ∧ p'.pid = p.pid ∧ p'.state = .zombie ∧ p'.exitCode = p.exitCode := by
  have hboot : LifeOK ((Kernel.statics phys code kernelPml4).initMainTask stackBase) :=
    ⟨⟨nofun, nofun, nofun, nofun, nofun⟩, nofun⟩
  have hk := Lts.exec_invariant_of_meets LifeOK (fun _ _ _ hi ho hs => (hi.step ho hs).1) hboot hmeets h
  obtain ⟨hcalls, hkept⟩ := (hk.step ho hs).2
  exact ⟨hcalls, hkept⟩

/-- A program is started, forks, and its child exits with code 7. -/
def childIsZombie : List LifeOp := [.exec 0 0 0 [], .switch, .fork 0 0, .switch, .exit 7, .switch, .switch]

/-- The parent goes on; its child is a zombie with its code. -/
theorem zombie_is_final_childIsZombie :
    ∃ k p, Lts.exec LifeOp.step ((Kernel.statics allFree ⟨0, 0⟩ 0).initMainTask 0) childIsZombie = some k ∧
      k.processes 2 = some p ∧ p.state = .zombie ∧ p.exitCode = 7 ∧
      ∃ p', (syscallExitGroup k 3).processes 2 = some p' ∧ p'.exitCode = 7 := by
  have hrun : (Lts.exec LifeOp.step ((Kernel.statics allFree ⟨0, 0⟩ 0).initMainTask 0) childIsZombie).map
      (fun k => ((k.processes 2).map fun p => (p.state, p.exitCode), k.alive)) = some (some (.zombie, 7), true) := rfl
  obtain ⟨k, hk, he⟩ := Option.map_eq_some_iff.mp hrun
  obtain ⟨hp, ha⟩ := Prod.mk.inj he
  obtain ⟨p, hp, hpe⟩ := Option.map_eq_some_iff.mp hp
  obtain ⟨hz, hc⟩ := Prod.mk.inj hpe
  have hmeets : Lts.Meets LifeOp.step LifeOp.Orderly ((Kernel.statics allFree ⟨0, 0⟩ 0).initMainTask 0)
      childIsZombie := by decide +kernel
  refine ⟨k, p, hk, hp, hz, hc, ?_⟩
  rcases (zombie_is_final _ _ _ _ _ k (.exitGroup 3) _ hmeets hk ha rfl).2 2 p hp hz with hr | ⟨p', hp', -, -, hc'⟩
  · cases hr
  · exact ⟨p', hp', hc'.trans hc⟩

/-- **A zombie exits again.** A process kills itself with `SIGKILL`. It is a
zombie with code 137, and its thread calls `exit_group` with another code. -/
theorem zombie_exits_again :
    ∃ k k' p p' t, Lts.exec LifeOp.step ((Kernel.statics allFree ⟨0, 0⟩ 0).initMainTask 0)
        [.exec 0 0 0 [], .switch, .kill 1 sigKill, .finish .zero fun _ => 0] = some k ∧
      k.currentThread = some t ∧ k.processes t.groupSlot = some p ∧ p.state = .zombie ∧ p.exitCode = 137 ∧
      LifeOp.step k (.exitGroup 5) = some k' ∧ k'.processes t.groupSlot = some p' ∧ p'.exitCode = 5 := by
  have hrun : (Lts.exec LifeOp.step ((Kernel.statics allFree ⟨0, 0⟩ 0).initMainTask 0)
      [.exec 0 0 0 [], .switch, .kill 1 sigKill, .finish .zero fun _ => 0]).map
        (fun k => (k.currentThread.map Thread.groupSlot, (k.processes 1).map fun p => (p.state, p.exitCode),
          ((syscallExitGroup k 5).processes 1).map Process.exitCode)) =
      some (some 1, some (.zombie, 137), some 5) := rfl
  obtain ⟨k, hk, he⟩ := Option.map_eq_some_iff.mp hrun
  simp only [Prod.mk.injEq, Option.map_eq_some_iff] at he
  obtain ⟨⟨t, ht, hg⟩, ⟨p, hp, hz, hc⟩, p', hp', hc'⟩ := he
  exact ⟨k, syscallExitGroup k 5, p, p', t, hk, ht, hg ▸ hp, hz, hc, rfl, hg ▸ hp', hc'⟩

end CoreOS
