/-
What signals and exits leave alone. They write a process's state, exit status,
count of threads and pending signals, a thread's state, pending signals, masks
and handler flags, and mark tasks dead. `SameRecords` says that the rest of
every record, and of the kernel, is as it was; what a result needs of that
(identities, descriptors, handlers, the word cleared at exit) is a consequence.
-/
import CoreOS.Scheduler
import CoreOS.SignalFrame

namespace CoreOS

open ByteMem

/-- A process record without what signals and exits write. -/
def Process.kept (p : Process) : Process :=
  { p with state := .running, threadCount := 0, exitCode := 0, sigPending := .empty }

/-- A thread record without what signals and exits write. -/
def Thread.kept (t : Thread) : Thread :=
  { t with
    state := .running
    sigPending := .empty
    sigMask := .empty
    savedSigMask := .empty
    inSignalHandler := false
    onAltstack := false }

structure SameRecords (k k' : Kernel) : Prop where
  kills : k.Kills k'
  processes : ∀ x, (k'.processes x).map Process.kept = (k.processes x).map Process.kept
  threads : ∀ x, (k'.threads x).map Thread.kept = (k.threads x).map Thread.kept
  rest : { k' with tasks := k.tasks, processes := k.processes, threads := k.threads } = k

namespace SameRecords

variable {k k' k'' : Kernel}

theorem refl (k : Kernel) : SameRecords k k := ⟨.of_tasks rfl rfl, fun _ => rfl, fun _ => rfl, rfl⟩

theorem trans (h1 : SameRecords k k') (h2 : SameRecords k' k'') : SameRecords k k'' := by
  refine ⟨h1.kills.trans h2.kills, fun x => (h2.processes x).trans (h1.processes x),
    fun x => (h2.threads x).trans (h1.threads x), ?_⟩
  have h := congrArg (fun k' => { k' with tasks := k.tasks, processes := k.processes, threads := k.threads }) h2.rest
  exact h.trans h1.rest

theorem foldl {f : Kernel → Slot → Kernel} (hf : ∀ k a, SameRecords k (f k a)) :
    ∀ {as : List Slot} {k : Kernel}, SameRecords k (as.foldl f k)
  | [], k => .refl k
  | a :: _, k => (hf k a).trans (SameRecords.foldl hf)

theorem process (h : SameRecords k k') {x : Slot} {p' : Process} (hp' : k'.processes x = some p') :
    ∃ p, k.processes x = some p ∧ p'.kept = p.kept := by
  have hx := h.processes x
  rw [hp', Option.map_some] at hx
  obtain ⟨p, hp, he⟩ := Option.map_eq_some_iff.mp hx.symm
  exact ⟨p, hp, he.symm⟩

theorem map_processes {α : Type} {f : Process → α} (h : SameRecords k k') (hf : ∀ p, f p.kept = f p) (x : Slot) :
    (k'.processes x).map f = (k.processes x).map f := by
  have hkept : ∀ o : Option Process, o.map f = (o.map Process.kept).map f := by
    intro o
    rw [Option.map_map]
    exact congrArg (Option.map · o) (funext fun p => (hf p).symm)
  rw [hkept (k'.processes x), hkept (k.processes x), h.processes x]

theorem openFiles (h : SameRecords k k') : k'.openFiles = k.openFiles := by
  have hrest := congrArg Kernel.openFiles h.rest
  exact hrest

theorem pipes (h : SameRecords k k') : k'.pipes = k.pipes := by
  have hrest := congrArg Kernel.pipes h.rest
  exact hrest

theorem fs (h : SameRecords k k') : k'.fs = k.fs := by
  have hrest := congrArg Kernel.fs h.rest
  exact hrest

/-! ## Updates -/

theorem setProcess {g : Slot} {p p' : Process} (hp : k.processes g = some p) (hkept : p'.kept = p.kept) :
    SameRecords k (k.setProcess g (some p')) := by
  refine ⟨.of_tasks rfl rfl, fun x => ?_, fun _ => rfl, rfl⟩
  by_cases hx : x = g
  · subst hx
    simp [hp, hkept]
  · simp [hx]

theorem setThread {c : Slot} {t t' : Thread} (ht : k.threads c = some t) (hkept : t'.kept = t.kept) :
    SameRecords k (k.setThread c (some t')) := by
  refine ⟨.of_tasks rfl rfl, fun _ => rfl, fun x => ?_, rfl⟩
  by_cases hx : x = c
  · subst hx
    simp [ht, hkept]
  · simp [hx]

theorem killTask (c : Slot) : SameRecords k (k.killTask c) := by
  refine ⟨k.killTask_kills c, fun x => ?_, fun x => ?_, ?_⟩
  · rw [Kernel.killTask_tables.2]
  · rw [Kernel.killTask_tables.1]
  · unfold Kernel.killTask
    split <;> rfl

/-! ## Signals sent -/

theorem queueSignal (g : Slot) (sig : Nat) : SameRecords k (CoreOS.queueSignal k g sig) := by
  unfold CoreOS.queueSignal
  split
  next hp => exact .setProcess hp rfl
  · exact .refl k

theorem queueThreadSignal (c : Slot) (sig : Nat) : SameRecords k (CoreOS.queueThreadSignal k c sig) := by
  unfold CoreOS.queueThreadSignal
  split
  next ht => exact .setThread ht rfl
  · exact .refl k

theorem notifyParentExit (parentPid : Nat) : SameRecords k (CoreOS.notifyParentExit k parentPid) := by
  unfold CoreOS.notifyParentExit
  split
  · exact .refl k
  · split
    next slot _ => exact .queueSignal slot sigChld
    · exact .refl k

/-! ## Exits -/

theorem exitGroupThread (g c x : Slot) : SameRecords k (k.exitGroupThread g c x) := by
  unfold Kernel.exitGroupThread
  split
  · exact .refl k
  next t ht =>
    split
    · exact .refl k
    · have hz : SameRecords k (k.setThread x (some { t with state := .zombie })) := .setThread ht rfl
      dsimp only
      split
      · exact hz.trans (.killTask x)
      · exact hz

theorem exitThread (code : Int) (wholeGroup : Bool) : SameRecords k (k.exitThread code wholeGroup).2 := by
  unfold Kernel.exitThread
  split
  · exact .refl k
  next t ht =>
    have hz : SameRecords k (k.setThread k.current (some { t with state := .zombie })) := .setThread ht rfl
    dsimp only
    split
    · exact hz
    next hp =>
      split
      · refine hz.trans (.trans ?_ (.foldl fun _ x => .exitGroupThread t.groupSlot t.taskSlot x))
        exact .setProcess hp rfl
      · split
        · exact hz.trans (.setProcess hp rfl)
        · exact hz.trans (.setProcess hp rfl)

theorem terminateThread (g x : Slot) : SameRecords k (CoreOS.terminateThread g k x) := by
  unfold CoreOS.terminateThread
  split
  · exact .refl k
  next t ht =>
    split
    · exact .refl k
    · have hz : SameRecords k (k.setThread x (some { t with state := .zombie })) := .setThread ht rfl
      exact hz.trans (.killTask x)

theorem terminateProcessGroup (g : Slot) (sig : Nat) : SameRecords k (CoreOS.terminateProcessGroup k g sig) := by
  unfold CoreOS.terminateProcessGroup
  refine .trans (.trans ?_ (.foldl fun _ x => .terminateThread g x)) (.notifyParentExit _)
  cases hp : k.processes g with
  | none => exact .refl k
  | some p => exact .setProcess hp rfl

theorem syscallExit (code : Int) : SameRecords k (CoreOS.syscallExit k code) := by
  unfold CoreOS.syscallExit
  have hexit : SameRecords k (k.exitThread code false).2 := .exitThread code false
  generalize k.exitThread code false = x at hexit
  obtain ⟨groupDead, k1⟩ := x
  dsimp only at hexit ⊢
  refine .trans ?_ (.killTask _)
  split
  · exact hexit.trans (.notifyParentExit _)
  · exact hexit

theorem syscallExitGroup (code : Int) : SameRecords k (CoreOS.syscallExitGroup k code) :=
  ((exitThread code true).trans (.notifyParentExit _)).trans (.killTask _)

/-! ## The calls that send -/

theorem syscallKill (pid sig : Nat) : SameRecords k (CoreOS.syscallKill k pid sig).2 := by
  rcases syscallKill_cases k pid sig with he | ⟨slot, -, -, he⟩ | ⟨slot, he⟩
  · rw [he]
    exact .refl k
  · rw [he]
    exact .terminateProcessGroup slot sigKill
  · rw [he]
    exact .queueSignal slot sig

theorem syscallTkill (tid sig : Nat) : SameRecords k (CoreOS.syscallTkill k tid sig).2 := by
  rcases syscallTkill_cases k tid sig with he | ⟨slot, t, -, -, -, he⟩ | ⟨slot, he⟩
  · rw [he]
    exact .refl k
  · rw [he]
    exact .terminateProcessGroup t.groupSlot sigKill
  · rw [he]
    exact .queueThreadSignal slot sig

theorem syscallTgkill (tgid tid sig : Nat) : SameRecords k (CoreOS.syscallTgkill k tgid tid sig).2 := by
  rcases syscallTgkill_cases k tgid tid sig with he | he
  · rw [he]
    exact .refl k
  · rw [he]
    exact .syscallTkill tid sig

/-! ## Delivery -/

theorem takeSignal {p : Process} {t : Thread} {sig : Nat} {td : Bool} (ht : k.currentThread = some t)
    (hp : k.processes t.groupSlot = some p) : SameRecords k (CoreOS.takeSignal k p t sig td) := by
  unfold CoreOS.takeSignal
  split
  · exact .setThread ht rfl
  · exact .setProcess hp rfl

theorem startHandler {c c' : UserContext} {t : Thread} {action : SigAction} {sig : Nat} {r : Except SysError Unit}
    (ht : c.kernel.currentThread = some t) (h : CoreOS.startHandler c t action sig = (r, c')) :
    SameRecords c.kernel c'.kernel := by
  cases r with
  | ok u =>
    obtain ⟨_, _, onAltstack, -, hkernel, -⟩ := startHandler_ok h
    rw [hkernel]
    exact .setThread ht rfl
  | error e =>
    rcases (startHandler_error h).2 with hkernel | ⟨onAltstack, hkernel⟩
    · rw [hkernel]
      exact .refl _
    · rw [hkernel]
      exact .setThread ht rfl

theorem deliver (frame : SyscallFrame) (user : Mem) :
    SameRecords k (deliverPendingSignal ⟨k, frame, user⟩).2.kernel := by
  cases hd : deliverPendingSignal ⟨k, frame, user⟩ with | mk d c =>
  rcases deliverPendingSignal_cases hd with ⟨rfl, -⟩ | ⟨t, p, sig, td, ht, hp, -, -, hcase⟩
  · exact .refl k
  · have htake : SameRecords k (CoreOS.takeSignal k p t sig td) := .takeSignal ht hp
    have htaken := (takeSignal_spec ht p sig td).1
    rcases hcase with ⟨-, -, -, rfl⟩ | ⟨-, -, rfl⟩ | ⟨-, -, hstart⟩ | ⟨e, -, -, hstart⟩
    · exact htake
    · exact htake.trans (.terminateProcessGroup t.groupSlot sig)
    · exact htake.trans (.startHandler htaken hstart)
    · exact htake.trans (.startHandler htaken hstart)

end SameRecords

end CoreOS
