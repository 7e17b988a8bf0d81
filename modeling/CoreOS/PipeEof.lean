/-
End of file on a pipe. A read of an empty pipe returns nothing once its count
of write ends is zero. The count is exact, and what it counts are the write
ends in process records: a process that has exited keeps its descriptors until
it is reaped, so a reader that waits for the end of file before it waits for
the writer waits for ever (`zombie_writer_blocks_reader`), and otherwise the
end of file is seen (`pipe_end_of_file`).
-/
import CoreOS.AccessMode

namespace CoreOS

open ByteMem

/-! ## Runs -/

/-- Any call on files and descriptors and any step in the life of processes;
`other` is what other calls do to the records, which is nothing to their
descriptors. -/
inductive EofOp
  | call (op : AccessOp)
  | other (phys : Phys) (f : Process → Process) (g : Thread → Thread)

namespace EofOp

def step (k : Kernel) : EofOp → Option Kernel
  | call op => op.call k
  | other phys f g => some { k with
      phys
      processes := fun x => (k.processes x).map fun p => { p.keepLife f with fds := p.fds }
      threads := fun x => (k.threads x).map (·.keepLife g) }

/-- The condition on a step: a new process finds its slot without a process
record, and files are opened by processes. -/
def Tidy (k : Kernel) : EofOp → Prop
  | call (.life (.fork ..)) | call (.life (.exec ..)) =>
    (k.freeTaskSlot.all fun slot => (k.processes slot).isNone) = true
  | call (.life (.other ..)) => False
  | call (.syscallOpen ..) => k.currentProcess.isSome = true
  | _ => True

instance {k : Kernel} {op : EofOp} : Decidable (op.Tidy k) := by
  unfold Tidy
  split <;> infer_instance

end EofOp

/-! ## The counters stay exact -/

variable {k k' : Kernel} {fd : Nat} {flags : BitVec 32}

theorem SameEntries.setStatusFlags (h : CoreOS.setStatusFlags k fd flags = some k') : SameEntries k k' := by
  have hsame : SameEntries k k := ⟨rfl, fun _ => ⟨rfl, rfl, rfl⟩, fun _ => ⟨rfl, rfl, rfl⟩⟩
  have hpipe : ∀ {k'}, FdPipe.setStatusFlags k fd flags = some k' → SameEntries k k' := by
    intro k' h
    obtain ⟨⟨j, isReadEnd⟩, -, rfl⟩ := Option.map_eq_some_iff.mp h
    refine ⟨rfl, fun _ => ⟨rfl, rfl, rfl⟩, fun x => ?_⟩
    by_cases hx : x = j
    · subst hx
      cases isReadEnd <;> simp
    · simp [hx]
  unfold CoreOS.setStatusFlags at h
  split at h
  · cases h
    exact hsame
  · cases h
    exact hsame
  · cases h
    exact hsame
  · cases h
    exact hsame
  next i _ =>
    unfold FdOpen.setStatusFlags at h
    split at h
    · cases h
      refine ⟨rfl, fun x => ?_, fun _ => ⟨rfl, rfl, rfl⟩⟩
      by_cases hx : x = i
      · subst hx
        simp
      · simp [hx]
    · cases h
  · exact hpipe h
  · exact hpipe h
  · cases h
  · cases h

theorem setFdFlags_cases (h : setFdFlags k fd flags = some k') :
    ∃ t p, k.currentThread = some t ∧ k.processes t.groupSlot = some p ∧ fd < maxFds ∧ p.fds fd ≠ .empty ∧
      k' = k.setProcess t.groupSlot (some { p with fdFlags := Function.update p.fdFlags fd flags }) := by
  simp only [setFdFlags, Option.bind_eq_bind, Option.bind_eq_some_iff] at h
  obtain ⟨t, ht, p, hp, h⟩ := h
  split at h
  · cases h
  next hfd =>
    cases h
    rw [not_or, Nat.not_le] at hfd
    exact ⟨t, p, ht, hp, hfd.1, hfd.2, rfl⟩

namespace RefsExact

variable {k k' : Kernel}

theorem moves (h : RefsExact k) (hm : FileMoves k k') : RefsExact k' := by
  induction hm with
  | refl => exact h
  | setFs _ fs ih => exact SameEntries.setFs.exact ih
  | setOffset _ i n ih => exact SameEntries.setOffset.exact ih
  | setPipe _ j _ hp ih => exact (SameEntries.setPipe hp).exact ih

variable {fd : Nat}

theorem setFdFlags {flags : BitVec 32} (h : RefsExact k) (hs : CoreOS.setFdFlags k fd flags = some k') :
    RefsExact k' := by
  obtain ⟨t, p, -, hp, -, -, rfl⟩ := setFdFlags_cases hs
  refine h.congr rfl rfl fun x => ?_
  by_cases hx : x = t.groupSlot
  · subst hx
    simp [hp]
  · simp [hx]

theorem fdOrBad {r : Option Nat × Kernel} (h : RefsExact r.2) : RefsExact (CoreOS.fdOrBad r).2 := by
  rwa [fdOrBad_kernel]

variable {pml4 : Nat}

theorem forkTask {frame : Nat} {pid : Option Nat} (h : RefsExact k)
    (hfree : (k.freeTaskSlot.all fun slot => (k.processes slot).isNone) = true)
    (hf : CoreOS.forkTask k frame pml4 = some (pid, k')) : RefsExact k' := by
  unfold CoreOS.forkTask at hf
  split at hf
  · cases hf
    exact h
  next slot k1 hsp =>
    obtain ⟨⟨pid', k2⟩, hfork, he⟩ := Option.map_eq_some_iff.mp hf
    cases he
    have hspawned := Kernel.spawnTask_spec hsp
    refine forkCurrent (h.same (.spawnTask hsp)) ?_ hfork
    rw [hspawned.free] at hfree
    rw [hspawned.processes]
    simpa using hfree

theorem execTask {entry stackTop : Word} {name : List Char} (h : RefsExact k)
    (hfree : (k.freeTaskSlot.all fun slot => (k.processes slot).isNone) = true) :
    RefsExact (CoreOS.execTask k entry stackTop pml4 name).2 := by
  unfold CoreOS.execTask
  split
  · exact h
  next slot k1 hsp =>
    have hspawned := Kernel.spawnTask_spec hsp
    have hnone : k1.processes slot = none := by
      rw [hspawned.free] at hfree
      rw [hspawned.processes]
      simpa using hfree
    exact (h.same (.spawnTask hsp)).spawnNamed hnone

theorem life {op : LifeOp} (h : RefsExact k) (htidy : EofOp.Tidy k (.call (.life op))) (hs : op.step k = some k') :
    RefsExact k' := by
  cases op with
  | fork frame pml4 =>
    obtain ⟨⟨pid, k1⟩, hf, rfl⟩ := Option.map_eq_some_iff.mp hs
    exact h.forkTask htidy hf
  | exec entry stackTop pml4 name => exact Option.some.inj hs ▸ h.execTask htidy
  | cloneThread frame c b =>
    obtain ⟨⟨tid, k1⟩, hf, rfl⟩ := Option.map_eq_some_iff.mp hs
    exact h.same (.cloneThread hf)
  | exit | exitGroup | kill | tkill | tgkill | finish | fault => exact h.same (LifeOp.sameRecords rfl hs).sameFds
  | reap slot =>
    cases hs
    cases hr : CoreOS.reapSlot k slot with
    | none => exact h
    | some r => exact h.reapSlot hr
  | other phys f g => cases htidy
  | switch =>
    cases hs
    cases hsw : k.nextTaskSwitch with
    | none => exact h
    | some x => exact h.same (.nextTaskSwitch hsw)

theorem fcntl {cmd : Nat} {arg : BitVec 64} (h : RefsExact k) : RefsExact (syscallFcntl k fd cmd arg).2 := by
  unfold syscallFcntl
  split
  · exact fdOrBad h.dupFd
  split
  · exact fdOrBad h.dupFd
  split
  · split <;> exact h
  split
  · split
    next k' hk' => exact h.setFdFlags hk'
    · exact h
  split
  · split <;> exact h
  split
  · split
    next k' hk' => exact (SameEntries.setStatusFlags hk').exact h
    · exact h
  · exact h

theorem call {op : AccessOp} (h : RefsExact k) (htidy : EofOp.Tidy k (.call op)) (hs : op.call k = some k') :
    RefsExact k' := by
  cases op with
  | life op => exact h.life htidy hs
  | syscallOpen raw flags => exact Option.some.inj hs ▸ (Grows.syscallOpen h htidy).exact
  | close fd =>
    cases hs
    unfold syscallClose
    split
    next k1 hk1 => exact h.closeFd hk1
    · exact h
  | dup oldFd => exact Option.some.inj hs ▸ fdOrBad h.dupFd
  | dup3 oldFd newFd flags =>
    cases hs
    unfold syscallDup3
    split
    · exact h
    split
    · exact h
    · exact fdOrBad h.dupFd
  | pipe => exact Option.some.inj hs ▸ h.allocPipe
  | fcntl fd cmd arg => exact Option.some.inj hs ▸ h.fcntl
  | read | readv | pread64 | sendfile | write | writev | pwrite64 | lseek | ftruncate | touch | rm | unlinkat =>
    exact h.moves (AccessOp.moves hs rfl)

theorem eofStep {op : EofOp} (h : RefsExact k) (htidy : op.Tidy k) (hs : op.step k = some k') : RefsExact k' := by
  cases op with
  | call op => exact h.call htidy hs
  | other phys f g =>
    cases hs
    refine h.congr rfl rfl fun x => ?_
    change Option.map Process.fds (Option.map _ (k.processes x)) = _
    rw [Option.map_map]
    rfl

end RefsExact

/-! ## The end of the file -/

/-- A process in that state holds a write end of pipe `j`. -/
def Kernel.HoldsWriteEnd (k : Kernel) (state : ProcessState) (j : Nat) : Prop :=
  ∃ s p fd, k.processes s = some p ∧ p.state = state ∧ fd < maxFds ∧ p.fds fd = .pipeWrite j

instance {k : Kernel} {state : ProcessState} {j : Nat} : Decidable (k.HoldsWriteEnd state j) :=
  decidable_of_iff (∃ s, ∃ p ∈ k.processes s, p.state = state ∧ ∃ fd < maxFds, p.fds fd = .pipeWrite j) <| by
    simp only [Kernel.HoldsWriteEnd, Option.mem_def]
    exact exists_congr fun s => exists_congr fun p =>
      ⟨fun ⟨hp, hs, fd, hlt, hfd⟩ => ⟨fd, hp, hs, hlt, hfd⟩, fun ⟨fd, hp, hs, hlt, hfd⟩ => ⟨hp, hs, fd, hlt, hfd⟩⟩

theorem RefsExact.writeRefs_eq_zero_iff (h : RefsExact k) (j : Nat) :
    (k.pipes j).writeRefs = 0 ↔ ¬ k.HoldsWriteEnd .running j ∧ ¬ k.HoldsWriteEnd .zombie j := by
  have hrefs : (k.pipes j).writeRefs = k.held.count (.pipeWrite j) := h.writeRefs j
  rw [hrefs, Multiset.count_eq_zero, Kernel.mem_held_iff]
  constructor
  · intro hno
    constructor
    · rintro ⟨s, p, fd, hp, -, hlt, hfd⟩
      exact hno ⟨s, p, fd, hp, hlt, hfd⟩
    · rintro ⟨s, p, fd, hp, -, hlt, hfd⟩
      exact hno ⟨s, p, fd, hp, hlt, hfd⟩
  · rintro ⟨hrun, hzombie⟩ ⟨s, p, fd, hp, hlt, hfd⟩
    cases hstate : p.state with
    | running => exact hrun ⟨s, p, fd, hp, hstate, hlt, hfd⟩
    | zombie => exact hzombie ⟨s, p, fd, hp, hstate, hlt, hfd⟩

theorem getFdTarget_held {target : FdTarget} (h : getFdTarget k fd = some target) :
    ∃ s p, k.processes s = some p ∧ fd < maxFds ∧ p.fds fd = target := by
  obtain ⟨p, hp, hfd⟩ := Option.bind_eq_some_iff.mp h
  obtain ⟨t, -, hp⟩ := Option.bind_eq_some_iff.mp hp
  refine ⟨t.groupSlot, p, hp, ?_⟩
  split at hfd
  · cases hfd
  next hlt =>
    refine ⟨Nat.not_le.mp hlt, ?_⟩
    split at hfd
    · cases hfd
    · exact Option.some.inj hfd

theorem readFromFd_pipe {j count : Nat} (h : RefsExact k) (hfd : getFdTarget k fd = some (.pipeRead j))
    (hcount : 0 < count) (typed : List Byte) :
    readFromFd k fd count typed = some (
      if 0 < (k.pipes j).len then
        (.bytes ((k.pipes j).readBytes count).1, k.setPipe j ((k.pipes j).readBytes count).2)
      else if (k.pipes j).writeRefs = 0 then (.bytes [], k)
      else (.wait, k)) := by
  have hlive : FdPipe.live k j = true := by
    obtain ⟨s, p, hp, hlt, hj⟩ := getFdTarget_held hfd
    exact Exact.live_pipe h (.inl (hj ▸ Kernel.mem_held hp hlt))
  have hget : FdPipe.getMut k fd = some (j, true) := by
    simp only [FdPipe.getMut, hfd, Option.bind_some, FdPipe.resolve, hlive, if_true]
  have hstdin : isStdin k fd = false := by simp only [isStdin, descriptorInfo, hfd]
  have hpeer : FdPipe.peerClosed k fd = some ((k.pipes j).writeRefs == 0) := by
    simp only [FdPipe.peerClosed, hget, Option.map_some, if_true]
  have hread : FdPipe.read k fd count = some (
      if 0 < (k.pipes j).len then
        (.bytes ((k.pipes j).readBytes count).1, k.setPipe j ((k.pipes j).readBytes count).2)
      else if (k.pipes j).writeRefs = 0 then (.bytes [], k)
      else (.wait, k)) := by
    simp only [FdPipe.read, hpeer, hget, Option.bind_eq_bind, Option.bind_some, Bool.not_true, Bool.false_eq_true,
      if_false, beq_iff_eq]
    split
    · rfl
    · split <;> rfl
  simp only [readFromFd, Nat.ne_of_gt hcount, if_false, hstdin, Bool.false_eq_true, hfd, hread]

theorem RefsExact.start {phys : Phys} {code : CodeAddrs} {kernelPml4 stackBase : Nat} {fs : Option RamFS} :
    RefsExact (AccessRun.start phys code kernelPml4 stackBase fs).kernel := by
  have hboot : RefsExact (.statics phys code kernelPml4) := .statics
  have hmain : RefsExact ((Kernel.statics phys code kernelPml4).initMainTask stackBase) :=
    hboot.same (.of_processes rfl rfl rfl rfl)
  exact SameEntries.setFs.exact hmain

/-- **End of file.** In every state that a tidy run from boot reaches, when no
running process holds a write end of a pipe, a read of its read end returns
what is in the pipe; when there is nothing in it, it returns no bytes if no
zombie holds a write end either, and waits if one does. -/
theorem pipe_end_of_file (phys : Phys) (code : CodeAddrs) (kernelPml4 stackBase : Nat) (fs : Option RamFS)
    (ops : List EofOp) (k : Kernel)
    (htidy : Lts.Meets EofOp.step EofOp.Tidy (AccessRun.start phys code kernelPml4 stackBase fs).kernel ops)
    (hrun : Lts.exec EofOp.step (AccessRun.start phys code kernelPml4 stackBase fs).kernel ops = some k)
    (fd j count : Nat) (typed : List Byte) (hfd : getFdTarget k fd = some (.pipeRead j)) (hcount : 0 < count)
    (hgone : ¬ k.HoldsWriteEnd .running j) :
    (0 < (k.pipes j).len → readFromFd k fd count typed =
      some (.bytes ((k.pipes j).readBytes count).1, k.setPipe j ((k.pipes j).readBytes count).2)) ∧
    ((k.pipes j).len = 0 → ¬ k.HoldsWriteEnd .zombie j → readFromFd k fd count typed = some (.bytes [], k)) ∧
    ((k.pipes j).len = 0 → k.HoldsWriteEnd .zombie j → readFromFd k fd count typed = some (.wait, k)) := by
  have h : RefsExact k := Lts.exec_invariant_of_meets RefsExact (fun _ _ _ hk ht hs => hk.eofStep ht hs) .start htidy hrun
  have hrefs := h.writeRefs_eq_zero_iff j
  rw [readFromFd_pipe h hfd hcount]
  refine ⟨fun hlen => ?_, fun hlen hzombie => ?_, fun hlen hzombie => ?_⟩
  · rw [if_pos hlen]
  · rw [if_neg (by omega), if_pos (hrefs.mpr ⟨hgone, hzombie⟩)]
  · rw [if_neg (by omega), if_neg fun h0 => (hrefs.mp h0).2 hzombie]

/-- A program makes a pipe and forks, and closes its write end; its child, which
has the other one, exits. -/
def writerExits : List EofOp :=
  [.call (.life (.exec 0 0 0 [])), .call (.life .switch), .call .pipe, .call (.life (.fork 0 0)), .call (.close 4),
    .call (.life .switch), .call (.life (.exit 0)), .call (.life .switch), .call (.life .switch)]

/-- Once the child is reaped the parent reads the end of the file. -/
theorem pipe_end_of_file_reaped :
    ∃ k, Lts.exec EofOp.step (AccessRun.start allFree ⟨0, 0⟩ 0 0 none).kernel
        (writerExits ++ [.call (.life (.reap 2))]) = some k ∧
      readFromFd k 3 1 [] = some (.bytes [], k) := by
  have hrun : (Lts.exec EofOp.step (AccessRun.start allFree ⟨0, 0⟩ 0 0 none).kernel
      (writerExits ++ [.call (.life (.reap 2))])).map (fun k => (getFdTarget k 3, (k.pipes 0).len,
        decide (k.HoldsWriteEnd .running 0), decide (k.HoldsWriteEnd .zombie 0))) =
      some (some (.pipeRead 0), 0, false, false) := by decide +kernel
  obtain ⟨k, hk, hobs⟩ := Option.map_eq_some_iff.mp hrun
  simp only [Prod.mk.injEq, decide_eq_false_iff_not] at hobs
  obtain ⟨hfd, hlen, hrunning, hzombie⟩ := hobs
  have heof := pipe_end_of_file allFree ⟨0, 0⟩ 0 0 none _ k (by decide +kernel) hk 3 0 1 [] hfd (by decide) hrunning
  exact ⟨k, hk, heof.2.1 hlen hzombie⟩

/-- Before, nobody is left who could write, and the parent waits. -/
theorem zombie_writer_blocks_reader :
    (Lts.exec EofOp.step (AccessRun.start allFree ⟨0, 0⟩ 0 0 none).kernel writerExits).map
      (fun k => (getFdTarget k 3, decide (k.HoldsWriteEnd .running 0), (readFromFd k 3 1 []).map Prod.fst)) =
      some (some (.pipeRead 0), false, some .wait) := by
  decide +kernel

end CoreOS
