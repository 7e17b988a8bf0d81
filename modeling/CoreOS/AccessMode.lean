/-
The access mode of an open file. It is part of the status flags that `open`
gives a description, and every read and write checks it there.
-/
import CoreOS.FileFrame
import CoreOS.LifeFrame

namespace CoreOS

open ByteMem
open Option (map_eq_some_iff)

/-! ## Runs -/

/-- The calls on files and descriptors; `life` is everything processes do
otherwise. `preadv` and `pwritev` are `pread64` and `pwrite64` buffer by buffer. -/
inductive AccessOp
  | life (op : LifeOp)
  | syscallOpen (raw : List Byte) (flags : BitVec 64)
  | close (fd : Nat)
  | dup (oldFd : Nat)
  | dup3 (oldFd newFd : Nat) (flags : BitVec 64)
  | pipe
  | fcntl (fd cmd : Nat) (arg : BitVec 64)
  | read (fd : Nat) (buf : ReadBuf)
  | readv (fd : Nat) (iovs : List (Option ReadBuf))
  | pread64 (fd count offset : Nat)
  | sendfile (outFd inFd : Nat) (offset : OffsetArg) (count : Nat)
  | write (fd : Nat) (bytes : List Byte)
  | writev (fd : Nat) (iovs : List (Option (List Byte)))
  | pwrite64 (fd : Nat) (bytes : List Byte) (offset : Nat)
  | lseek (fd : Nat) (offset : BitVec 64) (whence : Nat)
  | ftruncate (fd len : Nat)
  | touch (raw : List Byte)
  | rm (raw : List Byte)
  | unlinkat (raw : List Byte) (flags : BitVec 64)

/-- The kernel after a call, `none` where it panics. -/
def AccessOp.call (k : Kernel) : AccessOp → Option Kernel
  | life op => op.step k
  | syscallOpen raw flags => some (CoreOS.syscallOpen k raw flags).2
  | close fd => some (syscallClose k fd).2
  | dup oldFd => some (syscallDup k oldFd).2
  | dup3 oldFd newFd flags => some (syscallDup3 k oldFd newFd flags).2
  | pipe => some (allocPipe k).2
  | fcntl fd cmd arg => some (syscallFcntl k fd cmd arg).2
  | read fd buf => some ((readFromFd k fd buf.len buf.typed).elim k Prod.snd)
  | readv fd iovs => some (CoreOS.readv k fd iovs).2.2
  | pread64 fd count offset => (CoreOS.pread64 k fd count offset).map fun _ => k
  | sendfile outFd inFd offset count => (CoreOS.sendfile k outFd inFd offset count).map Prod.snd
  | write fd bytes => (writeToFd k fd bytes).map Prod.snd
  | writev fd iovs => (CoreOS.writev k fd iovs).map Prod.snd
  | pwrite64 fd bytes offset => (CoreOS.pwrite64 k fd bytes offset).map Prod.snd
  | lseek fd offset whence => some (CoreOS.lseek k fd offset whence).2
  | ftruncate fd len => (CoreOS.ftruncate k fd len).map Prod.snd
  | touch raw => some (CoreOS.touch k raw).2
  | rm raw => some (CoreOS.rm k raw).2
  | unlinkat raw flags => some (CoreOS.unlinkat k raw flags).2

/-- The mode a call opens files with. -/
def AccessOp.mode : AccessOp → BitVec 32
  | syscallOpen _ flags => flags.setWidth 32 &&& oAccmode
  | _ => 0

/-- The calls that open and close no descriptor and set no flags. -/
def AccessOp.movesOnly : AccessOp → Bool
  | life .. | syscallOpen .. | close .. | dup .. | dup3 .. | pipe | fcntl .. => false
  | _ => true

variable {k k' : Kernel}

theorem AccessOp.moves {op : AccessOp} (h : op.call k = some k') (hop : op.movesOnly = true) :
    FileMoves k k' := by
  cases op with
  | life op | syscallOpen raw flags | close fd | dup oldFd | dup3 oldFd newFd flags | pipe | fcntl fd cmd arg =>
    cases hop
  | read fd buf =>
    cases h
    cases hr : readFromFd k fd buf.len buf.typed with
    | none => exact .refl
    | some r => exact .readFromFd hr
  | readv fd iovs => exact Option.some.inj h ▸ .readv fd iovs
  | pread64 fd count offset =>
    obtain ⟨_, -, rfl⟩ := map_eq_some_iff.mp h
    exact .refl
  | sendfile outFd inFd offset count =>
    obtain ⟨r, hr, rfl⟩ := map_eq_some_iff.mp h
    exact .sendfile hr
  | write fd bytes =>
    obtain ⟨r, hr, rfl⟩ := map_eq_some_iff.mp h
    exact .writeToFd hr
  | writev fd iovs =>
    obtain ⟨r, hr, rfl⟩ := map_eq_some_iff.mp h
    exact .writev hr
  | pwrite64 fd bytes offset =>
    obtain ⟨r, hr, rfl⟩ := map_eq_some_iff.mp h
    exact .pwrite64 hr
  | lseek fd offset whence => exact Option.some.inj h ▸ .lseek
  | ftruncate fd len =>
    obtain ⟨r, hr, rfl⟩ := map_eq_some_iff.mp h
    exact .ftruncate hr
  | touch raw => exact Option.some.inj h ▸ .touch
  | rm raw => exact Option.some.inj h ▸ .rm
  | unlinkat raw flags => exact Option.some.inj h ▸ .unlinkat

/-- A run keeps, for every description, the mode of the open that created it. -/
structure AccessRun where
  kernel : Kernel
  opened : Nat → BitVec 32

namespace AccessRun

def step (s : AccessRun) (op : AccessOp) : Option AccessRun :=
  (op.call s.kernel).map fun k =>
    { kernel := k
      opened := fun i => if !(s.kernel.openFiles i).inUse && (k.openFiles i).inUse then op.mode else s.opened i }

/-- No description is in use yet. -/
def start (phys : Phys) (code : CodeAddrs) (kernelPml4 stackBase : Nat) (fs : Option RamFS) : AccessRun where
  kernel := ((Kernel.statics phys code kernelPml4).initMainTask stackBase).setFs fs
  opened := fun _ => 0

/-- Every description has the mode it was opened with. -/
def Fixed (s : AccessRun) : Prop :=
  ∀ i, (s.kernel.openFiles i).inUse = true → (s.kernel.openFiles i).statusFlags &&& oAccmode = s.opened i

/-- The condition on a step: `F_SETFL` finds a description that is read-only. -/
def SetsReadonly (s : AccessRun) : AccessOp → Prop
  | .fcntl fd cmd _ =>
    cmd = fSetfl →
      ((fdOpenIdx s.kernel fd).all fun i => (s.kernel.openFiles i).statusFlags &&& oAccmode = oRdonly) = true
  | _ => True

instance {s : AccessRun} {op : AccessOp} : Decidable (s.SetsReadonly op) :=
  match op with
  | .fcntl .. => inferInstanceAs (Decidable (_ → _))
  | .life .. | .syscallOpen .. | .close .. | .dup .. | .dup3 .. | .pipe | .read .. | .readv .. | .pread64 ..
  | .sendfile .. | .write .. | .writev .. | .pwrite64 .. | .lseek .. | .ftruncate .. | .touch .. | .rm ..
  | .unlinkat .. => inferInstanceAs (Decidable True)

end AccessRun

/-! ## Calls that open nothing -/

/-- The descriptions in use were so before, with the same flags. -/
def FlagsKept (k k' : Kernel) : Prop :=
  ∀ i, (k'.openFiles i).inUse = true →
    (k.openFiles i).inUse = true ∧ (k'.openFiles i).statusFlags = (k.openFiles i).statusFlags

namespace FlagsKept

variable {k k' k'' : Kernel}

theorem trans (h1 : FlagsKept k k') (h2 : FlagsKept k' k'') : FlagsKept k k'' := by
  intro i hi
  obtain ⟨hi', hf'⟩ := h2 i hi
  obtain ⟨hi'', hf''⟩ := h1 i hi'
  exact ⟨hi'', hf'.trans hf''⟩

theorem of_openFiles (h : k'.openFiles = k.openFiles) : FlagsKept k k' := fun i hi => by
  rw [h] at hi ⊢
  exact ⟨hi, rfl⟩

theorem refl (k : Kernel) : FlagsKept k k := of_openFiles rfl

theorem setOpenFile {i : Nat} {f : OpenFile}
    (h : f.inUse = true → (k.openFiles i).inUse = true ∧ f.statusFlags = (k.openFiles i).statusFlags) :
    FlagsKept k (k.setOpenFile i f) := by
  intro x hx
  rw [Kernel.setOpenFile_openFiles] at hx ⊢
  by_cases hxi : x = i
  · subst hxi
    rw [Function.update_self] at hx ⊢
    exact h hx
  · rw [Function.update_of_ne hxi] at hx ⊢
    exact ⟨hx, rfl⟩

theorem setOffset {i n : Nat} : FlagsKept k (k.setOpenFile i { k.openFiles i with offset := n }) :=
  setOpenFile fun h => ⟨h, rfl⟩

theorem foldl {α : Type} {f : Kernel → α → Kernel} (hf : ∀ k a, FlagsKept k (f k a)) :
    ∀ {as : List α} {k : Kernel}, FlagsKept k (as.foldl f k)
  | [], k => refl k
  | a :: _, k => (hf k a).trans (foldl hf)

/-! ### Descriptors -/

theorem setPipe {j : Nat} {p : Pipe} : FlagsKept k (k.setPipe j p) := of_openFiles rfl

theorem forkRetain (t : FdTarget) : FlagsKept k (CoreOS.forkRetain k t) := by
  rcases forkRetain_cases k t with h | ⟨i, refs, h⟩ | ⟨j, p, h⟩
  · rw [h]
    exact refl k
  · rw [h]
    exact setOpenFile fun h => ⟨h, rfl⟩
  · rw [h]
    exact setPipe

variable {t : FdTarget}

theorem retain (h : retainFdTarget k t = some k') : FlagsKept k k' :=
  Exact.forkRetain_eq h ▸ forkRetain t

theorem release (t : FdTarget) : FlagsKept k (releaseFdTarget k t) := by
  rcases releaseFdTarget_cases k t with h | ⟨i, f, rfl | ⟨refs, rfl⟩, h⟩ | ⟨j, p, h⟩
  · rw [h]
    exact refl k
  · rw [h]
    exact setOpenFile nofun
  · rw [h]
    exact setOpenFile fun h => ⟨h, rfl⟩
  · rw [h]
    exact setPipe

variable {fd : Nat}

theorem setFd {g : Slot} {w : BitVec 32} : FlagsKept k (k.setFd g fd t w) :=
  of_openFiles (by simp)

theorem dupFd {oldFd minFd : Nat} {newFd : Option Nat} {cloexec : Bool} :
    FlagsKept k (CoreOS.dupFd k oldFd minFd newFd cloexec).2 := by
  rcases dupFd_cases k oldFd minFd newFd cloexec with hr | ⟨t, p, fd, k1, -, -, -, -, -, -, hk1, hr⟩
  · rw [hr]
    exact refl k
  have hemptied : FlagsKept k k1 := by
    rw [← hk1]
    split
    · exact refl k
    · exact setFd.trans (release _)
  rcases hr with ⟨hr, -⟩ | ⟨k2, hk2, hr⟩
  · rw [hr]
    exact hemptied
  · rw [hr]
    exact hemptied.trans ((retain hk2).trans setFd)

theorem fdOrBad {r : Option Nat × Kernel} (h : FlagsKept k r.2) : FlagsKept k (CoreOS.fdOrBad r).2 := by
  obtain ⟨fd, k'⟩ := r
  cases fd <;> exact h

theorem closeFd (h : CoreOS.closeFd k fd = some k') : FlagsKept k k' := by
  obtain ⟨t, p, -, -, -, -, rfl⟩ := closeFd_cases h
  exact setFd.trans (release _)

theorem syscallClose (fd : Nat) : FlagsKept k (CoreOS.syscallClose k fd).2 := by
  unfold CoreOS.syscallClose
  split
  next k' hk' => exact closeFd hk'
  · exact refl k

theorem allocSpecificFd {w : BitVec 32} (h : CoreOS.allocSpecificFd k t w = some (fd, k')) :
    FlagsKept k k' := by
  obtain ⟨t, p, -, -, -, -, rfl⟩ := allocSpecificFd_cases h
  exact setFd

theorem allocPipe : FlagsKept k (CoreOS.allocPipe k).2 := of_openFiles allocPipe_files.1

theorem fcntl {cmd : Nat} {arg : BitVec 64} (hcmd : cmd ≠ fSetfl) : FlagsKept k (syscallFcntl k fd cmd arg).2 := by
  unfold syscallFcntl
  split
  · exact fdOrBad dupFd
  split
  · exact fdOrBad dupFd
  split
  · split <;> exact refl k
  split
  · split
    next k' hk' =>
      simp only [setCloexec, setFdFlags, Option.bind_eq_bind, Option.bind_eq_some_iff] at hk'
      obtain ⟨t, -, p, -, hk'⟩ := hk'
      split at hk'
      · cases hk'
      · cases hk'
        exact of_openFiles rfl
    · exact refl k
  split
  · split <;> exact refl k
  exact refl k

/-! ### Processes -/

theorem forkTask {frame pml4 : Nat} {pid : Option Nat} (h : CoreOS.forkTask k frame pml4 = some (pid, k')) :
    FlagsKept k k' := by
  unfold CoreOS.forkTask at h
  split at h
  · cases h
    exact refl k
  next slot k1 hsp =>
    obtain ⟨⟨pid', k2⟩, hf, he⟩ := map_eq_some_iff.mp h
    cases he
    simp only [forkCurrent, Option.bind_eq_bind, Option.bind_eq_some_iff, Option.some.injEq, Prod.mk.injEq] at hf
    obtain ⟨parent, -, pt, -, -, rfl⟩ := hf
    have hk1 : FlagsKept k k1.bumpPid := of_openFiles (Kernel.spawnTask_spec hsp).openFiles
    exact (hk1.trans (foldl fun _ t => forkRetain t)).trans (of_openFiles rfl)

theorem reapSlot {slot : Slot} {code : Int} (h : CoreOS.reapSlot k slot = some (code, k')) : FlagsKept k k' := by
  unfold CoreOS.reapSlot at h
  split at h
  next p _ =>
    split at h
    · cases h
      have hrel : FlagsKept k (releaseFds k p.fds) := foldl fun _ t => release t
      exact hrel.trans (of_openFiles rfl)
    · cases h
  · cases h

theorem switch {sw : Kernel.SwitchTo} (h : k.nextTaskSwitch = some (sw, k')) : FlagsKept k k' := by
  have hleft : k.leaveTask.2.openFiles = k.openFiles := by
    unfold Kernel.leaveTask Kernel.taskSlotReaped
    split
    · rfl
    · split
      · split
        · split <;> rfl
        · rfl
      · rfl
  simp only [Kernel.nextTaskSwitch, Option.bind_eq_bind, Option.bind_eq_some_iff, Option.some.injEq,
    Prod.mk.injEq] at h
  obtain ⟨next, -, task, -, -, rfl⟩ := h
  exact of_openFiles hleft

theorem life {op : LifeOp} (h : op.step k = some k') : FlagsKept k k' := by
  cases op with
  | fork frame pml4 =>
    obtain ⟨⟨pid, k''⟩, hf, rfl⟩ := map_eq_some_iff.mp h
    exact forkTask hf
  | exec entry stackTop pml4 name =>
    cases h
    rcases execTask_cases k entry stackTop pml4 name with he | ⟨slot, k1, k'', he, -, -, -, -, -, hf⟩
    · rw [he]
      exact refl k
    · rw [he]
      exact of_openFiles hf
  | cloneThread frame c b =>
    obtain ⟨⟨tid, k''⟩, hf, rfl⟩ := map_eq_some_iff.mp h
    rcases cloneThread_cases hf with ⟨-, rfl⟩ | ⟨slot, k1, pt, p, -, -, -, -, -, -, -, -, hf⟩
    · exact refl _
    · exact of_openFiles hf
  | exit | exitGroup | kill | tkill | tgkill | finish | fault => exact of_openFiles (LifeOp.sameRecords rfl h).lived.files
  | reap slot =>
    cases h
    cases hr : CoreOS.reapSlot k slot with
    | none => exact refl k
    | some x => exact reapSlot hr
  | other phys f g =>
    cases h
    exact of_openFiles rfl
  | switch =>
    cases h
    cases hsw : k.nextTaskSwitch with
    | none => exact refl k
    | some x => exact switch hsw

/-! ### Files -/

theorem setFs {fs : Option RamFS} : FlagsKept k (k.setFs fs) := of_openFiles rfl

theorem moves (h : FileMoves k k') : FlagsKept k k' := by
  induction h with
  | refl => exact refl k
  | setFs _ fs ih => exact ih.trans setFs
  | setOffset _ i n ih => exact ih.trans setOffset
  | setPipe _ j _ _ ih => exact ih.trans setPipe

/-- **Only `open` and `F_SETFL` set flags.** -/
theorem call {op : AccessOp} (h : op.call k = some k') (hopen : ¬ ∃ raw flags, op = .syscallOpen raw flags)
    (hset : ¬ ∃ fd arg, op = .fcntl fd fSetfl arg) : FlagsKept k k' := by
  cases op with
  | syscallOpen raw flags => exact absurd ⟨raw, flags, rfl⟩ hopen
  | fcntl fd cmd arg => exact Option.some.inj h ▸ fcntl fun hcmd => hset ⟨fd, arg, by rw [hcmd]⟩
  | life op => exact life h
  | close fd => exact Option.some.inj h ▸ syscallClose fd
  | dup oldFd => exact Option.some.inj h ▸ fdOrBad dupFd
  | dup3 oldFd newFd flags =>
    cases h
    unfold syscallDup3
    split
    · exact refl k
    split
    · exact refl k
    · exact fdOrBad dupFd
  | pipe => exact Option.some.inj h ▸ allocPipe
  | read | readv | pread64 | sendfile | write | writev | pwrite64 | lseek | ftruncate | touch | rm | unlinkat =>
    exact moves (AccessOp.moves h rfl)

end FlagsKept

/-! ## Opening, and `F_SETFL` -/

/-- A description in use was so before, with the same flags, or is new with the
flags of the open. -/
def OpensWith (flags : BitVec 32) (k k' : Kernel) : Prop :=
  ∀ i, (k'.openFiles i).inUse = true →
    ((k.openFiles i).inUse = true ∧ (k'.openFiles i).statusFlags = (k.openFiles i).statusFlags) ∨
    ((k.openFiles i).inUse = false ∧ (k'.openFiles i).statusFlags = flags)

variable {flags : BitVec 32}

theorem FlagsKept.opensWith (h : FlagsKept k k') : OpensWith flags k k' :=
  fun i hi => .inl (h i hi)

theorem OpensWith.trans_kept {k'' : Kernel} (h : OpensWith flags k k') (hk : FlagsKept k' k'') :
    OpensWith flags k k'' := by
  intro i hi
  obtain ⟨hi', hf⟩ := hk i hi
  rw [hf]
  exact h i hi'

theorem OpensWith.openFile {fileIdx : Nat} :
    OpensWith flags k (CoreOS.openFile k fileIdx flags).2 := by
  unfold CoreOS.openFile
  split
  · exact (FlagsKept.refl k).opensWith
  next i k1 ha =>
    have hk1 : OpensWith flags k k1 := by
      unfold FdOpen.alloc at ha
      split at ha
      next j hj =>
        cases ha
        intro x hx
        rw [Kernel.setOpenFile_openFiles] at hx ⊢
        by_cases hxi : x = i
        · subst hxi
          rw [Function.update_self]
          exact .inr ⟨by simpa using List.find?_some hj, rfl⟩
        · rw [Function.update_of_ne hxi] at hx ⊢
          exact .inl ⟨hx, rfl⟩
      · cases ha
    split
    next t p _ _ =>
      split
      · exact hk1.trans_kept .setFd
      · exact hk1.trans_kept (.release _)
    · exact hk1

theorem OpensWith.syscallOpen {raw : List Byte} {flags : BitVec 64} :
    OpensWith (openStatus flags) k (CoreOS.syscallOpen k raw flags).2 := by
  rcases syscallOpen_cases k raw flags with ⟨fs, -, h | ⟨idx, h⟩⟩ | ⟨target, fd, k', ho, h⟩ | ⟨fd, h⟩
  · rw [h]
    exact FlagsKept.setFs.opensWith
  · rw [h]
    exact .openFile
  · rw [h]
    unfold openCharDevice at ho
    split at ho
    · exact (FlagsKept.allocSpecificFd ho).opensWith
    · exact (FlagsKept.allocSpecificFd ho).opensWith
    · exact (FlagsKept.allocSpecificFd ho).opensWith
    · cases ho
  · rw [h]
    exact FlagsKept.dupFd.opensWith

theorem openStatus_accmode (flags : BitVec 64) : openStatus flags &&& oAccmode = flags.setWidth 32 &&& oAccmode := by
  unfold openStatus
  rw [BitVec.and_assoc]
  rfl

/-- **`F_SETFL`** does nothing to a description, or makes one read-only. -/
theorem setfl_cases (k : Kernel) (fd : Nat) (arg : BitVec 64) :
    (fdOpenIdx k fd = none ∧ (syscallFcntl k fd fSetfl arg).2.openFiles = k.openFiles) ∨
    ∃ i, fdOpenIdx k fd = some i ∧ (k.openFiles i).inUse = true ∧
      (syscallFcntl k fd fSetfl arg).2 =
        k.setOpenFile i { k.openFiles i with statusFlags := arg.setWidth 32 &&& fcntlStatusMask } := by
  have hcall : (syscallFcntl k fd fSetfl arg).2 =
      (setStatusFlags k fd (arg.setWidth 32 &&& fcntlStatusMask)).getD k := by
    simp only [syscallFcntl, fSetfl, fDupfd, fDupfdCloexec, fGetfd, fSetfd, fGetfl, Nat.reduceEqDiff, if_false, if_true]
    cases setStatusFlags k fd (arg.setWidth 32 &&& fcntlStatusMask) <;> rfl
  rw [hcall]
  cases hi : fdOpenIdx k fd with
  | some i =>
    have h := fdOpenIdx_eq_some.mp hi
    refine .inr ⟨i, rfl, h.inUse, ?_⟩
    simp only [setStatusFlags, h.target, FdOpen.setStatusFlags, h.live, if_true, Option.getD_some]
  | none =>
    refine .inl ⟨rfl, ?_⟩
    unfold setStatusFlags
    split
    · rfl
    · rfl
    · rfl
    · rfl
    next i ht =>
      have hdead : FdOpen.live k i = false := by
        cases hl : FdOpen.live k i with
        | false => rfl
        | true => rw [fdOpenIdx_eq_some.mpr ⟨ht, hl⟩] at hi; cases hi
      simp only [FdOpen.setStatusFlags, hdead, Bool.false_eq_true, if_false, Option.getD_none]
    · unfold FdPipe.setStatusFlags
      cases FdPipe.getMut k fd <;> rfl
    · unfold FdPipe.setStatusFlags
      cases FdPipe.getMut k fd <;> rfl
    · rfl
    · rfl

theorem setflMask_accmode (arg : BitVec 64) : arg.setWidth 32 &&& fcntlStatusMask &&& oAccmode = oRdonly := by
  rw [BitVec.and_assoc]
  have : fcntlStatusMask &&& oAccmode = 0 := rfl
  rw [this]
  simp [oRdonly]

/-! ## The mode over a run -/

namespace AccessRun

variable {s t : AccessRun}

theorem Fixed.opensWith {flags mode : BitVec 32} {k : Kernel} (hs : s.Fixed) (h : OpensWith flags s.kernel k)
    (hmode : flags &&& oAccmode = mode) :
    Fixed ⟨k, fun i => if !(s.kernel.openFiles i).inUse && (k.openFiles i).inUse then mode else s.opened i⟩ := by
  intro i hi
  dsimp only at hi ⊢
  rcases h i hi with ⟨hold, hf⟩ | ⟨hnew, hf⟩
  · simp only [hold, Bool.not_true, Bool.false_and, Bool.false_eq_true, if_false]
    rw [hf]
    exact hs i hold
  · simp only [hnew, hi, Bool.not_false, Bool.and_true, if_true]
    rw [hf]
    exact hmode

theorem Fixed.kept {mode : BitVec 32} {k : Kernel} (hs : s.Fixed) (h : FlagsKept s.kernel k) :
    Fixed ⟨k, fun i => if !(s.kernel.openFiles i).inUse && (k.openFiles i).inUse then mode else s.opened i⟩ := by
  intro i hi
  obtain ⟨hold, hf⟩ := h i hi
  dsimp only
  simp only [hold, Bool.not_true, Bool.false_and, Bool.false_eq_true, if_false]
  rw [hf]
  exact hs i hold

theorem Fixed.setfl {fd : Nat} {arg : BitVec 64} (hs : s.Fixed) (ht : s.step (.fcntl fd fSetfl arg) = some t) :
    t.Fixed ↔ s.SetsReadonly (.fcntl fd fSetfl arg) := by
  cases ht
  rcases setfl_cases s.kernel fd arg with ⟨hnone, hsame⟩ | ⟨i, hi, huse, hset⟩
  · simp only [SetsReadonly, hnone, Option.all_none, implies_true, iff_true]
    exact hs.kept (.of_openFiles hsame)
  · simp only [SetsReadonly, hi, Option.all_some, decide_eq_true_eq, forall_const]
    rw [hs i huse, hset]
    constructor
    · intro hfixed
      have := hfixed i
      simp only [Kernel.setOpenFile_openFiles, Function.update_self, huse, Bool.not_true, Bool.false_and,
        Bool.false_eq_true, if_false, forall_const] at this
      rw [← this, setflMask_accmode]
    · intro hread x hx
      simp only [Kernel.setOpenFile_openFiles] at hx ⊢
      by_cases hxi : x = i
      · subst hxi
        simp only [Function.update_self, huse, Bool.not_true, Bool.false_and, Bool.false_eq_true, if_false]
        rw [setflMask_accmode, hread]
      · simp only [Function.update_of_ne hxi] at hx ⊢
        simp only [hx, Bool.not_true, Bool.false_and, Bool.false_eq_true, if_false]
        exact hs x hx

/-- **One step** keeps the modes exactly when it meets the condition. -/
theorem Fixed.step_iff {op : AccessOp} (hs : s.Fixed) (ht : s.step op = some t) : t.Fixed ↔ s.SetsReadonly op := by
  by_cases hset : ∃ fd arg, op = .fcntl fd fSetfl arg
  · obtain ⟨fd, arg, rfl⟩ := hset
    exact hs.setfl ht
  · have hC : s.SetsReadonly op := by
      cases op with
      | fcntl fd cmd arg => exact fun hcmd => absurd ⟨fd, arg, by rw [hcmd]⟩ hset
      | _ => trivial
    refine iff_of_true ?_ hC
    obtain ⟨k, hk, rfl⟩ := map_eq_some_iff.mp ht
    by_cases hopen : ∃ raw flags, op = .syscallOpen raw flags
    · obtain ⟨raw, flags, rfl⟩ := hopen
      cases hk
      exact hs.opensWith .syscallOpen (openStatus_accmode flags)
    · exact hs.kept (.call hk hopen hset)

end AccessRun

/-! ## Reading and writing by mode -/

/-- What the mode a description was opened with comes to at a descriptor of it. -/
structure AccessObeyed (k : Kernel) (fd i : Nat) (mode : BitVec 32) : Prop where
  notRead : mode = oWronly →
    (∀ count typed, readFromFd k fd count typed = if count = 0 then some (.bytes [], k) else none) ∧
    (∀ iovs, ∃ chunks r, readv k fd iovs = (chunks, .done r, k) ∧ chunks.flatten = [] ∧ ∀ n, r = .ok n → n = 0) ∧
    (∀ count offset, pread64 k fd count offset = some (.error .badFd)) ∧
    ∀ outFd offset count, sendfile k outFd fd offset count = some (.error .badFd, k)
  notWritten : mode = oRdonly →
    (∀ bytes, writeToFd k fd bytes = some (none, k)) ∧
    (∀ iovs, ∃ e, writev k fd iovs = some (.error e, k)) ∧
    ∀ bytes offset, pwrite64 k fd bytes offset = some (.error .badFd, k)
  read : mode = oRdwr →
    (∀ count typed, ∃ bytes k', readFromFd k fd count typed = some (.bytes bytes, k')) ∧
    (∀ iovs, iovcntOk iovs.length = true → none ∉ iovs → ∃ chunks n k', readv k fd iovs = (chunks, .done (.ok n), k')) ∧
    ∀ count offset data, fsData k.fs (k.openFiles i).fileIdx = some data → offset ≤ data.length →
      ∃ bytes, pread64 k fd count offset = some (.ok bytes)
  write : mode = oRdwr → ∀ data, fsData k.fs (k.openFiles i).fileIdx = some data →
    (∀ bytes, (k.openFiles i).writePos data.length + bytes.length ≤ isizeMax →
      ∃ k', writeToFd k fd bytes = some (some bytes.length, k')) ∧
    (∀ iovs : List (List Byte), iovcntOk iovs.length = true →
      max data.length (k.openFiles i).offset + iovs.flatten.length ≤ isizeMax →
      ∃ n k', writev k fd (iovs.map some) = some (.ok n, k')) ∧
    ∀ bytes offset, offset + bytes.length ≤ isizeMax →
      ∃ k', pwrite64 k fd bytes offset = some (.ok bytes.length, k')

namespace OnFile

variable {k : Kernel} {fd i : Nat}

theorem readvLoop_wronly (h : OnFile k fd i) (hmode : (k.openFiles i).statusFlags &&& oAccmode = oWronly) :
    ∀ (iovs : List (Option ReadBuf)), ∃ chunks r, readvLoop fd k iovs 0 = (chunks, .done r, k) ∧
      chunks.flatten = [] ∧ ∀ n, r = .ok n → n = 0
  | [] => ⟨[], .ok 0, rfl, rfl, fun n hn => (Except.ok.inj hn).symm⟩
  | none :: _ => ⟨[], .error .fault, rfl, rfl, fun n hn => by cases hn⟩
  | some buf :: iovs => by
    have hread := h.readFromFd buf.len buf.typed
    rw [h.readFile, if_pos hmode, Option.map_none] at hread
    unfold readvLoop
    rw [hread]
    by_cases hlen : buf.len = 0
    · -- an empty buffer is passed over
      obtain ⟨chunks, r, hr, hflat, hn⟩ := readvLoop_wronly h hmode iovs
      refine ⟨[] :: chunks, r, ?_, by simpa using hflat, hn⟩
      have hsat : saturatingAdd 0 0 = 0 := by decide
      simp only [hlen, if_true, List.length_nil, ne_eq, not_true_eq_false, if_false, hsat, hr]
    · refine ⟨[], .error .badFd, ?_, rfl, fun n hn => by cases hn⟩
      rw [if_neg hlen]

theorem readvLoop_ok : ∀ (iovs : List (Option ReadBuf)) {k : Kernel} (total : Nat), OnFile k fd i →
    (k.openFiles i).statusFlags &&& oAccmode ≠ oWronly → none ∉ iovs →
    ∃ chunks n k', readvLoop fd k iovs total = (chunks, .done (.ok n), k')
  | [], k, total, _, _, _ => ⟨[], total, k, rfl⟩
  | none :: _, _, _, _, _, hall => absurd (List.mem_cons_self ..) hall
  | some buf :: iovs, k, total, h, hmode, hall => by
    obtain ⟨bytes, k', hread, h', hmode'⟩ : ∃ bytes k', CoreOS.readFromFd k fd buf.len buf.typed = some (.bytes bytes, k') ∧
        OnFile k' fd i ∧ (k'.openFiles i).statusFlags &&& oAccmode ≠ oWronly := by
      rw [h.readFromFd, h.readFile, if_neg hmode]
      by_cases hlen : buf.len = 0
      · exact ⟨[], k, by rw [if_pos hlen], h, hmode⟩
      · rw [if_neg hlen]
        refine ⟨_, _, rfl, h.kept rfl ?_, ?_⟩
        · simp
        · simpa using hmode
    unfold readvLoop
    rw [hread]
    dsimp only
    by_cases hfull : bytes.length ≠ buf.len
    · rw [if_pos hfull]
      exact ⟨_, _, _, rfl⟩
    · rw [if_neg hfull]
      obtain ⟨chunks, n, k'', hr⟩ := readvLoop_ok iovs (saturatingAdd total bytes.length) h' hmode'
        fun hmem => hall (List.mem_cons_of_mem _ hmem)
      exact ⟨_, n, k'', by rw [hr]⟩

theorem writevLoop_ok : ∀ (iovs : List (List Byte)) {k : Kernel} {data : List Byte} (total : Nat), OnFile k fd i →
    (k.openFiles i).statusFlags &&& oAccmode = oRdwr → fsData k.fs (k.openFiles i).fileIdx = some data →
    max data.length (k.openFiles i).offset + iovs.flatten.length ≤ isizeMax →
    ∃ n k', writevLoop fd k (iovs.map some) total = some (.ok n, k')
  | [], k, _, total, _, _, _, _ => ⟨total, k, rfl⟩
  | bytes :: iovs, k, data, total, h, hmode, hdata, hlt => by
    rw [List.flatten_cons, List.length_append] at hlt
    have hpos : (k.openFiles i).writePos data.length ≤ max data.length (k.openFiles i).offset := by
      unfold OpenFile.writePos
      split <;> omega
    have hle : (k.openFiles i).writePos data.length + bytes.length ≤ isizeMax := by omega
    obtain ⟨fs, hw, hd⟩ := h.writeFile_ok (.inr hmode) hdata hle
    rw [List.map_cons]
    unfold writevLoop
    rw [h.writeToFd, hw]
    dsimp only
    rw [if_neg (by simp)]
    have hmax : max (Contents.overwrite 0 data ((k.openFiles i).writePos data.length) bytes).length
        ((k.openFiles i).writePos data.length + bytes.length) + iovs.flatten.length ≤ isizeMax := by
      rw [Contents.length_overwrite]
      omega
    exact writevLoop_ok iovs (saturatingAdd total bytes.length) (h.kept rfl (by simp [Kernel.setFs]))
      (by simpa [Kernel.setFs] using hmode) (by simpa [Kernel.setFs] using hd) (by simpa [Kernel.setFs] using hmax)

theorem obeyed (h : OnFile k fd i) : AccessObeyed k fd i ((k.openFiles i).statusFlags &&& oAccmode) := by
  constructor
  case notRead =>
    intro hmode
    refine ⟨fun count typed => ?_, fun iovs => ?_, fun count offset => ?_, fun outFd offset count => ?_⟩
    · rw [h.readFromFd, h.readFile, if_pos hmode, Option.map_none]
    · unfold readv
      split
      · exact h.readvLoop_wronly hmode iovs
      · exact ⟨[], .error .fault, rfl, rfl, nofun⟩
    · rw [h.pread64, if_pos hmode]
    · simp only [sendfile, h.statusFlags, hmode, if_true]
  case notWritten =>
    intro hmode
    have hwrite : ∀ bytes, CoreOS.writeToFd k fd bytes = some (none, k) := by
      intro bytes
      rw [h.writeToFd]
      simp only [CoreOS.writeFile, h.openIdx, hmode]
      rw [if_neg (by decide)]
    refine ⟨hwrite, fun iovs => ?_, fun bytes offset => ?_⟩
    · unfold writev
      split
      next hcount =>
        cases iovs with
        | nil => cases hcount
        | cons b iovs =>
          cases b with
          | none => exact ⟨.fault, rfl⟩
          | some bytes => exact ⟨.badFd, by simp only [writevLoop, hwrite]⟩
      · exact ⟨.fault, rfl⟩
    · rw [h.pwrite64, if_pos hmode]
  case read =>
    intro hmode
    have hne : (k.openFiles i).statusFlags &&& oAccmode ≠ oWronly := by
      rw [hmode]
      decide
    refine ⟨fun count typed => ?_, fun iovs hcount hall => ?_, fun count offset data hdata hle => ?_⟩
    · rw [h.readFromFd, h.readFile, if_neg hne]
      split
      · exact ⟨_, _, rfl⟩
      · exact ⟨_, _, rfl⟩
    · rw [readv, if_pos hcount]
      exact readvLoop_ok iovs 0 h hne hall
    · rw [h.pread64, if_neg hne, fsReadToVec, hdata]
      dsimp only
      rw [if_neg (by omega)]
      exact ⟨_, rfl⟩
  case write =>
    intro hmode data hdata
    have hne : (k.openFiles i).statusFlags &&& oAccmode ≠ oRdonly := by
      rw [hmode]
      decide
    refine ⟨fun bytes hlt => ?_, fun iovs hcount hlt => ?_, fun bytes offset hlt => ?_⟩
    · obtain ⟨fs, hw, -⟩ := h.writeFile_ok (.inr hmode) hdata hlt
      exact ⟨_, (h.writeToFd bytes).trans hw⟩
    · rw [writev, List.length_map, if_pos hcount]
      exact writevLoop_ok iovs 0 h hmode hdata hlt
    · obtain ⟨fs, hw, -⟩ := fsWriteAt_spec hdata hlt
      rw [h.pwrite64, if_neg hne, hw]
      exact ⟨_, rfl⟩

end OnFile

/-- **The access mode is fixed at open**, exactly as long as `F_SETFL` finds
read-only descriptions. In every state of such a run, a descriptor of a
description opened `O_WRONLY` gives no bytes, one of a description opened
`O_RDONLY` takes none, and one of a description opened `O_RDWR` does both. -/
theorem access_mode_fixed_iff (phys : Phys) (code : CodeAddrs) (kernelPml4 stackBase : Nat) (fs : Option RamFS)
    (ops : List AccessOp) :
    (Lts.Always AccessRun.step AccessRun.Fixed (.start phys code kernelPml4 stackBase fs) ops ↔
      Lts.Meets AccessRun.step AccessRun.SetsReadonly (.start phys code kernelPml4 stackBase fs) ops) ∧
    ∀ s, Lts.Meets AccessRun.step AccessRun.SetsReadonly (.start phys code kernelPml4 stackBase fs) ops →
      Lts.exec AccessRun.step (.start phys code kernelPml4 stackBase fs) ops = some s →
      ∀ fd i, fdOpenIdx s.kernel fd = some i → AccessObeyed s.kernel fd i (s.opened i) := by
  have hstart : (AccessRun.start phys code kernelPml4 stackBase fs).Fixed := nofun
  refine ⟨?_, fun s hmeets h fd i hi => ?_⟩
  · refine Lts.always_iff_meets (J := fun _ => True) (fun _ _ _ _ _ => trivial) (fun s op t _ hs ht => hs.step_iff ht) ?_
      trivial hstart
    intro s op hnone
    cases op with
    | fcntl fd cmd arg => cases hnone
    | _ => trivial
  · have hs := Lts.exec_invariant_of_meets AccessRun.Fixed (fun _ _ _ hs hC ht => (hs.step_iff ht).mpr hC) hstart hmeets h
    have hon := fdOpenIdx_eq_some.mp hi
    rw [← hs i hon.inUse]
    exact hon.obeyed

/-- A program opens a file for reading only and one for both, uses them, and
sets `O_APPEND` on the first. -/
def setReadonlyOps : List AccessOp :=
  [.life (.exec 0 0 0 []), .life .switch, .syscallOpen (pathBytes ['a']) (oCreat.setWidth 64),
    .syscallOpen (pathBytes ['a']) (oRdwr.setWidth 64), .write 4 [0x61], .fcntl 3 fSetfl (oAppend.setWidth 64)]

/-- The first cannot be written afterwards, the second can be read. -/
theorem access_mode_fixed_setReadonly :
    ∃ s, Lts.exec AccessRun.step (.start allFree ⟨0, 0⟩ 0 0 (some .new)) setReadonlyOps = some s ∧
      writeToFd s.kernel 3 [0x62] = some (none, s.kernel) ∧
      ∃ bytes k, readFromFd s.kernel 4 1 [] = some (.bytes bytes, k) := by
  have hrun : (Lts.exec AccessRun.step (.start allFree ⟨0, 0⟩ 0 0 (some .new)) setReadonlyOps).map
      (fun s => (fdOpenIdx s.kernel 3, fdOpenIdx s.kernel 4, s.opened 0, s.opened 1)) =
      some (some 0, some 1, oRdonly, oRdwr) := by decide +kernel
  obtain ⟨s, hs, hobs⟩ := map_eq_some_iff.mp hrun
  simp only [Prod.mk.injEq] at hobs
  obtain ⟨h3, h4, hm3, hm4⟩ := hobs
  have hmeets : Lts.Meets AccessRun.step AccessRun.SetsReadonly (.start allFree ⟨0, 0⟩ 0 0 (some .new)) setReadonlyOps := by
    decide +kernel
  have hobeyed := (access_mode_fixed_iff allFree ⟨0, 0⟩ 0 0 (some .new) setReadonlyOps).2 s hmeets hs
  exact ⟨s, hs, ((hobeyed 3 0 h3).notWritten hm3).1 _, ((hobeyed 4 1 h4).read hm4).1 1 []⟩

/-- A program opens a file for writing only, writes a byte, sets its flags to
nothing and goes back to the start. -/
def setWriterOps : List AccessOp :=
  [.life (.exec 0 0 0 []), .life .switch, .syscallOpen (pathBytes ['a']) ((oCreat ||| oWronly).setWidth 64),
    .write 3 [0x61], .fcntl 3 fSetfl 0, .lseek 3 0 0]

/-- **`F_SETFL` lets a writer read.** The description was opened `O_WRONLY`, and
a read gives the byte. -/
theorem setfl_lets_writer_read :
    ∃ s, Lts.exec AccessRun.step (.start allFree ⟨0, 0⟩ 0 0 (some .new)) setWriterOps = some s ∧
      fdOpenIdx s.kernel 3 = some 0 ∧ s.opened 0 = oWronly ∧
      (s.kernel.openFiles 0).statusFlags &&& oAccmode = oRdonly ∧
      (readFile s.kernel 3 1).map Prod.fst = some [0x61] := by
  have hrun : (Lts.exec AccessRun.step (.start allFree ⟨0, 0⟩ 0 0 (some .new)) setWriterOps).map
      (fun s => (fdOpenIdx s.kernel 3, s.opened 0, (s.kernel.openFiles 0).statusFlags &&& oAccmode,
        (readFile s.kernel 3 1).map Prod.fst)) = some (some 0, oWronly, oRdonly, some [0x61]) := by decide +kernel
  obtain ⟨s, hs, hobs⟩ := map_eq_some_iff.mp hrun
  simp only [Prod.mk.injEq] at hobs
  exact ⟨s, hs, hobs⟩

end CoreOS
