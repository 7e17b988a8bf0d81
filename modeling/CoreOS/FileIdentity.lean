/-
A descriptor and the file it was opened on. The description behind a descriptor
holds a place in the vector of files, and removing a file moves every later
file down by one; so a descriptor goes on referring to its file exactly as long
as no file at or before its place is removed (`file_identity`).
-/
import CoreOS.FileFrame

namespace CoreOS

open RefCount

/-! ## Closing and removing -/

/-- What a call that may close descriptors leaves: a description referred to
before and after it is of the same file. -/
structure Closes (k k' : Kernel) : Prop where
  fileIdx : ∀ i, .openFile i ∈ k.held → .openFile i ∈ k'.held → (k'.openFiles i).fileIdx = (k.openFiles i).fileIdx
  fs : k'.fs = k.fs

variable {k k' : Kernel}

theorem Opens.closes (h : Opens k k') : Closes k k' := ⟨fun i hi _ => h.fileIdx i hi, h.fs⟩

variable {fd : Nat}

theorem Closes.keeps {s : Slot} {idx : Nat} (h : Closes k k') (hi : k.fileIdxOf s fd = some idx)
    (he : (k'.processes s).map (fun p => p.fds fd) = (k.processes s).map fun p => p.fds fd) :
    k'.fileIdxOf s fd = some idx := by
  obtain ⟨p, i, hp, hlt, hfd, rfl⟩ := Kernel.fileIdxOf_eq_some.mp hi
  rw [hp, Option.map_some, hfd] at he
  obtain ⟨p', hp', hfd'⟩ := Option.map_eq_some_iff.mp he
  exact Kernel.fileIdxOf_eq_some.mpr ⟨p', i, hp', hlt, hfd',
    h.fileIdx i (hfd ▸ Kernel.mem_held hp hlt) (hfd' ▸ Kernel.mem_held hp' hlt)⟩

theorem Closes.close {g : Slot} {p : Process} {w : BitVec 32} (hex : RefsExact k) (hp : k.processes g = some p)
    (hlt : fd < maxFds) :
    Closes k (releaseFdTarget (k.setFd g fd .empty w) (p.fds fd)) := by
  have htake : Exact (k.setFd g fd .empty w) (p.fds fd ::ₘ (k.setFd g fd .empty w).held) := by
    have := Exact.take (N := 0) (w := w) (by rw [zero_add]; exact hex) hp hlt
    rwa [zero_add] at this
  refine ⟨fun i _ hi => ?_, by rw [release_fs, Kernel.setFd_fs]⟩
  rw [(SameProcesses.release _).held] at hi
  rw [release_fileIdx htake hi, Kernel.setFd_openFiles]

theorem Closes.closeFd (hex : RefsExact k) (h : closeFd k fd = some k') :
    Closes k k' := by
  obtain ⟨t, p, -, hp, hlt, -, rfl⟩ := closeFd_cases h
  exact close hex hp hlt

theorem Closes.of_eq (ho : k'.openFiles = k.openFiles) (hfs : k'.fs = k.fs) : Closes k k' :=
  ⟨fun i _ _ => by rw [ho], hfs⟩

theorem Closes.dupFd {oldFd minFd : Nat} {newFd : Option Nat} {cloexec : Bool} (hex : RefsExact k) :
    Closes k (dupFd k oldFd minFd newFd cloexec).2 := by
  rcases dupFd_cases k oldFd minFd newFd cloexec with hr | ⟨t, p, fd, k1, -, hp, hold, -, hlt, hfd, hk1, hr⟩
  · rw [hr]
    exact .of_eq rfl rfl
  have hclose : Closes k k1 := by
    rw [← hk1]
    split
    · exact .of_eq rfl rfl
    · exact .close hex hp hlt
  obtain ⟨k1', p1, hk1', hp1, -, -, hold1⟩ := hex.emptied (w := p.fdFlags fd) hp hlt hfd
  obtain rfl : k1 = k1' := hk1.symm.trans hk1'
  rcases hr with ⟨hr, -⟩ | ⟨k2, hk2, hr⟩
  · rw [hr]
    exact hclose
  · have hsame := SameProcesses.retain hk2
    rw [hr]
    refine ⟨fun i hi hi' => ?_, by rw [Kernel.setFd_fs, retain_fs hk2, hclose.fs]⟩
    have hmem : .openFile i ∈ k1.held := by
      have hset := Kernel.held_setFd (t := p.fds oldFd) (w := if cloexec then fdCloexec else 0)
        (hsame.processes ▸ hp1) hlt
      have := hset ▸ Multiset.mem_cons_of_mem (b := p1.fds fd) hi'
      rcases Multiset.mem_cons.mp this with he | he
      · rw [he, ← hold1]
        exact Kernel.mem_held hp1 hold
      · rwa [hsame.held] at he
    rw [Kernel.setFd_openFiles, retain_fileIdx hk2, hclose.fileIdx i hi hmem]

theorem Closes.allocPipe : Closes k (allocPipe k).2 := .of_eq allocPipe_files.1 allocPipe_files.2

theorem Closes.forkCurrent {slot : Slot} {pid : Nat} (h : forkCurrent k slot = some (pid, k')) :
    Closes k k' := by
  simp only [CoreOS.forkCurrent, Option.bind_eq_bind, Option.bind_eq_some_iff, Option.some.injEq,
    Prod.mk.injEq] at h
  obtain ⟨parent, -, t, -, -, rfl⟩ := h
  have hfold : ∀ (ts : List FdTarget) (k : Kernel), Closes k (ts.foldl forkRetain k) ∧
      ∀ i, ((ts.foldl forkRetain k).openFiles i).fileIdx = (k.openFiles i).fileIdx := by
    intro ts
    induction ts with
    | nil => exact fun k => ⟨.of_eq rfl rfl, fun _ => rfl⟩
    | cons t ts ih =>
      intro k
      have hidx : ∀ i, ((ts.foldl forkRetain (forkRetain k t)).openFiles i).fileIdx = (k.openFiles i).fileIdx :=
        fun i => ((ih _).2 i).trans forkRetain_fileIdx
      exact ⟨⟨fun i _ _ => hidx i, (ih _).1.fs.trans forkRetain_fs⟩, hidx⟩
  obtain ⟨hc, hidx⟩ := hfold (fdList parent.fds) k.bumpPid
  exact ⟨fun i _ _ => hidx i, hc.fs⟩

theorem release_all_fileIdx {M : Multiset FdTarget} {ts : List FdTarget} {i : Nat} (h : Exact k (ts + M))
    (hi : .openFile i ∈ M) : ((ts.foldl releaseFdTarget k).openFiles i).fileIdx = (k.openFiles i).fileIdx := by
  induction ts generalizing k with
  | nil => rfl
  | cons t ts ih =>
    rw [← Multiset.cons_coe, Multiset.cons_add] at h
    rw [List.foldl_cons, ih h.release, release_fileIdx h (Multiset.mem_add.mpr (.inr hi))]

theorem release_all_fs {ts : List FdTarget} : (ts.foldl releaseFdTarget k).fs = k.fs := by
  induction ts generalizing k with
  | nil => rfl
  | cons t ts ih => exact ih.trans release_fs

theorem Closes.reapSlot {slot : Slot} {code : Int} (hex : RefsExact k) (h : reapSlot k slot = some (code, k')) :
    Closes k k' := by
  unfold CoreOS.reapSlot at h
  split at h
  next p hp =>
    split at h
    · cases h
      have hheld := Kernel.held_setProcess (k := k) (s := slot) (p := none)
      rw [hp, heldBy, heldBy, zero_add] at hheld
      have hsame : SameProcesses k (releaseFds k p.fds) := .foldl fun _ t => .release t
      refine ⟨fun i _ hi => ?_, release_all_fs⟩
      have hi' : .openFile i ∈ (k.setProcess slot none).held := by
        rwa [Kernel.held_congr (k := k.setProcess slot none) fun s => by simp [hsame.processes]] at hi
      refine release_all_fileIdx ?_ hi'
      have hlist : (fdList p.fds : Multiset FdTarget) + (k.setProcess slot none).held = k.held := hheld
      rw [hlist]
      exact hex
    · cases h
  · cases h

/-- **No descriptor operation redirects a description.** -/
theorem Closes.step {op : FdOp} (hex : RefsExact k) (hs : fdStep k op = some k') : Closes k k' := by
  cases op with
  | schedule slot =>
    cases hs
    exact .of_eq rfl rfl
  | spawnNamed slot name =>
    simp only [fdStep] at hs
    split at hs
    · cases hs; exact .of_eq rfl rfl
    · cases hs
  | spawnThread slot c b =>
    obtain ⟨⟨tid, k1⟩, hk1, rfl⟩ := Option.map_eq_some_iff.mp hs
    have hsame := SameFds.spawnThreadInGroup hk1
    exact .of_eq hsame.openFiles hsame.fs
  | exitThread code wholeGroup =>
    cases hs
    exact .of_eq SameFds.exitThread.openFiles SameFds.exitThread.fs
  | openFile fileIdx flags =>
    simp only [fdStep] at hs
    split at hs
    · cases hs; exact (Opens.openFile hex).closes
    · cases hs
  | openCharDevice target =>
    cases hs
    cases ho : CoreOS.openCharDevice k target with
    | none => exact .of_eq rfl rfl
    | some r => exact (Opens.openCharDevice ho).closes
  | closeFd fd =>
    cases hs
    cases hc : CoreOS.closeFd k fd with
    | none => exact .of_eq rfl rfl
    | some k1 => exact .closeFd hex hc
  | dupFd oldFd minFd newFd cloexec =>
    cases hs
    exact .dupFd hex
  | allocPipe =>
    cases hs
    exact .allocPipe
  | forkCurrent slot =>
    simp only [fdStep] at hs
    split at hs
    · obtain ⟨⟨pid, k1⟩, hk1, rfl⟩ := Option.map_eq_some_iff.mp hs
      exact .forkCurrent hk1
    · cases hs
  | reapSlot slot =>
    cases hs
    cases hr : CoreOS.reapSlot k slot with
    | none => exact .of_eq rfl rfl
    | some r => exact .reapSlot hex hr

/-- The place of the file that removing the path `raw` takes out. -/
def rmIdx (k : Kernel) (raw : List ByteMem.Byte) : Option Nat := (normalizePathBytes raw).bind (fsFindIdx k.fs)

theorem rm_cases (k : Kernel) (raw : List ByteMem.Byte) :
    (rmIdx k raw = none ∧ (rm k raw).2 = k) ∨
      ∃ idx fs, rmIdx k raw = some idx ∧ k.fs = some fs ∧ idx < fs.files.length ∧
        rm k raw = (.ok 0, k.setFs (some ⟨fs.files.eraseIdx idx⟩)) := by
  unfold rm rmIdx
  cases hn : normalizePathBytes raw with
  | none => exact .inl ⟨rfl, rfl⟩
  | some path =>
    cases hfs : k.fs with
    | none => exact .inl ⟨rfl, rfl⟩
    | some fs =>
      simp only [Option.bind_some, fsFindIdx, Vfs.remove, RamFS.remove]
      cases hpos : fs.position path with
      | none => exact .inl ⟨rfl, rfl⟩
      | some idx =>
        refine .inr ⟨idx, fs, rfl, rfl, ?_, rfl⟩
        exact (List.findIdx?_eq_some_iff_getElem.mp hpos).1

/-- The place of the file that `unlinkat` takes out, when it succeeds. -/
def unlinkIdx (k : Kernel) (raw : List ByteMem.Byte) (flags : BitVec 64) : Option Nat :=
  if (unlinkat k raw flags).1 = .ok 0 then rmIdx k raw else none

theorem unlinkat_cases (k : Kernel) (raw : List ByteMem.Byte) (flags : BitVec 64) :
    (unlinkIdx k raw flags = none ∧ (unlinkat k raw flags).2 = k) ∨
      ∃ idx fs, unlinkIdx k raw flags = some idx ∧ k.fs = some fs ∧ idx < fs.files.length ∧
        unlinkat k raw flags = (.ok 0, k.setFs (some ⟨fs.files.eraseIdx idx⟩)) := by
  unfold unlinkIdx unlinkat
  split
  · exact .inl ⟨rfl, rfl⟩
  split
  · exact .inl ⟨rfl, rfl⟩
  split
  · exact .inl ⟨rfl, rfl⟩
  rcases rm_cases k raw with ⟨hi, hk⟩ | ⟨idx, fs, hi, hfs, hlt, hk⟩
  · refine .inl ⟨?_, hk⟩
    split
    · exact hi
    · rfl
  · exact .inr ⟨idx, fs, by rw [hk, if_pos rfl, hi], hfs, hlt, hk⟩

/-! ## Runs -/

/-- A kernel, the identity of the file in each place, and for each descriptor
obtained by opening a file and not closed since, the identity of that file. -/
structure FileRun where
  kernel : Kernel
  ids : List Nat
  nextId : Nat
  opened : Slot → Nat → Option Nat

/-- The file system calls, by whichever task runs, and every other operation on
descriptors, processes and threads. -/
inductive FileOp
  | other (op : FdOp)
  | syscallOpen (raw : List ByteMem.Byte) (flags : BitVec 64)
  | touch (raw : List ByteMem.Byte)
  | rm (raw : List ByteMem.Byte)
  | unlinkat (raw : List ByteMem.Byte) (flags : BitVec 64)
  | read (fd count : Nat) (typed : List ByteMem.Byte)
  | write (fd : Nat) (bytes : List ByteMem.Byte)
  | pread64 (fd count offset : Nat)
  | pwrite64 (fd : Nat) (bytes : List ByteMem.Byte) (offset : Nat)
  | ftruncate (fd len : Nat)
  | fstat (fd : Nat)
  | close (fd : Nat)

namespace FileRun

def setOpened (r : FileRun) (s : Slot) (fd : Nat) (id : Option Nat) : FileRun :=
  { r with opened := Function.update r.opened s (Function.update (r.opened s) fd id) }

/-- To a kernel whose files are the old ones and perhaps new ones after them;
each new one gets a fresh identity. -/
def advance (r : FileRun) (k : Kernel) : FileRun :=
  { r with
    kernel := k
    ids := r.ids ++ (List.range (k.fileCount - r.ids.length)).map (r.nextId + ·)
    nextId := r.nextId + (k.fileCount - r.ids.length) }

/-- To a kernel in which the file at `idx` is gone. -/
def without (r : FileRun) (idx : Option Nat) (k : Kernel) : FileRun :=
  { r with
    kernel := k
    ids := idx.elim r.ids r.ids.eraseIdx }

/-- After an open: the descriptor is open on the file it now leads to. -/
def opening (r : FileRun) : Except SysError Nat × Kernel → FileRun
  | (.ok fd, k) =>
    let r := r.advance k
    match k.currentThread with
    | some t => r.setOpened t.groupSlot fd ((k.fileIdxOf t.groupSlot fd).bind (r.ids[·]?))
    | none => r
  | (.error _, k) => r.advance k

/-- After a close. -/
def closing (r : FileRun) (fd : Nat) : Except SysError Nat × Kernel → FileRun
  | (.ok _, k) =>
    match k.currentThread with
    | some t => ({ r with kernel := k } : FileRun).setOpened t.groupSlot fd none
    | none => { r with kernel := k }
  | (.error _, k) => { r with kernel := k }

/-- After an operation that may close or replace descriptors: the descriptors
whose entry is the same are still open. -/
def switching (r : FileRun) (k : Kernel) : FileRun :=
  { r with
    kernel := k
    opened := fun s fd =>
      if (k.processes s).map (fun p => p.fds fd) = (r.kernel.processes s).map (fun p => p.fds fd) then r.opened s fd
      else none }

/-- The place of the file an operation removes. -/
def removedIdx (k : Kernel) : FileOp → Option Nat
  | .rm raw => rmIdx k raw
  | .unlinkat raw flags => unlinkIdx k raw flags
  | _ => none

/-- One operation; `none` where the kernel panics, and for an open without a
process to open for. -/
def step (r : FileRun) : FileOp → Option FileRun
  | .other op => (fdStep r.kernel op).map r.switching
  | .syscallOpen raw flags =>
    if r.kernel.currentProcess.isSome then some (r.opening (syscallOpen r.kernel raw flags)) else none
  | .touch raw => some (r.advance (touch r.kernel raw).2)
  | .rm raw => some (r.without (rmIdx r.kernel raw) (rm r.kernel raw).2)
  | .unlinkat raw flags => some (r.without (unlinkIdx r.kernel raw flags) (unlinkat r.kernel raw flags).2)
  | .read fd count typed =>
    some (((readFromFd r.kernel fd count typed).map fun (_, k) => r.advance k).getD r)
  | .write fd bytes => (writeToFd r.kernel fd bytes).map fun (_, k) => r.advance k
  | .pread64 fd count offset => (pread64 r.kernel fd count offset).map fun _ => r
  | .pwrite64 fd bytes offset => (pwrite64 r.kernel fd bytes offset).map fun (_, k) => r.advance k
  | .ftruncate fd len => (ftruncate r.kernel fd len).map fun (_, k) => r.advance k
  | .fstat _ => some r
  | .close fd => some (r.closing fd (syscallClose r.kernel fd))

def start (phys : Phys) (code : CodeAddrs) (kernelPml4 : Nat) (fs : Option RamFS) : FileRun where
  kernel := (Kernel.statics phys code kernelPml4).setFs fs
  ids := List.range ((Kernel.statics phys code kernelPml4).setFs fs).fileCount
  nextId := ((Kernel.statics phys code kernelPml4).setFs fs).fileCount
  opened := fun _ _ => none

/-- Every open descriptor leads to the place of the file it was opened on. -/
def Refers (r : FileRun) : Prop :=
  ∀ s fd id, r.opened s fd = some id → ∃ idx, r.kernel.fileIdxOf s fd = some idx ∧ r.ids[idx]? = some id

/-- A file is removed only from behind the files that are open. -/
def RemovesBehindOpen (r : FileRun) (op : FileOp) : Prop :=
  ∀ idx ∈ removedIdx r.kernel op, ∀ s, ∀ fd < maxFds, (r.opened s fd).isSome →
    ∀ i ∈ r.kernel.fileIdxOf s fd, i < idx

instance : DecidableRel RemovesBehindOpen := fun r op =>
  inferInstanceAs (Decidable (∀ idx ∈ removedIdx r.kernel op, ∀ s, ∀ fd < maxFds, (r.opened s fd).isSome →
    ∀ i ∈ r.kernel.fileIdxOf s fd, i < idx))

/-- The identities are those of the files there are. -/
structure Tracked (r : FileRun) : Prop where
  exact : RefsExact r.kernel
  length : r.ids.length = r.kernel.fileCount
  nodup : r.ids.Nodup
  fresh : ∀ id ∈ r.ids, id < r.nextId

namespace Tracked

variable {r : FileRun} {k : Kernel}

theorem advance (h : r.Tracked) (hg : Grows r.kernel k) : (r.advance k).Tracked := by
  have hcount := hg.count
  have hlen := h.length
  refine ⟨hg.exact, ?_, ?_, ?_⟩
  · simp only [FileRun.advance, List.length_append, List.length_map, List.length_range]
    omega
  · refine List.nodup_append'.mpr ⟨h.nodup, ?_, ?_⟩
    · exact List.Nodup.map (fun a b hab => by simpa using hab) List.nodup_range
    · intro id hid hid'
      obtain ⟨n, -, rfl⟩ := List.mem_map.mp hid'
      have := h.fresh _ hid
      omega
  · intro id hid
    simp only [FileRun.advance, List.mem_append, List.mem_map, List.mem_range] at hid ⊢
    rcases hid with hid | ⟨n, hn, rfl⟩
    · have := h.fresh id hid
      omega
    · omega

theorem withKernel (h : r.Tracked) (hex : RefsExact k) (hfs : k.fs = r.kernel.fs) {opened : Slot → Nat → Option Nat} :
    ({ r with kernel := k, opened } : FileRun).Tracked := by
  refine ⟨hex, ?_, h.nodup, h.fresh⟩
  rw [Kernel.fileCount, hfs]
  exact h.length

theorem setOpened {s : Slot} {fd : Nat} {id : Option Nat} (h : r.Tracked) : (r.setOpened s fd id).Tracked :=
  ⟨h.exact, h.length, h.nodup, h.fresh⟩

theorem without {idx : Nat} {fs : RamFS} (h : r.Tracked) (hfs : r.kernel.fs = some fs) (hlt : idx < fs.files.length) :
    (r.without (some idx) (r.kernel.setFs (some ⟨fs.files.eraseIdx idx⟩))).Tracked := by
  have hlen := h.length
  simp only [Kernel.fileCount, hfs] at hlen
  refine ⟨SameEntries.setFs.exact h.exact, ?_, ?_, fun id hid => h.fresh id (List.mem_of_mem_eraseIdx hid)⟩
  · simp [FileRun.without, Kernel.fileCount, Kernel.setFs, List.length_eraseIdx, hlen, hlt]
  · exact h.nodup.sublist (List.eraseIdx_sublist ..)

end Tracked

namespace Refers

variable {r : FileRun} {k : Kernel}

theorem advance (h : r.Refers) (hg : KeepsFiles r.kernel k) : (r.advance k).Refers := by
  intro s fd id hid
  obtain ⟨idx, hidx, hget⟩ := h s fd id hid
  refine ⟨idx, hg s fd idx hidx, ?_⟩
  obtain ⟨hlt, -⟩ := List.getElem?_eq_some_iff.mp hget
  simp only [FileRun.advance]
  rw [List.getElem?_append_left hlt, hget]

theorem setOpened {s : Slot} {fd : Nat} {id : Option Nat} (h : r.Refers)
    (hid : ∀ x, id = some x → ∃ idx, r.kernel.fileIdxOf s fd = some idx ∧ r.ids[idx]? = some x) :
    (r.setOpened s fd id).Refers := by
  intro s' fd' x hx
  simp only [FileRun.setOpened] at hx
  by_cases hs : s' = s
  · subst hs
    rw [Function.update_self] at hx
    by_cases hfd : fd' = fd
    · subst hfd
      rw [Function.update_self] at hx
      exact hid x hx
    · rw [Function.update_of_ne hfd] at hx
      exact h s' fd' x hx
  · rw [Function.update_of_ne hs] at hx
    exact h s' fd' x hx

theorem switching (h : r.Refers) (hc : Closes r.kernel k) : (r.switching k).Refers := by
  intro s fd id hid
  simp only [FileRun.switching] at hid
  split at hid
  next he =>
    obtain ⟨idx, hidx, hget⟩ := h s fd id hid
    exact ⟨idx, hc.keeps hidx he, hget⟩
  · cases hid

theorem without_iff {idx : Nat} {fs : RamFS} (h : r.Refers) (ht : r.Tracked) :
    (r.without (some idx) (r.kernel.setFs (some fs))).Refers ↔
      ∀ s, ∀ fd < maxFds, (r.opened s fd).isSome → ∀ i ∈ r.kernel.fileIdxOf s fd, i < idx := by
  have hfile : ∀ s fd, (r.kernel.setFs (some fs)).fileIdxOf s fd = r.kernel.fileIdxOf s fd := fun _ _ => rfl
  constructor
  · intro hafter s fd _ ho i hi
    obtain ⟨id, hid⟩ := Option.isSome_iff_exists.mp ho
    obtain ⟨i1, hi1, hget⟩ := h s fd id hid
    obtain ⟨i2, hi2, hget'⟩ := hafter s fd id hid
    obtain rfl := Option.some.inj (hi1.symm.trans hi)
    obtain rfl := Option.some.inj ((hfile s fd ▸ hi2).symm.trans hi1)
    by_contra hle
    -- the place now holds what was one further on, a different file
    simp only [FileRun.without, Option.elim_some, List.getElem?_eraseIdx, if_neg hle] at hget'
    obtain ⟨hlt, -⟩ := List.getElem?_eq_some_iff.mp hget
    have := (List.getElem?_inj hlt ht.nodup).mp (hget.trans hget'.symm)
    omega
  · intro hbefore s fd id hid
    obtain ⟨i, hi, hget⟩ := h s fd id hid
    obtain ⟨-, -, -, hlt, -⟩ := Kernel.fileIdxOf_eq_some.mp hi
    have hi' := hbefore s fd hlt (Option.isSome_iff_exists.mpr ⟨id, hid⟩) i hi
    refine ⟨i, hi, ?_⟩
    simp only [FileRun.without, Option.elim_some, List.getElem?_eraseIdx, if_pos hi']
    exact hget

end Refers

/-! ### Steps -/

variable {r r' : FileRun}

/-- What an operation that removes no file does: the ghosts follow it, and no
descriptor is redirected. -/
structure Follows (r r' : FileRun) : Prop where
  tracked : r'.Tracked
  refers : r.Refers → r'.Refers

theorem Follows.refl (ht : r.Tracked) : Follows r r := ⟨ht, id⟩

theorem Follows.advance {k : Kernel} (ht : r.Tracked) (hg : Grows r.kernel k) : Follows r (r.advance k) :=
  ⟨ht.advance hg, fun hr => hr.advance hg.keeps⟩

theorem Follows.opening {res : Except SysError Nat × Kernel} (ht : r.Tracked) (hg : Grows r.kernel res.2) :
    Follows r (r.opening res) := by
  obtain ⟨res, k⟩ := res
  cases res with
  | error e => exact .advance ht hg
  | ok fd =>
    simp only [FileRun.opening]
    split
    next t _ =>
      refine ⟨(ht.advance hg).setOpened, fun hr => (hr.advance hg.keeps).setOpened fun x hx => ?_⟩
      obtain ⟨idx, hidx, hget⟩ := Option.bind_eq_some_iff.mp hx
      exact ⟨idx, hidx, hget⟩
    · exact .advance ht hg

theorem Follows.closing {fd : Nat} (ht : r.Tracked) : Follows r (r.closing fd (syscallClose r.kernel fd)) := by
  unfold syscallClose
  cases hc : closeFd r.kernel fd with
  | none => exact .refl ht
  | some k =>
    have hclose := Closes.closeFd ht.exact hc
    have htrack : ({ r with kernel := k } : FileRun).Tracked := ht.withKernel (ht.exact.closeFd hc) hclose.fs
    obtain ⟨t, p, hthread, hp, hlt, -, rfl⟩ := closeFd_cases hc
    have hsame := SameProcesses.release (k := r.kernel.setFd t.groupSlot fd .empty 0) (p.fds fd)
    have hthread' := hsame.currentThread.trans (Kernel.setFd_currentThread.trans hthread)
    simp only [FileRun.closing, hthread']
    refine ⟨htrack.setOpened, fun hr s fd' id hid => ?_⟩
    simp only [FileRun.setOpened] at hid
    have hne : (s ≠ t.groupSlot ∨ fd' ≠ fd) ∧ r.opened s fd' = some id := by
      by_cases hs : s = t.groupSlot
      · subst hs
        by_cases hfd : fd' = fd
        · subst hfd
          simp at hid
        · exact ⟨.inr hfd, by simpa [hfd] using hid⟩
      · exact ⟨.inl hs, by simpa [hs] using hid⟩
    obtain ⟨idx, hidx, hget⟩ := hr s fd' id hne.2
    refine ⟨idx, ?_, hget⟩
    have hentry : ∀ {g : Slot} {k : Kernel}, (s ≠ g ∨ fd' ≠ fd) →
        ((k.setFd g fd .empty 0).processes s).map (fun p => p.fds fd') = (k.processes s).map fun p => p.fds fd' := by
      intro g k hne
      unfold Kernel.setFd
      split
      next q hq =>
        by_cases hs : s = g
        · subst hs
          have hfd : fd' ≠ fd := by simpa using hne
          simp [hq, hfd]
        · simp [hs]
      · rfl
    exact hclose.keeps hidx (by rw [hsame.processes, hentry hne.1])

variable {op : FileOp}

theorem Follows.step (ht : r.Tracked) (hs : r.step op = some r') (hno : removedIdx r.kernel op = none) :
    Follows r r' := by
  cases op with
  | other op =>
    obtain ⟨k, hk, rfl⟩ := Option.map_eq_some_iff.mp hs
    have hclose := Closes.step ht.exact hk
    exact ⟨ht.withKernel (ht.exact.step hk) hclose.fs, fun hr => hr.switching hclose⟩
  | syscallOpen raw flags =>
    simp only [FileRun.step] at hs
    split at hs
    next hcur => cases hs; exact .opening ht (.syscallOpen ht.exact hcur)
    · cases hs
  | touch raw =>
    cases hs
    exact .advance ht (.touch ht.exact)
  | rm raw =>
    cases hs
    rcases rm_cases r.kernel raw with ⟨hi, hk⟩ | ⟨idx, fs, hi, -⟩
    · rw [hi, hk]
      exact .refl ht
    · simp [removedIdx, hi] at hno
  | unlinkat raw flags =>
    cases hs
    rcases unlinkat_cases r.kernel raw flags with ⟨hi, hk⟩ | ⟨idx, fs, hi, -⟩
    · rw [hi, hk]
      exact .refl ht
    · simp [removedIdx, hi] at hno
  | read fd count typed =>
    cases hs
    cases hread : readFromFd r.kernel fd count typed with
    | none => exact .refl ht
    | some res => exact .advance ht (.readFromFd ht.exact hread)
  | write fd bytes =>
    obtain ⟨⟨n, k⟩, hk, rfl⟩ := Option.map_eq_some_iff.mp hs
    exact .advance ht (.writeToFd ht.exact hk)
  | pread64 fd count offset =>
    obtain ⟨_, _, rfl⟩ := Option.map_eq_some_iff.mp hs
    exact .refl ht
  | pwrite64 fd bytes offset =>
    obtain ⟨⟨n, k⟩, hk, rfl⟩ := Option.map_eq_some_iff.mp hs
    exact .advance ht (.pwrite64 ht.exact hk)
  | ftruncate fd len =>
    obtain ⟨⟨n, k⟩, hk, rfl⟩ := Option.map_eq_some_iff.mp hs
    exact .advance ht (.ftruncate ht.exact hk)
  | fstat fd =>
    cases hs
    exact .refl ht
  | close fd =>
    cases hs
    exact .closing ht

theorem step_removes {idx : Nat} (hidx : removedIdx r.kernel op = some idx) :
    ∃ fs, r.kernel.fs = some fs ∧ idx < fs.files.length ∧
      r.step op = some (r.without (some idx) (r.kernel.setFs (some ⟨fs.files.eraseIdx idx⟩))) := by
  cases op with
  | rm raw =>
    rcases rm_cases r.kernel raw with ⟨hi, -⟩ | ⟨idx', fs, hi, hfs, hlt, hk⟩
    · simp [removedIdx, hi] at hidx
    · obtain rfl : idx' = idx := by simpa [removedIdx, hi] using hidx
      exact ⟨fs, hfs, hlt, by rw [FileRun.step, hi, hk]⟩
  | unlinkat raw flags =>
    rcases unlinkat_cases r.kernel raw flags with ⟨hi, -⟩ | ⟨idx', fs, hi, hfs, hlt, hk⟩
    · simp [removedIdx, hi] at hidx
    · obtain rfl : idx' = idx := by simpa [removedIdx, hi] using hidx
      exact ⟨fs, hfs, hlt, by rw [FileRun.step, hi, hk]⟩
  | _ => cases hidx

theorem Tracked.step (ht : r.Tracked) (hs : r.step op = some r') : r'.Tracked := by
  cases hidx : removedIdx r.kernel op with
  | none => exact (Follows.step ht hs hidx).tracked
  | some idx =>
    obtain ⟨fs, hfs, hlt, hstep⟩ := step_removes hidx
    obtain rfl := Option.some.inj (hstep.symm.trans hs)
    exact ht.without hfs hlt

theorem Refers.step_iff (ht : r.Tracked) (hr : r.Refers) (hs : r.step op = some r') :
    r'.Refers ↔ r.RemovesBehindOpen op := by
  cases hidx : removedIdx r.kernel op with
  | none =>
    refine iff_of_true ((Follows.step ht hs hidx).refers hr) fun idx hi => ?_
    rw [hidx] at hi
    cases hi
  | some idx =>
    obtain ⟨fs, -, -, hstep⟩ := step_removes hidx
    obtain rfl := Option.some.inj (hstep.symm.trans hs)
    rw [hr.without_iff ht, RemovesBehindOpen, hidx]
    simp

theorem Tracked.start {phys : Phys} {code : CodeAddrs} {kernelPml4 : Nat} {fs : Option RamFS} :
    (start phys code kernelPml4 fs).Tracked :=
  ⟨SameEntries.setFs.exact .statics, List.length_range, List.nodup_range, fun _ hid => List.mem_range.mp hid⟩

/-! ### What the calls act on -/

theorem acts_on_fileIdxOf {k : Kernel} {t : Thread} {fd idx : Nat} (hex : RefsExact k) (ht : k.currentThread = some t)
    (h : k.fileIdxOf t.groupSlot fd = some idx) :
    (∃ i, fdOpenIdx k fd = some i ∧ (k.openFiles i).fileIdx = idx) ∧
      descriptorInfo k fd = some (.file idx (fsFileSize k.fs idx)) := by
  obtain ⟨p, i, hp, hlt, hfd, rfl⟩ := Kernel.fileIdxOf_eq_some.mp h
  have htarget : getFdTarget k fd = some (.openFile i) := by
    simp [getFdTarget, Kernel.currentProcess, ht, hp, hfd, Nat.not_le.mpr hlt]
  have hlive : FdOpen.live k i = true := Exact.live_open hex (hfd ▸ Kernel.mem_held hp hlt)
  exact ⟨⟨i, by simp [fdOpenIdx, htarget, hlive], rfl⟩, by
    simp [descriptorInfo, htarget, FdOpen.descriptorInfo, hlive]⟩

end FileRun

open FileRun

/-- **A descriptor keeps its file exactly while no file at or before its place
is removed.** From boot with any files, along any operations of any processes:
every descriptor obtained by opening a file refers to that same file in every
state of the run, exactly when each removal of the run takes a file from behind
the place of every open one. And in a state where a descriptor refers to its
file, that file is the one the calls on the descriptor act on. -/
theorem file_identity (phys : Phys) (code : CodeAddrs) (kernelPml4 : Nat) (fs : Option RamFS) (ops : List FileOp) :
    (Lts.Always FileRun.step Refers (start phys code kernelPml4 fs) ops ↔
      Lts.Meets FileRun.step RemovesBehindOpen (start phys code kernelPml4 fs) ops) ∧
    ∀ r t fd id, Lts.exec FileRun.step (start phys code kernelPml4 fs) ops = some r → r.Refers →
      r.kernel.currentThread = some t → r.opened t.groupSlot fd = some id →
      ∃ idx, r.ids[idx]? = some id ∧
        (∃ i, fdOpenIdx r.kernel fd = some i ∧ (r.kernel.openFiles i).fileIdx = idx) ∧
        descriptorInfo r.kernel fd = some (.file idx (fsFileSize r.kernel.fs idx)) := by
  constructor
  · refine Lts.always_iff_meets (fun _ _ _ ht hs => ht.step hs) (fun _ _ _ ht hr hs => hr.step_iff ht hs)
      (fun r op hnone idx hidx => ?_) Tracked.start (fun _ _ _ h => by cases h)
    obtain ⟨fs, -, -, hstep⟩ := step_removes hidx
    simp [hstep] at hnone
  · intro r t fd id hrun hr hthread hid
    have htracked : r.Tracked := Lts.exec_invariant Tracked (fun _ _ _ ht hs => ht.step hs) .start hrun
    obtain ⟨idx, hidx, hget⟩ := hr t.groupSlot fd id hid
    exact ⟨idx, hget, acts_on_fileIdxOf htracked.exact hthread hidx⟩

/-- Of two files, the first is opened and the second removed. -/
def removeBehindOps : List FileOp :=
  [.other (.spawnNamed 0 []), .touch (pathBytes ['a']), .touch (pathBytes ['b']),
    .syscallOpen (pathBytes ['a']) 0, .rm (pathBytes ['b'])]

theorem file_identity_removeBehind :
    Lts.Meets FileRun.step RemovesBehindOpen (start ⟨.new, fun _ => 0⟩ ⟨0, 0⟩ 0 (some .new)) removeBehindOps ∧
      Lts.Always FileRun.step Refers (start ⟨.new, fun _ => 0⟩ ⟨0, 0⟩ 0 (some .new)) removeBehindOps := by
  have hmeets : Lts.Meets FileRun.step RemovesBehindOpen (start ⟨.new, fun _ => 0⟩ ⟨0, 0⟩ 0 (some .new))
    removeBehindOps := by decide
  exact ⟨hmeets, (file_identity _ _ _ _ _).1.mpr hmeets⟩

/-- Of three files, the third holds one byte; the second is opened for reading
and the first removed. -/
def removeBeforeOps : List FileOp :=
  [.other (.spawnNamed 0 []), .touch (pathBytes ['a']), .touch (pathBytes ['b']), .touch (pathBytes ['c']),
    .syscallOpen (pathBytes ['c']) (oWronly.setWidth 64), .write 3 [0x63], .close 3,
    .syscallOpen (pathBytes ['b']) (oRdonly.setWidth 64), .rm (pathBytes ['a'])]

/-- Descriptor 3 was opened on the second file and now reads the third. -/
theorem removal_redirects_descriptor :
    ∃ r, Lts.exec FileRun.step (start ⟨.new, fun _ => 0⟩ ⟨0, 0⟩ 0 (some .new)) removeBeforeOps = some r ∧
      r.opened 0 3 = some 1 ∧ r.ids = [1, 2] ∧ r.kernel.fileIdxOf 0 3 = some 1 ∧ ¬ r.Refers ∧
      (readFile r.kernel 3 1).map Prod.fst = some [0x63] := by
  have hrun : (Lts.exec FileRun.step (start ⟨.new, fun _ => 0⟩ ⟨0, 0⟩ 0 (some .new)) removeBeforeOps).map
      (fun r => (r.opened 0 3, r.ids, r.kernel.fileIdxOf 0 3, (readFile r.kernel 3 1).map Prod.fst)) =
      some (some 1, [1, 2], some 1, some [0x63]) := by rfl
  obtain ⟨r, hr, hobs⟩ := Option.map_eq_some_iff.mp hrun
  simp only [Prod.mk.injEq] at hobs
  obtain ⟨hopen, hids, hidx, hread⟩ := hobs
  refine ⟨r, hr, hopen, hids, hidx, fun hrefers => ?_, hread⟩
  obtain ⟨idx, hi, hget⟩ := hrefers 0 3 1 hopen
  obtain rfl := Option.some.inj (hidx.symm.trans hi)
  simp [hids] at hget

end CoreOS
