/-
Which file a descriptor leads to, and what the file system calls leave of it:
apart from `close` and the removal of a file, a call keeps the file index
behind every open descriptor and keeps the files in their places, new ones
going to the end (`Grows`).
-/
import CoreOS.FdRefs
import CoreOS.FileIo

namespace CoreOS

open RefCount

namespace Kernel

/-- The number of files. -/
def fileCount (k : Kernel) : Nat :=
  match k.fs with
  | some fs => fs.files.length
  | none => 0

/-- The file index behind descriptor `fd` of the process in slot `s`. -/
def fileIdxOf (k : Kernel) (s : Slot) (fd : Nat) : Option Nat :=
  match k.processes s with
  | none => none
  | some p =>
    if maxFds ≤ fd then none
    else
      match p.fds fd with
      | .openFile i => some (k.openFiles i).fileIdx
      | _ => none

theorem fileIdxOf_eq_some {k : Kernel} {s : Slot} {fd idx : Nat} :
    k.fileIdxOf s fd = some idx ↔ ∃ p i, k.processes s = some p ∧ fd < maxFds ∧ p.fds fd = .openFile i ∧
      (k.openFiles i).fileIdx = idx := by
  constructor
  · intro h
    unfold fileIdxOf at h
    split at h
    · cases h
    next p hp =>
      split at h
      · cases h
      next hlt =>
        split at h
        next i hi =>
          cases h
          exact ⟨p, i, hp, by omega, hi, rfl⟩
        · cases h
  · intro h
    obtain ⟨p, i, hp, hlt, hi, rfl⟩ := h
    simp [fileIdxOf, hp, hi, Nat.not_le.mpr hlt]

end Kernel

/-- Every descriptor that leads to a file index still leads to it. -/
def KeepsFiles (k k' : Kernel) : Prop :=
  ∀ s fd idx, k.fileIdxOf s fd = some idx → k'.fileIdxOf s fd = some idx

/-- `KeepsFiles`, with the counters exact and no file gone. -/
structure Grows (k k' : Kernel) : Prop where
  exact : RefsExact k'
  keeps : KeepsFiles k k'
  count : k.fileCount ≤ k'.fileCount

namespace Grows

variable {k k' k'' : Kernel}

theorem refl (h : RefsExact k) : Grows k k := ⟨h, fun _ _ _ => id, Nat.le_refl _⟩

theorem trans (h : Grows k k') (h' : Grows k' k'') : Grows k k'' :=
  ⟨h'.exact, fun s fd idx hi => h'.keeps s fd idx (h.keeps s fd idx hi), Nat.le_trans h.count h'.count⟩

end Grows

/-! ## The tables -/

/-- The entries of the two tables count the same references, and each
description is of the same file. -/
structure SameEntries (k k' : Kernel) : Prop where
  processes : k'.processes = k.processes
  openFiles : ∀ i, (k'.openFiles i).refs = (k.openFiles i).refs ∧ (k'.openFiles i).inUse = (k.openFiles i).inUse ∧
    (k'.openFiles i).fileIdx = (k.openFiles i).fileIdx
  pipes : ∀ j, (k'.pipes j).readRefs = (k.pipes j).readRefs ∧ (k'.pipes j).writeRefs = (k.pipes j).writeRefs ∧
    (k'.pipes j).inUse = (k.pipes j).inUse

namespace SameEntries

variable {k k' : Kernel}

theorem setFs {fs : Option RamFS} : SameEntries k (k.setFs fs) :=
  ⟨rfl, fun _ => ⟨rfl, rfl, rfl⟩, fun _ => ⟨rfl, rfl, rfl⟩⟩

theorem setOffset {i n : Nat} : SameEntries k (k.setOpenFile i { k.openFiles i with offset := n }) := by
  refine ⟨rfl, fun x => ?_, fun _ => ⟨rfl, rfl, rfl⟩⟩
  by_cases hx : x = i
  · subst hx
    simp
  · simp [hx]

theorem setPipe {j : Nat} {p : Pipe} (hp : Pipe.SameEnds (k.pipes j) p) : SameEntries k (k.setPipe j p) := by
  refine ⟨rfl, fun _ => ⟨rfl, rfl, rfl⟩, fun x => ?_⟩
  by_cases hx : x = j
  · subst hx
    simp [hp.readRefs, hp.writeRefs, hp.inUse]
  · simp [hx]

theorem exact (h : SameEntries k k') (hex : RefsExact k) : RefsExact k' := by
  have hheld : k'.held = k.held := by rw [Kernel.held, h.processes, Kernel.held]
  rw [RefsExact, hheld]
  refine ⟨fun i => ?_, fun j => ?_, fun j => ?_, fun i => ?_, fun j => ?_⟩
  · exact (h.openFiles i).1.trans (hex.openRefs i)
  · exact (h.pipes j).1.trans (hex.readRefs j)
  · exact (h.pipes j).2.1.trans (hex.writeRefs j)
  · rw [OpenOK, (h.openFiles i).1, (h.openFiles i).2.1]
    exact hex.openOK i
  · rw [PipeOK, (h.pipes j).1, (h.pipes j).2.1, (h.pipes j).2.2]
    exact hex.pipeOK j

theorem keeps (h : SameEntries k k') : KeepsFiles k k' := by
  intro s fd idx hi
  obtain ⟨p, i, hp, hlt, hfd, rfl⟩ := Kernel.fileIdxOf_eq_some.mp hi
  exact Kernel.fileIdxOf_eq_some.mpr ⟨p, i, h.processes ▸ hp, hlt, hfd, (h.openFiles i).2.2⟩

theorem grows (h : SameEntries k k') (hex : RefsExact k) (hc : k.fileCount ≤ k'.fileCount) : Grows k k' :=
  ⟨h.exact hex, h.keeps, hc⟩

end SameEntries

variable {k : Kernel} {t : FdTarget} {i : Nat}

theorem release_fileIdx {M : Multiset FdTarget} (h : Exact k (t ::ₘ M)) (hi : .openFile i ∈ M) :
    ((releaseFdTarget k t).openFiles i).fileIdx = (k.openFiles i).fileIdx := by
  cases t with
  | empty | stdio _ | tty | null | zero => rfl
  | openFile i' =>
    have hl := h.live_open (Multiset.mem_cons_self ..)
    simp only [releaseFdTarget, FdOpen.release, hl, if_true]
    by_cases hx : i = i'
    · subst hx
      have hrefs : (k.openFiles i).refs = _ := h.openRefs i
      have hpos := Multiset.count_pos.mpr hi
      rw [Multiset.count_cons_self] at hrefs
      have h1 : 1 < (k.openFiles i).refs := by omega
      simp [h1]
    · split <;> simp [hx]
  | pipeRead j =>
    simp only [releaseFdTarget, FdPipe.releaseRead]
    split <;> rfl
  | pipeWrite j =>
    simp only [releaseFdTarget, FdPipe.releaseWrite]
    split <;> rfl

theorem setRefs_fileIdx {i' refs : Nat} :
    ((k.setOpenFile i' { k.openFiles i' with refs }).openFiles i).fileIdx = (k.openFiles i).fileIdx := by
  by_cases hx : i = i'
  · subst hx
    simp
  · simp [hx]

theorem forkRetain_fileIdx :
    ((forkRetain k t).openFiles i).fileIdx = (k.openFiles i).fileIdx := by
  rcases forkRetain_cases k t with h | ⟨i', refs, h⟩ | ⟨j, p, h⟩
  · rw [h]
  · rw [h, setRefs_fileIdx]
  · rw [h, Kernel.setPipe_openFiles]

theorem retain_fileIdx {k' : Kernel} (h : retainFdTarget k t = some k') :
    (k'.openFiles i).fileIdx = (k.openFiles i).fileIdx :=
  Exact.forkRetain_eq h ▸ forkRetain_fileIdx

@[simp] theorem Kernel.setFd_fs {g : Slot} {fd : Nat} {w : BitVec 32} :
    (k.setFd g fd t w).fs = k.fs := by
  unfold setFd
  split <;> rfl

theorem release_fs : (releaseFdTarget k t).fs = k.fs := by
  rcases releaseFdTarget_cases k t with h | ⟨i, f, -, h⟩ | ⟨j, p, h⟩ <;> rw [h] <;> rfl

theorem forkRetain_fs : (forkRetain k t).fs = k.fs := by
  rcases forkRetain_cases k t with h | ⟨i, refs, h⟩ | ⟨j, p, h⟩ <;> rw [h] <;> rfl

theorem retain_fs {k' : Kernel} (h : retainFdTarget k t = some k') : k'.fs = k.fs :=
  Exact.forkRetain_eq h ▸ forkRetain_fs

theorem allocPipe_files : (allocPipe k).2.openFiles = k.openFiles ∧ (allocPipe k).2.fs = k.fs := by
  have hclear : ∀ {k : Kernel} {j : Nat}, (FdPipe.clear k j).openFiles = k.openFiles ∧ (FdPipe.clear k j).fs = k.fs := by
    intro k j
    unfold FdPipe.clear
    split <;> exact ⟨rfl, rfl⟩
  unfold allocPipe
  split
  · exact ⟨rfl, rfl⟩
  next j k1 ha =>
    obtain ⟨-, -, rfl⟩ := FdPipe.alloc_cases ha
    split
    · exact hclear
    next r k2 hr =>
      obtain ⟨t, p, ht, hp, hlt, -, rfl⟩ := allocSpecificFd_cases hr
      split
      next q k3 hq =>
        obtain ⟨t', p', -, hp', -, -, rfl⟩ := allocSpecificFd_cases hq
        exact ⟨by simp, by simp⟩
      · have hproc := Kernel.setFd_processes r (.pipeRead j) 0 hp
        have hthread : ((k.setPipe j .new).setFd t.groupSlot r (.pipeRead j) 0).currentThread = some t := by simpa using ht
        have hclose := closeFd_eq hthread hproc hlt (by simp)
        rw [hclose, Option.getD_some]
        refine ⟨hclear.1.trans ?_, hclear.2.trans ?_⟩
        · simp only [Function.update_self, releaseFdTarget, FdPipe.releaseRead]
          split <;> simp
        · rw [release_fs]
          simp

/-! ## Opening descriptors -/

/-- Descriptors opened or not, no descriptor open before is any different, nor
is a description it refers to or a file. -/
structure Opens (k k' : Kernel) : Prop where
  entries : ∀ s p fd, k.processes s = some p → p.fds fd ≠ .empty →
    ∃ p', k'.processes s = some p' ∧ p'.fds fd = p.fds fd
  fileIdx : ∀ i, .openFile i ∈ k.held → (k'.openFiles i).fileIdx = (k.openFiles i).fileIdx
  fs : k'.fs = k.fs

namespace Opens

variable {k k' k'' : Kernel}

theorem refl (k : Kernel) : Opens k k := ⟨fun _ p _ hp _ => ⟨p, hp, rfl⟩, fun _ _ => rfl, rfl⟩

theorem held {i : Nat} (h : Opens k k') (hi : .openFile i ∈ k.held) : .openFile i ∈ k'.held := by
  obtain ⟨s, p, fd, hp, hlt, hfd⟩ := Kernel.mem_held_iff.mp hi
  obtain ⟨p', hp', he⟩ := h.entries s p fd hp (by rw [hfd]; nofun)
  exact Kernel.mem_held_iff.mpr ⟨s, p', fd, hp', hlt, he.trans hfd⟩

theorem trans (h : Opens k k') (h' : Opens k' k'') : Opens k k'' := by
  refine ⟨fun s p fd hp hne => ?_, fun i hi => (h'.fileIdx i (h.held hi)).trans (h.fileIdx i hi), h'.fs.trans h.fs⟩
  obtain ⟨p', hp', he⟩ := h.entries s p fd hp hne
  obtain ⟨p'', hp'', he'⟩ := h'.entries s p' fd hp' (he ▸ hne)
  exact ⟨p'', hp'', he'.trans he⟩

theorem setFd {g : Slot} {p : Process} {fd : Nat} {t : FdTarget} {w : BitVec 32} (hp : k.processes g = some p)
    (he : p.fds fd = .empty) : Opens k (k.setFd g fd t w) := by
  refine ⟨fun s q fd' hq hne => ?_, fun i _ => by rw [Kernel.setFd_openFiles], Kernel.setFd_fs⟩
  by_cases hs : s = g
  · subst hs
    obtain rfl := Option.some.inj (hp.symm.trans hq)
    have hfd : fd' ≠ fd := fun h => hne (h ▸ he)
    exact ⟨_, Kernel.setFd_processes fd t w hp, Function.update_of_ne hfd ..⟩
  · exact ⟨q, by simp [Kernel.setFd, hp, hs, hq], rfl⟩

theorem keeps (h : Opens k k') : KeepsFiles k k' := by
  intro s fd idx hi
  obtain ⟨p, i, hp, hlt, hfd, rfl⟩ := Kernel.fileIdxOf_eq_some.mp hi
  obtain ⟨p', hp', he⟩ := h.entries s p fd hp (by rw [hfd]; nofun)
  exact Kernel.fileIdxOf_eq_some.mpr
    ⟨p', i, hp', hlt, he.trans hfd, h.fileIdx i (hfd ▸ Kernel.mem_held hp hlt)⟩

theorem grows (h : Opens k k') (hex : RefsExact k') : Grows k k' :=
  ⟨hex, h.keeps, by rw [Kernel.fileCount, Kernel.fileCount, h.fs]⟩

theorem of_same (h : SameProcesses k k')
    (ho : ∀ i, .openFile i ∈ k.held → (k'.openFiles i).fileIdx = (k.openFiles i).fileIdx) (hfs : k'.fs = k.fs) :
    Opens k k' := ⟨fun _ p _ hp _ => ⟨p, h.processes ▸ hp, rfl⟩, ho, hfs⟩

theorem openFile {fileIdx : Nat} {flags : BitVec 32} (h : RefsExact k) :
    Opens k (CoreOS.openFile k fileIdx flags).2 := by
  unfold CoreOS.openFile
  split
  · exact .refl k
  next i k1 ha =>
    obtain ⟨rfl, hex, hnot⟩ := Exact.alloc_open h ha
    have hk1 : Opens k (k.setOpenFile i (.new fileIdx flags)) := by
      refine .of_same .setOpenFile (fun x hx => ?_) rfl
      have hne : x ≠ i := fun he => hnot (he ▸ hx)
      simp [hne]
    split
    next t p ht hcp =>
      have hp : (k.setOpenFile i (.new fileIdx flags)).processes t.groupSlot = some p := by
        simpa [Kernel.currentProcess, ht] using hcp
      split
      next fd hfd => exact hk1.trans (setFd hp (firstEmptyFd_spec hfd).2.2)
      · have hrel : Opens _ (releaseFdTarget (k.setOpenFile i (.new fileIdx flags)) (.openFile i)) :=
          .of_same (.release _) (fun x hx => release_fileIdx hex hx) release_fs
        exact hk1.trans hrel
    · exact hk1

theorem openCharDevice {target : FdTarget} {fd : Nat} (hs : CoreOS.openCharDevice k target = some (fd, k')) :
    Opens k k' := by
  have halloc : allocSpecificFd k target 0 = some (fd, k') := by
    unfold CoreOS.openCharDevice at hs
    split at hs
    · exact hs
    · exact hs
    · exact hs
    · cases hs
  obtain ⟨t, p, -, hp, -, he, rfl⟩ := allocSpecificFd_cases halloc
  exact setFd hp he

theorem dupMin {oldFd minFd : Nat} {cloexec : Bool} : Opens k (CoreOS.dupMin k oldFd minFd cloexec).2 := by
  unfold CoreOS.dupMin dupFd
  split
  next t p ht hcp =>
    have hp : k.processes t.groupSlot = some p := by simpa [Kernel.currentProcess, ht] using hcp
    split
    · exact .refl k
    split
    · exact .refl k
    split
    · exact .refl k
    · exact .refl k
    next fd hdest =>
      have he : p.fds fd = .empty := by
        simp only [dupDest] at hdest
        split at hdest
        next fd' hfd =>
          cases hdest
          exact (firstEmptyFd_spec hfd).2.2
        · cases hdest
      rw [if_pos he]
      dsimp only
      split
      · exact .refl k
      next k1 hk1 =>
        have hsame := SameProcesses.retain hk1
        have hopens : Opens k k1 := .of_same hsame (fun _ _ => retain_fileIdx hk1) (retain_fs hk1)
        exact hopens.trans (setFd (hsame.processes ▸ hp) he)
  · exact .refl k

end Opens

/-! ## The calls -/

variable {fs : RamFS}

theorem setData_length {idx : Nat} {data : List ByteMem.Byte} :
    (fs.setData idx data).files.length = fs.files.length := by
  simp [RamFS.setData]

theorem fsWriteAt_count {fileIdx offset : Nat} {bytes : List ByteMem.Byte}
    (h : fsWriteAt k.fs fileIdx offset bytes = some (some fs)) : (k.setFs (some fs)).fileCount = k.fileCount := by
  unfold fsWriteAt at h
  split at h
  next fs' data hfs _ =>
    dsimp only at h
    split at h
    · cases h
    · cases h
      simp only [Kernel.fileCount, Kernel.setFs, hfs, setData_length]
  · cases h

theorem fsResize_count {fileIdx len : Nat} (h : fsResize k.fs fileIdx len = some (some fs)) :
    (k.setFs (some fs)).fileCount = k.fileCount := by
  unfold fsResize at h
  split at h
  next fs' data hfs _ =>
    split at h
    · cases h
    · cases h
      simp only [Kernel.fileCount, Kernel.setFs, hfs, setData_length]
  · cases h

theorem create_count {name : List Char} (h : Vfs.create k.fs name = some fs) :
    (k.setFs (some fs)).fileCount = k.fileCount + 1 := by
  obtain ⟨fs', hfs, h⟩ := Option.bind_eq_some_iff.mp h
  unfold RamFS.create at h
  split at h
  · cases h
  · split at h
    · cases h
    · cases h
      simp [Kernel.fileCount, Kernel.setFs, hfs]

namespace Grows

variable {k k' : Kernel}

theorem create {name : List Char} {fs : RamFS} (hex : RefsExact k) (h : Vfs.create k.fs name = some fs) :
    Grows k (k.setFs (some fs)) :=
  SameEntries.setFs.grows hex (by rw [create_count h]; omega)

theorem touch {raw : List ByteMem.Byte} (hex : RefsExact k) : Grows k (CoreOS.touch k raw).2 := by
  rcases touch_cases k raw with h | ⟨path, fs, hc, h⟩
  · rw [h]
    exact .refl hex
  · rw [h]
    exact .create hex hc

theorem prepared {fs : Option RamFS} (hex : RefsExact k) (h : FsPrepared k.fs fs) : Grows k (k.setFs fs) := by
  refine SameEntries.setFs.grows hex ?_
  induction h with
  | same => exact Nat.le_refl _
  | @created fs1 _ _ _ hc ih =>
    have : _ = (k.setFs fs1).fileCount + 1 := create_count (k := k.setFs fs1) hc
    exact Nat.le_trans ih (Nat.le_trans (Nat.le_succ _) this.ge)
  | @truncated fs1 _ _ _ hr ih =>
    have : _ = (k.setFs fs1).fileCount := fsResize_count (k := k.setFs fs1) hr
    exact Nat.le_trans ih this.ge

theorem syscallOpen {raw : List ByteMem.Byte} {flags : BitVec 64} (hex : RefsExact k)
    (hcur : k.currentProcess.isSome) : Grows k (CoreOS.syscallOpen k raw flags).2 := by
  rcases syscallOpen_cases k raw flags with ⟨fs, hfs, h | ⟨idx, h⟩⟩ | ⟨target, fd, k', ho, h⟩ | ⟨fd, h⟩
  · rw [h]
    exact prepared hex hfs
  · rw [h]
    have hgrow := prepared hex hfs
    obtain ⟨p, hp⟩ := Option.isSome_iff_exists.mp hcur
    obtain ⟨t, ht, hp⟩ := Option.bind_eq_some_iff.mp hp
    exact hgrow.trans ((Opens.openFile hgrow.exact).grows (hgrow.exact.openFile ht hp))
  · rw [h]
    exact (Opens.openCharDevice ho).grows (hex.openCharDevice ho)
  · rw [h]
    exact Opens.dupMin.grows hex.dupFd

variable {fd : Nat}

theorem readFromFd {count : Nat} {typed : List ByteMem.Byte} {r : FdPipe.ReadRound} (hex : RefsExact k)
    (h : CoreOS.readFromFd k fd count typed = some (r, k')) : Grows k k' := by
  rcases readFromFd_cases h with rfl | ⟨j, -, rfl⟩ | ⟨i, n, -, rfl⟩
  · exact .refl hex
  · exact (SameEntries.setPipe (Pipe.sameEnds_readBytes count)).grows hex (Nat.le_refl _)
  · exact SameEntries.setOffset.grows hex (Nat.le_refl _)

theorem writeToFd {bytes : List ByteMem.Byte} {n : Option Nat} (hex : RefsExact k)
    (h : CoreOS.writeToFd k fd bytes = some (n, k')) : Grows k k' := by
  rcases writeToFd_cases h with rfl | ⟨j, -, rfl⟩ | ⟨i, fs, offset, -, hfs, rfl⟩
  · exact .refl hex
  · exact (SameEntries.setPipe (Pipe.sameEnds_writeBytes bytes)).grows hex (Nat.le_refl _)
  · have hset : Grows k (k.setFs (some fs)) := SameEntries.setFs.grows hex (by rw [fsWriteAt_count hfs])
    exact hset.trans (SameEntries.setOffset.grows hset.exact (Nat.le_refl _))

theorem pwrite64 {offset : Nat} {bytes : List ByteMem.Byte} {r : Except SysError Nat} (hex : RefsExact k)
    (h : CoreOS.pwrite64 k fd bytes offset = some (r, k')) : Grows k k' := by
  rcases pwrite64_cases h with rfl | ⟨idx, fs, hfs, rfl⟩
  · exact .refl hex
  · exact SameEntries.setFs.grows hex (by rw [fsWriteAt_count hfs])

theorem ftruncate {len : Nat} {r : Except SysError Nat} (hex : RefsExact k)
    (h : CoreOS.ftruncate k fd len = some (r, k')) : Grows k k' := by
  rcases ftruncate_cases h with rfl | ⟨idx, fs, hfs, rfl⟩
  · exact .refl hex
  · exact SameEntries.setFs.grows hex (by rw [fsResize_count hfs])

end Grows

end CoreOS
