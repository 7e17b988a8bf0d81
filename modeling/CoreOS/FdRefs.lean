/-
Descriptor reference counts are exact. The open-file and pipe tables are read
as counters of the references that the descriptor tables of all processes hold;
every descriptor operation takes or drops exactly the references whose counters
it moves, its failure paths included, so the counts agree in every reachable
state (`fd_refs_exact`).
-/
import CoreOS.FdExact
import CoreOS.Task
import CoreOS.Lib.Exec

namespace CoreOS

open Option (bind_eq_bind bind_eq_some_iff)

open RefCount

/-! ## Descriptor operations -/

theorem forkRetain_cases (k : Kernel) (t : FdTarget) :
    forkRetain k t = k ∨ (∃ i refs, forkRetain k t = k.setOpenFile i { k.openFiles i with refs }) ∨
      ∃ j p, forkRetain k t = k.setPipe j p := by
  unfold forkRetain
  split
  · split
    · split
      · exact .inr (.inl ⟨_, _, rfl⟩)
      · exact .inl rfl
    · exact .inl rfl
  · split
    · exact .inr (.inr ⟨_, _, rfl⟩)
    · exact .inl rfl
  · split
    · exact .inr (.inr ⟨_, _, rfl⟩)
    · exact .inl rfl
  · exact .inl rfl

theorem releaseFdTarget_cases (k : Kernel) (t : FdTarget) :
    releaseFdTarget k t = k ∨
    (∃ i f, (f = .empty ∨ ∃ refs, f = { k.openFiles i with refs }) ∧ releaseFdTarget k t = k.setOpenFile i f) ∨
      ∃ j p, releaseFdTarget k t = k.setPipe j p := by
  cases t with
  | empty | stdio _ | tty | null | zero => exact .inl rfl
  | openFile i =>
    simp only [releaseFdTarget, FdOpen.release]
    split
    · split
      · exact .inr (.inl ⟨i, _, .inr ⟨_, rfl⟩, rfl⟩)
      · exact .inr (.inl ⟨i, _, .inl rfl, rfl⟩)
    · exact .inl rfl
  | pipeRead j =>
    simp only [releaseFdTarget, FdPipe.releaseRead]
    split
    · exact .inr (.inr ⟨j, _, rfl⟩)
    · exact .inl rfl
  | pipeWrite j =>
    simp only [releaseFdTarget, FdPipe.releaseWrite]
    split
    · exact .inr (.inr ⟨j, _, rfl⟩)
    · exact .inl rfl

/-- The two tables aside, nothing changed. -/
structure SameProcesses (k k' : Kernel) : Prop where
  processes : k'.processes = k.processes
  threads : k'.threads = k.threads
  tasks : k'.tasks = k.tasks
  current : k'.current = k.current

namespace SameProcesses

variable {k k' k'' : Kernel}

theorem refl (k : Kernel) : SameProcesses k k := ⟨rfl, rfl, rfl, rfl⟩

theorem trans (h : SameProcesses k k') (h' : SameProcesses k' k'') : SameProcesses k k'' :=
  ⟨h'.1.trans h.1, h'.2.trans h.2, h'.3.trans h.3, h'.4.trans h.4⟩

theorem held (h : SameProcesses k k') : k'.held = k.held := by rw [Kernel.held, h.processes, Kernel.held]

theorem currentThread (h : SameProcesses k k') : k'.currentThread = k.currentThread := by
  rw [Kernel.currentThread, h.threads, h.current, Kernel.currentThread]

theorem setOpenFile {i : Nat} {f : OpenFile} : SameProcesses k (k.setOpenFile i f) := ⟨rfl, rfl, rfl, rfl⟩

theorem setPipe {j : Nat} {p : Pipe} : SameProcesses k (k.setPipe j p) := ⟨rfl, rfl, rfl, rfl⟩

theorem release (t : FdTarget) : SameProcesses k (releaseFdTarget k t) := by
  rcases releaseFdTarget_cases k t with h | ⟨i, f, -, h⟩ | ⟨j, p, h⟩
  · rw [h]
    exact .refl k
  · rw [h]
    exact .setOpenFile
  · rw [h]
    exact .setPipe

theorem forkRetain (t : FdTarget) : SameProcesses k (forkRetain k t) := by
  rcases forkRetain_cases k t with h | ⟨i, refs, h⟩ | ⟨j, p, h⟩
  · rw [h]
    exact .refl k
  · rw [h]
    exact .setOpenFile
  · rw [h]
    exact .setPipe

theorem retain {t : FdTarget} (h : retainFdTarget k t = some k') : SameProcesses k k' :=
  Exact.forkRetain_eq h ▸ forkRetain t

theorem foldl {f : Kernel → FdTarget → Kernel} (hf : ∀ k t, SameProcesses k (f k t)) {ts : List FdTarget} :
    SameProcesses k (ts.foldl f k) := by
  induction ts generalizing k with
  | nil => exact .refl k
  | cons t ts ih => exact (hf k t).trans ih

end SameProcesses

variable {p : Process} {fd : Nat}

theorem firstEmptyFd_spec {minFd : Nat} (h : firstEmptyFd p minFd = some fd) :
    fd < maxFds ∧ minFd ≤ fd ∧ p.fds fd = .empty := by
  have hlt := List.mem_range.mp (List.mem_of_find?_eq_some h)
  have hp := List.find?_some h
  simp only [Bool.and_eq_true, decide_eq_true_eq, beq_iff_eq] at hp
  exact ⟨hlt, hp.1, hp.2⟩

namespace Exact

variable {k k' : Kernel} {M N : Multiset FdTarget} {g : Slot} {p : Process} {fd j : Nat} {t : FdTarget}
  {w : BitVec 32}

theorem store (h : Exact k (t ::ₘ (N + k.held))) (hp : k.processes g = some p) (hfd : fd < maxFds)
    (he : p.fds fd = .empty) : Exact (k.setFd g fd t w) (N + (k.setFd g fd t w).held) := by
  have hheld := Kernel.held_setFd (t := t) (w := w) hp hfd
  rw [he] at hheld
  rw [← untracked (t := .empty) trivial, ← Multiset.add_cons, hheld, Multiset.add_cons]
  exact h.congr Kernel.setFd_openFiles Kernel.setFd_pipes

theorem take (h : Exact k (N + k.held)) (hp : k.processes g = some p) (hfd : fd < maxFds) :
    Exact (k.setFd g fd .empty w) (p.fds fd ::ₘ (N + (k.setFd g fd .empty w).held)) := by
  have hheld := Kernel.held_setFd (t := .empty) (w := w) hp hfd
  rw [← Multiset.add_cons, hheld, Multiset.add_cons, untracked (by trivial)]
  exact h.congr Kernel.setFd_openFiles Kernel.setFd_pipes

theorem close (h : Exact k (N + k.held)) (hp : k.processes g = some p) (hfd : fd < maxFds) :
    Exact (releaseFdTarget (k.setFd g fd .empty w) (p.fds fd))
      (N + (releaseFdTarget (k.setFd g fd .empty w) (p.fds fd)).held) := by
  rw [(SameProcesses.release _).held]
  exact (h.take hp hfd).release

theorem clear (h : Exact k (.pipeWrite j ::ₘ M)) (hr : (k.pipes j).readRefs = 0) (hw : (k.pipes j).writeRefs = 1) :
    Exact (FdPipe.clear k j) M := by
  have hl := h.live_pipe (.inr (Multiset.mem_cons_self ..))
  have hclear : FdPipe.clear k j = releaseFdTarget k (.pipeWrite j) := by
    have hlt : j < maxPipes := by
      simp only [FdPipe.live, Bool.and_eq_true, decide_eq_true_eq] at hl
      exact hl.1
    simp [FdPipe.clear, releaseFdTarget, FdPipe.releaseWrite, FdPipe.collect, hl, hlt, hr, hw]
  rw [hclear]
  exact h.release

end Exact

variable {k k' : Kernel} {target : FdTarget} {w : BitVec 32}

theorem allocSpecificFd_cases (h : allocSpecificFd k target w = some (fd, k')) :
    ∃ t p, k.currentThread = some t ∧ k.processes t.groupSlot = some p ∧ fd < maxFds ∧ p.fds fd = .empty ∧
      k' = k.setFd t.groupSlot fd target w := by
  simp only [allocSpecificFd, bind_eq_bind, bind_eq_some_iff, Option.some.injEq,
    Prod.mk.injEq] at h
  obtain ⟨t, ht, p, hp, fd', hfd, rfl, rfl⟩ := h
  obtain ⟨hlt, -, he⟩ := firstEmptyFd_spec hfd
  exact ⟨t, p, ht, hp, hlt, he, rfl⟩

theorem closeFd_cases (h : closeFd k fd = some k') :
    ∃ t p, k.currentThread = some t ∧ k.processes t.groupSlot = some p ∧ fd < maxFds ∧ p.fds fd ≠ .empty ∧
      k' = releaseFdTarget (k.setFd t.groupSlot fd .empty 0) (p.fds fd) := by
  simp only [closeFd, bind_eq_bind, bind_eq_some_iff] at h
  obtain ⟨t, ht, p, hp, h⟩ := h
  split at h
  · cases h
  next hlt =>
  split at h
  · cases h
  next hne =>
    cases h
    exact ⟨t, p, ht, hp, by omega, hne, rfl⟩

variable {t : Thread}

theorem closeFd_eq (ht : k.currentThread = some t) (hp : k.processes t.groupSlot = some p) (hlt : fd < maxFds)
    (hne : p.fds fd ≠ .empty) :
    closeFd k fd = some (releaseFdTarget (k.setFd t.groupSlot fd .empty 0) (p.fds fd)) := by
  simp [closeFd, ht, hp, hne, Nat.not_le.mpr hlt]

theorem dupDest_spec {oldFd minFd : Nat} {newFd : Option Nat} (h : dupDest p oldFd minFd newFd = .dest fd)
    (hne : p.fds oldFd ≠ .empty) : fd < maxFds ∧ fd ≠ oldFd := by
  cases newFd with
  | some new =>
    simp only [dupDest] at h
    split at h
    · cases h
    next hlt =>
    split at h
    · cases h
    next hold =>
      cases h
      exact ⟨by omega, hold⟩
  | none =>
    simp only [dupDest] at h
    split at h
    next fd' hfd =>
      cases h
      obtain ⟨hlt, -, he⟩ := firstEmptyFd_spec hfd
      exact ⟨hlt, fun heq => hne (heq ▸ he)⟩
    · cases h

theorem dupFd_cases (k : Kernel) (oldFd minFd : Nat) (newFd : Option Nat) (cloexec : Bool) :
    (dupFd k oldFd minFd newFd cloexec).2 = k ∨
    ∃ t p fd k1, k.currentThread = some t ∧ k.processes t.groupSlot = some p ∧ oldFd < maxFds ∧
      p.fds oldFd ≠ .empty ∧ fd < maxFds ∧ oldFd ≠ fd ∧
      (if p.fds fd = .empty then k
        else releaseFdTarget (k.setFd t.groupSlot fd .empty (p.fdFlags fd)) (p.fds fd)) = k1 ∧
      (dupFd k oldFd minFd newFd cloexec = (none, k1) ∧ retainFdTarget k1 (p.fds oldFd) = none ∨
        ∃ k2, retainFdTarget k1 (p.fds oldFd) = some k2 ∧ dupFd k oldFd minFd newFd cloexec =
          (some fd, k2.setFd t.groupSlot fd (p.fds oldFd) (if cloexec then fdCloexec else 0))) := by
  unfold dupFd
  split
  next t p ht hcp =>
    have hp : k.processes t.groupSlot = some p := by simpa [Kernel.currentProcess, ht] using hcp
    split
    · exact .inl rfl
    next hold =>
    split
    · exact .inl rfl
    next hne =>
    split
    · exact .inl rfl
    · exact .inl rfl
    next fd hdest =>
      obtain ⟨hlt, hfd⟩ := dupDest_spec hdest hne
      refine .inr ⟨t, p, fd, _, ht, hp, by omega, hne, hlt, hfd.symm, rfl, ?_⟩
      dsimp only
      split
      next hnone => exact .inl ⟨rfl, hnone⟩
      next k2 hk2 => exact .inr ⟨k2, hk2, rfl⟩
  · exact .inl rfl

variable {j : Nat}

theorem clear_same : SameProcesses k (FdPipe.clear k j) := by
  unfold FdPipe.clear
  split
  · exact .setPipe
  · exact .refl k

theorem releaseRead_new (hj : j < maxPipes) (hnew : k.pipes j = .new) :
    (releaseFdTarget k (.pipeRead j)).pipes j = { Pipe.new with readRefs := 0 } := by
  simp [releaseFdTarget, FdPipe.releaseRead, FdPipe.live, hj, hnew, FdPipe.collect, Pipe.new]

theorem clear_releaseRead :
    FdPipe.clear (releaseFdTarget k (.pipeRead j)) j = FdPipe.clear k j := by
  simp only [releaseFdTarget, FdPipe.releaseRead, FdPipe.clear]
  split
  · split
    · simp [Kernel.setPipe]
    · rfl
  · split
    next hlt hl => simp [FdPipe.live, hlt] at hl
    · rfl

/-- Descriptor tables and counters agree. -/
def RefsExact (k : Kernel) : Prop := Exact k k.held

namespace RefsExact

variable {k k' : Kernel}

theorem congr (h : RefsExact k) (ho : k'.openFiles = k.openFiles) (hp : k'.pipes = k.pipes)
    (hfds : ∀ s, (k'.processes s).map Process.fds = (k.processes s).map Process.fds) : RefsExact k' := by
  rw [RefsExact, Kernel.held_congr hfds]
  exact Exact.congr h ho hp

variable {g : Slot} {p : Process} {fd : Nat} {w : BitVec 32}

theorem store {t : FdTarget} (h : Exact k (t ::ₘ k.held)) (hp : k.processes g = some p) (hfd : fd < maxFds)
    (he : p.fds fd = .empty) : RefsExact (k.setFd g fd t w) := by
  rw [RefsExact, ← zero_add (Kernel.held _)]
  exact Exact.store (by rwa [zero_add]) hp hfd he

theorem close (h : RefsExact k) (hp : k.processes g = some p) (hfd : fd < maxFds) :
    RefsExact (releaseFdTarget (k.setFd g fd .empty w) (p.fds fd)) := by
  rw [RefsExact, ← zero_add (Kernel.held _)]
  exact Exact.close (by rwa [zero_add]) hp hfd

theorem openFile {fileIdx : Nat} {flags : BitVec 32} {t : Thread} (h : RefsExact k) (ht : k.currentThread = some t)
    (hp : k.processes t.groupSlot = some p) :
    RefsExact (CoreOS.openFile k fileIdx flags).2 := by
  unfold CoreOS.openFile
  split
  · exact h
  next i k1 ha =>
    obtain ⟨hk1, hex, -⟩ := Exact.alloc_open h ha
    have hsame : SameProcesses k k1 := hk1 ▸ .setOpenFile
    have ht1 : k1.currentThread = some t := hsame.currentThread.trans ht
    have hp1 : k1.processes t.groupSlot = some p := hsame.processes ▸ hp
    rw [← hsame.held] at hex
    have hcur : k1.currentProcess = some p := by simp [Kernel.currentProcess, ht1, hp1]
    rw [ht1, hcur]
    dsimp only
    split
    next fd hfd =>
      obtain ⟨hlt, -, he⟩ := firstEmptyFd_spec hfd
      exact store hex hp1 hlt he
    · rw [RefsExact, (SameProcesses.release _).held]
      exact hex.release

theorem openCharDevice {target : FdTarget} (h : RefsExact k) (hs : CoreOS.openCharDevice k target = some (fd, k')) :
    RefsExact k' := by
  have hchar : target.Untracked ∧ allocSpecificFd k target 0 = some (fd, k') := by
    unfold CoreOS.openCharDevice at hs
    split at hs
    · exact ⟨trivial, hs⟩
    · exact ⟨trivial, hs⟩
    · exact ⟨trivial, hs⟩
    · cases hs
  obtain ⟨t, p, -, hp, hlt, he, rfl⟩ := allocSpecificFd_cases hchar.2
  exact store ((Exact.untracked hchar.1).mpr h) hp hlt he

theorem closeFd (h : RefsExact k) (hs : CoreOS.closeFd k fd = some k') : RefsExact k' := by
  obtain ⟨t, p, -, hp, hlt, -, rfl⟩ := closeFd_cases hs
  exact h.close hp hlt

theorem emptied {oldFd : Nat} (h : RefsExact k) (hp : k.processes g = some p) (hlt : fd < maxFds) (hne : oldFd ≠ fd) :
    ∃ k1 p1, (if p.fds fd = .empty then k else releaseFdTarget (k.setFd g fd .empty w) (p.fds fd)) = k1 ∧
      k1.processes g = some p1 ∧ RefsExact k1 ∧ p1.fds fd = .empty ∧ p1.fds oldFd = p.fds oldFd := by
  split
  next he => exact ⟨k, p, rfl, hp, h, he, rfl⟩
  next he =>
    have hproc := Kernel.setFd_processes fd .empty w hp
    rw [← (SameProcesses.release (p.fds fd)).processes] at hproc
    exact ⟨_, _, rfl, hproc, h.close hp hlt, Function.update_self .., Function.update_of_ne hne ..⟩

theorem dupFd {oldFd minFd : Nat} {newFd : Option Nat} {cloexec : Bool} (h : RefsExact k) :
    RefsExact (CoreOS.dupFd k oldFd minFd newFd cloexec).2 := by
  rcases dupFd_cases k oldFd minFd newFd cloexec with hr | ⟨t, p, fd, k1, -, hp, hold, hne, hlt, hfd, hk1, hr⟩
  · rw [hr]
    exact h
  obtain ⟨k1', p1, hk1', hp1, hex1, he1, hold1⟩ := h.emptied hp hlt hfd
  obtain rfl : k1 = k1' := hk1.symm.trans hk1'
  have hmem : p.fds oldFd ∈ k1.held := hold1 ▸ Kernel.mem_held hp1 hold
  obtain ⟨k2, hk2, hex2⟩ := Exact.retain hex1 hmem hne
  have hsame := SameProcesses.retain hk2
  rw [← hsame.held] at hex2
  rcases hr with ⟨-, hnone⟩ | ⟨k2', hk2', hr⟩
  · cases hk2.symm.trans hnone
  · cases hk2.symm.trans hk2'
    rw [hr]
    exact store hex2 (hsame.processes ▸ hp1) hlt he1

/-- **`alloc_pipe`, rollbacks included.** -/
theorem allocPipe (h : RefsExact k) : RefsExact (CoreOS.allocPipe k).2 := by
  unfold CoreOS.allocPipe
  split
  · exact h
  next j k1 ha =>
    obtain ⟨hk1, hex, hj, -, -⟩ := Exact.alloc_pipe h ha
    have hsame : SameProcesses k k1 := hk1 ▸ .setPipe
    have hnew : k1.pipes j = .new := by simp [hk1]
    rw [← hsame.held] at hex
    split
    · -- no descriptor at all: as if the read end were given up first and the pipe cleared then
      have hrel := releaseRead_new hj hnew
      rw [RefsExact, ← clear_releaseRead, clear_same.held, (SameProcesses.release _).held]
      exact hex.release.clear (by rw [hrel]) (by rw [hrel]; rfl)
    next r k2 hr =>
      obtain ⟨t, p, ht, hp, hlt, he, rfl⟩ := allocSpecificFd_cases hr
      rw [← Multiset.singleton_add (FdTarget.pipeWrite j)] at hex
      have hex2 := hex.store (w := 0) hp hlt he
      split
      next q k3 hq =>
        obtain ⟨t', p', -, hp', hlt', he', rfl⟩ := allocSpecificFd_cases hq
        exact store (by rwa [Multiset.singleton_add] at hex2) hp' hlt' he'
      · -- the read descriptor is closed again, then the pipe is cleared
        have hp2 := Kernel.setFd_processes r (.pipeRead j) 0 hp
        have hex3 := hex2.close (w := 0) hp2 hlt
        have ht2 : (k1.setFd t.groupSlot r (.pipeRead j) 0).currentThread = some t := by simpa using ht
        have hclose := closeFd_eq ht2 hp2 hlt (by simp)
        simp only [Function.update_self] at hex3 hclose
        have hrel := releaseRead_new (k := (k1.setFd t.groupSlot r (.pipeRead j) 0).setFd t.groupSlot r .empty 0)
          hj (by simpa using hnew)
        rw [hclose, Option.getD_some, RefsExact, clear_same.held]
        rw [Multiset.singleton_add] at hex3
        exact hex3.clear (by rw [hrel]) (by rw [hrel]; rfl)

theorem forkCurrent {slot : Slot} {pid : Nat} (h : RefsExact k) (hslot : k.processes slot = none)
    (hs : CoreOS.forkCurrent k slot = some (pid, k')) : RefsExact k' := by
  simp only [CoreOS.forkCurrent, bind_eq_bind, bind_eq_some_iff, Option.some.injEq,
    Prod.mk.injEq] at hs
  obtain ⟨parent, hparent, t, ht, -, rfl⟩ := hs
  obtain ⟨t', -, hp⟩ : ∃ t', k.currentThread = some t' ∧ k.processes t'.groupSlot = some parent :=
    bind_eq_some_iff.mp hparent
  have hmem : ∀ x ∈ fdList parent.fds, x ∈ k.held := by
    intro x hx
    obtain ⟨fd, hfd, rfl⟩ := List.mem_map.mp hx
    exact Kernel.mem_held hp (List.mem_range.mp hfd)
  have hbump : Exact k.bumpPid k.held := Exact.congr h rfl rfl
  have hex := hbump.forkRetain_all hmem
  have hsame : SameProcesses k.bumpPid ((fdList parent.fds).foldl CoreOS.forkRetain k.bumpPid) :=
    .foldl fun _ t => .forkRetain t
  have hheld := Kernel.held_setProcess (k := (fdList parent.fds).foldl CoreOS.forkRetain k.bumpPid) (s := slot)
    (p := some (parent.forkFrom k.nextPid))
  have hnone : ((fdList parent.fds).foldl CoreOS.forkRetain k.bumpPid).processes slot = none := by
    rw [hsame.processes]
    exact hslot
  rw [hnone, hsame.held] at hheld
  refine Exact.congr (k := ((fdList parent.fds).foldl CoreOS.forkRetain k.bumpPid)) ?_ rfl rfl
  have hheld' : (((fdList parent.fds).foldl CoreOS.forkRetain k.bumpPid).setProcess slot
      (some (parent.forkFrom k.nextPid))).held = fdList parent.fds + k.held := by
    rw [← zero_add (Kernel.held _)]
    exact hheld
  exact hheld' ▸ hex

theorem reapSlot {slot : Slot} {code : Int} (h : RefsExact k) (hs : CoreOS.reapSlot k slot = some (code, k')) :
    RefsExact k' := by
  unfold CoreOS.reapSlot at hs
  split at hs
  next p hp =>
    split at hs
    · cases hs
      have hheld := Kernel.held_setProcess (k := k) (s := slot) (p := none)
      have hsame : SameProcesses k (releaseFds k p.fds) := .foldl fun _ t => .release t
      have hex : Exact k (fdList p.fds + (k.setProcess slot none).held) := by
        rw [hp] at hheld
        have : (fdList p.fds : Multiset FdTarget) + (k.setProcess slot none).held = k.held := by
          rw [← zero_add k.held]
          exact hheld
        rw [this]
        exact h
      refine Exact.congr (k := releaseFds k p.fds) ?_ rfl rfl
      have : (((releaseFds k p.fds).setProcess slot none).setThread slot none).held =
          (k.setProcess slot none).held := by
        apply Kernel.held_congr
        intro s
        simp [hsame.processes]
      rw [this]
      exact hex.release_all
    · cases hs
  · cases hs

end RefsExact

/-! ## Everything else leaves descriptors alone -/

/-- The two tables, every process's descriptors with their flags and the files
are the same. -/
structure SameFds (k k' : Kernel) : Prop where
  openFiles : k'.openFiles = k.openFiles
  pipes : k'.pipes = k.pipes
  fds : ∀ s, (k'.processes s).map Process.fds = (k.processes s).map Process.fds
  flags : ∀ s, (k'.processes s).map Process.fdFlags = (k.processes s).map Process.fdFlags
  fs : k'.fs = k.fs

namespace SameFds

variable {k k' k'' : Kernel}

theorem of_processes (ho : k'.openFiles = k.openFiles) (hpipes : k'.pipes = k.pipes) (hp : k'.processes = k.processes)
    (hfs : k'.fs = k.fs) : SameFds k k' := ⟨ho, hpipes, fun s => by rw [hp], fun s => by rw [hp], hfs⟩

theorem refl (k : Kernel) : SameFds k k := of_processes rfl rfl rfl rfl

theorem trans (h : SameFds k k') (h' : SameFds k' k'') : SameFds k k'' :=
  ⟨h'.1.trans h.1, h'.2.trans h.2, fun s => (h'.3 s).trans (h.3 s), fun s => (h'.4 s).trans (h.4 s), h'.5.trans h.5⟩

variable {s : Slot}

theorem setThread {t : Option Thread} : SameFds k (k.setThread s t) := of_processes rfl rfl rfl rfl

theorem setProcess {p p' : Process} (hp : k.processes s = some p) (hf : p'.fds = p.fds) (hw : p'.fdFlags = p.fdFlags) :
    SameFds k (k.setProcess s (some p')) := by
  refine ⟨rfl, rfl, fun x => ?_, fun x => ?_, rfl⟩
  · by_cases hx : x = s
    · subst hx
      simp [hp, hf]
    · simp [hx]
  · by_cases hx : x = s
    · subst hx
      simp [hp, hw]
    · simp [hx]

theorem killTask : SameFds k (k.killTask s) := by
  unfold Kernel.killTask
  split
  · exact of_processes rfl rfl rfl rfl
  · exact .refl k

theorem exitGroupThread {g c : Slot} : SameFds k (k.exitGroupThread g c s) := by
  unfold Kernel.exitGroupThread
  split
  · exact .refl k
  · split
    · exact .refl k
    · dsimp only
      split
      · exact setThread.trans killTask
      · exact .setThread

theorem foldl {f : Kernel → Slot → Kernel} (hf : ∀ k s, SameFds k (f k s)) {ss : List Slot} :
    SameFds k (ss.foldl f k) := by
  induction ss generalizing k with
  | nil => exact .refl k
  | cons s ss ih => exact (hf k s).trans ih

theorem exitThread {code : Int} {wholeGroup : Bool} : SameFds k (k.exitThread code wholeGroup).2 := by
  unfold Kernel.exitThread
  split
  · exact .refl k
  next t _ =>
    dsimp only
    split
    · exact .setThread
    next p hp =>
      split
      · exact setThread.trans ((setProcess hp (by rfl) (by rfl)).trans (foldl fun _ _ => exitGroupThread))
      · split
        · exact setThread.trans (setProcess hp (by rfl) (by rfl))
        · exact setThread.trans (setProcess hp (by rfl) (by rfl))

theorem spawnThreadInGroup {slot : Slot} {c b tid : Nat} (h : k.spawnThreadInGroup slot c b = some (tid, k')) :
    SameFds k k' := by
  simp only [Kernel.spawnThreadInGroup, bind_eq_bind, bind_eq_some_iff, Option.some.injEq,
    Prod.mk.injEq] at h
  obtain ⟨t, -, p, hp, -, rfl⟩ := h
  have hbump : SameFds k k.bumpPid := of_processes rfl rfl rfl rfl
  exact hbump.trans ((setProcess hp (by rfl) (by rfl)).trans setThread)

end SameFds

theorem RefsExact.same (h : RefsExact k) (hs : SameFds k k') : RefsExact k' :=
  h.congr hs.openFiles hs.pipes hs.fds

theorem heldBy_newLeader_untracked {pid parentPid : Nat} {name : List Char} {t : FdTarget}
    (h : t ∈ heldBy (some (.newLeader pid parentPid name))) : t.Untracked := by
  rw [heldBy, entries] at h
  obtain ⟨fd, -, rfl⟩ := Multiset.mem_map.mp h
  simp only [Process.newLeader, defaultFds]
  split <;> trivial

theorem Exact.add_untracked {M N : Multiset FdTarget} (h : Exact k M) (hN : ∀ t ∈ N, t.Untracked) :
    Exact k (N + M) := by
  induction N using Multiset.induction with
  | empty => rwa [zero_add]
  | cons t N ih =>
    rw [Multiset.cons_add, Exact.untracked (hN t (Multiset.mem_cons_self t N))]
    exact ih fun x hx => hN x (Multiset.mem_cons_of_mem hx)

theorem RefsExact.spawnNamed {slot : Slot} {name : List Char} (h : RefsExact k) (hslot : k.processes slot = none) :
    RefsExact (k.spawnNamed slot name).2 := by
  have hheld := Kernel.held_setProcess (k := k.bumpPid) (s := slot)
    (p := some (.newLeader k.nextPid k.currentPid name))
  have hnone : k.bumpPid.processes slot = none := hslot
  rw [hnone, heldBy, zero_add] at hheld
  refine Exact.congr (k := k) ?_ rfl rfl
  have hheld' : (k.spawnNamed slot name).2.held =
      heldBy (some (.newLeader k.nextPid k.currentPid name)) + k.held := hheld
  rw [hheld']
  exact Exact.add_untracked h fun _ ht => heldBy_newLeader_untracked ht

/-! ## Runs -/

/-- The descriptor operations, by whichever task runs (`schedule`), and the
creation and end of processes and threads. -/
inductive FdOp
  | schedule (slot : Slot)
  | spawnNamed (slot : Slot) (name : List Char)
  | spawnThread (slot : Slot) (clearChildTid fsBase : Nat)
  | exitThread (code : Int) (wholeGroup : Bool)
  | openFile (fileIdx : Nat) (statusFlags : BitVec 32)
  | openCharDevice (target : FdTarget)
  | closeFd (fd : Nat)
  | dupFd (oldFd minFd : Nat) (newFd : Option Nat) (cloexec : Bool)
  | allocPipe
  | forkCurrent (slot : Slot)
  | reapSlot (slot : Slot)

/-- One operation; one that fails may still change the state, as the source
has it. New processes go to slots without a process record, and files are
opened by processes. -/
def fdStep (k : Kernel) : FdOp → Option Kernel
  | .schedule slot => some { k with current := slot }
  | .spawnNamed slot name => if (k.processes slot).isNone then some (k.spawnNamed slot name).2 else none
  | .spawnThread slot clearChildTid fsBase => (k.spawnThreadInGroup slot clearChildTid fsBase).map Prod.snd
  | .exitThread code wholeGroup => some (k.exitThread code wholeGroup).2
  | .openFile fileIdx statusFlags =>
    if k.currentProcess.isSome then some (openFile k fileIdx statusFlags).2 else none
  | .openCharDevice target => some ((openCharDevice k target).elim k Prod.snd)
  | .closeFd fd => some ((closeFd k fd).getD k)
  | .dupFd oldFd minFd newFd cloexec => some (dupFd k oldFd minFd newFd cloexec).2
  | .allocPipe => some (allocPipe k).2
  | .forkCurrent slot => if (k.processes slot).isNone then (forkCurrent k slot).map Prod.snd else none
  | .reapSlot slot => some ((reapSlot k slot).elim k Prod.snd)

theorem RefsExact.step {op : FdOp} (h : RefsExact k) (hs : fdStep k op = some k') :
    RefsExact k' := by
  cases op with
  | schedule slot =>
    cases hs
    exact h.same (.of_processes rfl rfl rfl rfl)
  | spawnNamed slot name =>
    simp only [fdStep] at hs
    split at hs
    next hn => cases hs; exact h.spawnNamed (Option.isNone_iff_eq_none.mp hn)
    · cases hs
  | spawnThread slot c b =>
    obtain ⟨⟨tid, k1⟩, hk1, rfl⟩ := Option.map_eq_some_iff.mp hs
    exact h.same (.spawnThreadInGroup hk1)
  | exitThread code wholeGroup =>
    cases hs
    exact h.same .exitThread
  | openFile fileIdx flags =>
    simp only [fdStep] at hs
    split at hs
    next hp =>
      cases hs
      obtain ⟨p, hp⟩ := Option.isSome_iff_exists.mp hp
      obtain ⟨t, ht, hp⟩ := bind_eq_some_iff.mp hp
      exact h.openFile ht hp
    · cases hs
  | openCharDevice target =>
    cases hs
    cases ho : CoreOS.openCharDevice k target with
    | none => exact h
    | some r => exact h.openCharDevice ho
  | closeFd fd =>
    cases hs
    cases hc : CoreOS.closeFd k fd with
    | none => exact h
    | some k1 => exact h.closeFd hc
  | dupFd oldFd minFd newFd cloexec =>
    cases hs
    exact h.dupFd
  | allocPipe =>
    cases hs
    exact h.allocPipe
  | forkCurrent slot =>
    simp only [fdStep] at hs
    split at hs
    next hn =>
      obtain ⟨⟨pid, k1⟩, hk1, rfl⟩ := Option.map_eq_some_iff.mp hs
      exact h.forkCurrent (Option.isNone_iff_eq_none.mp hn) hk1
    · cases hs
  | reapSlot slot =>
    cases hs
    cases hr : CoreOS.reapSlot k slot with
    | none => exact h
    | some r => exact h.reapSlot hr

theorem RefsExact.statics {phys : Phys} {code : CodeAddrs} {kernelPml4 : Nat} :
    RefsExact (.statics phys code kernelPml4) := by
  have hheld : (Kernel.statics phys code kernelPml4).held = 0 := by simp [Kernel.held, Kernel.statics, heldBy]
  rw [RefsExact, hheld]
  refine ⟨fun i => ?_, fun j => ?_, fun j => ?_, fun i => ?_, fun j => ?_⟩
  · simp [Kernel.statics, OpenFile.empty]
  · simp [Kernel.statics, Pipe.empty]
  · simp [Kernel.statics, Pipe.empty]
  · simp [Kernel.statics, OpenFile.empty, OpenOK]
  · simp [Kernel.statics, Pipe.empty, PipeOK]

/-! ## Fresh indices -/

theorem getFdTarget_setFd (ht : k.currentThread = some t) (hp : k.processes t.groupSlot = some p) (hlt : fd < maxFds)
    (hne : target ≠ .empty) : getFdTarget (k.setFd t.groupSlot fd target w) fd = some target := by
  have hcur : (k.setFd t.groupSlot fd target w).currentThread = some t := by simpa using ht
  have hproc := Kernel.setFd_processes fd target w hp
  simp only [getFdTarget, Kernel.currentProcess, hcur, bind_eq_bind, Option.bind_some, hproc,
    Nat.not_le.mpr hlt, if_false, Function.update_self]

theorem getFdTarget_setFd_other {fd' : Nat} (ht : k.currentThread = some t) (hp : k.processes t.groupSlot = some p)
    (hne : fd' ≠ fd) :
    getFdTarget (k.setFd t.groupSlot fd target w) fd' = getFdTarget k fd' := by
  have hcur : (k.setFd t.groupSlot fd target w).currentThread = some t := by simpa using ht
  have hproc := Kernel.setFd_processes fd target w hp
  simp only [getFdTarget, Kernel.currentProcess, hcur, ht, bind_eq_bind, Option.bind_some, hproc, hp,
    Function.update_of_ne hne]

theorem entryCount_setFd {g : Slot} {t x : FdTarget} (hp : k.processes g = some p) (hlt : fd < maxFds)
    (he : p.fds fd = .empty) (hx : x ≠ .empty) :
    (k.setFd g fd t w).entryCount x = k.entryCount x + if x = t then 1 else 0 := by
  have hheld := congrArg (Multiset.count x) (Kernel.held_setFd (t := t) (w := w) hp hlt)
  rw [he, Multiset.count_cons_of_ne hx, Multiset.count_cons] at hheld
  rw [Kernel.entryCount_eq, hheld, Kernel.entryCount_eq]

theorem RefsExact.openFile_fresh {fileIdx : Nat} {flags : BitVec 32} (h : RefsExact k)
    (hs : CoreOS.openFile k fileIdx flags = (some fd, k')) :
    ∃ i, getFdTarget k' fd = some (.openFile i) ∧ k'.entryCount (.openFile i) = 1 := by
  unfold CoreOS.openFile at hs
  split at hs
  · cases hs
  next i k1 ha =>
    obtain ⟨hk1, -, hnot⟩ := Exact.alloc_open h ha
    have hsame : SameProcesses k k1 := hk1 ▸ .setOpenFile
    split at hs
    next t p ht hcp =>
      have hp : k1.processes t.groupSlot = some p := by simpa [Kernel.currentProcess, ht] using hcp
      split at hs
      next fd' hfd =>
        cases hs
        obtain ⟨hlt, -, he⟩ := firstEmptyFd_spec hfd
        refine ⟨i, getFdTarget_setFd ht hp hlt (by nofun), ?_⟩
        rw [entryCount_setFd hp hlt he (by nofun), if_pos rfl, Kernel.entryCount_eq, hsame.held,
          Multiset.count_eq_zero_of_notMem hnot]
      · cases hs
    · cases hs

theorem RefsExact.allocPipe_fresh {r q : Nat} (h : RefsExact k) (hs : CoreOS.allocPipe k = (some (r, q), k')) :
    ∃ j, getFdTarget k' r = some (.pipeRead j) ∧ getFdTarget k' q = some (.pipeWrite j) ∧
      k'.entryCount (.pipeRead j) = 1 ∧ k'.entryCount (.pipeWrite j) = 1 := by
  unfold CoreOS.allocPipe at hs
  split at hs
  · cases hs
  next j k1 ha =>
    obtain ⟨hk1, -, -, hnr, hnw⟩ := Exact.alloc_pipe h ha
    have hsame : SameProcesses k k1 := hk1 ▸ .setPipe
    split at hs
    · cases hs
    next r' k2 hr =>
    split at hs
    next q' k3 hq =>
      cases hs
      obtain ⟨t, p, ht, hp, hlt, he, rfl⟩ := allocSpecificFd_cases hr
      obtain ⟨t', p', ht', hp', hlt', he', rfl⟩ := allocSpecificFd_cases hq
      obtain rfl : t = t' := by simpa [ht] using ht'
      have hp2 := Kernel.setFd_processes r (.pipeRead j) 0 hp
      obtain rfl := Option.some.inj (hp'.symm.trans hp2)
      -- the write descriptor was empty when the read descriptor was not
      have hne : r ≠ q := by
        rintro rfl
        simp at he'
      have hcount : ∀ x, x ≠ .empty → x ∉ k.held → k1.entryCount x = 0 := fun x _ hx => by
        rw [Kernel.entryCount_eq, hsame.held, Multiset.count_eq_zero_of_notMem hx]
      refine ⟨j, ?_, getFdTarget_setFd ht' hp2 hlt' (by nofun), ?_, ?_⟩
      · rw [getFdTarget_setFd_other ht' hp2 hne]
        exact getFdTarget_setFd ht hp hlt (by nofun)
      · rw [entryCount_setFd hp2 hlt' he' (by nofun), entryCount_setFd hp hlt he (by nofun), hcount _ (by nofun) hnr]
        simp
      · rw [entryCount_setFd hp2 hlt' he' (by nofun), entryCount_setFd hp hlt he (by nofun), hcount _ (by nofun) hnw]
        simp
    · cases hs

/-! ## The result -/

/-- The table entry a target leads to exists and is in use. -/
def TargetLive (k : Kernel) : FdTarget → Prop
  | .openFile i => i < maxOpenFiles ∧ (k.openFiles i).inUse = true
  | .pipeRead j | .pipeWrite j => j < maxPipes ∧ (k.pipes j).inUse = true
  | _ => True

theorem RefsExact.targetLive {s : Slot} (h : RefsExact k) (hp : k.processes s = some p) (hfd : fd < maxFds) :
    TargetLive k (p.fds fd) := by
  have hmem := Kernel.mem_held hp hfd
  cases ht : p.fds fd with
  | empty | stdio _ | tty | null | zero => trivial
  | openFile i => simpa [TargetLive, FdOpen.live] using Exact.live_open h (ht ▸ hmem)
  | pipeRead j => simpa [TargetLive, FdPipe.live] using Exact.live_pipe h (.inl (ht ▸ hmem))
  | pipeWrite j => simpa [TargetLive, FdPipe.live] using Exact.live_pipe h (.inr (ht ▸ hmem))

theorem Kernel.entryCount_le {t : FdTarget} : k.entryCount t ≤ maxTasks * maxFds := by
  refine (Finset.card_le_univ _).trans ?_
  simp

/-- **Descriptor reference counts are exact.** In every state that any run of
descriptor operations, forks, exits and reaps by any processes reaches: the
count of an open-file description is the number of (process record,
descriptor) pairs that refer to it, and it is in use exactly when that number
is positive; likewise for the two ends of a pipe. No count exceeds the number
of descriptors there are. A successful open or pipe hands out an index that no
other descriptor refers to, and every descriptor refers to an entry in use. -/
theorem fd_refs_exact (phys : Phys) (code : CodeAddrs) (kernelPml4 : Nat) (ops : List FdOp) (k : Kernel)
    (h : Lts.exec fdStep (.statics phys code kernelPml4) ops = some k) :
    (∀ i, (k.openFiles i).refs = k.entryCount (.openFile i) ∧
      ((k.openFiles i).inUse = true ↔ 0 < k.entryCount (.openFile i)) ∧
      (k.openFiles i).refs ≤ maxTasks * maxFds) ∧
    (∀ j, (k.pipes j).readRefs = k.entryCount (.pipeRead j) ∧ (k.pipes j).writeRefs = k.entryCount (.pipeWrite j) ∧
      ((k.pipes j).inUse = true ↔ 0 < k.entryCount (.pipeRead j) + k.entryCount (.pipeWrite j))) ∧
    (∀ fileIdx flags fd k', openFile k fileIdx flags = (some fd, k') →
      ∃ i, getFdTarget k' fd = some (.openFile i) ∧ k'.entryCount (.openFile i) = 1) ∧
    (∀ r q k', allocPipe k = (some (r, q), k') →
      ∃ j, getFdTarget k' r = some (.pipeRead j) ∧ getFdTarget k' q = some (.pipeWrite j) ∧
        k'.entryCount (.pipeRead j) = 1 ∧ k'.entryCount (.pipeWrite j) = 1) ∧
    (∀ s p fd, k.processes s = some p → fd < maxFds → TargetLive k (p.fds fd)) := by
  have hex : RefsExact k := Lts.exec_invariant RefsExact (fun _ _ _ hk hs => hk.step hs) .statics h
  refine ⟨fun i => ?_, fun j => ?_, fun _ _ _ _ hs => hex.openFile_fresh hs, fun _ _ _ hs => hex.allocPipe_fresh hs,
    fun _ _ _ hp hfd => hex.targetLive hp hfd⟩
  · have hrefs : (k.openFiles i).refs = k.entryCount (.openFile i) := by
      rw [Kernel.entryCount_eq]
      exact hex.openRefs i
    exact ⟨hrefs, hrefs ▸ (hex.openOK i).1, hrefs ▸ Kernel.entryCount_le⟩
  · have hr : (k.pipes j).readRefs = k.entryCount (.pipeRead j) := by
      rw [Kernel.entryCount_eq]
      exact hex.readRefs j
    have hw : (k.pipes j).writeRefs = k.entryCount (.pipeWrite j) := by
      rw [Kernel.entryCount_eq]
      exact hex.writeRefs j
    exact ⟨hr, hw, hr ▸ hw ▸ (hex.pipeOK j).1⟩

/-- A process opens a file, duplicates the descriptor and forks. -/
def dupForkOps : List FdOp :=
  [.spawnNamed 0 [], .openFile 0 oRdwr, .dupFd 3 0 none false, .forkCurrent 1]

/-- Two descriptors in each of two processes: four references. -/
theorem fd_refs_exact_dupFork :
    ∃ k, Lts.exec fdStep (.statics ⟨.new, fun _ => 0⟩ ⟨0, 0⟩ 0) dupForkOps = some k ∧
      (k.openFiles 0).refs = 4 ∧ k.entryCount (.openFile 0) = 4 := by
  have hrun : (Lts.exec fdStep (.statics ⟨.new, fun _ => 0⟩ ⟨0, 0⟩ 0) dupForkOps).map
      (fun k => (k.openFiles 0).refs) = some 4 := rfl
  obtain ⟨k, hk, hr⟩ := Option.map_eq_some_iff.mp hrun
  exact ⟨k, hk, hr, ((fd_refs_exact _ _ _ dupForkOps k hk).1 0).1 ▸ hr⟩

end CoreOS
