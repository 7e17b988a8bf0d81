/-
A descriptor call that fails changes nothing. `pipe` takes a pipe and two
descriptors one after the other and undoes them when the next is missing, and
`dup3` gives up its destination before it retains its source; that the state is
exactly what it was rests on what every state keeps (`DescriptorsOK`): counts
are exact, so that the source can be retained, and what is not in use is an
empty record, so that the undone is what was there.
-/
import CoreOS.PipeEof
import CoreOS.OpenFailure

namespace CoreOS

open ByteMem
open Function (update_self update_of_ne)
open Option (bind_some bind_eq_some_iff map_eq_some_iff)

/-! ## Unused entries are empty -/

/-- Pipes that are not in use are empty records. -/
def PipesClean (k : Kernel) : Prop := ∀ j, (k.pipes j).inUse = false → k.pipes j = .empty

/-- Closed descriptors have no flags. -/
def FlagsClean (k : Kernel) : Prop :=
  ∀ s p fd, k.processes s = some p → p.fds fd = .empty → p.fdFlags fd = 0

namespace PipesClean

variable {k k' : Kernel}

theorem of_pipes (h : PipesClean k) (hp : k'.pipes = k.pipes) : PipesClean k' := by
  unfold PipesClean
  rw [hp]
  exact h

variable {j : Nat} {p : Pipe}

theorem setPipe (h : PipesClean k) (hp : p.inUse = false → p = .empty) :
    PipesClean (k.setPipe j p) := by
  intro x hx
  rw [Kernel.setPipe_pipes] at hx ⊢
  by_cases hxj : x = j
  · subst hxj
    rw [update_self] at hx ⊢
    exact hp hx
  · rw [update_of_ne hxj] at hx ⊢
    exact h x hx

theorem setUsed (h : PipesClean k) (hp : p.inUse = true) : PipesClean (k.setPipe j p) :=
  h.setPipe fun hu => by rw [hp] at hu; cases hu

theorem collected (h : PipesClean k) (hp : p.inUse = true) :
    PipesClean (k.setPipe j (FdPipe.collect p)) := by
  unfold FdPipe.collect
  split
  · exact h.setPipe fun _ => rfl
  · exact h.setUsed hp

theorem release (h : PipesClean k) (t : FdTarget) : PipesClean (releaseFdTarget k t) := by
  cases t with
  | empty | stdio _ | tty | null | zero => exact h
  | openFile i =>
    simp only [releaseFdTarget, FdOpen.release]
    split
    · split
      · exact h.of_pipes rfl
      · exact h.of_pipes rfl
    · exact h
  | pipeRead j =>
    simp only [releaseFdTarget, FdPipe.releaseRead]
    split
    next hl => exact h.collected (Bool.and_eq_true _ _ ▸ hl).2
    · exact h
  | pipeWrite j =>
    simp only [releaseFdTarget, FdPipe.releaseWrite]
    split
    next hl => exact h.collected (Bool.and_eq_true _ _ ▸ hl).2
    · exact h

theorem forkRetain (h : PipesClean k) (t : FdTarget) : PipesClean (CoreOS.forkRetain k t) := by
  unfold CoreOS.forkRetain
  split
  · split
    · split
      · exact h.of_pipes rfl
      · exact h
    · exact h
  · split
    next hl => exact h.setUsed hl.2
    · exact h
  · split
    next hl => exact h.setUsed hl.2
    · exact h
  · exact h

theorem foldl {f : Kernel → FdTarget → Kernel} (hf : ∀ {k} t, PipesClean k → PipesClean (f k t)) {ts : List FdTarget}
    (h : PipesClean k) : PipesClean (ts.foldl f k) := by
  induction ts generalizing k with
  | nil => exact h
  | cons t ts ih => exact ih (hf t h)

theorem setFd {g : Slot} {fd : Nat} {t : FdTarget} {w : BitVec 32} (h : PipesClean k) : PipesClean (k.setFd g fd t w) :=
  h.of_pipes Kernel.setFd_pipes

theorem moves (h : PipesClean k) (hm : FileMoves k k') : PipesClean k' := by
  induction hm with
  | refl => exact h
  | setFs _ fs ih => exact ih.of_pipes rfl
  | setOffset _ i n ih => exact ih.of_pipes rfl
  | setPipe _ j hu hp ih => exact ih.setUsed (hp.inUse.trans hu)

end PipesClean

variable {k k' : Kernel}

theorem FileMoves.processes (h : FileMoves k k') : k'.processes = k.processes := by
  induction h with
  | refl => rfl
  | setFs _ _ ih | setOffset _ _ _ ih | setPipe _ _ _ _ ih => exact ih

namespace FlagsClean

variable {k k' : Kernel}

theorem of_processes (h : FlagsClean k) (hp : k'.processes = k.processes) : FlagsClean k' := by
  unfold FlagsClean
  rw [hp]
  exact h

variable {g : Slot}

theorem setProcess {p : Process} (h : FlagsClean k) (hp : ∀ fd, p.fds fd = .empty → p.fdFlags fd = 0) :
    FlagsClean (k.setProcess g (some p)) := by
  intro s q fd hq he
  rw [Kernel.setProcess_processes] at hq
  by_cases hs : s = g
  · subst hs
    rw [update_self] at hq
    cases hq
    exact hp fd he
  · rw [update_of_ne hs] at hq
    exact h s q fd hq he

theorem setFd {fd : Nat} {t : FdTarget} {w : BitVec 32} (h : FlagsClean k) (ht : t = .empty → w = 0) :
    FlagsClean (k.setFd g fd t w) := by
  unfold Kernel.setFd
  split
  next p hp =>
    refine h.setProcess fun x hx => ?_
    dsimp only at hx ⊢
    by_cases hxfd : x = fd
    · subst hxfd
      rw [update_self] at hx ⊢
      exact ht hx
    · rw [update_of_ne hxfd] at hx ⊢
      exact h g p x hp hx
  · exact h

end FlagsClean

/-! ### One descriptor set twice -/

namespace Kernel

variable {k k' : Kernel} {g : Slot} {fd : Nat} {t t' : FdTarget} {w w' : BitVec 32}

theorem setFd_setFd : (k.setFd g fd t w).setFd g fd t' w' = k.setFd g fd t' w' := by
  cases hp : k.processes g with
  | none => simp [setFd, hp]
  | some p => simp [setFd, hp, setProcess]

theorem setFd_self {p : Process} (hp : k.processes g = some p) (ht : p.fds fd = t) (hw : p.fdFlags fd = w) :
    k.setFd g fd t w = k := by
  subst ht hw
  simp only [setFd, hp, setProcess, Function.update_eq_self]
  rw [← hp, Function.update_eq_self]

theorem setFd_processes_congr (h : k'.processes = k.processes) :
    (k'.setFd g fd t w).processes = (k.setFd g fd t w).processes := by
  unfold setFd
  rw [h]
  split
  · simp [h]
  · exact h

end Kernel

/-! ## Descriptors in order -/

structure EntriesClean (k : Kernel) : Prop where
  pipes : PipesClean k
  flags : FlagsClean k

/-- **What every reachable state keeps.** -/
structure DescriptorsOK (k : Kernel) : Prop where
  refs : RefsExact k
  clean : EntriesClean k

namespace DescriptorsOK

variable {k k' : Kernel}

theorem pipes (h : DescriptorsOK k) : PipesClean k := h.clean.pipes

theorem flags (h : DescriptorsOK k) : FlagsClean k := h.clean.flags

theorem same (h : DescriptorsOK k) (hs : SameFds k k') : DescriptorsOK k' := by
  refine ⟨h.refs.same hs, h.pipes.of_pipes hs.pipes, fun s p fd hp he => ?_⟩
  have hfds := hs.fds s
  have hflags := hs.flags s
  rw [hp, Option.map_some] at hfds hflags
  obtain ⟨q, hq, hqfds⟩ := map_eq_some_iff.mp hfds.symm
  rw [hq, Option.map_some, Option.some.injEq] at hflags
  rw [hflags]
  exact h.flags s q fd hq (by rw [hqfds]; exact he)

theorem moves (h : DescriptorsOK k) (hm : FileMoves k k') : DescriptorsOK k' :=
  ⟨h.refs.moves hm, h.pipes.moves hm, h.flags.of_processes hm.processes⟩

theorem setFs {fs : Option RamFS} (h : DescriptorsOK k) : DescriptorsOK (k.setFs fs) :=
  ⟨SameEntries.setFs.exact h.refs, h.pipes.of_pipes rfl, h.flags.of_processes rfl⟩

variable {fd : Nat}

theorem closeFd (h : DescriptorsOK k) (hs : CoreOS.closeFd k fd = some k') : DescriptorsOK k' := by
  refine ⟨h.refs.closeFd hs, ?_⟩
  obtain ⟨t, p, -, -, -, -, rfl⟩ := closeFd_cases hs
  exact ⟨h.pipes.setFd.release _, (h.flags.setFd fun _ => rfl).of_processes (SameProcesses.release _).processes⟩

variable {target : FdTarget}

theorem allocSpecificFd {w : BitVec 32} (h : EntriesClean k) (ht : target ≠ .empty)
    (hs : CoreOS.allocSpecificFd k target w = some (fd, k')) : EntriesClean k' := by
  obtain ⟨t, p, -, -, -, -, rfl⟩ := allocSpecificFd_cases hs
  exact ⟨h.pipes.setFd, h.flags.setFd fun he => absurd he ht⟩

theorem openCharDevice (h : DescriptorsOK k) (hs : CoreOS.openCharDevice k target = some (fd, k')) :
    DescriptorsOK k' := by
  refine ⟨h.refs.openCharDevice hs, ?_⟩
  unfold CoreOS.openCharDevice at hs
  split at hs
  · exact allocSpecificFd h.clean (fun he => by cases he) hs
  · exact allocSpecificFd h.clean (fun he => by cases he) hs
  · exact allocSpecificFd h.clean (fun he => by cases he) hs
  · cases hs

theorem openFile {fileIdx : Nat} {status : BitVec 32} (h : DescriptorsOK k) (hproc : k.currentProcess.isSome = true) :
    DescriptorsOK (CoreOS.openFile k fileIdx status).2 := by
  obtain ⟨p, hp⟩ := Option.isSome_iff_exists.mp hproc
  obtain ⟨t, ht, hp⟩ := bind_eq_some_iff.mp hp
  refine ⟨h.refs.openFile ht hp, ?_⟩
  unfold CoreOS.openFile
  split
  · exact h.clean
  next i k1 ha =>
    obtain ⟨hk1, -, -⟩ := Exact.alloc_open h.refs ha
    have hpipes : PipesClean k1 := h.pipes.of_pipes (by rw [hk1]; rfl)
    have hflags : FlagsClean k1 := h.flags.of_processes (by rw [hk1]; rfl)
    split
    · split
      · exact ⟨hpipes.setFd, hflags.setFd fun he => by cases he⟩
      · exact ⟨hpipes.release _, hflags.of_processes (SameProcesses.release _).processes⟩
    · exact ⟨hpipes, hflags⟩

variable {oldFd minFd : Nat} {newFd : Option Nat} {cloexec : Bool}

theorem dupFd (h : DescriptorsOK k) :
    DescriptorsOK (CoreOS.dupFd k oldFd minFd newFd cloexec).2 := by
  refine ⟨h.refs.dupFd, ?_⟩
  rcases dupFd_cases k oldFd minFd newFd cloexec with hr | ⟨t, p, fd, k1, -, hp, hold, hne, hlt, hfd, hk1, hr⟩
  · rw [hr]
    exact h.clean
  obtain ⟨k1', p1, hk1', hp1, hex1, he1, hold1⟩ := h.refs.emptied hp hlt hfd
  obtain rfl : k1 = k1' := hk1.symm.trans hk1'
  obtain ⟨k2, hk2, -⟩ := Exact.retain hex1 (hold1 ▸ Kernel.mem_held hp1 hold) hne
  rcases hr with ⟨-, hnone⟩ | ⟨k2', hk2', hr⟩
  · cases hk2.symm.trans hnone
  cases hk2.symm.trans hk2'
  rw [hr]
  have hpipes1 : PipesClean k1 := by
    rw [← hk1]
    split
    · exact h.pipes
    · exact h.pipes.setFd.release _
  refine ⟨PipesClean.setFd (Exact.forkRetain_eq hk2 ▸ hpipes1.forkRetain _), ?_⟩
  -- the destination was emptied with the flags it had, and is now set for good
  have hproc : ∀ {x w}, (k2.setFd t.groupSlot fd x w).processes = (k.setFd t.groupSlot fd x w).processes := by
    intro x w
    rw [Kernel.setFd_processes_congr (SameProcesses.retain hk2).processes, ← hk1]
    split
    · rfl
    · rw [Kernel.setFd_processes_congr (SameProcesses.release _).processes, Kernel.setFd_setFd]
  exact (h.flags.setFd fun he => absurd he hne).of_processes hproc

variable {flags : BitVec 32}

theorem setFdFlags (h : DescriptorsOK k) (hs : CoreOS.setFdFlags k fd flags = some k') :
    DescriptorsOK k' := by
  refine ⟨h.refs.setFdFlags hs, ?_⟩
  obtain ⟨t, p, -, hp, -, hne, rfl⟩ := setFdFlags_cases hs
  refine ⟨h.pipes.of_pipes rfl, h.flags.setProcess fun x hx => ?_⟩
  dsimp only at hx ⊢
  have hxfd : x ≠ fd := fun he => hne (he ▸ hx)
  rw [update_of_ne hxfd]
  exact h.flags _ p x hp hx

theorem setStatusFlags (h : DescriptorsOK k) (hs : CoreOS.setStatusFlags k fd flags = some k') :
    DescriptorsOK k' := by
  have hentries := SameEntries.setStatusFlags hs
  refine ⟨hentries.exact h.refs, ?_, h.flags.of_processes hentries.processes⟩
  have hpipe : FdPipe.setStatusFlags k fd flags = some k' → PipesClean k' := by
    intro hs
    obtain ⟨⟨j, isReadEnd⟩, hj, rfl⟩ := map_eq_some_iff.mp hs
    have hu := FdPipe.getMut_inUse hj
    cases isReadEnd <;> exact h.pipes.setUsed hu
  unfold CoreOS.setStatusFlags at hs
  split at hs
  · cases hs
    exact h.pipes
  · cases hs
    exact h.pipes
  · cases hs
    exact h.pipes
  · cases hs
    exact h.pipes
  · unfold FdOpen.setStatusFlags at hs
    split at hs
    · cases hs
      exact h.pipes.of_pipes rfl
    · cases hs
  · exact hpipe hs
  · exact hpipe hs
  · cases hs
  · cases hs

/-! ### Pipes -/

variable {j : Nat}

theorem alloc_pipe (h : DescriptorsOK k) (ha : FdPipe.alloc k = some (j, k')) :
    j < maxPipes ∧ k.pipes j = .empty ∧ k' = k.setPipe j .new := by
  unfold FdPipe.alloc at ha
  split at ha
  next i hi =>
    cases ha
    have hfree := List.find?_some hi
    rw [Bool.not_eq_true'] at hfree
    exact ⟨List.mem_range.mp (List.mem_of_find?_eq_some hi), h.pipes _ hfree, rfl⟩
  · cases ha

theorem clear_new (hj : j < maxPipes) (hempty : k.pipes j = .empty) :
    FdPipe.clear (k.setPipe j .new) j = k := by
  rw [FdPipe.clear, if_pos hj]
  simp only [Kernel.setPipe, Function.update_idem]
  rw [← hempty, Function.update_eq_self]

/-- **A pipe that cannot be made leaves nothing behind.** -/
theorem allocPipe_fails (h : DescriptorsOK k) (hf : (CoreOS.allocPipe k).1 = none) : (CoreOS.allocPipe k).2 = k := by
  unfold CoreOS.allocPipe at hf ⊢
  split
  · rfl
  next j k1 ha =>
    obtain ⟨hj, hempty, rfl⟩ := h.alloc_pipe ha
    simp only [ha] at hf
    split
    · exact clear_new hj hempty
    next r k2 hr =>
      obtain ⟨t, p, ht, hp, hlt, he, rfl⟩ := allocSpecificFd_cases hr
      simp only [hr] at hf
      split
      next q k3 hq =>
        simp only [hq] at hf
        cases hf
      · -- the read descriptor is closed again: emptied, as it was, and released
        have ht2 : ((k.setPipe j .new).setFd t.groupSlot r (.pipeRead j) 0).currentThread = some t := by simpa using ht
        have hp2 := Kernel.setFd_processes r (.pipeRead j) 0 hp
        have hclose := closeFd_eq ht2 hp2 hlt (by simp)
        simp only [update_self] at hclose
        have hflags : p.fdFlags r = 0 := h.flags _ p r hp he
        rw [hclose, Option.getD_some, clear_releaseRead, Kernel.setFd_setFd, Kernel.setFd_self hp he hflags]
        exact clear_new hj hempty

theorem allocPipe (h : DescriptorsOK k) : DescriptorsOK (CoreOS.allocPipe k).2 := by
  cases hr : (CoreOS.allocPipe k).1 with
  | none =>
    rw [h.allocPipe_fails hr]
    exact h
  | some x =>
    refine ⟨h.refs.allocPipe, ?_⟩
    unfold CoreOS.allocPipe at hr ⊢
    split
    · exact h.clean
    next j k1 ha =>
      obtain ⟨-, -, rfl⟩ := h.alloc_pipe ha
      simp only [ha] at hr
      have hnew : EntriesClean (k.setPipe j .new) := ⟨h.pipes.setUsed rfl, h.flags.of_processes rfl⟩
      split
      next hnone =>
        simp only [hnone] at hr
        cases hr
      next r k2 hk2 =>
        simp only [hk2] at hr
        have hread := allocSpecificFd hnew (fun he => by cases he) hk2
        split
        next q k3 hk3 => exact allocSpecificFd hread (fun he => by cases he) hk3
        next hnone =>
          simp only [hnone] at hr
          cases hr

/-- **A duplicate that cannot be made leaves everything as it was**: the source
holds its own reference, so that what fails, fails before the destination is
given up. -/
theorem dupFd_fails (h : DescriptorsOK k) (hf : (CoreOS.dupFd k oldFd minFd newFd cloexec).1 = none) :
    (CoreOS.dupFd k oldFd minFd newFd cloexec).2 = k := by
  rcases dupFd_cases k oldFd minFd newFd cloexec with hr | ⟨t, p, fd, k1, -, hp, hold, hne, hlt, hfd, hk1, hr⟩
  · exact hr
  obtain ⟨k1', p1, hk1', hp1, hex1, -, hold1⟩ := h.refs.emptied hp hlt hfd
  obtain rfl : k1 = k1' := hk1.symm.trans hk1'
  obtain ⟨k2, hk2, -⟩ := Exact.retain hex1 (hold1 ▸ Kernel.mem_held hp1 hold) hne
  rcases hr with ⟨-, hnone⟩ | ⟨k2', -, hr⟩
  · cases hk2.symm.trans hnone
  · rw [hr] at hf
    cases hf

theorem fdOrBad {r : Option Nat × Kernel} (h : DescriptorsOK r.2) : DescriptorsOK (CoreOS.fdOrBad r).2 := by
  rwa [fdOrBad_kernel]

/-! ### `pipe` and `pipe2` -/

theorem allocPipe_ends {r q : Nat} (h : DescriptorsOK k) (hs : CoreOS.allocPipe k = (some (r, q), k')) :
    r < maxFds ∧ q < maxFds ∧ (FdPipe.getMut k' r).isSome = true ∧ (FdPipe.getMut k' q).isSome = true := by
  obtain ⟨j, hr, hq, -, -⟩ := h.refs.allocPipe_fresh hs
  have hex : RefsExact k' := by
    have := h.refs.allocPipe
    rwa [hs] at this
  obtain ⟨s, p, hp, hrlt, hrj⟩ := getFdTarget_held hr
  obtain ⟨-, -, -, hqlt, -⟩ := getFdTarget_held hq
  have hlive : FdPipe.live k' j = true := Exact.live_pipe hex (.inl (hrj ▸ Kernel.mem_held hp hrlt))
  refine ⟨hrlt, hqlt, ?_, ?_⟩
  · simp [FdPipe.getMut, hr, FdPipe.resolve, hlive]
  · simp [FdPipe.getMut, hq, FdPipe.resolve, hlive]

end DescriptorsOK

variable {fd : Nat}

theorem FdPipe.getMut_cases (h : (getMut k fd).isSome = true) :
    ∃ t p j isReadEnd, k.currentThread = some t ∧ k.processes t.groupSlot = some p ∧ fd < maxFds ∧
      p.fds fd ≠ .empty ∧ getMut k fd = some (j, isReadEnd) ∧
      (getFdTarget k fd = some (.pipeRead j) ∨ getFdTarget k fd = some (.pipeWrite j)) := by
  obtain ⟨⟨j, isReadEnd⟩, hj⟩ := Option.isSome_iff_exists.mp h
  obtain ⟨target, htarget, hres⟩ := bind_eq_some_iff.mp hj
  have hend : target = .pipeRead j ∨ target = .pipeWrite j := by
    unfold resolve at hres
    split at hres
    · split at hres
      · cases hres
        exact .inl rfl
      · cases hres
    · split at hres
      · cases hres
        exact .inr rfl
      · cases hres
    · cases hres
  obtain ⟨p, hp, hfd⟩ := bind_eq_some_iff.mp htarget
  obtain ⟨t, ht, hp⟩ := bind_eq_some_iff.mp hp
  split at hfd
  · cases hfd
  next hlt =>
    split at hfd
    · cases hfd
    next hne =>
      cases hfd
      refine ⟨t, p, j, isReadEnd, ht, hp, Nat.not_le.mp hlt, fun he => hne he, hj, ?_⟩
      rcases hend with he | he
      · exact .inl (htarget.trans (congrArg some he))
      · exact .inr (htarget.trans (congrArg some he))

theorem FdPipe.getMut_congr (hcur : k'.currentProcess.map Process.fds = k.currentProcess.map Process.fds)
    (hpipes : ∀ j, (k'.pipes j).inUse = (k.pipes j).inUse) (fd : Nat) : getMut k' fd = getMut k fd := by
  have htarget : getFdTarget k' fd = getFdTarget k fd := by
    simp only [getFdTarget, Option.bind_eq_bind]
    cases hk : k.currentProcess with
    | none =>
      rw [hk, Option.map_none, Option.map_eq_none_iff] at hcur
      rw [hcur]
    | some p =>
      rw [hk, Option.map_some] at hcur
      obtain ⟨p', hp', hfds⟩ := map_eq_some_iff.mp hcur
      rw [hp', bind_some, bind_some, hfds]
  have hlive : ∀ j, live k' j = live k j := fun j => by rw [live, live, hpipes]
  have hres : ∀ t, resolve k' t = resolve k t := fun t => by
    cases t <;> simp only [resolve, hlive]
  rw [getMut, htarget, getMut]
  exact congrArg _ (funext hres)

theorem currentProcess_of {t : Thread} {p : Process} (ht : k.currentThread = some t)
    (hp : k.processes t.groupSlot = some p) : k.currentProcess = some p := by
  rw [Kernel.currentProcess, ht, bind_some, hp]

theorem setCloexec_pipe (h : (FdPipe.getMut k fd).isSome = true) :
    ∃ k', setCloexec k fd true = some k' ∧ ∀ x, FdPipe.getMut k' x = FdPipe.getMut k x := by
  obtain ⟨t, p, j, isReadEnd, ht, hp, hlt, hne, -, -⟩ := FdPipe.getMut_cases h
  refine ⟨k.setProcess t.groupSlot (some { p with fdFlags := Function.update p.fdFlags fd fdCloexec }), ?_, ?_⟩
  · simp only [setCloexec, setFdFlags, ht, hp, Option.bind_eq_bind, bind_some,
      if_neg (not_or.mpr ⟨Nat.not_le.mpr hlt, hne⟩), if_true]
  · refine FdPipe.getMut_congr ?_ fun _ => rfl
    rw [currentProcess_of ht hp, currentProcess_of (k := k.setProcess _ _) ht (update_self ..)]
    rfl

theorem setStatusFlags_pipe {flags : BitVec 32} (h : (FdPipe.getMut k fd).isSome = true) :
    ∃ k', setStatusFlags k fd flags = some k' ∧ ∀ x, FdPipe.getMut k' x = FdPipe.getMut k x := by
  obtain ⟨t, p, j, isReadEnd, -, -, -, -, hj, htarget⟩ := FdPipe.getMut_cases h
  have hset : setStatusFlags k fd flags = FdPipe.setStatusFlags k fd flags := by
    rcases htarget with htarget | htarget <;> simp only [setStatusFlags, htarget]
  refine ⟨_, hset.trans (congrArg (Option.map _) hj), FdPipe.getMut_congr rfl fun x => ?_⟩
  by_cases hx : x = j
  · subst hx
    cases isReadEnd <;> simp
  · simp [hx]

theorem pipe2End_pipe (flags : BitVec 64) (h : (FdPipe.getMut k fd).isSome = true) :
    ∃ k', pipe2End k flags fd = (.ok 0, k') ∧ ∀ x, FdPipe.getMut k' x = FdPipe.getMut k x := by
  obtain ⟨k1, hk1, hsame1⟩ : ∃ k1, (if flags &&& oCloexec ≠ 0 then setCloexec k fd true else some k) = some k1 ∧
      ∀ x, FdPipe.getMut k1 x = FdPipe.getMut k x := by
    split
    · exact setCloexec_pipe h
    · exact ⟨k, rfl, fun _ => rfl⟩
  have h1 : (FdPipe.getMut k1 fd).isSome = true := by
    rw [hsame1]
    exact h
  obtain ⟨k2, hk2, hsame2⟩ : ∃ k2,
      (if hasFlag flags oNonblock then setStatusFlags k1 fd oNonblock else some k1) = some k2 ∧
        ∀ x, FdPipe.getMut k2 x = FdPipe.getMut k1 x := by
    split
    · exact setStatusFlags_pipe h1
    · exact ⟨k1, rfl, fun _ => rfl⟩
  refine ⟨k2, ?_, fun x => (hsame2 x).trans (hsame1 x)⟩
  simp only [pipe2End, hk1, hk2]

theorem fdOfBytes_toBytes (h : fd < maxFds) : fdOfBytes (toBytes 4 fd) = fd := by
  unfold maxFds at h
  rw [fdOfBytes, ofBytes_toBytes, Nat.mod_eq_of_lt (by omega)]
  interval_cases fd <;> rfl

namespace DescriptorsOK

variable {k k' : Kernel}

/-- **What `pipe` does**: nothing, or a pipe whose descriptors are in user memory. -/
theorem syscallPipe_cases (h : DescriptorsOK k) (user : Mem) (ptr : Nat) :
    (∃ e, syscallPipe k user ptr = (.error e, k, user)) ∨
    ∃ r q k1, CoreOS.allocPipe k = (some (r, q), k1) ∧ userRangeOk ptr 8 = true ∧
      syscallPipe k user ptr = (.ok 0, k1, store user ptr (toBytes 4 r ++ toBytes 4 q)) := by
  unfold syscallPipe
  split
  · exact .inl ⟨_, rfl⟩
  next hrange =>
    rw [not_not] at hrange
    cases hr : CoreOS.allocPipe k with | mk fds k1 =>
    have hfails := h.allocPipe_fails
    rw [hr] at hfails
    cases fds with
    | none =>
      obtain rfl : k1 = k := hfails rfl
      exact .inl ⟨_, rfl⟩
    | some x =>
      obtain ⟨r, q⟩ := x
      -- the range was checked before, so the copy succeeds
      have hcopy : copyToUser user ptr (toBytes 4 r ++ toBytes 4 q) =
          some (store user ptr (toBytes 4 r ++ toBytes 4 q)) := by
        rw [copyToUser, List.length_append, toBytes_length, toBytes_length, if_pos hrange]
      refine .inr ⟨r, q, k1, rfl, hrange, ?_⟩
      simp only [hcopy]

theorem syscallPipe (h : DescriptorsOK k) (user : Mem) (ptr : Nat) : DescriptorsOK (CoreOS.syscallPipe k user ptr).2.1 := by
  rcases h.syscallPipe_cases user ptr with ⟨e, hr⟩ | ⟨r, q, k1, ha, -, hr⟩
  · rw [hr]
    exact h
  · have hpipe := h.allocPipe
    rw [ha] at hpipe
    rw [hr]
    exact hpipe

theorem pipe2End (h : DescriptorsOK k) (flags : BitVec 64) (fd : Nat) : DescriptorsOK (CoreOS.pipe2End k flags fd).2 := by
  unfold CoreOS.pipe2End
  split
  · exact h
  next k1 hk1 =>
    have h1 : DescriptorsOK k1 := by
      split at hk1
      · exact h.setFdFlags hk1
      · cases hk1
        exact h
    split
    · exact h1
    next k2 hk2 =>
      split at hk2
      · exact h1.setStatusFlags hk2
      · cases hk2
        exact h1

/-- **What `pipe2` does**: nothing, or a pipe with its flags set. The
descriptors it reads back are those `pipe` wrote, and lead to the new pipe. -/
theorem syscallPipe2_cases (h : DescriptorsOK k) (user : Mem) (ptr : Nat) (flags : BitVec 64) :
    (∃ e, syscallPipe2 k user ptr flags = (.error e, k, user)) ∨
    ∃ k' user', syscallPipe2 k user ptr flags = (.ok 0, k', user') ∧ DescriptorsOK k' := by
  unfold syscallPipe2
  split
  · exact .inl ⟨_, rfl⟩
  rcases h.syscallPipe_cases user ptr with ⟨e, hr⟩ | ⟨r, q, k1, ha, hrange, hr⟩
  · rw [hr]
    exact .inl ⟨e, rfl⟩
  have h1 : DescriptorsOK k1 := by
    have hpipe := h.allocPipe
    rwa [ha] at hpipe
  obtain ⟨hrlt, hqlt, hrend, hqend⟩ := h.allocPipe_ends ha
  have hback : copyFromUser (store user ptr (toBytes 4 r ++ toBytes 4 q)) ptr 8 = some (toBytes 4 r ++ toBytes 4 q) := by
    have hload := load_store user ptr (toBytes 4 r ++ toBytes 4 q)
    rw [List.length_append, toBytes_length, toBytes_length] at hload
    rw [copyFromUser, if_pos hrange, hload]
  obtain ⟨k2, hk2, hsame⟩ := pipe2End_pipe flags hrend
  rw [← hsame] at hqend
  obtain ⟨k3, hk3, -⟩ := pipe2End_pipe flags hqend
  have h3 : DescriptorsOK k3 := by
    have h2 := h1.pipe2End flags r
    rw [hk2] at h2
    have h3 := h2.pipe2End flags q
    rwa [hk3] at h3
  refine .inr ⟨k3, store user ptr (toBytes 4 r ++ toBytes 4 q), ?_, h3⟩
  rw [hr]
  simp only [hback, List.take_left' (toBytes_length (n := 4)), List.drop_left' (toBytes_length (n := 4)),
    fdOfBytes_toBytes hrlt, fdOfBytes_toBytes hqlt, hk2, hk3]

theorem syscallPipe2 (h : DescriptorsOK k) (user : Mem) (ptr : Nat) (flags : BitVec 64) :
    DescriptorsOK (CoreOS.syscallPipe2 k user ptr flags).2.1 := by
  rcases h.syscallPipe2_cases user ptr flags with ⟨e, hr⟩ | ⟨k', user', hr, hk'⟩
  · rw [hr]
    exact h
  · rw [hr]
    exact hk'

/-! ### Processes -/

variable {slot : Slot}

theorem forkCurrent {pid : Nat} (h : DescriptorsOK k) (hslot : k.processes slot = none)
    (hs : CoreOS.forkCurrent k slot = some (pid, k')) : DescriptorsOK k' := by
  refine ⟨h.refs.forkCurrent hslot hs, ?_⟩
  simp only [CoreOS.forkCurrent, Option.bind_eq_bind, bind_eq_some_iff, Option.some.injEq, Prod.mk.injEq] at hs
  obtain ⟨parent, hparent, t, -, -, rfl⟩ := hs
  obtain ⟨t', -, hp⟩ : ∃ t', k.currentThread = some t' ∧ k.processes t'.groupSlot = some parent :=
    bind_eq_some_iff.mp hparent
  have hbump : PipesClean k.bumpPid := h.pipes.of_pipes rfl
  have hpipes : PipesClean ((fdList parent.fds).foldl CoreOS.forkRetain k.bumpPid) :=
    hbump.foldl fun t ht => ht.forkRetain t
  have hsame : SameProcesses k.bumpPid ((fdList parent.fds).foldl CoreOS.forkRetain k.bumpPid) :=
    .foldl fun _ t => .forkRetain t
  have hflags : FlagsClean ((fdList parent.fds).foldl CoreOS.forkRetain k.bumpPid) :=
    h.flags.of_processes hsame.processes
  exact ⟨hpipes.of_pipes rfl,
    (hflags.setProcess (g := slot) (p := parent.forkFrom k.nextPid) fun fd => h.flags _ parent fd hp).of_processes rfl⟩

theorem spawnNamed {name : List Char} (h : DescriptorsOK k) (hslot : k.processes slot = none) :
    DescriptorsOK (k.spawnNamed slot name).2 := by
  refine ⟨h.refs.spawnNamed hslot, h.pipes.of_pipes rfl, ?_⟩
  have hleader : FlagsClean (k.setProcess slot (some (.newLeader k.nextPid k.currentPid name))) :=
    h.flags.setProcess fun _ _ => rfl
  exact hleader.of_processes rfl

theorem reapSlot {code : Int} (h : DescriptorsOK k) (hs : CoreOS.reapSlot k slot = some (code, k')) :
    DescriptorsOK k' := by
  refine ⟨h.refs.reapSlot hs, ?_⟩
  unfold CoreOS.reapSlot at hs
  split at hs
  next p hp =>
    split at hs
    · cases hs
      have hpipes : PipesClean (releaseFds k p.fds) := h.pipes.foldl fun t ht => ht.release t
      have hsame : SameProcesses k (releaseFds k p.fds) := .foldl fun _ t => .release t
      refine ⟨hpipes.of_pipes rfl, fun s q fd hq he => ?_⟩
      change Function.update (releaseFds k p.fds).processes slot none s = some q at hq
      by_cases hsl : s = slot
      · subst hsl
        rw [update_self] at hq
        cases hq
      · rw [update_of_ne hsl, hsame.processes] at hq
        exact h.flags s q fd hq he
    · cases hs
  · cases hs

theorem freeSlot_none {pml4 : Nat} {layout : Mem → Nat → Mem × Nat}
    (hfree : (k.freeTaskSlot.all fun slot => (k.processes slot).isNone) = true)
    (hs : k.spawnTask pml4 layout = some (slot, k')) : k'.processes slot = none := by
  have hspawned := Kernel.spawnTask_spec hs
  rw [hspawned.free] at hfree
  rw [hspawned.processes]
  simpa using hfree

theorem life {op : LifeOp} (h : DescriptorsOK k) (htidy : EofOp.Tidy k (.call (.life op))) (hs : op.step k = some k') :
    DescriptorsOK k' := by
  cases op with
  | fork frame pml4 =>
    obtain ⟨⟨pid, k1⟩, hf, rfl⟩ := map_eq_some_iff.mp hs
    unfold forkTask at hf
    split at hf
    · cases hf
      exact h
    next slot k2 hsp =>
      obtain ⟨⟨pid', k3⟩, hfork, he⟩ := map_eq_some_iff.mp hf
      cases he
      exact (h.same (.spawnTask hsp)).forkCurrent (freeSlot_none htidy hsp) hfork
  | exec entry stackTop pml4 name =>
    cases hs
    unfold execTask
    split
    · exact h
    next slot k2 hsp => exact (h.same (.spawnTask hsp)).spawnNamed (freeSlot_none htidy hsp)
  | cloneThread frame c b =>
    obtain ⟨⟨tid, k1⟩, hf, rfl⟩ := map_eq_some_iff.mp hs
    exact h.same (.cloneThread hf)
  | exit | exitGroup | kill | tkill | tgkill | finish | fault => exact h.same (LifeOp.sameRecords rfl hs).sameFds
  | reap slot =>
    cases hs
    cases hr : CoreOS.reapSlot k slot with
    | none => exact h
    | some r => exact h.reapSlot hr
  | other phys f g => cases htidy
  | switch =>
    cases hs
    cases hsw : k.nextTaskSwitch with
    | none => exact h
    | some x => exact h.same (.nextTaskSwitch hsw)

/-! ### Calls -/

theorem fcntl {fd cmd : Nat} {arg : BitVec 64} (h : DescriptorsOK k) : DescriptorsOK (syscallFcntl k fd cmd arg).2 := by
  unfold syscallFcntl
  split
  · exact fdOrBad h.dupFd
  split
  · exact fdOrBad h.dupFd
  split
  · split <;> exact h
  split
  · split
    next k' hk' => exact h.setFdFlags hk'
    · exact h
  split
  · split <;> exact h
  split
  · split
    next k' hk' => exact h.setStatusFlags hk'
    · exact h
  · exact h

theorem syscallOpen {raw : List Byte} {flags : BitVec 64} (h : DescriptorsOK k)
    (hproc : k.currentProcess.isSome = true) : DescriptorsOK (CoreOS.syscallOpen k raw flags).2 := by
  rcases syscallOpen_cases k raw flags with ⟨fs, -, hr | ⟨idx, hr⟩⟩ | ⟨target, fd, k', ho, hr⟩ | ⟨fd, hr⟩
  · rw [hr]
    exact h.setFs
  · rw [hr]
    exact h.setFs.openFile hproc
  · rw [hr]
    exact h.openCharDevice ho
  · rw [hr]
    exact h.dupFd

theorem call {op : AccessOp} (h : DescriptorsOK k) (htidy : EofOp.Tidy k (.call op)) (hs : op.call k = some k') :
    DescriptorsOK k' := by
  cases op with
  | life op => exact h.life htidy hs
  | syscallOpen raw flags => exact Option.some.inj hs ▸ h.syscallOpen htidy
  | close fd =>
    cases hs
    unfold syscallClose
    split
    next k1 hk1 => exact h.closeFd hk1
    · exact h
  | dup oldFd => exact Option.some.inj hs ▸ fdOrBad h.dupFd
  | dup3 oldFd newFd flags =>
    cases hs
    unfold syscallDup3
    split
    · exact h
    split
    · exact h
    · exact fdOrBad h.dupFd
  | pipe => exact Option.some.inj hs ▸ h.allocPipe
  | fcntl fd cmd arg => exact Option.some.inj hs ▸ h.fcntl
  | read | readv | pread64 | sendfile | write | writev | pwrite64 | lseek | ftruncate | touch | rm | unlinkat =>
    exact h.moves (AccessOp.moves hs rfl)

theorem start {phys : Phys} {code : CodeAddrs} {kernelPml4 stackBase : Nat} {fs : Option RamFS} :
    DescriptorsOK (AccessRun.start phys code kernelPml4 stackBase fs).kernel :=
  ⟨.start, fun _ _ => rfl, fun _ _ _ hp _ => by cases hp⟩

end DescriptorsOK

/-! ## Runs -/

/-- Any call on files and descriptors, `pipe` and `pipe2` with the caller's
memory, and any step in the life of processes; `other` is what other calls do to
the records, which is nothing to their descriptors. -/
inductive DescriptorOp
  | call (op : AccessOp)
  | pipe (user : Mem) (pipefdPtr : Nat)
  | pipe2 (user : Mem) (pipefdPtr : Nat) (flags : BitVec 64)
  | other (phys : Phys) (f : Process → Process) (g : Thread → Thread)

namespace DescriptorOp

def step (k : Kernel) : DescriptorOp → Option Kernel
  | call op => op.call k
  | pipe user pipefdPtr => some (syscallPipe k user pipefdPtr).2.1
  | pipe2 user pipefdPtr flags => some (syscallPipe2 k user pipefdPtr flags).2.1
  | other phys f g => some { k with
      phys
      processes := fun x => (k.processes x).map fun p => { p.keepLife f with fds := p.fds, fdFlags := p.fdFlags }
      threads := fun x => (k.threads x).map (·.keepLife g) }

/-- The condition on a step: a new process finds its slot without a process
record, and files are opened by processes. -/
def Tidy (k : Kernel) : DescriptorOp → Prop
  | call op => EofOp.Tidy k (.call op)
  | _ => True

instance {k : Kernel} {op : DescriptorOp} : Decidable (op.Tidy k) := by
  unfold Tidy
  split <;> infer_instance

end DescriptorOp

theorem DescriptorsOK.step {op : DescriptorOp} (h : DescriptorsOK k) (htidy : op.Tidy k) (hs : op.step k = some k') :
    DescriptorsOK k' := by
  cases op with
  | call op => exact h.call htidy hs
  | pipe user ptr => exact Option.some.inj hs ▸ h.syscallPipe user ptr
  | pipe2 user ptr flags => exact Option.some.inj hs ▸ h.syscallPipe2 user ptr flags
  | other phys f g =>
    cases hs
    refine h.same ⟨rfl, rfl, fun x => ?_, fun x => ?_, rfl⟩
    · change Option.map Process.fds (Option.map _ (k.processes x)) = _
      rw [Option.map_map]
      rfl
    · change Option.map Process.fdFlags (Option.map _ (k.processes x)) = _
      rw [Option.map_map]
      rfl

/-! ## Failing calls -/

/-- The calls that make descriptors, but for the opening of files. -/
inductive DescriptorCall
  | pipe (user : Mem) (pipefdPtr : Nat)
  | pipe2 (user : Mem) (pipefdPtr : Nat) (flags : BitVec 64)
  | dup (oldFd : Nat)
  | dup3 (oldFd newFd : Nat) (flags : BitVec 64)
  | dupfd (fd : Nat) (arg : BitVec 64)
  | dupfdCloexec (fd : Nat) (arg : BitVec 64)
  | openDevice (target : FdTarget)
  | openNull (flags : BitVec 64)
  | openZero (flags : BitVec 64)
  | openTty (flags : BitVec 64)

namespace DescriptorCall

def run (k : Kernel) : DescriptorCall → Except SysError Nat × Kernel
  | pipe user pipefdPtr => ((syscallPipe k user pipefdPtr).1, (syscallPipe k user pipefdPtr).2.1)
  | pipe2 user pipefdPtr flags => ((syscallPipe2 k user pipefdPtr flags).1, (syscallPipe2 k user pipefdPtr flags).2.1)
  | dup oldFd => syscallDup k oldFd
  | dup3 oldFd newFd flags => syscallDup3 k oldFd newFd flags
  | dupfd fd arg => syscallFcntl k fd fDupfd arg
  | dupfdCloexec fd arg => syscallFcntl k fd fDupfdCloexec arg
  | openDevice target => fdOrBad (openSpecialPath.openDevice k target)
  | openNull flags => syscallOpen k devNull flags
  | openZero flags => syscallOpen k devZero flags
  | openTty flags => syscallOpen k devTty flags

end DescriptorCall

variable {e : SysError}

theorem DescriptorsOK.fdOrBad_dup {oldFd minFd : Nat} {newFd : Option Nat} {cloexec : Bool} (h : DescriptorsOK k)
    (hf : (CoreOS.fdOrBad (CoreOS.dupFd k oldFd minFd newFd cloexec)).1 = .error e) :
    (CoreOS.fdOrBad (CoreOS.dupFd k oldFd minFd newFd cloexec)).2 = k := by
  rw [fdOrBad_kernel]
  apply h.dupFd_fails
  cases hr : CoreOS.dupFd k oldFd minFd newFd cloexec with | mk fd k' =>
  rw [hr] at hf
  cases fd with
  | none => rfl
  | some fd => cases hf

theorem DescriptorsOK.run_fails {c : DescriptorCall} (h : DescriptorsOK k) (hf : (c.run k).1 = .error e) :
    (c.run k).2 = k := by
  have hdevice : ∀ raw flags, openName k raw = none → (CoreOS.syscallOpen k raw flags).1 = .error e →
      (CoreOS.syscallOpen k raw flags).2 = k := by
    intro raw flags hname hf
    rcases syscallOpen_eq k raw flags with ⟨name, hsome, -⟩ | ⟨-, hfails⟩
    · rw [hname] at hsome
      cases hsome
    · exact hfails e _ (Prod.ext hf rfl)
  cases c with
  | pipe user ptr =>
    rcases h.syscallPipe_cases user ptr with ⟨e', hr⟩ | ⟨r, q, k1, -, -, hr⟩
    · simp only [DescriptorCall.run, hr]
    · simp only [DescriptorCall.run, hr] at hf
      cases hf
  | pipe2 user ptr flags =>
    rcases h.syscallPipe2_cases user ptr flags with ⟨e', hr⟩ | ⟨k', user', hr, -⟩
    · simp only [DescriptorCall.run, hr]
    · simp only [DescriptorCall.run, hr] at hf
      cases hf
  | dup oldFd => exact h.fdOrBad_dup hf
  | dup3 oldFd newFd flags =>
    simp only [DescriptorCall.run, syscallDup3] at hf ⊢
    split at hf
    next hflags => rw [if_pos hflags]
    next hflags =>
      rw [if_neg hflags]
      split at hf
      next hsame => rw [if_pos hsame]
      next hsame =>
        rw [if_neg hsame]
        exact h.fdOrBad_dup hf
  | dupfd fd arg => exact h.fdOrBad_dup hf
  | dupfdCloexec fd arg => exact h.fdOrBad_dup hf
  | openDevice target =>
    simp only [DescriptorCall.run, openSpecialPath.openDevice] at hf ⊢
    split at hf
    · cases hf
    · rfl
  | openNull flags => exact hdevice devNull flags (by rw [openName, if_pos (.inl rfl)]) hf
  | openZero flags => exact hdevice devZero flags (by rw [openName, if_pos (.inr (.inl rfl))]) hf
  | openTty flags => exact hdevice devTty flags (by rw [openName, if_pos (.inr (.inr (.inl rfl)))]) hf

/-- **A descriptor call that fails changes nothing.** In every state that a
tidy run of the descriptor operations reaches from boot: when `pipe`, `pipe2`,
`dup`, `dup3`, `F_DUPFD`, `F_DUPFD_CLOEXEC` or the opening of a character device
returns an error, the kernel is the one of before, with every descriptor, its
flags, the open-file table and the pipes with what is in them. -/
theorem failed_descriptor_call_changes_nothing (phys : Phys) (code : CodeAddrs) (kernelPml4 stackBase : Nat)
    (fs : Option RamFS) (ops : List DescriptorOp) (k : Kernel)
    (htidy : Lts.Meets DescriptorOp.step DescriptorOp.Tidy (AccessRun.start phys code kernelPml4 stackBase fs).kernel ops)
    (hrun : Lts.exec DescriptorOp.step (AccessRun.start phys code kernelPml4 stackBase fs).kernel ops = some k)
    (c : DescriptorCall) (e : SysError) (hf : (c.run k).1 = .error e) : (c.run k).2 = k := by
  have h : DescriptorsOK k :=
    Lts.exec_invariant_of_meets DescriptorsOK (fun _ _ _ hk ht hs => hk.step ht hs) .start htidy hrun
  exact h.run_fails hf

/-- A program duplicates its input until one descriptor is left. -/
def oneDescriptorLeft : List DescriptorOp :=
  [.call (.life (.exec 0 0 0 [])), .call (.life .switch)] ++ List.replicate 12 (.call (.dup 0))

/-- A pipe then finds a descriptor for its read end only. -/
theorem failed_descriptor_call_changes_nothing_pipe :
    ∃ k e, Lts.exec DescriptorOp.step (AccessRun.start allFree ⟨0, 0⟩ 0 0 none).kernel oneDescriptorLeft = some k ∧
      ((DescriptorCall.pipe (fun _ => 0) 0x1000).run k).1 = .error e ∧
      ((DescriptorCall.pipe (fun _ => 0) 0x1000).run k).2 = k := by
  have hrun : (Lts.exec DescriptorOp.step (AccessRun.start allFree ⟨0, 0⟩ 0 0 none).kernel oneDescriptorLeft).map
      (fun k => ((DescriptorCall.pipe (fun _ => 0) 0x1000).run k).1.toOption) = some none := by decide +kernel
  obtain ⟨k, hk, hnone⟩ := map_eq_some_iff.mp hrun
  obtain ⟨e, he⟩ : ∃ e, ((DescriptorCall.pipe (fun _ => 0) 0x1000).run k).1 = .error e := by
    cases hr : ((DescriptorCall.pipe (fun _ => 0) 0x1000).run k).1 with
    | error e => exact ⟨e, rfl⟩
    | ok v =>
      rw [hr] at hnone
      cases hnone
  exact ⟨k, e, hk, he,
    failed_descriptor_call_changes_nothing allFree ⟨0, 0⟩ 0 0 none _ k (by decide +kernel) hk _ e he⟩

end CoreOS
