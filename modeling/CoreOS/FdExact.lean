/-
The references that descriptor tables hold, and what it means for the open-file
and pipe tables to count them (`Exact`).
-/
import Mathlib.Algebra.BigOperators.Fin
import CoreOS.Fd
import CoreOS.Lib.RefCount

namespace CoreOS

open Function (update apply_update Injective update_eq_self)

open RefCount

/-! ## The references the processes hold -/

def heldBy : Option Process → Multiset FdTarget
  | none => 0
  | some p => entries maxFds p.fds

namespace Kernel

/-- Every target of every descriptor of every process record, zombies
included. -/
def held (k : Kernel) : Multiset FdTarget := ∑ s, heldBy (k.processes s)

/-- The entry of descriptor `e.2` of the process in slot `e.1`. -/
def entry (k : Kernel) (e : Slot × Fin maxFds) : Option FdTarget := (k.processes e.1).map fun p => p.fds e.2

/-- The number of (process record, descriptor) pairs whose entry is `t`. -/
def entryCount (k : Kernel) (t : FdTarget) : Nat :=
  (Finset.univ.filter fun e : Slot × Fin maxFds => k.entry e = some t).card

variable {t : FdTarget}

theorem count_entries {n : Nat} {fds : Nat → FdTarget} :
    (entries n fds).count t = ∑ fd : Fin n, if fds fd = t then 1 else 0 := by
  rw [Fin.sum_univ_eq_sum_range (fun fd => if fds fd = t then 1 else 0) n, ← Finset.card_filter, entries,
    Multiset.count_map]
  simp only [Finset.card_def, Finset.filter_val, Finset.range_val, eq_comm]

variable {k : Kernel}

theorem entryCount_eq : k.entryCount t = k.held.count t := by
  rw [entryCount, Finset.card_filter, Fintype.sum_prod_type, held, Multiset.count_sum']
  apply Finset.sum_congr rfl
  intro s _
  cases hp : k.processes s with
  | none => simp [entry, hp, heldBy]
  | some p => simp [entry, hp, heldBy, count_entries]

theorem held_congr {k' : Kernel} (h : ∀ s, (k'.processes s).map Process.fds = (k.processes s).map Process.fds) :
    k'.held = k.held := by
  unfold held
  apply Finset.sum_congr rfl
  intro s _
  have := h s
  cases hk : k.processes s <;> cases hk' : k'.processes s <;> simp_all [heldBy]

theorem held_setProcess {s : Slot} {p : Option Process} :
    heldBy (k.processes s) + (k.setProcess s p).held = heldBy p + k.held := by
  have hcomp : (fun j => heldBy ((k.setProcess s p).processes j)) =
      update (fun j => heldBy (k.processes j)) s (heldBy p) := by
    funext j
    rw [setProcess_processes]
    exact apply_update (fun _ => heldBy) k.processes s p j
  rw [held, hcomp, held]
  exact sum_update

variable {p : Process} {fd : Nat}

theorem mem_held {s : Slot} (hp : k.processes s = some p) (hfd : fd < maxFds) :
    p.fds fd ∈ k.held := by
  apply Multiset.mem_sum.mpr
  exact ⟨s, Finset.mem_univ s, by rw [hp]; exact mem_entries hfd⟩

theorem mem_held_iff :
    t ∈ k.held ↔ ∃ s p fd, k.processes s = some p ∧ fd < maxFds ∧ p.fds fd = t := by
  constructor
  · intro h
    obtain ⟨s, -, hs⟩ := Multiset.mem_sum.mp h
    cases hp : k.processes s with
    | none => simp [hp, heldBy] at hs
    | some p =>
      rw [hp, heldBy, entries] at hs
      obtain ⟨fd, hfd, rfl⟩ := Multiset.mem_map.mp hs
      exact ⟨s, p, fd, hp, Multiset.mem_range.mp hfd, rfl⟩
  · intro h
    obtain ⟨s, p, fd, hp, hlt, rfl⟩ := h
    exact mem_held hp hlt

/-! ### One descriptor replaced -/

variable {g : Slot} {w : BitVec 32}

@[simp] theorem setFd_openFiles :
    (k.setFd g fd t w).openFiles = k.openFiles := by
  unfold setFd
  split <;> rfl

@[simp] theorem setFd_pipes :
    (k.setFd g fd t w).pipes = k.pipes := by
  unfold setFd
  split <;> rfl

@[simp] theorem setFd_currentThread :
    (k.setFd g fd t w).currentThread = k.currentThread := by
  unfold setFd
  split <;> rfl

theorem setFd_processes (fd : Nat) (t : FdTarget) (w : BitVec 32) (hp : k.processes g = some p) :
    (k.setFd g fd t w).processes g = some { p with
      fds := update p.fds fd t
      fdFlags := update p.fdFlags fd w } := by
  simp [setFd, hp]

theorem held_setFd (hp : k.processes g = some p) (hfd : fd < maxFds) :
    p.fds fd ::ₘ (k.setFd g fd t w).held = t ::ₘ k.held := by
  have hset := held_setProcess (k := k) (s := g) (p := some { p with
    fds := update p.fds fd t
    fdFlags := update p.fdFlags fd w })
  rw [hp] at hset
  have hent : p.fds fd ::ₘ entries maxFds (update p.fds fd t) = t ::ₘ entries maxFds p.fds :=
    entries_update hfd
  simp only [setFd, hp]
  apply add_left_cancel (a := entries maxFds p.fds)
  calc entries maxFds p.fds + p.fds fd ::ₘ _
      = p.fds fd ::ₘ (entries maxFds p.fds + _) := Multiset.add_cons ..
    _ = p.fds fd ::ₘ (entries maxFds (update p.fds fd t) + k.held) := by rw [← heldBy, hset]; rfl
    _ = t ::ₘ entries maxFds p.fds + k.held := by rw [← Multiset.cons_add, hent]
    _ = entries maxFds p.fds + t ::ₘ k.held := by rw [Multiset.cons_add, Multiset.add_cons]

end Kernel

/-! ## Exact tables -/

/-- An open-file entry is in use exactly while it is referenced. -/
def OpenOK (i : Nat) (f : OpenFile) : Prop := (f.inUse = true ↔ 0 < f.refs) ∧ (f.inUse = true → i < maxOpenFiles)

/-- A pipe is in use exactly while one of its ends is referenced. -/
def PipeOK (j : Nat) (p : Pipe) : Prop :=
  (p.inUse = true ↔ 0 < p.readRefs + p.writeRefs) ∧ (p.inUse = true → j < maxPipes)

/-- The counters of the tables are exact for the references `M`. -/
structure Exact (k : Kernel) (M : Multiset FdTarget) : Prop where
  openRefs : Tracks .openFile (fun i => (k.openFiles i).refs) M
  readRefs : Tracks .pipeRead (fun j => (k.pipes j).readRefs) M
  writeRefs : Tracks .pipeWrite (fun j => (k.pipes j).writeRefs) M
  openOK : ∀ i, OpenOK i (k.openFiles i)
  pipeOK : ∀ j, PipeOK j (k.pipes j)

/-- The targets no counter is kept for. -/
def FdTarget.Untracked : FdTarget → Prop
  | .openFile _ | .pipeRead _ | .pipeWrite _ => False
  | _ => True

theorem openFile_injective : Injective FdTarget.openFile := fun _ _ h => FdTarget.openFile.inj h

theorem pipeRead_injective : Injective FdTarget.pipeRead := fun _ _ h => FdTarget.pipeRead.inj h

theorem pipeWrite_injective : Injective FdTarget.pipeWrite := fun _ _ h => FdTarget.pipeWrite.inj h

namespace Exact

variable {k k' : Kernel} {M M' : Multiset FdTarget} {i j : Nat}

theorem congr (h : Exact k M) (ho : k'.openFiles = k.openFiles) (hp : k'.pipes = k.pipes) : Exact k' M := by
  obtain ⟨h₁, h2, h3, h4, h5⟩ := h
  refine ⟨?_, ?_, ?_, ?_, ?_⟩
  · rwa [ho]
  · rwa [hp]
  · rwa [hp]
  · rwa [ho]
  · rwa [hp]

variable {t : FdTarget}

theorem untracked (ht : t.Untracked) : Exact k (t ::ₘ M) ↔ Exact k M := by
  have h₁ : ∀ i, FdTarget.openFile i ≠ t := fun i he => by subst he; exact ht
  have h2 : ∀ i, FdTarget.pipeRead i ≠ t := fun i he => by subst he; exact ht
  have h3 : ∀ i, FdTarget.pipeWrite i ≠ t := fun i he => by subst he; exact ht
  constructor
  · rintro ⟨a, b, c, d, e⟩
    exact ⟨(tracks_cons_other h₁).mp a, (tracks_cons_other h2).mp b, (tracks_cons_other h3).mp c, d, e⟩
  · rintro ⟨a, b, c, d, e⟩
    exact ⟨(tracks_cons_other h₁).mpr a, (tracks_cons_other h2).mpr b, (tracks_cons_other h3).mpr c, d, e⟩

variable {f : OpenFile}

theorem setOpenFile (h : Exact k M)
    (ho : Tracks .openFile (update (fun i => (k.openFiles i).refs) i f.refs) M')
    (hr : Tracks .pipeRead (fun j => (k.pipes j).readRefs) M')
    (hw : Tracks .pipeWrite (fun j => (k.pipes j).writeRefs) M') (hf : OpenOK i f) :
    Exact (k.setOpenFile i f) M' := by
  refine ⟨?_, hr, hw, ?_, h.pipeOK⟩
  · intro x
    rw [← ho, Kernel.setOpenFile_openFiles]
    exact apply_update (fun _ => OpenFile.refs) k.openFiles i f x
  · intro x
    by_cases hx : x = i
    · subst hx
      simpa using hf
    · simpa [hx] using h.openOK x

variable {p : Pipe}

theorem setPipe (h : Exact k M) (ho : Tracks .openFile (fun i => (k.openFiles i).refs) M')
    (hr : Tracks .pipeRead (update (fun j => (k.pipes j).readRefs) j p.readRefs) M')
    (hw : Tracks .pipeWrite (update (fun j => (k.pipes j).writeRefs) j p.writeRefs) M') (hp : PipeOK j p) :
    Exact (k.setPipe j p) M' := by
  refine ⟨ho, ?_, ?_, h.openOK, ?_⟩
  · intro x
    rw [← hr, Kernel.setPipe_pipes]
    exact apply_update (fun _ => Pipe.readRefs) k.pipes j p x
  · intro x
    rw [← hw, Kernel.setPipe_pipes]
    exact apply_update (fun _ => Pipe.writeRefs) k.pipes j p x
  · intro x
    by_cases hx : x = j
    · subst hx
      simpa using hp
    · simpa [hx] using h.pipeOK x

/-! ### Live entries -/

theorem live_open (h : Exact k M) (hi : .openFile i ∈ M) : FdOpen.live k i = true := by
  have hu := (h.openOK i).1.mpr (h.openRefs.pos hi)
  simp [FdOpen.live, hu, (h.openOK i).2 hu]

theorem live_pipe (h : Exact k M) (hj : .pipeRead j ∈ M ∨ .pipeWrite j ∈ M) : FdPipe.live k j = true := by
  have hpos : 0 < (k.pipes j).readRefs + (k.pipes j).writeRefs := by
    rcases hj with hj | hj
    · exact Nat.add_pos_left (h.readRefs.pos hj) _
    · exact Nat.add_pos_right _ (h.writeRefs.pos hj)
  have hu := (h.pipeOK j).1.mpr hpos
  simp [FdPipe.live, hu, (h.pipeOK j).2 hu]

/-! ### Taking a reference -/

theorem add_open (h : Exact k M) (hrefs : f.refs = (k.openFiles i).refs + 1) (hf : OpenOK i f) :
    Exact (k.setOpenFile i f) (.openFile i ::ₘ M) := by
  refine h.setOpenFile ?_ ((tracks_cons_other (by simp)).mpr h.readRefs)
    ((tracks_cons_other (by simp)).mpr h.writeRefs) hf
  rw [hrefs]
  exact h.openRefs.cons openFile_injective

theorem add_read (h : Exact k M) (hr : p.readRefs = (k.pipes j).readRefs + 1)
    (hw : p.writeRefs = (k.pipes j).writeRefs) (hp : PipeOK j p) :
    Exact (k.setPipe j p) (.pipeRead j ::ₘ M) := by
  refine h.setPipe ((tracks_cons_other (by simp)).mpr h.openRefs) ?_ ?_ hp
  · rw [hr]
    exact h.readRefs.cons pipeRead_injective
  · rw [hw, update_eq_self]
    exact (tracks_cons_other (by simp)).mpr h.writeRefs

theorem add_write (h : Exact k M) (hr : p.readRefs = (k.pipes j).readRefs)
    (hw : p.writeRefs = (k.pipes j).writeRefs + 1) (hp : PipeOK j p) :
    Exact (k.setPipe j p) (.pipeWrite j ::ₘ M) := by
  refine h.setPipe ((tracks_cons_other (by simp)).mpr h.openRefs) ?_ ?_ hp
  · rw [hr, update_eq_self]
    exact (tracks_cons_other (by simp)).mpr h.readRefs
  · rw [hw]
    exact h.writeRefs.cons pipeWrite_injective

theorem retain (h : Exact k M) (ht : t ∈ M) (hne : t ≠ .empty) :
    ∃ k', retainFdTarget k t = some k' ∧ Exact k' (t ::ₘ M) := by
  cases t with
  | empty => exact absurd rfl hne
  | stdio _ | tty | null | zero => exact ⟨k, rfl, (untracked (by trivial)).mpr h⟩
  | openFile i =>
    have hl := h.live_open ht
    simp only [FdOpen.live, Bool.and_eq_true, decide_eq_true_eq] at hl
    refine ⟨_, if_pos (h.live_open ht), h.add_open rfl ?_⟩
    exact ⟨iff_of_true hl.2 (Nat.succ_pos _), fun _ => hl.1⟩
  | pipeRead j =>
    have hl := h.live_pipe (.inl ht)
    simp only [FdPipe.live, Bool.and_eq_true, decide_eq_true_eq] at hl
    refine ⟨_, if_pos (h.live_pipe (.inl ht)), h.add_read rfl rfl ?_⟩
    exact ⟨iff_of_true hl.2 (Nat.add_pos_left (Nat.succ_pos _) _), fun _ => hl.1⟩
  | pipeWrite j =>
    have hl := h.live_pipe (.inr ht)
    simp only [FdPipe.live, Bool.and_eq_true, decide_eq_true_eq] at hl
    refine ⟨_, if_pos (h.live_pipe (.inr ht)), h.add_write rfl rfl ?_⟩
    exact ⟨iff_of_true hl.2 (Nat.add_pos_right _ (Nat.succ_pos _)), fun _ => hl.1⟩

theorem forkRetain_eq (h : retainFdTarget k t = some k') : forkRetain k t = k' := by
  cases t with
  | empty => cases h
  | stdio _ | tty | null | zero => exact Option.some.inj h
  | openFile i =>
    simp only [retainFdTarget, FdOpen.retain, FdOpen.live, Bool.and_eq_true, decide_eq_true_eq] at h
    split at h
    next hl => simpa [CoreOS.forkRetain, hl] using h
    · cases h
  | pipeRead j =>
    simp only [retainFdTarget, FdPipe.retainRead, FdPipe.live, Bool.and_eq_true, decide_eq_true_eq] at h
    split at h
    next hl => simpa [CoreOS.forkRetain, hl] using h
    · cases h
  | pipeWrite j =>
    simp only [retainFdTarget, FdPipe.retainWrite, FdPipe.live, Bool.and_eq_true, decide_eq_true_eq] at h
    split at h
    next hl => simpa [CoreOS.forkRetain, hl] using h
    · cases h

theorem forkRetain (h : Exact k M) (ht : t ∈ M) : Exact (forkRetain k t) (t ::ₘ M) := by
  by_cases hne : t = .empty
  · subst hne
    exact (untracked (by trivial)).mpr h
  · obtain ⟨k', hk', he⟩ := h.retain ht hne
    rwa [forkRetain_eq hk']

theorem forkRetain_all {ts : List FdTarget} (h : Exact k M) (hts : ∀ t ∈ ts, t ∈ M) :
    Exact (ts.foldl CoreOS.forkRetain k) (ts + M) := by
  induction ts generalizing k M with
  | nil => simpa using h
  | cons t ts ih =>
    have h' := ih (h.forkRetain (hts t List.mem_cons_self)) fun x hx =>
      Multiset.mem_cons_of_mem (hts x (List.mem_cons_of_mem t hx))
    rwa [Multiset.add_cons, ← Multiset.cons_add, Multiset.cons_coe] at h'

/-! ### Dropping a reference -/

theorem drop_open (h : Exact k (.openFile i ::ₘ M)) (hrefs : f.refs = (k.openFiles i).refs - 1) (hf : OpenOK i f) :
    Exact (k.setOpenFile i f) M := by
  refine h.setOpenFile ?_ ((tracks_cons_other (by simp)).mp h.readRefs)
    ((tracks_cons_other (by simp)).mp h.writeRefs) hf
  rw [hrefs]
  exact h.openRefs.of_cons openFile_injective

theorem drop_read (h : Exact k (.pipeRead j ::ₘ M)) (hr : p.readRefs = (k.pipes j).readRefs - 1)
    (hw : p.writeRefs = (k.pipes j).writeRefs) (hp : PipeOK j p) : Exact (k.setPipe j p) M := by
  refine h.setPipe ((tracks_cons_other (by simp)).mp h.openRefs) ?_ ?_ hp
  · rw [hr]
    exact h.readRefs.of_cons pipeRead_injective
  · rw [hw, update_eq_self]
    exact (tracks_cons_other (by simp)).mp h.writeRefs

theorem drop_write (h : Exact k (.pipeWrite j ::ₘ M)) (hr : p.readRefs = (k.pipes j).readRefs)
    (hw : p.writeRefs = (k.pipes j).writeRefs - 1) (hp : PipeOK j p) : Exact (k.setPipe j p) M := by
  refine h.setPipe ((tracks_cons_other (by simp)).mp h.openRefs) ?_ ?_ hp
  · rw [hr, update_eq_self]
    exact (tracks_cons_other (by simp)).mp h.readRefs
  · rw [hw]
    exact h.writeRefs.of_cons pipeWrite_injective

theorem collect_readRefs : (FdPipe.collect p).readRefs = p.readRefs := by
  unfold FdPipe.collect
  split
  next hz => exact hz.1.symm
  · rfl

theorem collect_writeRefs : (FdPipe.collect p).writeRefs = p.writeRefs := by
  unfold FdPipe.collect
  split
  next hz => exact hz.2.symm
  · rfl

theorem pipeOK_collect (hj : j < maxPipes) (hu : p.inUse = true) : PipeOK j (FdPipe.collect p) := by
  refine ⟨?_, fun _ => hj⟩
  rw [collect_readRefs, collect_writeRefs]
  unfold FdPipe.collect
  split
  next hz => simp [Pipe.empty, hz]
  next hz =>
    refine iff_of_true hu ?_
    omega

/-- **A release drops exactly one reference.** -/
theorem release (h : Exact k (t ::ₘ M)) : Exact (releaseFdTarget k t) M := by
  cases t with
  | empty | stdio _ | tty | null | zero => exact (untracked (by trivial)).mp h
  | openFile i =>
    have hl := h.live_open (Multiset.mem_cons_self ..)
    have hl' := hl
    simp only [FdOpen.live, Bool.and_eq_true, decide_eq_true_eq] at hl'
    simp only [releaseFdTarget, FdOpen.release, hl, if_true]
    split
    next h1 => exact h.drop_open rfl ⟨iff_of_true hl'.2 (Nat.sub_pos_of_lt h1), fun _ => hl'.1⟩
    next h1 =>
      refine h.drop_open ?_ ⟨by simp [OpenFile.empty], fun he => by cases he⟩
      simp only [OpenFile.empty]
      omega
  | pipeRead j =>
    have hl := h.live_pipe (.inl (Multiset.mem_cons_self ..))
    have hl' := hl
    simp only [FdPipe.live, Bool.and_eq_true, decide_eq_true_eq] at hl'
    simp only [releaseFdTarget, FdPipe.releaseRead, hl, if_true]
    exact h.drop_read collect_readRefs collect_writeRefs (pipeOK_collect hl'.1 hl'.2)
  | pipeWrite j =>
    have hl := h.live_pipe (.inr (Multiset.mem_cons_self ..))
    have hl' := hl
    simp only [FdPipe.live, Bool.and_eq_true, decide_eq_true_eq] at hl'
    simp only [releaseFdTarget, FdPipe.releaseWrite, hl, if_true]
    exact h.drop_write collect_readRefs collect_writeRefs (pipeOK_collect hl'.1 hl'.2)

theorem release_all {ts : List FdTarget} (h : Exact k (ts + M)) : Exact (ts.foldl releaseFdTarget k) M := by
  induction ts generalizing k with
  | nil => simpa using h
  | cons t ts ih =>
    rw [← Multiset.cons_coe, Multiset.cons_add] at h
    exact ih h.release

/-! ### New table entries -/

theorem refs_of_free (h : Exact k M) (hi : (k.openFiles i).inUse = false) : (k.openFiles i).refs = 0 := by
  have := (h.openOK i).1
  rw [hi] at this
  simpa using this

theorem pipe_refs_of_free (h : Exact k M) (hj : (k.pipes j).inUse = false) :
    (k.pipes j).readRefs = 0 ∧ (k.pipes j).writeRefs = 0 := by
  have := (h.pipeOK j).1
  rw [hj] at this
  simpa using this

theorem alloc_open {fileIdx : Nat} {flags : BitVec 32} (h : Exact k M)
    (ha : FdOpen.alloc k fileIdx flags = some (i, k')) :
    k' = k.setOpenFile i (.new fileIdx flags) ∧ Exact k' (.openFile i ::ₘ M) ∧ .openFile i ∉ M := by
  unfold FdOpen.alloc at ha
  split at ha
  next i' hi =>
    cases ha
    have hlt : i < maxOpenFiles := List.mem_range.mp (List.mem_of_find?_eq_some hi)
    have hfree : (k.openFiles i).inUse = false := by simpa using List.find?_some hi
    have h0 := h.refs_of_free hfree
    refine ⟨rfl, h.add_open (by rw [h0]; rfl) ⟨by simp [OpenFile.new], fun _ => hlt⟩, fun hm => ?_⟩
    have := h.openRefs.pos hm
    omega
  · cases ha

theorem alloc_pipe (h : Exact k M) (ha : FdPipe.alloc k = some (j, k')) :
    k' = k.setPipe j .new ∧ Exact k' (.pipeRead j ::ₘ .pipeWrite j ::ₘ M) ∧ j < maxPipes ∧
      .pipeRead j ∉ M ∧ .pipeWrite j ∉ M := by
  unfold FdPipe.alloc at ha
  split at ha
  next j' hj =>
    cases ha
    have hlt : j < maxPipes := List.mem_range.mp (List.mem_of_find?_eq_some hj)
    have hfree : (k.pipes j).inUse = false := by simpa using List.find?_some hj
    obtain ⟨hr0, hw0⟩ := h.pipe_refs_of_free hfree
    refine ⟨rfl, h.setPipe ?_ ?_ ?_ ⟨by simp [Pipe.new], fun _ => hlt⟩, hlt, fun hm => ?_, fun hm => ?_⟩
    · rw [tracks_cons_other (by simp), tracks_cons_other (by simp)]
      exact h.openRefs
    · have := ((tracks_cons_other (by simp)).mpr h.readRefs).cons (i := j) (M := .pipeWrite j ::ₘ M)
        pipeRead_injective
      simpa [Pipe.new, hr0] using this
    · have := h.writeRefs.cons (i := j) pipeWrite_injective
      rw [tracks_cons_other (by simp)]
      simpa [Pipe.new, hw0] using this
    · have := h.readRefs.pos hm
      omega
    · have := h.writeRefs.pos hm
      omega
  · cases ha

end Exact

end CoreOS
