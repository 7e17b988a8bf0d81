/-
The memory regions of a process stay disjoint. `mmap` is the only call that
adds one, and the check it makes with saturating ends is exact because regions
start at page boundaries; everything else leaves regions as they are, takes
them away or copies them with their process.
-/
import Mathlib
import CoreOS.Clone
import CoreOS.Vm
import CoreOS.SlotReuse

namespace CoreOS

open ByteMem
open Function (update_self update_of_ne)
open Option (bind_eq_bind bind_eq_some_iff map_eq_some_iff)

/-! ## Regions -/

/-- The addresses of a region. -/
def VmRegion.range (v : VmRegion) : Set Nat := Set.Ico v.start (v.start + v.len)

/-- The regions in use start at page boundaries, and no two of them share an
address. -/
structure Process.RegionsOK (p : Process) : Prop where
  aligned : ∀ {i}, i < maxVmas → (p.vmas i).inUse = true → pageSize ∣ (p.vmas i).start ∧ (p.vmas i).start < usizeMod
  apart : ∀ {i j}, i < maxVmas → j < maxVmas → i ≠ j → (p.vmas i).inUse = true → (p.vmas j).inUse = true →
    Disjoint (p.vmas i).range (p.vmas j).range

theorem pageSize_dvd_pageBase (n : Nat) : pageSize ∣ pageBase n := Nat.dvd_sub_mod n

theorem pageBase_lt {n : Nat} (h : n < usizeMod) : pageBase n < usizeMod := Nat.lt_of_le_of_lt (Nat.sub_le ..) h

theorem roundPage_lt (n : Nat) : roundPage n < usizeMod := pageBase_lt (Nat.mod_lt _ (by decide))

theorem disjoint_of_not_overlaps {a b : VmRegion} (ha : pageSize ∣ a.start ∧ a.start < usizeMod)
    (hb : pageSize ∣ b.start ∧ b.start < usizeMod) (h : overlaps a.start a.len b.start b.len = false) :
    Disjoint a.range b.range := by
  simp [overlaps, saturatingAdd] at h
  unfold VmRegion.range
  rw [Set.disjoint_left]
  intro x hxa hxb
  rw [Set.mem_Ico] at hxa hxb
  unfold pageSize usizeMod at *
  omega

variable {p : Process}

theorem Process.RegionsOK.keep {p' : Process} (h : p.RegionsOK)
    (hv : ∀ i, (p'.vmas i).inUse = true → (p.vmas i).inUse = true ∧ (p'.vmas i).start = (p.vmas i).start ∧ (p'.vmas i).len = (p.vmas i).len) :
    p'.RegionsOK := by
  have hrange : ∀ i, (p'.vmas i).inUse = true → (p'.vmas i).range = (p.vmas i).range := by
    intro i hi
    rw [VmRegion.range, VmRegion.range, (hv i hi).2.1, (hv i hi).2.2]
  refine ⟨fun {i} hlt hi => ?_, fun {i j} hi hj hne hui huj => ?_⟩
  · rw [(hv i hi).2.1]
    exact h.aligned hlt (hv i hi).1
  · rw [hrange i hui, hrange j huj]
    exact h.apart hi hj hne (hv i hui).1 (hv j huj).1

variable {i : Nat} {v : VmRegion}

theorem Process.setVma_self : (p.setVma i v).vmas i = v :=
  update_self ..

theorem Process.setVma_other {j : Nat} (h : j ≠ i) :
    (p.setVma i v).vmas j = p.vmas j := update_of_ne h ..

theorem Process.RegionsOK.add (h : p.RegionsOK) (hv : pageSize ∣ v.start ∧ v.start < usizeMod)
    (hfree : ∀ j < maxVmas, (p.vmas j).inUse = true → overlaps v.start v.len (p.vmas j).start (p.vmas j).len = false) :
    (p.setVma i v).RegionsOK := by
  have hnew : ∀ {j}, j < maxVmas → (p.vmas j).inUse = true → Disjoint v.range (p.vmas j).range :=
    fun hj hu => disjoint_of_not_overlaps hv (h.aligned hj hu) (hfree _ hj hu)
  refine ⟨fun {j} hlt hj => ?_, fun {j l} hj hl hne huj hul => ?_⟩
  · by_cases hji : j = i
    · rw [hji, setVma_self]
      exact hv
    · rw [setVma_other hji] at hj ⊢
      exact h.aligned hlt hj
  · by_cases hji : j = i
    · subst hji
      rw [setVma_self]
      rw [setVma_other hne.symm] at hul ⊢
      exact hnew hl hul
    · rw [setVma_other hji] at huj ⊢
      by_cases hli : l = i
      · rw [hli, setVma_self]
        exact (hnew hj huj).symm
      · rw [setVma_other hli] at hul ⊢
        exact h.apart hj hl hne huj hul

/-! ## Regions of all processes -/

namespace Kernel

def RegionsOK (k : Kernel) : Prop := ∀ g p, k.processes g = some p → p.RegionsOK

/-- Every region in use in `k'` is that of a process of `k`, at the same
index. -/
def RegionsFrom (k k' : Kernel) : Prop :=
  ∀ g p', k'.processes g = some p' → (∀ i, (p'.vmas i).inUse = false) ∨
    ∃ g0 p, k.processes g0 = some p ∧ ∀ i, (p'.vmas i).inUse = true →
      (p.vmas i).inUse = true ∧ (p'.vmas i).start = (p.vmas i).start ∧ (p'.vmas i).len = (p.vmas i).len

variable {k k' k'' : Kernel} {g : Slot} {p p' : Process}

theorem RegionsOK.from (h : k.RegionsOK) (hf : RegionsFrom k k') : k'.RegionsOK := by
  intro g p' hp'
  rcases hf g p' hp' with hnone | ⟨g0, p, hp, hv⟩
  · refine ⟨fun {i} _ hi => ?_, fun {i _} _ _ _ hi _ => ?_⟩ <;>
    · rw [hnone i] at hi
      cases hi
  · exact (h g0 p hp).keep hv

theorem RegionsFrom.of_processes (h : k'.processes = k.processes) : RegionsFrom k k' := by
  intro g p hp
  exact .inr ⟨g, p, h ▸ hp, fun _ hi => ⟨hi, rfl, rfl⟩⟩

theorem RegionsFrom.trans (h1 : RegionsFrom k k') (h2 : RegionsFrom k' k'') : RegionsFrom k k'' := by
  intro g p2 hp2
  rcases h2 g p2 hp2 with hnone | ⟨g1, p1, hp1, hv1⟩
  · exact .inl hnone
  · rcases h1 g1 p1 hp1 with hnone | ⟨g0, p0, hp0, hv0⟩
    · refine .inl fun i => ?_
      by_contra hi
      have := (hv1 i (by simpa using hi)).1
      rw [hnone i] at this
      cases this
    · refine .inr ⟨g0, p0, hp0, fun i hi => ?_⟩
      obtain ⟨hu, hs, hl⟩ := hv1 i hi
      obtain ⟨hu0, hs0, hl0⟩ := hv0 i hu
      exact ⟨hu0, hs.trans hs0, hl.trans hl0⟩

theorem setPhys_regions {phys : Phys} : RegionsFrom k (k.setPhys phys) := .of_processes rfl

theorem RegionsFrom.update {g0 : Slot} (hp : k.processes g0 = some p)
    (hpr : k'.processes = Function.update k.processes g (some p'))
    (hv : ∀ i, (p'.vmas i).inUse = true → (p.vmas i).inUse = true ∧ (p'.vmas i).start = (p.vmas i).start ∧
      (p'.vmas i).len = (p.vmas i).len) : RegionsFrom k k' := by
  intro x q hq
  by_cases hx : x = g
  · subst hx
    rw [hpr, update_self] at hq
    cases hq
    exact .inr ⟨g0, p, hp, hv⟩
  · rw [hpr, update_of_ne hx] at hq
    exact .inr ⟨x, q, hq, fun _ hi => ⟨hi, rfl, rfl⟩⟩

theorem RegionsFrom.fresh {o : Option Process} (hpr : k'.processes = Function.update k.processes g o)
    (hv : ∀ q, o = some q → ∀ i, (q.vmas i).inUse = false) : RegionsFrom k k' := by
  intro x q hq
  by_cases hx : x = g
  · subst hx
    rw [hpr, update_self] at hq
    exact .inl (hv q hq)
  · rw [hpr, update_of_ne hx] at hq
    exact .inr ⟨x, q, hq, fun _ hi => ⟨hi, rfl, rfl⟩⟩

variable {f : Process → Process}

theorem modifyCurrent_spec (h : k.modifyCurrent f = some k') :
    ∃ g p, k.currentProcess = some p ∧ k.processes g = some p ∧ k' = k.setProcess g (some (f p)) := by
  simp only [modifyCurrent, bind_eq_bind, bind_eq_some_iff, Option.some.injEq] at h
  obtain ⟨t, ht, p, hp, rfl⟩ := h
  exact ⟨t.groupSlot, p, by simp [currentProcess, ht, hp], hp, rfl⟩

theorem modifyCurrent_current (h : k.modifyCurrent f = some k') :
    ∃ p, k.currentProcess = some p ∧ k'.currentProcess = some (f p) := by
  simp only [modifyCurrent, bind_eq_bind, bind_eq_some_iff, Option.some.injEq] at h
  obtain ⟨t, ht, p, hp, rfl⟩ := h
  refine ⟨p, by rw [currentProcess, ht, Option.bind_some, hp], ?_⟩
  rw [currentProcess, show (k.setProcess t.groupSlot (some (f p))).currentThread = some t from ht, Option.bind_some,
    setProcess_processes, update_self]

variable {start len : Nat}

variable {prot flags : BitVec 32}

theorem allocVma_current (h : k.allocVma start len prot flags = some k') :
    ∃ p i, k.currentProcess = some p ∧ i < maxVmas ∧ (p.vmas i).inUse = false ∧
      k'.currentProcess = some (p.setVma i (.new start len prot flags)) := by
  simp only [Kernel.allocVma, bind_eq_bind, bind_eq_some_iff] at h
  obtain ⟨p, hp, i, hi, h⟩ := h
  obtain ⟨p', hp', hcur⟩ := modifyCurrent_current h
  cases hp.symm.trans hp'
  refine ⟨p, i, hp, List.mem_range.mp (List.mem_of_find?_eq_some hi), ?_, hcur⟩
  have := List.find?_some hi
  simpa using this

theorem modifyCurrent_regions (h : k.modifyCurrent f = some k')
    (hf : ∀ p i, ((f p).vmas i).inUse = true → (p.vmas i).inUse = true ∧ ((f p).vmas i).start = (p.vmas i).start ∧ ((f p).vmas i).len = (p.vmas i).len) :
    RegionsFrom k k' := by
  obtain ⟨g, p, -, hp, rfl⟩ := modifyCurrent_spec h
  exact .update hp rfl (hf p)

theorem modifyCurrent_getD_regions
    (hf : ∀ p i, ((f p).vmas i).inUse = true → (p.vmas i).inUse = true ∧ ((f p).vmas i).start = (p.vmas i).start ∧ ((f p).vmas i).len = (p.vmas i).len) :
    RegionsFrom k ((k.modifyCurrent f).getD k) := by
  cases h : k.modifyCurrent f with
  | none => exact .of_processes rfl
  | some k' => exact modifyCurrent_regions h hf

theorem modifyVma_regions {i : Nat} {f : VmRegion → VmRegion}
    (hf : ∀ v, (f v).inUse = true → v.inUse = true ∧ (f v).start = v.start ∧ (f v).len = v.len) :
    RegionsFrom k (k.modifyVma i f) := by
  refine modifyCurrent_getD_regions fun p j hj => ?_
  by_cases hji : j = i
  · subst hji
    rw [Process.setVma_self] at hj ⊢
    exact hf _ hj
  · rw [Process.setVma_other hji] at hj ⊢
    exact ⟨hj, rfl, rfl⟩

theorem setBrk_regions {n : Nat} : RegionsFrom k (k.setBrk n) :=
  modifyCurrent_getD_regions fun _ _ hi => ⟨hi, rfl, rfl⟩

theorem reserveMmapBase_spec (h : k.reserveMmapBase len = some (start, k')) :
    (pageSize ∣ start ∧ start < usizeMod) ∧ RegionsFrom k k' := by
  simp only [reserveMmapBase, bind_eq_bind, bind_eq_some_iff] at h
  obtain ⟨p, -, h⟩ := h
  split at h
  · obtain ⟨k1, hk1, he⟩ := map_eq_some_iff.mp h
    obtain ⟨hs, hk⟩ := Prod.mk.inj he
    rw [← hs, ← hk]
    exact ⟨⟨pageSize_dvd_pageBase _, roundPage_lt _⟩, modifyCurrent_regions hk1 fun _ _ hi => ⟨hi, rfl, rfl⟩⟩
  · cases h

theorem RegionsOK.allocVma (h : k.RegionsOK) (hstart : pageSize ∣ start ∧ start < usizeMod)
    (hfree : k.regionConflicts start len = false) (ha : k.allocVma start len prot flags = some k') : k'.RegionsOK := by
  simp only [Kernel.allocVma, bind_eq_bind, bind_eq_some_iff] at ha
  obtain ⟨p, hp, i, -, ha⟩ := ha
  obtain ⟨g, p', hp', hg, rfl⟩ := modifyCurrent_spec ha
  cases hp.symm.trans hp'
  rw [regionConflicts, hp] at hfree
  have hnew : (p.setVma i (.new start len prot flags)).RegionsOK := by
    refine (h g p hg).add hstart fun j hj hu => ?_
    have := List.any_eq_false.mp hfree j (List.mem_range.mpr hj)
    rw [hu, Bool.true_and, Bool.not_eq_true] at this
    exact this
  intro x q hq
  by_cases hx : x = g
  · subst hx
    rw [setProcess_processes, update_self] at hq
    cases hq
    exact hnew
  · rw [setProcess_processes, update_of_ne hx] at hq
    exact h x q hq

end Kernel

/-! ## The calls -/

section Calls

variable {k k' : Kernel} {r : Except SysError Nat}

variable {addr : Word} {flags : BitVec 32}

theorem mmapStart_spec {len start : Nat} (h : mmapStart k addr len flags = some (start, k')) :
    (pageSize ∣ start ∧ start < usizeMod) ∧ Kernel.RegionsFrom k k' := by
  unfold mmapStart at h
  split at h
  · exact Kernel.reserveMmapBase_spec h
  · dsimp only at h
    split at h
    · cases h
      exact ⟨⟨pageSize_dvd_pageBase _, pageBase_lt addr.isLt⟩, .of_processes rfl⟩
    · cases h

/-- The state in which the pages of a new region are to be mapped: it has a place,
`k1` after that was reserved, and a record, in `k2`. -/
structure MmapRegion (k : Kernel) (addr len : Word) (prot flags : BitVec 32) (start : Nat) (k1 k2 : Kernel) : Prop where
  place : mmapStart k addr (roundPage len.toNat) flags = some (start, k1)
  free : k1.regionConflicts start (roundPage len.toNat) = false
  record : k1.allocVma start (roundPage len.toNat) prot flags = some k2

/-- **Everything `mmap_impl` can do** when it returns. -/
inductive MmapOutcome (k : Kernel) (addr len : Word) (prot flags fd : BitVec 32) (off : Word) :
    Except SysError Nat → Kernel → Prop
  | refused (e : SysError) : MmapOutcome k addr len prot flags fd off (.error e) k
  | noRegion {start : Nat} {k1 : Kernel} (e : SysError) (hchecked : mmapRefused len flags fd off = none)
      (hplace : mmapStart k addr (roundPage len.toNat) flags = some (start, k1)) :
      MmapOutcome k addr len prot flags fd off (.error e) k1
  | noFile {start : Nat} {k1 k2 : Kernel} (hchecked : mmapRefused len flags fd off = none)
      (hregion : MmapRegion k addr len prot flags start k1 k2)
      (hseed : mmapSeed k2 flags fd off (roundPage len.toNat) = none) :
      MmapOutcome k addr len prot flags fd off (.error .badFd) k2
  | mapped {start : Nat} {k1 k2 : Kernel} {seed : Option (List Byte)} {s : Phys}
      (hchecked : mmapRefused len flags fd off = none) (hregion : MmapRegion k addr len prot flags start k1 k2)
      (hseed : mmapSeed k2 flags fd off (roundPage len.toNat) = some seed)
      (hpages : Phys.mapPages k2.currentPml4 start (mapFlagsFromProt prot) seed (roundPage len.toNat / pageSize) 0 k2.phys =
        some (none, s)) : MmapOutcome k addr len prot flags fd off (.ok start) (k2.setPhys s)
  | noFrame {start n : Nat} {k1 k2 k3 : Kernel} {seed : Option (List Byte)} {s : Phys}
      (hchecked : mmapRefused len flags fd off = none) (hregion : MmapRegion k addr len prot flags start k1 k2)
      (hseed : mmapSeed k2 flags fd off (roundPage len.toNat) = some seed)
      (hpages : Phys.mapPages k2.currentPml4 start (mapFlagsFromProt prot) seed (roundPage len.toNat / pageSize) 0 k2.phys =
        some (some n, s)) (hundone : k3 = k2.setPhys (s.unmapPages k2.currentPml4 start n)) :
      MmapOutcome k addr len prot flags fd off (.error .noMem)
        ((k3.findVmaExact start (roundPage len.toNat)).elim k3 fun i => k3.modifyVma i fun _ => .empty)

variable {len : Word}

variable {off : Word} {prot fd : BitVec 32}

theorem mmap_cases (h : mmap k addr len prot flags fd off = some (r, k')) :
    MmapOutcome k addr len prot flags fd off r k' := by
  unfold CoreOS.mmap at h
  split at h
  next e _ =>
    cases h
    exact .refused e
  next hchecked =>
  dsimp only at h
  split at h
  · cases h
    exact .refused .invalid
  next start k1 hplace =>
  split at h
  · cases h
    exact .noRegion .invalid hchecked hplace
  next hfree =>
  split at h
  · cases h
    exact .noRegion .invalid hchecked hplace
  next k2 hrecord =>
  have hregion : MmapRegion k addr len prot flags start k1 k2 := ⟨hplace, by simpa using hfree, hrecord⟩
  split at h
  next hseed =>
    cases h
    exact .noFile hchecked hregion hseed
  next seed hseed =>
  split at h
  · cases h
  next s hpages =>
    cases h
    exact .mapped hchecked hregion hseed hpages
  next n s hpages =>
    have hout := MmapOutcome.noFrame hchecked hregion hseed hpages rfl
    split at h
    next i hi =>
      cases h
      rw [hi] at hout
      exact hout
    next hi =>
      cases h
      rw [hi] at hout
      exact hout

theorem Kernel.RegionsOK.mmap (hk : k.RegionsOK) (h : mmap k addr len prot flags fd off = some (r, k')) :
    k'.RegionsOK := by
  have hrecorded : ∀ {start k1 k2}, MmapRegion k addr len prot flags start k1 k2 → k2.RegionsOK := by
    intro start k1 k2 hr
    obtain ⟨haligned, hfrom⟩ := mmapStart_spec hr.place
    exact (hk.from hfrom).allocVma haligned hr.free hr.record
  cases mmap_cases h with
  | refused e => exact hk
  | noRegion e _ hplace => exact hk.from (mmapStart_spec hplace).2
  | noFile _ hregion _ => exact hrecorded hregion
  | mapped _ hregion _ _ => exact (hrecorded hregion).from (.of_processes rfl)
  | @noFrame start n k1 k2 k3 seed s _ hregion _ _ hundone =>
    have hk3 : k3.RegionsOK := (hrecorded hregion).from (.of_processes (by rw [hundone]; rfl))
    cases k3.findVmaExact start (roundPage len.toNat) with
    | none => exact hk3
    | some i =>
      rw [Option.elim_some]
      exact hk3.from (Kernel.modifyVma_regions nofun)

theorem munmap_regions (h : munmap k addr len = (r, k')) : k.RegionsFrom k' := by
  unfold munmap at h
  split at h
  · cases h
    exact .of_processes rfl
  · dsimp only at h
    split at h
    · cases h
      exact .of_processes rfl
    · cases h
      exact Kernel.setPhys_regions.trans (Kernel.modifyVma_regions nofun)

theorem mprotect_regions {prot : Word} (h : mprotect k addr len prot = (r, k')) : k.RegionsFrom k' := by
  unfold mprotect at h
  split at h
  · cases h
    exact .of_processes rfl
  · dsimp only at h
    split at h
    · cases h
      exact .of_processes rfl
    · split at h
      · cases h
        exact Kernel.setPhys_regions.trans (Kernel.modifyVma_regions fun _ hv => ⟨hv, rfl, rfl⟩)
      · cases h
        exact .of_processes rfl

/-- The number of pages from one break to another. -/
def brkPages (oldBrk newBrk : Nat) : Nat := (roundPage newBrk - roundPage oldBrk) / pageSize

/-- The protection of the heap. -/
def heapFlags : MapFlags where
  writable := true
  user := true
  executable := false

/-- **Everything `brk_impl` can do** when it returns. -/
inductive BrkOutcome (k : Kernel) (addr : Word) : Except SysError Nat → Kernel → Prop
  | asked (h0 : addr.toNat = 0) : BrkOutcome k addr (.ok k.currentBrk) k
  | lowered (hle : addr.toNat ≤ k.currentBrk) : BrkOutcome k addr (.ok addr.toNat) (k.setBrk addr.toNat)
  | raised {s : Phys} (hlt : k.currentBrk < addr.toNat)
      (hpages : Phys.mapPages k.currentPml4 (roundPage k.currentBrk) heapFlags none (brkPages k.currentBrk addr.toNat) 0
        k.phys = some (none, s)) : BrkOutcome k addr (.ok addr.toNat) ((k.setPhys s).setBrk addr.toNat)
  | noFrame {s : Phys} {n : Nat} (hlt : k.currentBrk < addr.toNat)
      (hpages : Phys.mapPages k.currentPml4 (roundPage k.currentBrk) heapFlags none (brkPages k.currentBrk addr.toNat) 0
        k.phys = some (some n, s)) : BrkOutcome k addr (.ok k.currentBrk) (k.setPhys s)

theorem brk_cases (h : brk k addr = some (r, k')) : BrkOutcome k addr r k' := by
  unfold brk at h
  dsimp only at h
  split at h
  next h0 =>
    cases h
    exact .asked h0
  split at h
  next hle =>
    cases h
    exact .lowered hle
  next hlt =>
    rw [Nat.not_le] at hlt
    split at h
    · cases h
    next hpages =>
      cases h
      exact .raised hlt hpages
    next hpages =>
      cases h
      exact .noFrame hlt hpages

theorem brk_regions (h : brk k addr = some (r, k')) : k.RegionsFrom k' := by
  cases brk_cases h with
  | asked => exact .of_processes rfl
  | lowered => exact Kernel.setBrk_regions
  | raised => exact Kernel.setPhys_regions.trans Kernel.setBrk_regions
  | noFrame => exact .of_processes rfl

end Calls

/-! ## Processes and threads come and go -/

section Processes

variable {k k' : Kernel} {r : Except SysError Nat}

variable {slot : Slot}

variable {pml4 : Nat}

theorem spawnTask_regions {layout : Mem → Nat → Mem × Nat} (h : k.spawnTask pml4 layout = some (slot, k')) :
    k.RegionsFrom k' :=
  .of_processes (Kernel.spawnTask_spec h).processes

theorem forkCurrent_regions {pid : Nat} (h : forkCurrent k slot = some (pid, k')) :
    k.RegionsFrom k' := by
  obtain ⟨parent, pt, hparent, hpt, -, hpr, -, -⟩ := forkCurrent_spec h
  rw [Kernel.currentProcess, hpt, Option.bind_some] at hparent
  exact .update hparent hpr fun _ hi => ⟨hi, rfl, rfl⟩

theorem spawnThreadInGroup_regions {c b tid : Nat} (h : k.spawnThreadInGroup slot c b = some (tid, k')) :
    k.RegionsFrom k' := by
  obtain ⟨pt, p, -, hp, -, hpr, -⟩ := spawnThreadInGroup_spec h
  exact .update hp hpr fun _ hi => ⟨hi, rfl, rfl⟩

variable {framePtr : Nat}

theorem syscallFork_regions (h : syscallFork k framePtr = some (r, k')) : k.RegionsFrom k' := by
  unfold syscallFork forkTask at h
  split at h
  · cases h
    exact .of_processes rfl
  split at h
  · cases h
  next pml4 phys _ =>
  have hk1 : k.RegionsFrom (k.setPhys phys) := .of_processes rfl
  cases hsp : (k.setPhys phys).spawnForkedTask framePtr pml4 with
  | none =>
    simp only [hsp] at h
    cases h
    exact hk1
  | some x =>
    obtain ⟨slot, k2⟩ := x
    cases hf : forkCurrent k2 slot with
    | none =>
      simp only [hsp, hf] at h
      cases h
    | some y =>
      obtain ⟨pid, k3⟩ := y
      simp only [hsp, hf] at h
      cases h
      exact hk1.trans (.trans (spawnTask_regions hsp) (forkCurrent_regions hf))

variable {flags childTidPtr : Word}

theorem cloneTask_regions {o : Except SysError (Slot × Nat)}
    (h : cloneTask k flags childTidPtr framePtr = some (o, k')) : k.RegionsFrom k' := by
  have hcopied : ∀ s, k.RegionsFrom (k.setPhys s) := fun _ => .of_processes rfl
  cases cloneTask_cases h with
  | noThread => exact .of_processes rfl
  | noTls _ hsp => exact spawnTask_regions hsp
  | thread _ hsp _ ht => exact .trans (spawnTask_regions hsp) (spawnThreadInGroup_regions ht)
  | noProcess => exact hcopied _
  | process _ _ hsp hf => exact (hcopied _).trans (.trans (spawnTask_regions hsp) (forkCurrent_regions hf))

variable {childStack parentTidPtr : Word}

theorem cloneFinish_processes {childId : Nat} :
    (cloneFinish k flags childStack parentTidPtr childTidPtr slot childId).2.processes = k.processes := by
  have hstack : ∀ {k k1 : Kernel}, (if childStack = 0 then some k else k.setChildStack slot childStack) = some k1 →
      k1.processes = k.processes := by
    intro k k1 h
    split at h
    · cases h
      rfl
    · obtain ⟨t, -, rfl⟩ := map_eq_some_iff.mp h
      rfl
  have hclear : ∀ {k k1 : Kernel} {c : Prop} [Decidable c],
      (if c then some k else k.setClearChildTid slot childTidPtr.toNat) = some k1 → k1.processes = k.processes := by
    intro k k1 c _ h
    split at h
    · cases h
      rfl
    · obtain ⟨t, -, rfl⟩ := map_eq_some_iff.mp h
      rfl
  unfold cloneFinish
  split
  · rfl
  next k1 h1 =>
  split
  · exact hstack h1
  next k2 h2 =>
  have hk2 := (hclear h2).trans (hstack h1)
  split
  · exact hk2
  split
  · exact hk2
  next k3 h3 => split <;> exact (hclear h3).trans hk2

theorem syscallClone_regions (h : syscallClone k flags childStack parentTidPtr childTidPtr framePtr = some (r, k')) :
    k.RegionsFrom k' := by
  unfold syscallClone at h
  split at h
  · cases h
    exact .of_processes rfl
  split at h
  · cases h
  · cases h
    next hc => exact cloneTask_regions hc
  next hc =>
    have hfin := congrArg Prod.snd (Option.some.inj h)
    dsimp only at hfin
    rw [← hfin]
    exact .trans (cloneTask_regions hc) (.of_processes cloneFinish_processes)

theorem execTask_regions {entry stackTop : Word} {name : List Char} :
    k.RegionsFrom (execTask k entry stackTop pml4 name).2 := by
  unfold execTask
  split
  · exact .of_processes rfl
  next slot k1 hsp =>
    refine .trans (spawnTask_regions hsp) (.fresh (o := some (.newLeader k1.nextPid k1.currentPid name)) rfl ?_)
    intro q hq i
    cases hq
    rfl

theorem notifyParentExit_regions {parentPid : Nat} : k.RegionsFrom (notifyParentExit k parentPid) := by
  unfold notifyParentExit queueSignal
  split
  · exact .of_processes rfl
  · split
    · split
      · next hp => exact .update hp rfl fun _ hi => ⟨hi, rfl, rfl⟩
      · exact .of_processes rfl
    · exact .of_processes rfl

theorem exitThread_regions (code : Int) (wholeGroup : Bool) : k.RegionsFrom (k.exitThread code wholeGroup).2 := by
  rcases k.exitThread_processes code wholeGroup with hpr | ⟨t, p, _, _, _, -, hp, hpr⟩
  · exact .of_processes hpr
  · exact .update hp hpr fun _ hi => ⟨hi, rfl, rfl⟩

variable {code : Int}

theorem syscallExit_regions : k.RegionsFrom (syscallExit k code) := by
  unfold syscallExit
  refine .trans (exitThread_regions code false) ?_
  generalize k.exitThread code false = x
  obtain ⟨groupDead, k1⟩ := x
  dsimp only
  split
  · exact .trans notifyParentExit_regions (.of_processes Kernel.killTask_tables.2)
  · exact .of_processes Kernel.killTask_tables.2

theorem syscallExitGroup_regions : k.RegionsFrom (syscallExitGroup k code) :=
  .trans (exitThread_regions code true) (.trans notifyParentExit_regions (.of_processes Kernel.killTask_tables.2))

theorem reapSlot_regions (h : reapSlot k slot = some (code, k')) : k.RegionsFrom k' := by
  unfold reapSlot at h
  split at h
  next p _ =>
    split at h
    · cases h
      have hsame : SameProcesses k (releaseFds k p.fds) := .foldl fun _ t => .release t
      refine .fresh (g := slot) (o := none) ?_ nofun
      rw [Kernel.setThread_processes, Kernel.setProcess_processes, hsame.processes]
    · cases h
  · cases h

end Processes

/-! ## Runs -/

/-- `memory` is what goes on in memory in between, and `files` what the file
calls do to the tables that `mmap` reads. -/
inductive VmOp
  | mmap (addr len : Word) (prot flags fd : BitVec 32) (off : Word)
  | munmap (addr len : Word)
  | mprotect (addr len prot : Word)
  | brk (addr : Word)
  | fork (framePtr : Nat)
  | clone (flags childStack parentTidPtr childTidPtr : Word) (framePtr : Nat)
  | exec (entry stackTop : Word) (pml4 : Nat) (name : List Char)
  | exit (code : Int)
  | exitGroup (code : Int)
  | switch
  | reap (slot : Slot)
  | memory (phys : Phys)
  | files (fs : Option RamFS) (openFiles : Nat → OpenFile) (fds : Nat → FdTarget)

/-- One call, `none` when it panics. -/
def VmOp.step (k : Kernel) : VmOp → Option Kernel
  | .mmap addr len prot flags fd off => (CoreOS.mmap k addr len prot flags fd off).map Prod.snd
  | .munmap addr len => some (CoreOS.munmap k addr len).2
  | .mprotect addr len prot => some (CoreOS.mprotect k addr len prot).2
  | .brk addr => (CoreOS.brk k addr).map Prod.snd
  | .fork framePtr => (syscallFork k framePtr).map Prod.snd
  | .clone flags childStack parentTidPtr childTidPtr framePtr =>
    (syscallClone k flags childStack parentTidPtr childTidPtr framePtr).map Prod.snd
  | .exec entry stackTop pml4 name => some (execTask k entry stackTop pml4 name).2
  | .exit code => some (syscallExit k code)
  | .exitGroup code => some (syscallExitGroup k code)
  | .switch => some (k.nextTaskSwitch.elim k Prod.snd)
  | .reap slot => some ((reapSlot k slot).elim k Prod.snd)
  | .memory phys => some (k.setPhys phys)
  | .files fs openFiles fds => some ((({ k with fs, openFiles } : Kernel).modifyCurrent fun p => { p with fds }).getD k)

/-- **One call keeps regions disjoint.** -/
theorem Kernel.RegionsOK.step {k k' : Kernel} {op : VmOp} (hk : k.RegionsOK) (h : op.step k = some k') :
    k'.RegionsOK := by
  cases op with
  | mmap addr len prot flags fd off =>
    obtain ⟨⟨r, k1⟩, he, rfl⟩ := map_eq_some_iff.mp h
    exact hk.mmap he
  | munmap addr len =>
    cases h
    exact hk.from (munmap_regions rfl)
  | mprotect addr len prot =>
    cases h
    exact hk.from (mprotect_regions rfl)
  | brk addr =>
    obtain ⟨⟨r, k1⟩, he, rfl⟩ := map_eq_some_iff.mp h
    exact hk.from (brk_regions he)
  | fork framePtr =>
    obtain ⟨⟨r, k1⟩, he, rfl⟩ := map_eq_some_iff.mp h
    exact hk.from (syscallFork_regions he)
  | clone flags childStack parentTidPtr childTidPtr framePtr =>
    obtain ⟨⟨r, k1⟩, he, rfl⟩ := map_eq_some_iff.mp h
    exact hk.from (syscallClone_regions he)
  | exec entry stackTop pml4 name =>
    cases h
    exact hk.from execTask_regions
  | exit code =>
    cases h
    exact hk.from syscallExit_regions
  | exitGroup code =>
    cases h
    exact hk.from syscallExitGroup_regions
  | switch =>
    cases h
    cases hsw : k.nextTaskSwitch with
    | none => exact hk
    | some x => exact hk.from (.of_processes (nextTaskSwitch_tables hsw).1)
  | reap slot =>
    cases h
    cases hr : reapSlot k slot with
    | none => exact hk
    | some x => exact hk.from (reapSlot_regions hr)
  | memory phys =>
    cases h
    exact hk.from (.of_processes rfl)
  | files fs openFiles fds =>
    cases h
    cases hm : ({ k with fs, openFiles } : Kernel).modifyCurrent fun p => { p with fds } with
    | none => exact hk
    | some k1 =>
      have hfiles : k.RegionsFrom { k with fs, openFiles } := .of_processes rfl
      exact hk.from (hfiles.trans (modifyCurrent_regions hm fun _ _ hi => ⟨hi, rfl, rfl⟩))

/-- **Regions stay disjoint.** In every state a run reaches from boot, with any
arguments: the regions in use of a process start at page boundaries, and two of
them have no address in common. -/
theorem regions_disjoint (phys : Phys) (code : CodeAddrs) (kernelPml4 stackBase : Nat) (ops : List VmOp) (k : Kernel)
    (h : Lts.exec VmOp.step ((Kernel.statics phys code kernelPml4).initMainTask stackBase) ops = some k)
    (g : Slot) (p : Process) (hp : k.processes g = some p) (i j : Nat) (hi : i < maxVmas) (hj : j < maxVmas)
    (hne : i ≠ j) (hui : (p.vmas i).inUse = true) (huj : (p.vmas j).inUse = true) :
    Disjoint (Set.Ico (p.vmas i).start ((p.vmas i).start + (p.vmas i).len))
        (Set.Ico (p.vmas j).start ((p.vmas j).start + (p.vmas j).len)) ∧
      (p.vmas i).start % pageSize = 0 ∧ (p.vmas j).start % pageSize = 0 := by
  have hboot : ((Kernel.statics phys code kernelPml4).initMainTask stackBase).RegionsOK := nofun
  have hok := Lts.exec_invariant Kernel.RegionsOK (fun _ _ _ hs ht => hs.step ht) hboot h g p hp
  exact ⟨hok.apart hi hj hne hui huj, Nat.mod_eq_zero_of_dvd (hok.aligned hi hui).1,
    Nat.mod_eq_zero_of_dvd (hok.aligned hj huj).1⟩

/-- A program maps the last page of the address space and two pages where the
kernel chooses. -/
def mapTwice : List VmOp :=
  [.exec 0 0 0x50000000 [], .switch, .mmap 0xFFFFFFFFFFFFF000 1 3 0x32 (-1) 0, .mmap 0 0x2000 3 0x22 (-1) 0]

theorem regions_disjoint_mapTwice :
    ∃ k p, Lts.exec VmOp.step ((Kernel.statics allFree ⟨0, 0⟩ 0x60000000).initMainTask 0) mapTwice = some k ∧
      k.processes 1 = some p ∧
      (Disjoint (Set.Ico (p.vmas 0).start ((p.vmas 0).start + (p.vmas 0).len))
        (Set.Ico (p.vmas 1).start ((p.vmas 1).start + (p.vmas 1).len)) ∧
      (p.vmas 0).start % pageSize = 0 ∧ (p.vmas 1).start % pageSize = 0) := by
  have hrun : ((Lts.exec VmOp.step ((Kernel.statics allFree ⟨0, 0⟩ 0x60000000).initMainTask 0) mapTwice).bind
      fun k => (k.processes 1).map fun p => ((p.vmas 0).inUse, (p.vmas 1).inUse)) = some (true, true) := by
    decide +kernel
  obtain ⟨k, hk, hp⟩ := bind_eq_some_iff.mp hrun
  obtain ⟨p, hp, hu⟩ := map_eq_some_iff.mp hp
  obtain ⟨hu0, hu1⟩ := Prod.mk.inj hu
  exact ⟨k, p, hk, hp, regions_disjoint allFree ⟨0, 0⟩ 0x60000000 0 mapTwice k hk 1 p hp 0 1 (by decide) (by decide)
    (by decide) hu0 hu1⟩

end CoreOS
