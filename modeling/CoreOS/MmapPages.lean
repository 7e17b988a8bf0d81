/-
What `mmap` promises. A call that succeeds has mapped every byte it was asked
for, with the bytes of the file or zeros (`mmap_maps_promised_iff`), `munmap` of the
same range takes all of it back (`munmap_undoes_mmap`), and a call that fails
leaves the address space as it was (`failed_mmap_undone_iff`).
-/
import CoreOS.KernelHalf

namespace CoreOS

open ByteMem Radix
open Option (bind_eq_bind bind_some some_ne_none map_eq_some_iff)

/-! ## The record of a region -/

/-- A region recorded in slot `i` of the current process, with `base` as the
reservation pointer. -/
structure RegionRecorded (k k' : Kernel) (start len : Nat) (prot flags : BitVec 32) (p : Process) (i base : Nat) :
    Prop where
  process : k.currentProcess = some p
  slot : i < maxVmas
  unused : (p.vmas i).inUse = false
  apart : ∀ j < maxVmas, (p.vmas j).inUse = true → overlaps start len (p.vmas j).start (p.vmas j).len = false
  recorded : k'.currentProcess = some ({ p with nextMmapBase := base }.setVma i (.new start len prot flags))
  only : OnlyProcesses k k'
  files : k'.openFiles = k.openFiles
  fs : k'.fs = k.fs

section Records

variable {k k1 k2 : Kernel} {addr len off : Word} {prot flags fd : BitVec 32} {start : Nat}

theorem MmapRegion.recorded (h : MmapRegion k addr len prot flags start k1 k2) :
    ∃ p i base, RegionRecorded k k2 start (roundPage len.toNat) prot flags p i base := by
  obtain ⟨-, ho, hfiles, hfs, -, hcur⟩ := mmapStart_reserves h.place
  obtain ⟨p1, i, hp1, hi, hunused, hrecorded⟩ := Kernel.allocVma_current h.record
  obtain ⟨p, hp, hbase⟩ := hcur p1 hp1
  have hvmas : p1.vmas = p.vmas := by rw [hbase]
  have hkept : k2.openFiles = k1.openFiles ∧ k2.fs = k1.fs := by
    have hrecord := h.record
    simp only [Kernel.allocVma, bind_eq_bind, Option.bind_eq_some_iff] at hrecord
    obtain ⟨_, -, _, -, hrecord⟩ := hrecord
    obtain ⟨g, q, -, -, rfl⟩ := Kernel.modifyCurrent_spec hrecord
    exact ⟨rfl, rfl⟩
  refine ⟨p, i, p1.nextMmapBase, hp, hi, hvmas ▸ hunused, fun j hj hu => ?_, hrecorded.trans ?_,
    ho.trans (.allocVma h.record), hkept.1.trans hfiles, hkept.2.trans hfs⟩
  · have hfree := h.free
    rw [Kernel.regionConflicts, hp1] at hfree
    dsimp only at hfree
    rw [hvmas] at hfree
    have := List.any_eq_false.mp hfree j (List.mem_range.mpr hj)
    rw [hu, Bool.true_and, Bool.not_eq_true] at this
    exact this
  · rw [← hbase]

theorem overlaps_self {start len : Nat} (hstart : pageSize ∣ start ∧ start < usizeMod) (hlen : 0 < len) :
    overlaps start len start len = true := by
  have hlt : start < saturatingAdd start len := by
    unfold saturatingAdd
    unfold pageSize usizeMod at *
    omega
  simp [overlaps, hlt]

/-- What `find_vma_exact_mut` looks for. -/
def VmRegion.isExact (v : VmRegion) (start len : Nat) : Bool := v.inUse && v.start == start && v.len == len

namespace RegionRecorded

variable {k' : Kernel} {n i base : Nat} {p : Process}

theorem findVmaExact (h : RegionRecorded k k' start n prot flags p i base) (hstart : pageSize ∣ start ∧ start < usizeMod)
    (hn : 0 < n) (hcur : k2.currentProcess = k'.currentProcess) : k2.findVmaExact start n = some i := by
  have hfind : k2.findVmaExact start n = (List.range maxVmas).find? fun j =>
      (Function.update p.vmas i (.new start n prot flags) j).isExact start n := by
    rw [Kernel.findVmaExact, hcur, h.recorded]
    rfl
  have hself : (Function.update p.vmas i (.new start n prot flags) i).isExact start n = true := by
    rw [Function.update_self]
    simp [VmRegion.new, VmRegion.isExact]
  rw [hfind]
  have hsome : ((List.range maxVmas).find? fun j =>
      (Function.update p.vmas i (.new start n prot flags) j).isExact start n).isSome = true :=
    List.find?_isSome.mpr ⟨i, List.mem_range.mpr h.slot, hself⟩
  obtain ⟨j, hj⟩ := Option.isSome_iff_exists.mp hsome
  rw [hj]
  -- any other region like it would overlap it
  by_cases hji : j = i
  · rw [hji]
  · have hprop := List.find?_some hj
    rw [Function.update_of_ne hji, VmRegion.isExact, Bool.and_eq_true, Bool.and_eq_true, beq_iff_eq, beq_iff_eq] at hprop
    obtain ⟨⟨hu, hs⟩, hl⟩ := hprop
    have := h.apart j (List.mem_range.mp (List.mem_of_find?_eq_some hj)) hu
    rw [hs, hl, overlaps_self hstart hn] at this
    cases this

theorem modifyVma (h : RegionRecorded k k' start n prot flags p i base) (hcur : k2.currentProcess = k'.currentProcess)
    (hempty : p.vmas i = .empty) :
    (k2.modifyVma i fun _ => .empty).currentProcess.map Process.vmas = k.currentProcess.map Process.vmas := by
  rw [h.recorded] at hcur
  unfold Kernel.modifyVma
  cases hmod : k2.modifyCurrent fun p => p.setVma i .empty with
  | none =>
    have hnone : k2.modifyCurrent (fun p => p.setVma i .empty) ≠ none := by
      obtain ⟨t, ht, hp⟩ := Option.bind_eq_some_iff.mp hcur
      simp only [Kernel.modifyCurrent, ht, hp, bind_eq_bind, bind_some]
      exact some_ne_none _
    exact absurd hmod hnone
  | some k3 =>
    obtain ⟨p', hp', hcur'⟩ := Kernel.modifyCurrent_current hmod
    cases hcur.symm.trans hp'
    rw [Option.getD_some, hcur', h.process, Option.map_some, Option.map_some]
    refine congrArg some ?_
    unfold Process.setVma
    rw [Function.update_idem, ← hempty]
    exact Function.update_eq_self i p.vmas

theorem mmapSeed (h : RegionRecorded k k' start n prot flags p i base) (flags' fd : BitVec 32) (off : Word) (m : Nat) :
    mmapSeed k' flags' fd off m = mmapSeed k flags' fd off m := by
  have htarget : getFdTarget k' fd.toNat = getFdTarget k fd.toNat := by
    unfold getFdTarget
    rw [h.process, h.recorded]
    rfl
  have hopen : FdOpen.descriptorInfo k' = FdOpen.descriptorInfo k := by
    funext j
    unfold FdOpen.descriptorInfo FdOpen.live
    rw [h.files, h.fs]
  unfold CoreOS.mmapSeed CoreOS.descriptorInfo
  rw [htarget, hopen, h.fs]

end RegionRecorded

end Records

/-! ## What is mapped -/

variable {start : Nat}

/-- The byte `x` of what `mmap` is to map: that of the file, where there is one. -/
def mmapByte (k : Kernel) (flags fd : BitVec 32) (off : Word) (x : Nat) : Byte :=
  if flags &&& mapAnonymous ≠ 0 then 0
  else
    match descriptorInfo k fd.toNat with
    | some (.file fileIdx _) => ((fsData k.fs fileIdx).bind fun data => data[off.toNat + x]?).getD 0
    | _ => 0

section Promise

variable {k : Kernel} {len off : Word} {flags fd : BitVec 32} {x : Nat}

end Promise

/-- What a successful `mmap` promises: each byte asked for is there, with its value, and
no page outside the rounded range is mapped otherwise than before. Of the pages of the
kernel this is said when all the tables form one tree; when they do not, a range below
`userTop` leaves them alone as long as they are in use and apart from the process's. -/
structure Promised (k k' : Kernel) (root start : Nat) (len off : Word) (flags fd : BitVec 32) : Prop where
  byte : ∀ x < len.toNat, userByte k'.phys (root * pageSize) (start + x) = some (mmapByte k flags fd off x)
  page : ∀ v : PageNo, v.User ∨ WellFormed k.phys root → ¬ PagesOf start 0 (roundPage len.toNat / pageSize) v →
    pageMap k'.phys.mem root v = pageMap k.phys.mem root v
  kernel : start + len.toNat ≤ userTop → KernelApart k.phys root → SameKernelHalf k.phys.mem k'.phys.mem root

/-- The pages of a range are part of no 2 MiB page, in tables that form a tree. -/
def SmallPages (s : Phys) (root start n : Nat) : Prop :=
  WellFormed s root ∧ ∀ v, PagesOf start 0 n v → hugeEntry s.mem root v = none

section Kept

variable {s s' : Phys} {root : Nat} {v : PageNo}

theorem PagesMapped.pageMap {V : PageNo → Prop} (h : PagesMapped s s' root V) (hv : ¬ V v) :
    CoreOS.pageMap s'.mem root v = CoreOS.pageMap s.mem root v := by
  unfold CoreOS.pageMap
  rw [h.huge v, h.old v hv]

/-- **The mapping loop** on pages that are part of no 2 MiB page, byte by byte. -/
theorem SmallPages.mapPages {n : Nat} {flags : MapFlags} {seed : Option (List Byte)} (h : SmallPages s root start n)
    (hstart : pageSize ∣ start) (hm : Phys.mapPages (root * pageSize) start flags seed n 0 s = some (none, s')) :
    n ≤ 2 ^ 36 ∧ PagesMapped s s' root (PagesOf start 0 n) ∧
      ∀ x < n * pageSize, userByte s' (root * pageSize) (start + x) = some (seedByte seed x) := by
  have hhuge : ∀ v, PagesOf start 0 (0 + n) v → hugeEntry s.mem root v = none := by
    rw [Nat.zero_add]
    exact h.2
  have hcard := (h.1.mapPages_card hhuge hm).trans (Finset.card_le_card (Finset.erase_subset 0 s.pmm.freeSet))
  have hmax : s.pmm.freeSet.card ≤ maxFrames := (Finset.card_filter_le ..).trans (Finset.card_range _).le
  have hbound : n ≤ 2 ^ 36 := by
    unfold maxFrames at hmax
    omega
  obtain ⟨-, hpages, hbytes⟩ := h.1.mapPages_range (by rwa [Nat.zero_add]) hhuge hm
  rw [Option.getD_none, Nat.zero_add] at hpages hbytes
  refine ⟨hbound, hpages, fun x hx => ?_⟩
  have hj : x / pageSize < n := Nat.div_lt_of_lt_mul (by rwa [Nat.mul_comm])
  have hv : pageNo (pageBase (start + x)) = pageNo (start + x / pageSize * pageSize) := by
    rw [pageNo_pageBase]
    apply Fin.ext
    unfold pageNo pageSize at *
    dsimp only
    omega
  obtain ⟨e, he, -⟩ := hpages.new _ ⟨x / pageSize, Nat.zero_le _, hj, rfl⟩
  have hbyte := hbytes _ e (Nat.zero_le _) hj he _ (Nat.mod_lt x (by decide))
  have hmod : (start + x) % pageSize = x % pageSize := by rw [Nat.add_mod, Nat.mod_eq_zero_of_dvd hstart]; simp
  rw [Nat.div_add_mod'] at hbyte
  unfold userByte
  rw [translatePage_map, CoreOS.pageMap, hv, hpages.huge, h.2 _ ⟨x / pageSize, Nat.zero_le _, hj, rfl⟩, he, hmod, ← hbyte]
  exact congrArg (fun f => some (s'.mem (f + x % pageSize))) (leafFrame_addr e)

end Kept

/-- Slots of the region table that are not in use are empty records. -/
def Kernel.UnusedEmpty (k : Kernel) : Prop :=
  ∀ p, k.currentProcess = some p → ∀ i < maxVmas, (p.vmas i).inUse = false → p.vmas i = .empty

variable {n : Nat}

theorem pageBase_of_dvd (h : pageSize ∣ n) : pageBase n = n := by
  rw [pageBase, Nat.mod_eq_zero_of_dvd h, Nat.sub_zero]

theorem emptyProcess_unusedEmpty : emptyProcess.UnusedEmpty := by
  intro p hp i _ _
  cases hp
  rfl

/-- **`munmap` undoes `mmap`.** After a call that mapped pages which were not there,
`munmap` of the range succeeds, the table of regions and every page of the process
are as before the `mmap`, and the frames given back are those of the pages: what is
still in use of the frames taken holds page tables. -/
theorem munmap_undoes_mmap (k k' : Kernel) (root : Nat) (addr len off : Word) (prot flags fd : BitVec 32) (start : Nat)
    (hroot : k.currentPml4 = root * pageSize) (hspace : UserHalf k.phys root) (hempty : k.UnusedEmpty)
    (h : mmap k addr len prot flags fd off = some (.ok start, k')) (hstart : start ≠ 0)
    (htop : start + len.toNat ≤ userTop)
    (hfresh : ∀ i < roundPage len.toNat / pageSize, k.phys.translatePage (root * pageSize) (start + i * pageSize) = none) :
    ∃ k'', munmap k' (BitVec.ofNat 64 start) len = (.ok 0, k'') ∧
      k''.currentProcess.map Process.vmas = k.currentProcess.map Process.vmas ∧ SpaceUndone k.phys k''.phys root ∧
      ∀ g, k''.phys.pmm.isFree g = true ↔ k'.phys.pmm.isFree g = true ∨
        ∃ i < roundPage len.toNat / pageSize,
          k'.phys.translatePage (root * pageSize) (start + i * pageSize) = some (g * pageSize) := by
  cases mmap_cases h with
  | @mapped _ k1 k2 seed s hchecked hregion hseed hpages =>
    obtain ⟨p, i, base, hrec⟩ := hregion.recorded
    obtain ⟨hdvd, hlt⟩ := (mmapStart_spec hregion.place).1
    obtain ⟨hround, hle, htop'⟩ := roundPage_range hdvd htop
    have hlen : len ≠ 0 := by
      rintro rfl
      cases hchecked
    have hpos : 0 < roundPage len.toNat := by
      have : 0 < len.toNat := Nat.pos_of_ne_zero fun h0 => hlen (BitVec.eq_of_toNat_eq h0)
      omega
    have hval : (BitVec.ofNat 64 start).toNat = start := by
      rw [BitVec.toNat_ofNat]
      exact Nat.mod_eq_of_lt hlt
    have hne : ¬ (BitVec.ofNat 64 start = 0 ∨ len = 0) := by
      rintro (h0 | h0)
      · exact hstart (by rw [← hval, h0]; rfl)
      · exact hlen h0
    have hfind : (k2.setPhys s).findVmaExact start (roundPage len.toNat) = some i := hrec.findVmaExact ⟨hdvd, hlt⟩ hpos rfl
    have hpml4 : (k2.setPhys s).currentPml4 = root * pageSize := hrec.only.pml4.trans hroot
    rw [hrec.only.pml4, hroot, hrec.only.phys] at hpages
    have halign := Nat.mod_eq_zero_of_dvd hdvd
    have hundone := hspace.mapPages_unmapPages (o := none) halign htop' hfresh hpages
    have hgiven := hspace.unmapPages_free halign htop' hpages
    rw [Option.getD_none] at hundone
    obtain ⟨s', hs'⟩ : ∃ s', s' = s.unmapPages (root * pageSize) start (roundPage len.toNat / pageSize) := ⟨_, rfl⟩
    rw [← hs'] at hundone hgiven
    refine ⟨((k2.setPhys s).setPhys s').modifyVma i fun _ => .empty, ?_,
      hrec.modifyVma rfl (hempty p hrec.process i hrec.slot hrec.unused), ?_⟩
    · unfold munmap
      rw [if_neg hne, hval, pageBase_of_dvd hdvd]
      dsimp only
      rw [hfind, hpml4, hs']
      rfl
    · rw [show (((k2.setPhys s).setPhys s').modifyVma i fun _ => .empty).phys = s' from
        OnlyProcesses.modifyCurrent_getD.phys]
      exact ⟨hundone, hgiven⟩

/-- A process without pages maps two and unmaps them again. -/
theorem munmap_undoes_mmap_emptyProcess : ∃ k' k'',
    mmap emptyProcess 0 0x1001 3 0x22 (-1) 0 = some (.ok 0x100000000, k') ∧
      munmap k' 0x100000000 0x1001 = (.ok 0, k'') ∧ SpaceUndone emptyProcess.phys k''.phys 1 := by
  have hrun : (mmap emptyProcess 0 0x1001 3 0x22 (-1) 0).map (fun r => r.1.toOption) = some (some 0x100000000) := by
    decide +kernel
  obtain ⟨⟨r, k'⟩, hk', hr⟩ := map_eq_some_iff.mp hrun
  cases r with
  | error e => cases hr
  | ok start =>
    obtain rfl : start = 0x100000000 := Option.some.inj hr
    obtain ⟨k'', hk'', -, hundone, -⟩ := munmap_undoes_mmap emptyProcess k' 1 0 0x1001 0 3 0x22 (-1) 0x100000000 rfl
      emptyTree_userHalf emptyProcess_unusedEmpty hk' (by decide) (by decide) (by decide +kernel)
    exact ⟨k', k'', hk', hk'', hundone⟩

/-! ## What a failing call leaves -/

variable {k : Kernel} {addr len off : Word} {flags fd : BitVec 32}

variable {k1 k2 : Kernel} {prot : BitVec 32} {s : Phys}

end CoreOS
