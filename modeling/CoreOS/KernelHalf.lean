/-
The kernel half of the address space and the calls that map memory. The tables
behind the upper 256 entries of a root table are shared by all address spaces.
`mmap` with `MAP_FIXED`, `brk` and the reservation pointer never compare an
address with `userTop`, so a program can have pages mapped there
(`mmap_fixed_reaches_kernel_half`). Calls whose range lies below `userTop`
leave the kernel half as it is (`kernel_half_untouched`).
-/
import CoreOS.PageRanges

namespace CoreOS

open ByteMem Radix

variable {s : Phys} {root : Nat}

/-! ## Ranges below `userTop` -/

section Ranges

variable {s s' : Phys} {root start n : Nat} {flags : MapFlags} (h : UserSpace s root) (halign : start % pageSize = 0)
include h halign

theorem mapPages_low {seed : Option (List Byte)} {o : Option Nat} (htop : start + n * pageSize ≤ userTop)
    (hm : Phys.mapPages (root * pageSize) start flags seed n 0 s = some (o, s')) :
    LowStep s s' root ∧ o.getD n ≤ n := by
  have hrange := mapPages_range h halign (by rwa [Nat.zero_add]) hm
  rw [Nat.zero_add] at hrange
  obtain ⟨⟨-, hle⟩, hpages, -⟩ := hrange
  have hend := Nat.le_trans (Nat.add_le_add_left (Nat.mul_le_mul_right pageSize hle) start) htop
  exact ⟨hpages.lowStep h fun v hv => hv.user hend, hle⟩

theorem protectPages_low {b : Bool} {i : Nat} (htop : start + (i + n) * pageSize ≤ userTop)
    (hp : Phys.protectPages (root * pageSize) start flags n i s = (b, s')) : LowStep s s' root := by
  induction n generalizing i s with
  | zero =>
    cases hp
    exact .refl h
  | succ n ih =>
    unfold Phys.protectPages at hp
    obtain ⟨hvirt, hlt, -⟩ := lowPage halign htop
    rw [← hvirt] at hlt
    have hone := h.protectPageIn flags (pageNo_user hlt)
    split at hp
    next s1 he =>
      rw [he] at hone
      exact hone.trans (ih hone.space (by rwa [show i + 1 + n = i + (n + 1) by omega]) hp)
    next s1 he =>
      rw [he] at hone
      cases hp
      exact hone

end Ranges

/-! ## The calls -/

/-- A change to process records alone. -/
structure OnlyProcesses (k k' : Kernel) : Prop where
  phys : k'.phys = k.phys
  pml4 : k'.currentPml4 = k.currentPml4
  tasks : k'.tasks = k.tasks

namespace OnlyProcesses

variable {k k' k'' : Kernel}

theorem refl : OnlyProcesses k k := ⟨rfl, rfl, rfl⟩

theorem trans (h1 : OnlyProcesses k k') (h2 : OnlyProcesses k' k'') : OnlyProcesses k k'' :=
  ⟨h2.phys.trans h1.phys, h2.pml4.trans h1.pml4, h2.tasks.trans h1.tasks⟩

theorem modifyCurrent {f : Process → Process} (h : k.modifyCurrent f = some k') : OnlyProcesses k k' := by
  obtain ⟨g, p, -, -, rfl⟩ := Kernel.modifyCurrent_spec h
  exact ⟨rfl, rfl, rfl⟩

theorem modifyCurrent_getD {f : Process → Process} : OnlyProcesses k ((k.modifyCurrent f).getD k) := by
  cases h : k.modifyCurrent f with
  | none => exact refl
  | some k' => exact modifyCurrent h

theorem allocVma {start len : Nat} {prot flags : BitVec 32} (h : k.allocVma start len prot flags = some k') :
    OnlyProcesses k k' := by
  simp only [Kernel.allocVma, Option.bind_eq_bind, Option.bind_eq_some_iff] at h
  obtain ⟨_, -, _, -, h⟩ := h
  exact modifyCurrent h

end OnlyProcesses

/-- A call by a process whose address space is the tree at `root`. -/
structure LowCall (k k' : Kernel) (root : Nat) : Prop where
  phys : LowStep k.phys k'.phys root
  pml4 : k'.currentPml4 = k.currentPml4

variable {k k' : Kernel}

theorem LowCall.of_only (h : UserSpace k.phys root) (ho : OnlyProcesses k k') :
    LowCall k k' root := by
  refine ⟨?_, ho.pml4⟩
  rw [ho.phys]
  exact .refl h

theorem LowCall.of_phys (h : LowStep k.phys s root) :
    LowCall k (k.setPhys s) root := ⟨h, rfl⟩

theorem LowCall.trans {k'' : Kernel} (h1 : LowCall k k' root) (h2 : LowCall k' k'' root) :
    LowCall k k'' root := ⟨h1.phys.trans h2.phys, h2.pml4.trans h1.pml4⟩

theorem LowCall.only {k'' : Kernel} (h : LowCall k k' root) (ho : OnlyProcesses k' k'') :
    LowCall k k'' root := h.trans (.of_only h.phys.space ho)

inductive MmOp
  | mmap (addr len : Word) (prot flags fd : BitVec 32) (off : Word)
  | munmap (addr len : Word)
  | mprotect (addr len prot : Word)
  | brk (addr : Word)

/-- A call, with its result; `none` when it panics. -/
def MmOp.run (k : Kernel) : MmOp → Option (Except SysError Nat × Kernel)
  | .mmap addr len prot flags fd off => CoreOS.mmap k addr len prot flags fd off
  | .munmap addr len => some (CoreOS.munmap k addr len)
  | .mprotect addr len prot => some (CoreOS.mprotect k addr len prot)
  | .brk addr => CoreOS.brk k addr

/-- Where the range of an `mmap` starts: without an address, at the reservation
pointer. -/
def mmapPlace (k : Kernel) (addr : Word) : Nat :=
  if addr = 0 then roundPage ((k.currentProcess.map Process.nextMmapBase).getD 0) else pageBase addr.toNat

/-- The call comes to no page: its arguments are refused, a region has no place or no
slot, no region has the range, or the break does not move up. -/
def MmOp.Refused (k : Kernel) : MmOp → Bool
  | .mmap addr len prot flags fd off => (mmapRefused len flags fd off).isSome ||
    ((mmapStart k addr (roundPage len.toNat) flags).bind fun (start, k) =>
      if k.regionConflicts start (roundPage len.toNat) then none
      else k.allocVma start (roundPage len.toNat) prot flags).isNone
  | .munmap addr len | .mprotect addr len _ =>
    addr = 0 ∨ len = 0 ∨ k.findVmaExact (pageBase addr.toNat) (roundPage len.toNat) = none
  | .brk addr => addr.toNat ≤ k.currentBrk

/-- The range that the call names ends at or below `userTop`. -/
def MmOp.EndsBelow (k : Kernel) : MmOp → Prop
  | .mmap addr len _ _ _ _ => mmapPlace k addr + len.toNat ≤ userTop
  | .munmap addr len | .mprotect addr len _ => pageBase addr.toNat + len.toNat ≤ userTop
  | .brk addr => addr.toNat ≤ userTop

instance {k : Kernel} {op : MmOp} : Decidable (op.EndsBelow k) :=
  match op with
  | .mmap .. | .munmap .. | .mprotect .. | .brk .. => inferInstanceAs (Decidable (_ ≤ _))

/-- The condition on a call. -/
def MmOp.Below (k : Kernel) (op : MmOp) : Prop := op.Refused k = true ∨ op.EndsBelow k

instance {k : Kernel} {op : MmOp} : Decidable (op.Below k) := inferInstanceAs (Decidable (_ ∨ _))

theorem roundPage_below {n : Nat} (h : n ≤ userTop) : roundPage n ≤ userTop := by
  rw [roundPage, wrappingAdd_of_lt (by unfold userTop at h; unfold usizeMod; omega), pageBase]
  unfold pageSize userTop at *
  omega

theorem roundPage_range {start len : Nat} (hstart : pageSize ∣ start) (htop : start + len ≤ userTop) :
    roundPage len / pageSize * pageSize = roundPage len ∧ len ≤ roundPage len ∧
      start + roundPage len / pageSize * pageSize ≤ userTop := by
  have hdvd : pageSize ∣ roundPage len := pageSize_dvd_pageBase _
  rw [Nat.div_mul_cancel hdvd]
  refine ⟨rfl, ?_⟩
  rw [roundPage, wrappingAdd_of_lt (by unfold userTop at htop; unfold usizeMod; omega), pageBase]
  unfold pageSize userTop at *
  omega

theorem brkPages_range {old new : Nat} (hlt : old < new) (htop : new ≤ userTop) :
    roundPage old % pageSize = 0 ∧ roundPage old + brkPages old new * pageSize ≤ userTop := by
  have hend := roundPage_below htop
  refine ⟨pageBase_aligned _, ?_⟩
  have hle : roundPage old ≤ userTop := roundPage_below (by omega)
  have := Nat.div_mul_le_self (roundPage new - roundPage old) pageSize
  unfold brkPages
  omega

theorem mmapPlace_dvd {addr : Word} : pageSize ∣ mmapPlace k addr := by
  unfold mmapPlace
  split <;> exact pageSize_dvd_pageBase _

/-- Where the range of an `mmap` starts. -/
theorem mmapStart_reserves {k1 : Kernel} {addr : Word} {flags : BitVec 32} {n start : Nat} (h : mmapStart k addr n flags = some (start, k1)) :
    start = mmapPlace k addr ∧ OnlyProcesses k k1 ∧ k1.openFiles = k.openFiles ∧ k1.fs = k.fs ∧
      k1.currentProcess.map Process.vmas = k.currentProcess.map Process.vmas ∧
      ∀ p1, k1.currentProcess = some p1 → ∃ p, k.currentProcess = some p ∧ p1 = { p with nextMmapBase := p1.nextMmapBase } := by
  unfold mmapStart at h
  unfold mmapPlace
  split at h
  next h0 =>
    rw [if_pos h0]
    simp only [Kernel.reserveMmapBase, Option.bind_eq_bind, Option.bind_eq_some_iff] at h
    obtain ⟨p, hp, h⟩ := h
    split at h
    · obtain ⟨k', hk', he⟩ := Option.map_eq_some_iff.mp h
      obtain ⟨hstart, rfl⟩ := Prod.mk.inj he
      obtain ⟨p', hp', hcur⟩ := Kernel.modifyCurrent_current hk'
      obtain ⟨g, q, -, -, hset⟩ := Kernel.modifyCurrent_spec hk'
      refine ⟨by rw [hp]; exact hstart.symm, .modifyCurrent hk', by rw [hset]; rfl, by rw [hset]; rfl, by rw [hcur, hp']; rfl,
        fun p1 hp1 => ⟨p', hp', ?_⟩⟩
      cases hcur.symm.trans hp1
      rfl
    · cases h
  next h0 =>
    rw [if_neg h0]
    dsimp only at h
    split at h
    · cases h
      exact ⟨rfl, .refl, rfl, rfl, rfl, fun p hp => ⟨p, hp, rfl⟩⟩
    · cases h

section Calls

variable {k k' : Kernel} {root : Nat} {r : Except SysError Nat} (hroot : k.currentPml4 = root * pageSize)
  (hs : UserSpace k.phys root)
include hroot hs

variable {addr len : Word}

theorem munmap_low (hb : (MmOp.munmap addr len).Below k) (h : munmap k addr len = (r, k')) :
    LowCall k k' root := by
  unfold munmap at h
  split at h
  · cases h
    exact .of_only hs .refl
  next hargs =>
  dsimp only at h
  split at h
  · cases h
    exact .of_only hs .refl
  next i hfind =>
    have hb := hb.resolve_left (by simpa [MmOp.Refused, hfind] using hargs)
    rw [hroot] at h
    cases h
    obtain ⟨-, -, htop⟩ := roundPage_range (pageSize_dvd_pageBase _) hb
    have hgone := unmapPages_range hs (pageBase_aligned _) htop
    exact (LowCall.of_phys ⟨hgone.space, hgone.kernel⟩).only .modifyCurrent_getD

theorem mprotect_low {prot : Word} (hb : (MmOp.mprotect addr len prot).Below k)
    (h : mprotect k addr len prot = (r, k')) : LowCall k k' root := by
  unfold mprotect at h
  split at h
  · cases h
    exact .of_only hs .refl
  next hargs =>
  dsimp only at h
  split at h
  · cases h
    exact .of_only hs .refl
  next i hfind =>
    have hb := hb.resolve_left (by simpa [MmOp.Refused, hfind] using hargs)
    obtain ⟨-, -, htop⟩ := roundPage_range (pageSize_dvd_pageBase _) hb
    rw [← Nat.zero_add (roundPage _ / _)] at htop
    rw [hroot] at h
    split at h
    next s he =>
      cases h
      have hp := protectPages_low hs (pageBase_aligned _) htop he
      exact (LowCall.of_phys hp).only .modifyCurrent_getD
    next s he =>
      cases h
      exact ⟨protectPages_low hs (pageBase_aligned _) htop he, rfl⟩

theorem brk_low (hb : (MmOp.brk addr).Below k) (h : brk k addr = some (r, k')) :
    LowCall k k' root := by
  have hlow : ∀ {o s}, k.currentBrk < addr.toNat → Phys.mapPages (root * pageSize) (roundPage k.currentBrk) heapFlags none
      (brkPages k.currentBrk addr.toNat) 0 k.phys = some (o, s) → LowStep k.phys s root := by
    intro o s hlt hpages
    obtain ⟨halign, htop⟩ := brkPages_range hlt (hb.resolve_left (by simp [MmOp.Refused, hlt]))
    exact (mapPages_low hs halign htop hpages).1
  cases brk_cases h with
  | asked => exact .of_only hs .refl
  | lowered => exact .of_only hs .modifyCurrent_getD
  | raised hlt hpages =>
    rw [hroot] at hpages
    exact (LowCall.of_phys (hlow hlt hpages)).only .modifyCurrent_getD
  | noFrame hlt hpages =>
    rw [hroot] at hpages
    exact ⟨hlow hlt hpages, rfl⟩

theorem mmap_low {off : Word} {prot flags fd : BitVec 32} (hb : (MmOp.mmap addr len prot flags fd off).Below k)
    (h : mmap k addr len prot flags fd off = some (r, k')) :
    LowCall k k' root ∧ ∀ start, r = .ok start → start + len.toNat ≤ userTop := by
  have hplaced : ∀ {start k1}, mmapStart k addr (roundPage len.toNat) flags = some (start, k1) → LowCall k k1 root :=
    fun hplace => .of_only hs (mmapStart_reserves hplace).2.1
  have hrecorded : ∀ {start k1 k2}, MmapRegion k addr len prot flags start k1 k2 → LowCall k k2 root :=
    fun hregion => (hplaced hregion.place).only (.allocVma hregion.record)
  have htop : ∀ {start k1 k2}, mmapRefused len flags fd off = none → MmapRegion k addr len prot flags start k1 k2 →
      start + len.toNat ≤ userTop := by
    intro start k1 k2 hchecked hregion
    have hb := hb.resolve_left (by simp [MmOp.Refused, hchecked, hregion.place, hregion.free, hregion.record])
    rw [(mmapStart_reserves hregion.place).1]
    exact hb
  have hpages : ∀ {start k1 k2}, mmapRefused len flags fd off = none → MmapRegion k addr len prot flags start k1 k2 →
      k2.currentPml4 = root * pageSize ∧ start % pageSize = 0 ∧
        start + roundPage len.toNat / pageSize * pageSize ≤ userTop := by
    intro start k1 k2 hchecked hregion
    have hdvd : pageSize ∣ start := (mmapStart_reserves hregion.place).1 ▸ mmapPlace_dvd
    exact ⟨(hrecorded hregion).pml4.trans hroot, Nat.mod_eq_zero_of_dvd hdvd,
      (roundPage_range hdvd (htop hchecked hregion)).2.2⟩
  cases mmap_cases h with
  | refused e => exact ⟨.of_only hs .refl, nofun⟩
  | noRegion e _ hplace => exact ⟨hplaced hplace, nofun⟩
  | noFile _ hregion _ => exact ⟨hrecorded hregion, nofun⟩
  | mapped hchecked hregion _ hm =>
    obtain ⟨hpml4, halign, hend⟩ := hpages hchecked hregion
    have h2 := hrecorded hregion
    rw [hpml4] at hm
    refine ⟨h2.trans (.of_phys (mapPages_low h2.phys.space halign hend hm).1), fun x hx => ?_⟩
    cases hx
    exact htop hchecked hregion
  | @noFrame start n k1 k2 k3 seed s hchecked hregion _ hm hundone =>
    obtain ⟨hpml4, halign, hend⟩ := hpages hchecked hregion
    have h2 := hrecorded hregion
    rw [hpml4] at hm hundone
    obtain ⟨hm, hle⟩ := mapPages_low h2.phys.space halign hend hm
    have hgone := unmapPages_range hm.space halign
      (Nat.le_trans (Nat.add_le_add_left (Nat.mul_le_mul_right pageSize hle) start) hend)
    have h3 : LowCall k k3 root := hundone ▸ h2.trans (.of_phys (hm.trans ⟨hgone.space, hgone.kernel⟩))
    refine ⟨?_, nofun⟩
    cases k3.findVmaExact start (roundPage len.toNat) with
    | none => exact h3
    | some i =>
      rw [Option.elim_some]
      exact h3.only .modifyCurrent_getD

end Calls

/-! ## Runs -/

/-- The kernel and the ranges that successful `mmap` calls returned. -/
structure MmRun where
  kernel : Kernel
  ranges : List (Nat × Nat)

def MmRun.step (s : MmRun) (op : MmOp) : Option MmRun :=
  (op.run s.kernel).map fun (r, k) =>
    match op, r with
    | .mmap _ len _ _ _ _, .ok start => ⟨k, (start, len.toNat) :: s.ranges⟩
    | _, _ => ⟨k, s.ranges⟩

/-- What a run of calls keeps, started with the tables `mem`. -/
structure MmRun.Low (mem : Mem) (root : Nat) (s : MmRun) : Prop where
  pml4 : s.kernel.currentPml4 = root * pageSize
  space : UserSpace s.kernel.phys root
  kernel : SameKernelHalf mem s.kernel.phys.mem root
  ranges : ∀ x ∈ s.ranges, x.1 + x.2 ≤ userTop

/-- **One call**. -/
theorem MmRun.Low.step {mem : Mem} {s t : MmRun} {op : MmOp} (h : s.Low mem root) (hb : op.Below s.kernel)
    (ht : s.step op = some t) : t.Low mem root := by
  obtain ⟨⟨r, k⟩, hr, rfl⟩ := Option.map_eq_some_iff.mp ht
  have hcall : ∀ {ranges}, LowCall s.kernel k root → (∀ x ∈ ranges, x.1 + x.2 ≤ userTop) →
      MmRun.Low mem root ⟨k, ranges⟩ := by
    intro ranges hc hx
    exact ⟨hc.pml4.trans h.pml4, hc.phys.space, h.kernel.trans hc.phys.kernel, hx⟩
  cases op with
  | mmap addr len prot flags fd off =>
    obtain ⟨hc, hstart⟩ := mmap_low h.pml4 h.space hb hr
    cases r with
    | ok start =>
      refine hcall hc fun x hx => ?_
      rcases List.mem_cons.mp hx with rfl | hx
      · exact hstart start rfl
      · exact h.ranges x hx
    | error e => exact hcall hc h.ranges
  | munmap addr len => exact hcall (munmap_low h.pml4 h.space hb (Option.some.inj hr)) h.ranges
  | mprotect addr len prot => exact hcall (mprotect_low h.pml4 h.space hb (Option.some.inj hr)) h.ranges
  | brk addr => exact hcall (brk_low h.pml4 h.space hb hr) h.ranges

/-- **The kernel half is untouched, where ranges lie below `userTop`.** From
any state of a process that owns the frames of its pages, a run of `mmap`,
`munmap`, `mprotect` and `brk` in which every call names a range below
`userTop` or comes to no page changes no entry of the tables behind the upper half
of the root table, and every range that a successful `mmap` returns lies below
`userTop`. -/
theorem kernel_half_untouched (k : Kernel) (root : Nat) (hroot : k.currentPml4 = root * pageSize)
    (hspace : UserSpace k.phys root) (ops : List MmOp) (s : MmRun)
    (hb : Lts.Meets MmRun.step (fun s op => op.Below s.kernel) ⟨k, []⟩ ops)
    (h : Lts.exec MmRun.step ⟨k, []⟩ ops = some s) :
    SameKernelHalf k.phys.mem s.kernel.phys.mem root ∧ ∀ x ∈ s.ranges, x.1 + x.2 ≤ userTop := by
  have hstart : MmRun.Low k.phys.mem root ⟨k, []⟩ := ⟨hroot, hspace, .refl, fun _ hx => absurd hx List.not_mem_nil⟩
  have hlow := Lts.exec_invariant_of_meets (MmRun.Low k.phys.mem root) (fun _ _ _ hs hC ht => hs.step hC ht) hstart hb h
  exact ⟨hlow.kernel, hlow.ranges⟩

/-- A process without pages yet. -/
def emptyProcess : Kernel :=
  (((Kernel.statics emptyTree ⟨0, 0⟩ 0x1000).initMainTask 0).setProcess 0 (some (.newLeader 1 0 []))).setThread 0
    (some (.newLeader 1 0 0 0))

/-- It maps two pages, grows its heap by one and unmaps the two again. -/
theorem kernel_half_untouched_emptyProcess :
    ∃ s, Lts.exec MmRun.step ⟨emptyProcess, []⟩
        [.mmap 0 0x2000 3 0x22 (-1) 0, .brk 0x40001000, .munmap 0x100000000 0x2000] = some s ∧
      s.ranges = [(0x100000000, 0x2000)] ∧ (SameKernelHalf emptyProcess.phys.mem s.kernel.phys.mem 1 ∧
        ∀ x ∈ s.ranges, x.1 + x.2 ≤ userTop) := by
  have hrun : (Lts.exec MmRun.step ⟨emptyProcess, []⟩
      [.mmap 0 0x2000 3 0x22 (-1) 0, .brk 0x40001000, .munmap 0x100000000 0x2000]).map MmRun.ranges =
      some [(0x100000000, 0x2000)] := by
    decide +kernel
  obtain ⟨s, hs, hranges⟩ := Option.map_eq_some_iff.mp hrun
  exact ⟨s, hs, hranges,
    kernel_half_untouched emptyProcess 1 rfl emptyTree_userSpace _ s (by decide +kernel) hs⟩

/-- **`MAP_FIXED` reaches the kernel half.** A page asked for at
`0xFFFF900000000000` is mapped there, through entry 288 of the root table. -/
theorem mmap_fixed_reaches_kernel_half :
    UserSpace emptyProcess.phys 1 ∧ ∃ s, Lts.exec MmRun.step ⟨emptyProcess, []⟩
        [.mmap 0xFFFF900000000000 0x1000 3 0x32 (-1) 0] = some s ∧
      ¬ SameKernelHalf emptyProcess.phys.mem s.kernel.phys.mem 1 ∧ ¬ ∀ x ∈ s.ranges, x.1 + x.2 ≤ userTop := by
  have hrun : (Lts.exec MmRun.step ⟨emptyProcess, []⟩ [.mmap 0xFFFF900000000000 0x1000 3 0x32 (-1) 0]).map
      (fun s => (s.ranges, decide (tables s.kernel.phys.mem 1 288 = 0))) =
      some ([(0xFFFF900000000000, 0x1000)], false) := by
    decide +kernel
  obtain ⟨s, hs, he⟩ := Option.map_eq_some_iff.mp hrun
  obtain ⟨hranges, hentry⟩ := Prod.mk.inj he
  refine ⟨emptyTree_userSpace, s, hs, fun hsame => ?_, fun hbelow => ?_⟩
  · have hroot := (hsame [] 288 (by simp) (by simp [UserPath])).2 1 rfl
    rw [hroot, show tables emptyProcess.phys.mem 1 288 = 0 from emptyTree_tables 1 288] at hentry
    simp at hentry
  · have := hbelow (0xFFFF900000000000, 0x1000) (by simp [hranges])
    unfold userTop at this
    omega

end CoreOS
