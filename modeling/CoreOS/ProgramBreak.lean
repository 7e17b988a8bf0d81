/-
The program break. `brk_impl` maps pages when the break is raised and does not
unmap them when it is lowered, and it does not look at what is mapped above the
break. A call changes no page outside the range it names, and one that is raised
keeps every page of the process exactly when the pages of that range were not there
(`brk_only_adds`): then, over any sequence of calls, every page stays in its frame
with its bytes. Where they were, it drops them: lowering the break by a page and
raising it again gives the page another frame, and the first one is not given back
(`brk_replaces_page`).
-/
import CoreOS.KernelHalf

namespace CoreOS

open ByteMem

/-! ## One call -/

/-- The pages that a call is to map are not there. -/
def BrkFresh (k : Kernel) (root : Nat) (addr : Word) : Prop :=
  ∀ i < brkPages k.currentBrk addr.toNat, k.phys.translatePage (root * pageSize) (roundPage k.currentBrk + i * pageSize) = none

instance {k : Kernel} {root : Nat} {addr : Word} : Decidable (BrkFresh k root addr) :=
  inferInstanceAs (Decidable (∀ i < _, _ = none))

/-- The condition on a call: it names an address below `userTop`, and when it raises
the break the pages it is to map are not there. -/
def BrkCond (root : Nat) (k : Kernel) (addr : Word) : Prop :=
  addr.toNat ≤ userTop ∧ (k.currentBrk < addr.toNat → BrkFresh k root addr)

instance {root : Nat} {k : Kernel} {addr : Word} : Decidable (BrkCond root k addr) :=
  inferInstanceAs (Decidable (_ ∧ (_ → _)))

/-- Every page of the process is in its frame. -/
def PagesKept (s s' : Phys) (root : Nat) : Prop :=
  ∀ v m, PageNo.User v → pageMap s.mem root v = some m → pageMap s'.mem root v = some m

section Call

variable {k k' : Kernel} {root : Nat} {r : Except SysError Nat} {addr : Word}

theorem RangeMapped.refl {s : Phys} {start : Nat} (h : UserHalf s root) : RangeMapped s s root start 0 none where
  half := h
  byte := fun x _ => by
    rw [if_neg (by rw [Nat.zero_mul]; omega)]
  page := fun _ _ _ => rfl
  new := fun v ⟨j, _, hj, _⟩ => by omega
  used := fun _ hg => hg
  kernel := fun _ => .refl

/-- **A call of `brk`** maps a range of pages from the old break on, all the way to
the new one if it raises the break. -/
theorem brk_maps (hroot : k.currentPml4 = root * pageSize) (hspace : UserHalf k.phys root) (htop : addr.toNat ≤ userTop)
    (h : brk k addr = some (r, k')) :
    k'.currentPml4 = root * pageSize ∧ ∃ m ≤ brkPages k.currentBrk addr.toNat,
      RangeMapped k.phys k'.phys root (roundPage k.currentBrk) m none ∧ (0 < m → k.currentBrk < addr.toNat) ∧
      (k.currentBrk < addr.toNat → r = .ok addr.toNat → m = brkPages k.currentBrk addr.toNat) := by
  cases brk_cases h with
  | asked h0 => exact ⟨hroot, 0, Nat.zero_le _, .refl hspace, by omega, by omega⟩
  | lowered hle =>
    have ho : OnlyProcesses k (k.setBrk addr.toNat) := .modifyCurrent_getD
    refine ⟨ho.pml4.trans hroot, 0, Nat.zero_le _, ?_, by omega, by omega⟩
    rw [ho.phys]
    exact .refl hspace
  | @raised s hlt hpages =>
    obtain ⟨halign, hend⟩ := brkPages_range hlt htop
    have ho : OnlyProcesses (k.setPhys s) ((k.setPhys s).setBrk addr.toNat) := .modifyCurrent_getD
    rw [hroot] at hpages
    obtain ⟨-, -, -, -, hmapped⟩ := hspace.mapPages halign hend hpages
    rw [Option.getD_none] at hmapped
    refine ⟨ho.pml4.trans hroot, _, Nat.le_refl _, ?_, fun _ => hlt, fun _ _ => rfl⟩
    rw [ho.phys]
    exact hmapped
  | @noFrame s n hlt hpages =>
    obtain ⟨halign, hend⟩ := brkPages_range hlt htop
    rw [hroot] at hpages
    obtain ⟨-, -, hle, -, hmapped⟩ := hspace.mapPages halign hend hpages
    rw [Option.getD_some] at hle hmapped
    refine ⟨hroot, n, hle, hmapped, fun _ => hlt, fun _ hr => ?_⟩
    rw [Except.ok.injEq] at hr
    omega

theorem RangeMapped.kept {s s' : Phys} {start n : Nat} {seed : Option (List Byte)} (h : RangeMapped s s' root start n seed)
    (hspace : UserHalf s root) (halign : start % pageSize = 0) (htop : start + n * pageSize ≤ userTop)
    (hfresh : ∀ i < n, s.translatePage (root * pageSize) (start + i * pageSize) = none) :
    PagesKept s s' root ∧ ∀ x < userTop, ∀ b, userByte s (root * pageSize) x = some b →
      userByte s' (root * pageSize) x = some b := by
  have hnone := hspace.unmapped halign htop hfresh
  refine ⟨fun v m hv hm => ?_, fun x hx b hb => ?_⟩
  · by_cases hin : PagesOf start 0 n v
    · rw [hspace.pageMap hv, hnone v hin] at hm
      cases hm
    · rw [h.page v hv hin, hm]
  · rw [h.byte x hx, if_neg, hb]
    intro hin
    have hpage := hnone _ ((pagesOf_pageNo halign htop hx).mpr (by rw [Nat.zero_mul, Nat.add_zero]; exact hin))
    rw [hspace.userByte hx, UserSpace.userByte hspace hx, hpage] at hb
    cases hb

theorem RangeMapped.replaced {s s' : Phys} {start n : Nat} {seed : Option (List Byte)}
    (h : RangeMapped s s' root start n seed) (hspace : UserHalf s root) {v : PageNo} (hv : v.User)
    (hin : PagesOf start 0 n v) {m : Mapping} (hm : pageMap s.mem root v = some m) : pageMap s'.mem root v ≠ some m := by
  intro hsame
  obtain ⟨g, hfree, m', hm', hframe⟩ := h.new v hin
  cases hsame.symm.trans hm'
  rw [hspace.pageMap hv] at hm
  obtain ⟨e, he, rfl⟩ := Option.map_eq_some_iff.mp hm
  have hg : leafFrame e = g := Nat.eq_of_mul_eq_mul_right (by decide) ((leafFrame_addr e).symm.trans hframe)
  have hused : s.pmm.isFree (leafFrame e) = false := hspace.used v e hv he
  rw [hg, (mem_avail.mp hfree).2.2] at hused
  cases hused

end Call

/-! ## Sequences of calls -/

/-- A call of `brk`, whatever it returns. -/
def brkStep (k : Kernel) (addr : Word) : Option Kernel := (brk k addr).map Prod.snd

/-- What holds after calls that started with memory `s`. -/
structure HeapGrown (s : Phys) (root : Nat) (k : Kernel) : Prop where
  pml4 : k.currentPml4 = root * pageSize
  space : UserHalf k.phys root
  pages : PagesKept s k.phys root
  byte : ∀ x < userTop, ∀ b, userByte s (root * pageSize) x = some b → userByte k.phys (root * pageSize) x = some b

/-- **One call** that meets the condition. -/
theorem HeapGrown.step {s : Phys} {root : Nat} {k k' : Kernel} {addr : Word} (h : HeapGrown s root k)
    (hcond : BrkCond root k addr) (hstep : brkStep k addr = some k') : HeapGrown s root k' := by
  obtain ⟨⟨r, k1⟩, hbrk, rfl⟩ := Option.map_eq_some_iff.mp hstep
  obtain ⟨hpml4, m, hle, hmapped, hraised, -⟩ := brk_maps h.pml4 h.space hcond.1 hbrk
  have hkept : PagesKept k.phys k1.phys root ∧ ∀ x < userTop, ∀ b, userByte k.phys (root * pageSize) x = some b →
      userByte k1.phys (root * pageSize) x = some b := by
    rcases Nat.eq_zero_or_pos m with rfl | hpos
    · refine ⟨fun v p hv hp => ?_, fun x hx b hb => ?_⟩
      · rw [hmapped.page v hv fun ⟨j, _, hj, _⟩ => by omega, hp]
      · rw [hmapped.byte x hx, if_neg (by rw [Nat.zero_mul]; omega), hb]
    · have hlt := hraised hpos
      obtain ⟨halign, hend⟩ := brkPages_range hlt hcond.1
      have hend' : roundPage k.currentBrk + m * pageSize ≤ userTop :=
        Nat.le_trans (Nat.add_le_add_left (Nat.mul_le_mul_right _ hle) _) hend
      exact hmapped.kept h.space halign hend' fun i hi => hcond.2 hlt i (by omega)
  exact ⟨hpml4, hmapped.half, fun v p hv hp => hkept.1 v p hv (h.pages v p hv hp),
    fun x hx b hb => hkept.2 x hx b (h.byte x hx b hb)⟩

/-- **`brk` only adds pages**, where it names addresses below `userTop` and the pages
it is to map are not there. A call changes no page outside the range between the two
breaks, and one that raises the break keeps every page exactly when those of the range
were not there. Over a sequence of calls of which each meets the condition, every page
stays in its frame, with its bytes. -/
theorem brk_only_adds (k : Kernel) (root : Nat) (hroot : k.currentPml4 = root * pageSize) (hspace : UserHalf k.phys root) :
    (∀ addr r k', addr.toNat ≤ userTop → brk k addr = some (r, k') →
      (∀ v : PageNo, v.User → ¬ PagesOf (roundPage k.currentBrk) 0 (brkPages k.currentBrk addr.toNat) v →
        pageMap k'.phys.mem root v = pageMap k.phys.mem root v) ∧
      (∀ x < userTop, ¬ (roundPage k.currentBrk ≤ x ∧ x < roundPage k.currentBrk +
        brkPages k.currentBrk addr.toNat * pageSize) →
        userByte k'.phys (root * pageSize) x = userByte k.phys (root * pageSize) x) ∧
      (k.currentBrk < addr.toNat → r = .ok addr.toNat → (PagesKept k.phys k'.phys root ↔ BrkFresh k root addr))) ∧
    ∀ addrs k', Lts.Meets brkStep (BrkCond root) k addrs → Lts.exec brkStep k addrs = some k' →
      PagesKept k.phys k'.phys root ∧ ∀ x < userTop, ∀ b, userByte k.phys (root * pageSize) x = some b →
        userByte k'.phys (root * pageSize) x = some b := by
  refine ⟨fun addr r k' htop h => ?_, fun addrs k' hcond h => ?_⟩
  · obtain ⟨-, m, hle, hmapped, -, hall⟩ := brk_maps hroot hspace htop h
    refine ⟨fun v hv hout => hmapped.page v hv fun hin => hout ?_, fun x hx hout => ?_, fun hlt hr => ?_⟩
    · obtain ⟨j, hj, hjm, rfl⟩ := hin
      exact ⟨j, hj, by omega, rfl⟩
    · have := Nat.mul_le_mul_right pageSize hle
      rw [hmapped.byte x hx, if_neg (by omega)]
    · obtain ⟨halign, hend⟩ := brkPages_range hlt htop
      obtain rfl := hall hlt hr
      refine ⟨fun hkept i hi => ?_, fun hfresh => (hmapped.kept hspace halign hend hfresh).1⟩
      have hin : PagesOf (roundPage k.currentBrk) 0 (brkPages k.currentBrk addr.toNat)
        (pageNo (roundPage k.currentBrk + i * pageSize)) := ⟨i, Nat.zero_le i, hi, rfl⟩
      have hv := hin.user hend
      -- a page that was there would be in another frame now
      rw [translatePage_eq (by rw [Nat.add_mul_mod_self_right, halign]), Option.map_eq_none_iff]
      by_contra hne
      obtain ⟨m, hm⟩ := Option.ne_none_iff_exists'.mp hne
      exact hmapped.replaced hspace hv hin hm (hkept _ m hv hm)
  · have hstart : HeapGrown k.phys root k := ⟨hroot, hspace, fun _ _ _ hp => hp, fun _ _ _ hb => hb⟩
    have hgrown := Lts.exec_invariant_of_meets (HeapGrown k.phys root) (fun _ _ _ hk hC hs => hk.step hC hs) hstart hcond h
    exact ⟨hgrown.pages, hgrown.byte⟩

/-- A process with one page of heap. -/
def heapProcess : Kernel := ((brk emptyProcess 0x40001000).map Prod.snd).getD emptyProcess

theorem heapProcess_space : heapProcess.currentPml4 = 1 * pageSize ∧ UserHalf heapProcess.phys 1 := by
  have hsome : (brk emptyProcess 0x40001000).isSome = true := by decide +kernel
  obtain ⟨⟨r, k⟩, hk⟩ := Option.isSome_iff_exists.mp hsome
  have hspace : UserHalf emptyProcess.phys 1 := emptyTree_userSpace.lowerHalf
  obtain ⟨hpml4, m, -, hmapped, -⟩ := brk_maps rfl hspace (by decide) hk
  rw [heapProcess, hk]
  exact ⟨hpml4, hmapped.half⟩

/-- It lowers its break to inside the page and raises it by two pages. -/
theorem brk_only_adds_heapProcess : userByte heapProcess.phys (1 * pageSize) 0x40000000 = some 0 ∧
    ∃ k', Lts.exec brkStep heapProcess [0x40000800, 0x40003000] = some k' ∧
      userByte k'.phys (1 * pageSize) 0x40000000 = some 0 := by
  have hthere : userByte heapProcess.phys (1 * pageSize) 0x40000000 = some 0 := by decide +kernel
  have hsome : (Lts.exec brkStep heapProcess [0x40000800, 0x40003000]).isSome = true := by decide +kernel
  obtain ⟨k', hk'⟩ := Option.isSome_iff_exists.mp hsome
  obtain ⟨hpml4, hspace⟩ := heapProcess_space
  obtain ⟨-, hbytes⟩ := (brk_only_adds heapProcess 1 hpml4 hspace).2 _ k' (by decide +kernel) hk'
  exact ⟨hthere, k', hk', hbytes 0x40000000 (by decide) 0 hthere⟩

/-- **`brk` replaces a page of the heap.** The break is lowered by a page and raised
again: the page was there and is in another frame now, and its first one was not given
back. -/
theorem brk_replaces_page :
    heapProcess.phys.translatePage (1 * pageSize) 0x40000000 = some 0x2000 ∧
    ∃ k', Lts.exec brkStep heapProcess [0x40000000, 0x40001000] = some k' ∧
      k'.phys.translatePage (1 * pageSize) 0x40000000 = some 0x6000 ∧ k'.phys.pmm.isFree 2 = false := by
  have hrun : (Lts.exec brkStep heapProcess [0x40000000, 0x40001000]).map (fun k =>
      (k.phys.translatePage (1 * pageSize) 0x40000000, k.phys.pmm.isFree 2)) = some (some 0x6000, false) := by
    decide +kernel
  obtain ⟨k', hk', he⟩ := Option.map_eq_some_iff.mp hrun
  obtain ⟨hpage, hused⟩ := Prod.mk.inj he
  exact ⟨by decide +kernel, k', hk', hpage, hused⟩

end CoreOS
