/-
Whole runs of the allocator, with the owners of its blocks writing to them and
with other clients of the frame allocator at work beside it. What one call of
`alloc` or `dealloc` does is said once (`alloc_cases`, `dealloc_spec`): it
keeps the invariant of the heap and only moves frames between the free ones
and its own.
-/
import CoreOS.HeapCore

namespace CoreOS

open ByteMem FreeList
open Function (update update_of_ne update_self)

/-- A frame the allocator holds or could get. -/
def InPool (h : Heap) (home : Nat → Option Home) (f : Nat) : Prop := h.phys.pmm.isFree f = true ∨ home f ≠ none

/-- Every slab has a live slot. -/
def Busy (live : Nat → Option Layout) (home : Nat → Option Home) : Prop :=
  ∀ f ci j, home f = some (.slab ci j) → ∃ a, InSlot f ci a ∧ live a ≠ none

theorem Busy.mono {live live' : Nat → Option Layout} {home home' : Nat → Option Home} (hb : Busy live home)
    (hlive : ∀ a, live a ≠ none → live' a ≠ none)
    (hhome : ∀ f ci j, home' f = some (.slab ci j) → home f = some (.slab ci j)) : Busy live' home' := by
  intro f ci j hf
  obtain ⟨a, ha, hl⟩ := hb f ci j (hhome f ci j hf)
  exact ⟨a, ha, hlive a hl⟩

theorem live_mono {live : Nat → Option Layout} {ptr : Nat} {layout : Layout} (a : Nat) (h : live a ≠ none) :
    update live ptr (some layout) a ≠ none := by
  by_cases ha : a = ptr
  · simp [ha]
  · rwa [update_of_ne ha]

namespace Heap

variable {h h' : Heap} {live : Nat → Option Layout} {home : Nat → Option Home} {f ci j ptr : Nat} {layout : Layout}

/-! ## Allocation -/

/-- **Everything taking a slot does.** -/
theorem takeSlot_spec (hc : HeapCore h live home) (hf : home f = some (.slab ci j))
    (hfree : 0 < (h.slabs ci j).freeCount) (hcls : classFor (blockSize layout) = some ci) :
    ∃ ptr h', h.takeSlot ci j = (ptr, h') ∧ InSlot f ci ptr ∧ live ptr = none ∧
      (∀ i < slotSize ci, h'.phys.mem (v2p ptr + i) = 0) ∧ h'.phys.pmm = h.phys.pmm ∧
      HeapCore h' (update live ptr (some layout)) home := by
  obtain ⟨hci, -, free, hok⟩ := hc.slab f ci j hf
  have hlt := hc.frame_lt (f := f) (by rw [hf]; nofun)
  cases free with
  | nil =>
    have := hok.count
    simp only [List.length_nil] at this
    omega
  | cons p free =>
    obtain ⟨hhead, -, -⟩ := hok.chain
    obtain ⟨hslot, hnone⟩ := (hok.mem_free p).mp List.mem_cons_self
    obtain ⟨h1, h2, -⟩ := hslot.bounds hci hlt
    have htake : h.takeSlot ci j =
        (p, ({ h with phys := { h.phys with mem := fill h.phys.mem (v2p p) (slotSize ci) 0 } } : Heap).setSlab ci j
          { h.slabs ci j with
            freeHead := nextFree h.phys.mem p, freeCount := (h.slabs ci j).freeCount - 1 }) := by
      rw [takeSlot, hhead]
      rfl
    refine ⟨p, _, htake, hslot, hnone, fun i hi => fill_in (by omega) (by omega), rfl, ?_⟩
    refine hc.update_slab hf (fun g hg => (hc.owned g hg).2.2) (fun x hx => fill_out (by omega))
      ⟨free, hok.take hci hlt⟩ (fun a ha => ?_) fun a l ha hl => ?_
    · have hap : a ≠ p := fun he => ha (he ▸ hslot)
      exact update_of_ne hap ..
    · by_cases hap : a = p
      · rw [hap, update_self] at hl
        cases hl
        exact hcls
      · rw [update_of_ne hap] at hl
        exact hc.class_of_slot hf ha hl

/-- **Everything `new_slab` does** when it succeeds. -/
theorem newSlab_spec (hc : HeapCore h live home) (hci : ci < numClasses) (hn : h.newSlab ci = some (j, h')) :
    ∃ f, home f = none ∧ h.phys.pmm.isFree f = true ∧
      (∀ g, h'.phys.pmm.isFree g = true ↔ h.phys.pmm.isFree g = true ∧ g ≠ f) ∧ 0 < (h'.slabs ci j).freeCount ∧
      HeapCore h' live (update home f (some (.slab ci j))) := by
  unfold newSlab at hn
  split at hn
  · cases hn
  next j' hj =>
  obtain ⟨hlt, hempty⟩ := findSlab_spec hj
  rcases h.phys.allocFrame_cases with ⟨f, phys, he, ht⟩ | ⟨he, -⟩
  · rw [he] at hn
    split at hn
    · cases hn
    next hp hpage =>
    cases hpage
    obtain ⟨head, mem, hs, hchain, hout⟩ := threadSlots_spec phys.mem hci ht.bound
    dsimp only at hn
    rw [hs] at hn
    cases hn
    have hfree : h.phys.pmm.isFree f = true := ht.run 0 (by decide)
    have hhome : home f = none := by
      by_contra hne
      rw [(hc.owned f hne).2.2] at hfree
      cases hfree
    have hiff : ∀ g, phys.pmm.isFree g = true ↔ h.phys.pmm.isFree g = true ∧ g ≠ f := fun g => by
      rw [ht.isFree g]
      refine and_congr_right fun _ => ?_
      omega
    have hslot : ∀ a, InSlot f ci a → live a = none := by
      intro a ha
      by_contra hl
      obtain ⟨l, hl⟩ := Option.ne_none_iff_exists'.mp hl
      exact hc.live_home hl (by rw [ha.frame hci ht.bound, hhome])
    obtain ⟨h16, h2048, -⟩ := slotSize_facts hci
    refine ⟨f, hhome, hfree, hiff, ?_, ?_⟩
    · rw [setSlab_self]
      exact Nat.div_pos (h2048.trans (by decide)) (by omega)
    · refine hc.add_slab hhome ht.pos ht.bound hci hlt (by simpa [SlabHeader.isEmptySlot] using hempty)
        (fun g hg => ?_) (fun x hx => ?_) ⟨_, SlabOK.fresh hci ht.bound hchain hslot⟩
      · have := hiff g
        rcases hg with hg | rfl
        · simpa [(hc.owned g hg).2.2] using this
        · simpa using this
      · have hsame := hout x hx
        rw [ht.mem, fill_out (by omega)] at hsame
        exact hsame
  · rw [he] at hn
    cases hn

/-- What a successful `alloc` leaves behind: a zeroed block that was not live,
and no frame gone to anyone but the allocator. -/
structure Served (h : Heap) (live : Nat → Option Layout) (home : Nat → Option Home) (layout : Layout) (ptr : Nat)
    (h' : Heap) (home' : Nat → Option Home) : Prop where
  ne_zero : ptr ≠ 0
  fresh : live ptr = none
  zero : ∀ i < layout.size, h'.phys.mem (v2p ptr + i) = 0
  core : HeapCore h' (update live ptr (some layout)) home'
  busy : Busy (update live ptr (some layout)) home'
  pool : ∀ f, InPool h' home' f ↔ InPool h home f

theorem served_slot (hc : HeapCore h live home) (hb : Busy live home) (hf : home f = some (.slab ci j))
    (hfree : 0 < (h.slabs ci j).freeCount) (hcls : classFor (blockSize layout) = some ci) :
    ∃ ptr h', h.takeSlot ci j = (ptr, h') ∧ Served h live home layout ptr h' home := by
  obtain ⟨hci, hsize⟩ := classFor_spec hcls
  have hle := (size_le_blockSize layout).trans hsize
  obtain ⟨ptr, h', he, hslot, hnone, hzero, hpmm, hc'⟩ := takeSlot_spec hc hf hfree hcls
  refine ⟨ptr, h', he, hslot.ne_zero hci (hc.frame_lt (by rw [hf]; nofun)), hnone, fun i hi => hzero i (by omega), hc',
    hb.mono live_mono fun _ _ _ hf => hf, fun g => ?_⟩
  rw [InPool, InPool, hpmm]

theorem served_newSlab (hc : HeapCore h live home) (hb : Busy live home) (hcls : classFor (blockSize layout) = some ci)
    (hn : h.newSlab ci = some (j, h')) :
    ∃ ptr h'' home', h'.takeSlot ci j = (ptr, h'') ∧ Served h live home layout ptr h'' home' := by
  obtain ⟨hci, hsize⟩ := classFor_spec hcls
  have hle := (size_le_blockSize layout).trans hsize
  obtain ⟨f, hhome, hfree, hiff, hcount, hc1⟩ := newSlab_spec hc hci hn
  have hf : update home f (some (.slab ci j)) f = some (.slab ci j) := update_self ..
  obtain ⟨ptr, h'', he, hslot, hnone, hzero, hpmm, hc'⟩ := takeSlot_spec hc1 hf hcount hcls
  refine ⟨ptr, h'', _, he, hslot.ne_zero hci (hc1.frame_lt (by rw [hf]; nofun)), hnone, fun i hi => hzero i (by omega),
    hc', fun f' ci' j' hf' => ?_, fun g => ?_⟩
  · by_cases hff : f' = f
    · rw [hff, hf] at hf'
      cases hf'
      exact ⟨ptr, hff ▸ hslot, by simp⟩
    · rw [update_of_ne hff] at hf'
      obtain ⟨a, ha, hl⟩ := hb f' ci' j' hf'
      exact ⟨a, ha, live_mono a hl⟩
  · rw [InPool, InPool, hpmm, hiff]
    by_cases hgf : g = f
    · simp [hgf, hfree]
    · simp [hgf]

theorem served_large {g : Nat} {phys : Phys} (hc : HeapCore h live home) (hb : Busy live home)
    (hcls : classFor (blockSize layout) = none) (ht : Phys.Took h.phys g (pagesOf layout) phys) :
    Served h live home layout (p2v (g * pageSize)) { h with phys }
      (HeapCore.setRun home g (pagesOf layout) (some (.large (p2v (g * pageSize))))) := by
  have hrun : ∀ f, g ≤ f → f < g + pagesOf layout → h.phys.pmm.isFree f = true := by
    intro f h1 h2
    have := ht.run (f - g) (by omega)
    rwa [show g + (f - g) = f by omega] at this
  have hnone : ∀ f, g ≤ f → f < g + pagesOf layout → home f = none := by
    intro f h1 h2
    by_contra hne
    have := hrun f h1 h2
    rw [(hc.owned f hne).2.2] at this
    cases this
  have hpos := pagesOf_pos layout
  have hlt : g < maxFrames := by
    have := ht.bound
    omega
  obtain ⟨hv, hp⟩ := frame_ptr hlt
  have hfresh : live (p2v (g * pageSize)) = none := by
    by_contra hl
    obtain ⟨l, hl⟩ := Option.ne_none_iff_exists'.mp hl
    have := hc.live_home hl
    rw [hv, Phys.frame_div] at this
    exact this (hnone g (Nat.le_refl g) (by omega))
  refine ⟨?_, hfresh, fun i hi => ?_,
    hc.add_large hcls hnone ht.pos ht.bound (fun f hf => ?_) (fun x hx => ?_) rfl hfresh,
    hb.mono live_mono fun f ci j hf => ?_, fun f => ?_⟩
  · rw [hp]
    unfold physicalOffset
    omega
  · have := size_le_pagesOf layout
    rw [hv, ht.mem]
    exact fill_in (by omega) (by omega)
  · by_contra hfree
    rw [Bool.not_eq_false, ht.isFree] at hfree
    rw [HeapCore.setRun_out hfree.2] at hf
    have := hfree.1
    rw [(hc.owned f hf).2.2] at this
    cases this
  · rw [ht.mem]
    exact fill_out hx
  · unfold HeapCore.setRun at hf
    split at hf
    · cases hf
    · exact hf
  · simp only [InPool, ht.isFree]
    by_cases hin : g ≤ f ∧ f < g + pagesOf layout
    · simp [HeapCore.setRun, hin, hrun f hin.1 hin.2]
    · rw [HeapCore.setRun_out hin]
      simp [hin]

/-- **Everything `alloc` can do** for a layout above the classes: the frames of
the first run that is long enough, or nothing because there is none. -/
theorem alloc_large (h : Heap) {layout : Layout} (hcls : classFor (blockSize layout) = none) :
    (∃ g phys, h.alloc layout = (p2v (g * pageSize), { h with phys }) ∧ Phys.Took h.phys g (pagesOf layout) phys) ∨
    (h.alloc layout = (0, h) ∧ ∀ g, 1 ≤ g → g + pagesOf layout ≤ maxFrames → ¬ h.phys.pmm.RunAt (pagesOf layout) g) := by
  unfold alloc
  rw [hcls, ← pagesOf]
  rcases h.phys.allocFrames_cases (pagesOf_pos layout) with ⟨g, phys, he, ht⟩ | ⟨he, hnone⟩
  · refine .inl ⟨g, phys, ?_, ht⟩
    rw [he]
    dsimp only
    split
    · next h0 => exact absurd (congrArg Prod.fst h0) ht.addr_ne_zero
    · next heq =>
      cases heq
      rfl
  · rw [he]
    exact .inr ⟨rfl, hnone⟩

/-- **Everything `alloc` can do.** -/
theorem alloc_cases (hc : HeapCore h live home) (hb : Busy live home) (layout : Layout) :
    h.alloc layout = (0, h) ∨
    ∃ ptr h' home', h.alloc layout = (ptr, h') ∧ Served h live home layout ptr h' home' := by
  cases hcls : classFor (blockSize layout) with
  | some ci =>
    obtain ⟨hci, hsize⟩ := classFor_spec hcls
    unfold alloc
    rw [hcls]
    dsimp only
    split
    · next j hj =>
      obtain ⟨hlt, hp⟩ := findSlab_spec hj
      simp only [SlabHeader.isEmptySlot, Bool.and_eq_true, Bool.not_eq_true', beq_eq_false_iff_ne,
        decide_eq_true_eq] at hp
      obtain ⟨f, hf⟩ := hc.header ci j hci hlt hp.1
      obtain ⟨ptr, h', he, hs⟩ := served_slot hc hb hf hp.2 hcls
      exact .inr ⟨ptr, h', home, he, hs⟩
    · split
      · next j h1 hn => exact .inr (served_newSlab hc hb hcls hn)
      · exact .inl rfl
  | none =>
    rcases h.alloc_large hcls with ⟨g, phys, he, ht⟩ | ⟨he, -⟩
    · exact .inr ⟨_, _, _, he, served_large hc hb hcls ht⟩
    · exact .inl he

/-! ## Deallocation -/

theorem freeFrames_spec (phys : Phys) {g : Nat} : ∀ n, 1 ≤ g → g + n ≤ maxFrames →
    (∀ f, g ≤ f → f < g + n → phys.pmm.isFree f = false) → ∃ phys',
      (List.range n).foldl (fun phys i => phys.freeFrame (g * pageSize + i * pageSize)) phys = phys' ∧
      phys'.mem = phys.mem ∧
      ∀ f, phys'.pmm.isFree f = true ↔ phys.pmm.isFree f = true ∨ (g ≤ f ∧ f < g + n)
  | 0, _, _, _ => ⟨phys, rfl, rfl, fun f => by
      simp only [Nat.add_zero]
      exact ⟨.inl, fun h => h.elim id (by omega)⟩⟩
  | n + 1, hg, hle, hused => by
    obtain ⟨p, hp, hmem, hfree⟩ := freeFrames_spec phys n hg (by omega) fun f h1 h2 => hused f h1 (by omega)
    have hdiv : (g * pageSize + n * pageSize) / pageSize = g + n := by
      rw [← Nat.add_mul]
      exact Phys.frame_div _
    have hn : p.pmm.isFree (g + n) = false := by
      by_contra hne
      rw [Bool.not_eq_false, hfree, hused (g + n) (by omega) (by omega)] at hne
      simp at hne
    refine ⟨_, rfl, ?_, fun f => ?_⟩
    all_goals
      rw [List.range_succ, List.foldl_append, hp, List.foldl_cons, List.foldl_nil,
        Phys.freeFrame_used (by omega) (by omega) (by rw [hdiv, hn]), hdiv]
    · exact hmem
    · rw [PmmState.isFree_withFree, PmmState.isFree_setFree, hfree]
      by_cases hf : phys.pmm.isFree f = true
      · simp [hf]
      · simp only [hf, Bool.false_eq_true, false_or]
        omega

theorem findSlab_of_live (hc : HeapCore h live home) (hf : home f = some (.slab ci j)) (hslot : InSlot f ci ptr) :
    h.findSlab ci (fun header => !header.isEmptySlot && decide (header.page ≤ v2p ptr) &&
      decide (v2p ptr < header.page + pageSize)) = some j := by
  obtain ⟨hci, hj, -⟩ := hc.slab f ci j hf
  have howned := hc.owned f (by rw [hf]; nofun)
  obtain ⟨h1, h2, -⟩ := hslot.bounds hci howned.2.1
  obtain ⟨h16, -, -⟩ := slotSize_facts hci
  cases hfind : h.findSlab ci (fun header => !header.isEmptySlot && decide (header.page ≤ v2p ptr) &&
      decide (v2p ptr < header.page + pageSize)) with
  | none =>
    have := List.find?_eq_none.mp hfind j (List.mem_range.mpr hj)
    simp only [SlabHeader.isEmptySlot, hc.page_eq hf, Bool.and_eq_true, Bool.not_eq_true', beq_eq_false_iff_ne,
      decide_eq_true_eq] at this
    exact absurd ⟨⟨by unfold pageSize; omega, h1⟩, by omega⟩ this
  | some j' =>
    obtain ⟨hj', hp⟩ := findSlab_spec hfind
    simp only [SlabHeader.isEmptySlot, Bool.and_eq_true, Bool.not_eq_true', beq_eq_false_iff_ne,
      decide_eq_true_eq] at hp
    obtain ⟨⟨hpage, hlo⟩, hhi⟩ := hp
    obtain ⟨f', hf'⟩ := hc.header ci j' hci hj' hpage
    rw [hc.page_eq hf'] at hlo hhi
    have hff : f' = f := by
      unfold pageSize at *
      omega
    rw [hff, hf] at hf'
    cases hf'
    rfl

/-- What a `dealloc` leaves behind. -/
structure Released (h : Heap) (live : Nat → Option Layout) (home : Nat → Option Home) (ptr : Nat) (h' : Heap)
    (home' : Nat → Option Home) : Prop where
  core : HeapCore h' (update live ptr none) home'
  busy : Busy (update live ptr none) home'
  pool : ∀ f, InPool h' home' f ↔ InPool h home f

theorem live_of_ne {a : Nat} (ha : a ≠ ptr) (h : live a ≠ none) : update live ptr none a ≠ none := by
  rwa [update_of_ne ha]

theorem released_slot (hc : HeapCore h live home) (hb : Busy live home) (hl : live ptr = some layout)
    (hcls : classFor (blockSize layout) = some ci) : ∃ home', Released h live home ptr (h.dealloc ptr layout) home' := by
  obtain ⟨f, j, hf, hslot⟩ := hc.small ptr layout ci hl hcls
  obtain ⟨hci, hj, free, hok⟩ := hc.slab f ci j hf
  have howned := hc.owned f (by rw [hf]; nofun)
  obtain ⟨h1, h2, -⟩ := hslot.bounds hci howned.2.1
  obtain ⟨h16, -, -⟩ := slotSize_facts hci
  have hgive := hok.give hci howned.2.1 hslot (by rw [hl]; nofun)
  have hout : ∀ x, x < f * pageSize ∨ f * pageSize + pageSize ≤ x →
      storeWord h.phys.mem (v2p ptr) (BitVec.ofNat 64 (h.slabs ci j).freeHead) x = h.phys.mem x :=
    fun x hx => storeWord_out (by omega)
  have hlive : ∀ a, ¬ InSlot f ci a → update live ptr none a = live a := by
    intro a ha
    have hne : a ≠ ptr := fun he => ha (he ▸ hslot)
    exact update_of_ne hne ..
  -- the other slabs keep their live slots
  have hbusy : ∀ f' ci' j', f' ≠ f → home f' = some (.slab ci' j') →
      ∃ a, InSlot f' ci' a ∧ update live ptr none a ≠ none := by
    intro f' ci' j' hff hf'
    obtain ⟨a, ha, hla⟩ := hb f' ci' j' hf'
    exact ⟨a, ha, live_of_ne (fun he => hc.slot_frames hf hf' hff ha (he ▸ hslot)) hla⟩
  unfold dealloc
  rw [if_neg (hslot.ne_zero hci howned.2.1), hcls]
  dsimp only
  rw [findSlab_of_live hc hf hslot]
  dsimp only
  split
  · next hfull =>
    have hfreed := Phys.freeFrame_used
      (s := (h.setMem (storeWord h.phys.mem (v2p ptr) (BitVec.ofNat 64 (h.slabs ci j).freeHead))).phys)
      (a := f * pageSize) (by rw [Phys.frame_div]; omega) (by rw [Phys.frame_div]; exact howned.2.1)
      (by rw [Phys.frame_div]; exact howned.2.2)
    have hpmm : ∀ g, (h.phys.pmm.setFree f).isFree g = true ↔ g = f ∨ h.phys.pmm.isFree g = true :=
      fun g => PmmState.isFree_setFree
    rw [hc.page_eq hf, hfreed, Phys.frame_div]
    refine ⟨update home f none, ?_, fun f' ci' j' hf' => ?_, fun g => ?_⟩
    · refine hc.drop_slab hf (fun g hg hne => ?_) hout (fun a ha => hgive.all_free hfull ha) hlive
      have hfree : (h.phys.pmm.setFree f).isFree g = false := by
        simpa [hne, (hc.owned g hg).2.2] using hpmm g
      exact hfree
    · by_cases hff : f' = f
      · simp [hff] at hf'
      · rw [update_of_ne hff] at hf'
        exact hbusy f' ci' j' hff hf'
    · have := hpmm g
      by_cases hgf : g = f
      · simp only [hgf, true_or, iff_true] at this
        rw [hgf]
        exact ⟨fun _ => .inr (by rw [hf]; nofun), fun _ => .inl this⟩
      · simp only [hgf, false_or] at this
        simp only [InPool, update_of_ne hgf]
        exact or_congr this Iff.rfl
  · next hnot =>
    refine ⟨home, ?_, fun f' ci' j' hf' => ?_, fun g => Iff.rfl⟩
    · refine hc.update_slab hf (fun g hg => (hc.owned g hg).2.2) hout ⟨_, hgive⟩ hlive fun a l ha hla => ?_
      have hne : a ≠ ptr := fun he => by
        rw [he, update_self] at hla
        cases hla
      rw [update_of_ne hne] at hla
      exact hc.class_of_slot hf ha hla
    · by_cases hff : f' = f
      · rw [hff, hf] at hf'
        cases hf'
        rw [hff]
        exact hgive.exists_live hci howned.2.1 hnot
      · exact hbusy f' ci' j' hff hf'

theorem released_large (hc : HeapCore h live home) (hb : Busy live home) (hl : live ptr = some layout)
    (hcls : classFor (blockSize layout) = none) : ∃ home', Released h live home ptr (h.dealloc ptr layout) home' := by
  obtain ⟨g, hptr, -, hg, hrun⟩ := hc.big_home hl hcls
  have hpos := pagesOf_pos layout
  have hfirst := hc.owned g (by rw [hg]; nofun)
  have hlast := hc.owned (g + pagesOf layout - 1) (by rw [hrun _ (by omega) (by omega)]; nofun)
  obtain ⟨hv, hp⟩ := frame_ptr hfirst.2.1
  obtain ⟨phys, hfold, hmem, hfree⟩ := freeFrames_spec h.phys (pagesOf layout) hfirst.1 (by omega)
    fun f h1 h2 => (hc.owned f (by rw [hrun f h1 h2]; nofun)).2.2
  have he : h.dealloc ptr layout = { h with phys } := by
    unfold dealloc
    rw [if_neg (by rw [hptr, hp]; unfold physicalOffset; omega), hcls]
    dsimp only
    rw [← pagesOf, hptr, hv, hfold]
  rw [he]
  refine ⟨HeapCore.setRun home g (pagesOf layout) none, hc.drop_large hl hcls hptr hrun (fun f hf => ?_) hmem,
    fun f ci j hf => ?_, fun f => ?_⟩
  · by_cases hin : g ≤ f ∧ f < g + pagesOf layout
    · exact absurd (HeapCore.setRun_in hin.1 hin.2) hf
    · rw [HeapCore.setRun_out hin] at hf
      by_contra hne
      rw [Bool.not_eq_false, hfree, (hc.owned f hf).2.2] at hne
      simp [hin] at hne
  · by_cases hin : g ≤ f ∧ f < g + pagesOf layout
    · rw [HeapCore.setRun_in hin.1 hin.2] at hf
      cases hf
    · rw [HeapCore.setRun_out hin] at hf
      obtain ⟨a, ha, hla⟩ := hb f ci j hf
      refine ⟨a, ha, live_of_ne (fun he => ?_) hla⟩
      rw [hc.class_of_slot hf (he ▸ ha) hl] at hcls
      cases hcls
  · simp only [InPool, hfree]
    by_cases hin : g ≤ f ∧ f < g + pagesOf layout
    · simp [hin, hrun f hin.1 hin.2]
    · rw [HeapCore.setRun_out hin]
      simp [hin]

/-- **Everything `dealloc` does** to a live block. -/
theorem dealloc_spec (hc : HeapCore h live home) (hb : Busy live home) (hl : live ptr = some layout) :
    ∃ home', Released h live home ptr (h.dealloc ptr layout) home' := by
  cases hcls : classFor (blockSize layout) with
  | some ci => exact released_slot hc hb hl hcls
  | none => exact released_large hc hb hl hcls

end Heap

/-! ## Runs -/

/-- Whom a frame was handed to. -/
inductive FrameOwner
  | allocator
  | client
  deriving DecidableEq

/-- The owners after a call made by `who`: a frame whose bit went from free to
used is theirs, one whose bit went from used to free is nobody's. -/
def settle (who : FrameOwner) (before after : PmmState) (owner : Nat → Option FrameOwner) (f : Nat) :
    Option FrameOwner :=
  if before.isFree f ∧ ¬ after.isFree f then some who
  else if ¬ before.isFree f ∧ after.isFree f then none
  else owner f

/-- The heap with the layouts of the blocks not yet freed and the owners of the
frames handed out. -/
structure HeapRun where
  heap : Heap
  live : Nat → Option Layout
  owner : Nat → Option FrameOwner

inductive HeapOp
  | alloc (layout : Layout)
  | dealloc (ptr : Nat) (layout : Layout)
  | write (ptr i : Nat) (byte : Byte)
  | clientAlloc (count : Nat)
  | clientFree (physAddr : Nat)
  | clientWrite (physAddr : Nat) (byte : Byte)

namespace HeapRun

/-- The state after the allocator's call led to `heap`. -/
def served (r : HeapRun) (heap : Heap) (live : Nat → Option Layout) : HeapRun where
  heap
  live
  owner := settle .allocator r.heap.phys.pmm heap.phys.pmm r.owner

/-- The state after another client's call led to `phys`. -/
def client (r : HeapRun) (phys : Phys) : HeapRun :=
  { r with
    heap := { r.heap with phys }
    owner := settle .client r.heap.phys.pmm phys.pmm r.owner }

/-- One operation. Blocks are freed once, with their own layout; their bytes are
written by whoever holds them; other clients free only frames of theirs and
write to no frame of the allocator. -/
def step (r : HeapRun) : HeapOp → Option HeapRun
  | .alloc layout =>
    match r.heap.alloc layout with
    | (ptr, heap) =>
      some (r.served heap (if ptr = 0 then r.live else update r.live ptr (some layout)))
  | .dealloc ptr layout =>
    if r.live ptr = some layout then some (r.served (r.heap.dealloc ptr layout) (update r.live ptr none))
    else none
  | .write ptr i byte =>
    match r.live ptr with
    | some layout =>
      if i < layout.size then
        some { r with heap := r.heap.setMem (update r.heap.phys.mem (v2p ptr + i) byte) }
      else none
    | none => none
  | .clientAlloc count => some (r.client (r.heap.phys.allocFrames count).2)
  | .clientFree physAddr =>
    if r.owner (physAddr / pageSize) = some .client then some (r.client (r.heap.phys.freeFrame physAddr)) else none
  | .clientWrite physAddr byte =>
    if r.owner (physAddr / pageSize) = some .allocator then none
    else some { r with heap := r.heap.setMem (update r.heap.phys.mem physAddr byte) }

/-- The allocator before its first call, over memory in any state. -/
def start (phys : Phys) : HeapRun where
  heap := { phys, slabs := fun _ _ => .empty }
  live := fun _ => none
  owner := fun _ => none

/-- The invariant of a run. -/
structure Sound (r : HeapRun) (home : Nat → Option Home) : Prop where
  core : HeapCore r.heap r.live home
  busy : Busy r.live home
  allocator : ∀ f, r.owner f = some .allocator ↔ home f ≠ none
  client : ∀ f, r.owner f = some .client → r.heap.phys.pmm.isFree f = false

variable {r : HeapRun} {home home' : Nat → Option Home}

theorem sound_start (phys : Phys) : (start phys).Sound fun _ => none := by
  refine ⟨⟨?_, ?_, ?_, ?_, ?_, ?_⟩, ?_, ?_, ?_⟩ <;> simp [start, SlabHeader.empty, Busy]

theorem Sound.served (hs : r.Sound home) {heap : Heap} {live : Nat → Option Layout} (hc : HeapCore heap live home')
    (hb : Busy live home') (hpool : ∀ f, InPool heap home' f ↔ InPool r.heap home f) :
    (r.served heap live).Sound home' := by
  have hin : ∀ f, (heap.phys.pmm.isFree f = true ∨ home' f ≠ none) ↔
      (r.heap.phys.pmm.isFree f = true ∨ home f ≠ none) := hpool
  refine ⟨hc, hb, fun f => ?_, fun f hf => ?_⟩
  · have h1 := hin f
    have h2 := hs.allocator f
    have h3 : home f ≠ none → r.heap.phys.pmm.isFree f = false := fun h => (hs.core.owned f h).2.2
    have h4 : home' f ≠ none → heap.phys.pmm.isFree f = false := fun h => (hc.owned f h).2.2
    simp only [HeapRun.served, settle]
    grind
  · have h1 := hs.client f
    simp only [HeapRun.served, settle] at hf ⊢
    grind

theorem Sound.client_call (hs : r.Sound home) {phys : Phys} (hmem : ∀ f ci j a, home f = some (.slab ci j) →
      InSlot f ci a → r.live a = none → ∀ x, v2p a ≤ x → x < v2p a + slotSize ci → phys.mem x = r.heap.phys.mem x)
    (hpmm : ∀ f, home f ≠ none → phys.pmm.isFree f = false) : (r.client phys).Sound home := by
  refine ⟨hs.core.setPhys hpmm hmem, hs.busy, fun f => ?_, fun f hf => ?_⟩
  · have h2 := hs.allocator f
    have h3 : home f ≠ none → r.heap.phys.pmm.isFree f = false := fun h => (hs.core.owned f h).2.2
    have h4 := hpmm f
    simp only [HeapRun.client, settle]
    grind
  · have h1 := hs.client f
    simp only [HeapRun.client, settle] at hf ⊢
    grind

theorem Sound.written (hs : r.Sound home) {x : Nat} {byte : Byte} (hx : ∀ f ci j a, home f = some (.slab ci j) →
      InSlot f ci a → r.live a = none → x < v2p a ∨ v2p a + slotSize ci ≤ x) :
    ({ r with heap := r.heap.setMem (update r.heap.phys.mem x byte) } : HeapRun).Sound home := by
  refine ⟨hs.core.setPhys (fun f hf => (hs.core.owned f hf).2.2) fun f ci j a hf ha hn y h1 h2 => ?_, hs.busy,
    hs.allocator, hs.client⟩
  have := hx f ci j a hf ha hn
  have hne : y ≠ x := by omega
  exact update_of_ne hne ..

theorem Sound.apart_of_home (hs : r.Sound home) {f x ci j a : Nat} (hx : home (x / pageSize) = none)
    (hf : home f = some (.slab ci j)) (ha : InSlot f ci a) : x < v2p a ∨ v2p a + slotSize ci ≤ x := by
  obtain ⟨h1, h2, -⟩ := ha.bounds (hs.core.slab f ci j hf).1 (hs.core.frame_lt (by rw [hf]; nofun))
  have hne : x / pageSize ≠ f := fun he => by
    rw [he, hf] at hx
    cases hx
  unfold pageSize at *
  omega

/-- **Every operation keeps the invariant.** -/
theorem Sound.step {t : HeapRun} {op : HeapOp} (hs : r.Sound home) (ht : r.step op = some t) :
    ∃ home', t.Sound home' := by
  cases op with
  | alloc layout =>
    simp only [HeapRun.step, Option.some.injEq] at ht
    subst ht
    rcases Heap.alloc_cases hs.core hs.busy layout with he | ⟨ptr, heap, home', he, hserved⟩
    · rw [he]
      exact ⟨home, hs.served hs.core hs.busy fun _ => Iff.rfl⟩
    · rw [he]
      dsimp only
      rw [if_neg hserved.ne_zero]
      exact ⟨home', hs.served hserved.core hserved.busy hserved.pool⟩
  | dealloc ptr layout =>
    simp only [HeapRun.step] at ht
    split at ht
    · next hl =>
      cases ht
      obtain ⟨home', hrel⟩ := Heap.dealloc_spec hs.core hs.busy hl
      exact ⟨home', hs.served hrel.core hrel.busy hrel.pool⟩
    · cases ht
  | write ptr i byte =>
    simp only [HeapRun.step] at ht
    split at ht
    · next layout hl =>
      split at ht
      · next hi =>
        cases ht
        refine ⟨home, hs.written fun f ci j a hf ha hn => ?_⟩
        have := hs.core.live_apart_free hl hf ha hn
        omega
      · cases ht
    · cases ht
  | clientAlloc count =>
    simp only [HeapRun.step, Option.some.injEq] at ht
    subst ht
    have hsame : (r.client r.heap.phys).Sound home :=
      hs.client_call (fun _ _ _ _ _ _ _ _ _ _ => rfl) fun f hf => (hs.core.owned f hf).2.2
    rcases Nat.eq_zero_or_pos count with rfl | hpos
    · exact ⟨home, hsame⟩
    rcases r.heap.phys.allocFrames_cases hpos with ⟨g, phys, he, htook⟩ | ⟨he, -⟩
    · rw [he]
      have hfree : ∀ f, home f ≠ none → ¬ (g ≤ f ∧ f < g + count) := by
        intro f hf hin
        have := htook.run (f - g) (by omega)
        rw [show g + (f - g) = f by omega, (hs.core.owned f hf).2.2] at this
        cases this
      refine ⟨home, hs.client_call (fun f ci j a hf ha _ x h1 h2 => ?_) fun f hf => ?_⟩
      · rw [htook.mem]
        obtain ⟨hb1, hb2, -⟩ := ha.bounds (hs.core.slab f ci j hf).1 (hs.core.frame_lt (by rw [hf]; nofun))
        have := hfree f (by rw [hf]; nofun)
        refine fill_out ?_
        unfold pageSize at *
        omega
      · by_contra hne
        rw [Bool.not_eq_false, htook.isFree, (hs.core.owned f hf).2.2] at hne
        exact absurd hne.1 nofun
    · rw [he]
      exact ⟨home, hsame⟩
  | clientFree physAddr =>
    simp only [HeapRun.step] at ht
    split at ht
    · next ho =>
      cases ht
      refine ⟨home, hs.client_call (fun f ci j a _ _ _ x _ _ => ?_) fun f hf => ?_⟩
      · rw [Phys.freeFrame_mem]
      · have hne : f ≠ physAddr / pageSize := fun he => by
          rw [he] at hf
          rw [(hs.allocator _).mpr hf] at ho
          cases ho
        rw [Phys.freeFrame_other hne]
        exact (hs.core.owned f hf).2.2
    · cases ht
  | clientWrite physAddr byte =>
    simp only [HeapRun.step] at ht
    split at ht
    · cases ht
    · next ho =>
      cases ht
      refine ⟨home, hs.written fun f ci j a hf ha _ => hs.apart_of_home ?_ hf ha⟩
      rw [hs.allocator] at ho
      simpa using ho

/-! ## Correctness -/

/-- What is expected of the allocator in a state of a run. -/
structure Correct (r : HeapRun) : Prop where
  /-- The bytes of live blocks are apart. -/
  blocks : ∀ p q l m, r.live p = some l → r.live q = some m → p ≠ q →
    ∀ i < l.size, ∀ k < m.size, v2p p + i ≠ v2p q + k
  /-- A block returned is zero and was not live. -/
  returned : ∀ layout ptr heap, r.heap.alloc layout = (ptr, heap) → ptr ≠ 0 →
    r.live ptr = none ∧ ∀ i < layout.size, heap.phys.mem (v2p ptr + i) = 0
  /-- The list of a slab in use: `free_count` distinct slots of its page, fewer
  than there are, none of them touched by a live block. -/
  slabs : ∀ ci < numClasses, ∀ j < maxSlabsPerClass, (r.heap.slabs ci j).page ≠ 0 →
    ∃ free, Chain (nextFree r.heap.phys.mem) (r.heap.slabs ci j).freeHead free ∧ free.Nodup ∧
      free.length = (r.heap.slabs ci j).freeCount ∧ (r.heap.slabs ci j).freeCount < (r.heap.slabs ci j).capacity ∧
      (∀ a ∈ free, ∃ i < (r.heap.slabs ci j).capacity, a = p2v ((r.heap.slabs ci j).page + i * slotSize ci)) ∧
      (∀ a ∈ free, (r.heap.slabs ci j).page ≤ v2p a ∧ v2p a + slotSize ci ≤ (r.heap.slabs ci j).page + pageSize) ∧
      ∀ a ∈ free, ∀ p l, r.live p = some l → ∀ i < l.size, ∀ k < slotSize ci, v2p p + i ≠ v2p a + k
  /-- With nothing live, no header is in use and no frame is held. -/
  empty : (∀ p, r.live p = none) →
    (∀ ci < numClasses, ∀ j < maxSlabsPerClass, (r.heap.slabs ci j).page = 0) ∧
      ∀ f, r.owner f ≠ some .allocator

theorem Sound.correct (hs : r.Sound home) : r.Correct := by
  refine ⟨fun p q l m hp hq hne i hi k hk => ?_, fun layout ptr heap he hne => ?_, fun ci hci j hj hpage => ?_,
    fun hnone => ⟨fun ci hci j hj => ?_, fun f hf => ?_⟩⟩
  · have := hs.core.live_apart hp hq hne
    omega
  · rcases Heap.alloc_cases hs.core hs.busy layout with he' | ⟨ptr', heap', home', he', hserved⟩
    · rw [he] at he'
      exact absurd (congrArg Prod.fst he') hne
    · rw [he] at he'
      cases he'
      exact ⟨hserved.fresh, hserved.zero⟩
  · obtain ⟨f, hf⟩ := hs.core.header ci j hci hj hpage
    obtain ⟨-, -, free, hok⟩ := hs.core.slab f ci j hf
    obtain ⟨a, ha, hl⟩ := hs.busy f ci j hf
    have hlt := hs.core.frame_lt (f := f) (by rw [hf]; nofun)
    refine ⟨free, hok.chain, hok.nodup, hok.count, hok.freeCount_lt ha hl, fun b hb => ?_, fun b hb => ?_,
      fun b hb p l hp i hi k hk => ?_⟩
    · rw [hok.page, hok.capacity]
      exact ((hok.mem_free b).mp hb).1
    · rw [hok.page]
      obtain ⟨h1, h2, -⟩ := ((hok.mem_free b).mp hb).1.bounds hci hlt
      exact ⟨h1, h2⟩
    · obtain ⟨hslot, hn⟩ := (hok.mem_free b).mp hb
      have := hs.core.live_apart_free hp hf hslot hn
      omega
  · by_contra hpage
    obtain ⟨f, hf⟩ := hs.core.header ci j hci hj hpage
    obtain ⟨a, -, hl⟩ := hs.busy f ci j hf
    exact hl (hnone a)
  · obtain ⟨x, hx⟩ := Option.ne_none_iff_exists'.mp ((hs.allocator f).mp hf)
    cases x with
    | slab ci j =>
      obtain ⟨a, -, hl⟩ := hs.busy f ci j hx
      exact hl (hnone a)
    | large ptr =>
      obtain ⟨layout, -, hl, -⟩ := hs.core.large f ptr hx
      rw [hnone ptr] at hl
      cases hl

end HeapRun

/-- **The allocator is correct in every run.** Whatever is allocated and freed,
whatever the holders write into their blocks, and whatever other clients of the
frame allocator do with frames that are not the allocator's: live blocks never
overlap each other or a free slot, a block is zero when returned, the free list
of each slab in use is whole, and with no block live every slab and frame has
gone back. -/
theorem heap_correct (phys : Phys) (ops : List HeapOp) (r : HeapRun)
    (hr : Lts.exec HeapRun.step (HeapRun.start phys) ops = some r) : r.Correct := by
  obtain ⟨home, hs⟩ := Lts.exec_invariant (fun r => ∃ home, HeapRun.Sound r home)
    (fun _ _ _ ⟨_, hs⟩ ht => hs.step ht) ⟨_, HeapRun.sound_start phys⟩ hr
  exact hs.correct

/-- All of memory free. -/
def roomyPhys : Phys where
  pmm := { bitmap := fun _ => 0, totalFrames := maxFrames, freeFrames := maxFrames }
  mem := fun _ => 0

/-- A block of the largest class. -/
def halfPage : Layout := ⟨2000, 8, ⟨3, rfl⟩, by decide⟩

/-- Two blocks of one slab, one of them written to and freed while a client
takes a frame. -/
def heapTrace : List HeapOp :=
  [.alloc halfPage, .alloc halfPage, .write (p2v 4096) 1999 7, .clientAlloc 1, .dealloc (p2v 4096) halfPage]

theorem heap_correct_heapTrace : ∃ r, Lts.exec HeapRun.step (HeapRun.start roomyPhys) heapTrace = some r ∧
    r.live (p2v 6144) = some halfPage ∧ (r.heap.slabs 7 0).freeCount = 1 ∧ r.Correct := by
  have hrun : (Lts.exec HeapRun.step (HeapRun.start roomyPhys) heapTrace).map
      (fun r => (r.live (p2v 6144), (r.heap.slabs 7 0).freeCount)) = some (some halfPage, 1) := by
    decide +kernel
  obtain ⟨r, hr, he⟩ := Option.map_eq_some_iff.mp hrun
  exact ⟨r, hr, congrArg Prod.fst he, congrArg Prod.snd he, heap_correct roomyPhys heapTrace r hr⟩

/-! ## Alignment -/

theorem HeapRun.Sound.alloc_aligned {r : HeapRun} {home : Nat → Option Home} {layout : Layout} {ptr : Nat} {heap : Heap}
    (hs : r.Sound home) (halloc : r.heap.alloc layout = (ptr, heap)) (hptr : ptr ≠ 0) (halign : layout.align ≤ pageSize) :
    layout.align ∣ ptr := by
  rcases Heap.alloc_cases hs.core hs.busy layout with he | ⟨ptr', heap', home', he, hserved⟩
  · rw [halloc] at he
    exact absurd (congrArg Prod.fst he) hptr
  · rw [halloc] at he
    cases he
    exact hserved.core.aligned (update_self ..) halign

theorem classFor_of_align {layout : Layout} (h : pageSize < layout.align) : classFor (blockSize layout) = none := by
  cases hcls : classFor (blockSize layout) with
  | none => rfl
  | some ci =>
    obtain ⟨hci, hle⟩ := classFor_spec hcls
    have hslot : slotSize ci ≤ pageSize := by
      rw [slotSize_pow hci, show pageSize = 2 ^ 12 from rfl]
      unfold numClasses at hci
      exact Nat.pow_le_pow_right (by decide) (by omega)
    have hblock := align_le_blockSize layout
    omega

theorem roomyPhys_isFree (f : Nat) : roomyPhys.pmm.isFree f = true := PmmState.isFree_iff.mpr BitVec.getLsbD_zero

theorem alloc_roomyPhys {layout : Layout} (hcls : classFor (blockSize layout) = none) (hfits : pagesOf layout < maxFrames) :
    ∃ heap, (HeapRun.start roomyPhys).heap.alloc layout = (pageSize + physicalOffset, heap) := by
  have hrun : roomyPhys.pmm.RunAt (pagesOf layout) 1 := fun i _ => roomyPhys_isFree (1 + i)
  rcases (HeapRun.start roomyPhys).heap.alloc_large hcls with ⟨g, phys, he, ht⟩ | ⟨-, hnone⟩
  · have hg : g = 1 := Nat.le_antisymm (ht.first 1 (Nat.le_refl 1) hrun) ht.pos
    rw [hg, (frame_ptr (by decide)).2, Nat.one_mul] at he
    exact ⟨_, he⟩
  · exact absurd hrun (hnone 1 (Nat.le_refl 1) (by omega))

/-- **Alignment.** The blocks of a layout are at multiples of its alignment, in
every run and whatever memory is free, exactly when the alignment is at most a
page, or no block is ever returned because memory is too small for one. -/
theorem alloc_aligned_iff (layout : Layout) :
    (∀ phys ops r ptr heap, Lts.exec HeapRun.step (HeapRun.start phys) ops = some r →
      r.heap.alloc layout = (ptr, heap) → ptr ≠ 0 → layout.align ∣ ptr) ↔
    layout.align ≤ pageSize ∨ maxFrames ≤ pagesOf layout := by
  constructor
  · intro h
    by_contra! hc
    obtain ⟨heap, halloc⟩ := alloc_roomyPhys (classFor_of_align hc.1) hc.2
    have hdvd := h roomyPhys [] _ _ heap rfl halloc (by decide)
    obtain ⟨k, hk⟩ := layout.align_pow
    -- two pages divide the alignment, and the address is an odd number of pages
    have hpow : 2 ^ 13 ∣ layout.align := by
      rw [hk, show pageSize = 2 ^ 12 from rfl] at hc
      rw [hk]
      exact Nat.pow_dvd_pow 2 ((Nat.pow_lt_pow_iff_right (by decide)).mp hc.1)
    exact absurd (hpow.trans hdvd) (by decide)
  · rintro hc phys ops r ptr heap hr halloc hptr
    obtain ⟨home, hs⟩ := Lts.exec_invariant (fun r => ∃ home, HeapRun.Sound r home)
      (fun _ _ _ ⟨_, hs⟩ ht => hs.step ht) ⟨_, HeapRun.sound_start phys⟩ hr
    by_cases halign : layout.align ≤ pageSize
    · exact hs.alloc_aligned halloc hptr halign
    · rcases r.heap.alloc_large (classFor_of_align (Nat.not_le.mp halign)) with ⟨g, phys, he, ht⟩ | ⟨he, -⟩
      · have hpos := ht.pos
        have hbound := ht.bound
        have hlarge := hc.resolve_left halign
        omega
      · rw [halloc] at he
        exact absurd (congrArg Prod.fst he) hptr

/-- Two pages at a multiple of their size. -/
def pagePair : Layout := ⟨8192, 8192, ⟨13, rfl⟩, by decide⟩

/-- The first run of two frames need not start at an even one. -/
theorem alloc_misaligned : ((HeapRun.start roomyPhys).heap.alloc pagePair).1 = p2v 4096 ∧
    ¬ pagePair.align ∣ ((HeapRun.start roomyPhys).heap.alloc pagePair).1 := by
  decide +kernel

end CoreOS
