/-
The heap as a whole: every frame the allocator holds is a slab or part of a
large block, and nothing is two of these (`HeapCore`). The invariant is kept
by changes inside one slab, by a slab or a large block coming or going, and by
whatever happens to the frames of others.
-/
import CoreOS.HeapSlab
import CoreOS.PmmFacts

namespace CoreOS

open ByteMem FreeList
open Function (update update_of_ne update_self)

/-- What a frame of the allocator is used for. -/
inductive Home
  | slab (ci j : Nat)
  | large (ptr : Nat)
  deriving DecidableEq

/-- The frames a large block of this layout takes. -/
def pagesOf (layout : Layout) : Nat := divCeil (blockSize layout) pageSize

/-- `home` names the use of each frame of the allocator; `live` gives the layout
of each live block. -/
structure HeapCore (h : Heap) (live : Nat → Option Layout) (home : Nat → Option Home) : Prop where
  owned : ∀ f, home f ≠ none → 1 ≤ f ∧ f < maxFrames ∧ h.phys.pmm.isFree f = false
  slab : ∀ f ci j, home f = some (.slab ci j) → ci < numClasses ∧ j < maxSlabsPerClass ∧
    ∃ free, SlabOK h.phys.mem live f ci (h.slabs ci j) free
  header : ∀ ci j, ci < numClasses → j < maxSlabsPerClass → (h.slabs ci j).page ≠ 0 →
    ∃ f, home f = some (.slab ci j)
  large : ∀ f ptr, home f = some (.large ptr) → ∃ layout g, live ptr = some layout ∧
    classFor (blockSize layout) = none ∧ ptr = p2v (g * pageSize) ∧ g ≤ f ∧ f < g + pagesOf layout
  small : ∀ ptr layout ci, live ptr = some layout → classFor (blockSize layout) = some ci →
    ∃ f j, home f = some (.slab ci j) ∧ InSlot f ci ptr
  big : ∀ ptr layout, live ptr = some layout → classFor (blockSize layout) = none →
    ∃ g, ptr = p2v (g * pageSize) ∧ ∀ f, g ≤ f → f < g + pagesOf layout → home f = some (.large ptr)

/-! ## Sizes and addresses -/

theorem classFor_spec {size ci : Nat} (h : classFor size = some ci) : ci < numClasses ∧ size ≤ slotSize ci := by
  obtain ⟨hlt, hle, -⟩ := List.findIdx?_eq_some_iff_getElem.mp h
  refine ⟨hlt, ?_⟩
  rw [slotSize, List.getD_eq_getElem?_getD, List.getElem?_eq_getElem hlt]
  simpa using hle

theorem size_le_blockSize (layout : Layout) : layout.size ≤ blockSize layout := by
  unfold blockSize
  omega

theorem align_le_blockSize (layout : Layout) : layout.align ≤ blockSize layout := by
  unfold blockSize
  omega

theorem pagesOf_pos (layout : Layout) : 0 < pagesOf layout := by
  unfold pagesOf divCeil blockSize pageSize
  omega

theorem size_le_pagesOf (layout : Layout) : layout.size ≤ pagesOf layout * pageSize := by
  have := size_le_blockSize layout
  unfold pagesOf divCeil pageSize
  omega

theorem frame_ptr {g : Nat} (hg : g < maxFrames) :
    v2p (p2v (g * pageSize)) = g * pageSize ∧ p2v (g * pageSize) = g * pageSize + physicalOffset := by
  have hlt : g * pageSize < 2 ^ 47 := by
    unfold pageSize maxFrames at *
    omega
  exact ⟨v2p_p2v hlt, p2v_of_lt hlt⟩

/-! ## Slab headers -/

namespace Heap

variable {h : Heap} {ci j ci' j' : Nat} {header : SlabHeader}

@[simp] theorem setSlab_self : (h.setSlab ci j header).slabs ci j = header := by simp [setSlab]

theorem setSlab_other (hne : ci' ≠ ci ∨ j' ≠ j) : (h.setSlab ci j header).slabs ci' j' = h.slabs ci' j' := by
  unfold setSlab
  by_cases hc : ci' = ci
  · subst hc
    have hj : j' ≠ j := by simpa using hne
    simp [hj]
  · simp [hc]

@[simp] theorem setSlab_phys : (h.setSlab ci j header).phys = h.phys := rfl

theorem findSlab_spec {p : SlabHeader → Bool} (hf : h.findSlab ci p = some j) :
    j < maxSlabsPerClass ∧ p (h.slabs ci j) = true :=
  ⟨List.mem_range.mp (List.mem_of_find?_eq_some hf), List.find?_some (p := fun j => p (h.slabs ci j)) hf⟩

end Heap

namespace HeapCore

variable {h : Heap} {live live' : Nat → Option Layout} {home : Nat → Option Home} {f f' ci ci' j ptr : Nat}
  {layout : Layout} {phys : Phys} {header : SlabHeader}

/-! ## One use for each frame -/

theorem page_eq (hc : HeapCore h live home) (hf : home f = some (.slab ci j)) : (h.slabs ci j).page = f * pageSize := by
  obtain ⟨-, -, free, hok⟩ := hc.slab f ci j hf
  exact hok.page

theorem slab_unique (hc : HeapCore h live home) (hf : home f = some (.slab ci j)) (hf' : home f' = some (.slab ci j)) :
    f = f' := by
  have h1 := hc.page_eq hf
  have h2 := hc.page_eq hf'
  exact Nat.eq_of_mul_eq_mul_right (by decide : 0 < pageSize) (h1.symm.trans h2)

theorem frame_lt (hc : HeapCore h live home) (hf : home f ≠ none) : f < maxFrames := (hc.owned f hf).2.1

theorem big_home (hc : HeapCore h live home) (hl : live ptr = some layout) (hcls : classFor (blockSize layout) = none) :
    ∃ g, ptr = p2v (g * pageSize) ∧ v2p ptr / pageSize = g ∧ home g = some (.large ptr) ∧
      ∀ f, g ≤ f → f < g + pagesOf layout → home f = some (.large ptr) := by
  obtain ⟨g, hptr, hhome⟩ := hc.big ptr layout hl hcls
  have hg := hhome g (Nat.le_refl g) (by have := pagesOf_pos layout; omega)
  have hlt := hc.frame_lt (f := g) (by rw [hg]; nofun)
  refine ⟨g, hptr, ?_, hg, hhome⟩
  rw [hptr, (frame_ptr hlt).1]
  exact Phys.frame_div g

theorem live_home (hc : HeapCore h live home) (hl : live ptr = some layout) : home (v2p ptr / pageSize) ≠ none := by
  cases hcls : classFor (blockSize layout) with
  | none =>
    obtain ⟨g, -, hg, hhome, -⟩ := hc.big_home hl hcls
    rw [hg, hhome]
    nofun
  | some ci =>
    obtain ⟨f, j, hf, hslot⟩ := hc.small ptr layout ci hl hcls
    obtain ⟨hci, -, -⟩ := hc.slab f ci j hf
    rw [hslot.frame hci (hc.frame_lt (by rw [hf]; nofun)), hf]
    nofun

theorem class_of_slot (hc : HeapCore h live home) (hf : home f = some (.slab ci j)) (hslot : InSlot f ci ptr)
    (hl : live ptr = some layout) : classFor (blockSize layout) = some ci := by
  obtain ⟨hci, -, -⟩ := hc.slab f ci j hf
  have hframe := hslot.frame hci (hc.frame_lt (by rw [hf]; nofun))
  cases hcls : classFor (blockSize layout) with
  | none =>
    obtain ⟨g, -, hg, hhome, -⟩ := hc.big_home hl hcls
    rw [← hg, hframe, hf] at hhome
    cases hhome
  | some ci' =>
    obtain ⟨f', j', hf', hslot'⟩ := hc.small ptr layout ci' hl hcls
    obtain ⟨hci', -, -⟩ := hc.slab f' ci' j' hf'
    have hframe' := hslot'.frame hci' (hc.frame_lt (by rw [hf']; nofun))
    rw [← hframe', hframe, hf] at hf'
    cases hf'
    rfl

theorem large_not_slot (hc : HeapCore h live home) (hf : home f = some (.slab ci j)) (hl : home f' = some (.large ptr)) :
    ¬ InSlot f ci ptr := by
  intro hslot
  obtain ⟨layout, -, hlive, hcls, -⟩ := hc.large f' ptr hl
  rw [hc.class_of_slot hf hslot hlive] at hcls
  cases hcls

theorem slot_frames (hc : HeapCore h live home) {j' : Nat} (hf : home f = some (.slab ci j))
    (hf' : home f' = some (.slab ci' j')) (hne : f' ≠ f) (hslot : InSlot f' ci' ptr) : ¬ InSlot f ci ptr := by
  intro hslot'
  obtain ⟨hci, -, -⟩ := hc.slab f ci j hf
  obtain ⟨hci', -, -⟩ := hc.slab f' ci' j' hf'
  have h1 := hslot'.frame hci (hc.frame_lt (by rw [hf]; nofun))
  have h2 := hslot.frame hci' (hc.frame_lt (by rw [hf']; nofun))
  exact hne (h2.symm.trans h1)

/-! ## Changes -/

/-- **A change inside one slab.** -/
theorem update_slab (hc : HeapCore h live home) (hf : home f = some (.slab ci j))
    (hpmm : ∀ g, home g ≠ none → phys.pmm.isFree g = false)
    (hmem : ∀ x, x < f * pageSize ∨ f * pageSize + pageSize ≤ x → phys.mem x = h.phys.mem x)
    (hslab : ∃ free, SlabOK phys.mem live' f ci header free)
    (hlive : ∀ a, ¬ InSlot f ci a → live' a = live a)
    (hcls : ∀ a layout, InSlot f ci a → live' a = some layout → classFor (blockSize layout) = some ci) :
    HeapCore (({ h with phys } : Heap).setSlab ci j header) live' home := by
  obtain ⟨hci, hj, -⟩ := hc.slab f ci j hf
  refine ⟨fun g hg => ⟨(hc.owned g hg).1, (hc.owned g hg).2.1, hpmm g hg⟩, fun f' ci' j' hf' => ?_,
    fun ci' j' hci' hj' hpage => ?_, fun f' ptr hl => ?_, fun ptr layout ci' hl hcl => ?_, fun ptr layout hl hcl => ?_⟩
  · by_cases hff : f' = f
    · subst hff
      rw [hf] at hf'
      cases hf'
      exact ⟨hci, hj, by simpa using hslab⟩
    · obtain ⟨hci', hj', free, hok⟩ := hc.slab f' ci' j' hf'
      have hne : ci' ≠ ci ∨ j' ≠ j := by
        by_contra! hboth
        obtain ⟨rfl, rfl⟩ := hboth
        exact hff (hc.slab_unique hf' hf)
      refine ⟨hci', hj', free, ?_⟩
      rw [Heap.setSlab_other hne]
      refine hok.outside hci' (hc.frame_lt (by rw [hf']; nofun)) (fun a ha => ?_) fun x h1 h2 => hmem x ?_
      · rw [hlive a (hc.slot_frames hf hf' hff ha)]
      · unfold pageSize at *
        omega
  · by_cases hij : ci' = ci ∧ j' = j
    · obtain ⟨rfl, rfl⟩ := hij
      exact ⟨f, hf⟩
    · rw [Heap.setSlab_other (by omega)] at hpage
      exact hc.header ci' j' hci' hj' hpage
  · rw [hlive ptr (hc.large_not_slot hf hl)]
    exact hc.large f' ptr hl
  · by_cases hslot : InSlot f ci ptr
    · have := hcls ptr layout hslot hl
      rw [this] at hcl
      cases hcl
      exact ⟨f, j, hf, hslot⟩
    · rw [hlive ptr hslot] at hl
      exact hc.small ptr layout ci' hl hcl
  · by_cases hslot : InSlot f ci ptr
    · rw [hcls ptr layout hslot hl] at hcl
      cases hcl
    · rw [hlive ptr hslot] at hl
      exact hc.big ptr layout hl hcl

/-- **Whatever happens outside the free slots** and the frame bits. -/
theorem setPhys (hc : HeapCore h live home) (hpmm : ∀ g, home g ≠ none → phys.pmm.isFree g = false)
    (hmem : ∀ f ci j a, home f = some (.slab ci j) → InSlot f ci a → live a = none →
      ∀ x, v2p a ≤ x → x < v2p a + slotSize ci → phys.mem x = h.phys.mem x) : HeapCore { h with phys } live home := by
  refine ⟨fun g hg => ⟨(hc.owned g hg).1, (hc.owned g hg).2.1, hpmm g hg⟩, fun f ci j hf => ?_, hc.header, hc.large,
    hc.small, hc.big⟩
  obtain ⟨hci, hj, free, hok⟩ := hc.slab f ci j hf
  refine ⟨hci, hj, free, hok.frame (fun _ _ => Iff.rfl) fun a ha x h1 h2 => ?_⟩
  obtain ⟨hslot, hnone⟩ := (hok.mem_free a).mp ha
  obtain ⟨h16, -, -⟩ := slotSize_facts hci
  exact hmem f ci j a hf hslot hnone x h1 (by omega)

/-- **A new slab** on a frame the allocator did not hold. -/
theorem add_slab (hc : HeapCore h live home) (hhome : home f = none) (hf1 : 1 ≤ f) (hf : f < maxFrames)
    (hci : ci < numClasses) (hj : j < maxSlabsPerClass) (hpage : (h.slabs ci j).page = 0)
    (hpmm : ∀ g, home g ≠ none ∨ g = f → phys.pmm.isFree g = false)
    (hmem : ∀ x, x < f * pageSize ∨ f * pageSize + pageSize ≤ x → phys.mem x = h.phys.mem x)
    (hslab : ∃ free, SlabOK phys.mem live f ci header free) :
    HeapCore (({ h with phys } : Heap).setSlab ci j header) live (update home f (some (.slab ci j))) := by
  have hkeep : ∀ {g : Nat} {x : Home}, home g = some x → update home f (some (.slab ci j)) g = some x := by
    intro g x hg
    have hne : g ≠ f := fun he => by
      rw [he, hhome] at hg
      cases hg
    rw [update_of_ne hne, hg]
  have hcases : ∀ {g : Nat} {x : Home}, update home f (some (.slab ci j)) g = some x →
      (g = f ∧ x = .slab ci j) ∨ (g ≠ f ∧ home g = some x) := by
    intro g x hg
    by_cases he : g = f
    · subst he
      rw [update_self] at hg
      exact .inl ⟨rfl, (Option.some.inj hg).symm⟩
    · rw [update_of_ne he] at hg
      exact .inr ⟨he, hg⟩
  refine ⟨fun g hg => ?_, fun f' ci' j' hf' => ?_, fun ci' j' hci' hj' hp => ?_, fun f' ptr hl => ?_,
    fun ptr layout ci' hl hcl => ?_, fun ptr layout hl hcl => ?_⟩
  · by_cases he : g = f
    · subst he
      exact ⟨hf1, hf, hpmm g (.inr rfl)⟩
    · rw [update_of_ne he] at hg
      exact ⟨(hc.owned g hg).1, (hc.owned g hg).2.1, hpmm g (.inl hg)⟩
  · rcases hcases hf' with ⟨rfl, he⟩ | ⟨hne, hf'⟩
    · cases he
      exact ⟨hci, hj, by simpa using hslab⟩
    · obtain ⟨hci', hj', free, hok⟩ := hc.slab f' ci' j' hf'
      have howned := hc.owned f' (by rw [hf']; nofun)
      have hij : ci' ≠ ci ∨ j' ≠ j := by
        by_contra! hboth
        obtain ⟨rfl, rfl⟩ := hboth
        have := hok.page
        rw [hpage] at this
        unfold pageSize at this
        omega
      refine ⟨hci', hj', free, ?_⟩
      rw [Heap.setSlab_other hij]
      refine hok.outside hci' howned.2.1 (fun _ _ => Iff.rfl) fun x h1 h2 => hmem x ?_
      unfold pageSize at *
      omega
  · by_cases hij : ci' = ci ∧ j' = j
    · obtain ⟨rfl, rfl⟩ := hij
      exact ⟨f, update_self ..⟩
    · rw [Heap.setSlab_other (by omega)] at hp
      obtain ⟨f', hf'⟩ := hc.header ci' j' hci' hj' hp
      exact ⟨f', hkeep hf'⟩
  · rcases hcases hl with ⟨-, he⟩ | ⟨-, hl⟩
    · cases he
    · exact hc.large f' ptr hl
  · obtain ⟨f', j', hf', hslot⟩ := hc.small ptr layout ci' hl hcl
    exact ⟨f', j', hkeep hf', hslot⟩
  · obtain ⟨g, hptr, hg⟩ := hc.big ptr layout hl hcl
    exact ⟨g, hptr, fun f' h1 h2 => hkeep (hg f' h1 h2)⟩

/-- **A slab given up** when nothing in it is live. -/
theorem drop_slab (hc : HeapCore h live home) (hf : home f = some (.slab ci j))
    (hpmm : ∀ g, home g ≠ none → g ≠ f → phys.pmm.isFree g = false)
    (hmem : ∀ x, x < f * pageSize ∨ f * pageSize + pageSize ≤ x → phys.mem x = h.phys.mem x)
    (hnone : ∀ a, InSlot f ci a → live' a = none) (hlive : ∀ a, ¬ InSlot f ci a → live' a = live a) :
    HeapCore (({ h with phys } : Heap).setSlab ci j .empty) live' (update home f none) := by
  have hcases : ∀ {g : Nat} {x : Home}, update home f none g = some x → g ≠ f ∧ home g = some x := by
    intro g x hg
    by_cases he : g = f
    · subst he
      simp at hg
    · rw [update_of_ne he] at hg
      exact ⟨he, hg⟩
  refine ⟨fun g hg => ?_, fun f' ci' j' hf' => ?_, fun ci' j' hci' hj' hp => ?_, fun f' ptr hl => ?_,
    fun ptr layout ci' hl hcl => ?_, fun ptr layout hl hcl => ?_⟩
  · obtain ⟨x, hx⟩ := Option.ne_none_iff_exists'.mp hg
    obtain ⟨hne, hx⟩ := hcases hx
    have hg : home g ≠ none := by rw [hx]; nofun
    exact ⟨(hc.owned g hg).1, (hc.owned g hg).2.1, hpmm g hg hne⟩
  · obtain ⟨hne, hf'⟩ := hcases hf'
    obtain ⟨hci', hj', free, hok⟩ := hc.slab f' ci' j' hf'
    have hij : ci' ≠ ci ∨ j' ≠ j := by
      by_contra! hboth
      obtain ⟨rfl, rfl⟩ := hboth
      exact hne (hc.slab_unique hf' hf)
    refine ⟨hci', hj', free, ?_⟩
    rw [Heap.setSlab_other hij]
    refine hok.outside hci' (hc.frame_lt (by rw [hf']; nofun)) (fun a ha => ?_) fun x h1 h2 => hmem x ?_
    · rw [hlive a (hc.slot_frames hf hf' hne ha)]
    · unfold pageSize at *
      omega
  · by_cases hij : ci' = ci ∧ j' = j
    · obtain ⟨rfl, rfl⟩ := hij
      simp [SlabHeader.empty] at hp
    · rw [Heap.setSlab_other (by omega)] at hp
      obtain ⟨f', hf'⟩ := hc.header ci' j' hci' hj' hp
      have hne : f' ≠ f := fun he => by
        rw [he, hf] at hf'
        cases hf'
        exact hij ⟨rfl, rfl⟩
      exact ⟨f', by rw [update_of_ne hne, hf']⟩
  · obtain ⟨-, hl⟩ := hcases hl
    rw [hlive ptr (hc.large_not_slot hf hl)]
    exact hc.large f' ptr hl
  · by_cases hslot : InSlot f ci ptr
    · rw [hnone ptr hslot] at hl
      cases hl
    · rw [hlive ptr hslot] at hl
      obtain ⟨f', j', hf', hslot'⟩ := hc.small ptr layout ci' hl hcl
      have hne : f' ≠ f := fun he => by
        rw [he, hf] at hf'
        cases hf'
        exact hslot (he ▸ hslot')
      exact ⟨f', j', by rw [update_of_ne hne, hf'], hslot'⟩
  · have hslot : ¬ InSlot f ci ptr := fun hslot => by
      rw [hnone ptr hslot] at hl
      cases hl
    rw [hlive ptr hslot] at hl
    obtain ⟨g, hptr, hg⟩ := hc.big ptr layout hl hcl
    refine ⟨g, hptr, fun f' h1 h2 => ?_⟩
    have hl' := hg f' h1 h2
    have hne : f' ≠ f := fun he => by
      rw [he, hf] at hl'
      cases hl'
    rw [update_of_ne hne, hl']

/-- The use of the frames with `n` of them from `g` on changed to `x`. -/
def setRun (home : Nat → Option Home) (g n : Nat) (x : Option Home) (f : Nat) : Option Home :=
  if g ≤ f ∧ f < g + n then x else home f

theorem setRun_in {g n : Nat} {x : Option Home} (h1 : g ≤ f) (h2 : f < g + n) : setRun home g n x f = x :=
  if_pos ⟨h1, h2⟩

theorem setRun_out {g n : Nat} {x : Option Home} (h : ¬ (g ≤ f ∧ f < g + n)) : setRun home g n x f = home f :=
  if_neg h

theorem setRun_keep {g n : Nat} {x y z : Option Home} (hrun : ∀ f, g ≤ f → f < g + n → home f = y)
    (hne : z ≠ y) (hf : home f = z) : setRun home g n x f = z := by
  rw [setRun_out, hf]
  intro hin
  exact hne (hf.symm.trans (hrun f hin.1 hin.2))

/-- **A new large block** on frames the allocator did not hold. -/
theorem add_large {g : Nat} (hc : HeapCore h live home) (hcls : classFor (blockSize layout) = none)
    (hnone : ∀ f, g ≤ f → f < g + pagesOf layout → home f = none) (hg : 1 ≤ g) (hle : g + pagesOf layout ≤ maxFrames)
    (hpmm : ∀ f, setRun home g (pagesOf layout) (some (.large ptr)) f ≠ none → phys.pmm.isFree f = false)
    (hmem : ∀ x, x < g * pageSize ∨ g * pageSize + pagesOf layout * pageSize ≤ x → phys.mem x = h.phys.mem x)
    (hptr : ptr = p2v (g * pageSize)) (hfresh : live ptr = none) :
    HeapCore { h with phys } (update live ptr (some layout))
      (setRun home g (pagesOf layout) (some (.large ptr))) := by
  have hpos := pagesOf_pos layout
  have hframe : v2p ptr / pageSize = g := by
    rw [hptr, (frame_ptr (by omega)).1]
    exact Phys.frame_div g
  have hcases : ∀ {f : Nat} {x : Home}, setRun home g (pagesOf layout) (some (.large ptr)) f = some x →
      (g ≤ f ∧ f < g + pagesOf layout ∧ x = .large ptr) ∨ (¬ (g ≤ f ∧ f < g + pagesOf layout) ∧ home f = some x) := by
    intro f x hx
    by_cases hin : g ≤ f ∧ f < g + pagesOf layout
    · rw [setRun_in hin.1 hin.2] at hx
      exact .inl ⟨hin.1, hin.2, (Option.some.inj hx).symm⟩
    · rw [setRun_out hin] at hx
      exact .inr ⟨hin, hx⟩
  refine ⟨fun f hf => ?_, fun f ci j hf => ?_, fun ci j hci hj hp => ?_, fun f p hl => ?_, fun p l ci hl hcl => ?_,
    fun p l hl hcl => ?_⟩
  · obtain ⟨x, hx⟩ := Option.ne_none_iff_exists'.mp hf
    rcases hcases hx with ⟨h1, h2, -⟩ | ⟨-, hx⟩
    · exact ⟨by omega, by omega, hpmm f hf⟩
    · have := hc.owned f (by rw [hx]; nofun)
      exact ⟨this.1, this.2.1, hpmm f hf⟩
  · rcases hcases hf with ⟨-, -, he⟩ | ⟨hout, hf⟩
    · cases he
    · obtain ⟨hci, hj, free, hok⟩ := hc.slab f ci j hf
      have hlt := hc.frame_lt (f := f) (by rw [hf]; nofun)
      refine ⟨hci, hj, free, hok.outside hci hlt (fun a ha => ?_) fun x h1 h2 => hmem x ?_⟩
      · have hne : a ≠ ptr := fun he => by
          have := ha.frame hci hlt
          rw [he, hframe] at this
          omega
        rw [update_of_ne hne]
      · unfold pageSize at *
        omega
  · obtain ⟨f, hf⟩ := hc.header ci j hci hj hp
    exact ⟨f, setRun_keep hnone nofun hf⟩
  · rcases hcases hl with ⟨h1, h2, he⟩ | ⟨-, hl⟩
    · cases he
      exact ⟨layout, g, update_self .., hcls, hptr, h1, h2⟩
    · obtain ⟨l, g', hlive, hrest⟩ := hc.large f p hl
      have hne : p ≠ ptr := fun he => by
        rw [he, hfresh] at hlive
        cases hlive
      exact ⟨l, g', by rw [update_of_ne hne, hlive], hrest⟩
  · by_cases he : p = ptr
    · rw [he, update_self] at hl
      cases hl
      rw [hcls] at hcl
      cases hcl
    · rw [update_of_ne he] at hl
      obtain ⟨f, j, hf, hslot⟩ := hc.small p l ci hl hcl
      exact ⟨f, j, setRun_keep hnone nofun hf, hslot⟩
  · by_cases he : p = ptr
    · rw [he, update_self] at hl
      cases hl
      exact ⟨g, he ▸ hptr, fun f h1 h2 => he ▸ setRun_in h1 h2⟩
    · rw [update_of_ne he] at hl
      obtain ⟨g', hp, hrun⟩ := hc.big p l hl hcl
      exact ⟨g', hp, fun f h1 h2 => setRun_keep hnone nofun (hrun f h1 h2)⟩

/-- **A large block given up.** -/
theorem drop_large {g : Nat} (hc : HeapCore h live home) (hl : live ptr = some layout)
    (hcls : classFor (blockSize layout) = none) (hptr : ptr = p2v (g * pageSize))
    (hrun : ∀ f, g ≤ f → f < g + pagesOf layout → home f = some (.large ptr))
    (hpmm : ∀ f, setRun home g (pagesOf layout) none f ≠ none → phys.pmm.isFree f = false)
    (hmem : phys.mem = h.phys.mem) :
    HeapCore { h with phys } (update live ptr none) (setRun home g (pagesOf layout) none) := by
  have hcases : ∀ {f : Nat} {x : Home}, setRun home g (pagesOf layout) none f = some x →
      ¬ (g ≤ f ∧ f < g + pagesOf layout) ∧ home f = some x := by
    intro f x hx
    by_cases hin : g ≤ f ∧ f < g + pagesOf layout
    · rw [setRun_in hin.1 hin.2] at hx
      cases hx
    · rw [setRun_out hin] at hx
      exact ⟨hin, hx⟩
  have hother : ∀ {p : Nat} {l : Layout}, update live ptr none p = some l → p ≠ ptr ∧ live p = some l := by
    intro p l hp
    by_cases he : p = ptr
    · rw [he, update_self] at hp
      cases hp
    · rw [update_of_ne he] at hp
      exact ⟨he, hp⟩
  refine ⟨fun f hf => ?_, fun f ci j hf => ?_, fun ci j hci hj hp => ?_, fun f p hp => ?_, fun p l ci hp hcl => ?_,
    fun p l hp hcl => ?_⟩
  · obtain ⟨x, hx⟩ := Option.ne_none_iff_exists'.mp hf
    have := hc.owned f (by rw [(hcases hx).2]; nofun)
    exact ⟨this.1, this.2.1, hpmm f hf⟩
  · obtain ⟨-, hf⟩ := hcases hf
    obtain ⟨hci, hj, free, hok⟩ := hc.slab f ci j hf
    refine ⟨hci, hj, free, hok.outside hci (hc.frame_lt (by rw [hf]; nofun)) (fun a ha => ?_) fun x _ _ => by rw [hmem]⟩
    have hne : a ≠ ptr := fun he => by
      rw [hc.class_of_slot hf (he ▸ ha) hl] at hcls
      cases hcls
    rw [update_of_ne hne]
  · obtain ⟨f, hf⟩ := hc.header ci j hci hj hp
    exact ⟨f, setRun_keep hrun nofun hf⟩
  · obtain ⟨hout, hp⟩ := hcases hp
    obtain ⟨l, g', hlive, hcl, hpg, h1, h2⟩ := hc.large f p hp
    have hne : p ≠ ptr := fun he => by
      subst he
      rw [hl] at hlive
      cases hlive
      have hlt := hc.frame_lt (f := g) (by rw [hrun g (Nat.le_refl g) (by have := pagesOf_pos layout; omega)]; nofun)
      have hlt' : g' < maxFrames := by
        have := hc.frame_lt (f := f) (by rw [hp]; nofun)
        omega
      have hgg : g * pageSize = g' * pageSize := by rw [← (frame_ptr hlt).1, ← hptr, hpg, (frame_ptr hlt').1]
      have := Nat.eq_of_mul_eq_mul_right (by decide : 0 < pageSize) hgg
      exact hout (by omega)
    exact ⟨l, g', by rw [update_of_ne hne, hlive], hcl, hpg, h1, h2⟩
  · obtain ⟨-, hp⟩ := hother hp
    obtain ⟨f, j, hf, hslot⟩ := hc.small p l ci hp hcl
    exact ⟨f, j, setRun_keep hrun nofun hf, hslot⟩
  · obtain ⟨hne, hp⟩ := hother hp
    obtain ⟨g', hpg, hrun'⟩ := hc.big p l hp hcl
    exact ⟨g', hpg, fun f h1 h2 => setRun_keep hrun (by simpa using hne) (hrun' f h1 h2)⟩

/-! ## Where the blocks are -/

theorem small_extent (hc : HeapCore h live home) (hl : live ptr = some layout)
    (hcls : classFor (blockSize layout) = some ci) : ∃ f j, home f = some (.slab ci j) ∧ InSlot f ci ptr ∧
      f * pageSize ≤ v2p ptr ∧ v2p ptr + slotSize ci ≤ f * pageSize + pageSize ∧ layout.size ≤ slotSize ci := by
  obtain ⟨f, j, hf, hslot⟩ := hc.small ptr layout ci hl hcls
  obtain ⟨hci, hle⟩ := classFor_spec hcls
  obtain ⟨h1, h2, -⟩ := hslot.bounds hci (hc.frame_lt (by rw [hf]; nofun))
  exact ⟨f, j, hf, hslot, h1, h2, (size_le_blockSize layout).trans hle⟩

theorem aligned (hc : HeapCore h live home) (hl : live ptr = some layout) (hle : layout.align ≤ pageSize) :
    layout.align ∣ ptr := by
  obtain ⟨k, hk⟩ := layout.align_pow
  have hpow : pageSize = 2 ^ 12 := by decide
  have hpage : layout.align ∣ pageSize := by
    rw [hk, hpow] at hle ⊢
    exact Nat.pow_dvd_pow 2 ((Nat.pow_le_pow_iff_right (by decide)).mp hle)
  have hoffset : layout.align ∣ physicalOffset := hpage.trans (by decide)
  cases hcls : classFor (blockSize layout) with
  | some ci =>
    obtain ⟨f, j, hf, i, hi, hptr⟩ := hc.small ptr layout ci hl hcls
    obtain ⟨hci, hsize⟩ := classFor_spec hcls
    have hslot : layout.align ∣ slotSize ci := by
      have halign : layout.align ≤ slotSize ci := (align_le_blockSize layout).trans hsize
      rw [slotSize_pow hci, hk] at halign ⊢
      exact Nat.pow_dvd_pow 2 ((Nat.pow_le_pow_iff_right (by decide)).mp halign)
    rw [hptr, (v2p_slotPtr hci (hc.frame_lt (by rw [hf]; nofun)) hi).2]
    exact Nat.dvd_add (Nat.dvd_add (hpage.mul_left f) (hslot.mul_left i)) hoffset
  | none =>
    obtain ⟨g, hptr, -, hg, -⟩ := hc.big_home hl hcls
    rw [hptr, (frame_ptr (hc.frame_lt (by rw [hg]; nofun))).2]
    exact Nat.dvd_add (hpage.mul_left g) hoffset

theorem large_extent (hc : HeapCore h live home) (hl : live ptr = some layout)
    (hcls : classFor (blockSize layout) = none) : ∃ g, v2p ptr = g * pageSize ∧
      v2p ptr + layout.size ≤ g * pageSize + pagesOf layout * pageSize ∧
      ∀ f, g ≤ f → f < g + pagesOf layout → home f = some (.large ptr) := by
  obtain ⟨g, hptr, -, hg, hrun⟩ := hc.big_home hl hcls
  have hv : v2p ptr = g * pageSize := by
    rw [hptr]
    exact (frame_ptr (hc.frame_lt (by rw [hg]; nofun))).1
  have := size_le_pagesOf layout
  exact ⟨g, hv, by omega, hrun⟩

theorem frame_apart_run {g n f : Nat} {x y : Option Home} (hrun : ∀ f, g ≤ f → f < g + n → home f = x)
    (hf : home f = y) (hne : y ≠ x) :
    f * pageSize + pageSize ≤ g * pageSize ∨ g * pageSize + n * pageSize ≤ f * pageSize := by
  have hout : ¬ (g ≤ f ∧ f < g + n) := fun hin => hne (hf.symm.trans (hrun f hin.1 hin.2))
  unfold pageSize
  omega

/-- **Live blocks do not overlap.** -/
theorem live_apart (hc : HeapCore h live home) {p q : Nat} {l m : Layout} (hp : live p = some l)
    (hq : live q = some m) (hne : p ≠ q) : v2p p + l.size ≤ v2p q ∨ v2p q + m.size ≤ v2p p := by
  cases hcl : classFor (blockSize l) with
  | some ci =>
    obtain ⟨f, j, hf, hslot, h1, h2, h3⟩ := hc.small_extent hp hcl
    cases hcm : classFor (blockSize m) with
    | some ci' =>
      obtain ⟨f', j', hf', hslot', h1', h2', h3'⟩ := hc.small_extent hq hcm
      by_cases hff : f = f'
      · subst hff
        rw [hf] at hf'
        cases hf'
        have := hslot.apart hslot' hne (hc.slab f ci j hf).1 (hc.frame_lt (by rw [hf]; nofun))
        omega
      · unfold pageSize at *
        omega
    | none =>
      obtain ⟨g, hv, hle, hrun⟩ := hc.large_extent hq hcm
      have := frame_apart_run hrun hf nofun
      omega
  | none =>
    obtain ⟨g, hv, hle, hrun⟩ := hc.large_extent hp hcl
    cases hcm : classFor (blockSize m) with
    | some ci' =>
      obtain ⟨f', j', hf', hslot', h1', h2', h3'⟩ := hc.small_extent hq hcm
      have := frame_apart_run hrun hf' nofun
      omega
    | none =>
      obtain ⟨g', hv', hle', hrun'⟩ := hc.large_extent hq hcm
      have hpl := pagesOf_pos l
      have hpm := pagesOf_pos m
      -- the first frame of the one is not a frame of the other
      have h1 := frame_apart_run hrun (hrun' g' (Nat.le_refl g') (by omega)) (by simpa using hne.symm)
      have h2 := frame_apart_run hrun' (hrun g (Nat.le_refl g) (by omega)) (by simpa using hne)
      unfold pageSize at *
      omega

/-- **Live blocks do not touch free slots.** -/
theorem live_apart_free (hc : HeapCore h live home) {p a : Nat} {l : Layout} (hp : live p = some l)
    (hf : home f = some (.slab ci j)) (ha : InSlot f ci a) (hnone : live a = none) :
    v2p p + l.size ≤ v2p a ∨ v2p a + slotSize ci ≤ v2p p := by
  obtain ⟨hci, -, -⟩ := hc.slab f ci j hf
  have hlt := hc.frame_lt (f := f) (by rw [hf]; nofun)
  obtain ⟨hb1, hb2, -⟩ := ha.bounds hci hlt
  have hne : p ≠ a := fun he => by
    rw [he, hnone] at hp
    cases hp
  cases hcl : classFor (blockSize l) with
  | some ci' =>
    obtain ⟨f', j', hf', hslot', h1', h2', h3'⟩ := hc.small_extent hp hcl
    by_cases hff : f = f'
    · subst hff
      rw [hf] at hf'
      cases hf'
      have := hslot'.apart ha hne hci hlt
      omega
    · unfold pageSize at *
      omega
  | none =>
    obtain ⟨g, hv, hle, hrun⟩ := hc.large_extent hp hcl
    have := frame_apart_run hrun hf nofun
    omega

end HeapCore

end CoreOS
