/-
One slab: a frame cut into slots, the free ones threaded on a list and the
others live (`SlabOK`). A slot goes from the list to the caller and back
(`SlabOK.take`, `SlabOK.give`), and a slab all of whose slots are on the list
has no live block.
-/
import Mathlib.Data.List.Nodup
import Mathlib.Data.Finset.Card
import CoreOS.Lib.FreeList
import CoreOS.Heap

namespace CoreOS

open ByteMem FreeList

/-! ## Slots of a frame -/

variable {ci : Nat}

theorem slotSize_facts (h : ci < numClasses) :
    16 ≤ slotSize ci ∧ slotSize ci ≤ 2048 ∧ pageSize / slotSize ci * slotSize ci = pageSize := by
  have hall : ∀ ci < numClasses, 16 ≤ slotSize ci ∧ slotSize ci ≤ 2048 ∧
      pageSize / slotSize ci * slotSize ci = pageSize := by decide
  exact hall ci h

theorem slotSize_pow (h : ci < numClasses) : slotSize ci = 2 ^ (ci + 4) := by
  have hall : ∀ ci < numClasses, slotSize ci = 2 ^ (ci + 4) := by decide
  exact hall ci h

/-- The pointer to slot `i` of frame `f` in class `ci`. -/
def slotPtr (f ci i : Nat) : Nat := p2v (f * pageSize + i * slotSize ci)

/-- `a` points to a slot of frame `f` in class `ci`. -/
def InSlot (f ci a : Nat) : Prop := ∃ i < pageSize / slotSize ci, a = slotPtr f ci i

variable {i : Nat}

theorem slot_end (hci : ci < numClasses) (hi : i < pageSize / slotSize ci) :
    i * slotSize ci + slotSize ci ≤ pageSize := by
  obtain ⟨-, -, hcap⟩ := slotSize_facts hci
  calc i * slotSize ci + slotSize ci = (i + 1) * slotSize ci := (Nat.succ_mul i _).symm
    _ ≤ pageSize / slotSize ci * slotSize ci := Nat.mul_le_mul_right _ hi
    _ = pageSize := hcap

variable {f : Nat}

theorem v2p_slotPtr (hci : ci < numClasses) (hf : f < maxFrames) (hi : i < pageSize / slotSize ci) :
    v2p (slotPtr f ci i) = f * pageSize + i * slotSize ci ∧
      slotPtr f ci i = f * pageSize + i * slotSize ci + physicalOffset := by
  have hend := slot_end hci hi
  have hlt : f * pageSize + i * slotSize ci < 2 ^ 47 := by
    unfold pageSize maxFrames at *
    omega
  exact ⟨v2p_p2v hlt, p2v_of_lt hlt⟩

namespace InSlot

variable {f ci a b : Nat}

theorem bounds (h : InSlot f ci a) (hci : ci < numClasses) (hf : f < maxFrames) :
    f * pageSize ≤ v2p a ∧ v2p a + slotSize ci ≤ f * pageSize + pageSize ∧ a = v2p a + physicalOffset := by
  obtain ⟨i, hi, he⟩ := h
  obtain ⟨hv, hp⟩ := v2p_slotPtr hci hf hi
  have hend := slot_end hci hi
  rw [he, hv]
  omega

theorem frame (h : InSlot f ci a) (hci : ci < numClasses) (hf : f < maxFrames) : v2p a / pageSize = f := by
  obtain ⟨h1, h2, -⟩ := h.bounds hci hf
  obtain ⟨h16, -, -⟩ := slotSize_facts hci
  unfold pageSize at *
  omega

theorem ne_zero (h : InSlot f ci a) (hci : ci < numClasses) (hf : f < maxFrames) : a ≠ 0 := by
  obtain ⟨-, -, h3⟩ := h.bounds hci hf
  unfold physicalOffset at h3
  omega

theorem lt (h : InSlot f ci a) (hci : ci < numClasses) (hf : f < maxFrames) : a < 2 ^ 64 := by
  obtain ⟨-, h2, h3⟩ := h.bounds hci hf
  unfold physicalOffset pageSize maxFrames at *
  omega

theorem apart (h : InSlot f ci a) (h' : InSlot f ci b) (hne : a ≠ b) (hci : ci < numClasses) (hf : f < maxFrames) :
    v2p a + slotSize ci ≤ v2p b ∨ v2p b + slotSize ci ≤ v2p a := by
  obtain ⟨i, hi, ha⟩ := h
  obtain ⟨j, hj, hb⟩ := h'
  have hij : i ≠ j := fun he => hne (by rw [ha, hb, he])
  rw [ha, hb, (v2p_slotPtr hci hf hi).1, (v2p_slotPtr hci hf hj).1]
  rcases Nat.lt_or_gt_of_ne hij with hlt | hlt
  · left
    have := Nat.mul_le_mul_right (slotSize ci) hlt
    rw [Nat.succ_mul] at this
    omega
  · right
    have := Nat.mul_le_mul_right (slotSize ci) hlt
    rw [Nat.succ_mul] at this
    omega

end InSlot

/-- All slots of a frame. -/
def slotList (f ci : Nat) : List Nat := (List.range (pageSize / slotSize ci)).map (slotPtr f ci)

variable {a : Nat}

theorem mem_slotList : a ∈ slotList f ci ↔ InSlot f ci a := by
  simp [slotList, InSlot, eq_comm]

theorem slotList_length : (slotList f ci).length = pageSize / slotSize ci := by simp [slotList]

theorem slotPtr_injOn {j : Nat} (hci : ci < numClasses) (hf : f < maxFrames) (hi : i < pageSize / slotSize ci)
    (hj : j < pageSize / slotSize ci) (h : slotPtr f ci i = slotPtr f ci j) : i = j := by
  obtain ⟨-, hi'⟩ := v2p_slotPtr hci hf hi
  obtain ⟨-, hj'⟩ := v2p_slotPtr hci hf hj
  obtain ⟨h16, -, -⟩ := slotSize_facts hci
  have heq : i * slotSize ci = j * slotSize ci := by omega
  exact Nat.eq_of_mul_eq_mul_right (by omega) heq

theorem slotList_nodup (hci : ci < numClasses) (hf : f < maxFrames) : (slotList f ci).Nodup := by
  refine List.Nodup.map_on (fun i hi j hj h => ?_) List.nodup_range
  exact slotPtr_injOn hci hf (List.mem_range.mp hi) (List.mem_range.mp hj) h

/-! ## Links -/

/-- The link a free slot holds. -/
def nextFree (mem : Mem) (a : Nat) : Nat := (loadWord mem (v2p a)).toNat

variable {mem : Mem}

theorem nextFree_congr {mem' : Mem} (h : ∀ x, v2p a ≤ x → x < v2p a + 8 → mem' x = mem x) :
    nextFree mem' a = nextFree mem a := by
  rw [nextFree, loadWord_congr h, nextFree]

theorem nextFree_storeWord {n : Nat} (hn : n < 2 ^ 64) :
    nextFree (storeWord mem (v2p a) (BitVec.ofNat 64 n)) a = n := by
  rw [nextFree, loadWord_storeWord, BitVec.toNat_ofNat, Nat.mod_eq_of_lt hn]

theorem nextFree_storeWord_other {b : Nat} {w : Word} (h : v2p a + 8 ≤ v2p b ∨ v2p b + 8 ≤ v2p a) :
    nextFree (storeWord mem (v2p a) w) b = nextFree mem b := by
  rw [nextFree, loadWord_storeWord_other h, nextFree]

theorem chain_head_lt {next : Nat → Nat} {head : Nat} {l : List Nat} (h : Chain next head l)
    (hl : ∀ a ∈ l, InSlot f ci a) (hci : ci < numClasses) (hf : f < maxFrames) : head < 2 ^ 64 := by
  cases l with
  | nil =>
    have h0 : head = 0 := h
    omega
  | cons a l =>
    obtain ⟨rfl, -, -⟩ := h
    exact (hl head List.mem_cons_self).lt hci hf

theorem threadSlot_eq {s : Nat × Mem} : Heap.threadSlot (f * pageSize) (slotSize ci) s i =
    (slotPtr f ci i, storeWord s.2 (v2p (slotPtr f ci i)) (BitVec.ofNat 64 s.1)) := rfl

theorem foldl_threadSlot {s : Nat × Mem} {l : List Nat} (hci : ci < numClasses) (hf : f < maxFrames)
    (hi : i ≤ pageSize / slotSize ci) (hchain : Chain (nextFree s.2) s.1 l)
    (hl : ∀ a ∈ l, ∃ k, i ≤ k ∧ k < pageSize / slotSize ci ∧ a = slotPtr f ci k) :
    ∃ s', (List.range i).reverse.foldl (Heap.threadSlot (f * pageSize) (slotSize ci)) s = s' ∧
      Chain (nextFree s'.2) s'.1 ((List.range i).map (slotPtr f ci) ++ l) ∧
      ∀ x, x < f * pageSize ∨ f * pageSize + pageSize ≤ x → s'.2 x = s.2 x := by
  induction i generalizing s l with
  | zero => exact ⟨s, rfl, hchain, fun _ _ => rfl⟩
  | succ i ih =>
    obtain ⟨h16, -, -⟩ := slotSize_facts hci
    have hslot : InSlot f ci (slotPtr f ci i) := ⟨i, hi, rfl⟩
    have hin : ∀ a ∈ l, InSlot f ci a ∧ a ≠ slotPtr f ci i := by
      intro a ha
      obtain ⟨k, hik, hk, hak⟩ := hl a ha
      refine ⟨⟨k, hk, hak⟩, fun he => ?_⟩
      have := slotPtr_injOn hci hf hk hi (hak.symm.trans he)
      omega
    have hprev := chain_head_lt hchain (fun a ha => (hin a ha).1) hci hf
    obtain ⟨s1, hs1⟩ : ∃ s1, Heap.threadSlot (f * pageSize) (slotSize ci) s i = s1 := ⟨_, rfl⟩
    have hptr : s1.1 = slotPtr f ci i := by rw [← hs1, threadSlot_eq]
    have hmem : s1.2 = storeWord s.2 (v2p (slotPtr f ci i)) (BitVec.ofNat 64 s.1) := by rw [← hs1, threadSlot_eq]
    -- slot i is linked to the list so far
    have hpush : Chain (nextFree s1.2) s1.1 (slotPtr f ci i :: l) := by
      rw [hptr, hmem]
      refine hchain.push (hslot.ne_zero hci hf) (fun b hb => ?_) (nextFree_storeWord hprev)
      refine nextFree_storeWord_other ?_
      have := hslot.apart (hin b hb).1 (hin b hb).2.symm hci hf
      omega
    obtain ⟨s', hs', hc, hout⟩ := ih (by omega) hpush (fun a ha => by
      rcases List.mem_cons.mp ha with he | ha
      · exact ⟨i, Nat.le_refl i, hi, he⟩
      · obtain ⟨k, hik, hk, hak⟩ := hl a ha
        exact ⟨k, by omega, hk, hak⟩)
    refine ⟨s', ?_, ?_, fun x hx => ?_⟩
    · rw [List.range_succ, List.reverse_append, List.reverse_singleton, List.singleton_append, List.foldl_cons,
        hs1, hs']
    · rw [List.range_succ, List.map_append, List.append_assoc]
      exact hc
    · rw [hout x hx, hmem]
      apply storeWord_out
      obtain ⟨h1, h2, -⟩ := hslot.bounds hci hf
      omega

theorem threadSlots_spec (mem : Mem) (hci : ci < numClasses) (hf : f < maxFrames) :
    ∃ head mem', Heap.threadSlots (f * pageSize) (slotSize ci) (pageSize / slotSize ci) mem = (head, mem') ∧
      Chain (nextFree mem') head (slotList f ci) ∧
      ∀ x, x < f * pageSize ∨ f * pageSize + pageSize ≤ x → mem' x = mem x := by
  obtain ⟨s', hs', hc, hout⟩ := foldl_threadSlot (s := (0, mem)) (l := []) hci hf (Nat.le_refl _) rfl (by simp)
  refine ⟨s'.1, s'.2, hs', ?_, hout⟩
  rwa [List.append_nil] at hc

/-! ## A slab -/

/-- The slab of class `ci` on frame `f`, its free slots being `free`: those are
on the list from the header, the others are live. -/
structure SlabOK (mem : Mem) (live : Nat → Option Layout) (f ci : Nat) (header : SlabHeader) (free : List Nat) :
    Prop where
  page : header.page = f * pageSize
  capacity : header.capacity = pageSize / slotSize ci
  chain : Chain (nextFree mem) header.freeHead free
  nodup : free.Nodup
  count : free.length = header.freeCount
  mem_free : ∀ a, a ∈ free ↔ InSlot f ci a ∧ live a = none

namespace SlabOK

variable {mem mem' : Mem} {live live' : Nat → Option Layout} {f ci p : Nat} {header : SlabHeader} {free : List Nat}
  {layout : Layout}

theorem frame (h : SlabOK mem live f ci header free) (hlive : ∀ a, InSlot f ci a → (live' a = none ↔ live a = none))
    (hmem : ∀ a ∈ free, ∀ x, v2p a ≤ x → x < v2p a + 8 → mem' x = mem x) :
    SlabOK mem' live' f ci header free := by
  refine ⟨h.page, h.capacity, h.chain.congr fun a ha => nextFree_congr (hmem a ha), h.nodup, h.count, fun a => ?_⟩
  rw [h.mem_free]
  constructor
  · exact fun ⟨hs, hl⟩ => ⟨hs, (hlive a hs).mpr hl⟩
  · exact fun ⟨hs, hl⟩ => ⟨hs, (hlive a hs).mp hl⟩

theorem outside (h : SlabOK mem live f ci header free) (hci : ci < numClasses) (hf : f < maxFrames)
    (hlive : ∀ a, InSlot f ci a → (live' a = none ↔ live a = none))
    (hmem : ∀ x, f * pageSize ≤ x → x < f * pageSize + pageSize → mem' x = mem x) :
    SlabOK mem' live' f ci header free := by
  refine h.frame hlive fun a ha x h1 h2 => ?_
  obtain ⟨hb1, hb2, -⟩ := ((h.mem_free a).mp ha).1.bounds hci hf
  obtain ⟨h16, -, -⟩ := slotSize_facts hci
  exact hmem x (by omega) (by omega)

theorem take (h : SlabOK mem live f ci header (p :: free)) (hci : ci < numClasses) (hf : f < maxFrames) :
    SlabOK (fill mem (v2p p) (slotSize ci) 0) (Function.update live p (some layout)) f ci
      { header with freeHead := nextFree mem p, freeCount := header.freeCount - 1 } free := by
  obtain ⟨hhead, -, hrest⟩ := h.chain
  obtain ⟨hp, hnd⟩ := List.nodup_cons.mp h.nodup
  have hcount := h.count
  have hps := ((h.mem_free p).mp List.mem_cons_self).1
  obtain ⟨h16, -, -⟩ := slotSize_facts hci
  refine ⟨h.page, h.capacity, hrest.congr fun a ha => nextFree_congr fun x h1 h2 => fill_out ?_, hnd, ?_, fun a => ?_⟩
  · have has := ((h.mem_free a).mp (List.mem_cons_of_mem p ha)).1
    have := has.apart hps (fun he => hp (he ▸ ha)) hci hf
    omega
  · simp only [List.length_cons] at hcount
    simp only
    omega
  · by_cases hap : a = p
    · subst hap
      simp [hp]
    · have := h.mem_free a
      simp only [List.mem_cons, hap, false_or] at this
      rw [this, Function.update_of_ne hap]

theorem give (h : SlabOK mem live f ci header free) (hci : ci < numClasses) (hf : f < maxFrames)
    (hp : InSlot f ci p) (hlive : live p ≠ none) :
    SlabOK (storeWord mem (v2p p) (BitVec.ofNat 64 header.freeHead)) (Function.update live p none) f ci
      { header with freeHead := p, freeCount := header.freeCount + 1 } (p :: free) := by
  have hnot : p ∉ free := fun hm => hlive ((h.mem_free p).mp hm).2
  have hhead := chain_head_lt h.chain (fun a ha => ((h.mem_free a).mp ha).1) hci hf
  obtain ⟨h16, -, -⟩ := slotSize_facts hci
  refine ⟨h.page, h.capacity, ?_, List.nodup_cons.mpr ⟨hnot, h.nodup⟩, by simp [h.count], fun a => ?_⟩
  · refine h.chain.push (hp.ne_zero hci hf) (fun b hb => nextFree_storeWord_other ?_) (nextFree_storeWord hhead)
    have := hp.apart ((h.mem_free b).mp hb).1 (fun he => hnot (he ▸ hb)) hci hf
    omega
  · by_cases hap : a = p
    · subst hap
      simp [hp]
    · simp only [List.mem_cons, hap, false_or, Function.update_of_ne hap]
      exact h.mem_free a

theorem fresh {head : Nat} (hci : ci < numClasses) (hf : f < maxFrames)
    (hchain : Chain (nextFree mem) head (slotList f ci)) (hlive : ∀ a, InSlot f ci a → live a = none) :
    SlabOK mem live f ci ⟨f * pageSize, head, pageSize / slotSize ci, pageSize / slotSize ci⟩ (slotList f ci) := by
  refine ⟨rfl, rfl, hchain, slotList_nodup hci hf, slotList_length, fun a => ?_⟩
  rw [mem_slotList]
  exact ⟨fun h => ⟨h, hlive a h⟩, fun h => h.1⟩

theorem subset (h : SlabOK mem live f ci header free) : free ⊆ slotList f ci :=
  fun a ha => mem_slotList.mpr ((h.mem_free a).mp ha).1

theorem freeCount_lt (h : SlabOK mem live f ci header free) (hp : InSlot f ci p) (hlive : live p ≠ none) :
    header.freeCount < header.capacity := by
  have hnot : p ∉ free := fun hm => hlive ((h.mem_free p).mp hm).2
  have hsub : p :: free ⊆ slotList f ci := by
    intro a ha
    rcases List.mem_cons.mp ha with he | ha
    · exact he ▸ mem_slotList.mpr hp
    · exact h.subset ha
  have hle := (List.subperm_of_subset (List.nodup_cons.mpr ⟨hnot, h.nodup⟩) hsub).length_le
  rw [slotList_length, List.length_cons, h.count, ← h.capacity] at hle
  exact hle

theorem all_free (h : SlabOK mem live f ci header free) (hcount : header.freeCount = header.capacity)
    (hp : InSlot f ci p) : live p = none := by
  by_contra hlive
  have := h.freeCount_lt hp hlive
  omega

theorem exists_live (h : SlabOK mem live f ci header free) (hci : ci < numClasses) (hf : f < maxFrames)
    (hcount : header.freeCount ≠ header.capacity) : ∃ a, InSlot f ci a ∧ live a ≠ none := by
  by_contra! hnone
  have hsub : slotList f ci ⊆ free := fun a ha =>
    (h.mem_free a).mpr ⟨mem_slotList.mp ha, hnone a (mem_slotList.mp ha)⟩
  have h1 := (List.subperm_of_subset (slotList_nodup hci hf) hsub).length_le
  have h2 := (List.subperm_of_subset h.nodup h.subset).length_le
  rw [slotList_length, h.count, ← h.capacity] at h1 h2
  omega

end SlabOK

end CoreOS
