/-
Facts about the frame allocator: the clear bits as a finite set of frames
(`freeSet`), what each operation does to that set, and the conservation law
over whole runs.
-/
import CoreOS.Pmm
import CoreOS.Lib.Exec
import Mathlib.Data.Finset.Card
import Mathlib.Data.Finset.Range
import Mathlib.Data.List.Range
import Mathlib.Tactic.IntervalCases

namespace CoreOS

open ByteMem

namespace PmmState

/-! ## Bits -/

theorem oneShift_bit {j k : Nat} (hj : j < 8) : (1#8 <<< k).getLsbD j = decide (j = k) := by
  simp only [BitVec.getLsbD_shiftLeft, BitVec.getLsbD_one, hj, decide_true, Bool.true_and]
  by_cases h : j = k
  · simp [h]
  · simp [h]
    omega

variable {p : PmmState} {f : Nat}

theorem isFree_iff :
    p.isFree f = true ↔ (p.bitmap (f / 8)).getLsbD (f % 8) = false := by
  have h8 : f % 8 < 8 := Nat.mod_lt _ (by decide)
  simp only [isFree, beq_iff_eq]
  constructor
  · intro h
    have hb := congrArg (fun b => BitVec.getLsbD b (f % 8)) h
    simpa [oneShift_bit h8] using hb
  · intro h
    apply BitVec.eq_of_getLsbD_eq
    intro i hi
    by_cases hif : i = f % 8
    · simp [hif, h]
    · simp [oneShift_bit hi, hif]

theorem isFree_setUsed {g : Nat} :
    (p.setUsed f).isFree g = true ↔ g ≠ f ∧ p.isFree g = true := by
  have g8 : g % 8 < 8 := Nat.mod_lt _ (by decide)
  simp only [isFree_iff, setUsed]
  by_cases hd : g / 8 = f / 8
  · have hm : g % 8 = f % 8 ↔ g = f := by omega
    simp [hd, oneShift_bit g8, hm, and_comm]
  · have hne : g ≠ f := fun h => hd (by rw [h])
    simp [hd, hne]

theorem isFree_setFree {g : Nat} :
    (p.setFree f).isFree g = true ↔ g = f ∨ p.isFree g = true := by
  have g8 : g % 8 < 8 := Nat.mod_lt _ (by decide)
  simp only [isFree_iff, setFree]
  by_cases hd : g / 8 = f / 8
  · have hm : g % 8 = f % 8 ↔ g = f := by omega
    simp only [hd, ↓reduceIte, BitVec.getLsbD_and, BitVec.getLsbD_not, g8, oneShift_bit g8, hm]
    by_cases hgf : g = f <;> simp [hgf]
  · have hne : g ≠ f := fun h => hd (by rw [h])
    simp [hd, hne]

/-- The frames whose bit is clear. -/
def freeSet (p : PmmState) : Finset Nat := (Finset.range maxFrames).filter fun f => p.isFree f

theorem mem_freeSet : f ∈ p.freeSet ↔ f < maxFrames ∧ p.isFree f = true := by
  simp [freeSet]

variable {n : Nat}

@[simp] theorem isFree_withFree : (p.withFree n).isFree f = p.isFree f := rfl

@[simp] theorem freeSet_withFree : (p.withFree n).freeSet = p.freeSet := rfl

@[simp] theorem freeSet_withTotal : (p.withTotal n).freeSet = p.freeSet := rfl

theorem freeSet_setUsed : (p.setUsed f).freeSet = p.freeSet.erase f := by
  ext g
  simp only [mem_freeSet, isFree_setUsed, Finset.mem_erase]
  tauto

theorem freeSet_setFree (hf : f < maxFrames) :
    (p.setFree f).freeSet = insert f p.freeSet := by
  ext g
  simp only [mem_freeSet, isFree_setFree, Finset.mem_insert]
  constructor
  · rintro ⟨hg, rfl | hfree⟩
    · exact .inl rfl
    · exact .inr ⟨hg, hfree⟩
  · rintro (rfl | ⟨hg, hfree⟩)
    · exact ⟨hf, .inl rfl⟩
    · exact ⟨hg, .inr hfree⟩

/-! ## Initialisation -/

/-- The free counter agrees with the bitmap, and the total is at least it. -/
structure Counted (p : PmmState) : Prop where
  free : p.freeFrames = p.freeSet.card
  total : p.freeFrames ≤ p.totalFrames

theorem card_freeSet_le (p : PmmState) : p.freeSet.card ≤ maxFrames := by
  simpa [freeSet] using Finset.card_filter_le (Finset.range maxFrames) fun f => p.isFree f = true

theorem new_freeSet : new.freeSet = ∅ := by
  ext f
  simp only [mem_freeSet, isFree_iff, new, Finset.notMem_empty, iff_false, not_and, Bool.not_eq_false]
  intro _
  have h8 : f % 8 < 8 := Nat.mod_lt _ (by decide)
  generalize f % 8 = k at h8
  interval_cases k <;> rfl

theorem new_counted : new.Counted := ⟨by rw [new_freeSet]; rfl, by simp [new]⟩

theorem freeSet_releaseFrame :
    (p.releaseFrame f).freeSet = p.freeSet ∪ (Finset.range maxFrames ∩ {f}) := by
  unfold releaseFrame
  split
  · next h =>
    rw [freeSet_withTotal, freeSet_withFree, freeSet_setFree h.1]
    ext g
    simp only [Finset.mem_insert, Finset.mem_union, Finset.mem_inter, Finset.mem_range,
      Finset.mem_singleton]
    constructor
    · rintro (rfl | hg)
      · exact .inr ⟨h.1, rfl⟩
      · exact .inl hg
    · rintro (hg | ⟨-, rfl⟩)
      · exact .inr hg
      · exact .inl rfl
  · next h =>
    ext g
    simp only [Finset.mem_union, Finset.mem_inter, Finset.mem_range, Finset.mem_singleton, mem_freeSet]
    constructor
    · exact .inl
    · rintro (hg | ⟨hg, rfl⟩)
      · exact hg
      · exact ⟨hg, by_contra fun hn => h ⟨hg, hn⟩⟩

theorem Counted.releaseFrame (h : p.Counted) : (p.releaseFrame f).Counted := by
  unfold PmmState.releaseFrame
  split
  · next hf =>
    have hn : f ∉ p.freeSet := fun hm => hf.2 (mem_freeSet.mp hm).2
    refine ⟨?_, Nat.add_le_add_right h.total 1⟩
    rw [freeSet_withTotal, freeSet_withFree, freeSet_setFree hf.1, Finset.card_insert_of_notMem hn]
    exact congrArg (· + 1) h.free
  · exact h

theorem freeSet_reserveFrame : (p.reserveFrame f).freeSet = p.freeSet.erase f := by
  unfold reserveFrame
  split
  · rw [freeSet_withFree, freeSet_setUsed]
  · next h =>
    rw [Finset.erase_eq_of_notMem fun hm => h (mem_freeSet.mp hm)]

theorem Counted.setUsed (h : p.Counted) (hf : f ∈ p.freeSet) (hn : n = p.freeFrames - 1) :
    ((p.setUsed f).withFree n).Counted := by
  have hle : n ≤ p.totalFrames := by have := h.total; omega
  refine ⟨?_, hle⟩
  rw [freeSet_withFree, freeSet_setUsed, Finset.card_erase_of_mem hf, ← h.free]
  exact hn

theorem Counted.reserveFrame (h : p.Counted) : (p.reserveFrame f).Counted := by
  unfold PmmState.reserveFrame
  split
  · next hf =>
    have hm := mem_freeSet.mpr hf
    have hpos : 1 ≤ p.freeFrames := by rw [h.free]; exact Finset.card_pos.mpr ⟨f, hm⟩
    have hlt : p.freeFrames < usizeMod := by
      have := p.card_freeSet_le
      rw [h.free]
      unfold maxFrames at this
      unfold usizeMod
      omega
    exact h.setUsed hm (wrappingSub_of_le hpos hlt)
  · exact h

theorem foldl_releaseFrame : ∀ {l : List Nat}, p.Counted →
    (l.foldl releaseFrame p).freeSet = p.freeSet ∪ (Finset.range maxFrames ∩ l.toFinset) ∧
      (l.foldl releaseFrame p).Counted := by
  intro l
  induction l generalizing p with
  | nil => intro h; simp [h]
  | cons f l ih =>
    intro h
    obtain ⟨h₁, h2⟩ := ih (h.releaseFrame (f := f))
    refine ⟨?_, h2⟩
    rw [List.foldl_cons, h₁, freeSet_releaseFrame, List.toFinset_cons, Finset.insert_eq,
      Finset.inter_union_distrib_left, Finset.union_assoc]

theorem foldl_reserveFrame : ∀ {l : List Nat}, p.Counted →
    (l.foldl reserveFrame p).freeSet = p.freeSet \ l.toFinset ∧ (l.foldl reserveFrame p).Counted := by
  intro l
  induction l generalizing p with
  | nil => intro h; simp [h]
  | cons f l ih =>
    intro h
    obtain ⟨h₁, h2⟩ := ih (h.reserveFrame (f := f))
    refine ⟨?_, h2⟩
    rw [List.foldl_cons, h₁, freeSet_reserveFrame]
    ext g
    simp only [Finset.mem_sdiff, Finset.mem_erase, List.mem_toFinset, List.mem_cons, not_or]
    constructor
    · rintro ⟨⟨hne, hg⟩, hl⟩
      exact ⟨hg, hne, hl⟩
    · rintro ⟨hg, hne, hl⟩
      exact ⟨⟨hne, hg⟩, hl⟩

theorem mem_frameRange {a b : Nat} : f ∈ frameRange a b ↔ a ≤ f ∧ f < b := by
  simp only [frameRange, List.mem_range'_1]
  omega

end PmmState

/-! ## What boot leaves free -/

/-- Frame `f` lies in a conventional entry. -/
def MemMapEntry.Conventional (e : MemMapEntry) (f : Nat) : Prop :=
  e.memType = efiConventionalMemory ∧ e.physicalStart / pageSize ≤ f ∧
    f < e.physicalStart / pageSize + e.numPages

instance (e : MemMapEntry) : DecidablePred e.Conventional :=
  fun _ => inferInstanceAs (Decidable (_ ∧ _ ∧ _))

/-- Frame `f`, the bytes `[f * pageSize, (f + 1) * pageSize)`, meets the
kernel image `[kernelPhysBase, kernelPhysBase + kernelAllocSize)`. -/
def BootInfo.Kernel (b : BootInfo) (f : Nat) : Prop :=
  f * pageSize < b.kernelPhysBase + b.kernelAllocSize ∧ b.kernelPhysBase < (f + 1) * pageSize

instance (b : BootInfo) : DecidablePred b.Kernel := fun _ => inferInstanceAs (Decidable (_ ∧ _))

/-- The frames the kernel may hand out: conventional memory less the kernel
image and frame `0`. -/
def BootInfo.usable (b : BootInfo) : Finset Nat :=
  (Finset.range maxFrames).filter fun f => (∃ e ∈ b.mmap, e.Conventional f) ∧ ¬ b.Kernel f ∧ f ≠ 0

theorem BootInfo.mem_usable {b : BootInfo} {f : Nat} : f ∈ b.usable ↔
    f < maxFrames ∧ (∃ e ∈ b.mmap, e.Conventional f) ∧ ¬ b.Kernel f ∧ f ≠ 0 := by
  rw [usable, Finset.mem_filter, Finset.mem_range]

/-- No entry, nor the kernel image, wraps around the address space. -/
structure BootInfo.NoOverflow (b : BootInfo) : Prop where
  entries : ∀ e ∈ b.mmap, e.physicalStart / pageSize + e.numPages < usizeMod
  kernel : b.kernelPhysBase + b.kernelAllocSize < usizeMod

namespace PmmState

variable {p : PmmState}

theorem releaseEntry_facts {e : MemMapEntry} (h : p.Counted) (he : e.physicalStart / pageSize + e.numPages < usizeMod) :
    (p.releaseEntry e).Counted ∧
      ∀ f, f ∈ (p.releaseEntry e).freeSet ↔ f ∈ p.freeSet ∨ (f < maxFrames ∧ e.Conventional f) := by
  unfold releaseEntry MemMapEntry.Conventional
  split
  · next hne => exact ⟨h, fun f => by simp [hne]⟩
  · next heq =>
    simp only [ne_eq, not_not] at heq
    dsimp only
    rw [wrappingAdd_of_lt he]
    obtain ⟨h₁, h2⟩ := foldl_releaseFrame (l := frameRange (e.physicalStart / pageSize)
      (e.physicalStart / pageSize + e.numPages)) h
    refine ⟨h2, fun f => ?_⟩
    rw [h₁, Finset.mem_union, Finset.mem_inter, Finset.mem_range, List.mem_toFinset, mem_frameRange]
    simp only [heq, true_and]

theorem releaseEntries_facts : ∀ {l : List MemMapEntry} {p : PmmState}, p.Counted →
    (∀ e ∈ l, e.physicalStart / pageSize + e.numPages < usizeMod) →
    (l.foldl releaseEntry p).Counted ∧ ∀ f, f ∈ (l.foldl releaseEntry p).freeSet ↔
      f ∈ p.freeSet ∨ (f < maxFrames ∧ ∃ e ∈ l, e.Conventional f)
  | [], p, h, _ => ⟨h, fun f => by simp⟩
  | e :: l, p, h, he => by
    obtain ⟨h₁, h2⟩ := releaseEntry_facts h (he e List.mem_cons_self)
    obtain ⟨h3, h4⟩ := releaseEntries_facts (l := l) h₁ fun e' he' => he e' (List.mem_cons_of_mem _ he')
    refine ⟨h3, fun f => ?_⟩
    have hcons : (∃ e' ∈ e :: l, e'.Conventional f) ↔ e.Conventional f ∨ ∃ e' ∈ l, e'.Conventional f := by
      simp
    rw [List.foldl_cons, h4, h2, hcons, and_or_left, or_assoc]

theorem reserveKernel_facts {b : BootInfo} (h : p.Counted) (hb : b.kernelPhysBase + b.kernelAllocSize < usizeMod) :
    (p.reserveKernel b).Counted ∧ ∀ f, f ∈ (p.reserveKernel b).freeSet ↔ f ∈ p.freeSet ∧ ¬ b.Kernel f := by
  unfold reserveKernel
  obtain ⟨h₁, h2⟩ := foldl_reserveFrame (l := frameRange (b.kernelPhysBase / pageSize)
    (divCeil (wrappingAdd b.kernelPhysBase b.kernelAllocSize) pageSize)) h
  refine ⟨h2, fun f => ?_⟩
  rw [h₁, Finset.mem_sdiff, List.mem_toFinset, mem_frameRange, wrappingAdd_of_lt hb]
  refine and_congr_right fun _ => not_congr ?_
  unfold BootInfo.Kernel divCeil pageSize
  omega

/-- **After `init` the clear bits are the usable frames**, and the counters
agree with them. -/
theorem init_facts {b : BootInfo} (hb : b.NoOverflow) :
    (new.init b).Counted ∧ (new.init b).freeSet = b.usable := by
  obtain ⟨h₁, h2⟩ := releaseEntries_facts new_counted hb.entries
  obtain ⟨h3, h4⟩ := reserveKernel_facts h₁ hb.kernel
  have hmem : ∀ f, f ∈ b.usable ↔ f ≠ 0 ∧ f ∈ (reserveKernel (b.mmap.foldl releaseEntry new) b).freeSet := by
    intro f
    rw [h4, h2, new_freeSet, BootInfo.mem_usable]
    constructor
    · rintro ⟨hlt, he, hk, h0⟩
      exact ⟨h0, .inr ⟨hlt, he⟩, hk⟩
    · rintro ⟨h0, hf | ⟨hlt, he⟩, hk⟩
      · exact absurd hf (Finset.notMem_empty f)
      · exact ⟨hlt, he, hk, h0⟩
  unfold init
  generalize reserveKernel (b.mmap.foldl releaseEntry new) b = p at *
  dsimp only
  split
  · next h0 =>
    have hm : 0 ∈ p.freeSet := mem_freeSet.mpr ⟨by decide, h0⟩
    refine ⟨h3.setUsed hm rfl, ?_⟩
    ext f
    rw [freeSet_withFree, freeSet_setUsed, Finset.mem_erase, hmem]
  · next h0 =>
    refine ⟨h3, ?_⟩
    ext f
    rw [hmem]
    refine ⟨fun hf => ⟨?_, hf⟩, And.right⟩
    rintro rfl
    exact h0 (mem_freeSet.mp hf).2

/-! ## The search for a run -/

/-- Frames `f .. f + count - 1` are all free. -/
def RunAt (p : PmmState) (count f : Nat) : Prop := ∀ i, i < count → p.isFree (f + i) = true

/-- Where the loop stands when it is about to look at frame `f`: the
`consecutive` frames before it are free and start at `startFrame`, the frame
before those is not (or is frame `0`, which the loop skips), and no run of
`count` ends below `f`. -/
structure Scanned (p : PmmState) (count f consecutive startFrame : Nat) : Prop where
  short : consecutive < count
  start : 0 < consecutive → startFrame + consecutive = f
  free : ∀ g, f - consecutive ≤ g → g < f → p.isFree g = true
  edge : f - consecutive = 1 ∨ (1 < f - consecutive ∧ p.isFree (f - consecutive - 1) = false)
  none : ∀ g, 1 ≤ g → g + count ≤ f → ¬ p.RunAt count g

/-- What the search answers about the frames below `bound`: the first run of
`count`, or that there is none. -/
def FirstRun (p : PmmState) (count bound : Nat) : Option Nat → Prop
  | some g => 1 ≤ g ∧ g + count ≤ bound ∧ p.RunAt count g ∧ ∀ g', 1 ≤ g' → p.RunAt count g' → g ≤ g'
  | none => ∀ g, 1 ≤ g → g + count ≤ bound → ¬ p.RunAt count g

variable {count f c st : Nat}

theorem Scanned.no_earlier {g : Nat} (h : Scanned p count f c st) (hg : 1 ≤ g) (hlt : g < f - c) :
    ¬ p.RunAt count g := by
  intro hrun
  by_cases hin : g + count ≤ f
  · exact h.none g hg hin hrun
  · have hshort := h.short
    rcases h.edge with hedge | ⟨-, hused⟩
    · omega
    · have hfree := hrun (f - c - 1 - g) (by omega)
      rw [show g + (f - c - 1 - g) = f - c - 1 by omega, hused] at hfree
      cases hfree

theorem Scanned.extend (h : Scanned p count f c st) (hf : p.isFree f = true) (hc : c + 1 ≠ count) :
    Scanned p count (f + 1) (c + 1) (if c = 0 then f else st) := by
  have hshort := h.short
  have hedge := h.edge
  have hsub : f + 1 - (c + 1) = f - c := by omega
  constructor
  · omega
  · intro _
    split
    · omega
    · have := h.start (by omega)
      omega
  · intro g h₁ h2
    by_cases hgf : g = f
    · rw [hgf]; exact hf
    · exact h.free g (by omega) (by omega)
  · rw [hsub]; exact hedge
  · intro g hg hle
    exact h.no_earlier hg (by omega)

theorem Scanned.reset (h : Scanned p count f c st) (hf : p.isFree f = false) : Scanned p count (f + 1) 0 st := by
  have hshort := h.short
  have hedge := h.edge
  constructor
  · omega
  · intro h0; omega
  · intro g h₁ h2; omega
  · exact .inr ⟨by omega, by simpa using hf⟩
  · intro g hg hle hrun
    by_cases hin : g + count ≤ f
    · exact h.none g hg hin hrun
    · have hfree := hrun (f - g) (by omega)
      rw [show g + (f - g) = f by omega, hf] at hfree
      cases hfree

theorem findRun_spec {n : Nat} : ∀ {f c st : Nat}, Scanned p count f c st →
    FirstRun p count (f + n) (p.findRun count (List.range' f n) c st) := by
  induction n with
  | zero =>
    intro f c st h
    exact h.none
  | succ n ih =>
    intro f c st h
    have hadd : f + (n + 1) = f + 1 + n := by omega
    rw [List.range'_succ, findRun, hadd]
    split
    · next hf =>
      dsimp only
      split
      · -- The run is complete.
        next hc =>
        have hedge := h.edge
        have hg : (if c = 0 then f else st) = f - c := by
          split
          · omega
          · have := h.start (by omega)
            omega
        rw [hg]
        refine ⟨by omega, by omega, fun i hi => ?_, fun g' hg' hrun => ?_⟩
        · by_cases hlast : f - c + i = f
          · rw [hlast]; exact hf
          · exact h.free _ (by omega) (by omega)
        · by_contra hlt
          exact h.no_earlier hg' (by omega) hrun
      · next hc => exact ih (h.extend hf hc)
    · next hf => exact ih (h.reset (by simpa using hf))

theorem findRun_first (hc : 0 < count) :
    FirstRun p count maxFrames (p.findRun count (List.range' 1 (maxFrames - 1)) 0 0) := by
  have h0 : Scanned p count 1 0 0 := by
    constructor
    · exact hc
    · intro h0; omega
    · intro g h₁ h2; omega
    · exact .inl rfl
    · intro g hg hle; omega
  have := findRun_spec (n := maxFrames - 1) h0
  rwa [show 1 + (maxFrames - 1) = maxFrames by rfl] at this

theorem foldl_setUsed_facts {n : Nat} :
    ((List.range n).foldl (fun p i => p.setUsed (f + i)) p).freeFrames = p.freeFrames ∧
    ((List.range n).foldl (fun p i => p.setUsed (f + i)) p).totalFrames = p.totalFrames ∧
    ∀ g, ((List.range n).foldl (fun p i => p.setUsed (f + i)) p).isFree g = true ↔
      p.isFree g = true ∧ ¬ (f ≤ g ∧ g < f + n) := by
  induction n with
  | zero => simp
  | succ n ih =>
    rw [List.range_succ, List.foldl_append, List.foldl_cons, List.foldl_nil]
    obtain ⟨h₁, h2, h3⟩ := ih
    refine ⟨h₁, h2, fun g => ?_⟩
    rw [isFree_setUsed, h3]
    constructor
    · rintro ⟨hne, hfree, hout⟩
      exact ⟨hfree, by omega⟩
    · rintro ⟨hfree, hout⟩
      exact ⟨by omega, hfree, by omega⟩

end PmmState

/-! ## What an allocation does -/

namespace Phys

/-- `s'` is `s` after frames `f .. f + count - 1` were handed out, the first
run of `count` free frames: they are used and zeroed, and nothing else
changed. -/
structure Took (s : Phys) (f count : Nat) (s' : Phys) : Prop where
  pos : 1 ≤ f
  bound : f + count ≤ maxFrames
  run : s.pmm.RunAt count f
  first : ∀ g, 1 ≤ g → s.pmm.RunAt count g → f ≤ g
  isFree : ∀ g, s'.pmm.isFree g = true ↔ s.pmm.isFree g = true ∧ ¬ (f ≤ g ∧ g < f + count)
  freeFrames : s'.pmm.freeFrames = s.pmm.freeFrames - count
  totalFrames : s'.pmm.totalFrames = s.pmm.totalFrames
  mem : s'.mem = fill s.mem (f * pageSize) (count * pageSize) 0

/-- **Everything `alloc_frame` can do.** -/
theorem allocFrame_cases (s : Phys) :
    (∃ f s', s.allocFrame = (f * pageSize, s') ∧ Took s f 1 s') ∨
    (s.allocFrame = (0, s) ∧ ∀ g, 1 ≤ g → g < maxFrames → s.pmm.isFree g = false) := by
  unfold allocFrame
  split
  · next f hf =>
    left
    rw [List.find?_range'_eq_some] at hf
    obtain ⟨hfree, hmem, hfirst⟩ := hf
    have hb : 1 ≤ f ∧ f < maxFrames := by
      have := List.mem_range'_1.mp hmem
      have hmax : 1 ≤ maxFrames := by decide
      omega
    refine ⟨f, _, rfl, ?_⟩
    constructor
    · exact hb.1
    · exact hb.2
    · intro i hi
      rw [show f + i = f by omega]
      exact hfree
    · intro g hg hrun
      by_contra hlt
      have h₁ := hrun 0 (by decide)
      have h2 := hfirst g hg (by omega)
      rw [Nat.add_zero] at h₁
      rw [h₁] at h2
      cases h2
    · intro g
      rw [PmmState.isFree_withFree, PmmState.isFree_setUsed]
      constructor
      · rintro ⟨hne, hg⟩
        exact ⟨hg, by omega⟩
      · rintro ⟨hg, hout⟩
        exact ⟨by omega, hg⟩
    · rfl
    · rfl
    · dsimp only
      rw [Nat.one_mul]
  · next hnone =>
    right
    refine ⟨rfl, fun g h₁ h2 => ?_⟩
    rw [List.find?_eq_none] at hnone
    have := hnone g (List.mem_range'_1.mpr ⟨h₁, by omega⟩)
    simpa using this

variable {count : Nat}

/-- **Everything `alloc_frames` can do** when asked for at least one frame:
the first fit, or nothing because no run is long enough. -/
theorem allocFrames_cases (s : Phys) (hc : 0 < count) :
    (∃ f s', s.allocFrames count = (f * pageSize, s') ∧ Took s f count s') ∨
    (s.allocFrames count = (0, s) ∧ ∀ g, 1 ≤ g → g + count ≤ maxFrames → ¬ s.pmm.RunAt count g) := by
  unfold allocFrames
  rw [if_neg (by omega)]
  split
  · next h1 =>
    subst h1
    rcases s.allocFrame_cases with h | ⟨h, hnone⟩
    · exact .inl h
    · refine .inr ⟨h, fun g hg hle hrun => ?_⟩
      have h₁ := hrun 0 (by decide)
      rw [Nat.add_zero, hnone g hg (by omega)] at h₁
      cases h₁
  · have hspec := s.pmm.findRun_first hc
    split
    · next f hf =>
      left
      rw [hf] at hspec
      obtain ⟨hpos, hbound, hrun, hfirst⟩ := hspec
      obtain ⟨h₁, h2, h3⟩ := PmmState.foldl_setUsed_facts (p := s.pmm) (f := f) (n := count)
      refine ⟨f, _, rfl, ?_⟩
      exact
        { pos := hpos
          bound := hbound
          run := hrun
          first := hfirst
          isFree := h3
          freeFrames := congrArg (· - count) h₁
          totalFrames := h2
          mem := rfl }
    · next hf =>
      right
      rw [hf] at hspec
      exact ⟨rfl, hspec⟩

/-- **Contiguous allocation is complete and first-fit.** In every state of the
bitmap, a request for `count ≥ 1` frames comes back empty-handed, with nothing
changed, exactly when no run of `count` free frames lies between frame `1` and
the end of the bitmap; otherwise it takes the first such run, and marks these
frames and no others. -/
theorem alloc_frames_first_fit (s : Phys) (count : Nat) (hcount : 1 ≤ count) :
    (s.allocFrames count = (0, s) ↔ ¬ ∃ f, 1 ≤ f ∧ f + count ≤ maxFrames ∧ s.pmm.RunAt count f) ∧
    ∀ f, IsLeast {f | 1 ≤ f ∧ f + count ≤ maxFrames ∧ s.pmm.RunAt count f} f →
      (s.allocFrames count).1 = f * pageSize ∧
      ∀ g, (s.allocFrames count).2.pmm.isFree g = if f ≤ g ∧ g < f + count then false else s.pmm.isFree g := by
  rcases s.allocFrames_cases hcount with ⟨f, s', he, ht⟩ | ⟨he, hnone⟩
  · have hleast : IsLeast {f | 1 ≤ f ∧ f + count ≤ maxFrames ∧ s.pmm.RunAt count f} f :=
      ⟨⟨ht.pos, ht.bound, ht.run⟩, fun g hg => ht.first g hg.1 hg.2.2⟩
    refine ⟨⟨fun hzero => ?_, fun hno => absurd ⟨f, hleast.1⟩ hno⟩, fun g hg => ?_⟩
    · -- the run found does not start at frame `0`
      rw [he] at hzero
      have hpos := ht.pos
      have := (Prod.mk.inj hzero).1
      unfold pageSize at this
      omega
    · cases hg.unique hleast
      rw [he]
      refine ⟨rfl, fun x => ?_⟩
      split
      next hin => exact Bool.eq_false_iff.mpr fun hfree => ((ht.isFree x).mp hfree).2 hin
      next hout => exact Bool.eq_iff_iff.mpr ((ht.isFree x).trans (and_iff_left hout))
  · refine ⟨⟨fun _ ⟨g, hpos, hle, hrun⟩ => hnone g hpos hle hrun, fun _ => he⟩, fun g hg => ?_⟩
    exact absurd hg.1.2.2 (hnone g hg.1.1 hg.1.2.1)

/-- Frames `0`, `1` and `4` are in use. -/
def holedFrames : Phys := ⟨⟨fun i => if i = 0 then 0b10011 else 0, 0, 0⟩, fun _ => 0⟩

/-- The hole of two frames is too short for three. -/
theorem alloc_frames_first_fit_holed : (holedFrames.allocFrames 3).1 = 5 * pageSize := by
  refine ((alloc_frames_first_fit holedFrames 3 (by decide)).2 5 ⟨⟨by decide, by decide, ?_⟩, ?_⟩).1
  · intro i hi
    interval_cases i <;> decide
  · rintro g ⟨hpos, -, hrun⟩
    by_contra hlt
    have h₀ := hrun 0 (by decide)
    have h₁ := hrun 1 (by decide)
    have h2 := hrun 2 (by decide)
    have : g < 5 := by omega
    interval_cases g <;> revert h₀ h₁ h2 <;> decide

variable {s s' : Phys} {f : Nat}

theorem Took.freeSet (h : Took s f count s') :
    s'.pmm.freeSet = s.pmm.freeSet \ (List.range' f count).toFinset := by
  ext g
  rw [Finset.mem_sdiff, PmmState.mem_freeSet, PmmState.mem_freeSet, h.isFree, List.mem_toFinset,
    List.mem_range'_1, and_assoc]

theorem Took.subset (h : Took s f count s') :
    (List.range' f count).toFinset ⊆ s.pmm.freeSet := by
  intro g hg
  rw [List.mem_toFinset, List.mem_range'_1] at hg
  have hb := h.bound
  have hfree := h.run (g - f) (by omega)
  rw [show f + (g - f) = g by omega] at hfree
  exact PmmState.mem_freeSet.mpr ⟨by omega, hfree⟩

theorem Took.counted (h : Took s f count s') (hs : s.pmm.freeFrames = s.pmm.freeSet.card) :
    s'.pmm.freeFrames = s'.pmm.freeSet.card ∧ s'.pmm.freeFrames + count = s.pmm.freeFrames := by
  have hcard := Finset.card_le_card h.subset
  rw [List.toFinset_card_of_nodup List.nodup_range', List.length_range', ← hs] at hcard
  have hnew : s'.pmm.freeSet.card + count = s.pmm.freeFrames := by
    rw [h.freeSet, Finset.card_sdiff_of_subset h.subset,
      List.toFinset_card_of_nodup List.nodup_range', List.length_range', ← hs]
    omega
  have := h.freeFrames
  exact ⟨by omega, by omega⟩

/-- The frames there are to be had: frame `0` is never handed out. -/
def avail (s : Phys) : Finset Nat := s.pmm.freeSet.erase 0

theorem Took.avail (h : Took s f count s') :
    s'.avail = s.avail \ (List.range' f count).toFinset := by
  unfold Phys.avail
  rw [h.freeSet, Finset.erase_sdiff_comm]

theorem Took.avail_card (h : Took s f count s') :
    s'.avail.card + count = s.avail.card := by
  have hsub : (List.range' f count).toFinset ⊆ s.avail := by
    intro g hg
    refine Finset.mem_erase.mpr ⟨?_, h.subset hg⟩
    rw [List.mem_toFinset, List.mem_range'_1] at hg
    have := h.pos
    omega
  have hle := Finset.card_le_card hsub
  rw [h.avail, Finset.card_sdiff_of_subset hsub]
  rw [List.toFinset_card_of_nodup List.nodup_range', List.length_range'] at *
  omega

theorem Took.mem_avail (h : Took s f 1 s') : f ∈ s.avail := by
  have hpos := h.pos
  have hlt := h.bound
  exact Finset.mem_erase.mpr ⟨by omega, PmmState.mem_freeSet.mpr ⟨by omega, h.run 0 (by decide)⟩⟩

theorem avail_eq_empty (h : ∀ g, 1 ≤ g → g < maxFrames → s.pmm.isFree g = false) : s.avail = ∅ := by
  refine Finset.eq_empty_of_forall_notMem fun g hg => ?_
  obtain ⟨h0, hg⟩ := Finset.mem_erase.mp hg
  obtain ⟨hlt, hfree⟩ := PmmState.mem_freeSet.mp hg
  rw [h g (by omega) hlt] at hfree
  cases hfree

theorem frame_div (f : Nat) : f * pageSize / pageSize = f := Nat.mul_div_cancel f (by decide)

theorem Took.addr_ne_zero (h : Took s f count s') : f * pageSize ≠ 0 :=
  Nat.mul_ne_zero (by have := h.pos; omega) (by decide)

variable {a : Nat}

/-- **Everything `free_frame` does** to a used frame other than frame `0`. -/
theorem freeFrame_used (h0 : a / pageSize ≠ 0) (hlt : a / pageSize < maxFrames)
    (hused : s.pmm.isFree (a / pageSize) = false) :
    s.freeFrame a =
      { s with pmm := (s.pmm.setFree (a / pageSize)).withFree (s.pmm.freeFrames + 1) } := by
  unfold freeFrame
  dsimp only
  rw [if_neg (by omega), if_pos (by simp [hused])]

@[simp] theorem freeFrame_mem : (s.freeFrame a).mem = s.mem := by
  unfold freeFrame
  dsimp only
  split
  · rfl
  · split <;> rfl

theorem freeFrame_other (h : f ≠ a / pageSize) :
    (s.freeFrame a).pmm.isFree f = s.pmm.isFree f := by
  unfold freeFrame
  dsimp only
  split
  · rfl
  · split
    · rw [PmmState.isFree_withFree, Bool.eq_iff_iff, PmmState.isFree_setFree]
      simp [h]
    · rfl

end Phys

/-! ## Conservation over whole runs -/

/-- The allocator with the frames currently handed out, one entry for each
time a frame was handed out and not yet freed. -/
structure PmmRun where
  phys : Phys
  handed : List Nat

inductive PmmOp
  | allocFrame
  | allocFrames (count : Nat)
  | freeFrame (physAddr : Nat)

/-- One operation. A caller frees only frames it was handed. -/
def PmmRun.step (s : PmmRun) : PmmOp → Option PmmRun
  | .allocFrame =>
    let (addr, phys) := s.phys.allocFrame
    some { phys, handed := if addr = 0 then s.handed else addr / pageSize :: s.handed }
  | .allocFrames count =>
    let (addr, phys) := s.phys.allocFrames count
    some { phys, handed := if addr = 0 then s.handed else List.range' (addr / pageSize) count ++ s.handed }
  | .freeFrame physAddr =>
    if physAddr / pageSize ∈ s.handed then
      some { phys := s.phys.freeFrame physAddr, handed := s.handed.erase (physAddr / pageSize) }
    else none

/-- The state right after `pmm::init`, nothing handed out. -/
def PmmRun.boot (b : BootInfo) (mem : Mem) : PmmRun where
  phys := { pmm := PmmState.new.init b, mem }
  handed := []

/-- Handed-out and free frames partition `F`, and the counters agree with
the bitmap. -/
structure Conserved (F : Finset Nat) (s : PmmRun) : Prop where
  counted : s.phys.pmm.freeFrames = s.phys.pmm.freeSet.card
  total : F.card ≤ s.phys.pmm.totalFrames
  nodup : s.handed.Nodup
  disjoint : ∀ f ∈ s.handed, f ∉ s.phys.pmm.freeSet
  cover : ∀ f, f ∈ F ↔ f ∈ s.handed ∨ f ∈ s.phys.pmm.freeSet

theorem Conserved.boot {b : BootInfo} {mem : Mem} (hb : b.NoOverflow) :
    Conserved b.usable (PmmRun.boot b mem) := by
  obtain ⟨hc, hset⟩ := PmmState.init_facts hb
  constructor
  · exact hc.free
  · rw [← hset, ← hc.free]
    exact hc.total
  · exact List.nodup_nil
  · intro f hf
    cases hf
  · intro f
    rw [← hset]
    exact ⟨.inr, fun h => h.elim (fun h' => by cases h') id⟩

variable {F : Finset Nat} {s : PmmRun}

theorem Conserved.took {f count : Nat} {phys : Phys} (h : Conserved F s) (ht : Phys.Took s.phys f count phys) :
    Conserved F { phys, handed := List.range' f count ++ s.handed } := by
  have hsub := ht.subset
  constructor
  · exact (ht.counted h.counted).1
  · exact ht.totalFrames ▸ h.total
  · rw [List.nodup_append']
    refine ⟨List.nodup_range', h.nodup, fun g hg hg' => ?_⟩
    exact h.disjoint g hg' (hsub (List.mem_toFinset.mpr hg))
  · intro g hg
    rw [ht.freeSet, Finset.mem_sdiff, List.mem_toFinset]
    rcases List.mem_append.mp hg with hg | hg
    · exact fun hn => hn.2 hg
    · exact fun hn => h.disjoint g hg hn.1
  · intro g
    rw [h.cover, ht.freeSet, Finset.mem_sdiff, List.mem_toFinset, List.mem_append]
    constructor
    · rintro (hg | hg)
      · exact .inl (.inr hg)
      · by_cases hr : g ∈ List.range' f count
        · exact .inl (.inl hr)
        · exact .inr ⟨hg, hr⟩
    · rintro ((hg | hg) | hg)
      · exact .inr (hsub (List.mem_toFinset.mpr hg))
      · exact .inl hg
      · exact .inr hg.1

theorem Conserved.freed {a : Nat} (h : Conserved F s) (h0 : 0 ∉ F) (hF : F ⊆ Finset.range maxFrames)
    (ha : a / pageSize ∈ s.handed) :
    Conserved F { phys := s.phys.freeFrame a, handed := s.handed.erase (a / pageSize) } ∧
      (s.phys.freeFrame a).pmm.freeFrames = s.phys.pmm.freeFrames + 1 := by
  have haF : a / pageSize ∈ F := (h.cover _).mpr (.inl ha)
  have hne : a / pageSize ≠ 0 := fun he => h0 (he ▸ haF)
  have hlt : a / pageSize < maxFrames := Finset.mem_range.mp (hF haF)
  have hnot := h.disjoint _ ha
  have hused : s.phys.pmm.isFree (a / pageSize) = false := by
    rw [PmmState.mem_freeSet, not_and] at hnot
    simpa using hnot hlt
  rw [Phys.freeFrame_used hne hlt hused]
  generalize a / pageSize = f at *
  have hset : ((s.phys.pmm.setFree f).withFree (s.phys.pmm.freeFrames + 1)).freeSet =
      insert f s.phys.pmm.freeSet := by
    rw [PmmState.freeSet_withFree, PmmState.freeSet_setFree hlt]
  refine ⟨?_, rfl⟩
  constructor
  · dsimp only
    rw [hset, Finset.card_insert_of_notMem hnot, ← h.counted]
    rfl
  · exact h.total
  · exact h.nodup.erase f
  · intro g hg
    dsimp only
    rw [hset, Finset.mem_insert]
    rintro (rfl | hgf)
    · exact (List.Nodup.mem_erase_iff h.nodup).mp hg |>.1 rfl
    · exact h.disjoint g (List.mem_of_mem_erase hg) hgf
  · intro g
    dsimp only
    rw [h.cover, hset, Finset.mem_insert, List.Nodup.mem_erase_iff h.nodup]
    by_cases hgf : g = f
    · simp [hgf, ha]
    · simp [hgf]

/-- **One operation keeps the partition**, and the free counter moves by
exactly the number of frames handed out or taken back. -/
theorem Conserved.step {t : PmmRun} {op : PmmOp} (h : Conserved F s) (h0 : 0 ∉ F) (hF : F ⊆ Finset.range maxFrames)
    (hs : s.step op = some t) :
    Conserved F t ∧
      t.phys.pmm.freeFrames + t.handed.length = s.phys.pmm.freeFrames + s.handed.length := by
  have took : ∀ {f count : Nat} {phys : Phys}, Phys.Took s.phys f count phys →
      Conserved F { phys, handed := List.range' f count ++ s.handed } ∧
        phys.pmm.freeFrames + (List.range' f count ++ s.handed).length =
          s.phys.pmm.freeFrames + s.handed.length := fun ht => by
    refine ⟨h.took ht, ?_⟩
    rw [List.length_append, List.length_range', ← (ht.counted h.counted).2]
    omega
  cases op with
  | allocFrame =>
    simp only [PmmRun.step, Option.some.injEq] at hs
    subst hs
    rcases s.phys.allocFrame_cases with ⟨f, phys, he, ht⟩ | ⟨he, -⟩
    · rw [he]
      dsimp only
      rw [if_neg ht.addr_ne_zero, Phys.frame_div]
      exact took ht
    · rw [he]
      exact ⟨h, rfl⟩
  | allocFrames count =>
    simp only [PmmRun.step, Option.some.injEq] at hs
    subst hs
    rcases Nat.eq_zero_or_pos count with rfl | hc
    · exact ⟨h, rfl⟩
    rcases s.phys.allocFrames_cases hc with ⟨f, phys, he, ht⟩ | ⟨he, -⟩
    · rw [he]
      dsimp only
      rw [if_neg ht.addr_ne_zero, Phys.frame_div]
      exact took ht
    · rw [he]
      exact ⟨h, rfl⟩
  | freeFrame a =>
    simp only [PmmRun.step] at hs
    split at hs
    · next ha =>
      simp only [Option.some.injEq] at hs
      subst hs
      obtain ⟨h₁, h2⟩ := h.freed h0 hF ha
      refine ⟨h₁, ?_⟩
      have hpos := List.length_pos_of_mem ha
      dsimp only
      rw [h2, List.length_erase_of_mem ha]
      omega
    · cases hs

/-- **Physical frames are conserved.** After `init` the clear bits are
exactly the usable frames of the boot memory map. After any further
allocations, and frees of frames currently handed out, the frames handed out
are pairwise distinct and with the free ones partition the usable frames; the
free counter is the number of clear bits, is at most the total, and every
operation moves it by exactly the number of frames it hands out or takes
back, so its saturating subtraction never saturates. -/
theorem frames_conserved (b : BootInfo) (mem : Mem) (hb : b.NoOverflow) :
    (∀ f, f < maxFrames → ((PmmRun.boot b mem).phys.pmm.isFree f = true ↔ f ∈ b.usable)) ∧
    ∀ ops s, Lts.exec PmmRun.step (PmmRun.boot b mem) ops = some s →
      s.handed.Nodup ∧
      (∀ f ∈ s.handed, s.phys.pmm.isFree f = false) ∧
      (∀ f, f ∈ b.usable ↔ f ∈ s.handed ∨ (f < maxFrames ∧ s.phys.pmm.isFree f = true)) ∧
      s.phys.pmm.freeFrames = ((Finset.range maxFrames).filter fun f => s.phys.pmm.isFree f).card ∧
      s.phys.pmm.freeFrames ≤ s.phys.pmm.totalFrames ∧
      ∀ op t, s.step op = some t →
        t.phys.pmm.freeFrames + t.handed.length = s.phys.pmm.freeFrames + s.handed.length := by
  have h0 : 0 ∉ b.usable := fun h => (BootInfo.mem_usable.mp h).2.2.2 rfl
  have hF : b.usable ⊆ Finset.range maxFrames := Finset.filter_subset _ _
  constructor
  · intro f hf
    rw [← (PmmState.init_facts hb).2, PmmState.mem_freeSet]
    exact ⟨fun h => ⟨hf, h⟩, And.right⟩
  · intro ops s hs
    have h : Conserved b.usable s :=
      Lts.exec_invariant (Conserved b.usable) (fun _ _ _ hc hst => (hc.step h0 hF hst).1)
        (Conserved.boot hb) hs
    have hsub : s.phys.pmm.freeSet ⊆ b.usable := fun f hf => (h.cover f).mpr (.inr hf)
    refine ⟨h.nodup, fun f hf => ?_, fun f => ?_, h.counted, ?_, fun op t ht => (h.step h0 hF ht).2⟩
    · have hlt := Finset.mem_range.mp (hF ((h.cover f).mpr (.inl hf)))
      have hn := h.disjoint f hf
      rw [PmmState.mem_freeSet, not_and] at hn
      simpa using hn hlt
    · rw [h.cover, PmmState.mem_freeSet]
    · rw [h.counted]
      exact (Finset.card_le_card hsub).trans h.total

/-- Sixteen conventional frames from `0x100000`, the kernel image over two of
them. -/
def smallBoot : BootInfo where
  mmap := [{ physicalStart := 0x100000, numPages := 16, memType := 7 }]
  kernelPhysBase := 0x108000
  kernelAllocSize := 0x1800

theorem frames_conserved_smallBoot :
    smallBoot.NoOverflow ∧
      ((PmmRun.boot smallBoot fun _ => 0).phys.pmm.isFree 0x107 = true ↔ 0x107 ∈ smallBoot.usable) ∧
      ∀ ops s, Lts.exec PmmRun.step (PmmRun.boot smallBoot fun _ => 0) ops = some s → s.handed.Nodup := by
  have hb : smallBoot.NoOverflow := ⟨by simp [smallBoot, pageSize, usizeMod], by simp [smallBoot, usizeMod]⟩
  obtain ⟨h₁, h2⟩ := frames_conserved smallBoot (fun _ => 0) hb
  exact ⟨hb, h₁ 0x107 (by decide), fun ops s hs => (h2 ops s hs).1⟩

end CoreOS
