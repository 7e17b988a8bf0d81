/-
`clone_user_address_space` makes a private copy. Each loop is followed entry by
entry: a round takes frames from the free ones, writes to those and to one
entry of the new table, and leaves a copy of the entry it was for; so memory
that was in use when the call began is never written to.
-/
import Mathlib.Algebra.BigOperators.Fin
import Mathlib.Algebra.Order.BigOperators.Group.Finset
import CoreOS.PagingCopy
import CoreOS.PagingMap

namespace CoreOS

open ByteMem Radix
open Function (update_self update_of_ne)

/-! ## Cost -/

/-- The frames it takes to copy what is below an entry. -/
def entryCost (mem : Mem) : Nat → Word → Nat
  | 0, e => if has e ptePresent then 1 else 0
  | n + 1, e =>
    if ¬ has e ptePresent then 0
    else if n = 0 ∧ has e pteHuge then 0
    else 1 + ∑ i : Fin 512, entryCost mem n (tables mem (frameOf e) i)

/-- The frames it takes to copy the first `m` entries of a table. -/
def rowCost (mem : Mem) (n m : Nat) (r : Fin 512 → Word) : Nat :=
  ∑ i : Fin 512, if i.val < m then entryCost mem n (r i) else 0

variable {mem : Mem} {n : Nat} {r : Fin 512 → Word}

theorem rowCost_full :
    rowCost mem n 512 r = ∑ i : Fin 512, entryCost mem n (r i) :=
  Finset.sum_congr rfl fun i _ => if_pos i.isLt

variable {m : Nat}

theorem RowCopy.card {E : Word → Word → Finset Nat → Prop} {r' : Fin 512 → Word} {S : Finset Nat}
    (h : RowCopy E m r r' S) (hE : ∀ e e' P, E e e' P → P.card = entryCost mem n e) :
    S.card = rowCost mem n m r := by
  obtain ⟨part, hd, hS, hnone, he⟩ := h
  have hunion : S = Finset.univ.biUnion part := by
    ext f
    simp [hS f]
  rw [hunion, Finset.card_biUnion fun i _ j _ hne => hd i j hne]
  refine Finset.sum_congr rfl fun i _ => ?_
  split
  · next hi => exact hE _ _ _ (he i hi)
  · next hi => rw [hnone i (by omega), Finset.card_empty]

theorem EntryCopy.card {m0 : Mem} : ∀ {n : Nat} {e e' : Word} {S : Finset Nat}, EntryCopy m0 mem n e e' S →
    S.card = entryCost m0 n e
  | 0, e, e', S, h => by
    simp only [EntryCopy] at h
    simp only [entryCost]
    split at h
    · next hp =>
      obtain ⟨g, -, rfl, -⟩ := h
      rw [if_pos hp, Finset.card_singleton]
    · next hp => rw [if_neg hp, h.2, Finset.card_empty]
  | n + 1, e, e', S, h => by
    simp only [EntryCopy] at h
    simp only [entryCost]
    split at h
    · next hp => rw [if_pos hp, h.2, Finset.card_empty]
    · next hp =>
      rw [if_neg hp]
      split at h
      · next hh => rw [if_pos hh, h.2, Finset.card_empty]
      · next hh =>
        obtain ⟨g, below, -, -, hnot, rfl, -, hrow⟩ := h
        rw [if_neg hh, Finset.card_insert_of_notMem hnot, hrow.card fun _ _ _ hE => hE.card, rowCost_full, Nat.add_comm]

/-! ## What a round does -/

/-- From `s` to `s'` the frames `S` were taken, and only they and frame `b` were
written to. -/
structure Grown (s s' : Phys) (b : Nat) (S : Finset Nat) : Prop where
  fresh : S ⊆ s.avail
  free : ∀ f, s'.pmm.isFree f = true ↔ s.pmm.isFree f = true ∧ f ∉ S
  mem : ∀ x, x / pageSize ≠ b → x / pageSize ∉ S → s'.mem x = s.mem x

namespace Grown

variable {s0 s s' s'' : Phys} {b f : Nat} {S S' : Finset Nat}

theorem refl : Grown s s b ∅ := ⟨Finset.empty_subset _, by simp, fun _ _ _ => rfl⟩

theorem avail (h : Grown s s' b S) : s'.avail = s.avail \ S := by
  ext f
  simp only [Phys.avail, Finset.mem_erase, PmmState.mem_freeSet, Finset.mem_sdiff, h.free f]
  tauto

theorem isFree_of_mem (hf : f ∈ s.avail) : s.pmm.isFree f = true :=
  (PmmState.mem_freeSet.mp (Finset.mem_of_mem_erase hf)).2

theorem trans (h : Grown s s' b S) (h' : Grown s' s'' b S') : Grown s s'' b (S ∪ S') := by
  refine ⟨fun f hf => ?_, fun f => ?_, fun x hb hS => ?_⟩
  · rcases Finset.mem_union.mp hf with hf | hf
    · exact h.fresh hf
    · have := h'.fresh hf
      rw [h.avail] at this
      exact (Finset.mem_sdiff.mp this).1
  · rw [h'.free, h.free, Finset.mem_union]
    tauto
  · rw [Finset.mem_union, not_or] at hS
    rw [h'.mem x hb hS.2, h.mem x hb hS.1]

theorem disjoint (h : Grown s s' b S) (h' : Grown s' s'' b S') : Disjoint S S' := by
  rw [Finset.disjoint_left]
  intro f hf hf'
  have := h'.fresh hf'
  rw [h.avail] at this
  exact (Finset.mem_sdiff.mp this).2 hf

theorem card (h : Grown s s' b S) : s'.avail.card + S.card = s.avail.card := by
  rw [h.avail]
  exact Finset.card_sdiff_add_card_eq_card h.fresh

theorem keeps (hk : Keeps s0 s) (h : Grown s s' b S) (hb : s0.pmm.isFree b = true) : Keeps s0 s' := by
  refine ⟨fun f hf => hk.free f ((h.free f).mp hf).1, fun x hx => ?_⟩
  rw [h.mem x, hk.mem x hx]
  · intro he
    rw [he, hb] at hx
    cases hx
  · intro hS
    rw [hk.free _ (isFree_of_mem (h.fresh hS))] at hx
    cases hx

theorem used (h : Grown s s' b S) (hf : s.pmm.isFree f = false) : s'.pmm.isFree f = false := by
  by_contra hne
  rw [Bool.not_eq_false, h.free, hf] at hne
  exact absurd hne.1 nofun

end Grown

variable {s : Phys} {b : Nat}

theorem Phys.Took.grown {s' : Phys} {g : Nat} (h : Took s g 1 s') : Grown s s' b {g} := by
  have havail : g ∈ s.avail := by
    have hg := h.pos
    refine Finset.mem_erase.mpr ⟨by omega, PmmState.mem_freeSet.mpr ⟨h.bound, h.run 0 (by decide)⟩⟩
  refine ⟨Finset.singleton_subset_iff.mpr havail, fun f => ?_, fun x _ hx => ?_⟩
  · rw [h.isFree, Finset.mem_singleton]
    refine and_congr_right fun _ => ?_
    omega
  · rw [h.mem]
    refine fill_out ?_
    rw [Finset.mem_singleton] at hx
    unfold pageSize at *
    omega

/-- A round for entry `i` of the new table `b`: the copy of `e` is in place. -/
structure EntryCloned (s0 s s' : Phys) (b : Nat) (i : Fin 512) (n : Nat) (e : Word) (S : Finset Nat) : Prop
    extends Grown s s' b S where
  row : ∀ j, j ≠ i → tables s'.mem b j = tables s.mem b j
  copy : EntryCopy s0.mem s'.mem n e (tables s'.mem b i) S

/-- `m` rounds for the entries of row `r`: a copy of them is in place. -/
structure RowCloned (s0 s s' : Phys) (b n m : Nat) (r : Fin 512 → Word) (S : Finset Nat) : Prop
    extends Grown s s' b S where
  row : ∀ j : Fin 512, m ≤ j → tables s'.mem b j = tables s.mem b j
  copy : RowCopy (EntryCopy s0.mem s'.mem n) m r (tables s'.mem b) S

/-- What is asked of the round of a loop that fills table `b` with copies of the
first `m` entries of `r`: it makes a copy, or there are too few frames for it. -/
def Round (s0 : Phys) (n b m : Nat) (r : Fin 512 → Word) (step : Phys → Nat → Option Phys) : Prop :=
  ∀ s (i : Fin 512), i.val < m → Keeps s0 s → s.pmm.isFree b = false → tables s.mem b i = 0 →
    (step s i = none ∧ s.avail.card < entryCost s0.mem n (r i)) ∨
    ∃ s' S, step s i = some s' ∧ EntryCloned s0 s s' b i n (r i) S

theorem rowCost_succ (hm : m < 512) :
    rowCost mem n (m + 1) r = rowCost mem n m r + entryCost mem n (r ⟨m, hm⟩) := by
  unfold rowCost
  have hsplit : ∀ i : Fin 512, (if i.val < m + 1 then entryCost mem n (r i) else 0) =
      (if i.val < m then entryCost mem n (r i) else 0) + if i = ⟨m, hm⟩ then entryCost mem n (r ⟨m, hm⟩) else 0 := by
    intro i
    by_cases he : i = ⟨m, hm⟩
    · subst he
      simp
    · have hne : i.val ≠ m := fun h => he (Fin.ext h)
      rw [if_neg he, Nat.add_zero]
      refine if_congr ?_ rfl rfl
      omega
  rw [Finset.sum_congr rfl fun i _ => hsplit i, Finset.sum_add_distrib, Finset.sum_ite_eq']
  simp

theorem rowCost_mono {k : Nat} (hmk : m ≤ k) : rowCost mem n m r ≤ rowCost mem n k r := by
  refine Finset.sum_le_sum fun i _ => ?_
  split
  · rw [if_pos (by omega)]
  · exact Nat.zero_le _

variable {s0 : Phys}

theorem rowCopy_snoc {s1 s2 : Phys} {S P : Finset Nat} (hm : m < 512) (hb : s.pmm.isFree b = false)
    (hrow : RowCloned s0 s s1 b n m r S) (hentry : EntryCloned s0 s1 s2 b ⟨m, hm⟩ n (r ⟨m, hm⟩) P) :
    RowCopy (EntryCopy s0.mem s2.mem n) (m + 1) r (tables s2.mem b) (S ∪ P) := by
  obtain ⟨part, hd, hS, hnone, he⟩ := hrow.copy
  have hpart : ∀ i, part i ⊆ S := fun i f hf => (hS f).mpr ⟨i, hf⟩
  have hSP := hrow.toGrown.disjoint hentry.toGrown
  refine ⟨Function.update part ⟨m, hm⟩ P, fun i j hij => ?_, fun f => ?_, fun i hi => ?_, fun i hi => ?_⟩
  · by_cases hi : i = ⟨m, hm⟩
    · rw [hi, update_self, update_of_ne (hi ▸ hij.symm)]
      exact (Finset.disjoint_of_subset_left (hpart j) hSP).symm
    · by_cases hj : j = ⟨m, hm⟩
      · rw [hj, update_self, update_of_ne hi]
        exact Finset.disjoint_of_subset_left (hpart i) hSP
      · rw [update_of_ne hi, update_of_ne hj]
        exact hd i j hij
  · rw [Finset.mem_union, hS f]
    constructor
    · rintro (⟨i, hi⟩ | hf)
      · have hne : i ≠ ⟨m, hm⟩ := fun h => by
          rw [h, hnone ⟨m, hm⟩ (Nat.le_refl m)] at hi
          simp at hi
        exact ⟨i, by rwa [update_of_ne hne]⟩
      · exact ⟨⟨m, hm⟩, by rwa [update_self]⟩
    · rintro ⟨i, hi⟩
      by_cases h : i = ⟨m, hm⟩
      · rw [h, update_self] at hi
        exact .inr hi
      · rw [update_of_ne h] at hi
        exact .inl ⟨i, hi⟩
  · have hne : i ≠ ⟨m, hm⟩ := fun h => by
      rw [h] at hi
      exact absurd hi (Nat.not_succ_le_self m)
    rw [update_of_ne hne, hnone i (by omega)]
  · by_cases h : i = ⟨m, hm⟩
    · rw [h, update_self]
      exact hentry.copy
    · have hlt : i.val < m := by
        have : i.val ≠ m := fun hv => h (Fin.ext hv)
        omega
      rw [update_of_ne h, hentry.row i h]
      -- the frames of the earlier copies are neither `b` nor taken now
      refine (he i hlt).frame fun x hx => hentry.mem x (fun hxb => ?_) fun hxP => ?_
      · have := Grown.isFree_of_mem (hrow.fresh (hpart i hx))
        rw [hxb, hb] at this
        cases this
      · exact Finset.disjoint_left.mp hSP (hpart i hx) hxP

/-- **The loops.** After `m` rounds the first `m` entries are copied. -/
theorem rounds_spec {M : Nat} {step : Phys → Nat → Option Phys} (hround : Round s0 n b M r step) (hk : Keeps s0 s)
    (hb0 : s0.pmm.isFree b = true) (hb : s.pmm.isFree b = false) :
    ∀ m, m ≤ M → m ≤ 512 → (∀ i : Fin 512, i.val < m → tables s.mem b i = 0) →
      ((List.range m).foldlM step s = none ∧ s.avail.card < rowCost s0.mem n m r) ∨
      ∃ s' S, (List.range m).foldlM step s = some s' ∧ RowCloned s0 s s' b n m r S
  | 0, _, _, _ => by
    refine .inr ⟨s, ∅, rfl, Grown.refl, fun _ _ => rfl, fun _ => ∅, ?_, ?_, ?_, ?_⟩ <;> simp
  | m + 1, hM, hm, hzero => by
    rw [List.range_succ, List.foldlM_append]
    rcases rounds_spec hround hk hb0 hb m (by omega) (by omega) fun i hi => hzero i (by omega) with
      ⟨hnone, hlt⟩ | ⟨s1, S, hsome, hrow⟩
    · rw [hnone]
      exact .inl ⟨rfl, hlt.trans_le (rowCost_mono (Nat.le_succ m))⟩
    · have hcard := hrow.copy.card fun _ _ _ hE => hE.card
      have hgrown := hrow.toGrown.card
      have hz : tables s1.mem b ⟨m, hm⟩ = 0 := (hrow.row ⟨m, hm⟩ (Nat.le_refl m)).trans (hzero ⟨m, hm⟩ (Nat.lt_succ_self m))
      rw [hsome, rowCost_succ hm]
      rcases hround s1 ⟨m, hm⟩ hM (Grown.keeps hk hrow.toGrown hb0) (hrow.toGrown.used hb) hz with
        ⟨hnone, hlt⟩ | ⟨s2, P, hsome2, hentry⟩
      · left
        simp only [Option.bind_eq_bind, Option.bind_some, List.foldlM_cons, hnone, Option.bind_none, true_and]
        omega
      · right
        refine ⟨s2, S ∪ P, ?_, hrow.toGrown.trans hentry.toGrown, fun j hj => ?_, ?_⟩
        · simp [hsome2]
        · have hne : j ≠ ⟨m, hm⟩ := fun he => by
            rw [he] at hj
            exact absurd hj (Nat.not_succ_le_self m)
          rw [hentry.row j hne, hrow.row j (by omega)]
        · exact rowCopy_snoc hm hb hrow hentry

/-! ## The rounds of the four loops -/

/-- What is below an entry, the pages included, was in use when the call
began. -/
def SourceOK (s0 : Phys) : Nat → Word → Prop
  | 0, e => has e ptePresent → s0.pmm.isFree ((e &&& pteAddrMask).toNat / pageSize) = false
  | n + 1, e => has e ptePresent → ¬ (n = 0 ∧ has e pteHuge) → frameOf e < maxFrames ∧
      s0.pmm.isFree (frameOf e) = false ∧ ∀ i, SourceOK s0 n (tables s0.mem (frameOf e) i)

/-- A table of the source, of which the first `m` entries are copied. -/
def SourceTable (s0 : Phys) (n m a : Nat) : Prop :=
  s0.pmm.isFree a = false ∧ ∀ i : Fin 512, i.val < m → SourceOK s0 n (tables s0.mem a i)

theorem entryCloned_absent {i : Fin 512} {e : Word} (hz : tables s.mem b i = 0) (hp : ¬ has e ptePresent = true) :
    EntryCloned s0 s s b i n e ∅ := by
  refine ⟨Grown.refl, fun _ _ => rfl, ?_⟩
  rw [hz]
  cases n with
  | zero =>
    simp only [EntryCopy]
    rw [if_neg hp]
    exact ⟨trivial, trivial⟩
  | succ n =>
    simp only [EntryCopy]
    rw [if_pos hp]
    exact ⟨trivial, trivial⟩

variable {a : Nat}

theorem clonePte_round (ha : SourceTable s0 0 m a) :
    Round s0 0 b m (tables s0.mem a) (Phys.clonePte (a * pageSize) (b * pageSize)) := by
  intro s i hi hk hb hz
  unfold Phys.clonePte
  rw [entryAt_eq, hk.tables ha.1]
  dsimp only
  generalize he : tables s0.mem a i = e
  have hsrc : has e ptePresent → s0.pmm.isFree ((e &&& pteAddrMask).toNat / pageSize) = false := by
    have := ha.2 i hi
    rwa [he] at this
  split
  · next hp => exact .inr ⟨s, ∅, rfl, entryCloned_absent hz (by simpa using hp)⟩
  · next hp =>
    have hp : has e ptePresent = true := by simpa using hp
    rcases s.allocFrame_cases with ⟨g, s1, hal, ht⟩ | ⟨hal, hnone⟩
    · right
      have hgb : g ≠ b := fun h => by
        have := ht.run 0 (by decide)
        rw [Nat.add_zero, h, hb] at this
        cases this
      have hg : Grown s s1 b {g} := ht.grown
      have hcopy : ∀ x, x / pageSize ≠ g → copy s1.mem (g * pageSize) (e &&& pteAddrMask).toNat 4096 x = s1.mem x :=
        fun x hx => copy_out (by unfold pageSize at *; omega)
      have hT : tables (copy s1.mem (g * pageSize) (e &&& pteAddrMask).toNat 4096) b = tables s.mem b := by
        rw [← ht.keeps.tables hb]
        refine tables_congr fun x h1 h2 => hcopy x ?_
        unfold pageSize at *
        omega
      refine ⟨s1.setMem (writeEntry (copy s1.mem (g * pageSize) (e &&& pteAddrMask).toNat 4096) (b * pageSize) i
        (copyEntry g e)), {g}, ?_, ⟨hg.fresh, hg.free, fun x hb hS => ?_⟩, fun j hj => ?_, ?_⟩
      · rw [hal]
        split
        · next h0 => exact absurd (congrArg Prod.fst h0) ht.addr_ne_zero
        · next heq =>
          cases heq
          rfl
      · rw [← hg.mem x hb hS, ← hcopy x (by simpa using hS)]
        exact writeEntry_out hb
      · refine (congrFun (congrFun tables_writeEntry b) j).trans ?_
        rw [setEntry_other (.inr hj), hT]
      · have hentry : tables (writeEntry (copy s1.mem (g * pageSize) (e &&& pteAddrMask).toNat 4096) (b * pageSize) i
            (copyEntry g e)) b i = copyEntry g e := by rw [tables_writeEntry, setEntry_self]
        simp only [EntryCopy]
        rw [if_pos hp]
        refine ⟨g, ht.bound, rfl, hentry, fun k hk' => ?_⟩
        have hpage : (g * pageSize + k) / pageSize = g := by unfold pageSize at *; omega
        refine (writeEntry_out (by rwa [hpage])).trans ?_
        rw [copy_in (show k < 4096 from hk')]
        refine (hk.trans ht.keeps).mem _ ?_
        have := masked_aligned e
        rw [show ((e &&& pteAddrMask).toNat + k) / pageSize = (e &&& pteAddrMask).toNat / pageSize by
          unfold pageSize at *; omega]
        exact hsrc hp
    · left
      rw [hal]
      refine ⟨rfl, ?_⟩
      simp [Phys.avail_eq_empty hnone, entryCost, hp]

/-- What is asked of a function that copies a table into an empty one. -/
def CopiesTable (s0 : Phys) (n : Nat) (inner : Nat → Nat → Phys → Option Phys) : Prop :=
  ∀ a b s, SourceTable s0 n 512 a → Keeps s0 s → s0.pmm.isFree b = true → s.pmm.isFree b = false →
    (∀ i, tables s.mem b i = 0) →
    (inner (a * pageSize) (b * pageSize) s = none ∧ s.avail.card < rowCost s0.mem n 512 (tables s0.mem a)) ∨
    ∃ s' S, inner (a * pageSize) (b * pageSize) s = some s' ∧ RowCloned s0 s s' b n 512 (tables s0.mem a) S

theorem copiesTable_of_round (step : Nat → Nat → Phys → Nat → Option Phys)
    (h : ∀ a b, SourceTable s0 n 512 a → s0.pmm.isFree b = true → Round s0 n b 512 (tables s0.mem a) (step (a * pageSize) (b * pageSize))) :
    
    CopiesTable s0 n fun a b s => (List.range 512).foldlM (step a b) s :=
  fun a b _ ha hk hb0 hb hz => rounds_spec (h a b ha hb0) hk hb0 hb 512 (Nat.le_refl _) (Nat.le_refl _) fun i _ => hz i

/-- **A new table** in place of one of the source. -/
theorem cloneTable_spec {i : Fin 512} {e : Word} {inner : Nat → Nat → Phys → Option Phys}
    (hinner : CopiesTable s0 n inner) (hk : Keeps s0 s) (hb0 : s0.pmm.isFree b = true) (hb : s.pmm.isFree b = false)
    (hsrc : SourceOK s0 (n + 1) e) (hp : has e ptePresent = true) (hh : ¬ (n = 0 ∧ has e pteHuge = true)) :
    (Phys.cloneTable inner (b * pageSize) i e s = none ∧ s.avail.card < entryCost s0.mem (n + 1) e) ∨
    ∃ s' S, Phys.cloneTable inner (b * pageSize) i e s = some s' ∧ EntryCloned s0 s s' b i (n + 1) e S := by
  obtain ⟨hframe, hused, hbelow⟩ := hsrc hp hh
  have hcost : entryCost s0.mem (n + 1) e = 1 + rowCost s0.mem n 512 (tables s0.mem (frameOf e)) := by
    rw [rowCost_full, entryCost, if_neg (by simp [hp]), if_neg hh]
  unfold Phys.cloneTable
  rcases s.allocTable_cases with ⟨g, s1, hal, ht⟩ | ⟨hal, hnone⟩
  · have hfree : s.pmm.isFree g = true := ht.run 0 (by decide)
    have hgb : g ≠ b := fun h => by
      rw [h, hb] at hfree
      cases hfree
    have hg : Grown s s1 b {g} := ht.grown
    have hcard := ht.avail_card
    have hT : tables (writeEntry s1.mem (b * pageSize) i (copyEntry g e)) = setEntry (tables s1.mem) b i (copyEntry g e) :=
      tables_writeEntry
    have hg2 : Grown s (s1.setMem (writeEntry s1.mem (b * pageSize) i (copyEntry g e))) b {g} :=
      ⟨hg.fresh, hg.free, fun x hx hS => (writeEntry_out hx).trans (hg.mem x hx hS)⟩
    have hused2 : (s1.setMem (writeEntry s1.mem (b * pageSize) i (copyEntry g e))).pmm.isFree g = false := by
      by_contra hne
      rw [Bool.not_eq_false, hg2.free] at hne
      simp at hne
    have hzero : ∀ j, tables (s1.setMem (writeEntry s1.mem (b * pageSize) i (copyEntry g e))).mem g j = 0 := by
      intro j
      refine (congrFun (congrFun hT g) j).trans ?_
      rw [setEntry_table hgb, ht.mem, Nat.one_mul, tables_fill]
    rw [hal]
    dsimp only
    rw [masked_of_frameOf hframe]
    rcases hinner (frameOf e) g _ ⟨hused, fun i _ => hbelow i⟩ (Grown.keeps hk hg2 hb0) (hk.free g hfree) hused2 hzero with
      ⟨hnone, hlt⟩ | ⟨s', below, hsome, hrow⟩
    · left
      refine ⟨hnone, ?_⟩
      have hlt : s1.avail.card < rowCost s0.mem n 512 (tables s0.mem (frameOf e)) := hlt
      omega
    · right
      have hnot : g ∉ below := fun hmem => by
        rw [Grown.isFree_of_mem (hrow.fresh hmem)] at hused2
        cases hused2
      have hbb : b ∉ below := fun hmem => by
        have := Grown.isFree_of_mem (hrow.fresh hmem)
        rw [hg2.used hb] at this
        cases this
      have hrowb : tables s'.mem b = setEntry (tables s1.mem) b i (copyEntry g e) b := by
        rw [← hT]
        refine tables_congr fun x h1 h2 => ?_
        have hx : x / pageSize = b := by unfold pageSize at *; omega
        exact hrow.mem x (by rw [hx]; exact hgb.symm) (by rwa [hx])
      refine ⟨s', insert g below, hsome, ⟨?_, fun f => ?_, fun x hxb hxS => ?_⟩, fun j hj => ?_, ?_⟩
      · intro f hf
        rcases Finset.mem_insert.mp hf with rfl | hf
        · exact hg.fresh (Finset.mem_singleton_self f)
        · have := hrow.fresh hf
          rw [hg2.avail] at this
          exact (Finset.mem_sdiff.mp this).1
      · rw [hrow.free, hg2.free, Finset.mem_insert, Finset.mem_singleton, not_or, and_assoc]
      · rw [Finset.mem_insert, not_or] at hxS
        rw [hrow.mem x hxS.1 hxS.2]
        exact hg2.mem x hxb (by simpa using hxS.1)
      · rw [hrowb, setEntry_other (.inr hj), ht.keeps.tables hb]
      · simp only [EntryCopy]
        rw [if_neg (by simp [hp]), if_neg hh, hrowb, setEntry_self]
        exact ⟨g, below, ht.bound, hframe, hnot, rfl, rfl, hrow.copy⟩
  · left
    rw [hal, hcost, hnone, Finset.card_empty]
    exact ⟨rfl, by omega⟩

theorem clonePt_copies : CopiesTable s0 0 Phys.clonePt :=
  copiesTable_of_round Phys.clonePte fun _ _ ha _ => clonePte_round ha

theorem clonePde_round (ha : SourceTable s0 1 m a) (hb0 : s0.pmm.isFree b = true) :
    Round s0 1 b m (tables s0.mem a) (Phys.clonePde (a * pageSize) (b * pageSize)) := by
  intro s i hi hk hb hz
  have hsrc := ha.2 i hi
  unfold Phys.clonePde
  rw [entryAt_eq, hk.tables ha.1]
  dsimp only
  generalize tables s0.mem a i = e at *
  split
  · next hp => exact .inr ⟨s, ∅, rfl, entryCloned_absent hz (by simpa using hp)⟩
  · next hp =>
    have hp : has e ptePresent = true := by simpa using hp
    split
    · next hh =>
      -- a 2 MiB page: the entry itself is the copy
      have hT : tables (writeEntry s.mem (b * pageSize) i e) = setEntry (tables s.mem) b i e := tables_writeEntry
      refine .inr ⟨s.setMem (writeEntry s.mem (b * pageSize) i e), ∅, rfl,
        ⟨Finset.empty_subset _, by simp [Phys.setMem], fun x hx _ => writeEntry_out hx⟩, fun j hj => ?_, ?_⟩
      · exact (congrFun (congrFun hT b) j).trans (setEntry_other (.inr hj))
      · simp only [EntryCopy]
        rw [if_neg (by simp [hp]), if_pos ⟨trivial, hh⟩]
        exact ⟨(congrFun (congrFun hT b) i).trans setEntry_self, trivial⟩
    · next hh =>
      exact cloneTable_spec clonePt_copies hk hb0 hb hsrc hp fun hc => hh hc.2

theorem clonePd_copies : CopiesTable s0 1 Phys.clonePd :=
  copiesTable_of_round Phys.clonePde fun _ _ ha hb0 => clonePde_round ha hb0

theorem cloneOuter_round {inner : Nat → Nat → Phys → Option Phys} {step : Nat → Nat → Phys → Nat → Option Phys}
    (hn : n ≠ 0) (hinner : CopiesTable s0 n inner)
    (hstep : ∀ a b s i, step a b s i = if ¬ has (entryAt s.mem a i) ptePresent then some s else Phys.cloneTable inner b i (entryAt s.mem a i) s)
    (ha : SourceTable s0 (n + 1) m a) (hb0 : s0.pmm.isFree b = true) :
    Round s0 (n + 1) b m (tables s0.mem a) (step (a * pageSize) (b * pageSize)) := by
  intro s i hi hk hb hz
  have hsrc := ha.2 i hi
  rw [hstep, entryAt_eq, hk.tables ha.1]
  generalize tables s0.mem a i = e at *
  split
  · next hp => exact .inr ⟨s, ∅, rfl, entryCloned_absent hz (by simpa using hp)⟩
  · next hp => exact cloneTable_spec hinner hk hb0 hb hsrc (by simpa using hp) fun hc => hn hc.1

theorem clonePdpte_round (ha : SourceTable s0 2 m a) (hb0 : s0.pmm.isFree b = true) :
    Round s0 2 b m (tables s0.mem a) (Phys.clonePdpte (a * pageSize) (b * pageSize)) :=
  cloneOuter_round (by decide) clonePd_copies (fun _ _ _ _ => rfl) ha hb0

theorem clonePdpt_copies : CopiesTable s0 2 Phys.clonePdpt :=
  copiesTable_of_round Phys.clonePdpte fun _ _ ha hb0 => clonePdpte_round ha hb0

theorem clonePml4e_round (ha : SourceTable s0 3 m a) (hb0 : s0.pmm.isFree b = true) :
    Round s0 3 b m (tables s0.mem a) (Phys.clonePml4e (a * pageSize) (b * pageSize)) :=
  cloneOuter_round (by decide) clonePdpt_copies (fun _ _ _ _ => rfl) ha hb0

end CoreOS
