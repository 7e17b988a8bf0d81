/-
Ranges of pages mapped and unmapped: as one step on any tree of tables, and what a
program sees of it as far as they lie below `userTop`.
-/
import CoreOS.FrameDemand

namespace CoreOS

open ByteMem Radix
open Option (map_some bind_some)

section Mapped

variable {t t' : Phys} {root : Nat}

theorem UserSpace.userByte_congr {x : Nat} (h : UserSpace t root) (h' : UserSpace t' root) (hx : x < userTop)
    (hpage : pageEntry t'.mem root (pageNo x) = pageEntry t.mem root (pageNo x))
    (hmem : ∀ y, t.pmm.isFree (y / pageSize) = false → ¬ IsTable t root (y / pageSize) → t'.mem y = t.mem y) :
    CoreOS.userByte t' (root * pageSize) x = CoreOS.userByte t (root * pageSize) x := by
  rw [h'.userByte hx, h.userByte hx, hpage]
  cases he : pageEntry t.mem root (pageNo x) with
  | none => rfl
  | some e =>
    have hframe : (leafFrame e * pageSize + x % pageSize) / pageSize = leafFrame e := by
      unfold pageSize
      omega
    rw [map_some, map_some]
    refine congrArg some (hmem _ ?_ ?_)
    · rw [hframe]
      exact h.used _ e (pageNo_user hx) he
    · rw [hframe]
      rintro ⟨q, hq, hqe⟩
      exact h.noTable _ e q (pageNo_user hx) he hq hqe

/-! ## A round of the loop -/

/-- The byte a mapping starts with at offset `o`. -/
def seedByte (seed : Option (List Byte)) (o : Nat) : Byte := (seed.bind fun bytes => bytes[o]?).getD 0

/-- **A page is mapped** and gets the bytes of its place in the mapping. -/
theorem WellFormed.seededPage {virt a : Nat} {flags : MapFlags} {t1 t2 : Phys} (hw : WellFormed t root)
    (hhuge : hugeEntry t.mem root (pageNo virt) = none) (off : Nat) (seed : Option (List Byte))
    (hal : t.allocFrame = (a, t1)) (ha : a ≠ 0) (hm : t1.mapPageIn (root * pageSize) virt a flags = some t2) :
    PagesMapped t ((t2.setMem (fill t2.mem a pageSize 0)).seedPage (root * pageSize) virt off seed) root (· = pageNo virt) ∧
      ∀ e, pageEntry ((t2.setMem (fill t2.mem a pageSize 0)).seedPage (root * pageSize) virt off seed).mem root (pageNo virt) =
        some e → ∀ k < pageSize, ((t2.setMem (fill t2.mem a pageSize 0)).seedPage (root * pageSize) virt off seed).mem
          (leafFrame e * pageSize + k) = seedByte seed (off + k) := by
  obtain ⟨e, hnew⟩ := hw.newPage hhuge hal ha hm
  generalize t2.setMem (fill t2.mem a pageSize 0) = t3 at hnew
  have hmapped := PagesMapped.of_newPage hnew
  have he : pageEntry t3.mem root (pageNo virt) = some e := (hnew.page _).trans (if_pos rfl)
  cases seed with
  | none =>
    refine ⟨hmapped, fun e' he' k hk => ?_⟩
    cases he.symm.trans he'
    exact hnew.zero k hk
  | some bytes =>
    have htr : t3.translatePage (root * pageSize) virt = some (leafFrame e * pageSize) := by
      rw [translatePage_map, pageMap, hnew.huge, hhuge, he]
      exact congrArg some (leafFrame_addr e)
    have hlen : ((bytes.drop off).take pageSize).length ≤ pageSize := List.length_take_le ..
    have hout : ∀ x, x / pageSize ≠ leafFrame e →
        store t3.mem (leafFrame e * pageSize) ((bytes.drop off).take pageSize) x = t3.mem x :=
      fun x hx => store_out (by unfold pageSize at *; omega)
    unfold Phys.seedPage Phys.writeUserPage
    rw [htr]
    have hstored := hmapped.write rfl he hout
    refine ⟨hstored, fun e' he' k hk => ?_⟩
    have hsame : WellFormed.Same t3.mem _ root := .of_frame hnew.noTable hout
    cases (hsame.pageEntry.trans he).symm.trans he'
    show store t3.mem _ _ _ = _
    rw [seedByte, bind_some, store, if_pos (Nat.le_add_right ..), Nat.add_sub_cancel_left, List.getD_eq_getElem?_getD,
      List.getElem?_take_of_lt hk, List.getElem?_drop, hnew.zero k hk]

end Mapped

/-! ## The loop -/

/-- The pages of a range from its `i`-th to before its `m`-th. -/
def PagesOf (start i m : Nat) (v : PageNo) : Prop := ∃ j, i ≤ j ∧ j < m ∧ v = pageNo (start + j * pageSize)

variable {start i m : Nat}

theorem PagesOf.user {v : PageNo} (h : PagesOf start i m v) (htop : start + m * pageSize ≤ userTop) :
    v.User := by
  obtain ⟨j, -, hj, rfl⟩ := h
  refine pageNo_user ?_
  unfold pageSize at *
  omega

theorem pagesOf_pageNo {x : Nat} (halign : start % pageSize = 0) (htop : start + m * pageSize ≤ userTop)
    (hx : x < userTop) : PagesOf start i m (pageNo x) ↔ start + i * pageSize ≤ x ∧ x < start + m * pageSize := by
  have hpage : ∀ j < m, (pageNo x = pageNo (start + j * pageSize) ↔
      start + j * pageSize ≤ x ∧ x < start + j * pageSize + pageSize) := by
    refine fun j hj => pageNo_eq_iff hx ?_ ?_
    all_goals
      unfold pageSize at *
      omega
  constructor
  · rintro ⟨j, hi, hj, he⟩
    obtain ⟨h1, h2⟩ := (hpage j hj).mp he
    have hlow := Nat.mul_le_mul_right pageSize hi
    have hhigh := Nat.mul_le_mul_right pageSize (Nat.succ_le_of_lt hj)
    rw [Nat.succ_mul] at hhigh
    omega
  · rintro ⟨h1, h2⟩
    have hdiv : (x - start) / pageSize < m ∧ i ≤ (x - start) / pageSize ∧
        start + (x - start) / pageSize * pageSize ≤ x ∧ x < start + (x - start) / pageSize * pageSize + pageSize := by
      clear hpage
      unfold pageSize at *
      omega
    exact ⟨_, hdiv.2.1, hdiv.1, (hpage _ hdiv.1).mpr hdiv.2.2⟩

theorem pagesOf_succ (him : i < m) (v : PageNo) :
    PagesOf start i m v ↔ v = pageNo (start + i * pageSize) ∨ PagesOf start (i + 1) m v := by
  constructor
  · rintro ⟨j, hi, hj, rfl⟩
    rcases Nat.eq_or_lt_of_le hi with rfl | hlt
    · exact .inl rfl
    · exact .inr ⟨j, hlt, hj, rfl⟩
  · rintro (rfl | ⟨j, hi, hj, rfl⟩)
    · exact ⟨i, Nat.le_refl i, him, rfl⟩
    · exact ⟨j, by omega, hj, rfl⟩

section Loop

variable {t t' : Phys} {root start n i : Nat} {mem : Mem} {flags : MapFlags} {seed : Option (List Byte)}

/-- **The mapping loop** on any tree, for pages that are part of no 2 MiB page: the
pages before the one at which frames ran out have frames of their own with the bytes of
the mapping. -/
theorem WellFormed.mapPages_range {o : Option Nat} (hw : WellFormed t root) (hbound : i + n ≤ 2 ^ 36)
    (hhuge : ∀ v, PagesOf start i (i + n) v → hugeEntry t.mem root v = none)
    (hm : Phys.mapPages (root * pageSize) start flags seed n i t = some (o, t')) :
    (i ≤ o.getD (i + n) ∧ o.getD (i + n) ≤ i + n) ∧ PagesMapped t t' root (PagesOf start i (o.getD (i + n))) ∧
      ∀ j e, i ≤ j → j < o.getD (i + n) → pageEntry t'.mem root (pageNo (start + j * pageSize)) = some e →
        ∀ k < pageSize, t'.mem (leafFrame e * pageSize + k) = seedByte seed (j * pageSize + k) := by
  induction n generalizing i t with
  | zero =>
    cases hm
    rw [Option.getD_none, Nat.add_zero]
    exact ⟨⟨Nat.le_refl i, Nat.le_refl i⟩, .refl hw fun v ⟨j, hi, hj, _⟩ => by omega, fun j e hi hj => by omega⟩
  | succ n ih =>
    rcases Phys.mapPages_cases n t (root * pageSize) start i flags seed with ⟨-, -, he⟩ | ⟨g, t1, hal, ht, he⟩
    · cases he.symm.trans hm
      rw [Option.getD_some]
      exact ⟨⟨Nat.le_refl i, by omega⟩, .refl hw fun v ⟨j, hi, hj, _⟩ => by omega, fun j e hi hj => by omega⟩
    · rw [he] at hm
      obtain ⟨t2, hmap, hm⟩ := Option.bind_eq_some_iff.mp hm
      have hvirt := pageNo_wrappingAdd start (i * pageSize)
      have hfirst : PagesOf start i (i + (n + 1)) (pageNo (wrappingAdd start (i * pageSize))) :=
        ⟨i, Nat.le_refl i, by omega, hvirt⟩
      obtain ⟨hpage, hbyte⟩ := hw.seededPage (hhuge _ hfirst) (i * pageSize) seed hal ht.addr_ne_zero hmap
      generalize (t2.setMem _).seedPage _ _ _ seed = t3 at hm hpage hbyte
      rw [hvirt] at hpage hbyte
      have hsum : i + 1 + n = i + (n + 1) := by omega
      have hrest := ih hpage.wf (by omega) (fun v ⟨j, hi, hj, hv⟩ => by
        rw [hpage.huge]
        exact hhuge v ⟨j, by omega, by omega, hv⟩) hm
      rw [hsum] at hrest
      obtain ⟨⟨hle, hle'⟩, hpages, hbytes⟩ := hrest
      have hout : ∀ v, v = pageNo (start + i * pageSize) → ¬ PagesOf start (i + 1) (o.getD (i + (n + 1))) v := by
        rintro v rfl ⟨j, hi, hj, hv⟩
        have := congrArg Fin.val hv
        unfold pageNo pageSize at this
        dsimp only at this
        omega
      refine ⟨⟨by omega, hle'⟩, hpage.trans hpages hout (pagesOf_succ (by omega)), fun j e hi hj he' k hk => ?_⟩
      rcases Nat.eq_or_lt_of_le hi with rfl | hlt
      · -- later rounds write to tables and to frames that were free
        have hold := (hpages.old _ (hout _ rfl)).symm.trans he'
        obtain ⟨-, hused, htable⟩ := hpage.frame rfl hold
        have hdiv : (leafFrame e * pageSize + k) / pageSize = leafFrame e := by
          unfold pageSize at *
          omega
        rw [hpages.mem (by rwa [hdiv]) (by rwa [hdiv])]
        exact hbyte e hold k hk
      · exact hbytes j e hlt hj he' k hk

theorem WellFormed.mapPages_card (hw : WellFormed t root)
    (hhuge : ∀ v, PagesOf start i (i + n) v → hugeEntry t.mem root v = none)
    (hm : Phys.mapPages (root * pageSize) start flags seed n i t = some (none, t')) : n ≤ t.avail.card := by
  induction n generalizing i t with
  | zero => exact Nat.zero_le _
  | succ n ih =>
    rcases Phys.mapPages_cases n t (root * pageSize) start i flags seed with ⟨-, -, he⟩ | ⟨g, t1, hal, ht, he⟩
    · cases he.symm.trans hm
    · rw [he] at hm
      obtain ⟨t2, hmap, hm⟩ := Option.bind_eq_some_iff.mp hm
      have hfirst : PagesOf start i (i + (n + 1)) (pageNo (wrappingAdd start (i * pageSize))) :=
        ⟨i, Nat.le_refl i, by omega, pageNo_wrappingAdd ..⟩
      obtain ⟨hpage, -⟩ := hw.seededPage (hhuge _ hfirst) (i * pageSize) seed hal ht.addr_ne_zero hmap
      have hrest := ih hpage.wf (fun v ⟨j, hi, hj, hv⟩ => by
        rw [hpage.huge]
        exact hhuge v ⟨j, by omega, by omega, hv⟩) hm
      obtain ⟨e, -, hfree, hused, -⟩ := hpage.new _ rfl
      refine Nat.lt_of_le_of_lt hrest (Finset.card_lt_card ⟨fun f hf => hpage.writes.avail hf, fun hsub => ?_⟩)
      have hstill := (mem_avail.mp (hsub hfree)).2.2
      rw [hused] at hstill
      cases hstill

/-- **The mapping loop** below `userTop`, as a program sees it. -/
theorem mapPages_range {o : Option Nat} (h : UserSpace t root) (halign : start % pageSize = 0)
    (htop : start + (i + n) * pageSize ≤ userTop)
    (hm : Phys.mapPages (root * pageSize) start flags seed n i t = some (o, t')) :
    (i ≤ o.getD (i + n) ∧ o.getD (i + n) ≤ i + n) ∧ PagesMapped t t' root (PagesOf start i (o.getD (i + n))) ∧
      ∀ x < userTop, userByte t' (root * pageSize) x =
        if start + i * pageSize ≤ x ∧ x < start + o.getD (i + n) * pageSize then some (seedByte seed (x - start))
        else userByte t (root * pageSize) x := by
  have hbound : i + n ≤ 2 ^ 36 := by
    unfold pageSize userTop at htop
    omega
  obtain ⟨hle, hpages, hbytes⟩ := h.wf.mapPages_range hbound (fun v hv => h.small v (hv.user htop)) hm
  have hend : start + o.getD (i + n) * pageSize ≤ userTop :=
    Nat.le_trans (Nat.add_le_add_left (Nat.mul_le_mul_right _ hle.2) _) htop
  have hspace := hpages.space h
  refine ⟨hle, hpages, fun x hx => ?_⟩
  have hiff : PagesOf start i (o.getD (i + n)) (pageNo x) ↔ _ := pagesOf_pageNo halign hend hx
  by_cases hin : PagesOf start i (o.getD (i + n)) (pageNo x)
  · rw [if_pos (hiff.mp hin)]
    obtain ⟨j, hi, hj, hv⟩ := hin
    obtain ⟨e, he, -⟩ := hpages.new _ ⟨j, hi, hj, hv⟩
    have hpage : start + j * pageSize ≤ x ∧ x < start + j * pageSize + pageSize := by
      refine (pageNo_eq_iff hx ?_ ?_).mp hv
      all_goals
        unfold pageSize at *
        omega
    rw [hspace.userByte hx, he, map_some, hbytes j e hi hj (hv ▸ he) _ (Nat.mod_lt x (by decide))]
    congr 2
    unfold pageSize at *
    omega
  · rw [if_neg (mt hiff.mpr hin)]
    exact h.userByte_congr hspace hx (hpages.old _ hin) fun y hused hy => hpages.mem hused hy

theorem seedPage_withUpper {virt off : Nat} (h : UserSpace t root) (hp : virt < userTop) :
    (t.withUpper root mem).seedPage (root * pageSize) virt off seed =
      (t.seedPage (root * pageSize) virt off seed).withUpper root mem := by
  cases seed with
  | none => rfl
  | some bytes =>
    unfold Phys.seedPage Phys.writeUserPage
    have hv := pageNo_user hp
    rw [translatePage_withUpper h.wf hv, h.translatePage hv]
    cases he : pageEntry t.mem root (pageNo virt) with
    | none => rfl
    | some e =>
      have hne : leafFrame e ≠ root := fun heq => h.noTable _ e [] hv he (by simp) (heq ▸ rfl)
      have hlen : 0 + ((bytes.drop off).take pageSize).length ≤ pageSize := by
        rw [Nat.zero_add]
        exact List.length_take_le ..
      rw [map_some, ← Nat.add_zero (leafFrame e * pageSize)]
      exact store_withUpper hne hlen

theorem mapPages_withUpper (h : UserSpace t root) (halign : start % pageSize = 0)
    (htop : start + (i + n) * pageSize ≤ userTop) :
    Phys.mapPages (root * pageSize) start flags seed n i (t.withUpper root mem) =
      (Phys.mapPages (root * pageSize) start flags seed n i t).map (Prod.map id fun t => t.withUpper root mem) := by
  induction n generalizing i t with
  | zero => rfl
  | succ n ih =>
    obtain ⟨hvirt, hlt, halign'⟩ := lowPage halign htop
    have hused : t.pmm.isFree root = false := (h.wf.table [] root (by simp) rfl).2
    have halU : (t.withUpper root mem).allocFrame = _ := allocFrame_withUpper hused
    rcases Phys.mapPages_cases n t (root * pageSize) start i flags seed with ⟨hal, -, he⟩ | ⟨g, t1, hal, ht, he⟩
    · rw [hal] at halU
      rw [he, Phys.mapPages_oom n halU]
      rfl
    · rw [hal] at halU
      rw [he, Phys.mapPages_new n halU ht.addr_ne_zero, hvirt,
        mapPageIn_withUpper (h.wf.keeps ht.keeps) (pageNo_user hlt)]
      cases hmap : t1.mapPageIn (root * pageSize) (start + i * pageSize) (g * pageSize) flags with
      | none => rfl
      | some t2 =>
        obtain ⟨e, -, hlow⟩ := h.newPage (pageNo_user hlt) hal ht.addr_ne_zero hmap
        rw [map_some, bind_some, bind_some, fill_withUpper (ht.ne hused), seedPage_withUpper hlow.space hlt]
        exact ih (hlow.space.seedPage_same (pageNo_user hlt) _ seed).1 (by rw [show i + 1 + n = i + (n + 1) by omega]; exact htop)

end Loop

/-! ## Pages unmapped -/

/-- The frame of a page in `V` that `free_frame` takes back. -/
def FrameOf (t : Phys) (root : Nat) (V : PageNo → Prop) (g : Nat) : Prop :=
  g ≠ 0 ∧ g < maxFrames ∧ ∃ v e, V v ∧ pageEntry t.mem root v = some e ∧ leafFrame e = g

/-- The pages in `V` are gone and their frames are free, and the others are as
before. -/
structure PagesUnmapped (t t' : Phys) (root : Nat) (V : PageNo → Prop) : Prop where
  space : UserSpace t' root
  gone : ∀ v, V v → pageEntry t'.mem root v = none
  old : ∀ v, ¬ V v → pageEntry t'.mem root v = pageEntry t.mem root v
  table : ∀ g, IsTable t' root g ↔ IsTable t root g
  free : ∀ g, t'.pmm.isFree g = true ↔ t.pmm.isFree g = true ∨ FrameOf t root V g
  mem : ∀ x, t'.mem x = t.mem x ∨ IsTable t root (x / pageSize)
  kernel : SameKernelHalf t.mem t'.mem root

section Unmapped

variable {t t' t'' : Phys} {root : Nat} {V V' W : PageNo → Prop}

namespace PagesUnmapped

theorem refl (h : UserSpace t root) (hV : ∀ v, V v → pageEntry t.mem root v = none) : PagesUnmapped t t root V where
  space := h
  gone := hV
  old := fun _ _ => rfl
  table := fun _ => Iff.rfl
  free := fun g => by
    refine ⟨.inl, fun hg => hg.resolve_right ?_⟩
    rintro ⟨-, -, v, e, hv, he, -⟩
    rw [hV v hv] at he
    cases he
  mem := fun _ => .inl rfl
  kernel := .refl

theorem trans (h1 : PagesUnmapped t t' root V) (h2 : PagesUnmapped t' t'' root V') (hW : ∀ v, W v ↔ V v ∨ V' v) :
    PagesUnmapped t t'' root W where
  space := h2.space
  gone := fun v hv => by
    by_cases hv' : V' v
    · exact h2.gone v hv'
    · rw [h2.old v hv', h1.gone v (((hW v).mp hv).resolve_right hv')]
  old := fun v hv => by
    rw [hW v, not_or] at hv
    rw [h2.old v hv.2, h1.old v hv.1]
  table := fun g => (h2.table g).trans (h1.table g)
  free := fun g => by
    rw [h2.free g, h1.free g, or_assoc]
    refine or_congr_right ⟨?_, ?_⟩
    · rintro (⟨h0, hlt, v, e, hv, he, heg⟩ | ⟨h0, hlt, v, e, hv, he, heg⟩)
      · exact ⟨h0, hlt, v, e, (hW v).mpr (.inl hv), he, heg⟩
      · by_cases hv' : V v
        · rw [h1.gone v hv'] at he
          cases he
        · exact ⟨h0, hlt, v, e, (hW v).mpr (.inr hv), (h1.old v hv').symm.trans he, heg⟩
    · rintro ⟨h0, hlt, v, e, hv, he, heg⟩
      by_cases hv' : V v
      · exact .inl ⟨h0, hlt, v, e, hv', he, heg⟩
      · exact .inr ⟨h0, hlt, v, e, ((hW v).mp hv).resolve_left hv', (h1.old v hv').trans he, heg⟩
  mem := fun x => by
    rcases h2.mem x with hx | hx
    · exact (h1.mem x).imp (fun hx' => hx.trans hx') id
    · exact .inr ((h1.table _).mp hx)
  kernel := h1.kernel.trans h2.kernel

end PagesUnmapped

theorem unmapPageIn_mem {virt x : Nat} :
    (t.unmapPageIn (root * pageSize) virt).2.mem x = t.mem x ∨ IsTable t root (x / pageSize) := by
  unfold Phys.unmapPageIn
  rcases t.ptePtr_cases root virt with ⟨-, habs⟩ | ⟨pt, e, hpt, -, hptr, hload, hp⟩
  · left
    split
    · rfl
    next ptr hptr => rw [if_pos (by simp [habs ptr hptr])]
  · rw [hptr]
    dsimp only
    rw [hload, if_neg (by simp [hp])]
    by_cases hx : x / pageSize = pt
    · exact .inr ⟨dirPath (pageNo virt), by simp [dirPath], hx ▸ hpt⟩
    · exact .inl (writeEntry_out hx)

/-- **A page is unmapped** and its frame given back. -/
theorem UserSpace.unmapFree_page {virt : Nat} (h : UserSpace t root) (hv : (pageNo virt).User) :
    PagesUnmapped t (t.unmapFree (root * pageSize) virt) root (· = pageNo virt) := by
  have hlow := h.unmapFree hv
  rcases unmapPageIn_cases h.wf virt with ⟨hnone, he⟩ | ⟨e, t1, he, hu, hs⟩
  · rw [Phys.unmapFree, he]
    exact .refl h fun v hv => hv ▸ hnone
  · have hfree : t.unmapFree (root * pageSize) virt = t1.freeFrame (leafFrame e * pageSize) := by
      rw [Phys.unmapFree, hu, leafFrame_addr]
    have hmem : (t.unmapFree (root * pageSize) virt).mem = t1.mem := by rw [hfree, Phys.freeFrame_mem]
    have hpage : ∀ u, pageEntry t1.mem root u = if u = pageNo virt then none else pageEntry t.mem root u := by
      intro u
      rw [hs.page u, has_zero]
      rfl
    refine ⟨hlow.space, fun v hv => ?_, fun v hv => ?_, fun g => ?_, fun g => ?_, fun x => ?_, hlow.kernel⟩
    · rw [hmem, hpage, if_pos hv]
    · rw [hmem, hpage, if_neg hv]
    · refine exists_congr fun q => and_congr_right fun hq => ?_
      rw [hmem, hs.tableAt hq]
    · -- the frame was in use, so `free_frame` frees it unless it is out of bounds
      have hused : t1.pmm.isFree (leafFrame e) = false := by
        rw [hs.pmm]
        exact h.used _ e hv he
      by_cases hg : g = leafFrame e
      · have hof : FrameOf t root (· = pageNo virt) g ↔ g ≠ 0 ∧ g < maxFrames :=
          ⟨fun hf => ⟨hf.1, hf.2.1⟩, fun hf => ⟨hf.1, hf.2, _, e, rfl, he, hg.symm⟩⟩
        rw [hfree, hof, hg, h.used _ e hv he]
        by_cases hb : leafFrame e ≠ 0 ∧ leafFrame e < maxFrames
        · rw [Phys.freeFrame_used (by rw [Phys.frame_div]; exact hb.1) (by rw [Phys.frame_div]; exact hb.2)
            (by rw [Phys.frame_div]; exact hused), Phys.frame_div, PmmState.isFree_withFree, PmmState.isFree_setFree]
          simp [hb]
        · have hsame : t1.freeFrame (leafFrame e * pageSize) = t1 := by
            unfold Phys.freeFrame
            rw [Phys.frame_div]
            exact if_pos (by omega)
          rw [hsame, hused]
          simp [hb]
      · rw [hfree, Phys.freeFrame_other (by rw [Phys.frame_div]; exact hg), hs.pmm]
        refine ⟨.inl, fun hf => hf.resolve_right ?_⟩
        rintro ⟨-, -, v, e', rfl, he', heg⟩
        cases he.symm.trans he'
        exact hg heg.symm
    · rw [hmem, show t1 = (t.unmapPageIn (root * pageSize) virt).2 by rw [hu]]
      exact unmapPageIn_mem

/-! ## The loop of `munmap_impl` -/

variable {start n : Nat}

theorem pagesOf_snoc (v : PageNo) :
    PagesOf start 0 (n + 1) v ↔ PagesOf start 0 n v ∨ v = pageNo (start + n * pageSize) := by
  constructor
  · rintro ⟨j, -, hj, rfl⟩
    rcases Nat.lt_succ_iff_lt_or_eq.mp hj with hlt | rfl
    · exact .inl ⟨j, Nat.zero_le j, hlt, rfl⟩
    · exact .inr rfl
  · rintro (⟨j, -, hj, rfl⟩ | rfl)
    · exact ⟨j, Nat.zero_le j, by omega, rfl⟩
    · exact ⟨n, Nat.zero_le n, Nat.lt_succ_self n, rfl⟩

theorem unmapPages_range (h : UserSpace t root) (halign : start % pageSize = 0)
    (htop : start + n * pageSize ≤ userTop) :
    PagesUnmapped t (t.unmapPages (root * pageSize) start n) root (PagesOf start 0 n) := by
  induction n with
  | zero => exact .refl h fun v ⟨j, _, hj, _⟩ => by omega
  | succ n ih =>
    obtain ⟨hvirt, hlt, -⟩ := lowPage (n := 0) halign htop
    have hprev := ih (by rw [Nat.succ_mul] at htop; omega)
    unfold Phys.unmapPages at *
    rw [List.range_succ, List.foldl_append]
    refine hprev.trans ?_ pagesOf_snoc
    rw [← hvirt] at hlt ⊢
    exact hprev.space.unmapFree_page (pageNo_user hlt)

theorem unmapPages_withUpper {mem : Mem} (h : UserSpace t root) (halign : start % pageSize = 0)
    (htop : start + n * pageSize ≤ userTop) :
    (t.withUpper root mem).unmapPages (root * pageSize) start n =
      (t.unmapPages (root * pageSize) start n).withUpper root mem := by
  induction n with
  | zero => rfl
  | succ n ih =>
    obtain ⟨hvirt, hlt, -⟩ := lowPage (n := 0) halign htop
    have htop' : start + n * pageSize ≤ userTop := by rw [Nat.succ_mul] at htop; omega
    have hprev := ih htop'
    have hspace := (unmapPages_range h halign htop').space
    unfold Phys.unmapPages at *
    rw [List.range_succ, List.foldl_append, List.foldl_append, hprev]
    rw [← hvirt] at hlt
    exact unmapFree_withUpper hspace.wf (pageNo_user hlt)

/-! ## Mapped and unmapped again -/

/-- What is left of an address space in which pages were mapped and unmapped again:
every page is as it was, and what is in use and was not holds a table. -/
structure PagesUndone (t t' : Phys) (root : Nat) : Prop where
  space : UserSpace t' root
  page : ∀ v, pageEntry t'.mem root v = pageEntry t.mem root v
  byte : ∀ x < userTop, userByte t' (root * pageSize) x = userByte t (root * pageSize) x
  free : ∀ g, t'.pmm.isFree g = true → t.pmm.isFree g = true
  table : ∀ g, Taken t t' g → IsTable t' root g

/-- **Unmapping undoes mapping**, for pages that were not there. -/
theorem PagesMapped.undone (h : UserSpace t root) (h1 : PagesMapped t t' root V) (h2 : PagesUnmapped t' t'' root V)
    (hV : ∀ v, V v → pageEntry t.mem root v = none) : PagesUndone t t'' root := by
  have hpage : ∀ v, pageEntry t''.mem root v = pageEntry t.mem root v := by
    intro v
    by_cases hv : V v
    · rw [h2.gone v hv, hV v hv]
    · rw [h2.old v hv, h1.old v hv]
  have hframe : ∀ {g}, FrameOf t' root V g → t.pmm.isFree g = true := by
    rintro g ⟨-, -, v, e, hv, he, rfl⟩
    exact (mem_avail.mp (h1.frame hv he).1).2.2
  refine ⟨h2.space, hpage, fun x hx => ?_, fun g hg => ?_, fun g hg => ?_⟩
  · refine h.userByte_congr h2.space hx (hpage _) fun y hused htable => ?_
    refine ((h2.mem y).resolve_right fun hy => ?_).trans (h1.mem hused htable)
    rcases h1.table _ hy with hy | hy
    · exact htable hy
    · rw [hy] at hused
      cases hused
  · rcases (h2.free g).mp hg with hg | hg
    · exact h1.writes.free g hg
    · exact hframe hg
  · rw [h2.table]
    have hused : t'.pmm.isFree g = false := by
      by_contra hne
      rw [Bool.not_eq_false] at hne
      have := (h2.free g).mpr (.inl hne)
      rw [hg.2] at this
      cases this
    refine (h1.taken g ⟨hg.1, hused⟩).resolve_right ?_
    -- a frame of one of the pages was given back
    rintro ⟨v, e, hv, he, rfl⟩
    obtain ⟨h0, hlt, -⟩ := mem_avail.mp (h1.frame hv he).1
    have := (h2.free (leafFrame e)).mpr (.inr ⟨h0, hlt, v, e, hv, he, rfl⟩)
    rw [hg.2] at this
    cases this

end Unmapped

/-! ## With the upper half put back -/

/-- The pages of the lower half are mapped as before. -/
def SameUserPages (s s' : Phys) (root : Nat) : Prop := ∀ v : PageNo, v.User → pageMap s'.mem root v = pageMap s.mem root v

/-- The kernel's tables are in use, and none of them is one of the lower half. -/
def KernelApart (s : Phys) (root : Nat) : Prop :=
  ∀ i p f, 256 ≤ Fin.val i → p.length ≤ 2 → tableAt s.mem root (i :: p) = some f →
    s.pmm.isFree f = false ∧ ¬ IsTable (s.lowerHalf root) root f

section Half

variable {s s' t' : Phys} {root start n : Nat} {seed : Option (List Byte)}

theorem Writes.sharedUpper {T : Nat → Prop} (hw : Writes (s.lowerHalf root) t' T) (hroot : T root)
    (h : ∀ i p f, 256 ≤ Fin.val i → p.length ≤ 2 → tableAt s.mem root (i :: p) = some f → s.pmm.isFree f = false ∧ ¬ T f) :
    SharedUpper s.mem (t'.withUpper root s.mem).mem root root where
  row := fun i hi => by
    have hlt := i.isLt
    refine loadWord_congr fun x h1 h2 => withUpper_in ?_
    unfold InUpper pageSize at *
    omega
  below := fun i p f hi hp hf => by
    obtain ⟨hused, htable⟩ := h i p f hi hp hf
    refine tables_congr fun x h1 h2 => ?_
    have hx : x / pageSize = f := by
      unfold pageSize at *
      omega
    have hout : ¬ InUpper root x := by
      intro hin
      have : root = f := by
        unfold InUpper at hin
        unfold pageSize at *
        omega
      exact htable (this ▸ hroot)
    rw [withUpper_out hout]
    rcases hw.mem x with hy | hy | hy
    · exact hy.trans (withUpper_out hout)
    · exact absurd (hx ▸ hy) htable
    · have hfree := hy.1
      rw [hx] at hfree
      rw [show (s.lowerHalf root).pmm.isFree f = s.pmm.isFree f from rfl, hused] at hfree
      cases hfree

/-- A range of pages is mapped in the lower half of an address space. -/
structure RangeMapped (s s' : Phys) (root start n : Nat) (seed : Option (List Byte)) : Prop where
  half : UserHalf s' root
  byte : ∀ x < userTop, userByte s' (root * pageSize) x =
    if start ≤ x ∧ x < start + n * pageSize then some (seedByte seed (x - start)) else userByte s (root * pageSize) x
  page : ∀ v, PageNo.User v → ¬ PagesOf start 0 n v → pageMap s'.mem root v = pageMap s.mem root v
  new : ∀ v, PagesOf start 0 n v → ∃ g ∈ s.avail, ∃ m, pageMap s'.mem root v = some m ∧ m.frame = g * pageSize
  used : ∀ g, s.pmm.isFree g = false → s'.pmm.isFree g = false
  kernel : KernelApart s root → SameKernelHalf s.mem s'.mem root

theorem UserSpace.pageMap {t : Phys} {v : PageNo} (h : UserSpace t root) (hv : v.User) :
    CoreOS.pageMap t.mem root v = (pageEntry t.mem root v).map leafMapping := by
  unfold CoreOS.pageMap
  rw [h.small v hv]

theorem UserHalf.pageMap {v : PageNo} (h : UserHalf s root) (hv : v.User) :
    CoreOS.pageMap s.mem root v = (pageEntry (s.lowerHalf root).mem root v).map leafMapping := by
  have hup : CoreOS.pageMap ((s.lowerHalf root).withUpper root s.mem).mem root v = _ := pageMap_withUpper h.wf hv
  rw [s.lowerHalf_withUpper] at hup
  rw [hup, UserSpace.pageMap h hv]

theorem UserHalf.userByte {x : Nat} (h : UserHalf s root) (hx : x < userTop) :
    CoreOS.userByte s (root * pageSize) x = CoreOS.userByte (s.lowerHalf root) (root * pageSize) x := by
  have hup : CoreOS.userByte ((s.lowerHalf root).withUpper root s.mem) (root * pageSize) x = _ := userByte_withUpper h hx
  rwa [s.lowerHalf_withUpper] at hup

variable {flags : MapFlags}

theorem UserHalf.mapPages_lower (h : UserHalf s root) (halign : start % pageSize = 0)
    (htop : start + n * pageSize ≤ userTop) : Phys.mapPages (root * pageSize) start flags seed n 0 s =
      (Phys.mapPages (root * pageSize) start flags seed n 0 (s.lowerHalf root)).map
        (Prod.map id fun t => t.withUpper root s.mem) := by
  have hup : Phys.mapPages (root * pageSize) start flags seed n 0 ((s.lowerHalf root).withUpper root s.mem) = _ :=
    mapPages_withUpper h halign (by rwa [Nat.zero_add])
  rwa [s.lowerHalf_withUpper] at hup

/-- **The mapping loop** on an address space with the kernel's half. -/
theorem UserHalf.mapPages {o : Option Nat} (h : UserHalf s root) (halign : start % pageSize = 0)
    (htop : start + n * pageSize ≤ userTop)
    (hm : Phys.mapPages (root * pageSize) start flags seed n 0 s = some (o, s')) :
    ∃ t', s' = t'.withUpper root s.mem ∧ o.getD n ≤ n ∧
      PagesMapped (s.lowerHalf root) t' root (PagesOf start 0 (o.getD n)) ∧ RangeMapped s s' root start (o.getD n) seed := by
  have htop0 : start + (0 + n) * pageSize ≤ userTop := by rwa [Nat.zero_add]
  rw [h.mapPages_lower halign htop] at hm
  obtain ⟨⟨o', t'⟩, ht', he⟩ := Option.map_eq_some_iff.mp hm
  obtain ⟨rfl, rfl⟩ : o' = o ∧ t'.withUpper root s.mem = s' := Prod.mk.inj he
  have hrange := mapPages_range h halign htop0 ht'
  rw [Nat.zero_add, Nat.zero_mul, Nat.add_zero] at hrange
  obtain ⟨⟨-, hle⟩, hpages, hbytes⟩ := hrange
  have hspace := hpages.space h
  have hend : start + o'.getD n * pageSize ≤ userTop :=
    Nat.le_trans (Nat.add_le_add_left (Nat.mul_le_mul_right _ hle) _) htop
  have hpm : ∀ {v}, PageNo.User v → CoreOS.pageMap (t'.withUpper root s.mem).mem root v =
      (pageEntry t'.mem root v).map leafMapping := by
    intro v hv
    rw [pageMap_withUpper hspace.wf hv, hspace.pageMap hv]
  refine ⟨t', rfl, hle, hpages, hspace.userHalf, fun x hx => ?_, fun v hv hout => ?_, fun v hv => ?_,
    fun g hg => hpages.writes.used hg,
    fun hapart => (hpages.writes.sharedUpper ⟨[], by simp, rfl⟩ hapart).sameKernelHalf⟩
  · rw [h.userByte hx, ← hbytes x hx]
    exact userByte_withUpper hspace hx
  · refine (hpm hv).trans ?_
    rw [h.pageMap hv, hpages.old v hout]
  · obtain ⟨e, he, hfree, -⟩ := hpages.new v hv
    refine ⟨leafFrame e, hfree, leafMapping e, (hpm (hv.user hend)).trans (by rw [he]; rfl), leafFrame_addr e⟩

/-! ### Frames that run out -/

/-- The lower half of an address space is as it was: its pages, the bytes a program
sees, and the frames in use but for new page tables. -/
structure SpaceUndone (s s' : Phys) (root : Nat) : Prop where
  half : UserHalf s' root
  pages : SameUserPages s s' root
  byte : ∀ x < userTop, userByte s' (root * pageSize) x = userByte s (root * pageSize) x
  free : ∀ g, s'.pmm.isFree g = true → s.pmm.isFree g = true
  table : ∀ g, Taken s s' g → IsTable (s'.lowerHalf root) root g

theorem SpaceUndone.refl (h : UserHalf s root) : SpaceUndone s s root where
  half := h
  pages := fun _ _ => rfl
  byte := fun _ _ => rfl
  free := fun _ hg => hg
  table := fun g hg => by
    have hused := hg.2
    rw [hg.1] at hused
    cases hused

theorem IsTable.lowerHalf {t : Phys} {g : Nat} (hw : WellFormed t root)
    (hup : ∀ i : Fin 512, 256 ≤ i.val → tables t.mem root i = 0) (h : IsTable t root g) :
    IsTable (t.lowerHalf root) root g := by
  obtain ⟨q, hq, hqg⟩ := h
  refine ⟨q, hq, ?_⟩
  cases q with
  | nil =>
    rw [tableAt, walk_nil] at hqg ⊢
    exact hqg
  | cons i p =>
    rw [List.length_cons] at hq
    by_cases hi : i.val < 256
    · exact (tableAt_withUpper hw hi (by omega)).trans hqg
    · rw [tableAt, walk_cons, hup i (by omega), tableChild_zero] at hqg
      cases hqg

theorem PagesUndone.withUpper (h : UserHalf s root) (hu : PagesUndone (s.lowerHalf root) t' root)
    (hk : SameKernelHalf (s.lowerHalf root).mem t'.mem root) : SpaceUndone s (t'.withUpper root s.mem) root where
  half := hu.space.userHalf
  pages := fun v hv => by
    rw [pageMap_withUpper hu.space.wf hv, hu.space.pageMap hv, hu.page v, h.pageMap hv]
  byte := fun x hx => by
    rw [userByte_withUpper hu.space hx, hu.byte x hx, h.userByte hx]
  free := hu.free
  table := fun g hg => by
    have hup : ∀ i : Fin 512, 256 ≤ i.val → tables t'.mem root i = 0 := by
      intro i hi
      rw [(hk [] i (by simp) (by simpa [UserPath] using hi)).2 root rfl, tables_lowerHalf_upper hi]
    unfold Phys.lowerHalf
    rw [withUpper_withUpper]
    exact (hu.table g hg).lowerHalf hu.space.wf hup

theorem UserHalf.translatePage {virt : Nat} (h : UserHalf s root) (hp : virt < userTop) :
    s.translatePage (root * pageSize) virt =
      (pageEntry (s.lowerHalf root).mem root (pageNo virt)).map fun e => leafFrame e * pageSize := by
  have hup : ((s.lowerHalf root).withUpper root s.mem).translatePage (root * pageSize) virt = _ :=
    translatePage_withUpper h.wf (pageNo_user hp)
  rw [s.lowerHalf_withUpper] at hup
  rw [hup, UserSpace.translatePage h (pageNo_user hp)]

theorem UserHalf.unmapped (h : UserHalf s root) (halign : start % pageSize = 0) (htop : start + n * pageSize ≤ userTop)
    (hnone : ∀ i < n, s.translatePage (root * pageSize) (start + i * pageSize) = none) :
    ∀ v, PagesOf start 0 n v → pageEntry (s.lowerHalf root).mem root v = none := by
  rintro v ⟨i, -, hi, rfl⟩
  have hlt : start + i * pageSize < userTop := by
    unfold pageSize at *
    omega
  have htr := hnone i hi
  rw [h.translatePage hlt] at htr
  exact Option.map_eq_none_iff.mp htr

/-- **The mapping loop undone** by the unmapping loop, for pages that were not
there. -/
theorem UserHalf.mapPages_unmapPages {o : Option Nat} (h : UserHalf s root) (halign : start % pageSize = 0)
    (htop : start + n * pageSize ≤ userTop)
    (hnone : ∀ i < o.getD n, s.translatePage (root * pageSize) (start + i * pageSize) = none)
    (hm : Phys.mapPages (root * pageSize) start flags seed n 0 s = some (o, s')) :
    SpaceUndone s (s'.unmapPages (root * pageSize) start (o.getD n)) root := by
  obtain ⟨t', rfl, hle, hpages, -⟩ := h.mapPages halign htop hm
  have hspace := hpages.space h
  have hend : start + o.getD n * pageSize ≤ userTop :=
    Nat.le_trans (Nat.add_le_add_left (Nat.mul_le_mul_right _ hle) _) htop
  rw [unmapPages_withUpper hspace halign hend]
  have hgone := unmapPages_range hspace halign hend
  have hundone := hpages.undone h hgone (h.unmapped halign hend hnone)
  exact hundone.withUpper h ((hpages.kernel fun v hv => hv.user hend).trans hgone.kernel)

theorem UserHalf.unmapPages_free (h : UserHalf s root) (halign : start % pageSize = 0)
    (htop : start + n * pageSize ≤ userTop)
    (hm : Phys.mapPages (root * pageSize) start flags seed n 0 s = some (none, s')) (g : Nat) :
    (s'.unmapPages (root * pageSize) start n).pmm.isFree g = true ↔ s'.pmm.isFree g = true ∨
      ∃ i < n, s'.translatePage (root * pageSize) (start + i * pageSize) = some (g * pageSize) := by
  obtain ⟨t', rfl, -, hpages, -⟩ := h.mapPages halign htop hm
  rw [Option.getD_none] at hpages
  have hspace := hpages.space h
  have htr : ∀ i < n, (t'.withUpper root s.mem).translatePage (root * pageSize) (start + i * pageSize) =
      (pageEntry t'.mem root (pageNo (start + i * pageSize))).map fun e => leafFrame e * pageSize := by
    intro i hi
    have hlt : start + i * pageSize < userTop := by
      unfold pageSize at *
      omega
    have halign' : (start + i * pageSize) % pageSize = 0 := by rw [Nat.add_mul_mod_self_right, halign]
    rw [translatePage_withUpper hspace.wf (pageNo_user hlt),
      hspace.translatePage (pageNo_user hlt)]
  rw [unmapPages_withUpper hspace halign htop]
  refine ((unmapPages_range hspace halign htop).free g).trans (or_congr_right ⟨?_, ?_⟩)
  · rintro ⟨-, -, v, e, ⟨i, -, hi, rfl⟩, he, rfl⟩
    exact ⟨i, hi, by rw [htr i hi, he]; rfl⟩
  · rintro ⟨i, hi, hg⟩
    rw [htr i hi] at hg
    obtain ⟨e, he, heg⟩ := Option.map_eq_some_iff.mp hg
    have hin : PagesOf start 0 n (pageNo (start + i * pageSize)) := ⟨i, Nat.zero_le i, hi, rfl⟩
    obtain ⟨h0, hlt, -⟩ := mem_avail.mp (hpages.frame hin he).1
    have hge : leafFrame e = g := Nat.eq_of_mul_eq_mul_right (by decide) heg
    exact ⟨hge ▸ h0, hge ▸ hlt, _, e, hin, he, hge⟩

end Half

end CoreOS
