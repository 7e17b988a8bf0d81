/-
What giving a page to an address space and writing to one of its pages change:
the bytes of which frames, and the bytes its program sees.
-/
import CoreOS.LowerHalf

namespace CoreOS

open ByteMem Radix

/-! ## The writes of `clone_user_address_space` -/

section Clone

variable {s s' : Phys} {g : Nat}

theorem Writes.mono {T T' : Nat → Prop} (h : Writes s s' T) (hT : ∀ g, T g → T' g) : Writes s s' T' :=
  ⟨h.free, h.lowest, fun x => (h.mem x).imp id (Or.imp (hT _) id)⟩

theorem Phys.Took.writes_trans {s1 : Phys} {f : Nat} (ht : Phys.Took s f 1 s1)
    (h : Writes s1 s' fun x => x = g ∨ x = f) : Writes s s' (· = g) :=
  ht.writes.trans h fun x hx => hx.imp id fun (hf : x = f) => hf ▸ ht.taken

variable {i : Nat}

theorem writeEntry_nat_writes {w : Word} (hi : i < 512) :
    Writes s (s.setMem (writeEntry s.mem (g * pageSize) i w)) (· = g) :=
  writeEntry_writes (i := ⟨i, hi⟩)

variable {src : Nat}

theorem copy_writes : Writes s (s.setMem (copy s.mem (g * pageSize) src 4096)) (· = g) := by
  refine .setMem fun x hx => copy_out ?_
  unfold pageSize at *
  omega

theorem Writes.foldlM {step : Phys → Nat → Option Phys} {n : Nat}
    (hstep : ∀ {s s' i}, i < n → step s i = some s' → Writes s s' (· = g)) :
    ∀ {is : List Nat} {s s' : Phys}, (∀ i ∈ is, i < n) → is.foldlM step s = some s' → Writes s s' (· = g)
  | [], _, _, _, h => by
    cases h
    exact .refl
  | i :: is, s, s', hi, h => by
    rw [List.foldlM_cons, Option.bind_eq_bind] at h
    obtain ⟨s1, h1, h2⟩ := Option.bind_eq_some_iff.mp h
    exact (hstep (hi i List.mem_cons_self) h1).trans
      (Writes.foldlM hstep (fun j hj => hi j (List.mem_cons_of_mem i hj)) h2) fun _ hg => .inl hg

theorem Writes.foldlM_range {step : Phys → Nat → Option Phys} {n : Nat} (hn : n ≤ 512)
    (hstep : ∀ {s s' i}, i < 512 → step s i = some s' → Writes s s' (· = g))
    (h : (List.range n).foldlM step s = some s') : Writes s s' (· = g) :=
  Writes.foldlM hstep (fun _ hi => by have := List.mem_range.mp hi; omega) h

theorem clonePte_writes (hi : i < 512) (h : Phys.clonePte src (g * pageSize) s i = some s') :
    Writes s s' (· = g) := by
  unfold Phys.clonePte at h
  dsimp only at h
  split at h
  · cases h
    exact .refl
  rcases s.allocFrame_cases with ⟨f, s1, hal, ht⟩ | ⟨hal, -⟩
  · rw [hal] at h
    split at h
    next h0 => exact absurd (congrArg Prod.fst h0) ht.addr_ne_zero
    next heq =>
      cases heq
      cases h
      refine ht.writes_trans ?_
      exact (copy_writes.mono fun _ hx => .inr hx).trans (writeEntry_nat_writes hi) fun _ hx => .inl (.inl hx)
  · rw [hal] at h
    cases h

theorem cloneTable_writes {inner : Nat → Nat → Phys → Option Phys} {entry : Word} (hi : i < 512)
    (hinner : ∀ {src g s s'}, inner src (g * pageSize) s = some s' → Writes s s' (· = g))
    (h : Phys.cloneTable inner (g * pageSize) i entry s = some s') : Writes s s' (· = g) := by
  unfold Phys.cloneTable at h
  rcases s.allocTable_cases with ⟨f, s1, hal, ht⟩ | ⟨hal, -⟩
  · rw [hal] at h
    refine ht.writes_trans ?_
    exact ((writeEntry_nat_writes hi).mono fun _ hx => .inl hx).trans (hinner h) fun _ hx => .inl (.inr hx)
  · rw [hal] at h
    cases h

theorem clonePt_writes (h : Phys.clonePt src (g * pageSize) s = some s') : Writes s s' (· = g) := by
  unfold Phys.clonePt at h
  exact Writes.foldlM_range (Nat.le_refl _) clonePte_writes h

theorem clonePd_writes (h : Phys.clonePd src (g * pageSize) s = some s') : Writes s s' (· = g) := by
  unfold Phys.clonePd at h
  refine Writes.foldlM_range (Nat.le_refl _) (fun hi h => ?_) h
  unfold Phys.clonePde at h
  dsimp only at h
  split at h
  · cases h
    exact .refl
  split at h
  · cases h
    exact writeEntry_nat_writes hi
  · exact cloneTable_writes hi clonePt_writes h

theorem clonePdpt_writes (h : Phys.clonePdpt src (g * pageSize) s = some s') : Writes s s' (· = g) := by
  unfold Phys.clonePdpt at h
  refine Writes.foldlM_range (Nat.le_refl _) (fun hi h => ?_) h
  unfold Phys.clonePdpte at h
  dsimp only at h
  split at h
  · cases h
    exact .refl
  · exact cloneTable_writes hi clonePd_writes h

theorem clonePml4e_writes (hi : i < 512) (h : Phys.clonePml4e src (g * pageSize) s i = some s') :
    Writes s s' (· = g) := by
  unfold Phys.clonePml4e at h
  dsimp only at h
  split at h
  · cases h
    exact .refl
  · exact cloneTable_writes hi clonePdpt_writes h

theorem copyKernelHalf_out {kernel x : Nat} (hx : x / pageSize ≠ g) : ∀ {is : List Nat} {mem : Mem}, (∀ i ∈ is, i < 512) →
    is.foldl (fun mem i => writeEntry mem (g * pageSize) i (entryAt mem kernel i)) mem x = mem x
  | [], _, _ => rfl
  | i :: is, mem, hi => by
    rw [List.foldl_cons, copyKernelHalf_out hx fun j hj => hi j (List.mem_cons_of_mem i hj)]
    exact writeEntry_out (i := ⟨i, hi i List.mem_cons_self⟩) hx

/-- **`clone_user_address_space` writes to frames it is handed out**, its root the
first of them. Without a frame the root is frame 0. -/
theorem cloneUserAddressSpace_writes {kernel pml4 : Nat} (h : s.cloneUserAddressSpace kernel src = some (pml4, s')) :
    (∃ f, pml4 = f * pageSize ∧ f ∈ s.avail ∧ Taken s s' f ∧ Writes s s' fun _ => False) ∨
      (pml4 = 0 ∧ s.avail = ∅ ∧ Writes s s' (· = 0)) := by
  unfold Phys.cloneUserAddressSpace Phys.cloneKernelAddressSpace at h
  have hroot : ∀ {f s1}, Writes s1 (s1.setMem ((List.range' 256 256).foldl
      (fun mem i => writeEntry mem (f * pageSize) i (entryAt mem kernel i)) (fill s1.mem (f * pageSize) 4096 0))) (· = f) := by
    intro f s1
    refine .setMem fun x hx => (copyKernelHalf_out hx fun i hi => ?_).trans (fill_out ?_)
    · have := List.mem_range'_1.mp hi
      omega
    · unfold pageSize at *
      omega
  rcases s.allocFrame_cases with ⟨f, s1, hal, ht⟩ | ⟨hal, hnone⟩
  · rw [hal] at h
    obtain ⟨s2, hs2, he⟩ := Option.map_eq_some_iff.mp h
    cases he
    have hrest := Writes.foldlM_range (by decide) clonePml4e_writes hs2
    have hw := hroot.trans hrest fun _ hx => .inl hx
    refine .inl ⟨f, rfl, ht.mem_avail, ⟨ht.taken.1, hw.used ht.taken.2⟩, ?_⟩
    exact ht.writes.trans hw fun _ hx => .inr (hx ▸ ht.taken)
  · rw [hal] at h
    obtain ⟨s2, hs2, he⟩ := Option.map_eq_some_iff.mp h
    cases he
    have hzero : (0 : Nat) = 0 * pageSize := (Nat.zero_mul _).symm
    refine .inr ⟨rfl, Phys.avail_eq_empty hnone, ?_⟩
    rw [hzero] at hs2
    exact hroot.trans (Writes.foldlM_range (by decide) clonePml4e_writes hs2) fun _ hx => .inl hx

end Clone

/-! ## What a program sees -/

/-- The byte of an address space at `a`, where `translate_page` says it is. -/
def userByte (s : Phys) (pml4 a : Nat) : Option Byte :=
  (s.translatePage pml4 (pageBase a)).map fun frame => s.mem (frame + a % pageSize)

theorem pageBase_aligned (n : Nat) : pageBase n % pageSize = 0 := by
  unfold pageBase pageSize
  omega

theorem pageNo_pageBase (a : Nat) : pageNo (pageBase a) = pageNo a := by
  unfold pageNo pageBase pageSize
  apply Fin.ext
  dsimp only
  omega

theorem pageNo_eq_iff {a page : Nat} (ha : a < userTop) (hp : page < userTop) (halign : page % pageSize = 0) :
    pageNo a = pageNo page ↔ page ≤ a ∧ a < page + pageSize := by
  have hval : pageNo a = pageNo page ↔ a / pageSize % 2 ^ 36 = page / pageSize % 2 ^ 36 := Fin.ext_iff
  rw [hval]
  unfold userTop pageSize at *
  omega

section Pages

variable {t t' t'' : Phys} {root : Nat} {v : PageNo}

theorem UserSpace.translatePage {virt : Nat} (h : UserSpace t root) (hv : (pageNo virt).User) :
    t.translatePage (root * pageSize) virt =
      (pageEntry t.mem root (pageNo virt)).map fun e => leafFrame e * pageSize := by
  rw [translatePage_map, pageMap, h.small _ hv]
  cases pageEntry t.mem root (pageNo virt) with
  | none => rfl
  | some e => exact congrArg some (leafFrame_addr e)

variable {a : Nat}

theorem UserSpace.userByte (h : UserSpace t root) (ha : a < userTop) : userByte t (root * pageSize) a =
    (pageEntry t.mem root (pageNo a)).map fun e => t.mem (leafFrame e * pageSize + a % pageSize) := by
  have hv : (pageNo (pageBase a)).User := pageNo_pageBase a ▸ pageNo_user ha
  unfold CoreOS.userByte
  rw [h.translatePage hv, pageNo_pageBase, Option.map_map]
  rfl

theorem userByte_withUpper {mem : Mem} (h : UserSpace t root) (ha : a < userTop) :
    userByte (t.withUpper root mem) (root * pageSize) a = userByte t (root * pageSize) a := by
  have hv : (pageNo (pageBase a)).User := pageNo_pageBase a ▸ pageNo_user ha
  unfold userByte
  rw [translatePage_withUpper h.wf hv, h.translatePage hv]
  cases he : pageEntry t.mem root (pageNo (pageBase a)) with
  | none => rfl
  | some e =>
    have hne : leafFrame e ≠ root := fun heq => h.noTable _ e [] hv he (by simp) (heq ▸ rfl)
    refine congrArg some (withUpper_out ?_)
    dsimp only
    unfold InUpper pageSize
    omega

/-! ## A new page -/

variable {e : Word}

theorem NewPage.userByte (h : NewPage t t' root v e) (hs : UserSpace t root) (ha : a < userTop) :
    userByte t' (root * pageSize) a = if pageNo a = v then some 0 else userByte t (root * pageSize) a := by
  rw [((PagesMapped.of_newPage h).space hs).userByte ha, hs.userByte ha, h.page]
  split
  · exact congrArg some (h.zero _ (Nat.mod_lt _ (by decide)))
  · cases hw : pageEntry t.mem root (pageNo a) with
    | none => rfl
    | some e' =>
      -- the frame of another page is no table and was not handed out
      rw [Option.map_some, Option.map_some]
      refine congrArg some ?_
      have hframe : (leafFrame e' * pageSize + a % pageSize) / pageSize = leafFrame e' := by
        unfold pageSize
        omega
      rcases h.writes.mem (leafFrame e' * pageSize + a % pageSize) with hx | hx | hx
      · exact hx
      · rw [hframe] at hx
        obtain ⟨q, hq, hqt⟩ := hx
        exact absurd hqt (hs.noTable _ e' q (pageNo_user ha) hw hq)
      · rw [hframe] at hx
        have := hx.1
        rw [hs.used _ e' (pageNo_user ha) hw] at this
        cases this

/-! ## A write to a page -/

variable {off : Nat} {bytes : List Byte}

theorem UserSpace.storePage (h : UserSpace t root) (hv : v.User) (he : pageEntry t.mem root v = some e)
    (hle : off + bytes.length ≤ pageSize) :
    UserSpace (t.setMem (store t.mem (leafFrame e * pageSize + off) bytes)) root ∧
      WellFormed.Same t.mem (store t.mem (leafFrame e * pageSize + off) bytes) root ∧
      Writes t (t.setMem (store t.mem (leafFrame e * pageSize + off) bytes)) (· = leafFrame e) := by
  have hout : ∀ x, x / pageSize ≠ leafFrame e → store t.mem (leafFrame e * pageSize + off) bytes x = t.mem x :=
    fun x hx => store_out (by unfold pageSize at *; omega)
  have hne : ¬ IsTable t root (leafFrame e) := fun ⟨q, hq, hqe⟩ => h.noTable _ e q hv he hq hqe
  exact ⟨(h.write hne hout).space, .of_frame hne hout, .setMem hout⟩

theorem userByte_store (h : UserSpace t root) (hv : v.User) (he : pageEntry t.mem root v = some e)
    (hle : off + bytes.length ≤ pageSize) (ha : a < userTop) :
    userByte (t.setMem (store t.mem (leafFrame e * pageSize + off) bytes)) (root * pageSize) a =
      if pageNo a = v ∧ off ≤ a % pageSize ∧ a % pageSize < off + bytes.length then bytes[a % pageSize - off]?
      else userByte t (root * pageSize) a := by
  obtain ⟨hspace, hsame, -⟩ := h.storePage hv he hle
  have hmod : a % pageSize < pageSize := Nat.mod_lt _ (by decide)
  rw [hspace.userByte ha, h.userByte ha]
  refine Eq.trans (congrArg (Option.map _) hsame.pageEntry) ?_
  cases hw : pageEntry t.mem root (pageNo a) with
  | none =>
    rw [if_neg]
    rfl
    rintro ⟨rfl, -⟩
    rw [he] at hw
    cases hw
  | some e' =>
    rw [Option.map_some, Option.map_some]
    dsimp only [Phys.setMem]
    split
    next hin =>
      obtain ⟨rfl, h1, h2⟩ := hin
      cases he.symm.trans hw
      rw [List.getElem?_eq_getElem (by omega)]
      refine congrArg some ?_
      rw [store, if_pos (by omega), List.getD_eq_getElem?_getD,
        show leafFrame e * pageSize + a % pageSize - (leafFrame e * pageSize + off) = a % pageSize - off by omega,
        List.getElem?_eq_getElem (by omega)]
      rfl
    next hnot =>
      refine congrArg some (store_out ?_)
      by_cases hpage : pageNo a = v
      · subst hpage
        cases he.symm.trans hw
        simp only [true_and, not_and, Nat.not_lt] at hnot
        by_cases hoff : off ≤ a % pageSize
        · have := hnot hoff
          omega
        · omega
      · have hne : leafFrame e' ≠ leafFrame e := fun heq => hpage (h.own _ _ e' e (pageNo_user ha) hv hw he heq)
        unfold pageSize at *
        omega

/-! ## Sequences of both -/

/-- The frame holds a table or a page of the address space. -/
def OwnFrame (t : Phys) (root g : Nat) : Prop :=
  IsTable t root g ∨ ∃ v e, PageNo.User v ∧ pageEntry t.mem root v = some e ∧ leafFrame e = g

/-- What an address space owns afterwards it owned before or was handed out, and
only such frames were written to. -/
structure SpaceStep (t t' : Phys) (root : Nat) : Prop where
  space : UserSpace t' root
  own : ∀ g, OwnFrame t' root g → OwnFrame t root g ∨ t.pmm.isFree g = true
  writes : Writes t t' (OwnFrame t root)

theorem UserSpace.own_used {g : Nat} (h : UserSpace t root) (hg : OwnFrame t root g) : t.pmm.isFree g = false := by
  rcases hg with ⟨q, hq, hqg⟩ | ⟨v, e, hv, he, rfl⟩
  · exact (h.wf.table q g hq hqg).2
  · exact h.used v e hv he

theorem SpaceStep.refl (h : UserSpace t root) : SpaceStep t t root := ⟨h, fun _ hg => .inl hg, .refl⟩

theorem SpaceStep.trans (h1 : SpaceStep t t' root) (h2 : SpaceStep t' t'' root) : SpaceStep t t'' root := by
  refine ⟨h2.space, fun g hg => ?_, h1.writes.trans h2.writes fun g hg => ?_⟩
  · rcases h2.own g hg with hg | hg
    · exact h1.own g hg
    · exact .inr (h1.writes.free g hg)
  · exact (h1.own g hg).imp id fun hfree => ⟨hfree, h1.space.own_used hg⟩

theorem NewPage.step (h : NewPage t t' root v e) (hs : UserSpace t root) : SpaceStep t t' root := by
  refine ⟨(PagesMapped.of_newPage h).space hs, fun g hg => ?_, h.writes.mono fun _ => .inl⟩
  rcases hg with ⟨q, hq, hqg⟩ | ⟨w, e', hw, he', rfl⟩
  · exact (h.table q g hq hqg).imp (fun hg => .inl ⟨q, hq, hg⟩) And.left
  · rw [h.page] at he'
    split at he'
    · cases he'
      exact .inr (mem_avail.mp h.frame).2.2
    · exact .inl (.inr ⟨w, e', hw, he', rfl⟩)

theorem UserSpace.storeStep (h : UserSpace t root) (hv : v.User) (he : pageEntry t.mem root v = some e)
    (hle : off + bytes.length ≤ pageSize) :
    SpaceStep t (t.setMem (store t.mem (leafFrame e * pageSize + off) bytes)) root := by
  obtain ⟨hspace, hsame, hwrites⟩ := h.storePage hv he hle
  refine ⟨hspace, fun g hg => .inl ?_, hwrites.mono fun _ hx => .inr ⟨v, e, hv, he, hx.symm⟩⟩
  rcases hg with ⟨q, hq, hqg⟩ | ⟨w, e', hw, he', rfl⟩
  · exact .inl ⟨q, hq, (hsame.tableAt (by omega)).symm.trans hqg⟩
  · exact .inr ⟨w, e', hw, hsame.pageEntry.symm.trans he', rfl⟩

end Pages

/-! ## The frames of an address space -/

/-- The frame is the root, a table or a 4 KiB page of the lower half of an address
space. -/
def UserFrame (mem : Mem) (root f : Nat) : Prop := ∃ p, UserPath p ∧ p.length ≤ 4 ∧ frameAt mem root p = some f

section Frames

variable {s s' t : Phys} {root f : Nat} {mem : Mem}

theorem pageEntry_of_frameAt {v : PageNo}
    (h : frameAt mem root (dirPath v ++ [dirIndex v 0]) = some f) :
    ∃ e, pageEntry mem root v = some e ∧ leafFrame e = f := by
  rw [frameAt, walk_snoc, walk_frameChild (by simp [dirPath])] at h
  obtain ⟨pt, hpt, h⟩ := Option.bind_eq_some_iff.mp h
  rw [frameChild, if_pos (by simp [dirPath])] at h
  split at h
  next hpres =>
    refine ⟨tables mem pt (dirIndex v 0), ?_, Option.some.inj h⟩
    rw [pageEntry, tableAt, hpt, Option.bind_some]
    exact if_pos hpres
  · cases h

theorem UserSpace.ownFrame (h : UserSpace t root) (hf : UserFrame (t.withUpper root mem).mem root f) : OwnFrame t root f := by
  obtain ⟨p, hp, hlen, hf⟩ := hf
  by_cases hlen3 : p.length ≤ 3
  · rw [frameAt_eq hlen3] at hf
    cases p with
    | nil =>
      rw [tableAt, walk_nil] at hf
      exact .inl ⟨[], by simp, by rw [tableAt, walk_nil, hf]⟩
    | cons i p =>
      rw [tableAt_withUpper h.wf (hp i rfl) (Nat.le_trans (Nat.le_succ _) hlen3)] at hf
      exact .inl ⟨i :: p, hlen3, hf⟩
  · obtain ⟨v, rfl⟩ := exists_page_of_path (show p.length = 4 by omega)
    have hv : v.User := hp _ rfl
    obtain ⟨e, he, hf⟩ := pageEntry_of_frameAt hf
    rw [pageEntry_withUpper h.wf hv] at he
    exact .inr ⟨v, e, hv, he, hf⟩

theorem UserHalf.userFrame_iff (h : UserHalf s root) : UserFrame s.mem root f ↔ OwnFrame (s.lowerHalf root) root f := by
  constructor
  · intro hf
    rw [← s.lowerHalf_withUpper root] at hf
    exact UserSpace.ownFrame h hf
  · rintro (⟨q, hq, hf⟩ | ⟨v, e, hv, he, rfl⟩)
    · cases q with
      | nil =>
        rw [tableAt, walk_nil] at hf
        exact ⟨[], by simp [UserPath], by simp, by rw [frameAt, walk_nil, hf]⟩
      | cons i q =>
        have hi : i.val < 256 := by
          by_contra hi
          rw [tableAt, walk_cons, tables_lowerHalf_upper (by omega), tableChild_zero] at hf
          cases hf
        have hup : tableAt ((s.lowerHalf root).withUpper root s.mem).mem root (i :: q) = _ :=
          tableAt_withUpper h.wf hi (Nat.le_trans (Nat.le_succ _) hq)
        rw [s.lowerHalf_withUpper, hf] at hup
        refine ⟨i :: q, fun j hj => ?_, by omega, (frameAt_eq hq).trans hup⟩
        rw [List.head?_cons, Option.mem_some_iff] at hj
        exact hj ▸ hi
    · have hup : pageEntry ((s.lowerHalf root).withUpper root s.mem).mem root v = _ := pageEntry_withUpper h.wf hv
      rw [s.lowerHalf_withUpper, he] at hup
      exact ⟨_, hv.path, by simp [dirPath], frameAt_page hup⟩

theorem UserHalf.userFrame_used (h : UserHalf s root) (hf : UserFrame s.mem root f) : s.pmm.isFree f = false :=
  UserSpace.own_used (t := s.lowerHalf root) h (h.userFrame_iff.mp hf)

theorem UserHalf.inUse (h : UserHalf s root) : InUse s root := by
  refine ⟨fun p f hp hlen hf => h.userFrame_used ⟨p, hp, hlen, hf⟩, fun v e hv he => ?_⟩
  have hup : hugeEntry ((s.lowerHalf root).withUpper root s.mem).mem root v = _ := hugeEntry_withUpper h.wf hv
  rw [s.lowerHalf_withUpper, h.small v hv, he] at hup
  cases hup

theorem UserHalf.sourceTable (h : UserHalf s root) : SourceTable s 3 256 root := by
  refine h.inUse.sourceTable fun p f hp hlen hf => ?_
  have hframe : UserFrame s.mem root f := ⟨p, hp, by omega, (frameAt_eq hlen).trans hf⟩
  rcases h.userFrame_iff.mp hframe with ⟨q, hq, hqf⟩ | ⟨v, e, hv, he, rfl⟩
  · exact (h.wf.table q f hq hqf).1
  · -- a frame that holds a page is no table
    rcases p with _ | ⟨i, p⟩
    · rw [tableAt, walk_nil] at hf
      exact absurd (by rw [tableAt, walk_nil, hf]) (h.noTable v e [] hv he (by simp))
    · have hup : tableAt ((s.lowerHalf root).withUpper root s.mem).mem root (i :: p) = _ :=
        tableAt_withUpper h.wf (hp i rfl) (Nat.le_trans (Nat.le_succ _) hlen)
      rw [s.lowerHalf_withUpper, hf] at hup
      exact absurd hup.symm (h.noTable v e (i :: p) hv he hlen)

end Frames

end CoreOS
