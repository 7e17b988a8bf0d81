/-
What `load_into` makes of an address space: when it returns at all, which memory it
writes to, and the image that a program finds.
-/
import CoreOS.ElfLoad

namespace CoreOS

open ByteMem Radix

/-! ## Fresh address spaces -/

/-- An address space as `clone_kernel_address_space` returns it. -/
structure FreshSpace (s : Phys) (root : Nat) : Prop where
  lt : root < maxFrames
  used : s.pmm.isFree root = false
  empty : ∀ i : Fin 512, i.val < 256 → tables s.mem root i = 0

namespace FreshSpace

variable {s : Phys} {root : Nat}

theorem lowerHalf_tables (h : FreshSpace s root) (i : Fin 512) : tables (s.lowerHalf root).mem root i = 0 := by
  by_cases hi : i.val < 256
  · exact (tables_withUpper (.inr hi)).trans (h.empty i hi)
  · exact tables_lowerHalf_upper (by omega)

theorem userSpace (h : FreshSpace s root) : UserSpace (s.lowerHalf root) root :=
  .of_empty h.lt h.used h.lowerHalf_tables

theorem ownFrame (h : FreshSpace s root) {g : Nat} (hg : OwnFrame (s.lowerHalf root) root g) : g = root := by
  rcases hg with ⟨q, -, hq⟩ | ⟨v, e, -, he, -⟩
  · exact (tableAt_of_empty h.lowerHalf_tables hq).2
  · rw [UserSpace.pageEntry_of_empty h.lowerHalf_tables v] at he
    cases he

theorem userByte_lowerHalf (h : FreshSpace s root) {a : Nat} (ha : a < userTop) :
    userByte (s.lowerHalf root) (root * pageSize) a = none := by
  rw [h.userSpace.userByte ha, UserSpace.pageEntry_of_empty h.lowerHalf_tables, Option.map_none]

theorem supply (h : FreshSpace s root) : (s.lowerHalf root).supply root = .empty s.avail.card := by
  refine Supply.ext (funext fun v => funext fun d => ?_) (funext fun v => ?_) ?_
  · refine Option.isSome_eq_false_iff.mpr (Option.isNone_iff_eq_none.mpr ?_)
    by_contra hne
    obtain ⟨f, hf⟩ := Option.ne_none_iff_exists'.mp hne
    exact absurd (tableAt_of_empty h.lowerHalf_tables hf).1 (by simp [dirPath])
  · simp only [Phys.supply, Supply.empty, UserSpace.pageEntry_of_empty h.lowerHalf_tables v, Option.isSome_none]
  · rw [supply_free]
    simp only [Supply.empty]
    exact congrArg Finset.card (Phys.avail_of_pmm rfl)

end FreshSpace

/-! ## The loader returns -/

/-- The kernel's tables are in use, and none of them is a frame of the lower half. -/
def KernelClear (s : Phys) (root : Nat) : Prop :=
  ∀ i p f, 256 ≤ Fin.val i → p.length ≤ 2 → tableAt s.mem root (i :: p) = some f →
    s.pmm.isFree f = false ∧ ¬ OwnFrame (s.lowerHalf root) root f

/-- The pages that are there. -/
def pageThere (mem : Mem) (root : Nat) (v : PageNo) : Bool := (pageMap mem root v).isSome

theorem UserHalf.halves {s : Phys} {root : Nat} (h : UserHalf s root) :
    Halves (s.lowerHalf root) root s.mem (pageThere s.mem root) (KernelClear s root) := by
  refine ⟨h, fun hclear t' hstep v hv => ?_⟩
  rw [(hstep.writes.sharedUpper (.inl ⟨[], by simp, rfl⟩) hclear).pageMap hv]
  rfl

theorem onePage_steps : fileSteps onePage = [some onePageSegment] := by
  unfold fileSteps
  rw [onePage_header]
  dsimp only
  unfold ElfHeader.steps
  rw [if_neg (by rw [onePage_length]; decide), onePage_programHeader]
  dsimp only
  rw [if_neg (by decide), if_neg]
  · rfl
  · unfold ProgramHeader.InFile
    rw [onePage_length]
    decide

theorem onePage_inUser (apart : Prop) (x : Supply) : SegmentsInUser apart onePage x := by
  constructor
  rw [onePage_steps]
  refine ⟨fun p hp => ?_, fun _ _ => trivial⟩
  cases hp
  exact ⟨⟨.inl (by decide), fun _ _ => trivial⟩, fun _ _ => ⟨.inl (by decide), fun _ _ => trivial⟩⟩

/-- The kernel's tables under the upper half of its root table are in use. -/
def KernelTablesUsed (s : Phys) (kernel : Nat) : Prop :=
  ∀ q j f, q.length ≤ 3 → ¬ UserPath (q ++ [j]) → tableAt s.mem kernel q = some f → s.pmm.isFree f = false

theorem KernelTablesUsed.sharedUpper {s : Phys} {mem : Mem} {kernel root : Nat} (h : KernelTablesUsed s kernel)
    (hw : ∀ x, mem x ≠ s.mem x → s.pmm.isFree (x / pageSize) = true)
    (hrow : ∀ i : Fin 512, 256 ≤ i.val → tables mem root i = tables s.mem kernel i) : SharedUpper s.mem mem kernel root := by
  refine ⟨hrow, fun i p f hi hp hf => tables_congr fun x h1 h2 => ?_⟩
  by_contra hne
  have hfree := hw x hne
  rw [show x / pageSize = f by unfold pageSize at *; omega,
    h (i :: p) 0 f (by rw [List.length_cons]; omega) (by simpa [UserPath] using hi) hf] at hfree
  cases hfree

/-- What there is for a new program: the kernel's pages, and a frame less. -/
def freshSupply (s : Phys) (kernel : Nat) : Supply := (Supply.empty (s.avail.card - 1)).beside (pageThere s.mem kernel)

/-- A new root table, with the upper half of the kernel's. -/
structure KernelCopy (s s1 : Phys) (kernel new : Nat) : Prop where
  free : s.pmm.isFree new = true
  grown : Grown s s1 new {new}
  row : ∀ i : Fin 512, tables s1.mem new i = if 256 ≤ i.val then tables s.mem kernel i else 0

namespace KernelCopy

variable {s s1 t' : Phys} {kernel new : Nat} {data : List Byte} (h : KernelCopy s s1 kernel new)
include h

theorem freshSpace : FreshSpace s1 new := by
  have hfresh := h.grown.fresh (Finset.mem_singleton_self new)
  refine ⟨(PmmState.mem_freeSet.mp (Finset.mem_of_mem_erase hfresh)).1, ?_, fun i hi => ?_⟩
  · by_contra hne
    rw [Bool.not_eq_false, h.grown.free] at hne
    exact hne.2 (Finset.mem_singleton_self new)
  · rw [h.row i, if_neg (by omega)]

theorem writes_taken (hstep : SpaceStep (s1.lowerHalf new) t' new) (x : Nat)
    (hx : (t'.withUpper new s1.mem).mem x ≠ s.mem x) : Taken s (t'.withUpper new s1.mem) (x / pageSize) := by
  have hnew : t'.pmm.isFree new = false := hstep.writes.used h.freshSpace.used
  by_cases hroot : x / pageSize = new
  · rw [hroot]
    exact ⟨h.free, hnew⟩
  · have hout : ¬ InUpper new x := by
      unfold InUpper
      unfold pageSize at *
      omega
    have hsame : (s1.lowerHalf new).mem x = s.mem x :=
      (withUpper_out hout).trans (h.grown.mem x hroot fun h => hroot (Finset.mem_singleton.mp h))
    rw [withUpper_out hout, ← hsame] at hx
    rcases hstep.writes.mem x with heq | hown | ⟨hf, hu⟩
    · exact absurd heq hx
    · exact absurd (h.freshSpace.ownFrame hown) hroot
    · exact ⟨((h.grown.free _).mp hf).1, hu⟩

theorem upperRow (t' : Phys) {i : Fin 512} (hi : 256 ≤ i.val) :
    tables (t'.withUpper new s1.mem).mem new i = tables s.mem kernel i := by
  have hlt := i.isLt
  have hupper : tables (t'.withUpper new s1.mem).mem new i = tables s1.mem new i := by
    refine loadWord_congr fun x h1 h2 => withUpper_in ?_
    unfold InUpper pageSize at *
    omega
  rw [hupper, h.row i, if_pos hi]

theorem halves : Halves (s1.lowerHalf new) new s1.mem (pageThere s.mem kernel) (KernelTablesUsed s kernel) := by
  refine ⟨h.freshSpace.userSpace, fun hused t' hstep v hv => ?_⟩
  rw [(hused.sharedUpper (fun x hx => (h.writes_taken hstep x hx).1) fun i hi => h.upperRow t' hi).pageMap hv]
  rfl

/-- **Loading a file** into a fresh address space. -/
theorem loading (hlen : data.length ≤ isizeMax) (hp : ¬ HeadersPanic data)
    (hin : SegmentsInUser (KernelTablesUsed s kernel) data (freshSupply s kernel)) :
    Loading (s1.lowerHalf new) new s1.mem (pageThere s.mem kernel) (fun _ _ => True)
      (s1.loadInto (new * pageSize) data) (loadSupply data (freshSupply s kernel)) := by
  have hcard := h.grown.card
  have hsupply : freshSupply s kernel = ((s1.lowerHalf new).supply new).beside (pageThere s.mem kernel) := by
    rw [h.freshSpace.supply, freshSupply, ← hcard, Finset.card_singleton, Nat.add_sub_cancel]
  rw [hsupply] at hin ⊢
  have hloading := loadInto_loading hlen hp h.halves hin
  rw [s1.lowerHalf_withUpper] at hloading
  exact hloading.after (.refl h.halves.space) fun _ _ _ => trivial

end KernelCopy

/-! ## What is written -/

/-- **Loading an executable writes to fresh frames only**, as long as there is a frame
for the root table, and the loader adds no page to the kernel's half and copies to none
of its pages. The kernel's half of the page tables stays as it is, and the new root
table has it. -/
theorem load_writes_fresh (s : Phys) (kernel : Nat) (data : List Byte) (hlen : data.length ≤ isizeMax)
    (hk : s.pmm.isFree kernel = false) (havail : s.avail ≠ ∅)
    (hin : SegmentsInUser (KernelTablesUsed s kernel) data (freshSupply s kernel)) (r : Except ElfError LoadedImage)
    (s' : Phys) (hl : s.loadFresh (kernel * pageSize) data = some (r, s')) :
    (∀ x, s'.mem x ≠ s.mem x → Taken s s' (x / pageSize)) ∧
    (KernelTablesUsed s kernel → SameKernelHalf s.mem s'.mem kernel) ∧
    ∀ i : Fin 512, 256 ≤ i.val →
      entryAt s'.mem (s.cloneKernelAddressSpace (kernel * pageSize)).1 i = entryAt s.mem (kernel * pageSize) i := by
  obtain ⟨new, s1, hclone, hfree, hg, hrow⟩ := cloneKernelAddressSpace_spec hk havail
  have hcopy : KernelCopy s s1 kernel new := ⟨hfree, hg, hrow⟩
  unfold Phys.loadFresh at hl
  rw [hclone] at hl ⊢
  dsimp only at hl ⊢
  have hp : ¬ HeadersPanic data := fun hp => by
    rw [hp.loadInto] at hl
    cases hl
  obtain ⟨t', rfl, hstep⟩ := (hcopy.loading hlen hp hin).step hl
  have hwrites := hcopy.writes_taken hstep
  refine ⟨hwrites, fun hused => ?_, fun i hi => hcopy.upperRow t' hi⟩
  have hrow' : ∀ i : Fin 512, 256 ≤ i.val → tables (t'.withUpper new s1.mem).mem kernel i = tables s.mem kernel i := by
    refine fun i _ => congrFun (tables_congr fun x h1 h2 => ?_) i
    by_contra hne
    have hfree := (hwrites x hne).1
    rw [show x / pageSize = kernel by unfold pageSize at *; omega, hk] at hfree
    cases hfree
  exact (hused.sharedUpper (fun x hx => (hwrites x hx).1) hrow').sameKernelHalf

/-- A file of one page is loaded next to an empty kernel. -/
theorem load_writes_fresh_onePage : KernelTablesUsed emptyTree 1 ∧
    ∃ r s', emptyTree.loadFresh 0x1000 onePage = some (r, s') ∧
      (∀ x, s'.mem x ≠ emptyTree.mem x → Taken emptyTree s' (x / pageSize)) ∧
      SameKernelHalf emptyTree.mem s'.mem 1 := by
  have hused : KernelTablesUsed emptyTree 1 := by
    intro q j f _ _ hf
    rw [(tableAt_of_empty (emptyTree_tables 1) hf).2]
    decide
  have havail : emptyTree.avail ≠ ∅ := by
    intro h
    have := emptyTree_avail
    rw [h, Finset.card_empty] at this
    exact absurd this (by decide)
  have hlen : onePage.length ≤ isizeMax := by rw [onePage_length]; decide
  have hcard := emptyTree.cloneKernelAddressSpace_frames (1 * pageSize)
  rw [emptyTree_avail] at hcard
  obtain ⟨r, s', hload, -⟩ := (emptyTree.cloneKernelAddressSpace (1 * pageSize)).2.loadInto_returns
    (emptyTree.cloneKernelAddressSpace (1 * pageSize)).1 0 hlen onePage_headers
    (.inr (by rw [onePage_loadFrames]; unfold maxFrames at hcard; omega))
  have hrun : emptyTree.loadFresh (1 * pageSize) onePage = some (r, s') := hload
  obtain ⟨hwrites, hkernel, -⟩ :=
    load_writes_fresh emptyTree 1 onePage hlen (by decide) havail (onePage_inUser _ _) r s' hrun
  exact ⟨hused, r, s', hrun, hwrites, hkernel hused⟩

/-- A kernel whose slot `288` leads to an empty table in frame `2`. -/
def sharedTable : Phys where
  pmm := { bitmap := fun i => if i = 0 then 7 else 0, totalFrames := maxFrames, freeFrames := maxFrames - 3 }
  mem := writeEntry (fun _ => 0) 0x1000 288 0x2003

/-- A segment without bytes in the file, under that slot. -/
def kernelSegment : ProgramHeader := ⟨ptLoad, 0, 0xFFFF900000000000, 0, 8⟩

theorem loadInto_zeros {s s' : Phys} {pml4 : Nat} {p : ProgramHeader} (hf : p.Fits) (hload : p.Loads) (hsize : p.filesz = 0)
    (hoff : p.offset = 0) (hmap : Phys.mapSegment pml4 p.pages p.pageStart s = some (.ok (), s')) :
    s.loadInto pml4 (elfFile 0 [p] []) = some (.ok ⟨0, 0, 56, 1⟩, s') := by
  have hfits : ∀ q ∈ [p], q.Fits := fun q hq => List.mem_singleton.mp hq ▸ hf
  have hone : [p].length < 2 ^ 16 := Nat.one_lt_two_pow (by decide)
  have hheader : validateHeader (elfFile 0 [p] []) = some (.ok (elfFileHeader 0 [p])) :=
    validateHeader_elfFile hone [] (by decide) (by simp)
  have hp : (elfFileHeader 0 [p]).programHeader (elfFile 0 [p] []) 0 = some p := programHeader_elfFile hone [] hfits rfl
  have hlen : (elfFile 0 [p] []).length = 120 := rfl
  have hseg : Phys.loadSegment pml4 (elfFile 0 [p] []) p s = some (.ok (), s') := by
    unfold Phys.loadSegment
    rw [hmap]
    dsimp only
    rw [if_pos hsize]
  have hfile : p.InFile (elfFile 0 [p] []) := by
    unfold ProgramHeader.InFile
    rw [hsize, hoff, hlen]
    decide
  have hend : ¬ (elfFile 0 [p] []).length < (elfFileHeader 0 [p]).phEnd 0 := by
    rw [hlen, show (elfFileHeader 0 [p]).phEnd 0 = 120 from rfl]
    decide
  have hno : ¬ p.HoldsHeaders (elfFileHeader 0 [p]).phoff := by
    unfold ProgramHeader.HoldsHeaders
    omega
  unfold Phys.loadInto
  rw [hheader]
  dsimp only
  rw [show (elfFileHeader 0 [p]).phnum = 0 + 1 from rfl, Phys.loadSegments, if_neg hend, hp]
  dsimp only
  rw [if_neg (not_not.mpr hload), if_neg (not_not.mpr hfile), hseg, if_neg fun h => hno h.2]
  rfl

theorem loadFresh_no_frame {s : Phys} {kernelPml4 : Nat} {data : List Byte} {e : ElfError} (h : s.avail = ∅)
    (hv : validateHeader data = some (.error e)) :
    s.loadFresh kernelPml4 data = some (.error e, s.setMem ((List.range' 256 256).foldl
      (fun mem i => writeEntry mem 0 i (entryAt mem kernelPml4 i)) (fill s.mem 0 4096 0))) := by
  unfold Phys.loadFresh Phys.cloneKernelAddressSpace Phys.loadInto
  rcases s.allocFrame_cases with ⟨new, s1, -, ht⟩ | ⟨hal, -⟩
  · have := ht.avail_card
    rw [h, Finset.card_empty] at this
    omega
  · rw [hal, hv]

/-- **Loading an executable writes to the kernel's memory**: a segment in the upper
half gets a table under the kernel's, and without a free frame the root table
is made in frame `0`. -/
theorem load_into_kernel_half :
    (sharedTable.pmm.isFree 2 = false ∧ ∃ image s',
      sharedTable.loadFresh 0x1000 (elfFile 0 [kernelSegment] []) = some (.ok image, s') ∧
        s'.mem 0x2000 ≠ sharedTable.mem 0x2000 ∧ ¬ SameKernelHalf sharedTable.mem s'.mem 1) ∧
    ∃ s', Phys.loadFresh ⟨.new, fun _ => 1⟩ 0x1000 [] = some (.error .tooSmall, s') ∧ s'.mem 0 = 0 := by
  constructor
  · have hrun : (Phys.mapSegment (sharedTable.cloneKernelAddressSpace 0x1000).1 kernelSegment.pages kernelSegment.pageStart
        (sharedTable.cloneKernelAddressSpace 0x1000).2).map
          (fun x => (x.1.toOption, x.2.mem 0x2000, entryAt x.2.mem 0x2000 0)) = some (some (), 7, 0x5007) := by
      decide +kernel
    obtain ⟨⟨r, s'⟩, hmap, he⟩ := Option.map_eq_some_iff.mp hrun
    obtain ⟨hr, he⟩ := Prod.mk.inj he
    obtain ⟨hbyte, hentry⟩ := Prod.mk.inj he
    cases r with
    | error e => cases hr
    | ok u =>
    have hfits : kernelSegment.Fits := ⟨by decide, by decide, by decide, by decide, by decide⟩
    have hload := loadInto_zeros hfits (by decide) rfl rfl hmap
    refine ⟨by decide, ⟨0, 0, 56, 1⟩, s', hload, ?_, fun hsame => ?_⟩
    · rw [hbyte]
      decide +kernel
    · have htable : tableAt sharedTable.mem 1 [288] = some 2 := by decide +kernel
      have h := (hsame [288] 0 (by decide) (by simp [UserPath])).2 2 htable
      rw [show tables s'.mem 2 0 = 0x5007 from hentry] at h
      exact absurd h (by decide +kernel)
  · have hnone : Phys.avail ⟨.new, fun _ => 1⟩ = ∅ := by
      rw [Phys.avail, PmmState.new_freeSet, Finset.erase_empty]
    have hvalid : validateHeader [] = some (.error .tooSmall) := rfl
    exact ⟨_, loadFresh_no_frame hnone hvalid, by decide +kernel⟩

/-! ## The image -/

section Image

variable {data : List Byte} {ps : List ProgramHeader} {p : ProgramHeader} {a phoff : Nat}

theorem Supply.run_want {vs : List PageNo} {x : Supply} {m : Nat} (h : 4 * vs.length + m ≤ x.free) :
    ∃ y, Supply.run Supply.want vs x = some (some y) ∧ m ≤ y.free ∧ ∀ v, x.page v = true ∨ v ∈ vs → y.page v = true := by
  induction vs generalizing x with
  | nil => exact ⟨x, rfl, by simpa using h, fun v hv => hv.resolve_right (by simp)⟩
  | cons w vs ih =>
    rw [List.length_cons] at h
    obtain ⟨x1, hx1, hfree, hpage⟩ : ∃ x1, x.want w = some (some x1) ∧ 4 * vs.length + m ≤ x1.free ∧
        ∀ v, x.page v = true ∨ v = w → x1.page v = true := by
      unfold Supply.want
      split
      next hw => exact ⟨x, rfl, by omega, fun v hv => hv.elim id fun heq => heq ▸ hw⟩
      · have hmissing : x.missing w ≤ 3 := List.countP_le_length
        rw [Supply.give, if_neg (by omega), if_pos (by omega)]
        exact ⟨_, rfl, by dsimp only; omega, fun v hv => by simpa using hv⟩
    obtain ⟨y, hy, hyfree, hypage⟩ := ih hfree
    refine ⟨y, by rw [Supply.run, hx1]; exact hy, hyfree, fun v hv => hypage v ?_⟩
    rw [List.mem_cons, ← or_assoc] at hv
    exact hv.imp (hpage v) id

theorem Supply.Along.of_forall {β : Type} {P : Supply → β → Prop} {step : Supply → β → Option (Option Supply)} {as : List β}
    (h : ∀ a ∈ as, ∀ x, P x a) (x : Supply) : Supply.Along P step as x := by
  induction as generalizing x with
  | nil => trivial
  | cons a as ih => exact ⟨h a List.mem_cons_self x, fun y _ => ih (fun b hb => h b (List.mem_cons_of_mem a hb)) y⟩

theorem CopyAt.copyPages {vaddr len copied page : Nat} (h : CopyAt vaddr len copied page) (htop : vaddr + len ≤ userTop)
    (fuel : Nat) : ∀ v ∈ copyPages vaddr len fuel copied page, ∃ a, vaddr ≤ a ∧ a < vaddr + len ∧ v = pageNo a := by
  induction fuel generalizing copied page with
  | zero => exact fun v hv => absurd hv List.not_mem_nil
  | succ fuel ih =>
    unfold CoreOS.copyPages
    split
    next hlt =>
      dsimp only
      rw [h.pageOff hlt]
      refine List.forall_mem_cons.mpr ⟨⟨vaddr + copied, Nat.le_add_right .., by omega, ?_⟩, ih (h.next hlt htop)⟩
      rw [(h hlt).1, pageNo_pageBase]
    · exact fun v hv => absurd hv List.not_mem_nil

namespace ProgramHeader.Below

theorem copied (h : p.Below) : ∀ v ∈ p.copied, ∃ a, p.vaddr ≤ a ∧ a < p.vaddr + p.filesz ∧ v = pageNo a := by
  refine CopyAt.copyPages (fun _ => ⟨rfl, .inl rfl⟩) ?_ p.filesz
  unfold ProgramHeader.Below at h
  omega

theorem inUser (h : p.Below) (apart : Prop) (x : Supply) : p.InUser apart x := by
  refine ⟨Supply.Along.of_forall (fun v hv _ => .inl ?_) x, fun y _ => Supply.Along.of_forall (fun v hv _ => .inl ?_) y⟩
  · obtain ⟨j, hj, rfl⟩ := List.mem_map.mp hv
    have htop := h.pages.1
    rw [List.mem_range'_1] at hj
    refine pageNo_user ?_
    unfold pageSize at *
    omega
  · obtain ⟨a, -, ha, rfl⟩ := h.copied v hv
    refine pageNo_user ?_
    unfold ProgramHeader.Below at h
    omega

theorem supply {x : Supply} {m : Nat} (h : p.Below) (hle : p.filesz ≤ p.memsz) (hfree : 4 * p.pages + m ≤ x.free) :
    ∃ y, p.supply x = some (some y) ∧ m ≤ y.free := by
  have hlen : p.mapped.length = p.pages := by simp [mapped, pageRange]
  rw [← hlen] at hfree
  obtain ⟨y, hy, hyfree, hypage⟩ := Supply.run_want hfree
  refine ⟨y, ?_, hyfree⟩
  rw [ProgramHeader.supply, hy]
  refine (Supply.run_touch y p.copied).trans (congrArg some (if_pos (List.all_eq_true.mpr fun v hv => hypage v (.inr ?_))))
  obtain ⟨a, hstart, hend, rfl⟩ := h.copied v hv
  obtain ⟨-, hbase, -, hlast⟩ := h.pages
  have htop := h
  unfold ProgramHeader.Below at htop
  exact (h.mem_mapped (by omega)).mpr ⟨by omega, by omega⟩

end ProgramHeader.Below

/-- A file with all it says it has. -/
theorem ElfHeader.steps_eq {hd : ElfHeader} {i n : Nat}
    (hheaders : ∀ j, i ≤ j → j < i + n → hd.phEnd j ≤ data.length ∧ ∃ p, hd.programHeader data j = some p)
    (hfile : ∀ p ∈ hd.segmentsFrom data i n, p.InFile data) :
    hd.steps data i n = (hd.segmentsFrom data i n).map some := by
  induction n generalizing i with
  | zero => rfl
  | succ n ih =>
    obtain ⟨hend, p, hp⟩ := hheaders i (by omega) (by omega)
    have hnext := fun hf => ih (i := i + 1) (fun j h1 h2 => hheaders j (by omega) (by omega)) hf
    rw [ElfHeader.segmentsFrom_succ hp] at hfile ⊢
    unfold steps
    rw [if_neg (by omega), hp]
    dsimp only
    by_cases hload : p.Loads
    · rw [if_pos hload] at hfile ⊢
      rw [if_neg (not_not.mpr hload), if_neg (not_not.mpr (hfile p List.mem_cons_self)),
        hnext fun q hq => hfile q (List.mem_cons_of_mem p hq), List.map_cons]
    · rw [if_neg hload] at hfile ⊢
      rw [if_pos hload, hnext hfile]

theorem Supply.run_segments {x : Supply} (h : ∀ p ∈ ps, p.Below ∧ p.filesz ≤ p.memsz) (hfree : framesFor ps ≤ x.free) :
    ∃ y, Supply.run Supply.segment (ps.map some) x = some (some y) := by
  induction ps generalizing x with
  | nil => exact ⟨x, rfl⟩
  | cons p ps ih =>
    rw [framesFor_cons] at hfree
    obtain ⟨hb, hle⟩ := h p List.mem_cons_self
    obtain ⟨y, hy, hyfree⟩ := hb.supply hle hfree
    obtain ⟨z, hz⟩ := ih (fun q hq => h q (List.mem_cons_of_mem p hq)) hyfree
    exact ⟨z, by rw [List.map_cons, Supply.run, Supply.segment, hy]; exact hz⟩

/-- The bytes of the two segments in memory are apart; their pages need not be. -/
def ProgramHeader.Apart (p q : ProgramHeader) : Prop := p.vaddr + p.memsz ≤ q.vaddr ∨ q.vaddr + q.memsz ≤ p.vaddr

instance : DecidableRel ProgramHeader.Apart := fun _ _ => inferInstanceAs (Decidable (_ ∨ _))

theorem loaded_of_not_mem (data : List Byte) (b : Option Byte) (h : ¬ (p.vaddr ≤ a ∧ a < p.vaddr + p.filesz)) :
    p.loaded data a b = some (b.getD 0) ∨ p.loaded data a b = b := by
  rw [ProgramHeader.loaded, if_neg h]
  split
  · exact .inl rfl
  · exact .inr rfl

theorem loadedAll_of_not_mem (data : List Byte) (h : ∀ p ∈ ps, ¬ (p.vaddr ≤ a ∧ a < p.vaddr + p.filesz)) (b : Option Byte) :
    loadedAll data ps a b = some (b.getD 0) ∨ loadedAll data ps a b = b := by
  induction ps generalizing b with
  | nil => exact .inr rfl
  | cons p ps ih =>
    have hps := ih fun q hq => h q (List.mem_cons_of_mem p hq)
    unfold loadedAll at hps ⊢
    rw [List.foldl_cons]
    rcases loaded_of_not_mem data b (h p List.mem_cons_self) with he | he
    · rw [he]
      exact .inl ((hps (some (b.getD 0))).elim id id)
    · rw [he]
      exact hps b

/-- **The byte of a segment** once all segments are loaded, when they are apart. -/
theorem loadedAll_segment (hp : p ∈ ps) (hapart : ps.Pairwise ProgramHeader.Apart)
    (hsize : ∀ q ∈ ps, q.filesz ≤ q.memsz) (hb : p.Below) (hfile : p.InFile data) {k : Nat} (hk : k < p.memsz) :
    loadedAll data ps (p.vaddr + k) none = if k < p.filesz then data[p.offset + k]? else some 0 := by
  obtain ⟨l, r, rfl⟩ := List.append_of_mem hp
  rw [List.pairwise_append, List.pairwise_cons] at hapart
  obtain ⟨-, ⟨hr, -⟩, hl⟩ := hapart
  have hbefore : ∀ q ∈ l, ¬ (q.vaddr ≤ p.vaddr + k ∧ p.vaddr + k < q.vaddr + q.filesz) := by
    intro q hq
    have hle := hsize q (List.mem_append_left _ hq)
    have hap := hl q hq p List.mem_cons_self
    unfold ProgramHeader.Apart at hap
    omega
  have hafter : ∀ q ∈ r, ¬ (q.vaddr ≤ p.vaddr + k ∧ p.vaddr + k < q.vaddr + q.filesz) := by
    intro q hq
    have hle := hsize q (List.mem_append_right _ (List.mem_cons_of_mem p hq))
    have hap := hr q hq
    unfold ProgramHeader.Apart at hap
    omega
  -- nothing or a zero is there before `p`, and what `p` puts there stays
  have hzero : (loadedAll data l (p.vaddr + k) none).getD 0 = 0 := by
    rcases loadedAll_of_not_mem data hbefore none with he | he
    all_goals
      rw [he]
      rfl
  have hkeep : ∀ x, loadedAll data r (p.vaddr + k) (some x) = some x := by
    intro x
    rcases loadedAll_of_not_mem data hafter (some x) with he | he
    all_goals
      exact he
  have hsplit : loadedAll data (l ++ p :: r) (p.vaddr + k) none =
      loadedAll data r (p.vaddr + k) (p.loaded data (p.vaddr + k) (loadedAll data l (p.vaddr + k) none)) := by
    unfold loadedAll
    rw [List.foldl_append, List.foldl_cons]
  obtain ⟨-, hstart, -, hend⟩ := hb.pages
  have hbytes := hfile.2
  rw [hsplit, ProgramHeader.loaded]
  by_cases hin : k < p.filesz
  · rw [if_pos (by omega), if_pos hin, Nat.add_sub_cancel_left, List.getElem?_eq_getElem (by omega), hkeep]
  · rw [if_neg (by omega), if_pos (by omega), if_neg hin, hkeep, hzero]

theorem phdrAfter_of_ne {phdr : Nat} (h : phdr ≠ 0) : phdrAfter phoff ps phdr = phdr := by
  induction ps with
  | nil => rfl
  | cons p ps ih =>
    unfold phdrAfter at ih ⊢
    rw [List.foldl_cons, if_neg fun hand => h hand.1, ih]

/-- The address of the program headers in memory: that in the first segment with
them in its file range, if it is not zero. -/
def phdrIn (phoff : Nat) (ps : List ProgramHeader) : Nat :=
  match ps.find? fun p => p.HoldsHeaders phoff ∧ p.vaddr + (phoff - p.offset) ≠ 0 with
  | some p => p.vaddr + (phoff - p.offset)
  | none => 0

theorem phdrAfter_zero (h : ∀ p ∈ ps, p.Below) : phdrAfter phoff ps 0 = phdrIn phoff ps := by
  induction ps with
  | nil => rfl
  | cons p ps ih =>
    have hps := ih fun q hq => h q (List.mem_cons_of_mem p hq)
    have hb := h p List.mem_cons_self
    unfold phdrAfter at hps ⊢
    unfold phdrIn at hps ⊢
    rw [List.foldl_cons, List.find?_cons]
    by_cases hold : p.HoldsHeaders phoff
    · have haddr : p.phdrAt phoff = p.vaddr + (phoff - p.offset) := by
        refine wrappingAdd_of_lt ?_
        unfold ProgramHeader.Below userTop at hb
        unfold ProgramHeader.HoldsHeaders at hold
        unfold usizeMod
        omega
      rw [if_pos ⟨rfl, hold⟩, haddr]
      by_cases hz : p.vaddr + (phoff - p.offset) = 0
      · rw [hz, decide_eq_false (by simp)]
        exact hps
      · rw [decide_eq_true ⟨hold, hz⟩]
        exact phdrAfter_of_ne hz
    · rw [if_neg fun hand => hold hand.2, decide_eq_false fun hand => hold hand.1]
      exact hps

/-- **The loader places segments correctly.** With enough free frames a file whose
headers are in it and whose segments are below `userTop`, apart and in the file is
loaded: each segment has the bytes of the file and zeros after them. -/
theorem elf_image_loaded (s : Phys) (root : Nat) (data : List Byte) (hd : ElfHeader) (hs : FreshSpace s root)
    (hlen : data.length ≤ isizeMax) (hh : validateHeader data = some (.ok hd)) (hsize : 56 ≤ hd.phentsize)
    (hheaders : hd.phoff + hd.phnum * hd.phentsize ≤ data.length)
    (hsegs : ∀ p ∈ hd.segments data, p.vaddr + p.memsz ≤ userTop ∧ p.filesz ≤ p.memsz ∧
      p.offset + p.filesz ≤ data.length)
    (hapart : (hd.segments data).Pairwise ProgramHeader.Apart)
    (hframes : framesFor (hd.segments data) ≤ s.avail.card) :
    ∃ s', s.loadInto (root * pageSize) data =
        some (.ok ⟨hd.entry, phdrIn hd.phoff (hd.segments data), hd.phentsize, hd.phnum⟩, s') ∧
      ∀ p ∈ hd.segments data, ∀ k < p.memsz, userByte s' (root * pageSize) (p.vaddr + k) =
        if k < p.filesz then data[p.offset + k]? else some 0 := by
  have hmod : data.length < usizeMod := by
    unfold isizeMax at hlen
    unfold usizeMod
    omega
  have hbelow : ∀ p ∈ hd.segments data, p.Below := by
    intro p hp
    have := hsegs p hp
    unfold ProgramHeader.Below
    omega
  have hfile : ∀ p ∈ hd.segments data, p.InFile data := by
    intro p hp
    have := hsegs p hp
    exact ⟨by omega, this.2.2⟩
  have hread : ∀ j, 0 ≤ j → j < 0 + hd.phnum → hd.phEnd j ≤ data.length ∧ ∃ p, hd.programHeader data j = some p := by
    intro j _ hj
    have hmul : (j + 1) * hd.phentsize ≤ hd.phnum * hd.phentsize := Nat.mul_le_mul_right _ (by omega)
    rw [Nat.add_mul, Nat.one_mul] at hmul
    have hlt : hd.phoff + j * hd.phentsize + hd.phentsize < usizeMod := by omega
    have hend : hd.phEnd j ≤ data.length := by
      rw [(ElfHeader.phEnd_of_lt hlt).2]
      omega
    exact ⟨hend, ElfHeader.programHeader_isSome (by omega) hlt hend⟩
  have hpanic : ¬ HeadersPanic data := by
    rintro ⟨hd', hh', -, hwrap | hshort⟩
    all_goals
      cases hh.symm.trans hh'
    · rcases validateHeader_cases data with ⟨e, he⟩ | ⟨hd', hh', hc⟩
      · cases hh.symm.trans he
      · cases hh.symm.trans hh'
        have hpos : 1 * hd.phentsize ≤ hd.phnum * hd.phentsize := Nat.mul_le_mul_right _ (Nat.pos_of_ne_zero hc.phnum)
        omega
    · omega
  have hsteps : fileSteps data = (hd.segments data).map some := by
    unfold fileSteps
    rw [hh]
    exact ElfHeader.steps_eq hread hfile
  have hin : ∀ x, SegmentsInUser False data x := by
    intro x
    constructor
    rw [hsteps]
    refine Supply.Along.of_forall (fun o ho x p hp => ?_) x
    obtain ⟨q, hq, rfl⟩ := List.mem_map.mp ho
    cases hp
    exact (hbelow p hq).inUser False x
  have hhalves : Halves (s.lowerHalf root) root s.mem (fun _ => false) False := ⟨hs.userSpace, False.elim⟩
  have hloading := loadInto_loading hlen hpanic hhalves (hin _)
  obtain ⟨y, hy⟩ : ∃ y, Supply.run Supply.segment ((hd.segments data).map some)
      (((s.lowerHalf root).supply root).beside fun _ => false) = some (some y) := by
    refine Supply.run_segments (fun p hp => ⟨hbelow p hp, (hsegs p hp).2.1⟩) ?_
    rw [Supply.beside_free, hs.supply]
    dsimp only [Supply.empty]
    exact hframes
  rw [s.lowerHalf_withUpper, loadSupply, hsteps, hy] at hloading
  obtain ⟨image, t', hload, hstep, hview⟩ := hloading.ended
  obtain ⟨rfl, hbytes⟩ := hview hd hh
  refine ⟨t'.withUpper root s.mem, ?_, fun p hp k hk => ?_⟩
  · rw [hload, ElfHeader.image, phdrAfter_zero hbelow]
  · have ha : p.vaddr + k < userTop := by
      have := hsegs p hp
      omega
    rw [userByte_withUpper hstep.space ha, hbytes hbelow _ ha, hs.userByte_lowerHalf ha]
    exact loadedAll_segment hp hapart (fun q hq => (hsegs q hq).2.1) (hbelow p hp) (hfile p hp) hk

/-- The start of a file, its headers included, and a segment on the same page. -/
def sharedPage : List ProgramHeader := [⟨ptLoad, 0, 0x400000, 180, 200⟩, ⟨ptLoad, 180, 0x4000F0, 4, 8⟩]

/-- The file is loaded with its headers at `0x400040`, and its second segment has
its four bytes and zeros. -/
theorem elf_image_loaded_sharedPage : ∃ s',
    emptyTree.loadInto 0x1000 (elfFile 0x400078 sharedPage [1, 2, 3, 4, 5, 6, 7, 8]) =
      some (.ok ⟨0x400078, 0x400040, 56, 2⟩, s') ∧
    userByte s' 0x1000 0x4000F0 = some 5 ∧ userByte s' 0x1000 0x4000F4 = some 0 := by
  have htwo : sharedPage.length < 2 ^ 16 := by decide
  have hfits : ∀ p ∈ sharedPage, p.Fits := by
    intro p hp
    rcases List.mem_pair.mp hp with rfl | rfl
    all_goals
      exact ⟨by decide, by decide, by decide, by decide, by decide⟩
  have hlen : (elfFile 0x400078 sharedPage [1, 2, 3, 4, 5, 6, 7, 8]).length = 184 := rfl
  have hsegs : (elfFileHeader 0x400078 sharedPage).segments (elfFile 0x400078 sharedPage [1, 2, 3, 4, 5, 6, 7, 8]) = sharedPage :=
    (segments_elfFile htwo _ hfits).trans (by decide)
  have hfresh : FreshSpace emptyTree 1 := ⟨by decide, by decide, fun i _ => emptyTree_tables 1 i⟩
  obtain ⟨s', hload, hbytes⟩ := elf_image_loaded emptyTree 1 _ _ hfresh (by rw [hlen]; decide)
    (validateHeader_elfFile htwo _ (by decide) (by decide)) (by decide) (by rw [hlen]; decide)
    (by rw [hsegs, hlen]; decide) (by rw [hsegs]; decide) (by rw [hsegs, emptyTree_avail]; decide)
  rw [hsegs] at hload hbytes
  have hmem : (⟨ptLoad, 180, 0x4000F0, 4, 8⟩ : ProgramHeader) ∈ sharedPage := by decide
  refine ⟨s', hload, ?_, ?_⟩
  · exact (hbytes _ hmem 0 (by decide)).trans (by decide +kernel)
  · exact (hbytes _ hmem 4 (by decide)).trans (by decide +kernel)

end Image

end CoreOS
