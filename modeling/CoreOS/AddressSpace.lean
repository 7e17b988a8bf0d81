/-
`fork`'s copy of an address space, as its users see it: the same pages with
the same contents in frames of its own, the 2 MiB pages and the kernel half
shared.
-/
import CoreOS.PagingClone

namespace CoreOS

open ByteMem Radix

/-! ## The kernel half -/

theorem copyKernelHalf_spec (mem : Mem) {new kernel : Nat} (hne : kernel ≠ new) : ∀ n, n ≤ 256 → ∃ mem',
    (List.range' 256 n).foldl (fun mem i => writeEntry mem (new * pageSize) i (entryAt mem (kernel * pageSize) i)) mem =
      mem' ∧ (∀ x, x / pageSize ≠ new → mem' x = mem x) ∧
    ∀ i : Fin 512, tables mem' new i = if 256 ≤ i.val ∧ i.val < 256 + n then tables mem kernel i else tables mem new i
  | 0, _ => by
    refine ⟨mem, rfl, fun _ _ => rfl, fun i => ?_⟩
    rw [if_neg (by omega)]
  | n + 1, hn => by
    obtain ⟨mem', hfold, hout, hrow⟩ := copyKernelHalf_spec mem hne n (by omega)
    have hk : tables mem' kernel = tables mem kernel :=
      tables_congr fun x h1 h₂ => hout x (by unfold pageSize at *; omega)
    have hlt : 256 + n < 512 := by omega
    refine ⟨writeEntry mem' (new * pageSize) (256 + n) (entryAt mem' (kernel * pageSize) (256 + n)), ?_, fun x hx => ?_,
      fun i => ?_⟩
    · rw [List.range'_1_concat, List.foldl_append, hfold]
      rfl
    · exact (writeEntry_out (i := ⟨256 + n, hlt⟩) hx).trans (hout x hx)
    · have hread : entryAt mem' (kernel * pageSize) (256 + n) = tables mem kernel ⟨256 + n, hlt⟩ :=
        congrFun hk ⟨256 + n, hlt⟩
      refine (congrFun (congrFun (tables_writeEntry (i := ⟨256 + n, hlt⟩)) new) i).trans ?_
      rw [hread]
      by_cases hi : i = ⟨256 + n, hlt⟩
      · subst hi
        rw [setEntry_self, if_pos (by simp)]
      · have hne : i.val ≠ 256 + n := fun h => hi (Fin.ext h)
        rw [setEntry_other (.inr hi), hrow i]
        refine if_congr ?_ rfl rfl
        omega

variable {s : Phys} {kernel : Nat}

/-- **Everything `clone_kernel_address_space` does** when there is a frame. -/
theorem cloneKernelAddressSpace_spec (hk : s.pmm.isFree kernel = false) (havail : s.avail ≠ ∅) :
    ∃ new s', s.cloneKernelAddressSpace (kernel * pageSize) = (new * pageSize, s') ∧
      s.pmm.isFree new = true ∧ Grown s s' new {new} ∧
      ∀ i : Fin 512, tables s'.mem new i = if 256 ≤ i.val then tables s.mem kernel i else 0 := by
  unfold Phys.cloneKernelAddressSpace
  rcases s.allocFrame_cases with ⟨new, s1, hal, ht⟩ | ⟨hal, hnone⟩
  · have hfree : s.pmm.isFree new = true := ht.run 0 (by decide)
    have hne : kernel ≠ new := fun h => by
      rw [h, hfree] at hk
      cases hk
    obtain ⟨mem', hfold, hout, hrow⟩ := copyKernelHalf_spec (fill s1.mem (new * pageSize) 4096 0) hne 256
      (Nat.le_refl _)
    have hfill : ∀ x, x / pageSize ≠ new → fill s1.mem (new * pageSize) 4096 0 x = s1.mem x :=
      fun x hx => fill_out (by unfold pageSize at *; omega)
    have hg : Grown s s1 new {new} := ht.grown
    refine ⟨new, s1.setMem mem', ?_, hfree, ⟨hg.fresh, hg.free, fun x hx hS => ?_⟩, fun i => ?_⟩
    · rw [hal]
      dsimp only
      rw [hfold]
    · exact (hout x hx).trans ((hfill x hx).trans (hg.mem x hx hS))
    · have hi := i.isLt
      refine (hrow i).trans ?_
      by_cases h256 : 256 ≤ i.val
      · rw [if_pos ⟨h256, by omega⟩, if_pos h256, ← ht.keeps.tables hk]
        refine congrFun (tables_congr fun x h1 h₂ => hfill x ?_) i
        unfold pageSize at *
        omega
      · rw [if_neg (by omega), if_neg h256]
        exact congrFun tables_fill i
  · exact absurd (Phys.avail_eq_empty hnone) havail

/-! ## The source -/

/-- A path in the lower half of the address space. -/
def UserPath (p : List (Fin 512)) : Prop := ∀ i ∈ p.head?, i.val < 256

/-- Every frame of the lower half of a tree is in use: its tables, its 4 KiB
pages and the frames of its 2 MiB pages. -/
structure InUse (s : Phys) (root : Nat) : Prop where
  frames : ∀ p f, UserPath p → p.length ≤ 4 → frameAt s.mem root p = some f → s.pmm.isFree f = false
  huge : ∀ v e, v.User → hugeEntry s.mem root v = some e →
    s.pmm.isFree ((hugeMapping e (dirIndex v 0)).frame / pageSize) = false

variable {p q : List (Fin 512)}

theorem UserPath.append (h : UserPath p) (hp : p ≠ []) : UserPath (p ++ q) := by
  cases p with
  | nil => exact absurd rfl hp
  | cons i p => exact h

theorem walk_frameChild {mem : Mem} : ∀ {p : List (Fin 512)} {d f : Nat}, d + p.length ≤ 3 →
    walk frameChild (tables mem) d f p = walk tableChild (tables mem) d f p
  | [], _, _, _ => rfl
  | i :: p, d, f, h => by
    simp only [List.length_cons] at h
    rw [walk_cons, walk_cons, frameChild, if_neg (by omega)]
    exact Option.bind_congr fun g _ => walk_frameChild (by omega)

variable {mem : Mem}

theorem frameAt_eq {root : Nat} (h : p.length ≤ 3) :
    frameAt mem root p = tableAt mem root p := walk_frameChild (by omega)

variable {v : PageNo}

theorem frameAt_page {root : Nat} {e : Word} (h : pageEntry mem root v = some e) :
    frameAt mem root (dirPath v ++ [dirIndex v 0]) = some ((e &&& pteAddrMask).toNat / pageSize) := by
  obtain ⟨pt, hpt, he⟩ := Option.bind_eq_some_iff.mp h
  dsimp only at he
  split at he
  · next hp =>
    refine walk_snoc.trans ?_
    rw [show walk frameChild (tables mem) 0 root (dirPath v) = some pt from (walk_frameChild (by simp [dirPath])).trans hpt,
      Option.bind_some, frameChild, if_pos (by simp [dirPath]), if_pos hp, Option.some.inj he]
  · cases he

theorem sourceOK {s : Phys} {root : Nat} (hlt : ∀ p f, UserPath p → p.length ≤ 3 → tableAt s.mem root p = some f → f < maxFrames)
    (hu : InUse s root) : ∀ {n : Nat} {p : List (Fin 512)} {f : Nat} {i : Fin 512}, p.length + n = 3 →
    UserPath (p ++ [i]) → tableAt s.mem root p = some f → SourceOK s n (tables s.mem f i)
  | 0, p, f, i, hp, hpi, hf => by
    intro hpres
    refine hu.frames (p ++ [i]) _ hpi (by simp; omega) (walk_snoc.trans ?_)
    rw [show walk frameChild (tables s.mem) 0 root p = some f from (walk_frameChild (by omega)).trans hf, Option.bind_some,
      frameChild, if_pos (by omega), if_pos hpres]
  | n + 1, p, f, i, hp, hpi, hf => by
    intro hpres hh
    have hnext := tableAt_snoc hf hpres fun h2 => by
      by_contra hhuge
      exact hh ⟨by omega, by simpa using hhuge⟩
    have hlen : (p ++ [i]).length ≤ 3 := by
      rw [List.length_append, List.length_singleton]
      omega
    have hused := hu.frames (p ++ [i]) _ hpi (by omega) ((frameAt_eq hlen).trans hnext)
    refine ⟨hlt _ _ hpi hlen hnext, hused, fun j => sourceOK hlt hu (by simp; omega) ?_ hnext⟩
    exact UserPath.append hpi (by simp)

/-! ## The copy -/

/-- The frames `clone_user_address_space` takes. -/
def cloneCost (mem : Mem) (src : Nat) : Nat := 1 + rowCost mem 3 256 (tables mem src)

/-- Byte `k` of page `v`, as seen through the tree at `root`. -/
def pageByte (mem : Mem) (root : Nat) (v : PageNo) (k : Nat) : Option Byte :=
  (pageMap mem root v).map fun m => mem (m.frame + k)

/-- The tree at `new` in `s'` is a private copy of the one at `src` in `s`, from
where it was made. -/
structure PrivateCopy (s s' : Phys) (kernel src new : Nat) : Prop where
  /-- The kernel half is the kernel's. -/
  kernel : ∀ i : Fin 512, 256 ≤ i.val → tables s'.mem new i = tables s.mem kernel i
  /-- The 4 KiB pages have the same flags and the same contents. -/
  page : ∀ v, v.User → (pageEntry s'.mem new v = none ↔ pageEntry s.mem src v = none) ∧
    ∀ e e', pageEntry s.mem src v = some e → pageEntry s'.mem new v = some e' →
      e' &&& ~~~pteAddrMask = e &&& ~~~pteAddrMask ∧
      ∀ k < pageSize, s'.mem ((e' &&& pteAddrMask).toNat + k) = s.mem ((e &&& pteAddrMask).toNat + k)
  /-- The 2 MiB pages are shared. -/
  huge : ∀ v, v.User → hugeEntry s'.mem new v = hugeEntry s.mem src v
  /-- No frame of the copy, table or page, is there twice. -/
  distinct : ∀ p q f, UserPath p → UserPath q → p.length ≤ 4 → q.length ≤ 4 → frameAt s'.mem new p = some f →
    frameAt s'.mem new q = some f → p = q
  /-- None is a frame of the source. -/
  apart : ∀ p f, UserPath p → p.length ≤ 4 → frameAt s'.mem new p = some f →
    (∀ q, UserPath q → q.length ≤ 4 → frameAt s.mem src q ≠ some f) ∧
    ∀ v e, v.User → hugeEntry s.mem src v = some e → (hugeMapping e (dirIndex v 0)).frame / pageSize ≠ f
  /-- The source is as it was: its tables, and all its pages. -/
  source : (∀ p f, UserPath p → p.length ≤ 4 → frameAt s.mem src p = some f →
      frameAt s'.mem src p = some f ∧ ∀ k < pageSize, s'.mem (f * pageSize + k) = s.mem (f * pageSize + k)) ∧
    ∀ v, v.User → pageMap s'.mem src v = pageMap s.mem src v ∧
      ∀ k < pageSize, pageByte s'.mem src v k = pageByte s.mem src v k
  /-- A write to a 4 KiB page of the copy is not seen through the source. -/
  writeCopy : ∀ v w e, v.User → w.User → pageEntry s'.mem new v = some e → ∀ k < pageSize, ∀ byte, ∀ j < pageSize,
    pageByte (Function.update s'.mem ((e &&& pteAddrMask).toNat + k) byte) src w j = pageByte s'.mem src w j
  /-- A write to a 4 KiB page of the source is not seen through the copy, but
  for the shared 2 MiB pages. -/
  writeSource : ∀ v w e, v.User → w.User → pageEntry s'.mem src v = some e → hugeEntry s'.mem new w = none →
    ∀ k < pageSize, ∀ byte, ∀ j < pageSize,
    pageByte (Function.update s'.mem ((e &&& pteAddrMask).toNat + k) byte) new w j = pageByte s'.mem new w j

variable {new : Nat} {S : Finset Nat}

theorem RowCopy.frameAt {m0 : Mem} {r : Fin 512 → Word} {f : Nat}
    (h : RowCopy (EntryCopy m0 mem 3) 256 r (tables mem new) S) (hnew : new ∉ S) (hp : UserPath p)
    (hp4 : p.length ≤ 4) (hf : CoreOS.frameAt mem new p = some f) :
    f ∈ insert new S ∧ (UserPath q → q.length ≤ 4 → CoreOS.frameAt mem new q = some f → p = q) := by
  have hone := fun {i j : Fin 512} {p q : List (Fin 512)} {f : Nat} =>
    h.once (d := 0) (n := 3) (fun _ _ _ hE => hE.isPrivate rfl) (i := i) (j := j) (p := p) (q := q) (f := f)
  cases p with
  | nil =>
    have hfn : f = new := (Option.some.inj hf).symm
    subst hfn
    refine ⟨Finset.mem_insert_self f S, fun hq hq4 hf' => ?_⟩
    cases q with
    | nil => rfl
    | cons j q => exact absurd (hone (j := j) (q := q) (hq j rfl) (Nat.le_of_succ_le_succ hq4) hf').1 hnew
  | cons i p =>
    have hmem := (hone (j := i) (q := p) (hp i rfl) (Nat.le_of_succ_le_succ hp4) hf).1
    refine ⟨Finset.mem_insert_of_mem hmem, fun hq hq4 hf' => ?_⟩
    cases q with
    | nil =>
      rw [← Option.some.inj hf'] at hmem
      exact absurd hmem hnew
    | cons j q =>
      obtain ⟨rfl, rfl⟩ := (hone (hp i rfl) (Nat.le_of_succ_le_succ hp4) hf).2 (hq j rfl) (Nat.le_of_succ_le_succ hq4) hf'
      rfl

theorem PageNo.User.path (h : v.User) : UserPath (dirPath v ++ [dirIndex v 0]) := by
  intro i hi
  simp only [dirPath, List.cons_append, List.head?_cons, Option.mem_some_iff] at hi
  exact hi ▸ h

variable {src : Nat}

theorem InUse.page {m : Mapping} (hu : InUse s src) (hv : v.User) (h : pageMap s.mem src v = some m) :
    s.pmm.isFree (m.frame / pageSize) = false ∧ m.frame % pageSize = 0 := by
  unfold pageMap at h
  split at h
  · next e he =>
    cases h
    refine ⟨hu.huge v e hv he, ?_⟩
    have := masked_aligned e
    simp only [hugeMapping]
    unfold pageSize at *
    omega
  · obtain ⟨e, he, rfl⟩ := Option.map_eq_some_iff.mp h
    exact ⟨hu.frames _ _ hv.path (by simp [dirPath]) (frameAt_page he), masked_aligned e⟩

section Source

variable {s t : Phys} {src : Nat} {v : PageNo} (hw : WellFormed s src) (hk : Keeps s t)
include hw hk

theorem frameAt_keeps {p : List (Fin 512)} (hp : p.length ≤ 4) : frameAt t.mem src p = frameAt s.mem src p := by
  refine walk_congr fun q g _ hlt hq => hw.reached hk (p := q) (by omega) ?_
  rw [← frameAt_eq (by omega)]
  exact hq

theorem pageMap_keeps : pageMap t.mem src = pageMap s.mem src :=
  pageMap_congr (fun _ => hw.hugeEntry_keeps hk) fun _ => hw.pageEntry_keeps hk

theorem pageByte_keeps (hu : InUse s src) (hv : v.User) {k : Nat} (hk' : k < pageSize) :
    pageByte t.mem src v k = pageByte s.mem src v k := by
  unfold pageByte
  rw [pageMap_keeps hw hk]
  refine Option.map_congr fun m hm => hk.mem _ ?_
  obtain ⟨hused, halign⟩ := hu.page hv hm
  rwa [show (m.frame + k) / pageSize = m.frame / pageSize by unfold pageSize at *; omega]

end Source

theorem UserPath.of_prefix (h : UserPath q) (hp : p <+: q) : UserPath p := by
  obtain ⟨r, rfl⟩ := hp
  intro i hi
  cases p with
  | nil => simp at hi
  | cons j p => exact h i hi

theorem pageByte_copy {mem' : Mem} {F : Finset Nat}
    (hF : ∀ p f, UserPath p → p.length ≤ 4 → frameAt mem new p = some f → f ∈ F)
    (hm : ∀ x, x / pageSize ∈ F → mem' x = mem x) (hv : v.User) (hnone : hugeEntry mem new v = none) {k : Nat}
    (hk : k < pageSize) : pageByte mem' new v k = pageByte mem new v k := by
  have htab : ∀ p f, UserPath p → p.length ≤ 3 → tableAt mem new p = some f → tables mem' f = tables mem f := by
    intro p f hp hp3 hf
    refine tables_congr fun x h1 h₂ => hm x ?_
    rw [show x / pageSize = f by unfold pageSize at *; omega]
    exact hF p f hp (by omega) (by rwa [frameAt_eq hp3])
  have hat : ∀ q, UserPath q → q.length ≤ 3 → tableAt mem' new q = tableAt mem new q := by
    intro q hq hq3
    exact walk_congr fun p f hpre hlt hf => htab p f (hq.of_prefix hpre) (by omega) hf
  have hdir : UserPath (dirPath v) := hv.path.of_prefix (List.prefix_append _ _)
  have hpd : UserPath [dirIndex v 3, dirIndex v 2] := hdir.of_prefix ⟨[dirIndex v 1], rfl⟩
  have hhuge : hugeEntry mem' new v = hugeEntry mem new v := by
    unfold hugeEntry
    rw [hat _ hpd (by simp)]
    exact Option.bind_congr fun pd hpd' => by rw [htab _ pd hpd (by simp) hpd']
  have hpage : pageEntry mem' new v = pageEntry mem new v := by
    unfold pageEntry
    rw [hat _ hdir (by simp [dirPath])]
    exact Option.bind_congr fun pt hpt => by rw [htab _ pt hdir (by simp [dirPath]) hpt]
  unfold pageByte pageMap
  rw [hhuge, hnone, hpage]
  dsimp only
  rw [Option.map_map, Option.map_map]
  refine Option.map_congr fun e he => hm _ ?_
  have := masked_aligned e
  simp only [leafMapping]
  rw [show ((e &&& pteAddrMask).toNat + k) / pageSize = (e &&& pteAddrMask).toNat / pageSize by
    unfold pageSize at *; omega]
  exact hF _ _ hv.path (by simp [dirPath]) (frameAt_page he)

theorem privateCopy {s' : Phys} (hw : WellFormed s src) (hu : InUse s src)
    (hkernel : ∀ i : Fin 512, 256 ≤ i.val → tables s'.mem new i = tables s.mem kernel i)
    (hcopy : RowCopy (EntryCopy s.mem s'.mem 3) 256 (tables s.mem src) (tables s'.mem new) S) (hnew : new ∉ S)
    (hfresh : ∀ f ∈ insert new S, s.pmm.isFree f = true) (hk : Keeps s s') : PrivateCopy s s' kernel src new := by
  have hF : ∀ p f, UserPath p → p.length ≤ 4 → frameAt s'.mem new p = some f → f ∈ insert new S :=
    fun p f hp hp4 hf => (hcopy.frameAt (q := p) hnew hp hp4 hf).1
  have hnot : ∀ {f : Nat}, s.pmm.isFree f = false → f ∉ insert new S := fun hused hf => by
    rw [hfresh _ hf] at hused
    cases hused
  refine ⟨hkernel, fun v hv => ?_, fun v hv => hcopy.hugeEntry hv, fun p q f hp hq hp4 hq4 hf hf' => ?_,
    fun p f hp hp4 hf => ⟨fun q hq hq4 hf' => ?_, fun v e hv he hfe => ?_⟩, ⟨fun p f hp hp4 hf => ⟨?_, fun k hlt => ?_⟩,
      fun v hv => ⟨congrFun (pageMap_keeps hw hk) v, fun k hlt => pageByte_keeps hw hk hu hv hlt⟩⟩,
    fun v w e hv hwu he k hlt byte j hj => ?_, fun v w e hv hwu he hnone k hlt byte j hj => ?_⟩
  · rcases hcopy.pageEntry hv with ⟨h1, h₂⟩ | ⟨e, g, h1, h₂, hg, hbytes⟩
    · rw [h1, h₂]
      exact ⟨Iff.rfl, nofun⟩
    · rw [h1, h₂]
      refine ⟨by simp, fun e1 e2 he1 he2 => ?_⟩
      cases he1
      cases he2
      rw [copyEntry_flags e hg, copyEntry_masked e hg]
      exact ⟨rfl, hbytes⟩
  · exact (hcopy.frameAt hnew hp hp4 hf).2 hq hq4 hf'
  · exact hnot (hu.frames q f hq hq4 hf') (hF p f hp hp4 hf)
  · exact hnot (hu.huge v e hv he) (hfe ▸ hF p f hp hp4 hf)
  · rw [frameAt_keeps hw hk hp4, hf]
  · refine hk.mem _ ?_
    rw [show (f * pageSize + k) / pageSize = f by unfold pageSize at *; omega]
    exact hu.frames p f hp hp4 hf
  · -- the frame written to was free, so all that was in use is as before
    have hframe := hF _ _ hv.path (by simp [dirPath]) (frameAt_page he)
    have hk2 : Keeps s (s'.setMem (Function.update s'.mem ((e &&& pteAddrMask).toNat + k) byte)) := by
      refine ⟨hk.free, fun x hx => ?_⟩
      have hne : x ≠ (e &&& pteAddrMask).toNat + k := fun hxe => by
        have := masked_aligned e
        rw [show x / pageSize = (e &&& pteAddrMask).toNat / pageSize by unfold pageSize at *; omega] at hx
        exact hnot hx hframe
      exact (Function.update_of_ne hne ..).trans (hk.mem x hx)
    exact (pageByte_keeps hw hk2 hu hwu hj).trans (pageByte_keeps hw hk hu hwu hj).symm
  · rw [hw.pageEntry_keeps hk] at he
    have hused := hu.frames _ _ hv.path (by simp [dirPath]) (frameAt_page he)
    refine pageByte_copy hF (fun x hx => ?_) hwu hnone hj
    have hne : x ≠ (e &&& pteAddrMask).toNat + k := fun hxe => by
      have := masked_aligned e
      rw [show x / pageSize = (e &&& pteAddrMask).toNat / pageSize by unfold pageSize at *; omega] at hx
      exact hnot hused hx
    exact Function.update_of_ne hne ..

/-- A copy of the tree at `src`, made of its root and the frames `S`. -/
structure SpaceCloned (s s' : Phys) (kernel src new : Nat) (S : Finset Nat) : Prop where
  keeps : Keeps s s'
  root : new ∉ S
  fresh : insert new S ⊆ s.avail
  free : ∀ f, s'.pmm.isFree f = true ↔ s.pmm.isFree f = true ∧ f ∉ insert new S
  kernel : ∀ i : Fin 512, 256 ≤ i.val → tables s'.mem new i = tables s.mem kernel i
  copy : RowCopy (EntryCopy s.mem s'.mem 3) 256 (tables s.mem src) (tables s'.mem new) S

theorem SpaceCloned.used {s' : Phys} (h : SpaceCloned s s' kernel src new S) :
    ∀ f ∈ insert new S, s'.pmm.isFree f = false :=
  fun f hf => Bool.eq_false_iff.mpr fun hfree => ((h.free f).mp hfree).2 hf

theorem SpaceCloned.card {s' : Phys} (h : SpaceCloned s s' kernel src new S) :
    (insert new S).card = cloneCost s.mem src := by
  rw [Finset.card_insert_of_notMem h.root, h.copy.card fun _ _ _ hE => hE.card, cloneCost, Nat.add_comm]

/-- **Everything `clone_user_address_space` does** when there is a frame for the
root: it makes a copy, or there are too few frames for it. -/
theorem cloneUserAddressSpace_cases (hsrc : SourceTable s 3 256 src) (hk : s.pmm.isFree kernel = false)
    (havail : s.avail ≠ ∅) :
    (s.cloneUserAddressSpace (kernel * pageSize) (src * pageSize) = none ∧ s.avail.card < cloneCost s.mem src) ∨
    ∃ new s' S, s.cloneUserAddressSpace (kernel * pageSize) (src * pageSize) = some (new * pageSize, s') ∧
      SpaceCloned s s' kernel src new S := by
  obtain ⟨new, s1, hclone, hfree, hg, hrow⟩ := cloneKernelAddressSpace_spec hk havail
  have hused : s1.pmm.isFree new = false := by
    by_contra hne
    rw [Bool.not_eq_false, hg.free] at hne
    simp at hne
  have hcard := hg.card
  rw [Finset.card_singleton] at hcard
  have hk1 : Keeps s s1 := Grown.keeps Keeps.refl hg hfree
  unfold Phys.cloneUserAddressSpace cloneCost
  rw [hclone]
  dsimp only
  rcases rounds_spec (clonePml4e_round hsrc hfree) hk1 hfree hused 256 (Nat.le_refl _) (by decide) (fun i hi => by
      rw [hrow i, if_neg (by omega)]) with ⟨hnone, hlt⟩ | ⟨s', S, hsome, hcloned⟩
  · refine .inl ⟨?_, by omega⟩
    rw [hnone]
    rfl
  · have hk2 : Keeps s s' := Grown.keeps hk1 hcloned.toGrown hfree
    have hnew : new ∉ S := fun hmem => by
      rw [Grown.isFree_of_mem (hcloned.fresh hmem)] at hused
      cases hused
    refine .inr ⟨new, s', S, ?_, hk2, hnew, fun f hf => ?_, fun f => ?_, fun i hi => ?_, hcloned.copy⟩
    · rw [hsome]
      rfl
    · rcases Finset.mem_insert.mp hf with rfl | hf
      · exact hg.fresh (Finset.mem_singleton_self f)
      · have hmem := Finset.mem_erase.mp (hcloned.fresh hf)
        have hlt := PmmState.mem_freeSet.mp hmem.2
        exact Finset.mem_erase.mpr ⟨hmem.1, PmmState.mem_freeSet.mpr ⟨hlt.1, hk1.free f hlt.2⟩⟩
    · rw [hcloned.free, hg.free, Finset.mem_singleton, Finset.mem_insert, not_or, and_assoc]
    · rw [hcloned.row i hi, hrow i, if_pos hi]

theorem InUse.sourceTable (hu : InUse s src)
    (hlt : ∀ p f, UserPath p → p.length ≤ 3 → tableAt s.mem src p = some f → f < maxFrames) :
    SourceTable s 3 256 src := by
  refine ⟨hu.frames [] src (by simp [UserPath]) (by simp) rfl, fun i hi => sourceOK (p := []) hlt hu rfl ?_ rfl⟩
  intro j hj
  simp only [List.nil_append, List.head?_cons, Option.mem_some_iff] at hj
  exact hj ▸ hi

theorem WellFormed.sourceTable (hw : WellFormed s src) (hu : InUse s src) :
    SourceTable s 3 256 src := hu.sourceTable fun p f _ hp hf => (hw.table p f hp hf).1

theorem avail_of_cloneCost (h : cloneCost s.mem src ≤ s.avail.card) : s.avail ≠ ∅ := by
  intro hnone
  rw [hnone, Finset.card_empty, cloneCost] at h
  omega

/-- **`fork` copies the address space exactly and privately.** For every
well-formed tree whose frames are in use, whatever memory holds, with the frames
it takes free: `clone_user_address_space` returns a private copy of it. -/
theorem clone_is_private (s : Phys) (kernel src : Nat) (hw : WellFormed s src) (hu : InUse s src)
    (hk : s.pmm.isFree kernel = false) (henough : cloneCost s.mem src ≤ s.avail.card) :
    ∃ new s', s.cloneUserAddressSpace (kernel * pageSize) (src * pageSize) = some (new * pageSize, s') ∧
      PrivateCopy s s' kernel src new := by
  rcases cloneUserAddressSpace_cases (hw.sourceTable hu) hk (avail_of_cloneCost henough) with
    ⟨-, hlt⟩ | ⟨new, s', S, hsome, hc⟩
  · omega
  · exact ⟨new, s', hsome, privateCopy hw hu hc.kernel hc.copy hc.root (fun _ hf => Grown.isFree_of_mem (hc.fresh hf)) hc.keeps⟩

theorem emptyTree_inUse : InUse emptyTree 1 := by
  refine ⟨fun p f _ _ hp => ?_, fun v e _ he => ?_⟩
  · cases p with
    | nil =>
      rw [← Option.some.inj hp]
      decide
    | cons i p =>
      rw [frameAt, walk_cons, emptyTree_tables, frameChild, if_neg (by decide), tableChild_zero] at hp
      cases hp
  · rw [hugeEntry, tableAt, walk_cons, emptyTree_tables, tableChild_zero] at he
    cases he

theorem entryCost_zero (mem : Mem) : ∀ n, entryCost mem n 0 = 0
  | 0 => by rw [entryCost, if_neg (by rw [has_zero]; decide)]
  | n + 1 => by rw [entryCost, if_pos (by rw [has_zero]; decide)]

theorem emptyTree_cloneCost : cloneCost emptyTree.mem 1 = 1 := by
  have hzero : ∀ i : Fin 512, (if i.val < 256 then entryCost emptyTree.mem 3 (tables emptyTree.mem 1 i) else 0) = 0 := by
    intro i
    rw [emptyTree_tables, entryCost_zero, ite_self]
  rw [cloneCost, rowCost, Finset.sum_congr rfl fun i _ => hzero i]
  simp

theorem emptyTree_enough : cloneCost emptyTree.mem 1 ≤ emptyTree.avail.card := by
  rw [emptyTree_cloneCost]
  exact Finset.card_pos.mpr ⟨2, Finset.mem_erase.mpr ⟨by decide, PmmState.mem_freeSet.mpr ⟨by decide, by decide⟩⟩⟩

/-- A tree with one page: tables in frames 1 to 4, each with one entry, and
the page in frame 5. -/
def onePageTree : Phys where
  pmm := { bitmap := fun i => if i = 0 then 0x3F else 0, totalFrames := maxFrames, freeFrames := maxFrames - 6 }
  mem := fun x =>
    if x / pageSize = 5 then 42
    else if x / pageSize = 0 ∨ 5 < x / pageSize then 0
    else if x % pageSize = 0 then 7
    else if x % pageSize = 1 then BitVec.ofNat 8 (16 * (x / pageSize + 1)) else 0

/-- The entry of its table at depth `d`. -/
def onlyEntry (d : Nat) : Word := BitVec.ofNat 64 ((d + 2) * pageSize + 7)

theorem onePageTree_tables (d : Fin 4) (i : Fin 512) :
    tables onePageTree.mem (d + 1) i = if i = 0 then onlyEntry d else 0 := by
  by_cases hi : i = 0
  · subst hi
    revert d
    decide +kernel
  · rw [if_neg hi]
    refine loadWord_zero fun x h1 h2 => ?_
    have hpos : 0 < i.val := Nat.pos_of_ne_zero fun h => hi (Fin.ext h)
    have hpage : x / pageSize = d + 1 := by
      unfold pageSize at *
      omega
    have hoff : 8 ≤ x % pageSize := by
      unfold pageSize at *
      omega
    simp only [onePageTree, hpage]
    rw [if_neg (by omega), if_neg (by omega), if_neg (by omega), if_neg (by omega)]

theorem onePageTree_walk : ∀ {p : List (Fin 512)} {d f : Nat}, d + p.length ≤ 4 →
    walk frameChild (tables onePageTree.mem) d (d + 1) p = some f → f = d + p.length + 1 ∧ ∀ i ∈ p, i = 0
  | [], d, f, _, h => ⟨(Option.some.inj h).symm, by simp⟩
  | i :: p, d, f, hd, h => by
    rw [List.length_cons] at hd
    have hentry := onePageTree_tables ⟨d, by omega⟩ i
    have hchild : ∀ d : Fin 4, frameChild d (onlyEntry d) = some (d.val + 2) ∧ frameChild d 0 = none := by decide
    obtain ⟨hsome, hnone⟩ := hchild ⟨d, by omega⟩
    dsimp only at hentry hsome hnone
    rw [walk_cons, hentry] at h
    by_cases hi : i = 0
    · rw [if_pos hi, hsome] at h
      obtain ⟨hf, hp⟩ := onePageTree_walk (d := d + 1) (by omega) h
      refine ⟨?_, List.forall_mem_cons.mpr ⟨hi, hp⟩⟩
      rw [hf, List.length_cons]
      omega
    · rw [if_neg hi, hnone] at h
      cases h

theorem onePageTree_table {p : List (Fin 512)} {f : Nat} (hp : p.length ≤ 3)
    (h : tableAt onePageTree.mem 1 p = some f) : f = p.length + 1 ∧ ∀ i ∈ p, i = 0 := by
  rw [← frameAt_eq hp] at h
  have := onePageTree_walk (d := 0) (by omega) h
  rwa [Nat.zero_add] at this

theorem onePageTree_wellFormed : WellFormed onePageTree 1 where
  once p q f hp hq hpf hqf := by
    obtain ⟨hf, hp0⟩ := onePageTree_table hp hpf
    obtain ⟨hf', hq0⟩ := onePageTree_table hq hqf
    have hlen : p.length = q.length := by omega
    exact (List.eq_replicate_of_mem hp0).trans (hlen ▸ (List.eq_replicate_of_mem hq0).symm)
  table p f hp hf := by
    obtain ⟨rfl, -⟩ := onePageTree_table hp hf
    have hused : ∀ n ≤ 3, n + 1 < maxFrames ∧ onePageTree.pmm.isFree (n + 1) = false := by decide
    exact hused p.length hp
  nonleaf p f i hp hf := by
    obtain ⟨rfl, -⟩ := onePageTree_table (Nat.le_succ_of_le hp) hf
    have hentry := onePageTree_tables ⟨p.length, by omega⟩ i
    dsimp only at hentry
    rw [hentry]
    have hpres : ∀ d ≤ 2, has (onlyEntry d) ptePresent = true := by decide
    split
    · exact .inr (hpres p.length hp)
    · exact .inl rfl

theorem onePageTree_inUse : InUse onePageTree 1 := by
  refine ⟨fun p f _ hp hf => ?_, fun v e _ he => ?_⟩
  · obtain ⟨rfl, -⟩ := onePageTree_walk (d := 0) (by omega) hf
    have hused : ∀ n ≤ 4, onePageTree.pmm.isFree (0 + n + 1) = false := by decide
    exact hused p.length hp
  · obtain ⟨pd, hpd, he⟩ := Option.bind_eq_some_iff.mp he
    obtain ⟨rfl, -⟩ := onePageTree_table (by simp) hpd
    have hentry : tables onePageTree.mem 3 (dirIndex v 1) = _ := onePageTree_tables 2 _
    simp only [List.length_cons, List.length_nil, hentry] at he
    split at he
    all_goals
      rw [if_neg (by decide)] at he
      cases he

theorem onePageTree_sum (d : Fin 4) {cost : Word → Nat} (h : cost 0 = 0) :
    (∑ i : Fin 512, cost (tables onePageTree.mem (d + 1) i)) = cost (onlyEntry d) := by
  rw [Finset.sum_eq_single 0 (fun i _ hi => by rw [onePageTree_tables, if_neg hi, h]) (by simp), onePageTree_tables,
    if_pos rfl]

theorem onePageTree_cloneCost : cloneCost onePageTree.mem 1 = 5 := by
  have hstep : ∀ d n, d < 3 → entryCost onePageTree.mem (n + 1) (onlyEntry d) =
      1 + entryCost onePageTree.mem n (onlyEntry (d + 1)) := by
    intro d n hd
    have hbits : ∀ d < 3, has (onlyEntry d) ptePresent = true ∧ has (onlyEntry d) pteHuge = false ∧
        frameOf (onlyEntry d) = d + 1 + 1 := by decide
    obtain ⟨hpres, hhuge, hframe⟩ := hbits d hd
    have hrow := onePageTree_sum ⟨d + 1, by omega⟩ (entryCost_zero onePageTree.mem n)
    rw [entryCost, if_neg (not_not.mpr hpres), if_neg (by simp [hhuge]), hframe, hrow]
  have hroot : ∀ i : Fin 512, (if i.val < 256 then entryCost onePageTree.mem 3 (tables onePageTree.mem 1 i) else 0) =
      entryCost onePageTree.mem 3 (tables onePageTree.mem 1 i) := by
    intro i
    have hentry : tables onePageTree.mem 1 i = _ := onePageTree_tables 0 i
    split
    · rfl
    next hi => rw [hentry, if_neg (by rintro rfl; exact hi (by decide)), entryCost_zero]
  have hrow : ∑ i : Fin 512, entryCost onePageTree.mem 3 (tables onePageTree.mem 1 i) =
      entryCost onePageTree.mem 3 (onlyEntry 0) := onePageTree_sum 0 (entryCost_zero onePageTree.mem 3)
  have h0 : entryCost onePageTree.mem 0 (onlyEntry 3) = 1 := by decide
  have h1 := hstep 2 0 (by decide)
  have h2 := hstep 1 1 (by decide)
  have h3 := hstep 0 2 (by decide)
  simp only [Nat.reduceAdd] at h1 h2 h3
  rw [cloneCost, rowCost, Finset.sum_congr rfl fun i _ => hroot i]
  omega

/-- The copy of the tree takes a frame for its page and four for its tables. -/
theorem clone_is_private_onePageTree : cloneCost onePageTree.mem 1 = 5 ∧ pageByte onePageTree.mem 1 0 9 = some 42 ∧
    ∃ new s', onePageTree.cloneUserAddressSpace (1 * pageSize) (1 * pageSize) = some (new * pageSize, s') ∧
      PrivateCopy onePageTree s' 1 1 new := by
  refine ⟨onePageTree_cloneCost, by decide +kernel,
    clone_is_private onePageTree 1 1 onePageTree_wellFormed onePageTree_inUse (by decide) ?_⟩
  have hsub : ({8, 9, 10, 11, 12} : Finset Nat) ⊆ onePageTree.avail := by
    intro f hf
    refine Finset.mem_erase.mpr ⟨?_, PmmState.mem_freeSet.mpr ?_⟩ <;> revert f <;> decide
  rw [onePageTree_cloneCost]
  exact Finset.card_le_card hsub

end CoreOS
