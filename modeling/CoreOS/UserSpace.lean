/-
The address space of a process: the half of it that belongs to the kernel, the frames
that the process owns, and what a page mapped, unmapped or protected in its half leaves
alone.
-/
import CoreOS.AddressSpace
import CoreOS.NewPage
import CoreOS.VmRegions

namespace CoreOS

open ByteMem Radix

/-! ## The kernel half -/

/-- The tables reached through the upper half of the root table are the same,
entry by entry. -/
def SameKernelHalf (mem mem' : Mem) (root : Nat) : Prop :=
  ∀ q j, q.length ≤ 3 → ¬ UserPath (q ++ [j]) →
    tableAt mem' root q = tableAt mem root q ∧ ∀ t, tableAt mem root q = some t → tables mem' t j = tables mem t j

namespace SameKernelHalf

variable {mem mem' mem'' : Mem} {root : Nat}

theorem refl : SameKernelHalf mem mem root := fun _ _ _ _ => ⟨rfl, fun _ _ => rfl⟩

theorem trans (h1 : SameKernelHalf mem mem' root) (h2 : SameKernelHalf mem' mem'' root) :
    SameKernelHalf mem mem'' root := by
  intro q j hq hk
  obtain ⟨hw1, he1⟩ := h1 q j hq hk
  obtain ⟨hw2, he2⟩ := h2 q j hq hk
  exact ⟨hw2.trans hw1, fun t ht => (he2 t (hw1.trans ht)).trans (he1 t ht)⟩

theorem of_beyond {r : List (Fin 512)} (h : SameBeyond tableChild (tables mem) (tables mem') 3 root r)
    (hr : UserPath r) (hne : r ≠ []) : SameKernelHalf mem mem' root := by
  intro q j hq hk
  refine h q j hq fun hpre => hk ?_
  obtain ⟨x, hx⟩ := hpre
  rw [← hx]
  exact hr.append hne

theorem of_same (h : WellFormed.Same mem mem' root) : SameKernelHalf mem mem' root :=
  fun _ _ hq _ => ⟨h.tableAt (by omega), fun t ht => by rw [h _ t hq ht]⟩

end SameKernelHalf

/-- Two root tables have one upper half, and the tables under it are as they were. -/
structure SharedUpper (mem mem' : Mem) (root root' : Nat) : Prop where
  row : ∀ i : Fin 512, 256 ≤ i.val → tables mem' root' i = tables mem root i
  below : ∀ i p f, 256 ≤ Fin.val i → p.length ≤ 2 → tableAt mem root (i :: p) = some f → tables mem' f = tables mem f

namespace SharedUpper

variable {mem mem' : Mem} {root root' : Nat}

theorem tableAt {i : Fin 512} {p : List (Fin 512)} (h : SharedUpper mem mem' root root') (hi : 256 ≤ i.val)
    (hp : p.length ≤ 2) : CoreOS.tableAt mem' root' (i :: p) = CoreOS.tableAt mem root (i :: p) := by
  unfold CoreOS.tableAt
  rw [walk_cons, walk_cons, h.row i hi]
  cases hc : tableChild 0 (tables mem root i) with
  | none => rw [Option.bind_none, Option.bind_none]
  | some g =>
    rw [Option.bind_some, Option.bind_some]
    refine walk_congr fun p' g' _ hlt hg' => h.below i p' g' hi (by omega) ?_
    unfold CoreOS.tableAt
    rw [walk_cons, hc, Option.bind_some]
    exact hg'

theorem sameKernelHalf (h : SharedUpper mem mem' root root) : SameKernelHalf mem mem' root := by
  intro q j hq hk
  cases q with
  | nil =>
    refine ⟨by rw [CoreOS.tableAt, CoreOS.tableAt, walk_nil, walk_nil], fun f hf => ?_⟩
    rw [CoreOS.tableAt, walk_nil] at hf
    rw [← Option.some_inj.mp hf]
    exact h.row j (by simpa [UserPath] using hk)
  | cons i p =>
    have hi : 256 ≤ i.val := by simpa [UserPath] using hk
    have hp : p.length ≤ 2 := Nat.le_of_succ_le_succ hq
    exact ⟨h.tableAt hi hp, fun f hf => by rw [h.below i p f hi hp hf]⟩

theorem pageMap {v : PageNo} (h : SharedUpper mem mem' root root') (hv : ¬ v.User) :
    CoreOS.pageMap mem' root' v = CoreOS.pageMap mem root v := by
  have hi : 256 ≤ (dirIndex v 3).val := Nat.not_lt.mp hv
  have hentry : ∀ {p} (f : Word → Option Word) (j), p.length ≤ 2 →
      (CoreOS.tableAt mem' root' (dirIndex v 3 :: p)).bind (fun t => f (tables mem' t j)) =
        (CoreOS.tableAt mem root (dirIndex v 3 :: p)).bind fun t => f (tables mem t j) := by
    intro p f j hp
    rw [h.tableAt hi hp]
    cases ht : CoreOS.tableAt mem root (dirIndex v 3 :: p) with
    | none => rw [Option.bind_none, Option.bind_none]
    | some t => rw [Option.bind_some, Option.bind_some, h.below _ p t hi hp ht]
  have hhuge : hugeEntry mem' root' v = hugeEntry mem root v := by
    unfold hugeEntry
    exact hentry (fun e => if has e ptePresent ∧ has e pteHuge then some e else none) (dirIndex v 1) (by simp)
  have hpage : pageEntry mem' root' v = pageEntry mem root v := by
    unfold pageEntry dirPath
    exact hentry (fun e => if has e ptePresent then some e else none) (dirIndex v 0) (by simp)
  unfold CoreOS.pageMap
  rw [hhuge, hpage]

end SharedUpper

/-! ## What a process owns -/

/-- The pages of the lower half are 4 KiB pages, in frames of their own. -/
structure UserSpace (s : Phys) (root : Nat) : Prop where
  wf : WellFormed s root
  small : ∀ v : PageNo, v.User → hugeEntry s.mem root v = none
  used : ∀ v e, v.User → pageEntry s.mem root v = some e → s.pmm.isFree (leafFrame e) = false
  noTable : ∀ v e q, v.User → pageEntry s.mem root v = some e → q.length ≤ 3 →
    tableAt s.mem root q ≠ some (leafFrame e)
  own : ∀ v w e e', v.User → w.User → pageEntry s.mem root v = some e → pageEntry s.mem root w = some e' →
    leafFrame e = leafFrame e' → v = w

/-- A step that changes nothing but the lower half. -/
structure LowStep (s s' : Phys) (root : Nat) : Prop where
  space : UserSpace s' root
  kernel : SameKernelHalf s.mem s'.mem root

variable {s : Phys} {root : Nat}

theorem LowStep.refl (h : UserSpace s root) : LowStep s s root := ⟨h, .refl⟩

theorem LowStep.trans {s' s'' : Phys} (h1 : LowStep s s' root) (h2 : LowStep s' s'' root) :
    LowStep s s'' root := ⟨h2.space, h1.kernel.trans h2.kernel⟩

theorem PageSet.tableAt {s' : Phys} {v : PageNo} {w : Word} {q : List (Fin 512)} (hs : PageSet s s' root v w)
    (hq : q.length ≤ 3) :
    tableAt s'.mem root q = tableAt s.mem root q := by
  refine hs.beyond.walk_eq (by omega) fun hpre => ?_
  have := hpre.length_le
  simp only [dirPath, List.length_append, List.length_cons, List.length_nil] at this
  omega

namespace UserSpace

variable {s s' : Phys} {root g : Nat} {v : PageNo}

theorem pageEntry_of_empty (hzero : ∀ i, tables s.mem root i = 0) (v : PageNo) : pageEntry s.mem root v = none := by
  cases hpt : tableAt s.mem root (dirPath v) with
  | none => rw [pageEntry, hpt, Option.bind_none]
  | some pt => cases (tableAt_of_empty hzero hpt).1

theorem of_empty (hlt : root < maxFrames) (hused : s.pmm.isFree root = false) (hzero : ∀ i, tables s.mem root i = 0) :
    UserSpace s root := by
  refine ⟨.of_empty hlt hused hzero, fun v _ => ?_, fun v e _ he => ?_, fun v e q _ he => ?_, fun v w e e' _ _ he => ?_⟩
  · cases hpd : tableAt s.mem root [dirIndex v 3, dirIndex v 2] with
    | none => rw [hugeEntry, hpd, Option.bind_none]
    | some pd => cases (tableAt_of_empty hzero hpd).1
  all_goals
    rw [pageEntry_of_empty hzero v] at he
    cases he

theorem same (h : UserSpace s root) (hm : WellFormed.Same s.mem s'.mem root)
    (ht : ∀ p f, p.length ≤ 3 → tableAt s.mem root p = some f → s'.pmm.isFree f = false)
    (hp : ∀ v e, v.User → pageEntry s.mem root v = some e → s'.pmm.isFree (leafFrame e) = false) :
    UserSpace s' root := by
  refine ⟨h.wf.same hm ht, fun v hv => ?_, fun v e hv he => ?_, fun v e q hv he hq hqt => ?_,
    fun v w e e' hv hw he he' => ?_⟩
  · rw [hm.hugeEntry, h.small v hv]
  · rw [hm.pageEntry] at he
    exact hp v e hv he
  · rw [hm.pageEntry] at he
    rw [hm.tableAt (by omega)] at hqt
    exact h.noTable v e q hv he hq hqt
  · rw [hm.pageEntry] at he he'
    exact h.own v w e e' hv hw he he'

theorem write {mem : Mem} (h : UserSpace s root) (hg : ¬ IsTable s root g)
    (hmem : ∀ x, x / pageSize ≠ g → mem x = s.mem x) : LowStep s (s.setMem mem) root := by
  have hm : WellFormed.Same s.mem mem root := .of_frame hg hmem
  exact ⟨h.same hm (fun p f hp hf => (h.wf.table p f hp hf).2) h.used, .of_same hm⟩

theorem pageSet {w e0 : Word} (h : UserSpace s root) (hv : v.User) (he0 : pageEntry s.mem root v = some e0)
    (hs : PageSet s s' root v w) (hw : has w ptePresent = true → leafFrame w = leafFrame e0) : LowStep s s' root := by
  -- what is mapped after was mapped before, to the same frame
  have hpage : ∀ u e, pageEntry s'.mem root u = some e →
      ∃ e', pageEntry s.mem root u = some e' ∧ leafFrame e = leafFrame e' := by
    intro u e he
    rw [hs.page u] at he
    split at he
    · next huv =>
      subst huv
      split at he
      · next hp =>
        cases he
        exact ⟨e0, he0, hw hp⟩
      · cases he
    · exact ⟨e, he, rfl⟩
  refine ⟨⟨hs.wf, fun u hu => by rw [hs.huge u, h.small u hu], fun u e hu he => ?_, fun u e q hu he hq hqt => ?_,
    fun u x e e' hu hx he he' heq => ?_⟩, .of_beyond hs.beyond ?_ (by simp)⟩
  · obtain ⟨e', he', hl⟩ := hpage u e he
    rw [hl, hs.pmm]
    exact h.used u e' hu he'
  · obtain ⟨e', he', hl⟩ := hpage u e he
    rw [hl, hs.tableAt hq] at hqt
    exact h.noTable u e' q hu he' hq hqt
  · obtain ⟨d, hd, hl⟩ := hpage u e he
    obtain ⟨d', hd', hl'⟩ := hpage x e' he'
    exact h.own u x d d' hu hx hd hd' (by rw [← hl, ← hl', heq])
  · exact PageNo.User.path hv

variable {virt : Nat}

theorem unmapFree (h : UserSpace s root) (hv : (pageNo virt).User) :
    LowStep s (s.unmapFree (root * pageSize) virt) root := by
  unfold Phys.unmapFree
  rcases unmapPageIn_cases h.wf virt with ⟨-, he⟩ | ⟨e, s1, he, hu, hs⟩
  · rw [he]
    exact ⟨h, .refl⟩
  · rw [hu]
    obtain ⟨h1, hk⟩ := h.pageSet hv he hs (by rw [has_zero]; nofun)
    dsimp only
    have hpage : ∀ w e', pageEntry s1.mem root w = some e' → w ≠ pageNo virt ∧ pageEntry s.mem root w = some e' := by
      intro w e' hw
      rw [hs.page w, has_zero] at hw
      split at hw
      · cases hw
      · next hne => exact ⟨hne, hw⟩
    refine ⟨h1.same (fun p f _ _ => by rw [Phys.freeFrame_mem]) (fun p f hp hf => ?_) fun w e' hw he' => ?_, ?_⟩
    · rw [Phys.freeFrame_other, (h1.wf.table p f hp hf).2]
      intro hfe
      rw [hs.tableAt hp, hfe] at hf
      exact h.noTable _ e p hv he hp hf
    · obtain ⟨hne, hw0⟩ := hpage w e' he'
      rw [Phys.freeFrame_other, h1.used w e' hw he']
      exact fun heq => hne (h.own w (pageNo virt) e' e hw hv hw0 he heq)
    · rw [Phys.freeFrame_mem]
      exact hk

theorem protectPageIn (flags : MapFlags) (h : UserSpace s root) (hv : (pageNo virt).User) :
    LowStep s (s.protectPageIn (root * pageSize) virt flags).2 root := by
  rcases protectPageIn_cases h.wf virt flags with ⟨-, he⟩ | ⟨e, s1, he, -, hu, hs⟩
  · rw [he]
    exact .refl h
  · rw [hu]
    refine h.pageSet hv he hs fun _ => ?_
    rw [leafFrame, (protectEntry_facts e flags).2.1, leafFrame]

end UserSpace

/-! ## Pages mapped -/

/-- The pages in `V` have frames of their own that were free, and the others are as
before. -/
structure PagesMapped (t t' : Phys) (root : Nat) (V : PageNo → Prop) : Prop where
  wf : WellFormed t' root
  huge : ∀ v, hugeEntry t'.mem root v = hugeEntry t.mem root v
  new : ∀ v, V v → ∃ e, pageEntry t'.mem root v = some e ∧ leafFrame e ∈ t.avail ∧
    t'.pmm.isFree (leafFrame e) = false ∧ ¬ IsTable t' root (leafFrame e)
  own : ∀ v w e e', V v → V w → pageEntry t'.mem root v = some e → pageEntry t'.mem root w = some e' →
    leafFrame e = leafFrame e' → v = w
  old : ∀ v, ¬ V v → pageEntry t'.mem root v = pageEntry t.mem root v
  table : ∀ g, IsTable t' root g → IsTable t root g ∨ t.pmm.isFree g = true
  kept : ∀ g, IsTable t root g → IsTable t' root g
  taken : ∀ g, Taken t t' g → IsTable t' root g ∨ ∃ v e, V v ∧ pageEntry t'.mem root v = some e ∧ leafFrame e = g
  writes : Writes t t' (IsTable t root)
  kernel : (∀ v, V v → v.User) → SameKernelHalf t.mem t'.mem root

section Mapped

variable {t t' t'' : Phys} {root : Nat} {V V' W : PageNo → Prop}

variable {g : Nat}

theorem Writes.avail {T : Nat → Prop} (h : Writes t t' T) (hg : g ∈ t'.avail) : g ∈ t.avail := by
  rw [mem_avail] at hg ⊢
  exact ⟨hg.1, hg.2.1, h.free g hg.2.2⟩

theorem WellFormed.isTable_used (h : WellFormed t root) (hg : IsTable t root g) : t.pmm.isFree g = false := by
  obtain ⟨q, hq, hqg⟩ := hg
  exact (h.table q g hq hqg).2

namespace PagesMapped

theorem refl (h : WellFormed t root) (hV : ∀ v, ¬ V v) : PagesMapped t t root V where
  wf := h
  huge := fun _ => rfl
  new := fun v hv => absurd hv (hV v)
  own := fun v _ _ _ hv => absurd hv (hV v)
  old := fun _ _ => rfl
  table := fun _ hg => .inl hg
  kept := fun _ hg => hg
  taken := fun g hg => by
    have hused := hg.2
    rw [hg.1] at hused
    cases hused
  writes := .refl
  kernel := fun _ => .refl

variable {v w : PageNo} {e e' : Word}

theorem frame (h : PagesMapped t t' root V) (hv : V v) (he : pageEntry t'.mem root v = some e) :
    leafFrame e ∈ t.avail ∧ t'.pmm.isFree (leafFrame e) = false ∧ ¬ IsTable t' root (leafFrame e) := by
  obtain ⟨e', he', hframe⟩ := h.new v hv
  cases he.symm.trans he'
  exact hframe

/-- Bytes of a frame in use that holds no table stay as they are. -/
theorem mem {x : Nat} (h : PagesMapped t t' root V) (hused : t.pmm.isFree (x / pageSize) = false)
    (hx : ¬ IsTable t root (x / pageSize)) : t'.mem x = t.mem x := by
  rcases h.writes.mem x with hy | hy | hy
  · exact hy
  · exact absurd hy hx
  · rw [hy.1] at hused
    cases hused

theorem trans (h1 : PagesMapped t t' root V) (h2 : PagesMapped t' t'' root V') (hapart : ∀ v, V v → ¬ V' v)
    (hW : ∀ v, W v ↔ V v ∨ V' v) : PagesMapped t t'' root W where
  wf := h2.wf
  huge := fun v => (h2.huge v).trans (h1.huge v)
  new := fun v hv => by
    rcases (hW v).mp hv with hv | hv
    · obtain ⟨e, he, hfree, hused, htable⟩ := h1.new v hv
      refine ⟨e, (h2.old v (hapart v hv)).trans he, hfree, h2.writes.used hused, fun hnew => ?_⟩
      rcases h2.table _ hnew with hold | hfree
      · exact htable hold
      · rw [hused] at hfree
        cases hfree
    · obtain ⟨e, he, hfree, hframe⟩ := h2.new v hv
      exact ⟨e, he, h1.writes.avail hfree, hframe⟩
  own := fun v w e e' hv hw he he' heq => by
    -- a frame of the first pages is in use when the others get theirs
    have hne : ∀ {v w e e'}, V v → V' w → pageEntry t''.mem root v = some e → pageEntry t''.mem root w = some e' →
        leafFrame e ≠ leafFrame e' := by
      intro v w e e' hv hw he he' heq
      have hused := (h1.frame hv ((h2.old v (hapart v hv)).symm.trans he)).2.1
      rw [heq, (mem_avail.mp (h2.frame hw he').1).2.2] at hused
      cases hused
    rcases (hW v).mp hv with hv | hv
    all_goals rcases (hW w).mp hw with hw | hw
    · rw [h2.old v (hapart v hv)] at he
      rw [h2.old w (hapart w hw)] at he'
      exact h1.own v w e e' hv hw he he' heq
    · exact absurd heq (hne hv hw he he')
    · exact absurd heq.symm (hne hw hv he' he)
    · exact h2.own v w e e' hv hw he he' heq
  old := fun v hv => by
    rw [hW v, not_or] at hv
    rw [h2.old v hv.2, h1.old v hv.1]
  table := fun g hg => by
    rcases h2.table g hg with hg | hg
    · exact h1.table g hg
    · exact .inr (h1.writes.free g hg)
  kept := fun g hg => h2.kept g (h1.kept g hg)
  taken := fun g hg => by
    by_cases hmid : t'.pmm.isFree g = true
    · rcases h2.taken g ⟨hmid, hg.2⟩ with htab | ⟨v, e, hv, he, heg⟩
      · exact .inl htab
      · exact .inr ⟨v, e, (hW v).mpr (.inr hv), he, heg⟩
    · rcases h1.taken g ⟨hg.1, by simpa using hmid⟩ with htab | ⟨v, e, hv, he, heg⟩
      · exact .inl (h2.kept g htab)
      · exact .inr ⟨v, e, (hW v).mpr (.inl hv), (h2.old v (hapart v hv)).trans he, heg⟩
  writes := by
    refine h1.writes.trans h2.writes fun g hg => ?_
    exact (h1.table g hg).imp id fun hfree => ⟨hfree, h1.wf.isTable_used hg⟩
  kernel := fun hu => by
    have hu1 : ∀ v, V v → v.User := fun v hv => hu v ((hW v).mpr (.inl hv))
    have hu2 : ∀ v, V' v → v.User := fun v hv => hu v ((hW v).mpr (.inr hv))
    exact (h1.kernel hu1).trans (h2.kernel hu2)

theorem of_newPage (h : NewPage t t' root v e) : PagesMapped t t' root (· = v) where
  wf := h.wf
  huge := h.huge
  new := fun w hw => ⟨e, (h.page w).trans (if_pos hw), h.frame, h.used, h.noTable⟩
  own := fun _ _ _ _ hw hu _ _ _ => hw.trans hu.symm
  old := fun w hw => (h.page w).trans (if_neg hw)
  table := fun g ⟨q, hq, hqg⟩ => (h.table q g hq hqg).imp (fun hg => ⟨q, hq, hg⟩) And.left
  kept := fun g ⟨q, hq, hqg⟩ => ⟨q, hq, h.kept q g hq hqg⟩
  taken := fun g hg => (h.taken g hg).imp id fun heg => ⟨v, e, rfl, (h.page v).trans (if_pos rfl), heg.symm⟩
  writes := h.writes
  kernel := fun hu => by
    refine .of_beyond h.beyond (fun i hi => ?_) (by simp)
    cases hi
    exact hu v rfl

theorem write {mem : Mem} (h : PagesMapped t t' root V) (hv : V v) (he : pageEntry t'.mem root v = some e)
    (hout : ∀ x, x / pageSize ≠ leafFrame e → mem x = t'.mem x) : PagesMapped t (t'.setMem mem) root V := by
  obtain ⟨hfree, hused, htable⟩ := h.frame hv he
  have hsame : WellFormed.Same t'.mem mem root := .of_frame htable hout
  have hpage : ∀ w, pageEntry mem root w = pageEntry t'.mem root w := fun w => hsame.pageEntry
  have htab : ∀ g, IsTable (t'.setMem mem) root g ↔ IsTable t' root g := by
    intro g
    refine exists_congr fun q => and_congr_right fun hq => ?_
    rw [← hsame.tableAt (by omega)]
    rfl
  refine ⟨h.wf.same hsame fun p f hp hf => (h.wf.table p f hp hf).2, fun w => hsame.hugeEntry.trans (h.huge w),
    fun w hw => ?_, fun u w d d' hu hw hd hd' => ?_, fun w hw => (hpage w).trans (h.old w hw),
    fun g hg => h.table g ((htab g).mp hg), fun g hg => (htab g).mpr (h.kept g hg), fun g hg => ?_, ?_,
    fun hu => (h.kernel hu).trans (.of_same hsame)⟩
  · obtain ⟨d, hd, hfree, hused, htable⟩ := h.new w hw
    exact ⟨d, (hpage w).trans hd, hfree, hused, fun hnew => htable ((htab _).mp hnew)⟩
  · exact h.own u w d d' hu hw ((hpage u).symm.trans hd) ((hpage w).symm.trans hd')
  · rcases h.taken g hg with hg | ⟨w, d, hw, hd, heg⟩
    · exact .inl ((htab g).mpr hg)
    · exact .inr ⟨w, d, hw, (hpage w).trans hd, heg⟩
  · refine h.writes.trans (.setMem hout) fun g hg => .inr ?_
    rw [hg]
    exact ⟨(mem_avail.mp hfree).2.2, hused⟩

/-- **A process still owns its frames** when its pages are mapped. -/
theorem space (h : PagesMapped t t' root V) (hs : UserSpace t root) : UserSpace t' root := by
  have hnew : ∀ {v w e e'}, V v → ¬ V w → w.User → pageEntry t'.mem root v = some e →
      pageEntry t'.mem root w = some e' → leafFrame e ≠ leafFrame e' := by
    intro v w e e' hv hw hu he he' heq
    have hfree := (mem_avail.mp (h.frame hv he).1).2.2
    rw [heq, hs.used w e' hu ((h.old w hw).symm.trans he')] at hfree
    cases hfree
  refine ⟨h.wf, fun v hv => by rw [h.huge v, hs.small v hv], fun v e hv he => ?_, fun v e q hv he hq hqe => ?_,
    fun v w e e' hv hw he he' heq => ?_⟩
  · by_cases hin : V v
    · exact (h.frame hin he).2.1
    · exact h.writes.used (hs.used v e hv ((h.old v hin).symm.trans he))
  · by_cases hin : V v
    · exact (h.frame hin he).2.2 ⟨q, hq, hqe⟩
    · rw [h.old v hin] at he
      rcases h.table _ ⟨q, hq, hqe⟩ with ⟨q', hq', hqe'⟩ | hfree
      · exact hs.noTable v e q' hv he hq' hqe'
      · rw [hs.used v e hv he] at hfree
        cases hfree
  · by_cases hin : V v
    all_goals by_cases hin' : V w
    · exact h.own v w e e' hin hin' he he' heq
    · exact absurd heq (hnew hin hin' hw he he')
    · exact absurd heq.symm (hnew hin' hin hv he' he)
    · exact hs.own v w e e' hv hw ((h.old v hin).symm.trans he) ((h.old w hin').symm.trans he') heq

theorem lowStep (h : PagesMapped t t' root V) (hs : UserSpace t root) (hu : ∀ v, V v → v.User) : LowStep t t' root :=
  ⟨h.space hs, h.kernel hu⟩

end PagesMapped

end Mapped

theorem UserSpace.newPage {virt a : Nat} {flags : MapFlags} {s s1 s2 : Phys} (h : UserSpace s root) (hv : (pageNo virt).User)
    (hal : s.allocFrame = (a, s1)) (ha : a ≠ 0) (hm : s1.mapPageIn (root * pageSize) virt a flags = some s2) :
    ∃ e, NewPage s (s2.setMem (fill s2.mem a pageSize 0)) root (pageNo virt) e ∧
      LowStep s (s2.setMem (fill s2.mem a pageSize 0)) root := by
  obtain ⟨e, hnew⟩ := h.wf.newPage (h.small _ hv) hal ha hm
  exact ⟨e, hnew, (PagesMapped.of_newPage hnew).lowStep h fun v hv' => hv' ▸ hv⟩

/-! ## Rounds of the loop that maps a range -/

namespace Phys

variable {s s1 : Phys} {pml4 start a i : Nat} {flags : MapFlags} {seed : Option (List Byte)} (n : Nat)

theorem mapPages_oom (hal : s.allocFrame = (0, s1)) :
    mapPages pml4 start flags seed (n + 1) i s = some (some i, s1) := by
  unfold mapPages
  rw [hal]
  rfl

theorem mapPages_new (hal : s.allocFrame = (a, s1)) (ha : a ≠ 0) :
    mapPages pml4 start flags seed (n + 1) i s =
      (s1.mapPageIn pml4 (wrappingAdd start (i * pageSize)) a flags).bind fun s2 =>
        mapPages pml4 start flags seed n (i + 1) ((s2.setMem (fill s2.mem a pageSize 0)).seedPage pml4
          (wrappingAdd start (i * pageSize)) (i * pageSize) seed) := by
  rw [mapPages, hal]
  split
  next h => exact absurd (congrArg Prod.fst h) ha
  next h =>
    cases h
    dsimp only
    split
    next hm => rw [hm, Option.bind_none]
    next hm => rw [hm, Option.bind_some]

/-- **Everything a round can do.** -/
theorem mapPages_cases (s : Phys) (pml4 start i : Nat) (flags : MapFlags) (seed : Option (List Byte)) :
    (s.allocFrame = (0, s) ∧ s.avail = ∅ ∧ mapPages pml4 start flags seed (n + 1) i s = some (some i, s)) ∨
    ∃ g s1, s.allocFrame = (g * pageSize, s1) ∧ Took s g 1 s1 ∧ mapPages pml4 start flags seed (n + 1) i s =
      (s1.mapPageIn pml4 (wrappingAdd start (i * pageSize)) (g * pageSize) flags).bind fun s2 =>
        mapPages pml4 start flags seed n (i + 1) ((s2.setMem (fill s2.mem (g * pageSize) pageSize 0)).seedPage pml4
          (wrappingAdd start (i * pageSize)) (i * pageSize) seed) := by
  rcases s.allocFrame_cases with ⟨g, s1, hal, ht⟩ | ⟨hal, hnone⟩
  · exact .inr ⟨g, s1, hal, ht, mapPages_new n hal ht.addr_ne_zero⟩
  · exact .inl ⟨hal, avail_eq_empty hnone, mapPages_oom n hal⟩

end Phys

theorem pageNo_user {virt : Nat} (h : virt < userTop) : (pageNo virt).User := by
  unfold PageNo.User dirIndex pageNo
  unfold userTop at h
  unfold pageSize
  dsimp only
  omega

theorem emptyTree_userSpace : UserSpace emptyTree 1 := .of_empty (by decide) (by decide) (emptyTree_tables 1)

end CoreOS
