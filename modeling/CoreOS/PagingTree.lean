/-
Page tables as a tree: what it takes for one to be well formed, the pages it
maps, and what the writes the kernel makes to it do: linking a new table and
replacing a 4 KiB entry.
-/
import CoreOS.PagingEntry

namespace CoreOS

open ByteMem Radix
open Option (bind_some bind_congr)

/-! ## Page numbers -/

/-- The number of a page: bits 12 to 47 of its address. -/
abbrev PageNo := Fin (2 ^ 36)

def pageNo (virt : Nat) : PageNo := ⟨virt / pageSize % 2 ^ 36, Nat.mod_lt _ (by decide)⟩

/-- The index of a page in the table at level `k` on its path, `0` being the
page table. -/
def dirIndex (v : PageNo) (k : Nat) : Fin 512 := ⟨v / 512 ^ k % 512, Nat.mod_lt _ (by decide)⟩

/-- The path to the page table of a page. -/
def dirPath (v : PageNo) : List (Fin 512) := [dirIndex v 3, dirIndex v 2, dirIndex v 1]

variable {v : PageNo}

theorem PageNo.eq_of_path {w : PageNo} (h : dirPath v ++ [dirIndex v 0] = dirPath w ++ [dirIndex w 0]) : v = w := by
  simp only [dirPath, dirIndex, List.cons_append, List.nil_append, List.cons.injEq, Fin.mk.injEq, and_true] at h
  have hv := v.isLt
  have hw := w.isLt
  apply Fin.ext
  omega

theorem exists_page_of_path {p : List (Fin 512)} (h : p.length = 4) : ∃ v, dirPath v ++ [dirIndex v 0] = p := by
  obtain ⟨a, b, c, d, rfl⟩ : ∃ a b c d, p = [a, b, c, d] := List.length_eq_four.mp h
  have ha := a.isLt
  have hb := b.isLt
  have hc := c.isLt
  have hd := d.isLt
  refine ⟨⟨((a.val * 512 + b.val) * 512 + c.val) * 512 + d.val, by omega⟩, ?_⟩
  simp only [dirPath, dirIndex, List.cons_append, List.nil_append, List.cons.injEq, Fin.ext_iff, and_true]
  omega

theorem tableIndex_eq (virt : Nat) : tableIndex virt 39 = dirIndex (pageNo virt) 3 ∧
    tableIndex virt 30 = dirIndex (pageNo virt) 2 ∧ tableIndex virt 21 = dirIndex (pageNo virt) 1 ∧
    tableIndex virt 12 = dirIndex (pageNo virt) 0 := by
  simp only [tableIndex, dirIndex, pageNo, Nat.shiftRight_eq_div_pow, pageSize]
  omega

/-! ## Trees -/

/-- The table an entry of a table at depth `d` points to; at depth `2` a huge
entry is a page. -/
def tableChild (d : Nat) (e : Word) : Option Nat :=
  if has e ptePresent ∧ ¬ (d = 2 ∧ has e pteHuge) then some (frameOf e) else none

/-- The frame of the table at the end of a path from `root`. -/
def tableAt (mem : Mem) (root : Nat) (p : List (Fin 512)) : Option Nat := walk tableChild (tables mem) 0 root p

/-- The tables of a tree are reached by one path each and are not free, and
their entries above the page tables are zero or present. -/
structure WellFormed (s : Phys) (root : Nat) : Prop where
  once : Tree tableChild (tables s.mem) 3 root
  table : ∀ p f, p.length ≤ 3 → tableAt s.mem root p = some f → f < maxFrames ∧ s.pmm.isFree f = false
  nonleaf : ∀ p f i, p.length ≤ 2 → tableAt s.mem root p = some f →
    tables s.mem f i = 0 ∨ has (tables s.mem f i) ptePresent = true

/-- The 2 MiB entry that covers a page. -/
def hugeEntry (mem : Mem) (root : Nat) (v : PageNo) : Option Word :=
  (tableAt mem root [dirIndex v 3, dirIndex v 2]).bind fun pd =>
    let e := tables mem pd (dirIndex v 1)
    if has e ptePresent ∧ has e pteHuge then some e else none

/-- The present 4 KiB entry of a page. -/
def pageEntry (mem : Mem) (root : Nat) (v : PageNo) : Option Word :=
  (tableAt mem root (dirPath v)).bind fun pt =>
    let e := tables mem pt (dirIndex v 0)
    if has e ptePresent then some e else none

theorem has_zero {bit : Word} : has 0 bit = false := by simp [has]

theorem tableChild_zero {d : Nat} : tableChild d 0 = none := by
  rw [tableChild, if_neg]
  rw [has_zero]
  nofun

variable {f : Nat}

theorem tableChild_some {d : Nat} {e : Word} (h : tableChild d e = some f) :
    has e ptePresent = true ∧ ¬ (d = 2 ∧ has e pteHuge = true) ∧ frameOf e = f := by
  unfold tableChild at h
  split at h
  · next hc => exact ⟨hc.1, hc.2, Option.some.inj h⟩
  · cases h

theorem tableAt_dirPath {mem : Mem} {root : Nat} : tableAt mem root (dirPath v) =
    (tableAt mem root [dirIndex v 3, dirIndex v 2]).bind fun pd => tableChild 2 (tables mem pd (dirIndex v 1)) :=
  walk_snoc (p := [dirIndex v 3, dirIndex v 2])

theorem pageEntry_of_huge {mem : Mem} {root : Nat} {e : Word} (h : hugeEntry mem root v = some e) :
    tableAt mem root (dirPath v) = none := by
  obtain ⟨pd, hpd, he⟩ := Option.bind_eq_some_iff.mp h
  dsimp only at he
  split at he
  · next hc => rw [tableAt_dirPath, hpd, bind_some, tableChild, if_neg (by simp [hc.2])]
  · cases he

/-! ## Memory in use stays as it is -/

/-- `s'` has no frame free that was not, and what was in use is unchanged. -/
structure Keeps (s s' : Phys) : Prop where
  free : ∀ f, s'.pmm.isFree f = true → s.pmm.isFree f = true
  mem : ∀ x, s.pmm.isFree (x / pageSize) = false → s'.mem x = s.mem x

variable {s s' : Phys}

theorem Keeps.tables (h : Keeps s s') (hf : s.pmm.isFree f = false) :
    tables s'.mem f = tables s.mem f := by
  refine tables_congr fun x h1 h2 => h.mem x ?_
  rwa [show x / pageSize = f by unfold pageSize at *; omega]

theorem Keeps.used (h : Keeps s s') (hf : s.pmm.isFree f = false) :
    s'.pmm.isFree f = false := by
  by_contra hne
  rw [h.free f (by simpa using hne)] at hf
  cases hf

theorem Keeps.refl : Keeps s s := ⟨fun _ h => h, fun _ _ => rfl⟩

theorem Keeps.trans {t u : Phys} (h1 : Keeps s t) (h2 : Keeps t u) : Keeps s u :=
  ⟨fun f hf => h1.free f (h2.free f hf), fun x hx => (h2.mem x (h1.used hx)).trans (h1.mem x hx)⟩

variable {g : Nat}

theorem Phys.Took.keeps {n : Nat} (h : Took s g n s') : Keeps s s' := by
  refine ⟨fun f hf => ((h.isFree f).mp hf).1, fun x hx => ?_⟩
  rw [h.mem]
  refine fill_out ?_
  by_contra! hin
  have hfree := h.run (x / pageSize - g) (by unfold pageSize at *; omega)
  rw [show g + (x / pageSize - g) = x / pageSize by unfold pageSize at *; omega, hx] at hfree
  cases hfree

theorem Phys.Took.used (h : Took s g 1 s') : s'.pmm.isFree g = false := by
  by_contra hne
  rw [Bool.not_eq_false, h.isFree] at hne
  exact hne.2 ⟨Nat.le_refl g, by omega⟩

theorem Phys.Took.row (h : Took s g 1 s') : tables s'.mem g = fun _ => 0 := by
  rw [h.mem, Nat.one_mul]
  exact tables_fill

/-- A frame in use that is no table of the tree. -/
structure Aside (s : Phys) (root g : Nat) : Prop where
  bound : g < maxFrames
  used : s.pmm.isFree g = false
  noTable : ∀ q, q.length ≤ 3 → tableAt s.mem root q ≠ some g

namespace WellFormed

variable {s s' : Phys} {root f g : Nat} {p q : List (Fin 512)} {i : Fin 512} {v : PageNo}

/-- A tree whose tables are the same, as far as they are reached. -/
def Same (mem mem' : Mem) (root : Nat) : Prop :=
  ∀ p f, p.length ≤ 3 → tableAt mem root p = some f → tables mem' f = tables mem f

variable {mem mem' : Mem}

theorem Same.tableAt (h : Same mem mem' root) (hq : q.length ≤ 4) :
    tableAt mem' root q = tableAt mem root q := walk_unreached h hq

theorem Same.hugeEntry (h : Same mem mem' root) : hugeEntry mem' root v = hugeEntry mem root v := by
  unfold CoreOS.hugeEntry
  rw [h.tableAt (by simp)]
  refine bind_congr fun pd hpd => ?_
  rw [h _ pd (by simp) hpd]

theorem Same.pageEntry (h : Same mem mem' root) : pageEntry mem' root v = pageEntry mem root v := by
  unfold CoreOS.pageEntry
  rw [h.tableAt (by simp [dirPath])]
  refine bind_congr fun pt hpt => ?_
  rw [h _ pt (by simp [dirPath]) hpt]

theorem same (hw : WellFormed s root) (h : Same s.mem s'.mem root)
    (hused : ∀ p f, p.length ≤ 3 → tableAt s.mem root p = some f → s'.pmm.isFree f = false) : WellFormed s' root := by
  refine ⟨hw.once.unreached h, fun p f hp hf => ?_, fun p f i hp hf => ?_⟩
  · rw [h.tableAt (by omega)] at hf
    exact ⟨(hw.table p f hp hf).1, hused p f hp hf⟩
  · rw [h.tableAt (by omega)] at hf
    rw [h p f (by omega) hf]
    exact hw.nonleaf p f i hp hf

theorem same_of_keeps (hw : WellFormed s root) (hk : Keeps s s') : Same s.mem s'.mem root :=
  fun p f hp hf => hk.tables (hw.table p f hp hf).2

theorem reached (hw : WellFormed s root) (hk : Keeps s s') (hp : p.length ≤ 3) (hf : tableAt s.mem root p = some f) :
    tables s'.mem f = tables s.mem f := hw.same_of_keeps hk p f hp hf

theorem tableAt_keeps (hw : WellFormed s root) (hk : Keeps s s') (hq : q.length ≤ 4) :
    tableAt s'.mem root q = tableAt s.mem root q := (hw.same_of_keeps hk).tableAt hq

theorem keeps (hw : WellFormed s root) (hk : Keeps s s') : WellFormed s' root :=
  hw.same (hw.same_of_keeps hk) fun p f hp hf => hk.used (hw.table p f hp hf).2

theorem hugeEntry_keeps (hw : WellFormed s root) (hk : Keeps s s') : hugeEntry s'.mem root v = hugeEntry s.mem root v :=
  (hw.same_of_keeps hk).hugeEntry

theorem pageEntry_keeps (hw : WellFormed s root) (hk : Keeps s s') : pageEntry s'.mem root v = pageEntry s.mem root v :=
  (hw.same_of_keeps hk).pageEntry

theorem aside_took (hw : WellFormed s root) (ht : Phys.Took s g 1 s') : Aside s' root g := by
  refine ⟨ht.bound, ht.used, fun q hq hqg => ?_⟩
  have hfree : s.pmm.isFree g = true := ht.run 0 (by decide)
  rw [hw.tableAt_keeps ht.keeps (by omega)] at hqg
  rw [(hw.table q g hq hqg).2] at hfree
  cases hfree

/-! ## Linking a table -/

section Link

variable {flags : MapFlags} (hw : WellFormed s root) (hf : tableAt s.mem root p = some f) (hp : p.length ≤ 2)
  (hzero : tables s.mem f i = 0) (hg : g < maxFrames) (hrow : tables s.mem g = fun _ => 0)
  (hfresh : ∀ q, q.length ≤ 3 → tableAt s.mem root q ≠ some g)
include hw hf hp hzero hg hrow hfresh

theorem tableAt_link (hq : q.length ≤ 4) :
    tableAt (writeEntry s.mem (f * pageSize) i (tableEntry g flags)) root q =
      if q = p ++ [i] then some g else tableAt s.mem root q := by
  obtain ⟨hpresent, hhuge, hframe⟩ := tableEntry_facts flags hg
  unfold tableAt
  rw [tables_writeEntry]
  refine walk_link hw.once hf (by omega) ?_ ?_ (fun h => hfresh p (by omega) (h ▸ hf)) (fun d j => ?_) hq
  · rw [hzero, tableChild_zero]
  · rw [tableChild, if_pos ⟨hpresent, by simp [hhuge]⟩, hframe]
  · rw [hrow, tableChild_zero]

theorem link (hused : s.pmm.isFree g = false) :
    WellFormed (s.setMem (writeEntry s.mem (f * pageSize) i (tableEntry g flags))) root := by
  obtain ⟨hpresent, hhuge, hframe⟩ := tableEntry_facts flags hg
  have hgf : g ≠ f := fun h => hfresh p (by omega) (h ▸ hf)
  have hat : ∀ {q : List (Fin 512)}, q.length ≤ 4 →
      tableAt (s.setMem (writeEntry s.mem (f * pageSize) i (tableEntry g flags))).mem root q =
        if q = p ++ [i] then some g else tableAt s.mem root q :=
    fun hq => tableAt_link hw hf hp hzero hg hrow hfresh hq
  have hT : tables (s.setMem (writeEntry s.mem (f * pageSize) i (tableEntry g flags))).mem =
      setEntry (tables s.mem) f i (tableEntry g flags) := tables_writeEntry
  refine ⟨?_, fun q t hq ht => ?_, fun q t j hq ht => ?_⟩
  · rw [hT]
    refine hw.once.link hf (by omega) ?_ ?_ hgf (fun d j => ?_) hfresh
    · rw [hzero, tableChild_zero]
    · rw [tableChild, if_pos ⟨hpresent, by simp [hhuge]⟩, hframe]
    · rw [hrow, tableChild_zero]
  · rw [hat (by omega)] at ht
    split at ht
    · cases ht
      exact ⟨hg, hused⟩
    · exact hw.table q t hq ht
  · rw [hat (by omega)] at ht
    rw [hT]
    split at ht
    · cases ht
      rw [setEntry_table hgf, hrow]
      exact .inl rfl
    · by_cases hsame : t = f ∧ j = i
      · obtain ⟨rfl, rfl⟩ := hsame
        rw [setEntry_self]
        exact .inr hpresent
      · rw [setEntry_other (by rw [← not_and_or]; exact hsame)]
        exact hw.nonleaf q t j hq ht

theorem hugeEntry_link :
    hugeEntry (writeEntry s.mem (f * pageSize) i (tableEntry g flags)) root v = hugeEntry s.mem root v := by
  have hgf : g ≠ f := fun h => hfresh p (by omega) (h ▸ hf)
  obtain ⟨-, hhuge, -⟩ := tableEntry_facts flags hg
  unfold hugeEntry
  rw [tableAt_link hw hf hp hzero hg hrow hfresh (by simp), tables_writeEntry]
  split
  · next hpath =>
    have hnone : tableAt s.mem root [dirIndex v 3, dirIndex v 2] = none := by
      rw [hpath]
      refine (walk_snoc (p := p)).trans ?_
      rw [show walk tableChild (tables s.mem) 0 root p = some f from hf, bind_some, hzero, tableChild_zero]
    rw [hnone, bind_some, Option.bind_none]
    dsimp only
    rw [setEntry_table hgf, hrow, if_neg]
    rw [has_zero]
    exact fun h => Bool.false_ne_true h.1
  · refine bind_congr fun pd hpd => ?_
    dsimp only
    by_cases hsame : pd = f ∧ dirIndex v 1 = i
    · obtain ⟨rfl, he⟩ := hsame
      rw [he, setEntry_self, hzero, if_neg (by simp [hhuge]), if_neg]
      rw [has_zero]
      exact fun h => Bool.false_ne_true h.1
    · rw [setEntry_other (by rw [← not_and_or]; exact hsame)]

theorem pageEntry_link :
    pageEntry (writeEntry s.mem (f * pageSize) i (tableEntry g flags)) root v = pageEntry s.mem root v := by
  have hgf : g ≠ f := fun h => hfresh p (by omega) (h ▸ hf)
  unfold pageEntry
  rw [tableAt_link hw hf hp hzero hg hrow hfresh (by simp [dirPath]), tables_writeEntry]
  split
  · next hpath =>
    have hnone : tableAt s.mem root (dirPath v) = none := by
      rw [hpath]
      refine (walk_snoc (p := p)).trans ?_
      rw [show walk tableChild (tables s.mem) 0 root p = some f from hf, bind_some, hzero, tableChild_zero]
    rw [hnone, bind_some, Option.bind_none]
    dsimp only
    rw [setEntry_table hgf, hrow, if_neg]
    rw [has_zero]
    exact Bool.false_ne_true
  · refine bind_congr fun pt hpt => ?_
    have hne : pt ≠ f := by
      rintro rfl
      have := hw.once _ _ _ (by simp [dirPath]) (by omega) hpt hf
      rw [← this] at hp
      simp [dirPath] at hp
    dsimp only
    rw [setEntry_table hne]

end Link

/-! ## Replacing a 4 KiB entry -/

section SetPage

variable {pt : Nat} {w : Word} (hw : WellFormed s root) (hpt : tableAt s.mem root p = some pt) (hp : p.length = 3)
include hw hpt hp

theorem tableAt_setPage (hq : q.length ≤ 3) :
    tableAt (writeEntry s.mem (pt * pageSize) i w) root q = tableAt s.mem root q := by
  unfold tableAt
  rw [tables_writeEntry]
  exact walk_setEntry_last hw.once hpt hp hq

theorem setPage : WellFormed (s.setMem (writeEntry s.mem (pt * pageSize) i w)) root := by
  have hat : ∀ {q : List (Fin 512)}, q.length ≤ 3 →
      tableAt (s.setMem (writeEntry s.mem (pt * pageSize) i w)).mem root q = tableAt s.mem root q :=
    fun hq => hw.tableAt_setPage hpt hp hq
  have hT : tables (s.setMem (writeEntry s.mem (pt * pageSize) i w)).mem = setEntry (tables s.mem) pt i w :=
    tables_writeEntry
  refine ⟨?_, fun q t hq ht => ?_, fun q t j hq ht => ?_⟩
  · rw [hT]
    exact hw.once.setEntry_last hpt hp
  · rw [hat hq] at ht
    exact hw.table q t hq ht
  · rw [hat (by omega)] at ht
    have hne : t ≠ pt := by
      rintro rfl
      have := hw.once q p t (by omega) (by omega) ht hpt
      rw [this] at hq
      omega
    rw [hT, setEntry_table hne]
    exact hw.nonleaf q t j hq ht

theorem hugeEntry_setPage : hugeEntry (writeEntry s.mem (pt * pageSize) i w) root v = hugeEntry s.mem root v := by
  unfold hugeEntry
  rw [hw.tableAt_setPage hpt hp (by simp), tables_writeEntry]
  refine bind_congr fun pd hpd => ?_
  have hne : pd ≠ pt := by
    rintro rfl
    have := hw.once _ _ _ (by simp) (by omega) hpd hpt
    rw [← this] at hp
    simp at hp
  dsimp only
  rw [setEntry_table hne]

theorem pageEntry_setPage {u : PageNo} (hpath : dirPath u = p) (hi : dirIndex u 0 = i) :
    pageEntry (writeEntry s.mem (pt * pageSize) i w) root v =
      if v = u then (if has w ptePresent then some w else none) else pageEntry s.mem root v := by
  subst hpath hi
  unfold pageEntry
  rw [hw.tableAt_setPage hpt hp (by simp [dirPath]), tables_writeEntry]
  split
  · next hvu =>
    rw [hvu, hpt, bind_some]
    dsimp only
    rw [setEntry_self]
  · next hne =>
    refine bind_congr fun pt' hpt' => ?_
    dsimp only
    rw [setEntry_other]
    by_contra! hsame
    obtain ⟨rfl, hidx⟩ := hsame
    have hdir := hw.once _ _ _ (by simp [dirPath]) (by omega) hpt' hpt
    exact hne (PageNo.eq_of_path (by rw [hdir, hidx]))

end SetPage

end WellFormed

end CoreOS
