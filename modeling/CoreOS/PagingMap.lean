/-
The page tables refine a map from page numbers to frames with flags. The three
operations on single pages are run against the abstract map, results included;
a 2 MiB page is an entry of the map that none of them changes.
-/
import CoreOS.PagingTree

namespace CoreOS

open ByteMem Radix
open Option (bind_some)

/-! ## The abstract map -/

/-- A page: where it is and what it may be used for. `huge` marks one that is
part of a 2 MiB page. -/
structure Mapping where
  frame : Nat
  writable : Bool
  user : Bool
  executable : Bool
  huge : Bool
  deriving DecidableEq

abbrev PageMap := PageNo → Option Mapping

inductive PageOp
  | map (virt phys : Nat) (flags : MapFlags)
  | unmap (virt : Nat)
  | protect (virt : Nat) (flags : MapFlags)

inductive PageResult
  | map
  | unmap (frame : Option Nat)
  | protect (found : Bool)
  deriving DecidableEq

/-- Frames are page-aligned and below `2^52`. -/
def PageOp.Valid : PageOp → Prop
  | .map _ phys _ => phys % pageSize = 0 ∧ phys < 2 ^ 52
  | _ => True

def PageOp.isMap : PageOp → Bool
  | .map .. => true
  | _ => false

namespace PageMap

/-- The 4 KiB page at `v`. -/
def small (m : PageMap) (v : PageNo) : Option Mapping := (m v).filter fun x => !x.huge

/-- One operation on the map. -/
def apply (m : PageMap) : PageOp → PageResult × PageMap
  | .map virt phys flags =>
    if (m (pageNo virt)).any Mapping.huge then (.map, m)
    else (.map, Function.update m (pageNo virt)
      (some ⟨phys, flags.writable, flags.user, flags.executable, false⟩))
  | .unmap virt =>
    match m.small (pageNo virt) with
    | some x => (.unmap (some x.frame), Function.update m (pageNo virt) none)
    | none => (.unmap none, m)
  | .protect virt flags =>
    match m.small (pageNo virt) with
    | some x => (.protect true, Function.update m (pageNo virt)
        (some ⟨x.frame, flags.writable, flags.user, flags.executable, false⟩))
    | none => (.protect false, m)

end PageMap

/-! ## The map of a tree -/

/-- What a 4 KiB entry maps. -/
def leafMapping (e : Word) : Mapping :=
  ⟨(e &&& pteAddrMask).toNat, has e pteWritable, has e pteUser, !has e pteNx, false⟩

/-- What a 2 MiB entry maps for the page at `index` in it. -/
def hugeMapping (e : Word) (index : Fin 512) : Mapping :=
  ⟨(e &&& pteAddrMask).toNat + index * pageSize, has e pteWritable, has e pteUser, !has e pteNx, true⟩

/-- The pages a tree maps, with the flag bits of their leaf entries. -/
def pageMap (mem : Mem) (root : Nat) : PageMap := fun v =>
  match hugeEntry mem root v with
  | some e => some (hugeMapping e (dirIndex v 0))
  | none => (pageEntry mem root v).map leafMapping

variable {mem : Mem} {root : Nat} {v : PageNo}

theorem pageMap_huge :
    (pageMap mem root v).any Mapping.huge = (hugeEntry mem root v).isSome := by
  unfold pageMap
  split
  · next h => simp [h, hugeMapping]
  · next h => cases pageEntry mem root v <;> simp [h, leafMapping]

theorem pageMap_small :
    (pageMap mem root).small v = (pageEntry mem root v).map leafMapping := by
  unfold PageMap.small pageMap
  split
  · next h =>
    rw [pageEntry, pageEntry_of_huge h]
    simp [hugeMapping]
  · cases pageEntry mem root v <;> simp [leafMapping, Option.filter]

/-! ## The kernel's walks -/

variable {s : Phys} {virt : Nat}

theorem ptePtr_eq : s.ptePtr (root * pageSize) virt =
    (tableAt s.mem root (dirPath (pageNo virt))).map fun pt => pt * pageSize + dirIndex (pageNo virt) 0 * 8 := by
  obtain ⟨h3, h2, h1, h₀⟩ := tableIndex_eq virt
  unfold Phys.ptePtr
  rw [h3, h2, h1, h₀]
  simp only [tableOf_eq, entryAt_eq, dirPath, tableAt, walk_cons, walk_nil, tableChild]
  grind

theorem translatePage_map : s.translatePage (root * pageSize) virt =
    (pageMap s.mem root (pageNo virt)).map fun m => m.frame + if m.huge then virt % pageSize else 0 := by
  obtain ⟨h3, h2, h1, h₀⟩ := tableIndex_eq virt
  have hoff : virt % (2 * 1024 * 1024) = (dirIndex (pageNo virt) 0).val * pageSize + virt % pageSize := by
    simp only [dirIndex, pageNo]
    unfold pageSize
    omega
  unfold Phys.translatePage pageMap
  rw [ptePtr_eq, h3, h2, h1, hoff]
  simp only [hugeEntry, pageEntry, dirPath, tableOf_eq, entryAt_eq, tableAt, walk_cons, walk_nil, tableChild]
  generalize dirIndex (pageNo virt) 3 = i3
  generalize dirIndex (pageNo virt) 2 = i2
  generalize dirIndex (pageNo virt) 1 = i1
  generalize dirIndex (pageNo virt) 0 = i0
  generalize tables s.mem root i3 = e3
  cases hp3 : has e3 ptePresent
  · simp
  generalize he2 : tables s.mem (frameOf e3) i2 = e2
  cases hp2 : has e2 ptePresent
  · simp [he2, hp2]
  generalize he1 : tables s.mem (frameOf e2) i1 = e1
  cases hp1 : has e1 ptePresent
  · simp [he2, hp2, he1, hp1]
  cases hh : has e1 pteHuge
  · have hpte : loadWord s.mem (frameOf e1 * pageSize + i0 * 8) = tables s.mem (frameOf e1) i0 := rfl
    generalize he0 : tables s.mem (frameOf e1) i0 = e0 at *
    cases hp0 : has e0 ptePresent <;> simp [he2, hp2, he1, hp1, hh, hpte, he0, hp0, leafMapping]
  · simp [he2, hp2, he1, hp1, hh, hugeMapping, Nat.add_assoc]

theorem translatePage_eq (halign : virt % pageSize = 0) :
    s.translatePage (root * pageSize) virt = (pageMap s.mem root (pageNo virt)).map Mapping.frame := by
  rw [translatePage_map, halign]
  simp only [ite_self, Nat.add_zero]

/-! ## The kernel's writes -/

/-- The frame holds a table of the tree. -/
def IsTable (s : Phys) (root g : Nat) : Prop := ∃ q, q.length ≤ 3 ∧ tableAt s.mem root q = some g

/-- The frame was handed out. -/
def Taken (s s' : Phys) (g : Nat) : Prop := s.pmm.isFree g = true ∧ s'.pmm.isFree g = false

/-- Nothing is given back, frames are handed out from the lowest on, and bytes change
only in the frames `T` and in those handed out. -/
structure Writes (s s' : Phys) (T : Nat → Prop) : Prop where
  free : ∀ f, s'.pmm.isFree f = true → s.pmm.isFree f = true
  lowest : ∀ f, Taken s s' f → (1 ≤ f ∧ f < maxFrames) ∧ ∀ g, 1 ≤ g → s'.pmm.isFree g = true → f < g
  mem : ∀ x, s'.mem x = s.mem x ∨ T (x / pageSize) ∨ Taken s s' (x / pageSize)

namespace Writes

variable {s s' s'' : Phys} {T T' : Nat → Prop}

theorem used (h : Writes s s' T) {f : Nat} (hf : s.pmm.isFree f = false) : s'.pmm.isFree f = false := by
  by_contra hne
  rw [h.free f (by simpa using hne)] at hf
  cases hf

theorem of_pmm (hp : s'.pmm = s.pmm) (hmem : ∀ x, s'.mem x = s.mem x ∨ T (x / pageSize)) : Writes s s' T := by
  refine ⟨fun f hf => hp ▸ hf, fun f hf => ?_, fun x => (hmem x).imp id .inl⟩
  have hused := hf.2
  rw [hp, hf.1] at hused
  cases hused

theorem refl : Writes s s T := of_pmm rfl fun _ => .inl rfl

theorem trans (h1 : Writes s s' T) (h2 : Writes s' s'' T') (hT : ∀ g, T' g → T g ∨ Taken s s' g) : Writes s s'' T := by
  have htaken : ∀ {g}, Taken s s' g → Taken s s'' g := fun h => ⟨h.1, h2.used h.2⟩
  refine ⟨fun f hf => h1.free f (h2.free f hf), fun f hf => ?_, fun x => ?_⟩
  · cases hmid : s'.pmm.isFree f with
    | false =>
      obtain ⟨hin, hlow⟩ := h1.lowest f ⟨hf.1, hmid⟩
      exact ⟨hin, fun g hg hfree => hlow g hg (h2.free g hfree)⟩
    | true => exact h2.lowest f ⟨hmid, hf.2⟩
  rcases h2.mem x with hx | hx | hx
  · rcases h1.mem x with hy | hy | hy
    · exact .inl (hx.trans hy)
    · exact .inr (.inl hy)
    · exact .inr (.inr (htaken hy))
  · exact .inr ((hT _ hx).imp id htaken)
  · exact .inr (.inr ⟨h1.free _ hx.1, hx.2⟩)

end Writes

section

variable {s' : Phys} {g : Nat}

theorem Phys.Took.taken (h : Phys.Took s g 1 s') : Taken s s' g := by
  refine ⟨h.run 0 (by decide), ?_⟩
  by_contra hne
  rw [Bool.not_eq_false, h.isFree] at hne
  exact hne.2 ⟨Nat.le_refl g, by omega⟩

theorem Phys.Took.writes {T : Nat → Prop} (h : Phys.Took s g 1 s') : Writes s s' T := by
  refine ⟨fun f hf => ((h.isFree f).mp hf).1, fun f hf => ?_, fun x => ?_⟩
  · have heq : f = g := by
      by_contra hne
      have hused := hf.2
      rw [(h.isFree f).mpr ⟨hf.1, by omega⟩] at hused
      cases hused
    subst heq
    refine ⟨⟨h.pos, h.bound⟩, fun g' hg' hfree => ?_⟩
    obtain ⟨hold, hne⟩ := (h.isFree g').mp hfree
    have hfirst := h.first g' hg' fun i hi => by rwa [show g' + i = g' by omega]
    omega
  by_cases hx : x / pageSize = g
  · exact .inr (.inr (hx ▸ h.taken))
  · refine .inl ?_
    rw [h.mem]
    refine fill_out ?_
    unfold pageSize at *
    omega

theorem Writes.setMem {mem : Mem} (h : ∀ x, x / pageSize ≠ g → mem x = s.mem x) : Writes s (s.setMem mem) (· = g) := by
  refine .of_pmm rfl fun x => ?_
  by_cases hx : x / pageSize = g
  · exact .inr hx
  · exact .inl (h x hx)

theorem writeEntry_writes {i : Fin 512} {w : Word} :
    Writes s (s.setMem (writeEntry s.mem (g * pageSize) i w)) (· = g) := .setMem fun _ hx => writeEntry_out hx

end

/-- What is left of a tree `s` by the steps of `map_page_in` down to the page
table: no page is mapped or unmapped, only entries on paths through `r` are
written, and tables are new on the way to `goal`. -/
structure Descended (s s' : Phys) (root : Nat) (r goal : List (Fin 512)) : Prop where
  wf : WellFormed s' root
  huge : ∀ v, hugeEntry s'.mem root v = hugeEntry s.mem root v
  page : ∀ v, pageEntry s'.mem root v = pageEntry s.mem root v
  beyond : SameBeyond tableChild (tables s.mem) (tables s'.mem) 3 root r
  writes : Writes s s' (IsTable s root)
  fresh : ∀ q t, q.length ≤ 3 → tableAt s'.mem root q = some t →
    tableAt s.mem root q = some t ∨ s.pmm.isFree t = true ∧ q <+: goal
  kept : ∀ q t, q.length ≤ 3 → tableAt s.mem root q = some t → tableAt s'.mem root q = some t
  taken : ∀ g, s.pmm.isFree g = true → s'.pmm.isFree g = true ∨ IsTable s' root g

section

variable {r r' goal goal' : List (Fin 512)}

theorem Descended.refl (hw : WellFormed s root) : Descended s s root r goal where
  wf := hw
  huge := fun _ => rfl
  page := fun _ => rfl
  beyond := SameBeyond.refl
  writes := .refl
  fresh := fun _ _ _ h => .inl h
  kept := fun _ _ _ h => h
  taken := fun _ h => .inl h

variable {t : Phys}

theorem Descended.isTable {g : Nat} (h : Descended s t root r goal) (hg : IsTable t root g) :
    IsTable s root g ∨ Taken s t g := by
  obtain ⟨q, hq, hg⟩ := hg
  rcases h.fresh q g hq hg with hold | ⟨hfree, -⟩
  · exact .inl ⟨q, hq, hold⟩
  · exact .inr ⟨hfree, (h.wf.table q g hq hg).2⟩

theorem Descended.trans {u : Phys} (h1 : Descended s t root r goal) (h2 : Descended t u root r' goal')
    (hr : r <+: r') (hgoal : goal <+: goal') : Descended s u root r goal' where
  wf := h2.wf
  huge := fun v => (h2.huge v).trans (h1.huge v)
  page := fun v => (h2.page v).trans (h1.page v)
  beyond := h1.beyond.trans h2.beyond (List.prefix_refl r) hr
  writes := h1.writes.trans h2.writes fun _ hg => h1.isTable hg
  fresh := fun q t hq ht => by
    rcases h2.fresh q t hq ht with ht | ⟨ht, hway⟩
    · exact (h1.fresh q t hq ht).imp id fun ⟨hfree, hway⟩ => ⟨hfree, hway.trans hgoal⟩
    · exact .inr ⟨h1.writes.free t ht, hway⟩
  kept := fun q t hq ht => h2.kept q t hq (h1.kept q t hq ht)
  taken := fun g hg => by
    rcases h1.taken g hg with hg | ⟨q, hq, hqg⟩
    · exact h2.taken g hg
    · exact .inr ⟨q, hq, h2.kept q g hq hqg⟩

end

variable {t : Phys}

variable {f : Nat} {p : List (Fin 512)}

theorem tableAt_snoc {i : Fin 512} (hf : tableAt mem root p = some f)
    (hpresent : has (tables mem f i) ptePresent = true) (hhuge : p.length = 2 → has (tables mem f i) pteHuge = false) :
    tableAt mem root (p ++ [i]) = some (frameOf (tables mem f i)) := by
  refine (walk_snoc (p := p)).trans ?_
  rw [show walk tableChild (tables mem) 0 root p = some f from hf, bind_some, Nat.zero_add, tableChild,
    if_pos ⟨hpresent, fun h => Bool.false_ne_true ((hhuge h.1).symm.trans h.2)⟩]

theorem Phys.avail_setMem (s : Phys) (mem : Mem) : (s.setMem mem).avail = s.avail := rfl

/-- **Everything `alloc_table` can do.** -/
theorem Phys.allocTable_cases (s : Phys) :
    (∃ g s', s.allocTable = some (g * pageSize, s') ∧ Took s g 1 s') ∨ (s.allocTable = none ∧ s.avail = ∅) := by
  unfold allocTable
  rcases s.allocFrame_cases with ⟨g, s', he, ht⟩ | ⟨he, hnone⟩
  · refine .inl ⟨g, s', ?_, ht⟩
    rw [he]
    split
    · next h0 => exact absurd (congrArg Prod.fst h0) ht.addr_ne_zero
    · next heq =>
      cases heq
      rfl
  · rw [he]
    exact .inr ⟨rfl, avail_eq_empty hnone⟩

/-- **Everything one step down can do.** -/
theorem ensureTable_cases (hw : WellFormed s root) (hf : tableAt s.mem root p = some f) (hp : p.length ≤ 2)
    (i : Fin 512) (flags : MapFlags) :
    (s.ensureTable (f * pageSize) i flags = none ∧ s.avail = ∅ ∧ tables s.mem f i = 0) ∨
    ∃ s', s.ensureTable (f * pageSize) i flags = some s' ∧ Descended s s' root (p ++ [i]) (p ++ [i]) ∧
      tableAt s'.mem root p = some f ∧ has (tables s'.mem f i) ptePresent = true ∧
      s.avail.card = s'.avail.card + if tables s.mem f i = 0 then 1 else 0 := by
  unfold Phys.ensureTable
  rw [entryAt_eq]
  split
  · next hzero =>
    rcases s.allocTable_cases with ⟨g, s1, halloc, ht⟩ | ⟨halloc, hnone⟩
    · right
      have hk := ht.keeps
      have hfree : s.pmm.isFree g = true := ht.run 0 (by decide)
      have hw1 := hw.keeps hk
      have hf1 : tableAt s1.mem root p = some f := by rw [hw.tableAt_keeps hk (by omega), hf]
      have hzero1 : tables s1.mem f i = 0 := by rw [hw.reached hk (by omega) hf, hzero]
      have hrow := ht.row
      obtain ⟨-, hused, hfresh⟩ := hw.aside_took ht
      have hpath : tableAt (writeEntry s1.mem (f * pageSize) i (tableEntry g flags)) root p = some f := by
        rw [hw1.tableAt_link hf1 hp hzero1 ht.bound hrow hfresh (by omega), if_neg, hf1]
        exact fun h => by simpa using congrArg List.length h
      refine ⟨s1.setMem (writeEntry s1.mem (f * pageSize) i (tableEntry g flags)), by rw [halloc]; rfl,
        ⟨?_, fun v => ?_, fun v => ?_, ?_, ?_, fun q t hq hqt => ?_, fun q t hq hqt => ?_, fun x hx => ?_⟩, hpath, ?_, ?_⟩
      · exact hw1.link hf1 hp hzero1 ht.bound hrow hfresh hused
      · exact (hw1.hugeEntry_link hf1 hp hzero1 ht.bound hrow hfresh).trans (hw.hugeEntry_keeps hk)
      · exact (hw1.pageEntry_link hf1 hp hzero1 ht.bound hrow hfresh).trans (hw.pageEntry_keeps hk)
      · have h1 : SameBeyond tableChild (tables s.mem) (tables s1.mem) 3 root (p ++ [i]) :=
          SameBeyond.unreached fun _ _ hp hf => hw.reached hk hp hf
        have h2 := SameBeyond.setEntry (i := i) (e := tableEntry g flags) hw1.once hf1 (by omega)
        rw [← tables_writeEntry] at h2
        exact h1.trans h2 (List.prefix_refl _) (List.prefix_refl _)
      · exact ht.writes.trans writeEntry_writes fun x hx => .inl ⟨p, by omega, hx ▸ hf⟩
      · have hat := (hw1.tableAt_link hf1 hp hzero1 ht.bound hrow hfresh (by omega)).symm.trans hqt
        split at hat
        · next hq =>
          cases hat
          exact .inr ⟨hfree, hq ▸ List.prefix_refl _⟩
        · rw [hw.tableAt_keeps hk (by omega)] at hat
          exact .inl hat
      · rw [← hw.tableAt_keeps hk (by omega)] at hqt
        refine (hw1.tableAt_link hf1 hp hzero1 ht.bound hrow hfresh (by omega)).trans ?_
        rw [if_neg, hqt]
        -- nothing was behind the entry before
        rintro rfl
        rw [tableAt, walk_snoc, show walk tableChild (tables s1.mem) 0 root p = some f from hf1, bind_some, hzero1,
          tableChild_zero] at hqt
        cases hqt
      · by_cases hxg : x = g
        · refine .inr ⟨p ++ [i], by simp; omega, ?_⟩
          refine (hw1.tableAt_link hf1 hp hzero1 ht.bound hrow hfresh (by simp; omega)).trans ?_
          rw [if_pos rfl, hxg]
        · exact .inl ((ht.isFree x).mpr ⟨hx, by omega⟩)
      · have hset : tables (writeEntry s1.mem (f * pageSize) i (tableEntry g flags)) f i = tableEntry g flags := by
          rw [tables_writeEntry, setEntry_self]
        have hpresent := (tableEntry_facts flags ht.bound).1
        rwa [← hset] at hpresent
      · rw [Phys.avail_setMem]
        exact ht.avail_card.symm
    · left
      rw [halloc]
      exact ⟨rfl, hnone, hzero⟩
  · next hne =>
    right
    refine ⟨s, rfl, .refl hw, hf, ?_, (Nat.add_zero _).symm⟩
    exact (hw.nonleaf p f i hp hf).resolve_left hne

/-- The steps down a path of table indices, with the table they end at. -/
def Phys.descend (flags : MapFlags) : List (Fin 512) → Nat → Phys → Option (Nat × Phys)
  | [], table, s => some (table, s)
  | i :: is, table, s =>
    (s.ensureTable table i flags).bind fun s => descend flags is (tableOf (entryAt s.mem table i)) s

/-- How many tables are missing on the way from `p` down the path. -/
def absentTables (mem : Mem) (root : Nat) : List (Fin 512) → List (Fin 512) → Nat
  | _, [] => 0
  | p, i :: is => (if tableAt mem root (p ++ [i]) = none then 1 else 0) + absentTables mem root (p ++ [i]) is

theorem absentTables_le {is : List (Fin 512)} : absentTables mem root p is ≤ is.length := by
  induction is generalizing p with
  | nil => exact Nat.le_refl 0
  | cons i is ih =>
    have := @ih (p ++ [i])
    rw [absentTables, List.length_cons]
    split <;> omega

theorem absentTables_congr {mem' : Mem} {is : List (Fin 512)}
    (h : ∀ q, p.length < q.length → q.length ≤ p.length + is.length →
      (tableAt mem root q = none ↔ tableAt mem' root q = none)) :
    absentTables mem root p is = absentTables mem' root p is := by
  induction is generalizing p with
  | nil => rfl
  | cons i is ih =>
    have hstep := h (p ++ [i]) (by simp) (by simp)
    simp only [absentTables, hstep]
    refine congrArg _ (ih fun q h1 h2 => h q ?_ ?_) <;> simp at * <;> omega

theorem WellFormed.entry_zero {i : Fin 512} (hw : WellFormed s root) (hf : tableAt s.mem root p = some f)
    (hp : p.length ≤ 2) (hhuge : p.length = 2 → has (tables s.mem f i) pteHuge = false) :
    tables s.mem f i = 0 ↔ tableAt s.mem root (p ++ [i]) = none := by
  constructor
  · intro hzero
    rw [tableAt, walk_snoc, show walk tableChild (tables s.mem) 0 root p = some f from hf, bind_some, hzero,
      tableChild_zero]
  · intro hnone
    rcases hw.nonleaf p f i hp hf with hzero | hpresent
    · exact hzero
    · rw [tableAt_snoc hf hpresent hhuge] at hnone
      cases hnone

/-- **Everything the steps down can do**: they take a frame for each table that
is missing. -/
theorem descend_cases (flags : MapFlags) (is : List (Fin 512)) (hw : WellFormed s root)
    (hf : tableAt s.mem root p = some f) (hlen : p.length + is.length ≤ 2) :
    (s.descend flags is (f * pageSize) = none ∧ s.avail.card < absentTables s.mem root p is) ∨
    ∃ g s', s.descend flags is (f * pageSize) = some (g * pageSize, s') ∧
      Descended s s' root (p ++ is.take 1) (p ++ is) ∧ tableAt s'.mem root (p ++ is) = some g ∧
      s.avail.card = s'.avail.card + absentTables s.mem root p is := by
  induction is generalizing s p f with
  | nil =>
    rw [List.append_nil]
    exact .inr ⟨f, s, rfl, .refl hw, hf, by rw [absentTables, Nat.add_zero]⟩
  | cons i is ih =>
    rw [List.length_cons] at hlen
    rw [Phys.descend, absentTables]
    have hzero := hw.entry_zero (i := i) hf (by omega) fun h => by omega
    rcases ensureTable_cases hw hf (by omega) i flags with ⟨he, hnone, h0⟩ | ⟨s1, he, hd1, hp1, hpres, hc1⟩
    · rw [he, hnone, if_pos (hzero.mp h0)]
      exact .inl ⟨rfl, by rw [Finset.card_empty]; omega⟩
    rw [he, bind_some, entryAt_eq, tableOf_eq]
    have hnext := tableAt_snoc hp1 hpres fun h => by omega
    have hlen' : (p ++ [i]).length + is.length ≤ 2 := by
      rw [List.length_append, List.length_singleton]
      omega
    -- the only new table is the one at the end of the step
    have hcongr : absentTables s1.mem root (p ++ [i]) is = absentTables s.mem root (p ++ [i]) is := by
      refine absentTables_congr fun q h1 h2 => ?_
      have hshort : ¬ q <+: p ++ [i] := fun hq => absurd hq.length_le (Nat.not_le.mpr h1)
      rw [Option.eq_none_iff_forall_ne_some, Option.eq_none_iff_forall_ne_some]
      exact forall_congr' fun g => not_congr
        ⟨fun hg => (hd1.fresh q g (by omega) hg).resolve_right fun h => hshort h.2, hd1.kept q g (by omega)⟩
    simp only [hzero] at hc1
    rcases ih hd1.wf hnext hlen' with ⟨he, hlt⟩ | ⟨g, s', he, hd, hg, hc⟩
    · exact .inl ⟨he, by omega⟩
    · rw [List.append_assoc, List.singleton_append] at hg
      refine .inr ⟨g, s', he, ?_, hg, by omega⟩
      have := hd1.trans hd (List.prefix_append _ _) (List.prefix_append _ _)
      rwa [List.append_assoc p [i] is, List.singleton_append] at this

/-- What is left by replacing the entry of a page. -/
structure PageSet (s s' : Phys) (root : Nat) (v : PageNo) (w : Word) : Prop where
  wf : WellFormed s' root
  huge : ∀ u, hugeEntry s'.mem root u = hugeEntry s.mem root u
  page : ∀ u, pageEntry s'.mem root u =
    if u = v then (if has w ptePresent then some w else none) else pageEntry s.mem root u
  beyond : SameBeyond tableChild (tables s.mem) (tables s'.mem) 3 root (dirPath v ++ [dirIndex v 0])
  pmm : s'.pmm = s.pmm

theorem pageSet {pt : Nat} (hw : WellFormed s root) (hpt : tableAt s.mem root (dirPath v) = some pt) (w : Word) :
    PageSet s (s.setMem (storeWord s.mem (pt * pageSize + dirIndex v 0 * 8) w)) root v w where
  wf := hw.setPage hpt rfl
  huge := fun _ => hw.hugeEntry_setPage hpt rfl
  page := fun _ => hw.pageEntry_setPage hpt rfl rfl rfl
  beyond := by
    have hset := SameBeyond.setEntry (i := dirIndex v 0) (e := w) hw.once hpt (by simp [dirPath])
    rwa [← tables_writeEntry] at hset
  pmm := rfl

/-- What `map_page_in` leaves behind: under a 2 MiB page nothing new, else the
entry of the page. -/
structure MappedPage (s s' : Phys) (root : Nat) (v : PageNo) (e : Word) : Prop where
  wf : WellFormed s' root
  huge : ∀ w, hugeEntry s'.mem root w = hugeEntry s.mem root w
  page : ∀ w, pageEntry s'.mem root w =
    if w = v ∧ hugeEntry s.mem root v = none then some e else pageEntry s.mem root w
  beyond : SameBeyond tableChild (tables s.mem) (tables s'.mem) 3 root [dirIndex v 3]
  writes : Writes s s' (IsTable s root)
  fresh : ∀ q t, q.length ≤ 3 → tableAt s'.mem root q = some t →
    tableAt s.mem root q = some t ∨ s.pmm.isFree t = true ∧ q <+: dirPath v
  kept : ∀ q t, q.length ≤ 3 → tableAt s.mem root q = some t → tableAt s'.mem root q = some t
  taken : ∀ g, s.pmm.isFree g = true → s'.pmm.isFree g = true ∨ IsTable s' root g

variable {e : Word}

theorem Descended.mapped_huge {pd : Nat} (h : Descended s t root [dirIndex v 3] (dirPath v))
    (hpd : tableAt t.mem root [dirIndex v 3, dirIndex v 2] = some pd)
    (hpresent : has (tables t.mem pd (dirIndex v 1)) ptePresent = true)
    (hhuge : has (tables t.mem pd (dirIndex v 1)) pteHuge = true) : MappedPage s t root v e := by
  have hsome : hugeEntry s.mem root v ≠ none := by
    rw [← h.huge v]
    unfold hugeEntry
    rw [hpd, bind_some]
    dsimp only
    rw [if_pos ⟨hpresent, hhuge⟩]
    nofun
  refine ⟨h.wf, h.huge, fun w => ?_, h.beyond, h.writes, h.fresh, h.kept, h.taken⟩
  rw [if_neg fun hc => hsome hc.2, h.page w]

theorem Descended.mapped_page {pd : Nat} (h : Descended s t root [dirIndex v 3] (dirPath v))
    (hpd : tableAt t.mem root [dirIndex v 3, dirIndex v 2] = some pd)
    (hpresent : has (tables t.mem pd (dirIndex v 1)) ptePresent = true)
    (hhuge : has (tables t.mem pd (dirIndex v 1)) pteHuge = false) (he : has e ptePresent = true) :
    MappedPage s (t.setMem (writeEntry t.mem (tableOf (tables t.mem pd (dirIndex v 1))) (dirIndex v 0) e)) root v e := by
  have hpt : tableAt t.mem root (dirPath v) = some (frameOf (tables t.mem pd (dirIndex v 1))) :=
    tableAt_snoc hpd hpresent fun _ => hhuge
  have hnone : hugeEntry s.mem root v = none := by
    rw [← h.huge v]
    unfold hugeEntry
    rw [hpd, bind_some]
    dsimp only
    rw [if_neg (by simp [hhuge])]
  have hset := pageSet h.wf hpt e
  rw [tableOf_eq]
  have htab : ∀ {q}, q.length ≤ 3 → tableAt (writeEntry t.mem (frameOf (tables t.mem pd (dirIndex v 1)) * pageSize)
      (dirIndex v 0) e) root q = tableAt t.mem root q := fun hq => h.wf.tableAt_setPage hpt rfl hq
  refine ⟨hset.wf, fun w => (hset.huge w).trans (h.huge w), fun w => ?_, ?_,
    h.writes.trans writeEntry_writes fun g hg => h.isTable ⟨dirPath v, by simp [dirPath], hg ▸ hpt⟩,
    fun q t hq ht => h.fresh q t hq ((htab hq).symm.trans ht), fun q t hq ht => (htab hq).trans (h.kept q t hq ht),
    fun g hg => (h.taken g hg).imp id fun ⟨q, hq, hqg⟩ => ⟨q, hq, (htab hq).trans hqg⟩⟩
  · refine (hset.page w).trans ?_
    rw [he, h.page w]
    simp [hnone]
  · exact h.beyond.trans hset.beyond (List.prefix_refl _) ⟨[dirIndex v 2, dirIndex v 1, dirIndex v 0], rfl⟩

theorem mapPageIn_descend (s : Phys) (pml4 virt phys : Nat) (flags : MapFlags) :
    s.mapPageIn pml4 virt phys flags =
      (s.descend flags [dirIndex (pageNo virt) 3, dirIndex (pageNo virt) 2] pml4).bind fun r =>
        (r.2.ensureTable r.1 (dirIndex (pageNo virt) 1) flags).bind fun s =>
          let pde := entryAt s.mem r.1 (dirIndex (pageNo virt) 1)
          if has pde pteHuge then some s
          else some (s.setMem (writeEntry s.mem (tableOf pde) (dirIndex (pageNo virt) 0) (leafEntry phys flags))) := by
  obtain ⟨h3, h2, h1, h₀⟩ := tableIndex_eq virt
  unfold Phys.mapPageIn
  rw [h3, h2, h1, h₀]
  simp only [Phys.descend, Option.bind_eq_bind, Option.bind_assoc, bind_some, leafEntry]

/-- How many tables `map_page_in` has to add for page `v`: under a 2 MiB page there
is no page table. -/
def missingTables (mem : Mem) (root : Nat) (v : PageNo) : Nat :=
  absentTables mem root [] [dirIndex v 3, dirIndex v 2] +
    if hugeEntry mem root v = none ∧ tableAt mem root (dirPath v) = none then 1 else 0

theorem missingTables_le : missingTables mem root v ≤ 3 := by
  have := @absentTables_le mem root [] [dirIndex v 3, dirIndex v 2]
  rw [List.length_cons, List.length_singleton] at this
  unfold missingTables
  split <;> omega

theorem Descended.directory_zero {pd : Nat} {r : List (Fin 512)}
    (h : Descended s t root r [dirIndex v 3, dirIndex v 2])
    (hpd : tableAt t.mem root [dirIndex v 3, dirIndex v 2] = some pd) :
    tables t.mem pd (dirIndex v 1) = 0 ↔
      hugeEntry s.mem root v = none ∧ tableAt s.mem root (dirPath v) = none := by
  have hsame : tableAt s.mem root (dirPath v) = none ↔ tableAt t.mem root (dirPath v) = none := by
    have hshort : ¬ dirPath v <+: [dirIndex v 3, dirIndex v 2] := fun hq => absurd hq.length_le (by simp [dirPath])
    rw [Option.eq_none_iff_forall_ne_some, Option.eq_none_iff_forall_ne_some]
    exact forall_congr' fun g => not_congr
      ⟨h.kept _ g (by simp [dirPath]), fun hg => (h.fresh _ g (by simp [dirPath]) hg).resolve_right fun h => hshort h.2⟩
  have hhuge : hugeEntry t.mem root v = _ := congrArg (Option.bind · _) hpd
  rw [hsame, ← h.huge v, hhuge, bind_some]
  dsimp only
  split
  · next hc =>
    refine ⟨fun hzero => ?_, fun h => ?_⟩
    · rw [hzero] at hc
      exact absurd hc.1 (by decide)
    · cases h.1
  · next hc =>
    rw [and_iff_right rfl]
    rcases h.wf.nonleaf _ pd (dirIndex v 1) (by simp) hpd with hzero | hpresent
    · exact h.wf.entry_zero hpd (by simp) fun _ => by rw [hzero]; decide
    · exact h.wf.entry_zero hpd (by simp) fun _ => by simpa [hpresent] using hc

/-- **Everything `map_page_in` can do**: it takes a frame for each table that is
missing. -/
theorem mapPageIn_cases (hw : WellFormed s root) (virt phys : Nat) (flags : MapFlags) :
    (s.mapPageIn (root * pageSize) virt phys flags = none ∧ s.avail.card < missingTables s.mem root (pageNo virt)) ∨
    ∃ s', s.mapPageIn (root * pageSize) virt phys flags = some s' ∧
      s.avail.card = s'.avail.card + missingTables s.mem root (pageNo virt) ∧
      MappedPage s s' root (pageNo virt) (leafEntry phys flags) := by
  rw [mapPageIn_descend]
  generalize pageNo virt = v
  unfold missingTables
  have hroot : tableAt s.mem root [] = some root := rfl
  rcases descend_cases flags [dirIndex v 3, dirIndex v 2] hw hroot (by simp) with
    ⟨he, hlt⟩ | ⟨pd, s2, he, hd2, hpd, hc2⟩
  · rw [he]
    exact .inl ⟨rfl, by omega⟩
  rw [he, bind_some]
  have hzero := hd2.directory_zero hpd
  rcases ensureTable_cases hd2.wf hpd (by simp) (dirIndex v 1) flags with
    ⟨he, hnone, h0⟩ | ⟨s3, he, hd3, hp3, hpres3, hc3⟩
  · rw [hnone, Finset.card_empty] at hc2
    rw [he, if_pos (hzero.mp h0)]
    exact .inl ⟨rfl, by omega⟩
  rw [he, bind_some, entryAt_eq]
  dsimp only
  have hd : Descended s s3 root [dirIndex v 3] (dirPath v) :=
    hd2.trans hd3 ⟨[dirIndex v 2, dirIndex v 1], rfl⟩ ⟨[dirIndex v 1], rfl⟩
  simp only [hzero] at hc3
  right
  split
  · next hhuge => exact ⟨s3, rfl, by omega, hd.mapped_huge hp3 hpres3 hhuge⟩
  · next hhuge =>
    have hmapped := hd.mapped_page hp3 hpres3 (by simpa using hhuge) (leafEntry_present phys flags)
    refine ⟨_, rfl, ?_, hmapped⟩
    rw [Phys.avail_setMem]
    omega

theorem Phys.ptePtr_cases (s : Phys) (root virt : Nat) :
    (pageEntry s.mem root (pageNo virt) = none ∧ ∀ ptr, s.ptePtr (root * pageSize) virt = some ptr →
      has (loadWord s.mem ptr) ptePresent = false) ∨
    ∃ pt e, tableAt s.mem root (dirPath (pageNo virt)) = some pt ∧ pageEntry s.mem root (pageNo virt) = some e ∧
      s.ptePtr (root * pageSize) virt = some (pt * pageSize + dirIndex (pageNo virt) 0 * 8) ∧
      loadWord s.mem (pt * pageSize + dirIndex (pageNo virt) 0 * 8) = e ∧ has e ptePresent = true := by
  rw [ptePtr_eq]
  unfold pageEntry
  cases hpt : tableAt s.mem root (dirPath (pageNo virt)) with
  | none => exact .inl ⟨rfl, nofun⟩
  | some pt =>
    rw [bind_some, Option.map_some]
    dsimp only
    have hload : loadWord s.mem (pt * pageSize + dirIndex (pageNo virt) 0 * 8) =
      tables s.mem pt (dirIndex (pageNo virt) 0) := rfl
    split
    · next hp => exact .inr ⟨pt, _, rfl, rfl, rfl, hload, hp⟩
    · next hp =>
      refine .inl ⟨rfl, fun ptr hptr => ?_⟩
      rw [← Option.some.inj hptr, hload]
      simpa using hp

/-- **Everything `unmap_page_in` can do.** -/
theorem unmapPageIn_cases (hw : WellFormed s root) (virt : Nat) :
    (pageEntry s.mem root (pageNo virt) = none ∧ s.unmapPageIn (root * pageSize) virt = (none, s)) ∨
    ∃ e s', pageEntry s.mem root (pageNo virt) = some e ∧
      s.unmapPageIn (root * pageSize) virt = (some (e &&& pteAddrMask).toNat, s') ∧
      PageSet s s' root (pageNo virt) 0 := by
  unfold Phys.unmapPageIn
  rcases s.ptePtr_cases root virt with ⟨hnone, habs⟩ | ⟨pt, e, hpt, he, hptr, hload, hp⟩
  · left
    refine ⟨hnone, ?_⟩
    split
    · rfl
    · next ptr hptr => rw [if_pos (by simp [habs ptr hptr])]
  · right
    refine ⟨e, _, he, ?_, pageSet hw hpt 0⟩
    rw [hptr]
    dsimp only
    rw [hload, if_neg (by simp [hp])]

/-- **Everything `protect_page_in` can do.** -/
theorem protectPageIn_cases (hw : WellFormed s root) (virt : Nat) (flags : MapFlags) :
    (pageEntry s.mem root (pageNo virt) = none ∧ s.protectPageIn (root * pageSize) virt flags = (false, s)) ∨
    ∃ e s', pageEntry s.mem root (pageNo virt) = some e ∧ has e ptePresent = true ∧
      s.protectPageIn (root * pageSize) virt flags = (true, s') ∧
      PageSet s s' root (pageNo virt) (protectEntry e flags) := by
  unfold Phys.protectPageIn
  rcases s.ptePtr_cases root virt with ⟨hnone, habs⟩ | ⟨pt, e, hpt, he, hptr, hload, hp⟩
  · left
    refine ⟨hnone, ?_⟩
    split
    · rfl
    · next ptr hptr => rw [if_pos (by simp [habs ptr hptr])]
  · right
    refine ⟨e, _, he, hp, ?_, pageSet hw hpt (protectEntry e flags)⟩
    rw [hptr]
    dsimp only
    rw [hload, if_neg (by simp [hp])]
    rfl

/-! ## Refinement -/

theorem pageMap_update {mem' : Mem} {o : Option Word} (hhuge : ∀ u, hugeEntry mem' root u = hugeEntry mem root u)
    (hpage : ∀ u, pageEntry mem' root u = if u = v then o else pageEntry mem root u)
    (hnone : hugeEntry mem root v = none) :
    pageMap mem' root = Function.update (pageMap mem root) v (o.map leafMapping) := by
  funext u
  unfold pageMap
  rw [hhuge, hpage]
  by_cases hu : u = v
  · subst hu
    rw [hnone, if_pos rfl, Function.update_self]
  · rw [if_neg hu, Function.update_of_ne hu]

theorem pageMap_congr {mem' : Mem} (hhuge : ∀ u, hugeEntry mem' root u = hugeEntry mem root u)
    (hpage : ∀ u, pageEntry mem' root u = pageEntry mem root u) : pageMap mem' root = pageMap mem root := by
  funext u
  unfold pageMap
  rw [hhuge, hpage]

theorem hugeEntry_of_page (h : pageEntry mem root v = some e) :
    hugeEntry mem root v = none := by
  cases hh : hugeEntry mem root v with
  | none => rfl
  | some e' =>
    rw [pageEntry, pageEntry_of_huge hh] at h
    cases h

theorem MappedPage.pageMap_eq {s' : Phys} (h : MappedPage s s' root v e) (hnone : hugeEntry s.mem root v = none) :
    pageMap s'.mem root = Function.update (pageMap s.mem root) v (some (leafMapping e)) := by
  refine pageMap_update (o := some e) h.huge (fun u => ?_) hnone
  rw [h.page u]
  simp only [hnone, and_true]

/-- One operation on the tree at `root`, with its result. -/
def Phys.pageStep (root : Nat) (s : Phys) : PageOp → Option (PageResult × Phys)
  | .map virt phys flags => (s.mapPageIn (root * pageSize) virt phys flags).map fun s => (.map, s)
  | .unmap virt =>
    match s.unmapPageIn (root * pageSize) virt with
    | (frame, s) => some (.unmap frame, s)
  | .protect virt flags =>
    match s.protectPageIn (root * pageSize) virt flags with
    | (found, s) => some (.protect found, s)

/-- **Every operation does to the tree what it does to the map**, and three
free frames are enough for it. -/
theorem pageStep_cases {op : PageOp} (hw : WellFormed s root) (hop : op.Valid) :
    (s.pageStep root op = none ∧ op.isMap = true ∧ s.avail.card < 3) ∨
    ∃ r s', s.pageStep root op = some (r, s') ∧ WellFormed s' root ∧
      (r, pageMap s'.mem root) = (pageMap s.mem root).apply op ∧
      s.avail.card ≤ s'.avail.card + if op.isMap then 3 else 0 := by
  cases op with
  | map virt phys flags =>
    have hthree := @missingTables_le s.mem root (pageNo virt)
    rcases mapPageIn_cases hw virt phys flags with ⟨he, hc⟩ | ⟨s', he, hc, hm⟩
    · exact .inl ⟨by simp [Phys.pageStep, he], rfl, by omega⟩
    · refine .inr ⟨.map, s', by simp [Phys.pageStep, he], hm.wf, ?_, by rw [hc]; exact Nat.add_le_add_left hthree _⟩
      simp only [PageMap.apply, pageMap_huge]
      split
      · next hsome =>
        have hpage : ∀ u, pageEntry s'.mem root u = pageEntry s.mem root u := by
          intro u
          rw [hm.page u, if_neg]
          intro h
          rw [h.2] at hsome
          cases hsome
        rw [pageMap_congr hm.huge hpage]
      · next hnone =>
        have hnone : hugeEntry s.mem root (pageNo virt) = none := by simpa using hnone
        obtain ⟨h1, h2, h3, h4⟩ := leafEntry_facts flags hop.2 hop.1
        rw [hm.pageMap_eq hnone]
        simp [leafMapping, h1, h2, h3, h4]
  | unmap virt =>
    rcases unmapPageIn_cases hw virt with ⟨hnone, he⟩ | ⟨e, s', hsome, he, hset⟩
    · refine .inr ⟨.unmap none, s, by simp [Phys.pageStep, he], hw, ?_, Nat.le_add_right _ _⟩
      simp [PageMap.apply, pageMap_small, hnone]
    · refine .inr ⟨.unmap (some (e &&& pteAddrMask).toNat), s', by simp [Phys.pageStep, he], hset.wf, ?_, ?_⟩
      · rw [pageMap_update hset.huge hset.page (hugeEntry_of_page hsome)]
        simp only [PageMap.apply, pageMap_small, hsome, Option.map_some, leafMapping]
        rw [if_neg (by rw [has_zero]; nofun), Option.map_none]
      · rw [Phys.avail, Phys.avail, hset.pmm]
        exact Nat.le_add_right _ _
  | protect virt flags =>
    rcases protectPageIn_cases hw virt flags with ⟨hnone, he⟩ | ⟨e, s', hsome, hp, he, hset⟩
    · refine .inr ⟨.protect false, s, by simp [Phys.pageStep, he], hw, ?_, Nat.le_add_right _ _⟩
      simp [PageMap.apply, pageMap_small, hnone]
    · refine .inr ⟨.protect true, s', by simp [Phys.pageStep, he], hset.wf, ?_, ?_⟩
      · obtain ⟨h1, h2, h3, h4, h5⟩ := protectEntry_facts e flags
        rw [pageMap_update hset.huge hset.page (hugeEntry_of_page hsome)]
        simp [PageMap.apply, pageMap_small, hsome, leafMapping, h1, h2, h3, h4, h5, hp]
      · rw [Phys.avail, Phys.avail, hset.pmm]
        exact Nat.le_add_right _ _

theorem ensureTable_present {i : Fin 512} {flags : MapFlags} (h : has (tables s.mem f i) ptePresent = true) :
    s.ensureTable (f * pageSize) i flags = some s := by
  unfold Phys.ensureTable
  rw [entryAt_eq, if_neg]
  intro h0
  rw [h0, has_zero] at h
  cases h

theorem mapPageIn_huge {phys : Nat} {flags : MapFlags} (h : hugeEntry s.mem root (pageNo virt) ≠ none) :
    s.mapPageIn (root * pageSize) virt phys flags = some s := by
  obtain ⟨h3, h2, h1, -⟩ := tableIndex_eq virt
  obtain ⟨e, he⟩ := Option.ne_none_iff_exists'.mp h
  obtain ⟨pd, hpd, he⟩ := Option.bind_eq_some_iff.mp he
  obtain ⟨pdpt, hpdpt, hc2⟩ := walk_of_snoc (p := [dirIndex (pageNo virt) 3]) hpd
  obtain ⟨r, hroot, hc3⟩ := walk_of_snoc (p := []) hpdpt
  cases hroot
  obtain ⟨hp3, -, hf3⟩ := tableChild_some hc3
  obtain ⟨hp2, -, hf2⟩ := tableChild_some hc2
  dsimp only at he
  split at he
  · next hc1 =>
    unfold Phys.mapPageIn
    rw [h3, h2, h1]
    simp only [entryAt_eq, tableOf_eq, Option.bind_eq_bind]
    rw [ensureTable_present hp3, bind_some, hf3, ensureTable_present hp2, bind_some, hf2,
      ensureTable_present hc1.1, bind_some, if_pos hc1.2]
  · cases he

/-- A tree being worked on, with the results so far. -/
structure PageRun where
  phys : Phys
  results : List PageResult

def PageRun.step (root : Nat) (r : PageRun) (op : PageOp) : Option PageRun :=
  (r.phys.pageStep root op).map fun out => ⟨out.2, r.results ++ [out.1]⟩

/-- The same on the map. -/
def PageMap.run (m : PageMap × List PageResult) (op : PageOp) : PageMap × List PageResult :=
  ((m.1.apply op).2, m.2 ++ [(m.1.apply op).1])

/-- The map of a tree and the results so far. -/
def PageRun.abs (root : Nat) (r : PageRun) : PageMap × List PageResult := (pageMap r.phys.mem root, r.results)

theorem PageRun.step_simulates {r t : PageRun} {op : PageOp} (hw : WellFormed r.phys root) (hop : op.Valid)
    (ht : r.step root op = some t) : WellFormed t.phys root ∧ t.abs root = PageMap.run (r.abs root) op := by
  unfold PageRun.step at ht
  rcases pageStep_cases hw hop with ⟨he, -⟩ | ⟨res, s', he, hw', hmap, -⟩
  · rw [he] at ht
    cases ht
  · rw [he] at ht
    cases ht
    refine ⟨hw', ?_⟩
    simp only [PageRun.abs, PageMap.run, ← hmap]

theorem PageRun.exec_some : ∀ {ops : List PageOp} {r : PageRun}, WellFormed r.phys root →
    (∀ op ∈ ops, op.Valid) → 3 * ops.countP PageOp.isMap ≤ r.phys.avail.card →
    ∃ t, Lts.exec (PageRun.step root) r ops = some t
  | [], r, _, _, _ => ⟨r, rfl⟩
  | op :: ops, r, hw, hops, hc => by
    rw [List.countP_cons] at hc
    rcases pageStep_cases hw (hops op (by simp)) with ⟨-, hmap, hlt⟩ | ⟨res, s', he, hw', -, hle⟩
    · rw [if_pos hmap] at hc
      omega
    · have hrest : ∀ op ∈ ops, op.Valid := fun o ho => hops o (List.mem_cons_of_mem op ho)
      obtain ⟨t, ht⟩ := PageRun.exec_some (r := ⟨s', r.results ++ [res]⟩) hw' hrest (by
        split at hc <;> simp_all <;> omega)
      exact ⟨t, Lts.exec_cons.mpr ⟨_, by simp [PageRun.step, he], ht⟩⟩

/-- **The page tables refine the map.** From any well-formed tree, whatever is
mapped, unmapped and protected: the tree stays well formed, the pages it maps
and every result are those of the abstract map, `translate_page` reads that map,
and under a 2 MiB page `map_page_in` does nothing; and with three free frames
for each page to be mapped, no operation panics. -/
theorem page_tables_refine (s : Phys) (root : Nat) (ops : List PageOp) (hw : WellFormed s root)
    (hops : ∀ op ∈ ops, op.Valid) :
    (∀ t, Lts.exec (PageRun.step root) ⟨s, []⟩ ops = some t →
      WellFormed t.phys root ∧
      (pageMap t.phys.mem root, t.results) = ops.foldl PageMap.run (pageMap s.mem root, []) ∧
      (∀ virt, virt % pageSize = 0 →
        t.phys.translatePage (root * pageSize) virt = (pageMap t.phys.mem root (pageNo virt)).map Mapping.frame) ∧
      ∀ virt phys flags, (pageMap t.phys.mem root (pageNo virt)).any Mapping.huge = true →
        t.phys.mapPageIn (root * pageSize) virt phys flags = some t.phys) ∧
    (3 * ops.countP PageOp.isMap ≤ s.avail.card → ∃ t, Lts.exec (PageRun.step root) ⟨s, []⟩ ops = some t) := by
  refine ⟨fun t ht => ?_, fun hc => PageRun.exec_some (r := ⟨s, []⟩) hw hops hc⟩
  have hstart : PageRun.abs root ⟨s, []⟩ = (pageMap s.mem root, []) := rfl
  obtain ⟨hw', habs⟩ := Lts.exec_simulation (fun r m => WellFormed r.phys root ∧ r.abs root = m)
    (fun r m op t hr hop ht => by
      obtain ⟨hw', hstep⟩ := PageRun.step_simulates hr.1 hop ht
      exact ⟨hw', by rw [hstep, hr.2]⟩) ⟨hw, hstart⟩ hops ht
  refine ⟨hw', habs, fun virt halign => translatePage_eq halign, fun virt phys flags hhuge => mapPageIn_huge ?_⟩
  rw [pageMap_huge] at hhuge
  exact Option.isSome_iff_ne_none.mp hhuge

theorem tableAt_of_empty (hzero : ∀ i, tables mem root i = 0) (hp : tableAt mem root p = some f) :
    p = [] ∧ f = root := by
  cases p with
  | nil => exact ⟨rfl, (Option.some.inj hp).symm⟩
  | cons i p =>
    rw [tableAt, walk_cons, hzero, tableChild_zero] at hp
    cases hp

theorem WellFormed.of_empty (hlt : root < maxFrames) (hused : s.pmm.isFree root = false)
    (hzero : ∀ i, tables s.mem root i = 0) : WellFormed s root := by
  refine ⟨fun p q f _ _ hp hq => ?_, fun p f _ hp => ?_, fun p f i _ hp => ?_⟩
  · exact (tableAt_of_empty hzero hp).1.trans (tableAt_of_empty hzero hq).1.symm
  · rw [(tableAt_of_empty hzero hp).2]
    exact ⟨hlt, hused⟩
  · rw [(tableAt_of_empty hzero hp).2]
    exact .inl (hzero i)

/-- An empty tree on frame `1`, the frames above it free. -/
def emptyTree : Phys where
  pmm := { bitmap := fun i => if i = 0 then 3 else 0, totalFrames := maxFrames, freeFrames := maxFrames - 2 }
  mem := fun _ => 0

theorem emptyTree_tables (f : Nat) (i : Fin 512) : tables emptyTree.mem f i = 0 := loadWord_zero fun _ _ _ => rfl

theorem emptyTree_isFree (f : Nat) : emptyTree.pmm.isFree f = true ↔ 2 ≤ f := by
  rw [PmmState.isFree_iff]
  by_cases hf : f / 8 = 0
  · have h8 : f < 8 := by omega
    interval_cases f <;> decide
  · rw [emptyTree]
    simp only [if_neg hf]
    exact iff_of_true BitVec.getLsbD_zero (by omega)

theorem emptyTree_avail : emptyTree.avail.card = maxFrames - 2 := by
  have h : emptyTree.avail = (List.range' 2 (maxFrames - 2)).toFinset := by
    ext f
    rw [Phys.avail, Finset.mem_erase, PmmState.mem_freeSet, emptyTree_isFree, List.mem_toFinset, List.mem_range'_1]
    unfold maxFrames
    omega
  rw [h, List.toFinset_card_of_nodup List.nodup_range', List.length_range']

theorem emptyTree_wellFormed : WellFormed emptyTree 1 :=
  .of_empty (by decide) (by decide) (emptyTree_tables 1)

theorem page_tables_refine_emptyTree : WellFormed emptyTree 1 ∧
    ∃ t, Lts.exec (PageRun.step 1) ⟨emptyTree, []⟩ [.map 0x400000 0x5000 ⟨true, true, false⟩, .unmap 0x400000] = some t ∧
      t.phys.translatePage (1 * pageSize) 0x400000 = (pageMap t.phys.mem 1 (pageNo 0x400000)).map Mapping.frame := by
  have hw := emptyTree_wellFormed
  obtain ⟨hrun, hsome⟩ := page_tables_refine emptyTree 1
    [.map 0x400000 0x5000 ⟨true, true, false⟩, .unmap 0x400000] hw (by simp [PageOp.Valid, pageSize])
  obtain ⟨t, ht⟩ := hsome (by rw [emptyTree_avail]; decide)
  exact ⟨hw, t, ht, (hrun t ht).2.2.1 0x400000 (by decide)⟩

end CoreOS
