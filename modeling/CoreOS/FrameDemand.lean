/-
When frames run out. `map_page_in` takes its tables with `alloc_table`, which panics,
after the frame of the page itself was asked for and checked. Whether a range of pages
is mapped, refused or fatal depends on the number of free frames and on which tables
are there, and on nothing else: these are counted here, and the loops over pages do
what the count says.
-/
import CoreOS.UserPages

namespace CoreOS

open ByteMem Radix

/-! ## The count -/

/-- Which of the three tables on the way to a page are there, which pages are, and how
many frames are free. -/
@[ext]
structure Supply where
  table : PageNo → Nat → Bool
  page : PageNo → Bool
  free : Nat

namespace Supply

/-- An address space without pages. -/
def empty (free : Nat) : Supply := ⟨fun _ _ => false, fun _ => false, free⟩

/-- The tables that a page still needs. -/
def missing (x : Supply) (v : PageNo) : Nat := (List.range 3).countP fun d => !x.table v d

/-- A frame for the page, then one for each of its tables: `some none` when there is
none for the page, `none` when there is none for a table. -/
def give (x : Supply) (v : PageNo) : Option (Option Supply) :=
  if x.free = 0 then some none
  else if x.missing v < x.free then
    some (some ⟨fun w d => x.table w d || decide ((dirPath w).take (d + 1) <+: dirPath v),
      fun w => x.page w || decide (w = v), x.free - 1 - x.missing v⟩)
  else none

/-- Only a page that is not there needs anything. -/
def want (x : Supply) (v : PageNo) : Option (Option Supply) := if x.page v then some (some x) else x.give v

/-- The rest is done only when nothing ran out. -/
def andThen (f : Supply → Option (Option Supply)) (r : Option (Option Supply)) : Option (Option Supply) :=
  r.bind fun o => o.elim (some none) f

/-- One item after the other. -/
def run {α : Type} (step : Supply → α → Option (Option Supply)) : List α → Supply → Option (Option Supply)
  | [], x => some (some x)
  | a :: as, x => andThen (run step as) (step x a)

/-- Every item that the run comes to is as `P` says. -/
def Along {α : Type} (P : Supply → α → Prop) (step : Supply → α → Option (Option Supply)) : List α → Supply → Prop
  | [], _ => True
  | a :: as, x => P x a ∧ ∀ y, step x a = some (some y) → Along P step as y

end Supply

/-- What there is in an address space. -/
def Phys.supply (s : Phys) (root : Nat) : Supply where
  table v d := (tableAt s.mem root ((dirPath v).take (d + 1))).isSome
  page v := (pageEntry s.mem root v).isSome
  free := s.avail.card

section Rounds

variable {t t' : Phys} {root : Nat} {v : PageNo} {mem : Mem}

theorem take_dirPath_length (v : PageNo) (d : Nat) : ((dirPath v).take d).length ≤ 3 := List.length_take_le' ..

theorem supply_free : (t.supply root).free = t.avail.card := by simp only [Phys.supply]

theorem supply_setMem (h : WellFormed.Same t.mem mem root) : (t.setMem mem).supply root = t.supply root := by
  have htable : ∀ v d, tableAt mem root ((dirPath v).take (d + 1)) = tableAt t.mem root ((dirPath v).take (d + 1)) :=
    fun v d => h.tableAt (Nat.le_succ_of_le (take_dirPath_length v _))
  have hpage : ∀ v, pageEntry mem root v = pageEntry t.mem root v := fun v => h.pageEntry
  refine Supply.ext (funext fun v => funext fun d => ?_) (funext fun v => ?_) ?_
  · exact congrArg Option.isSome (htable v d)
  · exact congrArg Option.isSome (hpage v)
  · rw [supply_free, supply_free, Phys.avail_setMem]

/-! ## A page -/

theorem missingTables_eq (h : hugeEntry t.mem root v = none) :
    missingTables t.mem root v = (t.supply root).missing v := by
  have h0 : (dirPath v).take 1 = [dirIndex v 3] := rfl
  have h1 : (dirPath v).take 2 = [dirIndex v 3, dirIndex v 2] := rfl
  have h2 : (dirPath v).take 3 = dirPath v := rfl
  simp only [missingTables, absentTables, h, Supply.missing, Phys.supply, List.range, List.range.loop,
    List.countP_cons, List.countP_nil, List.nil_append, List.cons_append, Nat.zero_add, h0, h1, h2, true_and,
    Bool.not_eq_true', Option.isSome_eq_false_iff, Option.isNone_iff_eq_none]
  omega

theorem NewPage.tableAt_isSome {e : Word} {q : List (Fin 512)} (h : NewPage t t' root v e) (hq : q.length ≤ 3) :
    (tableAt t'.mem root q).isSome = ((tableAt t.mem root q).isSome || decide (q <+: dirPath v)) := by
  rw [Bool.eq_iff_iff, Bool.or_eq_true, decide_eq_true_iff]
  constructor
  · intro hsome
    obtain ⟨f, hf⟩ := Option.isSome_iff_exists.mp hsome
    exact (h.table q f hq hf).imp (fun h => by rw [h]; rfl) And.right
  · rintro (hold | ⟨r, hr⟩)
    · obtain ⟨f, hf⟩ := Option.isSome_iff_exists.mp hold
      rw [h.kept q f hq hf]
      rfl
    · -- the page is there, and so are the tables on the way to it
      obtain ⟨pt, hpt, -⟩ := Option.bind_eq_some_iff.mp ((h.page v).trans (if_pos rfl))
      rw [← hr, tableAt, walk_append] at hpt
      obtain ⟨f, hf, -⟩ := Option.bind_eq_some_iff.mp hpt
      exact Option.isSome_iff_exists.mpr ⟨f, hf⟩

/-- **A page is mapped as the count says.** -/
theorem UserSpace.give_new {t1 : Phys} {virt g : Nat} (h : UserSpace t root) (hv : (pageNo virt).User) (flags : MapFlags)
    (hal : t.allocFrame = (g * pageSize, t1)) (ht : Phys.Took t g 1 t1) : (t.supply root).give (pageNo virt) =
      (t1.mapPageIn (root * pageSize) virt (g * pageSize) flags).map fun t2 =>
        some ((t2.setMem (fill t2.mem (g * pageSize) pageSize 0)).supply root) := by
  unfold Supply.give
  have hfree : (t.supply root).free = t1.avail.card + 1 := supply_free.trans ht.avail_card.symm
  have hmissing : missingTables t1.mem root (pageNo virt) = (t.supply root).missing (pageNo virt) := by
    have hsmall := (h.wf.hugeEntry_keeps ht.keeps).trans (h.small _ hv)
    rw [missingTables_eq hsmall, ← supply_setMem (h.wf.same_of_keeps ht.keeps)]
    simp only [Supply.missing, Phys.supply, Phys.setMem]
  rw [if_neg (by omega), hfree, ← hmissing]
  rcases mapPageIn_cases (h.wf.keeps ht.keeps) virt (g * pageSize) flags with ⟨hm, hlt⟩ | ⟨t2, hm, hc, -⟩
  · rw [if_neg (by omega), hm, Option.map_none]
  · rw [if_pos (by omega), hm, Option.map_some]
    obtain ⟨e, hnew, -⟩ := h.newPage hv hal ht.addr_ne_zero hm
    rw [Option.some_inj, Option.some_inj]
    refine Supply.ext (funext fun w => funext fun d => ?_) (funext fun w => ?_) ?_
    · exact (hnew.tableAt_isSome (take_dirPath_length w _)).symm
    · simp only [Phys.supply, hnew.page w]
      by_cases hw : w = pageNo virt <;> simp [hw]
    · rw [supply_free, Phys.avail_setMem]
      dsimp only
      omega

theorem UserSpace.seedPage_same {virt : Nat} (h : UserSpace t root) (hv : (pageNo virt).User) (off : Nat)
    (seed : Option (List Byte)) :
    UserSpace (t.seedPage (root * pageSize) virt off seed) root ∧
      (t.seedPage (root * pageSize) virt off seed).supply root = t.supply root := by
  cases seed with
  | none => exact ⟨h, rfl⟩
  | some bytes =>
    unfold Phys.seedPage Phys.writeUserPage
    rw [h.translatePage hv]
    cases he : pageEntry t.mem root (pageNo virt) with
    | none => exact ⟨h, rfl⟩
    | some e =>
      have hlen : 0 + ((bytes.drop off).take pageSize).length ≤ pageSize := by
        rw [Nat.zero_add]
        exact List.length_take_le ..
      obtain ⟨hspace, hsame, -⟩ := h.storePage hv he hlen
      rw [Nat.add_zero] at hspace hsame
      exact ⟨hspace, supply_setMem hsame⟩

/-! ## A range of pages -/

/-- The `n` pages of a range from its `i`-th on. -/
def pageRange (start i n : Nat) : List PageNo := (List.range' i n).map fun j => pageNo (start + j * pageSize)

variable {start i n : Nat}

/-- The walk looks at bits 12 to 47 only. -/
theorem pageNo_wrappingAdd (a b : Nat) : pageNo (wrappingAdd a b) = pageNo (a + b) := by
  unfold pageNo wrappingAdd usizeMod pageSize
  apply Fin.ext
  dsimp only
  omega

theorem lowPage (halign : start % pageSize = 0) (htop : start + (i + (n + 1)) * pageSize ≤ userTop) :
    wrappingAdd start (i * pageSize) = start + i * pageSize ∧ start + i * pageSize < userTop ∧
      (start + i * pageSize) % pageSize = 0 := by
  have hlt : start + i * pageSize < userTop := by
    unfold pageSize at *
    omega
  refine ⟨wrappingAdd_of_lt (by unfold userTop at hlt; unfold usizeMod; omega), hlt, ?_⟩
  rw [Nat.add_mul_mod_self_right, halign]

end Rounds

/-! ## Any page tables -/

namespace Phys

variable {s : Phys}

theorem ensureTable_frames (s : Phys) (table index : Nat) (flags : MapFlags) (h : 1 ≤ s.avail.card) :
    ∃ s', s.ensureTable table index flags = some s' ∧ s.avail.card ≤ s'.avail.card + 1 := by
  unfold ensureTable
  split
  · rcases s.allocTable_cases with ⟨g, s1, halloc, ht⟩ | ⟨-, hnone⟩
    · rw [halloc]
      exact ⟨_, rfl, ht.avail_card.ge⟩
    · rw [hnone, Finset.card_empty] at h
      omega
  · exact ⟨s, rfl, Nat.le_succ _⟩

theorem mapPageIn_frames (s : Phys) (pml4 virt phys : Nat) (flags : MapFlags) (h : 3 ≤ s.avail.card) :
    ∃ s', s.mapPageIn pml4 virt phys flags = some s' ∧ s.avail.card ≤ s'.avail.card + 3 := by
  unfold mapPageIn
  simp only [Option.bind_eq_bind]
  obtain ⟨s1, h1, hc1⟩ := s.ensureTable_frames pml4 (tableIndex virt 39) flags (by omega)
  rw [h1, Option.bind_some]
  generalize tableOf (entryAt s1.mem pml4 (tableIndex virt 39)) = pdpt
  obtain ⟨s2, h2, hc2⟩ := s1.ensureTable_frames pdpt (tableIndex virt 30) flags (by omega)
  rw [h2, Option.bind_some]
  generalize tableOf (entryAt s2.mem pdpt (tableIndex virt 30)) = pd
  obtain ⟨s3, h3, hc3⟩ := s2.ensureTable_frames pd (tableIndex virt 21) flags (by omega)
  rw [h3, Option.bind_some]
  split
  · exact ⟨s3, rfl, by omega⟩
  · exact ⟨_, rfl, by rw [avail_setMem]; omega⟩

theorem cloneKernelAddressSpace_frames (s : Phys) (kernelPml4 : Nat) :
    s.avail.card ≤ (s.cloneKernelAddressSpace kernelPml4).2.avail.card + 1 := by
  unfold cloneKernelAddressSpace
  rcases s.allocFrame_cases with ⟨g, s1, hal, ht⟩ | ⟨hal, -⟩
  · rw [hal]
    dsimp only
    rw [avail_setMem, ht.avail_card]
  · rw [hal]
    dsimp only
    rw [avail_setMem]
    exact Nat.le_succ _

theorem seedPage_avail (s : Phys) (pml4 virt off : Nat) (seed : Option (List Byte)) :
    (s.seedPage pml4 virt off seed).avail = s.avail := by
  unfold seedPage writeUserPage
  split
  · rfl
  · split <;> rfl

/-- **The loop of `mmap` and `brk`** returns with frames for all its pages, or with none,
whatever the page tables are. -/
theorem mapPages_returns (pml4 start : Nat) (flags : MapFlags) (seed : Option (List Byte)) (n i : Nat) (s : Phys)
    (h : s.avail = ∅ ∨ 4 * n ≤ s.avail.card) :
    ∃ o s', mapPages pml4 start flags seed n i s = some (o, s') ∧ (4 * n ≤ s.avail.card → o = none) := by
  induction n generalizing i s with
  | zero => exact ⟨none, s, rfl, fun _ => rfl⟩
  | succ n ih =>
    rcases mapPages_cases n s pml4 start i flags seed with ⟨-, hnone, he⟩ | ⟨g, s1, -, ht, he⟩
    · refine ⟨_, s, he, fun hcard => ?_⟩
      rw [hnone, Finset.card_empty] at hcard
      omega
    · have hc1 := ht.avail_card
      have hcard : 4 * (n + 1) ≤ s.avail.card := h.resolve_left fun hnone => by
        rw [hnone, Finset.card_empty] at hc1
        omega
      obtain ⟨s2, hs2, hc2⟩ := s1.mapPageIn_frames pml4 (wrappingAdd start (i * pageSize)) (g * pageSize) flags (by omega)
      rw [he, hs2, Option.bind_some]
      generalize hs3 : (s2.setMem (fill s2.mem (g * pageSize) pageSize 0)).seedPage pml4 (wrappingAdd start (i * pageSize))
        (i * pageSize) seed = s3
      have hc3 : 4 * n ≤ s3.avail.card := by
        rw [← hs3, seedPage_avail, avail_setMem]
        omega
      obtain ⟨o, s', hs', ho⟩ := ih (i + 1) s3 (.inr hc3)
      exact ⟨o, s', hs', fun _ => ho hc3⟩

end Phys

end CoreOS
