/-
Address spaces with some entries of the root table left out. What the kernel
does with a page neither reads nor writes the entries of the root that are not
on the page's path, so it does the same to a tree without them, and results about
that tree carry over with the entries put back (`translatePage_withEntries`,
`mapPageIn_withEntries`). The tree is then one of its own tables, whatever the
other entries lead to.
-/
import CoreOS.PagingMap

namespace CoreOS

open ByteMem Radix
open Option (bind_none bind_some)

/-- The addresses of the entries of the table in frame `root` whose index is in
`S`. -/
def InEntries (root : Nat) (S : Nat → Prop) (x : Nat) : Prop := x / pageSize = root ∧ S (x % pageSize / 8)

instance {root : Nat} {S : Nat → Prop} [DecidablePred S] : DecidablePred (InEntries root S) :=
  fun _ => inferInstanceAs (Decidable (_ ∧ _))

/-- `t`, with the entries in `S` of the root table as in `mem`. -/
def Phys.withEntries (t : Phys) (root : Nat) (S : Nat → Prop) [DecidablePred S] (mem : Mem) : Phys :=
  t.setMem (overlay (InEntries root S) mem t.mem)

section Entries

variable {t : Phys} {root f : Nat} {mem : Mem} {i : Fin 512} {v : PageNo} {S : Nat → Prop}

theorem not_inEntries (h : f ≠ root ∨ ¬ S i) : ∀ x, InEntries root S x →
    x < f * pageSize + i * 8 ∨ f * pageSize + i * 8 + 8 ≤ x := by
  rintro x ⟨hx, hS⟩
  have hi := i.isLt
  by_contra! hin
  have hframe : f = root ∧ x % pageSize / 8 = i := by
    unfold pageSize at *
    omega
  rw [hframe.2] at hS
  exact h.elim (fun hne => hne hframe.1) fun hS' => hS' hS

variable [DecidablePred S]

theorem tables_withEntries (h : f ≠ root ∨ ¬ S i) :
    tables (t.withEntries root S mem).mem f i = tables t.mem f i := loadWord_overlay (not_inEntries h)

theorem writeEntry_overlay {mem' : Mem} {w : Word} (h : f ≠ root ∨ ¬ S i) :
    writeEntry (overlay (InEntries root S) mem mem') (f * pageSize) i w =
      overlay (InEntries root S) mem (writeEntry mem' (f * pageSize) i w) :=
  store_overlay (by simpa only [toBytes_length] using not_inEntries h)

theorem writeEntry_withEntries {w : Word} (h : f ≠ root ∨ ¬ S i) :
    (t.withEntries root S mem).setMem (writeEntry (t.withEntries root S mem).mem (f * pageSize) i w) =
      (t.setMem (writeEntry t.mem (f * pageSize) i w)).withEntries root S mem :=
  congrArg (Phys.mk t.pmm) (writeEntry_overlay h)

theorem allocFrame_withEntries (h : t.pmm.isFree root = false) :
    (t.withEntries root S mem).allocFrame = (t.allocFrame.1, t.allocFrame.2.withEntries root S mem) := by
  unfold Phys.allocFrame
  rw [show (t.withEntries root S mem).pmm = t.pmm from rfl]
  cases hf : (List.range' 1 (maxFrames - 1)).find? t.pmm.isFree with
  | none => rfl
  | some f =>
    have hne : f ≠ root := by
      rintro rfl
      rw [List.find?_some hf] at h
      cases h
    refine Prod.ext rfl (congrArg (Phys.mk _) (fill_overlay fun x hx => ?_))
    have hx := hx.1
    unfold pageSize at *
    omega

theorem allocTable_withEntries (h : t.pmm.isFree root = false) : (t.withEntries root S mem).allocTable =
    t.allocTable.map fun r => (r.1, r.2.withEntries root S mem) := by
  unfold Phys.allocTable
  rw [allocFrame_withEntries h]
  obtain ⟨a, t1⟩ := t.allocFrame
  cases a <;> rfl

theorem ensureTable_withEntries (hroot : t.pmm.isFree root = false) (h : f ≠ root ∨ ¬ S i) (flags : MapFlags) :
    (t.withEntries root S mem).ensureTable (f * pageSize) i flags =
      (t.ensureTable (f * pageSize) i flags).map fun t => t.withEntries root S mem := by
  unfold Phys.ensureTable
  rw [entryAt_eq, entryAt_eq, tables_withEntries h, allocTable_withEntries hroot]
  split
  · cases t.allocTable with
    | none => rfl
    | some r => exact congrArg some (writeEntry_withEntries h)
  · rfl

theorem WellFormed.ne_root {p : List (Fin 512)} (hw : WellFormed t root) (hp : p.length ≤ 3) (hne : p ≠ [])
    (hf : tableAt t.mem root p = some f) : f ≠ root := by
  rintro rfl
  exact hne (hw.once p [] f hp (by simp) hf rfl)

theorem WellFormed.root_used (hw : WellFormed t root) : t.pmm.isFree root = false := (hw.table [] root (by simp) rfl).2

theorem tableAt_withEntries {p : List (Fin 512)} (hw : WellFormed t root) (hi : ¬ S i) (hp : p.length ≤ 3) :
    tableAt (t.withEntries root S mem).mem root (i :: p) = tableAt t.mem root (i :: p) := by
  unfold tableAt
  rw [walk_cons, walk_cons, tables_withEntries (.inr hi)]
  cases hc : tableChild 0 (tables t.mem root i) with
  | none => rw [bind_none, bind_none]
  | some g =>
    rw [bind_some, bind_some]
    refine walk_congr fun q g' hpre hlt hq => funext fun j => tables_withEntries (.inl ?_)
    have hat : tableAt t.mem root (i :: q) = some g' := by
      unfold tableAt
      rw [walk_cons, hc, bind_some]
      exact hq
    exact hw.ne_root (by rw [List.length_cons]; omega) (by simp) hat

theorem hugeEntry_withEntries (hw : WellFormed t root) (hv : ¬ S (dirIndex v 3)) :
    hugeEntry (t.withEntries root S mem).mem root v = hugeEntry t.mem root v := by
  unfold hugeEntry
  rw [tableAt_withEntries hw hv (by simp)]
  cases hpd : tableAt t.mem root [dirIndex v 3, dirIndex v 2] with
  | none => rw [bind_none, bind_none]
  | some pd =>
    rw [bind_some, bind_some]
    dsimp only
    rw [tables_withEntries (.inl (hw.ne_root (by simp) (by simp) hpd))]

theorem pageEntry_withEntries (hw : WellFormed t root) (hv : ¬ S (dirIndex v 3)) :
    pageEntry (t.withEntries root S mem).mem root v = pageEntry t.mem root v := by
  unfold pageEntry dirPath
  rw [tableAt_withEntries hw hv (by simp)]
  cases hpt : tableAt t.mem root [dirIndex v 3, dirIndex v 2, dirIndex v 1] with
  | none => rw [bind_none, bind_none]
  | some pt =>
    rw [bind_some, bind_some]
    dsimp only
    rw [tables_withEntries (.inl (hw.ne_root (by simp) (by simp) hpt))]

theorem pageMap_withEntries (hw : WellFormed t root) (hv : ¬ S (dirIndex v 3)) :
    pageMap (t.withEntries root S mem).mem root v = pageMap t.mem root v := by
  unfold pageMap
  rw [hugeEntry_withEntries hw hv, pageEntry_withEntries hw hv]

theorem translatePage_withEntries {virt : Nat} (hw : WellFormed t root) (hv : ¬ S (dirIndex (pageNo virt) 3)) :
    (t.withEntries root S mem).translatePage (root * pageSize) virt = t.translatePage (root * pageSize) virt := by
  rw [translatePage_map, translatePage_map, pageMap_withEntries hw hv]

theorem descend_withEntries {p is : List (Fin 512)} (flags : MapFlags) (hw : WellFormed t root)
    (hf : tableAt t.mem root p = some f) (hlen : p.length + is.length ≤ 2) (hS : p = [] → ∀ i ∈ is.head?, ¬ S i) :
    (t.withEntries root S mem).descend flags is (f * pageSize) =
      (t.descend flags is (f * pageSize)).map fun r => (r.1, r.2.withEntries root S mem) := by
  induction is generalizing t p f with
  | nil => rfl
  | cons i is ih =>
    rw [List.length_cons] at hlen
    have hentry : f ≠ root ∨ ¬ S i := by
      by_cases hp : p = []
      · exact .inr (hS hp i rfl)
      · exact .inl (hw.ne_root (by omega) hp hf)
    rw [Phys.descend, Phys.descend, ensureTable_withEntries hw.root_used hentry]
    rcases ensureTable_cases hw hf (by omega) i flags with ⟨he, -⟩ | ⟨t1, he, hd1, hp1, hpres, -⟩
    · rw [he]
      rfl
    rw [he, Option.map_some, bind_some, bind_some, entryAt_eq, entryAt_eq, tables_withEntries hentry,
      tableOf_eq]
    refine ih hd1.wf (tableAt_snoc hp1 hpres fun h => by omega) ?_ fun h => by simp at h
    rw [List.length_append, List.length_singleton]
    omega

theorem mapPageIn_withEntries {virt phys : Nat} {flags : MapFlags} (hw : WellFormed t root)
    (hv : ¬ S (dirIndex (pageNo virt) 3)) :
    (t.withEntries root S mem).mapPageIn (root * pageSize) virt phys flags =
      (t.mapPageIn (root * pageSize) virt phys flags).map fun t => t.withEntries root S mem := by
  rw [mapPageIn_descend, mapPageIn_descend]
  generalize pageNo virt = v at hv
  have hroot : tableAt t.mem root [] = some root := rfl
  rw [descend_withEntries flags hw hroot (by simp) fun _ i hi => by cases hi; exact hv]
  rcases descend_cases flags [dirIndex v 3, dirIndex v 2] hw hroot (by simp) with ⟨he, -⟩ | ⟨pd, t2, he, hd2, hpd, -⟩
  · rw [he]
    rfl
  have hne := hd2.wf.ne_root (by simp) (by simp) hpd
  rw [he, Option.map_some, bind_some, bind_some, ensureTable_withEntries hd2.wf.root_used (.inl hne)]
  rcases ensureTable_cases hd2.wf hpd (by simp) (dirIndex v 1) flags with ⟨he, -⟩ | ⟨t3, he, hd3, hp3, hpres3, -⟩
  · rw [he]
    rfl
  rw [he, Option.map_some, bind_some, bind_some]
  simp only [entryAt_eq, tableOf_eq, tables_withEntries (.inl hne : pd ≠ root ∨ ¬ S (dirIndex v 1))]
  split
  · rfl
  next hhuge =>
    have hpt := tableAt_snoc hp3 hpres3 fun _ => by simpa using hhuge
    exact congrArg some (writeEntry_withEntries (.inl (hd3.wf.ne_root (by simp) (by simp) hpt)))

end Entries

end CoreOS
