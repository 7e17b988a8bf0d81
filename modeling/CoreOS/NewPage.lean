/-
A page is given a frame: `alloc_frame`, `map_page_in` and the zeroing that every loop
over pages repeats, as one step on a tree of tables.
-/
import CoreOS.PagingCopy
import CoreOS.PagingMap

namespace CoreOS

open ByteMem Radix

/-- The frame a 4 KiB entry maps. -/
def leafFrame (e : Word) : Nat := (e &&& pteAddrMask).toNat / pageSize

theorem leafFrame_leafEntry {g : Nat} (flags : MapFlags) (hg : g < maxFrames) :
    leafFrame (leafEntry (g * pageSize) flags) = g := by
  rw [leafFrame, (leafEntry_facts flags (frame_lt_pow hg) (Nat.mul_mod_left ..)).1, Phys.frame_div]

theorem leafFrame_addr (e : Word) : (e &&& pteAddrMask).toNat = leafFrame e * pageSize := by
  have := masked_aligned e
  unfold leafFrame pageSize at *
  omega

/-- Page `v` has entry `e`, with a frame of zeros that was free, and other pages stay as
they are. -/
structure NewPage (t t' : Phys) (root : Nat) (v : PageNo) (e : Word) : Prop where
  wf : WellFormed t' root
  huge : ∀ w, hugeEntry t'.mem root w = hugeEntry t.mem root w
  page : ∀ w, pageEntry t'.mem root w = if w = v then some e else pageEntry t.mem root w
  frame : leafFrame e ∈ t.avail
  used : t'.pmm.isFree (leafFrame e) = false
  noTable : ¬ IsTable t' root (leafFrame e)
  zero : ∀ k < pageSize, t'.mem (leafFrame e * pageSize + k) = 0
  table : ∀ q f, q.length ≤ 3 → tableAt t'.mem root q = some f →
    tableAt t.mem root q = some f ∨ t.pmm.isFree f = true ∧ q <+: dirPath v
  kept : ∀ q f, q.length ≤ 3 → tableAt t.mem root q = some f → tableAt t'.mem root q = some f
  taken : ∀ g, Taken t t' g → IsTable t' root g ∨ g = leafFrame e
  writes : Writes t t' (IsTable t root)
  beyond : SameBeyond tableChild (tables t.mem) (tables t'.mem) 3 root [dirIndex v 3]

variable {t t1 t2 : Phys} {root g a virt : Nat} {v : PageNo} {e : Word} {flags : MapFlags}

theorem mem_avail : g ∈ t.avail ↔ g ≠ 0 ∧ g < maxFrames ∧ t.pmm.isFree g = true := by
  rw [Phys.avail, Finset.mem_erase, PmmState.mem_freeSet]

theorem Phys.Took.ne {f : Nat} (ht : Phys.Took t g 1 t1) (hf : t.pmm.isFree f = false) : g ≠ f := by
  rintro rfl
  rw [ht.taken.1] at hf
  cases hf

/-- Memory that differs only in a frame that holds no table has the same tables. -/
theorem WellFormed.Same.of_frame {mem : Mem} (hg : ¬ IsTable t root g) (hout : ∀ x, x / pageSize ≠ g → mem x = t.mem x) :
    WellFormed.Same t.mem mem root := by
  intro p f hp hf
  refine tables_congr fun x h1 h2 => hout x fun hx => hg ⟨p, hp, ?_⟩
  rw [hf, show f = g by unfold pageSize at *; omega]

/-- **A page is given a frame**, on a tree in which it is not part of a 2 MiB page. -/
theorem WellFormed.newPage (hw : WellFormed t root) (hhuge : hugeEntry t.mem root (pageNo virt) = none)
    (hal : t.allocFrame = (a, t1)) (ha : a ≠ 0) (hm : t1.mapPageIn (root * pageSize) virt a flags = some t2) :
    ∃ e, NewPage t (t2.setMem (fill t2.mem a pageSize 0)) root (pageNo virt) e := by
  rcases t.allocFrame_cases with ⟨g, t1', he, ht⟩ | ⟨he, -⟩
  · cases hal.symm.trans he
    have hsame1 := hw.same_of_keeps ht.keeps
    obtain ⟨hbound, hused, hnone⟩ := hw.aside_took ht
    rcases mapPageIn_cases (hw.keeps ht.keeps) virt (g * pageSize) flags with ⟨hnone, -⟩ | ⟨t2', ht2, -, hmap⟩
    · rw [hnone] at hm
      cases hm
    cases hm.symm.trans ht2
    -- the frame of the page is in use when tables are asked for
    have hgt : ¬ IsTable t2 root g := by
      intro ⟨q, hq, hqg⟩
      rcases hmap.fresh q g hq hqg with hold | ⟨hfree, -⟩
      · exact hnone q hq hold
      · rw [hused] at hfree
        cases hfree
    have hout : ∀ x, x / pageSize ≠ g → fill t2.mem (g * pageSize) pageSize 0 x = t2.mem x :=
      fun x hx => fill_out (by unfold pageSize at *; omega)
    have hsame3 : WellFormed.Same t2.mem (fill t2.mem (g * pageSize) pageSize 0) root := .of_frame hgt hout
    have hwrites : Writes t t2 (IsTable t root) := by
      refine ht.writes.trans hmap.writes fun f ⟨q, hq, hf⟩ => .inl ⟨q, hq, ?_⟩
      exact (hsame1.tableAt (by omega)).symm.trans hf
    have htables : ∀ {q f}, q.length ≤ 3 → (tableAt (fill t2.mem (g * pageSize) pageSize 0) root q = some f ↔
        tableAt t2.mem root q = some f) := fun hq => by rw [hsame3.tableAt (by omega)]
    refine ⟨leafEntry (g * pageSize) flags, ?_⟩
    have hleaf := leafFrame_leafEntry flags hbound
    refine ⟨hmap.wf.same hsame3 fun p f hp hf => (hmap.wf.table p f hp hf).2, fun w => ?_, fun w => ?_,
      ?_, ?_, ?_, fun k hk => ?_, fun q f hq hf => ?_, fun q f hq hf => ?_, fun f hf => ?_, ?_, ?_⟩
    · exact hsame3.hugeEntry.trans ((hmap.huge w).trans hsame1.hugeEntry)
    · refine hsame3.pageEntry.trans ((hmap.page w).trans ?_)
      rw [hsame1.hugeEntry, hhuge, hsame1.pageEntry]
      simp
    · rw [hleaf]
      exact ht.mem_avail
    · rw [hleaf]
      exact hmap.writes.used hused
    · rw [hleaf]
      exact fun ⟨q, hq, hqg⟩ => hgt ⟨q, hq, (htables hq).mp hqg⟩
    · rw [hleaf]
      exact fill_in (by omega) (by omega)
    · rcases hmap.fresh q f hq ((htables hq).mp hf) with hf1 | ⟨hfree, hway⟩
      · exact .inl ((hsame1.tableAt (by omega)).symm.trans hf1)
      · exact .inr ⟨((ht.isFree f).mp hfree).1, hway⟩
    · exact (htables hq).mpr (hmap.kept q f hq ((hsame1.tableAt (by omega)).trans hf))
    · -- the frame was handed out for the page, or by `map_page_in` for a table
      by_cases hfg : f = g
      · exact .inr (hfg.trans hleaf.symm)
      · rcases hmap.taken f ((ht.isFree f).mpr ⟨hf.1, by omega⟩) with hfree | ⟨q, hq, hqf⟩
        · have hstill : t2.pmm.isFree f = false := hf.2
          rw [hstill] at hfree
          cases hfree
        · exact .inl ⟨q, hq, (htables hq).mpr hqf⟩
    · refine hwrites.trans (.setMem hout) fun f hf => .inr ?_
      subst hf
      exact ⟨ht.taken.1, hmap.writes.used hused⟩
    · have h1 : SameBeyond tableChild (tables t.mem) (tables t1.mem) 3 root [dirIndex (pageNo virt) 3] :=
        SameBeyond.unreached hsame1
      have h3 : SameBeyond tableChild (tables t2.mem) (tables (fill t2.mem (g * pageSize) pageSize 0)) 3 root
          [dirIndex (pageNo virt) 3] := SameBeyond.unreached hsame3
      exact (h1.trans hmap.beyond (List.prefix_refl _) (List.prefix_refl _)).trans h3 (List.prefix_refl _)
        (List.prefix_refl _)
  · cases hal.symm.trans he
    exact absurd rfl ha

end CoreOS
