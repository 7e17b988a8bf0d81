/-
Reference counting: a table of counters tracks a multiset of references when
each counter is the number of references with its tag (`Tracks`). Taking a
reference adds one to the multiset and to its counter, dropping one takes both
back, and references with another tag do not matter.
-/
import Mathlib.Algebra.BigOperators.Group.Finset.Piecewise
import Mathlib.Data.Multiset.Count
import Mathlib.Tactic.Abel

namespace RefCount

open Function (update update_self update_of_ne)

variable {κ τ : Type} {tag : κ → τ} {refs : κ → Nat} {M : Multiset τ} {t : τ} {i : κ}

section Counters

variable [DecidableEq τ]

/-- Counter `i` is the number of references tagged `tag i`. -/
def Tracks (tag : κ → τ) (refs : κ → Nat) (M : Multiset τ) : Prop := ∀ i, refs i = M.count (tag i)

theorem Tracks.cons [DecidableEq κ] (h : Tracks tag refs M) (hinj : Function.Injective tag) :
    Tracks tag (update refs i (refs i + 1)) (tag i ::ₘ M) := by
  intro j
  by_cases hj : j = i
  · subst hj
    rw [update_self, Multiset.count_cons_self, h]
  · rw [update_of_ne hj, Multiset.count_cons_of_ne (hinj.ne hj), h]

theorem Tracks.of_cons [DecidableEq κ] (h : Tracks tag refs (tag i ::ₘ M)) (hinj : Function.Injective tag) :
    Tracks tag (update refs i (refs i - 1)) M := by
  intro j
  by_cases hj : j = i
  · subst hj
    rw [update_self, h, Multiset.count_cons_self, Nat.add_sub_cancel]
  · rw [update_of_ne hj, h, Multiset.count_cons_of_ne (hinj.ne hj)]

theorem tracks_cons_other (ht : ∀ i, tag i ≠ t) : Tracks tag refs (t ::ₘ M) ↔ Tracks tag refs M := by
  unfold Tracks
  simp only [Multiset.count_cons_of_ne (ht _)]

theorem Tracks.pos (h : Tracks tag refs M) (hi : tag i ∈ M) : 0 < refs i := by
  rw [h]
  exact Multiset.count_pos.mpr hi

end Counters

/-! ## Tables of references -/

/-- The first `n` entries of a table. -/
def entries (n : Nat) (f : Nat → τ) : Multiset τ := (Multiset.range n).map f

theorem mem_entries {n j : Nat} {f : Nat → τ} (hj : j < n) : f j ∈ entries n f :=
  Multiset.mem_map_of_mem f (Multiset.mem_range.mpr hj)

theorem entries_update {n j : Nat} {f : Nat → τ} (hj : j < n) :
    f j ::ₘ entries n (update f j t) = t ::ₘ entries n f := by
  obtain ⟨m, hm⟩ := Multiset.exists_cons_of_mem (Multiset.mem_range.mpr hj)
  have hnot : j ∉ m := by
    have hnd := Multiset.nodup_range n
    rw [hm, Multiset.nodup_cons] at hnd
    exact hnd.1
  have hrest : m.map (update f j t) = m.map f :=
    Multiset.map_congr rfl fun x hx => update_of_ne (fun he : x = j => hnot (he ▸ hx)) t f
  simp only [entries, hm, Multiset.map_cons, update_self, hrest]
  exact Multiset.cons_swap ..

theorem sum_update [Fintype κ] [DecidableEq κ] {F : κ → Multiset τ} {m : Multiset τ} :
    F i + ∑ j, update F i m j = m + ∑ j, F j := by
  rw [Finset.sum_update_of_mem (Finset.mem_univ i), ← Finset.add_sum_erase _ F (Finset.mem_univ i),
    Finset.sdiff_singleton_eq_erase]
  abel

end RefCount
