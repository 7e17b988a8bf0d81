/-
Places on a circle of `n`, and the search that a round robin makes: from the
place after a given one around to that place itself. `dist` counts the steps
from one place to another, a whole turn for the place itself; the search stops
at the wanted place that is nearest in this sense (`find?_round`), so a place
that waits to be found is never further away after a search than before
(`dist_lt_of_find?`).
-/
import Mathlib.Data.Fin.Basic
import Mathlib.Data.List.Range

namespace Cyclic

variable {n : Nat}

/-- The place `i` steps after `a`. -/
def after (a : Fin n) (i : Nat) : Fin n := ⟨(a.val + i) % n, Nat.mod_lt _ a.pos⟩

/-- The steps from `a` to `b`, at least one. -/
def dist (a b : Fin n) : Nat := if a.val < b.val then b.val - a.val else b.val + n - a.val

/-- The places after `a`, `a` itself last. -/
def round (a : Fin n) : List (Fin n) := (List.range' 1 n).map (after a)

theorem after_val (a : Fin n) {i : Nat} (hi : i ≤ n) :
    (after a i).val = if a.val + i < n then a.val + i else a.val + i - n := by
  have ha := a.isLt
  show (a.val + i) % n = _
  split
  next hlt => exact Nat.mod_eq_of_lt hlt
  next hge => rw [Nat.mod_eq_sub_mod (by omega), Nat.mod_eq_of_lt (by omega)]

theorem dist_pos (a b : Fin n) : 0 < dist a b := by
  have ha := a.isLt
  unfold dist
  split <;> omega

theorem dist_le (a b : Fin n) : dist a b ≤ n := by
  have hb := b.isLt
  unfold dist
  split <;> omega

theorem dist_lt {a b : Fin n} (h : a ≠ b) : dist a b < n := by
  have hne : a.val ≠ b.val := fun he => h (Fin.ext he)
  have hb := b.isLt
  unfold dist
  split <;> omega

@[simp] theorem after_dist (a b : Fin n) : after a (dist a b) = b := by
  have ha := a.isLt
  have hb := b.isLt
  apply Fin.ext
  rw [after_val a (dist_le a b)]
  unfold dist
  split <;> split <;> omega

theorem dist_after (a : Fin n) {i : Nat} (hpos : 0 < i) (hi : i ≤ n) : dist a (after a i) = i := by
  have ha := a.isLt
  unfold dist
  rw [after_val a hi]
  split <;> split at * <;> omega

theorem mem_round (a b : Fin n) : b ∈ round a := by
  have hpos := dist_pos a b
  have hle := dist_le a b
  exact List.mem_map.mpr ⟨dist a b, List.mem_range'_1.mpr (by omega), after_dist a b⟩

theorem dist_add {a b c : Fin n} (h : dist a b < dist a c) : dist a b + dist b c = dist a c := by
  have ha := a.isLt
  have hb := b.isLt
  have hc := c.isLt
  unfold dist at *
  split_ifs at * <;> omega

/-- **The search of a round robin** stops at the nearest place that is wanted. -/
theorem find?_round {a b : Fin n} {p : Fin n → Bool} :
    (round a).find? p = some b ↔ p b = true ∧ ∀ i, 0 < i → i < dist a b → p (after a i) = false := by
  rw [round, List.find?_map, Option.map_eq_some_iff]
  simp only [List.find?_range'_eq_some, List.mem_range'_1, Function.comp_apply, Bool.not_eq_true']
  constructor
  · rintro ⟨i, ⟨hi, ⟨hpos, hlt⟩, hbefore⟩, rfl⟩
    rw [dist_after a hpos (by omega)]
    exact ⟨hi, hbefore⟩
  · rintro ⟨hb, hbefore⟩
    have hpos := dist_pos a b
    have hle := dist_le a b
    exact ⟨dist a b, ⟨by rw [after_dist, hb], by omega, hbefore⟩, after_dist a b⟩

theorem dist_lt_of_find? {a b c : Fin n} {p : Fin n → Bool} (h : (round a).find? p = some b) (hc : p c = true)
    (hne : b ≠ c) : dist b c < dist a c := by
  have hlt : dist a b < dist a c := by
    by_contra hge
    rcases Nat.lt_or_eq_of_le (Nat.not_lt.mp hge) with hlt | heq
    · have hno := (find?_round.mp h).2 (dist a c) (dist_pos a c) hlt
      rw [after_dist, hc] at hno
      cases hno
    · apply hne
      rw [← after_dist a b, ← after_dist a c, heq]
  have hadd := dist_add hlt
  have hpos := dist_pos a b
  omega

end Cyclic
