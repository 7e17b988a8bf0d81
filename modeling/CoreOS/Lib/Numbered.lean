/-
Tables whose entries are given serial numbers as they are put in, so that an
index used again holds an entry of another number. The numbers given are below
the next one, and no two present entries share one.
-/
import Mathlib.Logic.Function.Basic

variable {ι α β : Type}

/-- The entries of `table` are numbered by `num`, all below `serial`. -/
structure Numbered (serial : Nat) (num : ι → Nat) (table : ι → Option α) : Prop where
  fresh : ∀ {x a}, table x = some a → num x < serial
  inj : ∀ {x y a b}, table x = some a → table y = some b → num x = num y → x = y

namespace Numbered

variable {serial : Nat} {num : ι → Nat} {table : ι → Option α}

theorem empty : Numbered serial num fun _ => (none : Option α) := ⟨nofun, nofun⟩

theorem sub {table' : ι → Option β} (h : Numbered serial num table)
    (hsub : ∀ {x b}, table' x = some b → ∃ a, table x = some a) : Numbered serial num table' := by
  refine ⟨fun hb => ?_, fun hb hc => ?_⟩
  · obtain ⟨a, ha⟩ := hsub hb
    exact h.fresh ha
  · obtain ⟨a, ha⟩ := hsub hb
    obtain ⟨a', ha'⟩ := hsub hc
    exact h.inj ha ha'

theorem insert [DecidableEq ι] (h : Numbered serial num table) (i : ι) (a : α) :
    Numbered (serial + 1) (Function.update num i serial) (Function.update table i (some a)) := by
  have hold : ∀ {x b}, x ≠ i → Function.update table i (some a) x = some b →
      Function.update num i serial x = num x ∧ num x < serial ∧ table x = some b := by
    intro x b hx hb
    rw [Function.update_of_ne hx] at hb
    exact ⟨Function.update_of_ne hx .., h.fresh hb, hb⟩
  refine ⟨fun {x b} hb => ?_, fun {x y b c} hb hc heq => ?_⟩
  · by_cases hx : x = i
    · rw [hx, Function.update_self]
      omega
    · obtain ⟨hnum, hlt, -⟩ := hold hx hb
      omega
  · by_cases hx : x = i <;> by_cases hy : y = i
    · rw [hx, hy]
    · obtain ⟨hnum, hlt, -⟩ := hold hy hc
      rw [hx, Function.update_self] at heq
      omega
    · obtain ⟨hnum, hlt, -⟩ := hold hx hb
      rw [hy, Function.update_self] at heq
      omega
    · obtain ⟨hx', -, hb'⟩ := hold hx hb
      obtain ⟨hy', -, hc'⟩ := hold hy hc
      exact h.inj hb' hc' (by omega)

end Numbered
