/-
Linked lists threaded through the cells they list: each cell holds the address
of the next, and address 0 ends the list. `next` reads a cell.
-/
import Mathlib.Data.List.Basic

namespace FreeList

/-- The cells reached from `head` are `l`, in order, and the last leads to 0. -/
def Chain (next : Nat → Nat) : Nat → List Nat → Prop
  | head, [] => head = 0
  | head, a :: l => head = a ∧ a ≠ 0 ∧ Chain next (next a) l

variable {next next' : Nat → Nat} {head a : Nat} {l l' : List Nat}

theorem Chain.congr (h : Chain next head l) (hn : ∀ a ∈ l, next' a = next a) : Chain next' head l := by
  induction l generalizing head with
  | nil => exact h
  | cons a l ih =>
    obtain ⟨rfl, hne, h⟩ := h
    refine ⟨rfl, hne, ?_⟩
    rw [hn head List.mem_cons_self]
    exact ih h fun b hb => hn b (List.mem_cons_of_mem head hb)

theorem Chain.push (h : Chain next head l) (ha : a ≠ 0) (hn : ∀ b ∈ l, next' b = next b) (hhead : next' a = head) :
    Chain next' a (a :: l) := by
  refine ⟨rfl, ha, ?_⟩
  rw [hhead]
  exact h.congr hn

end FreeList
