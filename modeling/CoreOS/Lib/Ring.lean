/-
A ring buffer of fixed capacity over any type: an array with a read cursor,
a write cursor and a count, and the queue it stands for (`items`).
-/
import Mathlib.Data.Nat.ModEq
import Mathlib.Logic.Function.Basic

structure RingBuf (α : Type) where
  buf : Nat → α
  readPos : Nat
  writePos : Nat
  len : Nat

namespace RingBuf

variable {α : Type} {cap : Nat}

/-- The queued items, oldest first. -/
def items (cap : Nat) (r : RingBuf α) : List α :=
  (List.range r.len).map fun i => r.buf ((r.readPos + i) % cap)

structure WellFormed (cap : Nat) (r : RingBuf α) : Prop where
  readPos : r.readPos < cap
  writePos : r.writePos = (r.readPos + r.len) % cap
  len : r.len ≤ cap

def push (cap : Nat) (r : RingBuf α) (x : α) : RingBuf α where
  buf := Function.update r.buf r.writePos x
  readPos := r.readPos
  writePos := (r.writePos + 1) % cap
  len := r.len + 1

def pop (cap : Nat) (r : RingBuf α) : RingBuf α where
  buf := r.buf
  readPos := (r.readPos + 1) % cap
  writePos := r.writePos
  len := r.len - 1

@[simp] theorem items_length {r : RingBuf α} : (items cap r).length = r.len := by simp [items]

theorem WellFormed.push {r : RingBuf α} {x : α} (h : WellFormed cap r) (hlt : r.len < cap) :
    WellFormed cap (push cap r x) := by
  constructor
  · exact h.readPos
  · simp only [RingBuf.push, h.writePos, Nat.mod_add_mod, Nat.add_assoc]
  · exact hlt

theorem WellFormed.pop {r : RingBuf α} (h : WellFormed cap r) (hpos : 0 < r.len) : WellFormed cap (pop cap r) := by
  have hr := h.readPos
  constructor
  · exact Nat.mod_lt _ (by omega)
  · simp only [RingBuf.pop, h.writePos, Nat.mod_add_mod]
    congr 1
    omega
  · have := h.len
    simp only [RingBuf.pop]
    omega

theorem offset_inj {a i j : Nat} (hi : i < cap) (hj : j < cap) (h : (a + i) % cap = (a + j) % cap) : i = j := by
  have h' : i % cap = j % cap := Nat.ModEq.add_left_cancel' a h
  rwa [Nat.mod_eq_of_lt hi, Nat.mod_eq_of_lt hj] at h'

/-- **A push appends.** -/
theorem items_push {r : RingBuf α} {x : α} (h : WellFormed cap r) (hlt : r.len < cap) :
    items cap (push cap r x) = items cap r ++ [x] := by
  simp only [items, RingBuf.push, List.range_succ, List.map_append, List.map_cons, List.map_nil]
  congr 1
  · apply List.map_congr_left
    intro i hi
    rw [List.mem_range] at hi
    apply Function.update_of_ne
    rw [h.writePos]
    intro he
    have := offset_inj (by omega) hlt he
    omega
  · rw [← h.writePos, Function.update_self]

/-- **A pop removes the head**, the cell under the read cursor. -/
theorem items_pop {r : RingBuf α} (h : WellFormed cap r) (hpos : 0 < r.len) :
    items cap r = r.buf r.readPos :: items cap (pop cap r) := by
  obtain ⟨n, hn⟩ : ∃ n, r.len = n + 1 := ⟨r.len - 1, by omega⟩
  simp only [items, RingBuf.pop, hn, List.range_succ_eq_map, List.map_cons, List.map_map,
    Nat.add_zero, Nat.mod_eq_of_lt h.readPos, Nat.add_sub_cancel, List.cons.injEq, true_and]
  apply List.map_congr_left
  intro i _
  simp only [Function.comp_apply, Nat.mod_add_mod]
  congr 2
  omega

end RingBuf
