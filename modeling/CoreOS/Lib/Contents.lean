/-
Sequences that grow by a filler, as the contents of files do: an overwrite at a
position, which first fills up to it, and a resize. Both are given entry by
entry, and are what cutting and appending lists comes to.
-/
import Mathlib.Data.List.GetD

namespace Contents

variable {α : Type} {zero : α} {old d : List α} {p len : Nat}

/-- `old` with `d` on `[p, p + d.length)`, as long as it takes. -/
def overwrite (zero : α) (old : List α) (p : Nat) (d : List α) : List α :=
  (List.range (max old.length (p + d.length))).map fun n =>
    if p ≤ n ∧ n < p + d.length then d.getD (n - p) zero else old.getD n zero

/-- `old` cut or filled up to `len`. -/
def resize (zero : α) (old : List α) (len : Nat) : List α := (List.range len).map fun n => old.getD n zero

@[simp] theorem length_overwrite : (overwrite zero old p d).length = max old.length (p + d.length) := by
  simp [overwrite]

@[simp] theorem length_resize : (resize zero old len).length = len := by
  simp [resize]

theorem getD_map_range {f : Nat → α} {n : Nat} :
    ((List.range len).map f).getD n zero = if n < len then f n else zero := by
  by_cases hn : n < len
  · simp [List.getD, hn]
  · simp [List.getD, hn]

theorem getD_resize {n : Nat} : (resize zero old len).getD n zero = if n < len then old.getD n zero else zero :=
  getD_map_range

theorem getD_overwrite {n : Nat} :
    (overwrite zero old p d).getD n zero =
      if p ≤ n ∧ n < p + d.length then d.getD (n - p) zero else old.getD n zero := by
  rw [overwrite, getD_map_range]
  by_cases hn : n < max old.length (p + d.length)
  · rw [if_pos hn]
  · have hold : old.getD n zero = zero := List.getD_eq_default _ _ (by omega)
    rw [if_neg hn, if_neg (by omega), hold]

theorem ext_getD {xs ys : List α} (zero : α) (hlen : xs.length = ys.length)
    (h : ∀ n, n < xs.length → xs.getD n zero = ys.getD n zero) : xs = ys := by
  refine List.ext_getElem hlen fun n hx hy => ?_
  have := h n hx
  rwa [List.getD_eq_getElem _ _ hx, List.getD_eq_getElem _ _ hy] at this

theorem take_append_replicate : old.take len ++ List.replicate (len - old.length) zero = resize zero old len := by
  refine ext_getD zero (by simp; omega) fun n hn => ?_
  simp only [List.length_append, List.length_take, List.length_replicate] at hn
  rw [getD_resize, if_pos (by omega)]
  by_cases h : n < old.length
  · have hlen : n < (old.take len).length := by simp; omega
    rw [List.getD_append _ _ _ _ hlen, List.getD_eq_getElem _ _ hlen, List.getD_eq_getElem _ _ h, List.getElem_take]
  · have hlen : (old.take len).length ≤ n := by simp; omega
    rw [List.getD_append_right _ _ _ _ hlen, List.getD_eq_default _ _ (Nat.not_lt.mp h)]
    by_cases hr : n - (old.take len).length < len - old.length
    · rw [List.getD_eq_getElem _ _ (by simpa using hr), List.getElem_replicate]
    · exact List.getD_eq_default _ _ (by simpa using hr)

theorem take_append_drop (h : p + d.length ≤ old.length) :
    old.take p ++ d ++ old.drop (p + d.length) = overwrite zero old p d := by
  refine ext_getD zero (by simp; omega) fun n hn => ?_
  have htake : (old.take p).length = p := by simp; omega
  rw [getD_overwrite, List.append_assoc]
  by_cases h1 : n < p
  · rw [if_neg (by omega), List.getD_append _ _ _ _ (by omega), List.getD_eq_getElem _ _ (by omega),
      List.getD_eq_getElem _ _ (by omega), List.getElem_take]
  · rw [List.getD_append_right _ _ _ _ (by omega), htake]
    by_cases h2 : n < p + d.length
    · rw [if_pos ⟨by omega, h2⟩, List.getD_append _ _ _ _ (by omega)]
    · rw [if_neg (by omega), List.getD_append_right _ _ _ _ (by omega)]
      simp only [List.getD, List.getElem?_drop]
      congr 2
      omega

theorem overwrite_resize (h : old.length ≤ p + d.length) :
    overwrite zero (resize zero old (p + d.length)) p d = overwrite zero old p d := by
  refine ext_getD zero (by simp; omega) fun n hn => ?_
  simp only [length_overwrite, length_resize, Nat.max_self] at hn
  rw [getD_overwrite, getD_overwrite, getD_resize, if_pos hn]

theorem overwrite_nil (h : p ≤ old.length) : overwrite zero old p [] = old := by
  refine ext_getD zero (by simp; omega) fun n _ => ?_
  rw [getD_overwrite, if_neg (by simp)]

theorem overwrite_overwrite {d' : List α} :
    overwrite zero (overwrite zero old p d) (p + d.length) d' = overwrite zero old p (d ++ d') := by
  refine ext_getD zero (by simp; omega) fun n _ => ?_
  rw [getD_overwrite, getD_overwrite, getD_overwrite, List.length_append]
  by_cases h : n < p + d.length
  · rw [if_neg (by omega)]
    by_cases hp : p ≤ n
    · rw [if_pos ⟨hp, h⟩, if_pos ⟨hp, by omega⟩, List.getD_append _ _ _ _ (by omega)]
    · rw [if_neg (by omega), if_neg (by omega)]
  · by_cases h' : n < p + d.length + d'.length
    · rw [if_pos ⟨by omega, h'⟩, if_pos ⟨by omega, by omega⟩, List.getD_append_right _ _ _ _ (by omega), Nat.sub_sub]
    · rw [if_neg (by omega), if_neg (by omega), if_neg (by omega)]

end Contents
