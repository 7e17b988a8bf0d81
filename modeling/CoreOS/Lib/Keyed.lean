/-
Lists of entries with distinct keys, read as finite maps: looking a key up by
position and by entry, and what appending an entry, erasing one and changing
one in place do to every lookup.
-/
import Mathlib

namespace Keyed

variable {α κ : Type} {key : α → κ} {l : List α} {a : α} {i : Nat} {k : κ}

/-- No two entries have the same key. -/
def Distinct (key : α → κ) (l : List α) : Prop := (l.map key).Nodup

theorem map_modify {f : α → α} (hf : ∀ a, key (f a) = key a) (l : List α) (i : Nat) :
    (l.modify i f).map key = l.map key := by
  refine List.ext_getElem? fun j => ?_
  rw [List.getElem?_map, List.getElem?_map, List.getElem?_modify]
  split
  · simp [Function.comp_def, hf]
  · simp

namespace Distinct

variable (h : Distinct key l)
include h

theorem index_unique {j : Nat} {b : α} (ha : l[i]? = some a) (hb : l[j]? = some b) (hk : key a = key b) : i = j := by
  have hlt : i < (l.map key).length := by
    rw [List.length_map]
    exact (List.getElem?_eq_some_iff.mp ha).1
  refine (List.getElem?_inj hlt h).mp ?_
  rw [List.getElem?_map, List.getElem?_map, ha, hb, Option.map_some, Option.map_some, hk]

theorem eraseIdx (i : Nat) : Distinct key (l.eraseIdx i) :=
  List.Nodup.sublist ((List.eraseIdx_sublist l i).map key) h

theorem modify {f : α → α} (hf : ∀ a, key (f a) = key a) (i : Nat) : Distinct key (l.modify i f) := by
  unfold Distinct
  rwa [map_modify hf]

end Distinct

variable [DecidableEq κ]

/-- The first entry with key `k`. -/
def lookup (key : α → κ) (l : List α) (k : κ) : Option α := l.find? fun a => key a = k

/-- Its position. -/
def position (key : α → κ) (l : List α) (k : κ) : Option Nat := l.findIdx? fun a => key a = k

theorem lookup_eq_none : lookup key l k = none ↔ ∀ a ∈ l, key a ≠ k := by
  simp [lookup, List.find?_eq_none]

theorem position_eq_none : position key l k = none ↔ ∀ a ∈ l, key a ≠ k := by
  simp [position, List.findIdx?_eq_none_iff]

theorem key_of_lookup (h : lookup key l k = some a) : key a = k := by
  simpa using List.find?_some h

theorem getElem?_of_position (h : position key l k = some i) : ∃ a, l[i]? = some a ∧ key a = k := by
  obtain ⟨hlt, hkey, -⟩ := List.findIdx?_eq_some_iff_getElem.mp h
  exact ⟨l[i], List.getElem?_eq_getElem hlt, by simpa using hkey⟩

theorem lookup_append (hnew : lookup key l (key a) = none) (k : κ) :
    lookup key (l ++ [a]) k = if k = key a then some a else lookup key l k := by
  unfold lookup at hnew ⊢
  rw [List.find?_append]
  by_cases hk : k = key a
  · rw [if_pos hk, hk, hnew]
    simp
  · have hno : List.find? (fun b => decide (key b = k)) [a] = none := by simp [Ne.symm hk]
    rw [if_neg hk, hno, Option.or_none]

namespace Distinct

variable (h : Distinct key l)
include h

theorem append (hnew : lookup key l (key a) = none) : Distinct key (l ++ [a]) := by
  unfold Distinct
  rw [List.map_append, List.map_cons, List.map_nil, List.nodup_append']
  refine ⟨h, by simp, ?_⟩
  intro k hk hk'
  obtain ⟨b, hb, rfl⟩ := List.mem_map.mp hk
  rw [List.mem_singleton] at hk'
  exact lookup_eq_none.mp hnew b hb hk'

theorem position_eq (ha : l[i]? = some a) : position key l (key a) = some i := by
  cases hp : position key l (key a) with
  | none => exact absurd rfl (position_eq_none.mp hp a (List.mem_of_getElem? ha))
  | some j =>
    obtain ⟨b, hb, hk⟩ := getElem?_of_position hp
    rw [h.index_unique hb ha hk]

theorem lookup_eq (ha : a ∈ l) : lookup key l (key a) = some a := by
  cases hl : lookup key l (key a) with
  | none => exact absurd rfl (lookup_eq_none.mp hl a ha)
  | some b => rw [List.inj_on_of_nodup_map h (List.mem_of_find?_eq_some hl) ha (key_of_lookup hl)]

theorem lookup_eq_some : lookup key l k = some a ↔ a ∈ l ∧ key a = k :=
  ⟨fun hl => ⟨List.mem_of_find?_eq_some hl, key_of_lookup hl⟩, fun ⟨ha, hk⟩ => hk ▸ h.lookup_eq ha⟩

theorem lookup_eraseIdx (ha : l[i]? = some a) (k : κ) :
    lookup key (l.eraseIdx i) k = if k = key a then none else lookup key l k := by
  split
  next hk =>
    subst hk
    rw [lookup_eq_none]
    intro b hb he
    obtain ⟨j, hji, hj⟩ := List.mem_eraseIdx_iff_getElem?.mp hb
    exact hji (h.index_unique hj ha he)
  next hk =>
    refine Option.ext fun b => ?_
    rw [(h.eraseIdx i).lookup_eq_some, h.lookup_eq_some]
    refine and_congr_left fun hb => ⟨List.mem_of_mem_eraseIdx, fun hmem => ?_⟩
    obtain ⟨j, hj⟩ := List.mem_iff_getElem?.mp hmem
    refine List.mem_eraseIdx_iff_getElem?.mpr ⟨j, ?_, hj⟩
    rintro rfl
    rw [ha] at hj
    cases hj
    exact hk hb.symm

theorem lookup_modify {f : α → α} (hf : ∀ a, key (f a) = key a) (ha : l[i]? = some a) (k : κ) :
    lookup key (l.modify i f) k = if k = key a then some (f a) else lookup key l k := by
  have hat : ∀ j, (l.modify i f)[j]? = if i = j then l[j]?.map f else l[j]? := by
    intro j
    rw [List.getElem?_modify]
    split
    · rfl
    · simp
  split
  next hk =>
    have hmem : f a ∈ l.modify i f := List.mem_of_getElem? (i := i) (by rw [hat, if_pos rfl, ha, Option.map_some])
    have := (h.modify hf i).lookup_eq hmem
    rwa [hf, ← hk] at this
  next hk =>
    refine Option.ext fun b => ?_
    rw [(h.modify hf i).lookup_eq_some, h.lookup_eq_some]
    refine and_congr_left fun hb => ?_
    rw [List.mem_iff_getElem?, List.mem_iff_getElem?]
    refine exists_congr fun j => ?_
    rw [hat]
    split
    next hij =>
      -- neither the entry nor what became of it has the key looked up
      subst hij
      rw [ha, Option.map_some, Option.some.injEq, Option.some.injEq]
      constructor
      · rintro rfl
        exact absurd (hb.symm.trans (hf a)) hk
      · rintro rfl
        exact absurd hb.symm hk
    · rfl

end Distinct

end Keyed
