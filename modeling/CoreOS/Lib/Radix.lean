/-
Radix trees kept in tables: a store `T` gives the entry `T f i` of table `f`
at index `i`, and `child d e` is the table an entry `e` of a table at depth `d`
points to. `walk` follows a path of indices. In a store in which no table is
reached twice (`Tree`), writing an entry moves only the paths through it, and
linking a fresh empty table adds one path.
-/
import Mathlib.Data.List.Infix
import Mathlib.Logic.Function.Basic

namespace Radix

variable {F I E : Type} {child : Nat → E → Option F} {T T' : F → I → E} {n d : Nat} {root f g : F} {i : I} {e : E}
  {p q : List I}

/-- The table at the end of a path from table `f` at depth `d`. -/
def walk (child : Nat → E → Option F) (T : F → I → E) : Nat → F → List I → Option F
  | _, f, [] => some f
  | d, f, i :: p => (child d (T f i)).bind fun g => walk child T (d + 1) g p

@[simp] theorem walk_nil : walk child T d f [] = some f := rfl

theorem walk_cons : walk child T d f (i :: p) = (child d (T f i)).bind fun g => walk child T (d + 1) g p := rfl

theorem walk_append : ∀ {p : List I} {d : Nat} {f : F},
    walk child T d f (p ++ q) = (walk child T d f p).bind fun g => walk child T (d + p.length) g q
  | [], d, f => by simp
  | i :: p, d, f => by
    simp only [List.cons_append, walk_cons, Option.bind_assoc, List.length_cons]
    congr 1
    funext g
    rw [walk_append, show d + 1 + p.length = d + (p.length + 1) by omega]

theorem walk_snoc : walk child T d f (p ++ [i]) = (walk child T d f p).bind fun g => child (d + p.length) (T g i) := by
  rw [walk_append]
  simp [walk_cons]

theorem walk_of_snoc (h : walk child T d f (p ++ [i]) = some g) :
    ∃ t, walk child T d f p = some t ∧ child (d + p.length) (T t i) = some g := by
  rw [walk_snoc] at h
  exact Option.bind_eq_some_iff.mp h

theorem walk_congr (h : ∀ p g, p <+: q → p.length < q.length → walk child T d f p = some g → T' g = T g) :
    walk child T' d f q = walk child T d f q := by
  induction q using List.reverseRecOn with
  | nil => rfl
  | append_singleton q j ih =>
    have hlen : (q ++ [j]).length = q.length + 1 := by simp
    have hpre : q <+: q ++ [j] := List.prefix_append q [j]
    rw [walk_snoc, walk_snoc, ih fun p g hp hlt hw => h p g (hp.trans hpre) (by omega) hw]
    cases hq : walk child T d f q with
    | none => rfl
    | some g => simp [h q g hpre (by omega) hq]

/-- Every table is reached by one path of length at most `n`. -/
def Tree (child : Nat → E → Option F) (T : F → I → E) (n : Nat) (root : F) : Prop :=
  ∀ p q f, p.length ≤ n → q.length ≤ n → walk child T 0 root p = some f → walk child T 0 root q = some f → p = q

theorem walk_unreached (h : ∀ p g, p.length ≤ n → walk child T 0 root p = some g → T' g = T g)
    (hq : q.length ≤ n + 1) : walk child T' 0 root q = walk child T 0 root q :=
  walk_congr fun p g _ hp hw => h p g (by omega) hw

theorem Tree.unreached (ht : Tree child T n root)
    (h : ∀ p g, p.length ≤ n → walk child T 0 root p = some g → T' g = T g) : Tree child T' n root := by
  intro p q f hp hq h1 h2
  rw [walk_unreached h (by omega)] at h1 h2
  exact ht p q f hp hq h1 h2

/-- `T'` differs from `T` only at entries on paths that begin with `r`. -/
def SameBeyond (child : Nat → E → Option F) (T T' : F → I → E) (n : Nat) (root : F) (r : List I) : Prop :=
  ∀ q j, q.length ≤ n → ¬ r <+: q ++ [j] →
    walk child T' 0 root q = walk child T 0 root q ∧ ∀ t, walk child T 0 root q = some t → T' t j = T t j

theorem SameBeyond.refl {r : List I} : SameBeyond child T T n root r := fun _ _ _ _ => ⟨rfl, fun _ _ => rfl⟩

theorem SameBeyond.trans {T'' : F → I → E} {r r' r'' : List I} (h1 : SameBeyond child T T' n root r')
    (h2 : SameBeyond child T' T'' n root r'') (hr' : r <+: r') (hr'' : r <+: r'') :
    SameBeyond child T T'' n root r := by
  intro q j hq hnot
  obtain ⟨hw, he⟩ := h1 q j hq fun h => hnot (hr'.trans h)
  obtain ⟨hw', he'⟩ := h2 q j hq fun h => hnot (hr''.trans h)
  exact ⟨hw'.trans hw, fun t ht => (he' t (hw.trans ht)).trans (he t ht)⟩

theorem SameBeyond.unreached {r : List I} (h : ∀ p g, p.length ≤ n → walk child T 0 root p = some g → T' g = T g) :
    SameBeyond child T T' n root r :=
  fun q j hq _ => ⟨walk_unreached h (by omega), fun t ht => by rw [h q t hq ht]⟩

theorem SameBeyond.walk_eq {r : List I} (h : SameBeyond child T T' n root r) (hq : q.length ≤ n + 1)
    (hnot : ¬ r <+: q) : walk child T' 0 root q = walk child T 0 root q := by
  cases q using List.reverseRecOn with
  | nil => rfl
  | append_singleton q j =>
    have hlen : (q ++ [j]).length = q.length + 1 := by simp
    obtain ⟨hw, he⟩ := h q j (by omega) hnot
    rw [walk_snoc, walk_snoc, hw]
    exact Option.bind_congr fun t ht => by rw [he t ht]

variable [DecidableEq F] [DecidableEq I]

/-- The store with one entry replaced. -/
def setEntry (T : F → I → E) (f : F) (i : I) (e : E) : F → I → E :=
  Function.update T f (Function.update (T f) i e)

@[simp] theorem setEntry_self : setEntry T f i e f i = e := by simp [setEntry]

theorem setEntry_table (h : g ≠ f) : setEntry T f i e g = T g := Function.update_of_ne h ..

theorem setEntry_other {j : I} (h : g ≠ f ∨ j ≠ i) : setEntry T f i e g j = T g j := by
  by_cases hg : g = f
  · subst hg
    have hj : j ≠ i := by simpa using h
    simp [setEntry, hj]
  · rw [setEntry_table hg]

/-- **Writing an entry** moves only the paths through it. -/
theorem walk_setEntry (ht : Tree child T n root) (hf : walk child T 0 root p = some f) (hp : p.length ≤ n)
    (hq : q.length ≤ n + 1) (hnot : ¬ p ++ [i] <+: q) :
    walk child (setEntry T f i e) 0 root q = walk child T 0 root q := by
  induction q using List.reverseRecOn with
  | nil => rfl
  | append_singleton q j ih =>
    have hlen : (q ++ [j]).length = q.length + 1 := by simp
    rw [walk_snoc, walk_snoc, ih (by omega) fun hpre => hnot (hpre.trans (List.prefix_append q [j]))]
    cases hw : walk child T 0 root q with
    | none => rfl
    | some g =>
      simp only [Option.bind_some]
      rw [setEntry_other]
      by_contra! hsame
      obtain ⟨rfl, rfl⟩ := hsame
      have := ht p q g hp (by omega) hf hw
      exact hnot (this ▸ List.prefix_refl _)

theorem walk_setEntry_self (ht : Tree child T n root) (hf : walk child T 0 root p = some f) (hp : p.length ≤ n) :
    walk child (setEntry T f i e) 0 root p = some f := by
  rw [walk_setEntry ht hf hp (by omega), hf]
  intro hpre
  have := hpre.length_le
  simp only [List.length_append, List.length_singleton] at this
  omega

theorem SameBeyond.setEntry (ht : Tree child T n root) (hf : walk child T 0 root p = some f) (hp : p.length ≤ n) :
    SameBeyond child T (setEntry T f i e) n root (p ++ [i]) := by
  intro q j hq hnot
  refine ⟨walk_setEntry ht hf hp (by omega) fun h => hnot (h.trans (List.prefix_append q [j])), fun t hw => ?_⟩
  rw [setEntry_other]
  by_contra! hsame
  obtain ⟨rfl, rfl⟩ := hsame
  exact hnot (ht p q t hp hq hf hw ▸ List.prefix_refl _)

theorem walk_setEntry_last (ht : Tree child T n root) (hf : walk child T 0 root p = some f) (hp : p.length = n)
    (hq : q.length ≤ n) : walk child (setEntry T f i e) 0 root q = walk child T 0 root q := by
  refine walk_setEntry ht hf (Nat.le_of_eq hp) (by omega) fun hpre => ?_
  have := hpre.length_le
  simp only [List.length_append, List.length_singleton] at this
  omega

theorem Tree.setEntry_last (ht : Tree child T n root) (hf : walk child T 0 root p = some f) (hp : p.length = n) :
    Tree child (setEntry T f i e) n root := by
  intro q q' h hq hq' h1 h2
  rw [walk_setEntry_last ht hf hp hq] at h1
  rw [walk_setEntry_last ht hf hp hq'] at h2
  exact ht q q' h hq hq' h1 h2

/-- **Linking an empty table** adds the one path to it. -/
theorem walk_link (ht : Tree child T n root) (hf : walk child T 0 root p = some f) (hp : p.length ≤ n)
    (hold : child p.length (T f i) = none) (hnew : child p.length e = some g) (hgf : g ≠ f)
    (hempty : ∀ d j, child d (T g j) = none) (hq : q.length ≤ n + 1) :
    walk child (setEntry T f i e) 0 root q = if q = p ++ [i] then some g else walk child T 0 root q := by
  by_cases hpre : p ++ [i] <+: q
  · obtain ⟨r, rfl⟩ := hpre
    have hto : walk child (setEntry T f i e) 0 root (p ++ [i]) = some g := by
      rw [walk_snoc, walk_setEntry_self ht hf hp]
      simpa using hnew
    have hfrom : walk child T 0 root (p ++ [i]) = none := by
      rw [walk_snoc, hf]
      simpa using hold
    cases r with
    | nil => simp [hto]
    | cons j r =>
      rw [if_neg (by simp), walk_append (p := p ++ [i]), hto, walk_append (p := p ++ [i]), hfrom]
      simp only [Option.bind_some, walk_cons, Option.bind_none]
      rw [setEntry_table hgf, hempty, Option.bind_none]
  · rw [walk_setEntry ht hf hp hq hpre, if_neg]
    rintro rfl
    exact hpre (List.prefix_refl _)

theorem Tree.link (ht : Tree child T n root) (hf : walk child T 0 root p = some f) (hp : p.length ≤ n)
    (hold : child p.length (T f i) = none) (hnew : child p.length e = some g) (hgf : g ≠ f)
    (hempty : ∀ d j, child d (T g j) = none) (hfresh : ∀ q, q.length ≤ n → walk child T 0 root q ≠ some g) :
    Tree child (setEntry T f i e) n root := by
  intro q q' h hq hq' h1 h2
  rw [walk_link ht hf hp hold hnew hgf hempty (by omega)] at h1 h2
  split at h1 <;> split at h2
  · next e1 e2 => exact e1.trans e2.symm
  · cases h1
    exact absurd h2 (hfresh q' hq')
  · cases h2
    exact absurd h1 (hfresh q hq)
  · exact ht q q' h hq hq' h1 h2

end Radix
