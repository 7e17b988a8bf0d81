/-
Deterministic labelled transition systems, run as functions: `exec` runs a
list of labels, a step that is not possible being `none`. An invariant is
proved once for a step and holds of every state a run reaches
(`exec_invariant`); when a step keeps it only under a condition on the
state before it and the label, it holds along the runs whose every step
meets the condition (`exec_invariant_of_meets`), and where the condition is
also necessary a run keeps it throughout exactly when its steps all meet
the condition (`always_iff_meets`). A state is reached in time when every
counted step on the way brings it nearer (`reaches_within`).
-/
import Mathlib.Data.List.Basic

namespace Lts

variable {σ ι : Type} {step : σ → ι → Option σ}

/-- The state after the labels `is`, when every step is possible. -/
def exec (step : σ → ι → Option σ) : σ → List ι → Option σ
  | s, [] => some s
  | s, i :: is => (step s i).bind fun t => exec step t is

/-- Every step of the run meets `C`, a condition on the state before the
step and its label. -/
def Meets (step : σ → ι → Option σ) (C : σ → ι → Prop) : σ → List ι → Prop
  | _, [] => True
  | s, i :: is => C s i ∧ ∀ t, step s i = some t → Meets step C t is

/-- `P` holds of every state the run passes through, its first included. -/
def Always (step : σ → ι → Option σ) (P : σ → Prop) : σ → List ι → Prop
  | s, [] => P s
  | s, i :: is => P s ∧ ∀ t, step s i = some t → Always step P t is

@[simp] theorem exec_nil {s : σ} : exec step s [] = some s := rfl

theorem exec_cons {s t : σ} {i : ι} {is : List ι} :
    exec step s (i :: is) = some t ↔ ∃ u, step s i = some u ∧ exec step u is = some t := by
  simp [exec, Option.bind_eq_some_iff]

/-- **Invariants.** What every step preserves holds of every state a run
reaches. -/
theorem exec_invariant (I : σ → Prop) (hstep : ∀ s i t, I s → step s i = some t → I t) :
    ∀ {s t : σ} {is : List ι}, I s → exec step s is = some t → I t
  | s, t, [], hs, h => by
    simp only [exec_nil, Option.some.injEq] at h
    exact h ▸ hs
  | s, t, i :: is, hs, h => by
    obtain ⟨u, hu, ht⟩ := exec_cons.mp h
    exact exec_invariant I hstep (hstep s i u hs hu) ht

theorem exec_invariant_of_meets {C : σ → ι → Prop} (I : σ → Prop)
    (hstep : ∀ s i t, I s → C s i → step s i = some t → I t) :
    ∀ {s t : σ} {is : List ι}, I s → Meets step C s is → exec step s is = some t → I t
  | s, t, [], hs, _, h => by
    simp only [exec_nil, Option.some.injEq] at h
    exact h ▸ hs
  | s, t, i :: is, hs, hm, h => by
    obtain ⟨u, hu, ht⟩ := exec_cons.mp h
    exact exec_invariant_of_meets I hstep (hstep s i u hs hm.1 hu) (hm.2 u hu) ht

theorem exec_progress {C : σ → ι → Prop} (I : σ → Prop)
    (hstep : ∀ s i, I s → C s i → ∃ t, step s i = some t ∧ I t) :
    ∀ {s : σ} {is : List ι}, I s → Meets step C s is → ∃ t, exec step s is = some t ∧ I t
  | s, [], hs, _ => ⟨s, rfl, hs⟩
  | s, i :: is, hs, hm => by
    obtain ⟨u, hu, hI⟩ := hstep s i hs hm.1
    obtain ⟨t, ht, hIt⟩ := exec_progress I hstep hI (hm.2 u hu)
    exact ⟨t, exec_cons.mpr ⟨u, hu, ht⟩, hIt⟩

/-- **Simulation.** A system each of whose steps an abstract one follows is
followed by it along every run. -/
theorem exec_simulation {α : Type} {astep : α → ι → α} {C : ι → Prop} (R : σ → α → Prop)
    (hstep : ∀ s a i t, R s a → C i → step s i = some t → R t (astep a i)) :
    ∀ {s t : σ} {a : α} {is : List ι}, R s a → (∀ i ∈ is, C i) → exec step s is = some t → R t (is.foldl astep a)
  | s, t, a, [], hs, _, h => by
    simp only [exec_nil, Option.some.injEq] at h
    exact h ▸ hs
  | s, t, a, i :: is, hs, hC, h => by
    obtain ⟨u, hu, ht⟩ := exec_cons.mp h
    rw [List.foldl_cons]
    have hrest : ∀ j ∈ is, C j := fun j hj => hC j (List.mem_cons_of_mem i hj)
    exact exec_simulation R hstep (hstep s a i u hs (hC i (by simp)) hu) hrest ht

/-- **Forward simulation.** Where every step of an abstract system that meets
`C` can be followed, its runs that meet `C` throughout can. -/
theorem exec_follows {α : Type} {astep : α → ι → Option α} {C : α → ι → Prop} (R : σ → α → Prop)
    (hstep : ∀ s a i b, R s a → C a i → astep a i = some b → ∃ t, step s i = some t ∧ R t b) :
    ∀ {s : σ} {a b : α} {is : List ι}, R s a → Meets astep C a is → exec astep a is = some b →
      ∃ t, exec step s is = some t ∧ R t b
  | s, a, b, [], hs, _, h => by
    simp only [exec_nil, Option.some.injEq] at h
    exact ⟨s, rfl, h ▸ hs⟩
  | s, a, b, i :: is, hs, hm, h => by
    obtain ⟨c, hc, hb⟩ := exec_cons.mp h
    obtain ⟨u, hu, hR⟩ := hstep s a i c hs hm.1 hc
    obtain ⟨t, ht, hRt⟩ := exec_follows R hstep hR (hm.2 c hc) hb
    exact ⟨t, exec_cons.mpr ⟨u, hu, ht⟩, hRt⟩

/-- Whether a run meets a decidable condition is decided by running it. -/
def decideMeets {C : σ → ι → Prop} [∀ s i, Decidable (C s i)] :
    ∀ (s : σ) (is : List ι), Decidable (Meets step C s is)
  | _, [] => isTrue trivial
  | s, i :: is =>
    match h : step s i with
    | none => decidable_of_iff (C s i) (by simp [Meets, h])
    | some t =>
      have : Decidable (Meets step C t is) := decideMeets t is
      decidable_of_iff (C s i ∧ Meets step C t is) (by simp [Meets, h])

instance {C : σ → ι → Prop} [∀ s i, Decidable (C s i)] {s : σ} {is : List ι} : Decidable (Meets step C s is) :=
  decideMeets s is

theorem Always.head {P : σ → Prop} {s : σ} : ∀ {is : List ι}, Always step P s is → P s
  | [], h => h
  | _ :: _, h => h.1

/-- **Exactness.** Where every step keeps `J` and, between states of `J`, a
step keeps `P` exactly when it meets `C`, a run that starts in both keeps `P`
throughout exactly when all its steps meet `C`. -/
theorem always_iff_meets {C : σ → ι → Prop} {J P : σ → Prop} (hJ : ∀ s i t, J s → step s i = some t → J t)
    (hstep : ∀ s i t, J s → P s → step s i = some t → (P t ↔ C s i)) (hnone : ∀ s i, step s i = none → C s i) :
    ∀ {s : σ} {is : List ι}, J s → P s → (Always step P s is ↔ Meets step C s is)
  | s, [], _, hs => by simp [Always, Meets, hs]
  | s, i :: is, hj, hs => by
    cases ht : step s i with
    | none => simp [Always, Meets, ht, hs, hnone s i ht]
    | some t =>
      have hP := hstep s i t hj hs ht
      have hjt := hJ s i t hj ht
      simp only [Always, Meets, ht, Option.some.injEq, forall_eq', hs, true_and]
      constructor
      · intro h
        exact ⟨hP.mp h.head, (always_iff_meets hJ hstep hnone hjt h.head).mp h⟩
      · intro h
        exact (always_iff_meets hJ hstep hnone hjt (hP.mpr h.1)).mpr h.2

/-- The steps of a run that are counted. -/
def count (step : σ → ι → Option σ) (counted : σ → ι → Bool) : σ → List ι → Nat
  | _, [] => 0
  | s, i :: is => (if counted s i then 1 else 0) + (step s i).elim 0 fun t => count step counted t is

/-- **Bounded progress.** Where every step either comes to a goal `G` or keeps `I` and
takes the rank down if it is counted, a run with as many counted steps as the
rank has come to a goal by then. -/
theorem reaches_within {C : σ → ι → Prop} {counted : σ → ι → Bool} {I G : σ → Prop} (rank : σ → Nat)
    (hpos : ∀ s, I s → 0 < rank s)
    (hstep : ∀ s i t, I s → C s i → step s i = some t →
      G t ∨ (I t ∧ (if counted s i then 1 else 0) + rank t ≤ rank s)) :
    ∀ {s t : σ} {is : List ι}, I s → Meets step C s is → exec step s is = some t → rank s ≤ count step counted s is →
      ∃ before rest u, is = before ++ rest ∧ exec step s before = some u ∧ G u ∧
        count step counted s before ≤ rank s
  | s, _, [], hs, _, _, hcount => absurd hcount (Nat.not_le.mpr (hpos s hs))
  | s, t, i :: is, hs, hm, h, hcount => by
    obtain ⟨u, hu, ht⟩ := exec_cons.mp h
    simp only [count, hu, Option.elim_some] at hcount
    rcases hstep s i u hs hm.1 hu with hgoal | ⟨hI, hrank⟩
    · refine ⟨[i], is, u, rfl, exec_cons.mpr ⟨u, hu, rfl⟩, hgoal, ?_⟩
      have := hpos s hs
      simp only [count, hu, Option.elim_some, Nat.add_zero]
      split <;> omega
    · obtain ⟨before, rest, v, rfl, hv, hgoal, hle⟩ :=
        reaches_within rank hpos hstep hI (hm.2 u hu) ht (by omega)
      refine ⟨i :: before, rest, v, rfl, exec_cons.mpr ⟨u, hu, hv⟩, hgoal, ?_⟩
      simp only [count, hu, Option.elim_some]
      omega

end Lts
