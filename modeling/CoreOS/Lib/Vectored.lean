/-
Transfers in pieces: a loop that moves one piece after the other, adds up what
was moved, and ends at the first piece that was not moved in full, that failed
or that has to wait.
-/
import CoreOS.Lib.Exec
import Mathlib.Algebra.GroupWithZero.Nat

namespace Vectored

/-- What one piece comes to. -/
inductive Moved (σ ε : Type)
  | moved (n : Nat) (s : σ)
  | failed (e : ε) (s : σ)
  | wait (s : σ)
  | panics

/-- What a transfer comes to; one that waits has the pieces that are left. -/
inductive Result (σ ε ι : Type)
  | done (total : Nat) (s : σ)
  | failed (e : ε) (s : σ)
  | wait (rest : List ι) (total : Nat) (s : σ)
  | panics

variable {σ τ ε ι : Type}

def Result.map (f : σ → τ) : Result σ ε ι → Result τ ε ι
  | .done total s => .done total (f s)
  | .failed e s => .failed e (f s)
  | .wait rest total s => .wait rest total (f s)
  | .panics => .panics

/-- The loop, with the sum so far. -/
def run (len : ι → Nat) (add : Nat → Nat → Nat) (move : σ → ι → Moved σ ε) : σ → List ι → Nat → Result σ ε ι
  | s, [], total => .done total s
  | s, i :: is, total =>
    match move s i with
    | .moved n s => if n ≠ len i then .done (add total n) s else run len add move s is (add total n)
    | .failed e s => .failed e s
    | .wait s => .wait (i :: is) total s
    | .panics => .panics

/-- The pieces are moved in full, one after the other. -/
inductive Fills (len : ι → Nat) (move : σ → ι → Moved σ ε) : σ → List ι → σ → Prop
  | nil {s : σ} : Fills len move s [] s
  | cons {s t u : σ} {i : ι} {is : List ι} (h : move s i = .moved (len i) u) (hrest : Fills len move u is t) :
      Fills len move s (i :: is) t

/-- The sum after pieces that were moved in full. -/
def sum (len : ι → Nat) (add : Nat → Nat → Nat) (is : List ι) (total : Nat) : Nat :=
  is.foldl (fun n i => add n (len i)) total

variable {len : ι → Nat} {add : Nat → Nat → Nat} {move : σ → ι → Moved σ ε} {s t : σ} {is pre post : List ι}

theorem Fills.run (h : Fills len move s pre t) (total : Nat) :
    Vectored.run len add move s (pre ++ post) total = Vectored.run len add move t post (sum len add pre total) := by
  induction h generalizing total with
  | nil => rfl
  | cons h _ ih =>
    rw [List.cons_append, Vectored.run, h]
    simp only [ne_eq, not_true_eq_false, if_false]
    exact ih (add total _)

theorem Fills.forall {ok : ι → Prop} (h : Fills len move s is t) (hmove : ∀ s i u, move s i = .moved (len i) u → ok i) :
    ∀ i ∈ is, ok i := by
  induction h with
  | nil => exact fun i hi => (List.not_mem_nil hi).elim
  | cons h _ ih => exact List.forall_mem_cons.mpr ⟨hmove _ _ _ h, ih⟩

theorem Fills.invariant (I : σ → Prop) (h : Fills len move s is t)
    (hmove : ∀ s i u, I s → move s i = .moved (len i) u → I u) (hs : I s) : I t := by
  induction h with
  | nil => exact hs
  | cons h _ ih => exact ih (hmove _ _ _ hs h)

/-- **How a run ends**: all pieces are moved in full, or one is the first that is
not. -/
theorem run_cases (len : ι → Nat) (add : Nat → Nat → Nat) (move : σ → ι → Moved σ ε) (s : σ) (is : List ι)
    (total : Nat) :
    (∃ t, Fills len move s is t ∧ run len add move s is total = .done (sum len add is total) t) ∨
    ∃ pre i post t, is = pre ++ i :: post ∧ Fills len move s pre t ∧
      ((∃ n u, move t i = .moved n u ∧ n ≠ len i ∧
          run len add move s is total = .done (add (sum len add pre total) n) u) ∨
        (∃ e u, move t i = .failed e u ∧ run len add move s is total = .failed e u) ∨
        (∃ u, move t i = .wait u ∧ run len add move s is total = .wait (i :: post) (sum len add pre total) u) ∨
        (move t i = .panics ∧ run len add move s is total = .panics)) := by
  induction is generalizing s total with
  | nil => exact .inl ⟨s, .nil, rfl⟩
  | cons i is ih =>
    cases hm : move s i with
    | moved n u =>
      by_cases hn : n = len i
      · subst hn
        have hhead : run len add move s (i :: is) total = run len add move u is (add total (len i)) := by
          simp only [run, hm, ne_eq, not_true_eq_false, if_false]
        rw [hhead]
        rcases ih u (add total (len i)) with ⟨t, hf, hr⟩ | ⟨pre, j, post, t, rfl, hf, hend⟩
        · exact .inl ⟨t, .cons hm hf, hr⟩
        · exact .inr ⟨i :: pre, j, post, t, rfl, .cons hm hf, hend⟩
      · have hhead : run len add move s (i :: is) total = .done (add total n) u := by
          simp only [run, hm, ne_eq, hn, not_false_eq_true, if_true]
        exact .inr ⟨[], i, is, s, rfl, .nil, .inl ⟨n, u, hm, hn, hhead⟩⟩
    | failed e u =>
      have hhead : run len add move s (i :: is) total = .failed e u := by simp only [run, hm]
      exact .inr ⟨[], i, is, s, rfl, .nil, .inr (.inl ⟨e, u, hm, hhead⟩)⟩
    | wait u =>
      have hhead : run len add move s (i :: is) total = .wait (i :: is) total u := by simp only [run, hm]
      exact .inr ⟨[], i, is, s, rfl, .nil, .inr (.inr (.inl ⟨u, hm, hhead⟩))⟩
    | panics =>
      have hhead : run len add move s (i :: is) total = .panics := by simp only [run, hm]
      exact .inr ⟨[], i, is, s, rfl, .nil, .inr (.inr (.inr ⟨hm, hhead⟩))⟩

theorem run_wait_iff {total n : Nat} {rest : List ι} {u : σ} :
    run len add move s is total = .wait rest n u ↔
      ∃ pre i post t, is = pre ++ i :: post ∧ rest = i :: post ∧ n = sum len add pre total ∧
        Fills len move s pre t ∧ move t i = .wait u := by
  constructor
  · intro h
    rcases run_cases len add move s is total with ⟨t, -, hr⟩ | ⟨pre, i, post, t, his, hf, hend⟩
    · rw [hr] at h
      cases h
    · rcases hend with ⟨m, v, -, -, hr⟩ | ⟨e', v, -, hr⟩ | ⟨v, hm, hr⟩ | ⟨-, hr⟩
      · rw [hr] at h
        cases h
      · rw [hr] at h
        cases h
      · rw [hr] at h
        cases h
        exact ⟨pre, i, post, t, his, rfl, rfl, hf, hm⟩
      · rw [hr] at h
        cases h
  · rintro ⟨pre, i, post, t, rfl, rfl, rfl, hf, hm⟩
    rw [hf.run, run, hm]

/-! ## Pieces put on end -/

theorem run_on_end {α : Type} {st : List α → σ} {get : ι → List α} {p limit bound : Nat}
    (hadd : ∀ a b, a + b < bound → add a b = a + b) (hlen : ∀ i ∈ is, (get i).length = len i)
    (hmove : ∀ front, p + front.length ≤ limit → ∀ i ∈ is, move (st front) i =
      if p + front.length + len i ≤ limit then .moved (len i) (st (front ++ get i)) else .panics)
    (front : List α) (hfront : p + front.length ≤ limit) {total : Nat} (htotal : total + (is.map len).sum < bound) :
    run len add move (st front) is total =
      if p + front.length + (is.map len).sum ≤ limit then
        .done (total + (is.map len).sum) (st (front ++ is.flatMap get))
      else .panics := by
  induction is generalizing front total with
  | nil => simp [run, hfront]
  | cons i is ih =>
    rw [List.map_cons, List.sum_cons] at htotal
    have hi := hlen i List.mem_cons_self
    rw [run, hmove front hfront i List.mem_cons_self, List.map_cons, List.sum_cons, List.flatMap_cons]
    by_cases hfits : p + front.length + len i ≤ limit
    · rw [if_pos hfits]
      simp only [ne_eq, not_true_eq_false, if_false]
      have hnext : p + (front ++ get i).length = p + front.length + len i := by
        rw [List.length_append, hi, Nat.add_assoc]
      rw [hadd total (len i) (by omega), ih (fun j hj => hlen j (List.mem_cons_of_mem _ hj))
        (fun f hf j hj => hmove f hf j (List.mem_cons_of_mem _ hj)) (front ++ get i) (hnext ▸ hfits) (by omega), hnext,
        List.append_assoc, Nat.add_assoc (p + front.length), Nat.add_assoc total]
    · rw [if_neg hfits, if_neg (by omega)]

theorem run_on_end_from {α : Type} {st : List α → σ} {get : ι → List α} {p limit bound : Nat} {i : ι}
    (hadd : ∀ a b, a + b < bound → add a b = a + b) (hlen : ∀ j ∈ i :: is, (get j).length = len j)
    (hfirst : move s i = if p + len i ≤ limit then .moved (len i) (st (get i)) else .panics)
    (hmove : ∀ front, p + front.length ≤ limit → ∀ j ∈ is, move (st front) j =
      if p + front.length + len j ≤ limit then .moved (len j) (st (front ++ get j)) else .panics)
    (htotal : ((i :: is).map len).sum < bound) :
    run len add move s (i :: is) 0 =
      if p + ((i :: is).map len).sum ≤ limit then .done ((i :: is).map len).sum (st ((i :: is).flatMap get))
      else .panics := by
  rw [List.map_cons, List.sum_cons] at htotal ⊢
  have hi := hlen i List.mem_cons_self
  rw [run, hfirst]
  by_cases hfits : p + len i ≤ limit
  · rw [if_pos hfits]
    simp only [ne_eq, not_true_eq_false, if_false]
    rw [hadd 0 (len i) (by omega), Nat.zero_add, run_on_end hadd (fun j hj => hlen j (List.mem_cons_of_mem _ hj)) hmove
      (get i) (hi ▸ hfits) htotal, hi, List.flatMap_cons, Nat.add_assoc]
  · rw [if_neg hfits, if_neg (by omega)]

/-! ## What the pieces are taken from

`take` says what is left after a piece that is moved in full. -/

section

variable {α : Type} {ok : ι → Prop} (I : σ → Prop) (abs : σ → α) (take : α → Nat → Option α)

theorem Fills.taken
    (hmove : ∀ s i u, I s → move s i = .moved (len i) u → I u ∧ take (abs s) (len i) = some (abs u))
    (h : Fills len move s is t) (hs : I s) : I t ∧ Lts.exec take (abs s) (is.map len) = some (abs t) := by
  induction h with
  | nil => exact ⟨hs, rfl⟩
  | cons h _ ih =>
    obtain ⟨hu, htake⟩ := hmove _ _ _ hs h
    obtain ⟨ht, hrest⟩ := ih hu
    exact ⟨ht, Lts.exec_cons.mpr ⟨_, htake, hrest⟩⟩

theorem fills_of_taken
    (hmove : ∀ s i a, I s → ok i → take (abs s) (len i) = some a →
      ∃ u, move s i = .moved (len i) u ∧ I u ∧ abs u = a)
    (hs : I s) (hok : ∀ i ∈ is, ok i) {a : α} (htake : Lts.exec take (abs s) (is.map len) = some a) :
    ∃ t, Fills len move s is t ∧ I t ∧ abs t = a := by
  induction is generalizing s with
  | nil => exact ⟨s, .nil, hs, Option.some.inj htake⟩
  | cons i is ih =>
    obtain ⟨hi, hall⟩ := List.forall_mem_cons.mp hok
    obtain ⟨b, hb, hrest⟩ := Lts.exec_cons.mp htake
    obtain ⟨u, hu, hI, rfl⟩ := hmove s i b hs hi hb
    obtain ⟨t, hf, ht⟩ := ih hI hall hrest
    exact ⟨t, .cons hu hf, ht⟩

end

/-- A supply that is only counted. -/
def takeCount (left n : Nat) : Option Nat := if n ≤ left then some (left - n) else none

theorem exec_takeCount {left a : Nat} {ns : List Nat} : Lts.exec takeCount left ns = some a ↔ a + ns.sum = left := by
  induction ns generalizing left with
  | nil => simp [eq_comm]
  | cons n ns ih =>
    rw [Lts.exec_cons, List.sum_cons]
    unfold takeCount
    constructor
    · rintro ⟨b, hb, hrest⟩
      split at hb
      next hle =>
        cases hb
        have := ih.mp hrest
        omega
      · cases hb
    · intro h
      exact ⟨left - n, if_pos (by omega), ih.mpr (by omega)⟩

theorem Fills.counted (I : σ → Prop) (left : σ → Nat)
    (hmove : ∀ s i u, I s → move s i = .moved (len i) u → I u ∧ left u + len i = left s)
    (h : Fills len move s is t) (hs : I s) : I t ∧ left t + (is.map len).sum = left s := by
  obtain ⟨ht, hexec⟩ := h.taken I left takeCount (fun s i u hI hm => by
    obtain ⟨hu, hleft⟩ := hmove s i u hI hm
    refine ⟨hu, ?_⟩
    rw [takeCount, if_pos (by omega), ← hleft, Nat.add_sub_cancel]) hs
  exact ⟨ht, exec_takeCount.mp hexec⟩

theorem fills_of_counted {ok : ι → Prop} (I : σ → Prop) (left : σ → Nat)
    (hmove : ∀ s i, I s → ok i → len i ≤ left s → ∃ u, move s i = .moved (len i) u ∧ I u ∧ left u = left s - len i)
    (hs : I s) (hok : ∀ i ∈ is, ok i) (hle : (is.map len).sum ≤ left s) : ∃ t, Fills len move s is t := by
  have hexec : Lts.exec takeCount (left s) (is.map len) = some (left s - (is.map len).sum) :=
    exec_takeCount.mpr (Nat.sub_add_cancel hle)
  obtain ⟨t, hf, -⟩ := fills_of_taken I left takeCount (fun s i a hI hi htake => by
    unfold takeCount at htake
    split at htake
    next hle =>
      cases htake
      exact hmove s i hI hi hle
    · cases htake) hs hok hexec
  exact ⟨t, hf⟩

end Vectored
