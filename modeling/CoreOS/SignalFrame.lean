/-
What the kernel's steps do to signals: signal sets bit by bit, what `kill`, `tkill` and
`tgkill` come to, and which signal a delivery takes.
-/
import CoreOS.SignalReturn

namespace CoreOS

open ByteMem

/-! ## Signal sets -/

theorem and_bit_ne_zero {x : BitVec 64} {i : Nat} (hi : i < 64) : (x &&& 1#64 <<< i != 0) = x.getLsbD i := by
  have hbits : ∀ j < 64, (x &&& 1#64 <<< i).getLsbD j = (x.getLsbD j && decide (j = i)) := fun j hj => by
    rw [BitVec.getLsbD_and, getLsbD_bit hj]
  cases hx : x.getLsbD i with
  | true =>
    rw [bne_iff_ne]
    intro h
    have hbit := hbits i hi
    rw [h, hx] at hbit
    simp at hbit
  | false =>
    rw [bne_eq_false_iff_eq]
    refine BitVec.eq_of_getLsbD_eq fun j hj => ?_
    rw [hbits j hj]
    by_cases hij : j = i
    · rw [hij, hx]
      simp
    · simp [hij]

theorem sigsetContains_eq (set : SigSet) (sig : Nat) :
    sigsetContains set sig = (set.bits ((sig - 1) / 64)).getLsbD ((sig - 1) % 64) :=
  and_bit_ne_zero (Nat.mod_lt _ (by decide))

theorem sigBit_inj {a b : Nat} (ha : 0 < a) (hb : 0 < b) (h : (a - 1) / 64 = (b - 1) / 64)
    (h' : (a - 1) % 64 = (b - 1) % 64) : a = b := by
  omega

theorem sigsetContains_add {set : SigSet} {a b : Nat} (ha : 0 < a) (hb : 0 < b) :
    sigsetContains (sigsetAdd set a) b = true ↔ b = a ∨ sigsetContains set b = true := by
  rw [sigsetContains_eq, sigsetContains_eq, sigsetAdd]
  dsimp only
  by_cases hword : (b - 1) / 64 = (a - 1) / 64
  · have hbit : b = a ↔ (b - 1) % 64 = (a - 1) % 64 := ⟨fun h => by rw [h], sigBit_inj hb ha hword⟩
    rw [hword, Function.update_self, BitVec.getLsbD_or, getLsbD_bit (Nat.mod_lt _ (by decide)), hbit]
    simp [or_comm]
  · have hne : b ≠ a := fun h => hword (by rw [h])
    simp [Function.update_of_ne hword, hne]

theorem sigsetContains_remove {set : SigSet} {a b : Nat} (ha : 0 < a) (hb : 0 < b) :
    sigsetContains (sigsetRemove set a) b = true ↔ b ≠ a ∧ sigsetContains set b = true := by
  rw [sigsetContains_eq, sigsetContains_eq, sigsetRemove, sigBit]
  dsimp only
  have hlt : (b - 1) % 64 < 64 := Nat.mod_lt _ (by decide)
  by_cases hword : (b - 1) / 64 = (a - 1) / 64
  · have hbit : b = a ↔ (b - 1) % 64 = (a - 1) % 64 := ⟨fun h => by rw [h], sigBit_inj hb ha hword⟩
    rw [hword, Function.update_self, BitVec.getLsbD_and, BitVec.getLsbD_not, getLsbD_bit hlt, ne_eq, hbit]
    simp [hlt, and_comm]
  · have hne : b ≠ a := fun h => hword (by rw [h])
    simp [Function.update_of_ne hword, hne]

/-! ## Steps that create nothing -/

theorem syscallKill_cases (k : Kernel) (pid sig : Nat) :
    (syscallKill k pid sig).2 = k ∨
    (∃ slot, k.findSlotByPid pid = some slot ∧ sig = sigKill ∧
      (syscallKill k pid sig).2 = terminateProcessGroup k slot sigKill) ∨
    ∃ slot, (syscallKill k pid sig).2 = queueSignal k slot sig := by
  unfold syscallKill
  split
  · exact .inl rfl
  next slot hslot =>
  split
  · exact .inl rfl
  split
  · exact .inl rfl
  split
  next hk => exact .inr (.inl ⟨slot, hslot, hk, rfl⟩)
  · exact .inr (.inr ⟨slot, rfl⟩)

theorem syscallTkill_cases (k : Kernel) (tid sig : Nat) :
    (syscallTkill k tid sig).2 = k ∨
    (∃ slot t, k.findThreadSlotByTid tid = some slot ∧ k.threads slot = some t ∧ sig = sigKill ∧
      (syscallTkill k tid sig).2 = terminateProcessGroup k t.groupSlot sigKill) ∨
    ∃ slot, (syscallTkill k tid sig).2 = queueThreadSignal k slot sig := by
  unfold syscallTkill
  split
  · exact .inl rfl
  split
  · exact .inl rfl
  split
  · exact .inl rfl
  next slot hslot =>
  split
  · exact .inl rfl
  split
  next hk =>
    split
    · exact .inl rfl
    next t ht => exact .inr (.inl ⟨slot, t, hslot, ht, hk, rfl⟩)
  · exact .inr (.inr ⟨slot, rfl⟩)

theorem syscallTgkill_cases (k : Kernel) (tgid tid sig : Nat) :
    (syscallTgkill k tgid tid sig).2 = k ∨ (syscallTgkill k tgid tid sig).2 = (syscallTkill k tid sig).2 := by
  unfold syscallTgkill
  split
  · exact .inl rfl
  split
  · exact .inl rfl
  split
  · exact .inl rfl
  split
  · exact .inl rfl
  · exact .inr rfl

theorem terminateThread_processes {g : Slot} {k : Kernel} {x : Slot} :
    (terminateThread g k x).processes = k.processes := by
  unfold terminateThread
  split
  · rfl
  · split
    · rfl
    · exact Kernel.killTask_tables.2

theorem terminateGroup_processes {g : Slot} : ∀ (xs : List Slot) (k : Kernel),
    (xs.foldl (terminateThread g) k).processes = k.processes
  | [], _ => rfl
  | x :: xs, k => (terminateGroup_processes xs (terminateThread g k x)).trans terminateThread_processes

/-! ### Taking a signal -/

theorem chooseSignal_spec {p : Process} {t : Thread} {sig : Nat} {td : Bool} (h : chooseSignal p t = some (sig, td)) :
    0 < sig ∧ sigsetContains t.sigMask sig = false ∧
      sigsetContains (if td then t.sigPending else p.sigPending) sig = true := by
  obtain ⟨a, hmem, ha⟩ := List.exists_of_findSome?_eq_some h
  have hpos : 0 < a := by
    have := List.mem_range'_1.mp hmem
    omega
  split at ha
  next hc =>
    cases ha
    simp only [Bool.and_eq_true, Bool.not_eq_true'] at hc
    exact ⟨hpos, hc.2, hc.1⟩
  · split at ha
    next hc =>
      cases ha
      simp only [Bool.and_eq_true, Bool.not_eq_true'] at hc
      exact ⟨hpos, hc.2, hc.1⟩
    · cases ha

theorem takeSignal_spec {k : Kernel} {t : Thread} (ht : k.currentThread = some t) (p : Process) (sig : Nat) (td : Bool) :
    (takeSignal k p t sig td).currentThread = some (t.taken sig td) ∧
      (takeSignal k p t sig td).current = k.current := by
  unfold takeSignal Thread.taken
  cases td with
  | true => simp [Kernel.currentThread]
  | false =>
    have hthread : k.threads k.current = some t := ht
    simp [Kernel.currentThread, hthread]

end CoreOS
