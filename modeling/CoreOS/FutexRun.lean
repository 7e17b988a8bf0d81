/-
Futexes under every interleaving. A woken waiter finds out by looking at its
entry of the table again, so the entry must not have been taken by another
call in the meantime, and a thread that is killed in its wait leaves its entry
behind: wakeups are neither lost nor stolen exactly in the runs in which
neither happens (`futex_wakeups`). A wake takes as many waiters as it is asked
for, unless it is asked for none (`futex_wake_exact_iff`).
-/
import CoreOS.Futex
import CoreOS.Lib.Exec

namespace CoreOS

open ByteMem
open Function (update_of_ne update_self update)

/-! ## `futex_wake` -/

/-- The entries that were in use and are not any more. -/
def markedEntries (waiters waiters' : FutexTable) (is : List Nat) : List Nat :=
  is.filter fun i => (waiters i).inUse && !(waiters' i).inUse

variable {waiters waiters' : FutexTable} {i : Nat} {is : List Nat}

theorem markedEntries_cons :
    markedEntries waiters waiters' (i :: is) =
      if (waiters i).inUse && !(waiters' i).inUse then i :: markedEntries waiters waiters' is
      else markedEntries waiters waiters' is := List.filter_cons

/-- An entry is left alone, or it was in use for `uaddr` and is marked. -/
def MarkedOrSame (uaddr : Nat) (w w' : FutexWaiter) : Prop :=
  w' = w ∨ (w.inUse = true ∧ w.addr = uaddr ∧ w' = { w with inUse := false })

theorem futexWakeLoop_other (uaddr count : Nat) (woke : Nat) (waiters : FutexTable) (hi : i ∉ is) :
    (futexWakeLoop uaddr count is woke waiters).2 i = waiters i := by
  induction is generalizing woke waiters with
  | nil => rfl
  | cons j is ih =>
    simp only [List.mem_cons, not_or] at hi
    simp only [futexWakeLoop]
    split
    · exact ih woke waiters hi.2
    · split
      · exact update_of_ne hi.1 ..
      · rw [ih _ _ hi.2, update_of_ne hi.1]

theorem futexWakeLoop_entry {uaddr count : Nat} (woke : Nat) (waiters : FutexTable) (hnd : is.Nodup) (i : Nat) :
    MarkedOrSame uaddr (waiters i) ((futexWakeLoop uaddr count is woke waiters).2 i) := by
  induction is generalizing woke waiters with
  | nil => exact .inl rfl
  | cons j is ih =>
    obtain ⟨hj, hnd⟩ := List.nodup_cons.mp hnd
    simp only [futexWakeLoop]
    split
    · exact ih woke waiters hnd
    next hm =>
      simp only [Bool.or_eq_true, Bool.not_eq_true', bne_iff_ne, not_or, Bool.not_eq_false, not_not] at hm
      by_cases hij : i = j
      · subst hij
        refine .inr ⟨hm.1, hm.2, ?_⟩
        split
        · simp
        · rw [futexWakeLoop_other _ _ _ _ hj, update_self]
      · split
        · simp [MarkedOrSame, hij]
        · have := ih (woke + 1) (update waiters j { waiters j with inUse := false }) hnd
          rwa [update_of_ne hij] at this

theorem futexWakeLoop_count (uaddr count : Nat) (woke : Nat) (waiters : FutexTable) (hnd : is.Nodup) :
    (futexWakeLoop uaddr count is woke waiters).1 =
      woke + (markedEntries waiters (futexWakeLoop uaddr count is woke waiters).2 is).length := by
  induction is generalizing woke waiters with
  | nil => rfl
  | cons j is ih =>
    obtain ⟨hj, hnd⟩ := List.nodup_cons.mp hnd
    simp only [futexWakeLoop]
    split
    next hm =>
      have hskip : ((waiters j).inUse && !((futexWakeLoop uaddr count is woke waiters).2 j).inUse) = false := by
        rw [futexWakeLoop_other _ _ _ _ hj]
        simp
      rw [ih woke waiters hnd, markedEntries_cons, hskip]
      simp
    next hm =>
      simp only [Bool.or_eq_true, Bool.not_eq_true', bne_iff_ne, not_or, Bool.not_eq_false, not_not] at hm
      -- the entries after this one are as they were before it was marked
      have hrest : ∀ w', markedEntries (update waiters j { waiters j with inUse := false }) w' is =
          markedEntries waiters w' is := fun w' => by
        apply List.filter_congr
        intro i hi
        have hij : i ≠ j := fun h => hj (h ▸ hi)
        rw [update_of_ne hij]
      split
      · have hnone : markedEntries waiters (update waiters j { waiters j with inUse := false }) is = [] := by
          rw [← hrest]
          simp [markedEntries]
        simp [markedEntries_cons, hm.1, hnone]
      · have hhead := futexWakeLoop_other uaddr count (woke + 1)
          (update waiters j { waiters j with inUse := false }) hj
        rw [update_self] at hhead
        rw [ih _ _ hnd, hrest, markedEntries_cons, hhead]
        simp only [hm.1, Bool.not_false, Bool.and_self, if_true, List.length_cons]
        omega

/-- The entries in use for `uaddr`. -/
def waitingOn (waiters : FutexTable) (uaddr : Nat) (is : List Nat) : List Nat :=
  is.filter fun i => (waiters i).inUse && (waiters i).addr == uaddr

section

variable {uaddr j : Nat}

theorem waitingOn_skip (h : (!(waiters j).inUse || (waiters j).addr != uaddr) = true) :
    waitingOn waiters uaddr (j :: is) = waitingOn waiters uaddr is := by
  refine List.filter_cons_of_neg ?_
  simp only [Bool.or_eq_true, Bool.not_eq_true', bne_iff_ne] at h
  rcases h with h | h <;> simp [h]

theorem waitingOn_cons (h : ¬ (!(waiters j).inUse || (waiters j).addr != uaddr) = true) :
    waitingOn waiters uaddr (j :: is) = j :: waitingOn waiters uaddr is := by
  refine List.filter_cons_of_pos ?_
  simpa using h

/-- The entries after one that is marked are as they were. -/
theorem waitingOn_update (w : FutexWaiter) (hj : j ∉ is) :
    waitingOn (update waiters j w) uaddr is = waitingOn waiters uaddr is := by
  apply List.filter_congr
  intro i hi
  have hij : i ≠ j := fun h => hj (h ▸ hi)
  rw [update_of_ne hij]

end

theorem futexWakeLoop_woke (uaddr count : Nat) (woke : Nat) (waiters : FutexTable) (hnd : is.Nodup)
    (hw : woke < count ∨ count = 0) :
    (futexWakeLoop uaddr count is woke waiters).1 =
      if count = 0 then woke + (waitingOn waiters uaddr is).length
      else min count (woke + (waitingOn waiters uaddr is).length) := by
  induction is generalizing woke waiters with
  | nil =>
    simp only [futexWakeLoop, waitingOn, List.filter_nil, List.length_nil]
    split <;> omega
  | cons j is ih =>
    obtain ⟨hj, hnd⟩ := List.nodup_cons.mp hnd
    simp only [futexWakeLoop]
    split
    next hm => rw [ih woke waiters hnd hw, waitingOn_skip hm]
    next hm =>
      have hlen : (waitingOn waiters uaddr (j :: is)).length = (waitingOn waiters uaddr is).length + 1 := by
        rw [waitingOn_cons hm, List.length_cons]
      split
      next hlast => rw [hlen, if_neg (by omega)]; omega
      next hmore =>
        rw [ih _ _ hnd (by omega), waitingOn_update _ hj, hlen]
        split <;> omega

/-! ## `futex_wait` -/

variable {user : Mem} {ticks : Nat} {f : FutexFrame}

theorem futexWaitRound_ok_iff :
    (futexWaitRound waiters user ticks f).1 = some (.ok 0) ↔ (waiters f.slot).inUse = false := by
  unfold futexWaitRound
  split
  next h => simpa using h
  next h =>
    have hu : (waiters f.slot).inUse = true := by simpa using h
    split
    · simp [hu]
    · split
      · simp [hu]
      · split <;> simp [hu]

theorem futexWaitRound_cases {r : Option (Except SysError Nat)}
    (h : futexWaitRound waiters user ticks f = (r, waiters')) :
    ((waiters f.slot).inUse = false ∧ r = some (.ok 0) ∧ waiters' = waiters) ∨
      (r = some (.error .fault) ∧ copyU32FromUser user f.uaddr = none ∧ waiters' = waiters) ∨
      ((waiters f.slot).inUse = true ∧ r.isSome ∧ waiters' = update waiters f.slot .empty) ∨
      ((waiters f.slot).inUse = true ∧ r = none ∧ waiters' = waiters) := by
  unfold futexWaitRound at h
  split at h
  next hu =>
    cases h
    exact .inl ⟨by simpa using hu, rfl, rfl⟩
  next hu =>
    have hu : (waiters f.slot).inUse = true := by simpa using hu
    split at h
    next hc =>
      cases h
      exact .inr (.inl ⟨rfl, hc, rfl⟩)
    · split at h
      · cases h
        exact .inr (.inr (.inl ⟨hu, rfl, rfl⟩))
      · split at h
        · cases h
          exact .inr (.inr (.inl ⟨hu, rfl, rfl⟩))
        · cases h
          exact .inr (.inr (.inr ⟨hu, rfl, rfl⟩))

theorem freeWaiter_spec (h : freeWaiter waiters = some i) :
    i < maxFutexWaiters ∧ (waiters i).inUse = false := by
  refine ⟨List.mem_range.mp (List.mem_of_find?_eq_some h), ?_⟩
  simpa using List.find?_some h

theorem futexWaitStart_spec {uaddr timeoutPtr : Nat} {expected : BitVec 32}
    (h : futexWaitStart waiters user ticks uaddr expected timeoutPtr = .ok (f, waiters')) :
    freeWaiter waiters = some f.slot ∧ f.uaddr = uaddr ∧ copyU32FromUser user uaddr = some f.expected ∧
      waiters' = update waiters f.slot ⟨true, uaddr⟩ := by
  unfold futexWaitStart at h
  cases hc : copyU32FromUser user uaddr with
  | none => simp [hc, bind, Except.bind] at h
  | some current =>
    cases hf : freeWaiter waiters with
    | none =>
      simp only [hc, hf, Option.elim_some, Option.elim_none, bind, Except.bind] at h
      split at h
      · cases h
      · split at h <;> cases h
    | some i =>
      simp only [hc, hf, Option.elim_some, bind, Except.bind] at h
      split at h
      · cases h
      next hne =>
        have hexp : current = expected := by simpa using hne
        split at h
        · cases h
        · cases h
          exact ⟨rfl, rfl, by rw [hexp], rfl⟩

theorem copyU32FromUser_eq_none {ptr : Nat} :
    copyU32FromUser user ptr = none ↔ userRangeOk ptr 4 = false := by
  unfold copyU32FromUser copyFromUser
  split <;> simp_all

/-! ## Runs -/

/-- A `futex_wait` in its loop; `call` numbers the calls. -/
structure FutexCall where
  frame : FutexFrame
  call : Nat

/-- The table, what each thread sees of user memory, and the threads inside
`futex_wait`. The rest is history: which call registered an entry, and for
each call whose registration a wake marked, the address of that wake. -/
structure FutexRun where
  waiters : FutexTable
  user : Slot → Mem
  ticks : Nat
  waiting : Slot → Option FutexCall
  nextCall : Nat
  registrant : Nat → Nat
  woken : Nat → Option Nat

/-- What happens between two yields: a call of `futex_wait` begins or goes on,
`futex_wake` is called, a thread is killed, user memory changes, time
passes. -/
inductive FutexOp
  | wait (t : Slot) (uaddr : Nat) (expected : BitVec 32) (timeoutPtr : Nat)
  | resume (t : Slot)
  | wake (uaddr count : Nat)
  | kill (t : Slot)
  | userMemory (user : Slot → Mem)
  | tick

namespace FutexRun

/-- After the registration of a new call. -/
def register (s : FutexRun) (f : FutexFrame) : FutexRun :=
  { s with
    nextCall := s.nextCall + 1
    registrant := update s.registrant f.slot s.nextCall }

/-- After a wake that turned the table into `waiters`. -/
def mark (s : FutexRun) (uaddr : Nat) (waiters : FutexTable) : FutexRun :=
  { s with
    waiters
    woken := fun call =>
      if (markedEntries s.waiters waiters (List.range maxFutexWaiters)).any fun i => s.registrant i == call then
        some uaddr
      else s.woken call }

/-- A thread inside `futex_wait` does nothing but resume; a killed one never
does, as its task is not scheduled again. -/
def step (s : FutexRun) : FutexOp → Option FutexRun
  | .wait t uaddr expected timeoutPtr =>
    if (s.waiting t).isSome then none
    else
      match futexWaitStart s.waiters (s.user t) s.ticks uaddr expected timeoutPtr with
      | .error _ => some s
      | .ok (f, waiters) =>
        match futexWaitRound waiters (s.user t) s.ticks f with
        | (some _, waiters) => some { s.register f with waiters }
        | (none, waiters) =>
          some { s.register f with waiters, waiting := update s.waiting t (some ⟨f, s.nextCall⟩) }
  | .resume t =>
    match s.waiting t with
    | none => none
    | some c =>
      match futexWaitRound s.waiters (s.user t) s.ticks c.frame with
      | (some _, waiters) => some { s with waiters, waiting := update s.waiting t none }
      | (none, waiters) => some { s with waiters }
  | .wake uaddr count => some (s.mark uaddr (futexWake s.waiters uaddr count).2)
  | .kill t => some { s with waiting := update s.waiting t none }
  | .userMemory user => some { s with user }
  | .tick => some { s with ticks := wrappingAdd s.ticks 1 }

def start (user : Slot → Mem) (ticks : Nat) : FutexRun where
  waiters := fun _ => .empty
  user
  ticks
  waiting := fun _ => none
  nextCall := 0
  registrant := fun _ => 0
  woken := fun _ => none

/-- No wakeup is lost or stolen: a waiter that ran now would return `Ok(0)`
exactly if a wake on its own address has marked its own registration, and an
entry in use is that of exactly one thread, which waits on its address. -/
structure Sound (s : FutexRun) : Prop where
  returns : ∀ t c, s.waiting t = some c →
    ((futexWaitRound s.waiters (s.user t) s.ticks c.frame).1 = some (.ok 0) ↔ s.woken c.call = some c.frame.uaddr)
  entries : ∀ i < maxFutexWaiters, (s.waiters i).inUse = true → ∃ t c, s.waiting t = some c ∧ c.frame.slot = i ∧
    c.frame.uaddr = (s.waiters i).addr ∧ s.registrant i = c.call ∧
    ∀ t' c', s.waiting t' = some c' → c'.frame.slot = i → t' = t

/-- The entry in which a call of `futex_wait` is still registered when it
first yields. -/
def staysIn (s : FutexRun) (t : Slot) (uaddr : Nat) (expected : BitVec 32) (timeoutPtr : Nat) : Option Nat :=
  match futexWaitStart s.waiters (s.user t) s.ticks uaddr expected timeoutPtr with
  | .ok (f, _) => if f.timedOut s.ticks then none else some f.slot
  | .error _ => none

/-- No call of `futex_wait` takes an entry that a woken waiter has yet to look
at, and no thread is killed while its entry is in use. -/
def LeavesEntries (s : FutexRun) : FutexOp → Prop
  | .wait t uaddr expected timeoutPtr =>
    (s.waiting t).isSome ∨
      ∀ i ∈ s.staysIn t uaddr expected timeoutPtr, ∀ t', ∀ c ∈ s.waiting t', c.frame.slot ≠ i
  | .kill t => ∀ c ∈ s.waiting t, (s.waiters c.frame.slot).inUse = false
  | _ => True

instance : DecidableRel LeavesEntries := fun s op =>
  match op with
  | .wait t uaddr expected timeoutPtr => inferInstanceAs (Decidable ((s.waiting t).isSome ∨
      ∀ i ∈ s.staysIn t uaddr expected timeoutPtr, ∀ t', ∀ c ∈ s.waiting t', c.frame.slot ≠ i))
  | .kill t => inferInstanceAs (Decidable (∀ c ∈ s.waiting t, (s.waiters c.frame.slot).inUse = false))
  | .resume _ | .wake _ _ | .userMemory _ | .tick => inferInstanceAs (Decidable True)

/-- The calls are numbered in order, and each waits on a readable word in an
entry of the table. -/
structure Numbered (s : FutexRun) : Prop where
  slots : ∀ t c, s.waiting t = some c → c.frame.slot < maxFutexWaiters
  readable : ∀ t c, s.waiting t = some c → userRangeOk c.frame.uaddr 4 = true
  calls : ∀ t c, s.waiting t = some c → c.call < s.nextCall
  distinct : ∀ t t' c c', s.waiting t = some c → s.waiting t' = some c' → c.call = c'.call → t = t'
  registered : ∀ i < maxFutexWaiters, (s.waiters i).inUse = true → s.registrant i < s.nextCall
  woken : ∀ n a, s.woken n = some a → n < s.nextCall

variable {s s' : FutexRun} {t : Slot} {c : FutexCall}

/-! ### What a step can do -/

theorem wait_cases {uaddr timeoutPtr : Nat} {expected : BitVec 32}
    (hs : s.step (.wait t uaddr expected timeoutPtr) = some s') :
    s.waiting t = none ∧
      ((s.staysIn t uaddr expected timeoutPtr = none ∧ s' = s) ∨
        (∃ f, freeWaiter s.waiters = some f.slot ∧ s.staysIn t uaddr expected timeoutPtr = none ∧
          s' = { s.register f with waiters := update s.waiters f.slot .empty }) ∨
        ∃ f, freeWaiter s.waiters = some f.slot ∧ s.staysIn t uaddr expected timeoutPtr = some f.slot ∧
          f.uaddr = uaddr ∧ userRangeOk uaddr 4 = true ∧
          s' = { s.register f with
            waiters := update s.waiters f.slot ⟨true, uaddr⟩
            waiting := update s.waiting t (some ⟨f, s.nextCall⟩) }) := by
  simp only [step] at hs
  split at hs
  · cases hs
  next hnone =>
    refine ⟨by simpa using hnone, ?_⟩
    unfold staysIn
    split at hs
    next e he =>
      cases hs
      exact .inl ⟨by rw [he], rfl⟩
    next f waiters he =>
      obtain ⟨hfree, haddr, hword, rfl⟩ := futexWaitStart_spec he
      have hread : userRangeOk uaddr 4 = true := by
        have : copyU32FromUser (s.user t) uaddr ≠ none := by simp [hword]
        simpa [copyU32FromUser_eq_none] using this
      have hround : futexWaitRound (update s.waiters f.slot ⟨true, uaddr⟩) (s.user t) s.ticks f =
          if f.timedOut s.ticks then (some (.error .timedOut), update s.waiters f.slot .empty)
          else (none, update s.waiters f.slot ⟨true, uaddr⟩) := by
        simp [futexWaitRound, haddr, hword]
      rw [hround] at hs
      by_cases hout : f.timedOut s.ticks
      · simp only [hout, if_true] at hs
        cases hs
        exact .inr (.inl ⟨f, hfree, by simp [he, hout], rfl⟩)
      · simp only [hout, Bool.false_eq_true, if_false] at hs
        cases hs
        exact .inr (.inr ⟨f, hfree, by simp [he, hout], haddr, hread, rfl⟩)

theorem resume_cases (hn : s.Numbered) (hs : s.step (.resume t) = some s') :
    ∃ c, s.waiting t = some c ∧
      (((s.waiters c.frame.slot).inUse = false ∧ s' = { s with waiting := update s.waiting t none }) ∨
        ((s.waiters c.frame.slot).inUse = true ∧ s' = { s with
          waiters := update s.waiters c.frame.slot .empty
          waiting := update s.waiting t none }) ∨
        s' = s) := by
  simp only [step] at hs
  split at hs
  · cases hs
  next c hc =>
    refine ⟨c, hc, ?_⟩
    cases hr : futexWaitRound s.waiters (s.user t) s.ticks c.frame with
    | mk r waiters =>
      rw [hr] at hs
      rcases futexWaitRound_cases hr with ⟨hu, rfl, rfl⟩ | ⟨-, hfault, -⟩ | ⟨hu, hsome, rfl⟩ | ⟨hu, rfl, rfl⟩
      · cases hs
        exact .inl ⟨hu, rfl⟩
      · simp [copyU32FromUser_eq_none, hn.readable t c hc] at hfault
      · obtain ⟨r, rfl⟩ := Option.isSome_iff_exists.mp hsome
        cases hs
        exact .inr (.inl ⟨hu, rfl⟩)
      · cases hs
        exact .inr (.inr rfl)

theorem futexWake_entry (waiters : FutexTable) (uaddr count i : Nat) :
    MarkedOrSame uaddr (waiters i) ((futexWake waiters uaddr count).2 i) :=
  futexWakeLoop_entry 0 waiters List.nodup_range i

theorem mark_woken (s : FutexRun) (uaddr call : Nat) (waiters : FutexTable) :
    ((∃ i < maxFutexWaiters, (s.waiters i).inUse = true ∧ (waiters i).inUse = false ∧ s.registrant i = call) ∧
      (s.mark uaddr waiters).woken call = some uaddr) ∨
    ((∀ i < maxFutexWaiters, (s.waiters i).inUse = true → (waiters i).inUse = false → s.registrant i ≠ call) ∧
      (s.mark uaddr waiters).woken call = s.woken call) := by
  have hany : ((markedEntries s.waiters waiters (List.range maxFutexWaiters)).any fun i => s.registrant i == call) = true ↔
      ∃ i < maxFutexWaiters, (s.waiters i).inUse = true ∧ (waiters i).inUse = false ∧ s.registrant i = call := by
    simp [markedEntries, and_assoc]
  by_cases h : ∃ i < maxFutexWaiters, (s.waiters i).inUse = true ∧ (waiters i).inUse = false ∧ s.registrant i = call
  · exact .inl ⟨h, if_pos (hany.mpr h)⟩
  · refine .inr ⟨fun i hi hu hm hr => h ⟨i, hi, hu, hm, hr⟩, if_neg fun ha => h (hany.mp ha)⟩

/-! ### Numbering -/

namespace Numbered

theorem leave {waiters : FutexTable} (h : s.Numbered)
    (hw : ∀ i < maxFutexWaiters, (waiters i).inUse = true → (s.waiters i).inUse = true) :
    ({ s with waiters, waiting := update s.waiting t none } : FutexRun).Numbered := by
  have hsub : ∀ t' c', update s.waiting t none t' = some c' → s.waiting t' = some c' := by
    intro t' c' hc'
    by_cases ht : t' = t
    · subst ht
      simp at hc'
    · rwa [update_of_ne ht] at hc'
  exact ⟨fun t' c' hc' => h.slots t' c' (hsub t' c' hc'), fun t' c' hc' => h.readable t' c' (hsub t' c' hc'),
    fun t' c' hc' => h.calls t' c' (hsub t' c' hc'),
    fun t1 t2 c1 c2 h1 h2 => h.distinct t1 t2 c1 c2 (hsub t1 c1 h1) (hsub t2 c2 h2),
    fun i hi hu => h.registered i hi (hw i hi hu), h.woken⟩

theorem wait {uaddr timeoutPtr : Nat} {expected : BitVec 32} (h : s.Numbered)
    (hs : s.step (.wait t uaddr expected timeoutPtr) = some s') : s'.Numbered := by
  obtain ⟨hnone, hcases⟩ := wait_cases hs
  have hreg : ∀ f : FutexFrame, ∀ i < maxFutexWaiters, ((s.waiters i).inUse = true ∨ i = f.slot) →
      update s.registrant f.slot s.nextCall i < s.nextCall + 1 := by
    intro f i hi hu
    by_cases hif : i = f.slot
    · subst hif
      simp
    · rw [update_of_ne hif]
      have := h.registered i hi (hu.resolve_right hif)
      omega
  have hwoken : ∀ n a, s.woken n = some a → n < s.nextCall + 1 := fun n a hw => by
    have := h.woken n a hw
    omega
  rcases hcases with ⟨-, rfl⟩ | ⟨f, hfree, -, rfl⟩ | ⟨f, hfree, -, haddr, hread, rfl⟩
  · exact h
  · refine ⟨h.slots, h.readable, fun t' c' hc' => ?_, h.distinct, fun i hi hu => hreg f i hi ?_, hwoken⟩
    · have := h.calls t' c' hc'
      simp only [register]
      omega
    · by_cases hif : i = f.slot
      · exact .inr hif
      · exact .inl (by simpa [hif] using hu)
  · have hcall : ∀ t' c', update s.waiting t (some ⟨f, s.nextCall⟩) t' = some c' →
        (t' = t ∧ c' = ⟨f, s.nextCall⟩) ∨ (t' ≠ t ∧ s.waiting t' = some c') := by
      intro t' c' hc'
      by_cases ht : t' = t
      · subst ht
        rw [update_self] at hc'
        exact .inl ⟨rfl, (Option.some.inj hc').symm⟩
      · rw [update_of_ne ht] at hc'
        exact .inr ⟨ht, hc'⟩
    refine ⟨fun t' c' hc' => ?_, fun t' c' hc' => ?_, fun t' c' hc' => ?_, fun t1 t2 c1 c2 h1 h2 he => ?_,
      fun i hi hu => hreg f i hi ?_, hwoken⟩
    · rcases hcall t' c' hc' with ⟨-, rfl⟩ | ⟨-, hc'⟩
      · exact (freeWaiter_spec hfree).1
      · exact h.slots t' c' hc'
    · rcases hcall t' c' hc' with ⟨-, rfl⟩ | ⟨-, hc'⟩
      · rw [haddr]
        exact hread
      · exact h.readable t' c' hc'
    · simp only [register]
      rcases hcall t' c' hc' with ⟨-, rfl⟩ | ⟨-, hc'⟩
      · exact Nat.lt_succ_self _
      · have := h.calls t' c' hc'
        omega
    · rcases hcall t1 c1 h1 with ⟨ht1, rfl⟩ | ⟨-, hw1⟩ <;> rcases hcall t2 c2 h2 with ⟨ht2, rfl⟩ | ⟨-, hw2⟩
      · rw [ht1, ht2]
      · have := h.calls t2 c2 hw2
        simp only at he
        omega
      · have := h.calls t1 c1 hw1
        simp only at he
        omega
      · exact h.distinct t1 t2 c1 c2 hw1 hw2 he
    · by_cases hif : i = f.slot
      · exact .inr hif
      · exact .inl (by simpa [hif] using hu)

theorem step {op : FutexOp} (h : s.Numbered) (hs : s.step op = some s') : s'.Numbered := by
  cases op with
  | wait t uaddr expected timeoutPtr => exact h.wait hs
  | resume t =>
    obtain ⟨c, hc, hcases⟩ := resume_cases h hs
    rcases hcases with ⟨-, rfl⟩ | ⟨-, rfl⟩ | rfl
    · exact h.leave fun _ _ hu => hu
    · refine h.leave fun i _ hu => ?_
      by_cases hi : i = c.frame.slot
      · subst hi
        simp [FutexWaiter.empty] at hu
      · simpa [hi] using hu
    · exact h
  | wake uaddr count =>
    cases hs
    refine ⟨h.slots, h.readable, h.calls, h.distinct, fun i hi hu => h.registered i hi ?_, fun n a hw => ?_⟩
    · rcases futexWake_entry s.waiters uaddr count i with he | ⟨-, -, he⟩
      · rwa [← he]
      · simp only [mark] at hu
        rw [he] at hu
        cases hu
    · rcases mark_woken s uaddr n (futexWake s.waiters uaddr count).2 with
        ⟨⟨i, hi, hu, -, rfl⟩, -⟩ | ⟨-, hsame⟩
      · exact h.registered i hi hu
      · exact h.woken n a (hsame ▸ hw)
  | kill t =>
    cases hs
    exact h.leave fun _ _ hu => hu
  | userMemory user =>
    cases hs
    exact ⟨h.slots, h.readable, h.calls, h.distinct, h.registered, h.woken⟩
  | tick =>
    cases hs
    exact ⟨h.slots, h.readable, h.calls, h.distinct, h.registered, h.woken⟩

end Numbered

/-! ### Soundness -/

namespace Sound

theorem of_table (hret : ∀ t c, s.waiting t = some c →
      ((s.waiters c.frame.slot).inUse = false ↔ s.woken c.call = some c.frame.uaddr))
    (hent : ∀ i < maxFutexWaiters, (s.waiters i).inUse = true → ∃ t c, s.waiting t = some c ∧ c.frame.slot = i ∧
      c.frame.uaddr = (s.waiters i).addr ∧ s.registrant i = c.call ∧
      ∀ t' c', s.waiting t' = some c' → c'.frame.slot = i → t' = t) : s.Sound :=
  ⟨fun t c hc => futexWaitRound_ok_iff.trans (hret t c hc), hent⟩

theorem free_iff (h : s.Sound) (hc : s.waiting t = some c) :
    (s.waiters c.frame.slot).inUse = false ↔ s.woken c.call = some c.frame.uaddr :=
  futexWaitRound_ok_iff.symm.trans (h.returns t c hc)

theorem own (h : s.Sound) (hn : s.Numbered) (hc : s.waiting t = some c)
    (hu : (s.waiters c.frame.slot).inUse = true) :
    c.frame.uaddr = (s.waiters c.frame.slot).addr ∧ s.registrant c.frame.slot = c.call ∧
      ∀ t' c', s.waiting t' = some c' → c'.frame.slot = c.frame.slot → t' = t := by
  obtain ⟨t1, c1, hc1, -, haddr, hreg, huniq⟩ := h.entries c.frame.slot (hn.slots t c hc) hu
  obtain rfl := huniq t c hc rfl
  obtain rfl := Option.some.inj (hc.symm.trans hc1)
  exact ⟨haddr, hreg, huniq⟩

theorem leave {waiters : FutexTable} (h : s.Sound) (hc : s.waiting t = some c)
    (hout : (waiters c.frame.slot).inUse = false)
    (hsame : ∀ t' c', t' ≠ t → s.waiting t' = some c' → waiters c'.frame.slot = s.waiters c'.frame.slot)
    (hin : ∀ i, (waiters i).inUse = true → waiters i = s.waiters i) :
    ({ s with waiters, waiting := update s.waiting t none } : FutexRun).Sound := by
  have hsub : ∀ t' c', update s.waiting t none t' = some c' → t' ≠ t ∧ s.waiting t' = some c' := by
    intro t' c' hc'
    by_cases ht : t' = t
    · subst ht
      simp at hc'
    · rw [update_of_ne ht] at hc'
      exact ⟨ht, hc'⟩
  refine of_table (fun t' c' hc' => ?_) (fun i hi hu => ?_)
  · obtain ⟨ht, hc'⟩ := hsub t' c' hc'
    simp only
    rw [hsame t' c' ht hc']
    exact h.free_iff hc'
  · have huse : (waiters i).inUse = true := hu
    have he := hin i huse
    obtain ⟨t1, c1, hc1, hslot, haddr, hreg, huniq⟩ := h.entries i hi (he ▸ hu)
    have ht : t1 ≠ t := by
      intro ht
      subst ht
      obtain rfl := Option.some.inj (hc.symm.trans hc1)
      simp [hslot, huse] at hout
    refine ⟨t1, c1, by simpa [ht] using hc1, hslot, haddr.trans (congrArg FutexWaiter.addr he.symm), hreg,
      fun t' c' hc' => ?_⟩
    exact huniq t' c' (hsub t' c' hc').2

theorem resume (h : s.Sound) (hn : s.Numbered) (hs : s.step (.resume t) = some s') : s'.Sound := by
  obtain ⟨c, hc, hcases⟩ := resume_cases hn hs
  rcases hcases with ⟨hu, rfl⟩ | ⟨hu, rfl⟩ | rfl
  · exact h.leave hc hu (fun _ _ _ _ => rfl) fun _ _ => rfl
  · obtain ⟨-, -, huniq⟩ := h.own hn hc hu
    refine h.leave hc (by simp [FutexWaiter.empty]) (fun t' c' ht hc' => ?_) fun i hi => ?_
    · exact update_of_ne (fun he => ht (huniq t' c' hc' he)) ..
    · refine update_of_ne (fun he => ?_) ..
      subst he
      simp [FutexWaiter.empty] at hi
  · exact h

theorem wake {uaddr count : Nat} (h : s.Sound) (hn : s.Numbered) :
    (s.mark uaddr (futexWake s.waiters uaddr count).2).Sound := by
  refine of_table (fun t c hc => ?_) (fun i hi hu => ?_)
  · have hwoken := mark_woken s uaddr c.call (futexWake s.waiters uaddr count).2
    rcases futexWake_entry s.waiters uaddr count c.frame.slot with
      he | ⟨hu, haddr, he⟩
    · -- the entry is as it was, and no other entry marked is of this call
      rcases hwoken with ⟨⟨i, hi, hu, hm, hr⟩, -⟩ | ⟨-, hsame⟩
      · obtain ⟨t1, c1, hc1, hslot, -, hreg, -⟩ := h.entries i hi hu
        obtain rfl := hn.distinct t t1 c c1 hc hc1 (hr.symm.trans hreg)
        obtain rfl := Option.some.inj (hc.symm.trans hc1)
        rw [← hslot, he, hslot, hu] at hm
        cases hm
      · rw [hsame]
        simp only [mark]
        rw [he]
        exact h.free_iff hc
    · obtain ⟨haddr', hreg, -⟩ := h.own hn hc hu
      have hfree : ((futexWake s.waiters uaddr count).2 c.frame.slot).inUse = false := by rw [he]
      refine iff_of_true hfree ?_
      rcases hwoken with ⟨-, hw⟩ | ⟨hnone, -⟩
      · rw [hw, haddr', haddr]
      · exact absurd hreg (hnone c.frame.slot (hn.slots t c hc) hu hfree)
  · simp only [mark] at hu ⊢
    rcases futexWake_entry s.waiters uaddr count i with he | ⟨-, -, he⟩
    · rw [he] at hu ⊢
      exact h.entries i hi hu
    · rw [he] at hu
      cases hu

theorem kill_iff (h : s.Sound) (hn : s.Numbered) :
    ({ s with waiting := update s.waiting t none } : FutexRun).Sound ↔ s.LeavesEntries (.kill t) := by
  constructor
  · intro hafter c hc
    by_contra hu
    have hu : (s.waiters c.frame.slot).inUse = true := by simpa using hu
    obtain ⟨-, -, huniq⟩ := h.own hn hc hu
    obtain ⟨t1, c1, hc1, hslot, -⟩ := hafter.entries c.frame.slot (hn.slots t c hc) hu
    simp only at hc1
    by_cases ht : t1 = t
    · subst ht
      simp at hc1
    · rw [update_of_ne ht] at hc1
      exact ht (huniq t1 c1 hc1 hslot)
  · intro hleaves
    cases hc : s.waiting t with
    | none =>
      rw [← hc, Function.update_eq_self]
      exact h
    | some c => exact h.leave hc (hleaves c hc) (fun _ _ _ _ => rfl) fun _ _ => rfl

theorem wait_iff {uaddr timeoutPtr : Nat} {expected : BitVec 32} (h : s.Sound) (hn : s.Numbered)
    (hs : s.step (.wait t uaddr expected timeoutPtr) = some s') :
    s'.Sound ↔ s.LeavesEntries (.wait t uaddr expected timeoutPtr) := by
  obtain ⟨hnone, hcases⟩ := wait_cases hs
  rcases hcases with ⟨hstays, rfl⟩ | ⟨f, hfree, hstays, rfl⟩ | ⟨f, hfree, hstays, haddr, -, rfl⟩
  · exact iff_of_true h (.inr (by simp [hstays]))
  · refine iff_of_true (of_table (fun t' c' hc' => ?_) fun i hi hu => ?_) (.inr (by simp [hstays]))
    · simp only [register] at hc' ⊢
      rw [← h.free_iff hc']
      by_cases hslot : c'.frame.slot = f.slot
      · rw [hslot, update_self]
        exact iff_of_true rfl (freeWaiter_spec hfree).2
      · rw [update_of_ne hslot]
    · have hif : i ≠ f.slot := by
        intro hif
        subst hif
        simp [FutexWaiter.empty] at hu
      simp only [register, update_of_ne hif] at hu ⊢
      exact h.entries i hi hu
  · constructor
    · -- a waiter that has yet to look at the entry would find it in use
      intro hafter
      refine .inr fun i hi t' c' hc' hslot => ?_
      obtain rfl : f.slot = i := by simpa [hstays] using hi
      have ht : t' ≠ t := fun ht => by
        subst ht
        simp [hnone] at hc'
      have hwoken := (h.free_iff hc').mp (hslot ▸ (freeWaiter_spec hfree).2)
      have hfree' := (hafter.free_iff (t := t') (c := c') (by simpa [ht] using hc')).mpr hwoken
      simp [hslot] at hfree'
    · intro hleaves
      have hothers : ∀ t' c', s.waiting t' = some c' → c'.frame.slot ≠ f.slot :=
        fun t' c' hc' => (hleaves.resolve_left (by simp [hnone])) f.slot hstays t' c' hc'
      have hcall : ∀ t' c', update s.waiting t (some ⟨f, s.nextCall⟩) t' = some c' →
          (t' = t ∧ c' = ⟨f, s.nextCall⟩) ∨ s.waiting t' = some c' := by
        intro t' c' hc'
        by_cases ht : t' = t
        · subst ht
          rw [update_self] at hc'
          exact .inl ⟨rfl, (Option.some.inj hc').symm⟩
        · rw [update_of_ne ht] at hc'
          exact .inr hc'
      refine of_table (fun t' c' hc' => ?_) fun i hi hu => ?_
      · simp only [register] at hc' ⊢
        rcases hcall t' c' hc' with ⟨-, rfl⟩ | hc'
        · have hnew : s.woken s.nextCall ≠ some f.uaddr := fun hw => Nat.lt_irrefl _ (hn.woken _ _ hw)
          simp [hnew]
        · rw [update_of_ne (hothers t' c' hc')]
          exact h.free_iff hc'
      · by_cases hif : i = f.slot
        · subst hif
          refine ⟨t, ⟨f, s.nextCall⟩, by simp, rfl, by simp [haddr], by simp [register], fun t' c' hc' hslot => ?_⟩
          rcases hcall t' c' hc' with ⟨ht, -⟩ | hc'
          · exact ht
          · exact absurd hslot (hothers t' c' hc')
        · simp only [register, update_of_ne hif] at hu ⊢
          obtain ⟨t1, c1, hc1, hslot, haddr1, hreg, huniq⟩ := h.entries i hi hu
          have ht : t1 ≠ t := fun ht => by
            subst ht
            simp [hnone] at hc1
          refine ⟨t1, c1, by simpa [ht] using hc1, hslot, haddr1, hreg, fun t' c' hc' hslot' => ?_⟩
          rcases hcall t' c' hc' with ⟨-, rfl⟩ | hc'
          · exact absurd hslot'.symm hif
          · exact huniq t' c' hc' hslot'

theorem step_iff {op : FutexOp} (h : s.Sound) (hn : s.Numbered) (hs : s.step op = some s') :
    s'.Sound ↔ s.LeavesEntries op := by
  cases op with
  | wait t uaddr expected timeoutPtr => exact h.wait_iff hn hs
  | resume t => exact iff_of_true (h.resume hn hs) trivial
  | wake uaddr count =>
    cases hs
    exact iff_of_true (h.wake hn) trivial
  | kill t =>
    cases hs
    exact h.kill_iff hn
  | userMemory user | tick =>
    cases hs
    exact iff_of_true (of_table (fun _ _ hc => h.free_iff hc) h.entries) trivial

end Sound

theorem Numbered.start {user : Slot → Mem} {ticks : Nat} : (start user ticks).Numbered := by
  refine ⟨?_, ?_, ?_, ?_, ?_, ?_⟩ <;> simp [FutexRun.start, FutexWaiter.empty]

theorem Sound.start {user : Slot → Mem} {ticks : Nat} : (start user ticks).Sound := by
  refine ⟨?_, ?_⟩ <;> simp [FutexRun.start, FutexWaiter.empty]

theorem leavesEntries_of_none {op : FutexOp} (h : s.step op = none) : s.LeavesEntries op := by
  cases op with
  | wait t uaddr expected timeoutPtr =>
    by_cases ht : (s.waiting t).isSome
    · exact .inl ht
    · simp only [step, ht, Bool.false_eq_true, if_false] at h
      split at h
      · cases h
      · split at h <;> cases h
  | kill t => cases h
  | _ => trivial

end FutexRun

open FutexRun

/-- **Wakeups are neither lost nor stolen exactly when entries are left to
their waiters.** Along any interleaving of waits and wakes on any addresses,
of kills, and of changes to user memory: in every state of the run each waiter,
if it ran next, would return `Ok(0)` exactly if a wake on its own address marked
its own registration, and each entry in use belongs to exactly one live thread
inside `futex_wait` on its address, if and only if no call of `futex_wait` in
the run takes an entry that a woken waiter has yet to look at and no thread is
killed while its entry is in use. And the count `futex_wake` returns is the
number of entries it marks. -/
theorem futex_wakeups (user : Slot → Mem) (ticks : Nat) (ops : List FutexOp) :
    (Lts.Always FutexRun.step Sound (start user ticks) ops ↔
      Lts.Meets FutexRun.step LeavesEntries (start user ticks) ops) ∧
    ∀ waiters uaddr count, (futexWake waiters uaddr count).1 =
      (markedEntries waiters (futexWake waiters uaddr count).2 (List.range maxFutexWaiters)).length := by
  refine ⟨Lts.always_iff_meets (fun _ _ _ hn hs => hn.step hs) (fun _ _ _ hn h hs => h.step_iff hn hs)
    (fun _ _ h => leavesEntries_of_none h) Numbered.start Sound.start, fun waiters uaddr count => ?_⟩
  have := futexWakeLoop_count uaddr count 0 waiters (List.nodup_range (n := maxFutexWaiters))
  rwa [Nat.zero_add] at this

/-- A thread waits, is woken and returns. -/
theorem futex_wakeups_waitWake :
    Lts.Meets FutexRun.step LeavesEntries (start (fun _ _ => 0) 0)
        [.wait 1 4096 0 0, .wake 4096 1, .resume 1, .wait 2 8192 0 0] ∧
      Lts.Always FutexRun.step Sound (start (fun _ _ => 0) 0)
        [.wait 1 4096 0 0, .wake 4096 1, .resume 1, .wait 2 8192 0 0] := by
  have hmeets : Lts.Meets FutexRun.step LeavesEntries (start (fun _ _ => 0) 0)
    [.wait 1 4096 0 0, .wake 4096 1, .resume 1, .wait 2 8192 0 0] := by decide
  exact ⟨hmeets, (futex_wakeups _ _ _).1.mpr hmeets⟩

/-- The entry of a woken thread is taken by another before the first runs
again: it was woken, and yields. And a thread killed in its wait leaves an
entry in use that nobody waits on. -/
theorem futex_wakeup_lost :
    (∃ s c, Lts.exec FutexRun.step (start (fun _ _ => 0) 0) [.wait 1 4096 0 0, .wake 4096 1, .wait 2 8192 0 0] = some s ∧
      s.waiting 1 = some c ∧ s.woken c.call = some c.frame.uaddr ∧
      (futexWaitRound s.waiters (s.user 1) s.ticks c.frame).1 = none ∧ ¬ s.Sound) ∧
    ∃ s, Lts.exec FutexRun.step (start (fun _ _ => 0) 0) [.wait 1 4096 0 0, .kill 1] = some s ∧
      (s.waiters 0).inUse = true ∧ (∀ t, s.waiting t = none) ∧ ¬ s.Sound := by
  constructor
  · have hrun : (Lts.exec FutexRun.step (start (fun _ _ => 0) 0)
        [.wait 1 4096 0 0, .wake 4096 1, .wait 2 8192 0 0]).map (fun s => (s.waiting 1).map fun c =>
          (s.woken c.call == some c.frame.uaddr,
            (futexWaitRound s.waiters (s.user 1) s.ticks c.frame).1.isNone)) = some (some (true, true)) := by rfl
    obtain ⟨s, hs, hobs⟩ := Option.map_eq_some_iff.mp hrun
    obtain ⟨c, hc, hobs⟩ := Option.map_eq_some_iff.mp hobs
    simp only [Prod.mk.injEq, beq_iff_eq, Option.isNone_iff_eq_none] at hobs
    refine ⟨s, c, hs, hc, hobs.1, hobs.2, fun h => ?_⟩
    have := (h.returns 1 c hc).mpr hobs.1
    simp [hobs.2] at this
  · have hrun : (Lts.exec FutexRun.step (start (fun _ _ => 0) 0) [.wait 1 4096 0 0, .kill 1]).map
        (fun s => ((s.waiters 0).inUse, decide (∀ t, (s.waiting t).isNone))) = some (true, true) := by rfl
    obtain ⟨s, hs, hobs⟩ := Option.map_eq_some_iff.mp hrun
    simp only [Prod.mk.injEq, decide_eq_true_eq, Option.isNone_iff_eq_none] at hobs
    refine ⟨s, hs, hobs.1, hobs.2, fun h => ?_⟩
    obtain ⟨t, c, hc, -⟩ := h.entries 0 (by decide) hobs.1
    simp [hobs.2 t] at hc

/-! ## How many a wake takes -/

/-- What a wake of `count` threads at `uaddr` is to do: as many entries as asked
for and there are lose their mark, all of them of `uaddr`, nothing else
changes, and their number is returned. -/
structure WakesExactly (waiters : FutexTable) (uaddr count woke : Nat) (waiters' : FutexTable) : Prop where
  returned : woke = min count (waitingOn waiters uaddr (List.range maxFutexWaiters)).length
  marked : (markedEntries waiters waiters' (List.range maxFutexWaiters)).length =
    min count (waitingOn waiters uaddr (List.range maxFutexWaiters)).length
  entries : ∀ i, MarkedOrSame uaddr (waiters i) (waiters' i)

/-- **A wake takes as many waiters as asked for, unless none is asked for.**
The loop compares the number woken with `count` only after it has woken one, so
a `count` of 0 wakes every waiter of the address. -/
theorem futex_wake_exact_iff (waiters : FutexTable) (uaddr count : Nat) :
    WakesExactly waiters uaddr count (futexWake waiters uaddr count).1 (futexWake waiters uaddr count).2 ↔
      count ≠ 0 ∨ waitingOn waiters uaddr (List.range maxFutexWaiters) = [] := by
  have hnd : (List.range maxFutexWaiters).Nodup := List.nodup_range
  have hwoke := futexWakeLoop_woke uaddr count 0 waiters hnd (by omega)
  have hcount := futexWakeLoop_count uaddr count 0 waiters hnd
  rw [Nat.zero_add] at hwoke hcount
  constructor
  · intro h
    have hret := h.returned
    by_cases hc : count = 0
    · rw [futexWake, hwoke, if_pos hc] at hret
      exact .inr (List.eq_nil_of_length_eq_zero (by omega))
    · exact .inl hc
  · intro hcond
    have hmin : (futexWakeLoop uaddr count (List.range maxFutexWaiters) 0 waiters).1 =
        min count (waitingOn waiters uaddr (List.range maxFutexWaiters)).length := by
      rw [hwoke]
      rcases hcond with hc | hnone
      · rw [if_neg hc]
      · rw [hnone]
        split <;> simp
    exact ⟨hmin, hcount.symm.trans hmin, futexWakeLoop_entry 0 waiters hnd⟩

/-- One thread waits, and a wake of none wakes it. -/
theorem futex_wake_none_wakes :
    (futexWake (update (fun _ => .empty) 3 ⟨true, 4096⟩) 4096 0).1 = 1 ∧
      ((futexWake (update (fun _ => .empty) 3 ⟨true, 4096⟩) 4096 0).2 3).inUse = false ∧
      ¬ WakesExactly (update (fun _ => .empty) 3 ⟨true, 4096⟩) 4096 0
        (futexWake (update (fun _ => .empty) 3 ⟨true, 4096⟩) 4096 0).1
        (futexWake (update (fun _ => .empty) 3 ⟨true, 4096⟩) 4096 0).2 := by
  have hone : (futexWake (update (fun _ => .empty) 3 ⟨true, 4096⟩) 4096 0).1 = 1 := by decide
  refine ⟨hone, by decide, fun h => ?_⟩
  have hret := h.returned
  rw [hone, Nat.zero_min] at hret
  exact absurd hret (by decide)

end CoreOS
