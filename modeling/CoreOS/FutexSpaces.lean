/-
Futexes and address spaces. The table of waiters records an address and not
whose it is, and forked processes have the same addresses: a wake takes the
first entries in use at its address, whichever address space they belong to
(`wake_crosses_spaces`). It leaves the threads of another one alone exactly
where enough others wait at the address before them (`futex_stays_in_space_iff`).
-/
import CoreOS.FutexRun
import CoreOS.Task

namespace CoreOS

open ByteMem
open Function (update_of_ne update_self update)

/-! ## Which entries a wake takes -/

variable {waiters : FutexTable} {uaddr count i : Nat}

theorem futexWakeLoop_takes {pre post : List Nat} {woke : Nat} (hnd : (pre ++ i :: post).Nodup)
    (huse : (waiters i).inUse = true) (haddr : (waiters i).addr = uaddr) (hwoke : woke < count ∨ count = 0) :
    ((futexWakeLoop uaddr count (pre ++ i :: post) woke waiters).2 i).inUse = false ↔
      count = 0 ∨ woke + (waitingOn waiters uaddr pre).length < count := by
  induction pre generalizing woke waiters with
  | nil =>
    have hi := (List.nodup_cons.mp hnd).1
    have hnone : waitingOn waiters uaddr [] = [] := rfl
    rw [List.nil_append, futexWakeLoop, if_neg (by simp [huse, haddr]), hnone]
    split
    · simp [hwoke.symm]
    · simp [futexWakeLoop_other _ _ _ _ hi, hwoke.symm]
  | cons j pre ih =>
    obtain ⟨hj, hnd⟩ := List.nodup_cons.mp hnd
    have hij : i ≠ j := fun h => hj (by simp [h])
    rw [List.cons_append, futexWakeLoop]
    split
    next hm => rw [ih hnd huse haddr hwoke, waitingOn_skip hm]
    next hm =>
      rw [waitingOn_cons hm, List.length_cons]
      have hsame : update waiters j { waiters j with inUse := false } i = waiters i := update_of_ne hij ..
      split
      next hlast =>
        simp [hij, huse]
        omega
      next hmore =>
        rw [ih hnd (hsame ▸ huse) (hsame ▸ haddr) (by omega),
          waitingOn_update _ fun h => hj (List.mem_append_left _ h)]
        omega

/-- How many wait at `uaddr` in the entries before `i`. -/
def waitersBefore (waiters : FutexTable) (uaddr i : Nat) : Nat := (waitingOn waiters uaddr (List.range i)).length

theorem waitersBefore_succ (waiters : FutexTable) (uaddr i : Nat) :
    waitersBefore waiters uaddr (i + 1) =
      waitersBefore waiters uaddr i + if (waiters i).inUse = true ∧ (waiters i).addr = uaddr then 1 else 0 := by
  simp only [waitersBefore, waitingOn, List.range_succ, List.filter_append, List.length_append]
  by_cases h : (waiters i).inUse = true ∧ (waiters i).addr = uaddr <;> simp [h]

/-- **A wake takes the first entries at its address**, all of them if its count
is 0. -/
theorem futexWake_takes (count : Nat) (hi : i < maxFutexWaiters) (huse : (waiters i).inUse = true)
    (haddr : (waiters i).addr = uaddr) :
    ((futexWake waiters uaddr count).2 i).inUse = false ↔ count = 0 ∨ waitersBefore waiters uaddr i < count := by
  obtain ⟨rest, hrest⟩ : ∃ rest, List.range maxFutexWaiters = List.range i ++ i :: rest := by
    obtain ⟨n, hn⟩ := Nat.exists_eq_add_of_lt hi
    rw [hn, Nat.add_assoc, List.range_add, List.range_succ_eq_map]
    exact ⟨_, rfl⟩
  have hnd : (List.range i ++ i :: rest).Nodup := hrest ▸ List.nodup_range
  rw [futexWake, hrest, futexWakeLoop_takes hnd huse haddr (Nat.eq_zero_or_pos count).symm, Nat.zero_add]
  rfl

theorem futexWake_keeps (h : ¬ (i < maxFutexWaiters ∧ (waiters i).inUse = true ∧ (waiters i).addr = uaddr)) :
    (futexWake waiters uaddr count).2 i = waiters i := by
  by_cases hi : i < maxFutexWaiters
  · exact (FutexRun.futexWake_entry waiters uaddr count i).resolve_right fun ⟨huse, haddr, _⟩ => h ⟨hi, huse, haddr⟩
  · exact futexWakeLoop_other _ _ _ _ fun h => hi (List.mem_range.mp h)

theorem waitersBefore_futexWake_self (hi : i ≤ maxFutexWaiters) :
    waitersBefore (futexWake waiters uaddr 1).2 uaddr i = waitersBefore waiters uaddr i - 1 := by
  induction i with
  | zero => rfl
  | succ i ih =>
    rw [waitersBefore_succ, waitersBefore_succ, ih (Nat.le_of_succ_le hi)]
    by_cases hw : (waiters i).inUse = true ∧ (waiters i).addr = uaddr
    · have htakes := futexWake_takes 1 hi hw.1 hw.2
      rcases FutexRun.futexWake_entry waiters uaddr 1 i with hsame | ⟨-, -, hmark⟩
      · rw [hsame, hw.1] at htakes
        rw [hsame, if_pos hw]
        simp at htakes
        omega
      · rw [hmark] at htakes ⊢
        simp at htakes
        simp [hw, htakes]
    · rw [futexWake_keeps fun h => hw h.2, if_neg hw]
      omega

theorem waitersBefore_futexWake_other {other : Nat} (h : other ≠ uaddr) :
    waitersBefore (futexWake waiters uaddr count).2 other i = waitersBefore waiters other i := by
  unfold waitersBefore waitingOn
  congr 1
  apply List.filter_congr
  intro j _
  rcases FutexRun.futexWake_entry waiters uaddr count j with hsame | ⟨-, haddr, hmark⟩
  · rw [hsame]
  · simp [hmark, haddr, h.symm]

/-! ## Waking a list of addresses -/

/-- `futex_wake(uaddr, 1)` for each address. -/
def wakeEach (uaddrs : List Nat) (waiters : FutexTable) : FutexTable :=
  uaddrs.foldl (fun waiters uaddr => (futexWake waiters uaddr 1).2) waiters

theorem wakeEach_append (as bs : List Nat) (waiters : FutexTable) :
    wakeEach (as ++ bs) waiters = wakeEach bs (wakeEach as waiters) := List.foldl_append

theorem wakeEach_keeps (uaddrs : List Nat) (h : ¬ (i < maxFutexWaiters ∧ (waiters i).inUse = true)) :
    wakeEach uaddrs waiters i = waiters i := by
  induction uaddrs generalizing waiters with
  | nil => rfl
  | cons uaddr uaddrs ih =>
    have hsame : (futexWake waiters uaddr 1).2 i = waiters i := futexWake_keeps fun hw => h ⟨hw.1, hw.2.1⟩
    have hstill : ¬ (i < maxFutexWaiters ∧ ((futexWake waiters uaddr 1).2 i).inUse = true) := by rwa [hsame]
    exact (ih hstill).trans hsame

theorem marked_ne {w : FutexWaiter} (h : w.inUse = true) : ({ w with inUse := false } : FutexWaiter) ≠ w := fun he => by
  rw [← he] at h
  cases h

/-- **Which entries a list of wakes takes**: those before which fewer wait than
there are wakes for their address. -/
theorem wakeEach_keeps_iff (uaddrs : List Nat) (hi : i < maxFutexWaiters) (huse : (waiters i).inUse = true) :
    wakeEach uaddrs waiters i = waiters i ↔
      uaddrs.count (waiters i).addr ≤ waitersBefore waiters (waiters i).addr i := by
  induction uaddrs generalizing waiters with
  | nil => simp [wakeEach]
  | cons uaddr uaddrs ih =>
    change wakeEach uaddrs (futexWake waiters uaddr 1).2 i = _ ↔ _
    by_cases haddr : (waiters i).addr = uaddr
    · subst haddr
      have htakes := futexWake_takes 1 hi huse rfl
      rw [List.count_cons_self]
      rcases FutexRun.futexWake_entry waiters (waiters i).addr 1 i with hsame | ⟨-, -, hmark⟩
      · have hrest := ih (hsame ▸ huse)
        rw [hsame, waitersBefore_futexWake_self (Nat.le_of_lt hi)] at hrest
        rw [hsame, huse] at htakes
        simp at htakes
        rw [hrest]
        omega
      · rw [wakeEach_keeps _ (by simp [hmark]), hmark]
        rw [hmark] at htakes
        simp at htakes
        simp [marked_ne huse, htakes]
    · have hsame : (futexWake waiters uaddr 1).2 i = waiters i := futexWake_keeps fun h => haddr h.2.2
      have hrest := ih (hsame ▸ huse)
      rwa [hsame, waitersBefore_futexWake_other haddr, ← List.count_cons_of_ne (Ne.symm haddr)] at hrest

/-! ## What a thread wakes -/

/-- The word at `uaddr` if the thread owns it, and the memory with it marked. -/
def ownedWord (user : Mem) (uaddr : Nat) (tid : BitVec 32) : List Nat × Mem :=
  match copyU32FromUser user uaddr with
  | none => ([], user)
  | some word =>
    if word &&& futexTidMask ≠ tid then ([], user)
    else ([uaddr], putU32ToUser user uaddr ((word &&& ~~~futexTidMask) ||| futexOwnerDied))

theorem wakeRobustFutex_eq (waiters : FutexTable) (user : Mem) (uaddr : Nat) (tid : BitVec 32) :
    wakeRobustFutex waiters user uaddr tid =
      (wakeEach (ownedWord user uaddr tid).1 waiters, (ownedWord user uaddr tid).2) := by
  cases h : copyU32FromUser user uaddr with
  | none => simp [wakeRobustFutex, ownedWord, h, wakeEach]
  | some word => by_cases htid : word &&& futexTidMask = tid <;> simp [wakeRobustFutex, ownedWord, h, htid, wakeEach]

/-- The owned words that the nodes from `nodePtr` on lead to. -/
def ownedWords (head : RobustListHead) (headPtr : Nat) (tid : BitVec 32) : Nat → Nat → Mem → List Nat × Mem
  | 0, _, user => ([], user)
  | left + 1, nodePtr, user =>
    if nodePtr = 0 ∨ nodePtr = headPtr then ([], user)
    else
      let (own, user) := ownedWord user (head.futexAddr nodePtr) tid
      match copyRobustListFromUser user nodePtr with
      | none => (own, user)
      | some next =>
        let (rest, user) := ownedWords head headPtr tid left next user
        (own ++ rest, user)

theorem robustListLoop_eq (head : RobustListHead) (headPtr : Nat) (tid : BitVec 32) (left nodePtr : Nat)
    (waiters : FutexTable) (user : Mem) :
    robustListLoop head headPtr tid left nodePtr waiters user =
      (wakeEach (ownedWords head headPtr tid left nodePtr user).1 waiters,
        (ownedWords head headPtr tid left nodePtr user).2) := by
  induction left generalizing nodePtr waiters user with
  | zero => rfl
  | succ left ih =>
    by_cases hend : nodePtr = 0 ∨ nodePtr = headPtr
    · simp [robustListLoop, ownedWords, hend, wakeEach]
    · cases hnext : copyRobustListFromUser (ownedWord user (head.futexAddr nodePtr) tid).2 nodePtr with
      | none => simp [robustListLoop, ownedWords, hend, wakeRobustFutex_eq, hnext]
      | some next => simp [robustListLoop, ownedWords, hend, wakeRobustFutex_eq, hnext, ih, wakeEach_append]

/-- The words that the thread's robust list leads to and that it owns. -/
def robustWords (thread : Option Thread) (user : Mem) : List Nat × Mem :=
  match thread with
  | none => ([], user)
  | some thread =>
    if thread.robustListHead = 0 ∨ thread.robustListLen ≠ robustListHeadSize then ([], user)
    else
      let tid := BitVec.ofNat 32 thread.tid
      match copyRobustListHeadFromUser user thread.robustListHead with
      | none => ([], user)
      | some head =>
        let (words, user) := ownedWords head thread.robustListHead tid robustListLimit head.next user
        if head.listOpPending ≠ 0 then
          let (last, user) := ownedWord user (head.futexAddr head.listOpPending) tid
          (words ++ last, user)
        else (words, user)

theorem releaseRobustList_eq (thread : Option Thread) (waiters : FutexTable) (user : Mem) :
    releaseRobustList thread waiters user = (wakeEach (robustWords thread user).1 waiters, (robustWords thread user).2) := by
  cases thread with
  | none => rfl
  | some thread =>
    by_cases hnone : thread.robustListHead = 0 ∨ thread.robustListLen ≠ robustListHeadSize
    · simp only [releaseRobustList, robustWords, if_pos hnone]
      rfl
    cases hhead : copyRobustListHeadFromUser user thread.robustListHead with
    | none =>
      simp only [releaseRobustList, robustWords, if_neg hnone, hhead]
      rfl
    | some head =>
      simp only [releaseRobustList, robustWords, if_neg hnone, hhead, robustListLoop_eq]
      by_cases hpending : head.listOpPending ≠ 0
      · simp only [if_pos hpending, wakeRobustFutex_eq, wakeEach_append]
      · simp only [if_neg hpending]

/-- The words that the exit of a thread wakes: those, and `clear_child_tid`. -/
def exitWords (thread : Option Thread) (user : Mem) : List Nat :=
  (robustWords thread user).1 ++
    match thread with
    | none => []
    | some thread => if thread.clearChildTid = 0 then [] else [thread.clearChildTid]

theorem clearChildTidAndWake_eq (thread : Option Thread) (waiters : FutexTable) (user : Mem) :
    (clearChildTidAndWake thread waiters user).1 = wakeEach (exitWords thread user) waiters := by
  cases thread with
  | none => rfl
  | some thread =>
    simp only [clearChildTidAndWake, exitWords, releaseRobustList_eq, wakeEach_append]
    split <;> rfl

/-! ## The calls that wake -/

/-- What a thread does that wakes others: `FUTEX_WAKE`, its exit, and the part
of it that releases its robust list. -/
inductive FutexAct
  | wake (uaddr count : Nat)
  | exit
  | releaseRobustList

namespace FutexAct

/-- What becomes of the table and of the thread's memory. -/
def run (thread : Option Thread) (waiters : FutexTable) (user : Mem) : FutexAct → FutexTable × Mem
  | .wake uaddr count => ((syscallFutexWake waiters uaddr count).2, user)
  | .exit => clearChildTidAndWake thread waiters user
  | .releaseRobustList => CoreOS.releaseRobustList thread waiters user

/-- How many waiters at `uaddr` it wakes at most. -/
def wakes (thread : Option Thread) (user : Mem) (uaddr : Nat) : FutexAct → Nat
  | .wake addr count =>
    if userRangeOk addr 4 ∧ addr = uaddr then if count = 0 then maxFutexWaiters else count else 0
  | .exit => (exitWords thread user).count uaddr
  | .releaseRobustList => (robustWords thread user).1.count uaddr

/-- It takes entry `i`: so few wait at the address in the entries before. -/
def Takes (act : FutexAct) (thread : Option Thread) (user : Mem) (waiters : FutexTable) (i : Nat) : Prop :=
  i < maxFutexWaiters ∧ (waiters i).inUse = true ∧
    waitersBefore waiters (waiters i).addr i < act.wakes thread user (waiters i).addr

/-- **What an act does to an entry.** -/
theorem run_keeps_iff (act : FutexAct) (thread : Option Thread) (user : Mem) (waiters : FutexTable) (i : Nat) :
    (act.run thread waiters user).1 i = waiters i ↔ ¬ act.Takes thread user waiters i := by
  have hlist : ∀ uaddrs, (act.run thread waiters user).1 = wakeEach uaddrs waiters →
      act.wakes thread user (waiters i).addr = uaddrs.count (waiters i).addr →
      ((act.run thread waiters user).1 i = waiters i ↔ ¬ act.Takes thread user waiters i) := by
    intro uaddrs hrun hwakes
    rw [hrun, Takes, hwakes]
    by_cases hw : i < maxFutexWaiters ∧ (waiters i).inUse = true
    · rw [wakeEach_keeps_iff uaddrs hw.1 hw.2]
      simp [hw]
    · simp only [wakeEach_keeps uaddrs hw, true_iff]
      exact fun h => hw ⟨h.1, h.2.1⟩
  cases act with
  | wake uaddr count =>
    by_cases hw : i < maxFutexWaiters ∧ (waiters i).inUse = true ∧ (waiters i).addr = uaddr
    · have hbefore : waitersBefore waiters uaddr i < maxFutexWaiters := by
        refine Nat.lt_of_le_of_lt (List.length_filter_le ..) ?_
        simpa using hw.1
      have htakes := futexWake_takes count hw.1 hw.2.1 hw.2.2
      simp only [run, syscallFutexWake, Takes, wakes, hw, true_and, and_true]
      by_cases hok : userRangeOk uaddr 4 = true
      · have hcount : (waitersBefore waiters uaddr i < if count = 0 then maxFutexWaiters else count) ↔
            count = 0 ∨ waitersBefore waiters uaddr i < count := by
          split <;> simp_all
        rw [if_pos hok, if_pos hok, hcount, ← htakes]
        rcases FutexRun.futexWake_entry waiters uaddr count i with hsame | ⟨-, -, hmark⟩
        · simp [hsame, hw]
        · simp [hmark, marked_ne hw.2.1]
      · simp [hok]
    · have hsame : (run thread waiters user (.wake uaddr count)).1 i = waiters i := by
        simp only [run, syscallFutexWake]
        split
        · exact futexWake_keeps hw
        · rfl
      simp only [hsame, true_iff]
      rintro ⟨hi, huse, hlt⟩
      refine hw ⟨hi, huse, ?_⟩
      simp only [wakes] at hlt
      split at hlt
      next h => exact h.2.symm
      · cases hlt
  | exit => exact hlist _ (clearChildTidAndWake_eq thread waiters user) rfl
  | releaseRobustList => exact hlist _ (congrArg Prod.fst (releaseRobustList_eq thread waiters user)) rfl

end FutexAct

/-! ## Address spaces -/

/-- The page-table root of a task. -/
def Kernel.rootOf (k : Kernel) (t : Slot) : Option Nat := (k.tasks t).map Task.pml4

/-- The act of thread `t` takes no entry that a thread of another address space
waits with. -/
def ApartFromOthers (k : Kernel) (s : FutexRun) (t : Slot) (act : FutexAct) : Prop :=
  ∀ t' c, s.waiting t' = some c → k.rootOf t' ≠ k.rootOf t →
    ¬ act.Takes (k.threads t) (s.user t) s.waiters c.frame.slot

/-- **Futexes within an address space.** In every state, whatever thread `t`
does that wakes: the entry of every waiting thread of another address space is
left as it is and none of them is counted, if and only if each of them has as
many waiters before it at its address as the act wakes there. -/
theorem futex_stays_in_space_iff (k : Kernel) (s : FutexRun) (t : Slot) (act : FutexAct) :
    ((∀ t' c, s.waiting t' = some c → k.rootOf t' ≠ k.rootOf t →
        (act.run (k.threads t) s.waiters (s.user t)).1 c.frame.slot = s.waiters c.frame.slot) ∧
      ∀ uaddr count n waiters, act = .wake uaddr count → syscallFutexWake s.waiters uaddr count = (.ok n, waiters) →
        n = (markedEntries s.waiters waiters (List.range maxFutexWaiters)).length ∧
        ∀ t' c, s.waiting t' = some c → k.rootOf t' ≠ k.rootOf t →
          c.frame.slot ∉ markedEntries s.waiters waiters (List.range maxFutexWaiters)) ↔
      ApartFromOthers k s t act := by
  simp only [ApartFromOthers, ← act.run_keeps_iff]
  refine ⟨And.left, fun hsame => ⟨hsame, ?_⟩⟩
  rintro uaddr count n waiters rfl hwake
  have htable : waiters = (FutexAct.run (k.threads t) s.waiters (s.user t) (.wake uaddr count)).1 := by
    simp only [FutexAct.run, hwake]
  refine ⟨?_, fun t' c hc hroot hmem => ?_⟩
  · unfold syscallFutexWake at hwake
    split at hwake
    · cases hwake
      have := futexWakeLoop_count uaddr count 0 s.waiters (List.nodup_range (n := maxFutexWaiters))
      rwa [Nat.zero_add] at this
    · cases hwake
  · have hent := hsame t' c hc hroot
    rw [← htable] at hent
    simp only [markedEntries, List.mem_filter, hent] at hmem
    cases hu : (s.waiters c.frame.slot).inUse <;> simp [hu] at hmem

/-- Two processes with roots of their own, each of which is at the same
addresses; the second one's exit clears the word at `0x5000`. -/
def twoSpaces : Kernel :=
  { Kernel.statics ⟨.new, fun _ => 0⟩ ⟨0, 0⟩ 0 with
    tasks := fun t => some
      { rsp := 0, stackBase := 0, state := .ready, id := t, rspValid := true, pml4 := 0x1000 * (t + 1) }
    threads := fun t => some { Thread.newLeader (t + 1) 0 t t with clearChildTid := 0x5000 } }

/-- The first process waits at an address. -/
def waitsAt (uaddr : Nat) : Option FutexRun := Lts.exec FutexRun.step (.start (fun _ _ => 0) 0) [.wait 0 uaddr 0 0]

/-- The first process waits at `0x5000`. A `FUTEX_WAKE` of the second one there
counts it, and it returns as woken; so it does when a thread of the second
process exits. -/
theorem wake_crosses_spaces :
    ∃ s c, waitsAt 0x5000 = some s ∧ s.waiting 0 = some c ∧ twoSpaces.rootOf 0 ≠ twoSpaces.rootOf 1 ∧
      (futexWaitRound s.waiters (s.user 0) s.ticks c.frame).1 = none ∧
      (syscallFutexWake s.waiters 0x5000 1).1 = .ok 1 ∧
      (futexWaitRound (syscallFutexWake s.waiters 0x5000 1).2 (s.user 0) s.ticks c.frame).1 = some (.ok 0) ∧
      (futexWaitRound (FutexAct.run (twoSpaces.threads 1) s.waiters (s.user 1) .exit).1 (s.user 0) s.ticks
        c.frame).1 = some (.ok 0) :=
  ⟨_, _, rfl, rfl, by decide, rfl, rfl, rfl, rfl⟩

end CoreOS
