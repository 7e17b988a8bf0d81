/-
A signal handler and its way back. `deliver_pending_signal` writes the frame of
the interrupted call to the user stack and sets the mask aside in the thread;
`rt_sigreturn` takes both back. Between the two the handler runs: any user
code, any `rt_sigprocmask` calls, and whatever else the thread or others do
that leaves the thread's own signal state alone.
-/
import CoreOS.Signal
import CoreOS.SlotReuse

namespace CoreOS

open ByteMem

/-! ## What a delivery does -/

@[simp] theorem Kernel.setThread_setThread {k : Kernel} {s : Slot} {x y : Option Thread} :
    (k.setThread s x).setThread s y = k.setThread s y := by
  simp [Kernel.setThread]

/-- The current thread as its handler starts. -/
def Thread.inHandler (t : Thread) (action : SigAction) (sig : Nat) (onAltstack : Bool) : Thread :=
  { t with
    onAltstack
    savedSigMask := t.sigMask
    sigMask := handlerMask t action sig
    inSignalHandler := true }

variable {c c' : UserContext} {t : Thread} {sig : Nat}

theorem startHandler_ok {action : SigAction} (h : startHandler c t action sig = (.ok (), c')) :
    ∃ ptr user onAltstack, ptr + 128 ≤ userTop ∧
      c'.kernel = c.kernel.setThread c.kernel.current (some (t.inHandler action sig onAltstack)) ∧
      c'.frame = { c.frame with
        rdi := BitVec.ofNat 64 sig, rcx := BitVec.ofNat 64 action.handler, r10 := BitVec.ofNat 64 ptr } ∧
      c'.user = storeWords user (ptr + 8) c.frame.words := by
  unfold startHandler at h
  split at h
  · cases h
  split at h
  · cases h
  next userRsp onAltstack _ =>
  dsimp only at h
  split at h
  · cases h
  split at h
  · cases h
  next hrange =>
  split at h
  · cases h
  next user1 _ =>
  split at h
  · cases h
  next user2 hcopy =>
  have hend : userRsp - (8 + 8 * SyscallFrame.wordCount) + 128 ≤ userTop := (userRangeOk_iff.mp (not_not.mp hrange)).2
  have hstore : user2 = storeWords user1 (userRsp - (8 + 8 * SyscallFrame.wordCount) + 8) c.frame.words := by
    unfold copyWordsToUser at hcopy
    split at hcopy
    · exact (Option.some.inj hcopy).symm
    · cases hcopy
  obtain ⟨-, rfl⟩ := Prod.mk.inj h
  refine ⟨_, user1, onAltstack, hend, ?_, rfl, hstore⟩
  simp only [UserContext.setThread, Kernel.setThread_current, Kernel.setThread_setThread]
  rfl

theorem startHandler_error {action : SigAction} {e : SysError} (h : startHandler c t action sig = (.error e, c')) :
    c'.frame = c.frame ∧ (c'.kernel = c.kernel ∨
      ∃ onAltstack, c'.kernel = c.kernel.setThread c.kernel.current (some { t with onAltstack })) := by
  unfold startHandler at h
  split at h
  · cases h
    exact ⟨rfl, .inl rfl⟩
  split at h
  · cases h
    exact ⟨rfl, .inl rfl⟩
  next userRsp onAltstack _ =>
  dsimp only at h
  split at h
  · cases h
    exact ⟨rfl, .inr ⟨onAltstack, rfl⟩⟩
  split at h
  · cases h
    exact ⟨rfl, .inr ⟨onAltstack, rfl⟩⟩
  split at h
  · cases h
    exact ⟨rfl, .inr ⟨onAltstack, rfl⟩⟩
  split at h
  · cases h
    exact ⟨rfl, .inr ⟨onAltstack, rfl⟩⟩
  · cases h

/-- The current thread after the chosen signal is taken. -/
def Thread.taken (t : Thread) (sig : Nat) (threadDirected : Bool) : Thread :=
  if threadDirected then { t with sigPending := sigsetRemove t.sigPending sig } else t

theorem deliverPendingSignal_cases {d : Delivery} (h : deliverPendingSignal c = (d, c')) :
    (c' = c ∧ (d = .nothing ∨ d = .noThread)) ∨
    ∃ t p sig td, c.kernel.currentThread = some t ∧ c.kernel.processes t.groupSlot = some p ∧
      t.inSignalHandler = false ∧ chooseSignal p t = some (sig, td) ∧
      ((d = .ignored sig td ∧ (p.sigHandlers sig).handler = 0 ∧ sig = sigChld ∧
          c' = { c with kernel := takeSignal c.kernel p t sig td }) ∨
        (d = .terminated sig td ∧ (p.sigHandlers sig).handler = 0 ∧
          c' = { c with kernel := terminateProcessGroup (takeSignal c.kernel p t sig td) t.groupSlot sig }) ∨
        (d = .handled sig td ∧ (p.sigHandlers sig).handler ≠ 0 ∧
          startHandler { c with kernel := takeSignal c.kernel p t sig td } (t.taken sig td) (p.sigHandlers sig) sig =
            (.ok (), c')) ∨
        ∃ e, d = .failed sig td e ∧ (p.sigHandlers sig).handler ≠ 0 ∧
          startHandler { c with kernel := takeSignal c.kernel p t sig td } (t.taken sig td) (p.sigHandlers sig) sig =
            (.error e, c')) := by
  unfold deliverPendingSignal at h
  split at h
  next t p ht hp =>
    rw [Kernel.currentProcess, ht, Option.bind_some] at hp
    split at h
    · cases h
      exact .inl ⟨rfl, .inl rfl⟩
    next hin =>
    split at h
    · cases h
      exact .inl ⟨rfl, .inl rfl⟩
    next sig td hchoose =>
    refine .inr ⟨t, p, sig, td, ht, hp, by simpa using hin, hchoose, ?_⟩
    dsimp only at h
    split at h
    next hz =>
      split at h
      next hign =>
        cases h
        exact .inl ⟨rfl, hz, by simpa [signalDefaultIgnored] using hign, rfl⟩
      · cases h
        exact .inr (.inl ⟨rfl, hz, rfl⟩)
    next hz =>
      split at h
      next hs =>
        cases h
        exact .inr (.inr (.inl ⟨rfl, hz, hs⟩))
      next e _ hs =>
        cases h
        exact .inr (.inr (.inr ⟨e, rfl, hz, hs⟩))
  · cases h
    exact .inl ⟨rfl, .inr rfl⟩

theorem deliverPendingSignal_inHandler (ht : c.kernel.currentThread = some t) (hin : t.inSignalHandler = true) :
    (deliverPendingSignal c).2 = c := by
  rcases deliverPendingSignal_cases (Prod.mk.eta (p := deliverPendingSignal c)).symm with ⟨h, -⟩ | ⟨u, p, _, _, hu, -, hno, -⟩
  · exact h
  · cases ht.symm.trans hu
    rw [hin] at hno
    cases hno

/-! ## The handler's run -/

/-- What happens between a delivery and `rt_sigreturn`: user code that leaves
any registers and memory, a whole `rt_sigprocmask` call, or anything else done
by the thread or by others. That may put the kernel in any state `kernel`, with
the thread current and its record rewritten by `f` up to its own signal
state. -/
inductive HandlerOp
  | user (frame : SyscallFrame) (mem : Mem)
  | sigprocmask (how set oldset size : Nat)
  | elsewhere (kernel : Kernel) (f : Thread → Thread)

/-- The thread's record rewritten, its masks and handler flags kept. -/
def Thread.keepSignals (t : Thread) (f : Thread → Thread) : Thread :=
  { f t with
    sigMask := t.sigMask
    savedSigMask := t.savedSigMask
    inSignalHandler := t.inSignalHandler
    onAltstack := t.onAltstack }

def HandlerOp.step (c : UserContext) : HandlerOp → Option UserContext
  | user frame mem => some { c with frame, user := mem }
  | sigprocmask how set oldset size =>
    let (r, c) := rtSigprocmask c how set oldset size
    some (finishSyscall c false (ret r))
  | elsewhere kernel f =>
    let kernel := { kernel with current := c.kernel.current }
    some { c with kernel := kernel.setThread c.kernel.current (c.kernel.currentThread.map fun t => t.keepSignals f) }

/-- The current thread is in a handler, with `mask` set aside. -/
def UserContext.Handling (c : UserContext) (mask : SigSet) : Prop :=
  ∃ t, c.kernel.currentThread = some t ∧ t.inSignalHandler = true ∧ t.savedSigMask = mask

theorem putWords_kernel {ptr : Nat} {ws : List Word} (h : c.putWords ptr ws = some c') :
    c'.kernel = c.kernel := by
  unfold UserContext.putWords at h
  split at h
  · cases h
    rfl
  · obtain ⟨user, -, rfl⟩ := Option.map_eq_some_iff.mp h
    rfl

theorem rtSigprocmask_kernel {how set oldset size : Nat} {r : Except SysError Word}
    (h : rtSigprocmask c how set oldset size = (r, c')) :
    c'.kernel = c.kernel ∨ ∃ t mask, c.kernel.currentThread = some t ∧
      c'.kernel = c.kernel.setThread c.kernel.current (some { t with sigMask := sanitizeSigmask mask }) := by
  unfold rtSigprocmask at h
  split at h
  · cases h
    exact .inl rfl
  split at h
  · cases h
    exact .inl rfl
  split at h
  · cases h
    exact .inl rfl
  next t ht =>
  split at h
  · cases h
    exact .inl rfl
  next c1 hput =>
  have hkernel : c1.kernel = c.kernel := putWords_kernel hput
  split at h
  · cases h
    exact .inl hkernel
  split at h
  · cases h
    exact .inl hkernel
  next ws _ =>
    cases h
    refine .inr ⟨t, combineMask how t.sigMask (sanitizeSigmask (SigSet.ofWords ws)), ht, ?_⟩
    simp only [UserContext.setThread, hkernel]

theorem rtSigaction_kernel {act oldact size : Nat} {r : Except SysError Word}
    (h : rtSigaction c sig act oldact size = (r, c')) :
    c'.kernel = c.kernel ∨ ∃ t p new, c.kernel.currentThread = some t ∧ c.kernel.processes t.groupSlot = some p ∧
      (new.handler ≠ 0 → new.restorer ≠ 0) ∧
      c'.kernel = c.kernel.setProcess t.groupSlot (some { p with sigHandlers := Function.update p.sigHandlers sig new }) := by
  unfold rtSigaction at h
  split at h
  · cases h
    exact .inl rfl
  split at h
  · cases h
    exact .inl rfl
  split at h
  next t p ht hp =>
    rw [Kernel.currentProcess, ht, Option.bind_some] at hp
    split at h
    · cases h
      exact .inl rfl
    next c1 hput =>
    have hkernel : c1.kernel = c.kernel := putWords_kernel hput
    split at h
    · cases h
      exact .inl hkernel
    split at h
    · cases h
      exact .inl hkernel
    next ws _ =>
    dsimp only at h
    split at h
    · cases h
      exact .inl hkernel
    split at h
    · cases h
      exact .inl hkernel
    next hrestorer =>
      cases h
      refine .inr ⟨t, p, SigAction.ofWords ws, ht, hp, fun hne hzero => hrestorer ⟨hne, .inr hzero⟩, ?_⟩
      rw [hkernel]
  · cases h
    exact .inl rfl

theorem UserContext.Handling.step {mask : SigSet} {op : HandlerOp} (h : c.Handling mask)
    (hs : HandlerOp.step c op = some c') : c'.Handling mask := by
  obtain ⟨t, ht, hin, hsaved⟩ := h
  cases op with
  | user frame mem =>
    cases hs
    exact ⟨t, ht, hin, hsaved⟩
  | sigprocmask how set oldset size =>
    cases hx : rtSigprocmask c how set oldset size with | mk r c1 =>
    simp only [HandlerOp.step, hx] at hs
    cases hs
    have h1 : c1.Handling mask := by
      rcases rtSigprocmask_kernel hx with hk | ⟨u, m, hu, hk⟩
      · exact ⟨t, by rw [hk]; exact ht, hin, hsaved⟩
      · cases ht.symm.trans hu
        refine ⟨{ t with sigMask := sanitizeSigmask m }, ?_, hin, hsaved⟩
        rw [hk, Kernel.currentThread, Kernel.setThread_current, Kernel.setThread_threads, Function.update_self]
    -- the call's own end finds the thread in its handler
    obtain ⟨u, hu, huin, -⟩ := id h1
    have hdone : finishSyscall c1 false (ret r) = c1.setRax (ret r) :=
      deliverPendingSignal_inHandler (c := c1.setRax (ret r)) hu huin
    rw [hdone]
    exact h1
  | elsewhere kernel f =>
    cases hs
    have hown : c.kernel.threads c.kernel.current = some t := ht
    refine ⟨t.keepSignals f, ?_, hin, hsaved⟩
    simp [Kernel.currentThread, hown]

theorem UserContext.Handling.of_delivered {c1 : UserContext} {td : Bool} (ht : c.kernel.currentThread = some t)
    (hdeliver : deliverPendingSignal c = (.handled sig td, c1)) :
    c1.Handling t.sigMask := by
  rcases deliverPendingSignal_cases hdeliver with ⟨-, hd | hd⟩ |
    ⟨u, p, s, _, hu, hp, -, -, ⟨hd, -⟩ | ⟨hd, -⟩ | ⟨hd, -, hstart⟩ | ⟨_, hd, -⟩⟩
  all_goals cases hd
  cases ht.symm.trans hu
  obtain ⟨ptr, user, onAltstack, -, hkernel, -⟩ := startHandler_ok hstart
  have hmask : (t.taken sig td).sigMask = t.sigMask := by
    unfold Thread.taken
    split <;> rfl
  refine ⟨(t.taken sig td).inHandler (p.sigHandlers sig) sig onAltstack, ?_, rfl, hmask⟩
  rw [hkernel, Kernel.currentThread, Kernel.setThread_current, Kernel.setThread_threads, Function.update_self]

/-- The thread after `rt_sigreturn`. -/
def Thread.returned (t : Thread) : Thread :=
  { t with sigMask := t.savedSigMask, inSignalHandler := false, onAltstack := false }

theorem rtSigreturn_ok {ws : List Word} (ht : c.kernel.currentThread = some t)
    (hread : copyWordsFromUser c.user c.frame.r10.toNat SyscallFrame.wordCount = some ws) :
    rtSigreturn c =
      (.ok (SyscallFrame.ofWords ws).rax, ({ c with frame := .ofWords ws } : UserContext).setThread t.returned) := by
  unfold rtSigreturn
  rw [hread]
  simp only [ht]
  rfl

/-- **A handler leaves no trace.** Whatever call returned `ret` to whatever
frame, a delivery that starts a handler, any run of the handler, and an
`rt_sigreturn` made with the delivered stack pointer popped once and the saved
frame intact give back every register, with the call's result, and the mask,
and the thread is in no handler and on no alternate stack. -/
theorem sigreturn_restores (c c1 c2 : UserContext) (result : Word) (t : Thread) (sig : Nat) (threadDirected : Bool)
    (ops : List HandlerOp) (ht : c.kernel.currentThread = some t)
    (hdeliver : deliverPendingSignal (c.setRax result) = (.handled sig threadDirected, c1))
    (hrun : Lts.exec HandlerOp.step c1 ops = some c2) (hrsp : c2.frame.r10 = c1.frame.r10 + 8)
    (hintact : ∀ a, c1.frame.r10.toNat + 8 ≤ a → a < c1.frame.r10.toNat + 128 → c2.user a = c1.user a) :
    ∃ r c3 t', rtSigreturn c2 = (r, c3) ∧ (finishSyscall c3 true (ret r)).frame = { c.frame with rax := result } ∧
      (finishSyscall c3 true (ret r)).kernel.currentThread = some t' ∧ t'.sigMask = t.sigMask ∧
      t'.inSignalHandler = false ∧ t'.onAltstack = false := by
  rcases deliverPendingSignal_cases hdeliver with ⟨-, hd | hd⟩ |
    ⟨u, p, s, td, hu, hp, -, -, ⟨hd, -⟩ | ⟨hd, -⟩ | ⟨hd, -, hstart⟩ | ⟨_, hd, -⟩⟩
  all_goals cases hd
  cases ht.symm.trans hu
  obtain ⟨ptr, user, onAltstack, hend, -, hframe, huser⟩ := startHandler_ok hstart
  have hptr : c1.frame.r10.toNat = ptr := by
    rw [hframe]
    simp only [userTop] at hend
    exact Nat.mod_eq_of_lt (by omega)
  have hr10 : c2.frame.r10.toNat = ptr + 8 := by
    rw [hrsp, BitVec.toNat_add, hptr]
    simp only [userTop] at hend
    exact Nat.mod_eq_of_lt (by simp; omega)
  obtain ⟨t2, ht2, -, hsaved⟩ := Lts.exec_invariant (fun c => c.Handling t.sigMask) (fun _ _ _ h hs => h.step hs)
    (.of_delivered (c := c.setRax result) ht hdeliver) hrun
  have hwords : loadWords c2.user c2.frame.r10.toNat SyscallFrame.wordCount = (c.setRax result).frame.words := by
    rw [hr10, loadWords_congr fun a h1 h2 => hintact a (by omega) (by simp only [SyscallFrame.wordCount] at h2; omega),
      huser]
    exact loadWords_storeWords
  have hcopy : copyWordsFromUser c2.user c2.frame.r10.toNat SyscallFrame.wordCount =
      some (c.setRax result).frame.words := by
    have hrange : userRangeOk c2.frame.r10.toNat (8 * SyscallFrame.wordCount) = true := by
      rw [hr10, userRangeOk_iff]
      simp only [SyscallFrame.wordCount]
      omega
    rw [copyWordsFromUser, if_pos hrange, hwords]
  refine ⟨_, _, t2.returned, rtSigreturn_ok ht2 hcopy, rfl, ?_, hsaved, rfl, rfl⟩
  simp [finishSyscall, UserContext.setRax, UserContext.setThread, Kernel.currentThread]

/-- A thread with signal 10 pending, which its process handles on the alternate
stack. -/
def caughtSignal : UserContext where
  kernel := ((Kernel.statics allFree ⟨0, 0⟩ 0).setProcess 0 (some
      { Process.newLeader 1 0 [] with
        sigHandlers := Function.update (fun _ => .empty) 10 ⟨0x400000, saRestorer ||| saOnstack, 0x400100, .empty⟩ })).setThread 0
    (some { Thread.newLeader 1 0 0 0 with sigPending := sigsetAdd .empty 10, sigAltstack := ⟨0x5000, 0, 0x1000⟩ })
  frame := ⟨1, 2, 3, 4, 5, 6, 7, 8, 9, 10, 11, 12, 13, 14, 15⟩
  user := fun _ => 0

/-- The handler blocks every signal it can and returns. -/
theorem sigreturn_restores_caughtSignal :
    ∃ c1 c2 r c3, deliverPendingSignal (caughtSignal.setRax 42) = (.handled 10 true, c1) ∧
      Lts.exec HandlerOp.step c1
        [.user c1.frame fun a => if a < 0x100 then 255 else c1.user a, .sigprocmask sigSetmask 0x10 0 sigsetSize,
          .user { c1.frame with rdi := 0, r10 := c1.frame.r10 + 8 } c1.user] = some c2 ∧
      rtSigreturn c2 = (r, c3) ∧ (finishSyscall c3 true (ret r)).frame = { caughtSignal.frame with rax := 42 } := by
  have hhandled : (deliverPendingSignal (caughtSignal.setRax 42)).1 = .handled 10 true := rfl
  generalize hd : deliverPendingSignal (caughtSignal.setRax 42) = x at hhandled
  obtain ⟨d, c1⟩ := x
  cases hhandled
  obtain ⟨c2, hrun⟩ : ∃ c2, Lts.exec HandlerOp.step c1
      [.user c1.frame fun a => if a < 0x100 then 255 else c1.user a, .sigprocmask sigSetmask 0x10 0 sigsetSize,
        .user { c1.frame with rdi := 0, r10 := c1.frame.r10 + 8 } c1.user] = some c2 := ⟨_, rfl⟩
  have hlast : c2.frame = { c1.frame with rdi := 0, r10 := c1.frame.r10 + 8 } ∧ c2.user = c1.user := by
    cases hrun
    exact ⟨rfl, rfl⟩
  obtain ⟨r, c3, t', hret, hframe, -⟩ := sigreturn_restores caughtSignal c1 c2 42 _ 10 true _ rfl hd hrun
    (by rw [hlast.1]) (fun a _ _ => by rw [hlast.2])
  exact ⟨c1, c2, r, c3, rfl, hrun, hret, hframe⟩

end CoreOS
