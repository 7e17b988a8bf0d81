/-
`fork` in a signal handler. A delivery sets the mask aside in the thread
(`saved_sig_mask`) and `rt_sigreturn` takes it back; a new thread inherits the
mask in force but nothing set aside. So the parent goes back to the mask before
the signal, and the child to no mask at all (`fork_in_handler_mask`).
-/
import CoreOS.CloneCall
import CoreOS.SignalReturn

namespace CoreOS

open ByteMem

/-! ## What a new thread inherits -/

/-- A thread was entered in the first free slot: it has the mask of the caller,
and no mask set aside. -/
structure Inherits (k k' : Kernel) (slot : Slot) (thread : Thread) : Prop where
  first : k.freeTaskSlot = some slot
  threads : k'.threads = Function.update k.threads slot (some thread)
  current : k'.current = k.current
  mask : ∀ t, k.currentThread = some t → thread.sigMask = t.sigMask
  saved : thread.savedSigMask = .empty

variable {k k' : Kernel} {slot : Slot}

theorem Inherits.rewritten {k'' : Kernel} {thread thread' : Thread} (h : Inherits k k' slot thread)
    (hth : k''.threads = Function.update k'.threads slot (some thread')) (hcur : k''.current = k'.current)
    (hmask : thread'.sigMask = thread.sigMask) (hsaved : thread'.savedSigMask = thread.savedSigMask) :
    Inherits k k'' slot thread' where
  first := h.first
  threads := by rw [hth, h.threads, Function.update_idem]
  current := hcur.trans h.current
  mask t ht := hmask.trans (h.mask t ht)
  saved := hsaved.trans h.saved

theorem CloneMade.inherits {s : Phys} {flags childTidPtr : Word} {id : Nat} {task : Task} {thread : Thread}
    (m : CloneMade k k' s flags childTidPtr slot id task thread) : Inherits k k' slot thread := by
  obtain ⟨pt, group, tls, hpt, rfl⟩ := m.record
  refine ⟨m.first, m.threads, m.current, fun t ht => ?_, rfl⟩
  cases ht.symm.trans hpt
  rfl

theorem SpawnCall.inherits {call : SpawnCall} {id : Nat} (h : call.run k = some (.ok id, k')) :
    ∃ slot thread, Inherits k k' slot thread := by
  cases call with
  | fork framePtr =>
    rw [SpawnCall.run] at h
    by_cases hframe : framePtr = 0
    · rw [syscallFork, if_pos hframe] at h
      cases h
    · rw [syscallFork_eq k hframe] at h
      obtain ⟨⟨o, k1⟩, htask, he⟩ := Option.map_eq_some_iff.mp h
      obtain ⟨ho, rfl⟩ := Prod.mk.inj he
      cases o with
      | error e => cases ho
      | ok x =>
        obtain ⟨s, task, thread, m⟩ := cloneTask_made htask
        exact ⟨x.1, thread, m.inherits⟩
  | clone flags childStack parentTidPtr childTidPtr framePtr =>
    rw [SpawnCall.run] at h
    unfold syscallCloneImpl at h
    split at h
    · cases h
    split at h
    · cases h
    · cases h
    next slot childId k1 hmade =>
      obtain ⟨s, task, thread, m⟩ := cloneTask_made hmade
      rcases cloneFinishIds_cases m.hasTask m.hasThread h with ⟨hr, -⟩ | ⟨-, -, s, -, rfl⟩
      · cases hr
      · exact ⟨slot, _, m.inherits.rewritten rfl rfl rfl rfl⟩

/-! ## Both ways back -/

variable {t : Thread}

theorem Inherits.returned {k1 : Kernel} {thread : Thread} (h : Inherits k k1 slot thread)
    (ht : k.currentThread = some t) (htask : (k.tasks k.current).isSome) (frame frame' : SyscallFrame)
    (user user' : Mem) (k' : Kernel) (hread : (copyWordsFromUser user frame.r10.toNat SyscallFrame.wordCount).isSome)
    (hread' : (copyWordsFromUser user' frame'.r10.toNat SyscallFrame.wordCount).isSome) (hcur : k'.current = slot)
    (hsame : k'.threads slot = k1.threads slot) :
    slot ≠ k1.current ∧ (rtSigreturn ⟨k1, frame, user⟩).2.kernel.currentThread = some t.returned ∧
      (rtSigreturn ⟨k', frame', user'⟩).2.kernel.currentThread = some thread.returned := by
  have hne : slot ≠ k.current := by
    rintro rfl
    rw [Kernel.freeTaskSlot_spec h.first] at htask
    cases htask
  obtain ⟨ws, hws⟩ := Option.isSome_iff_exists.mp hread
  obtain ⟨ws', hws'⟩ := Option.isSome_iff_exists.mp hread'
  have hparent : k1.currentThread = some t := by
    rw [Kernel.currentThread, h.current, h.threads, Function.update_of_ne hne.symm]
    exact ht
  have hchild : k'.currentThread = some thread := by
    rw [Kernel.currentThread, hcur, hsame, h.threads, Function.update_self]
  rw [rtSigreturn_ok (c := ⟨k1, frame, user⟩) hparent hws, rtSigreturn_ok (c := ⟨k', frame', user'⟩) hchild hws', h.current]
  exact ⟨hne, Function.update_self .., Function.update_self ..⟩

/-- **The mask of a process made in a handler.** A thread enters a handler, runs
any code in it, and calls `fork` (or `clone`); the parent returns from the
handler, and so does the child with the record the call left it. Both have left
the handler. The parent has the mask from before the signal, and the child has
none: they agree exactly when that mask was empty. -/
theorem fork_in_handler_mask (c c1 c2 : UserContext) (t : Thread) (sig : Nat) (threadDirected : Bool)
    (ops : List HandlerOp) (call : SpawnCall) (id : Nat) (k : Kernel) (ht : c.kernel.currentThread = some t)
    (hdeliver : deliverPendingSignal c = (.handled sig threadDirected, c1))
    (hrun : Lts.exec HandlerOp.step c1 ops = some c2) (htask : (c2.kernel.tasks c2.kernel.current).isSome)
    (hcall : call.run c2.kernel = some (.ok id, k)) :
    ∃ slot, c2.kernel.freeTaskSlot = some slot ∧
      ∀ (frame frame' : SyscallFrame) (user user' : Mem) (k' : Kernel),
        (copyWordsFromUser user frame.r10.toNat SyscallFrame.wordCount).isSome →
        (copyWordsFromUser user' frame'.r10.toNat SyscallFrame.wordCount).isSome →
        k'.current = slot → k'.threads slot = k.threads slot →
        ∃ parent child, slot ≠ k.current ∧ (rtSigreturn ⟨k, frame, user⟩).2.kernel.currentThread = some parent ∧
          (rtSigreturn ⟨k', frame', user'⟩).2.kernel.currentThread = some child ∧
          parent.inSignalHandler = false ∧ child.inSignalHandler = false ∧ parent.sigMask = t.sigMask ∧
          (child.sigMask = parent.sigMask ↔ t.sigMask = .empty) := by
  obtain ⟨t2, ht2, -, hsaved⟩ := Lts.exec_invariant (fun c => c.Handling t.sigMask) (fun _ _ _ h hs => h.step hs)
    (.of_delivered ht hdeliver) hrun
  obtain ⟨slot, thread, hi⟩ := SpawnCall.inherits hcall
  refine ⟨slot, hi.first, fun frame frame' user user' k' hread hread' hcur hsame => ?_⟩
  obtain ⟨hne, hparent, hchild⟩ := hi.returned ht2 htask frame frame' user user' k' hread hread' hcur hsame
  refine ⟨t2.returned, thread.returned, hne, hparent, hchild, rfl, rfl, hsaved, ?_⟩
  show thread.savedSigMask = t2.savedSigMask ↔ _
  rw [hi.saved, hsaved]
  exact eq_comm

/-! ## A handler that forks -/

/-- A thread that blocks signal 12 has signal 10 pending, which its process
handles. -/
def maskedHandler : UserContext where
  kernel := (emptyProcess.setProcess 0 (some
      { Process.newLeader 1 0 [] with
        sigHandlers := Function.update (fun _ => .empty) 10 ⟨0x400000, saRestorer, 0x400100, .empty⟩ })).setThread 0
    (some { Thread.newLeader 1 0 0 0 with sigPending := sigsetAdd .empty 10, sigMask := sigsetAdd .empty 12 })
  frame := { SyscallFrame.zero with r10 := 0x8000 }
  user := fun _ => 0

theorem emptyTree_forks {p : Process} (hphys : k.phys = emptyTree) (hkernel : k.kernelPml4 = 1 * pageSize)
    (hpml4 : k.currentPml4 = 1 * pageSize) (hslot : k.freeTaskSlot ≠ none) (hp : k.currentProcess = some p) :
    ∃ id k', (SpawnCall.fork physicalOffset).run k = some (.ok id, k') := by
  have hc : SpaceCaller k 1 1 := ⟨hpml4, hphys ▸ emptyTree_userHalf, hkernel, by rw [hphys]; decide⟩
  refine hc.fork_ok hp (by decide) (hphys ▸ emptyTree_enough) ⟨hslot, 3, by decide, by decide, ?_, ?_⟩
  · rw [hphys]
    exact fun i _ => (emptyTree_isFree _).mpr (by omega)
  · -- the copy takes frame 2
    rw [hphys, emptyTree_cloneCost]
    have hmem : 2 ∈ emptyTree.avail := mem_avail.mpr ⟨by decide, by decide, (emptyTree_isFree _).mpr (Nat.le_refl 2)⟩
    exact Finset.card_pos.mpr ⟨2, Finset.mem_filter.mpr ⟨hmem, by decide⟩⟩

theorem maskedHandler_forks : ∃ c1 t id k, deliverPendingSignal maskedHandler = (.handled 10 true, c1) ∧
    c1.kernel.currentThread = some t ∧ sigsetContains t.savedSigMask 12 = true ∧
    (c1.kernel.tasks c1.kernel.current).isSome ∧ (SpawnCall.fork physicalOffset).run c1.kernel = some (.ok id, k) := by
  have hhandled : (deliverPendingSignal maskedHandler).1 = .handled 10 true := rfl
  have hphys : (deliverPendingSignal maskedHandler).2.kernel.phys = emptyTree := rfl
  have hkernel : (deliverPendingSignal maskedHandler).2.kernel.kernelPml4 = 1 * pageSize := rfl
  have hpml4 : (deliverPendingSignal maskedHandler).2.kernel.currentPml4 = 1 * pageSize := rfl
  have hslot : (deliverPendingSignal maskedHandler).2.kernel.freeTaskSlot = some 1 := by decide +kernel
  have htask : ((deliverPendingSignal maskedHandler).2.kernel.tasks
    (deliverPendingSignal maskedHandler).2.kernel.current).isSome = true := rfl
  have hthread : (deliverPendingSignal maskedHandler).2.kernel.currentThread.any
    (fun t => sigsetContains t.savedSigMask 12) = true := by decide +kernel
  have hprocess : (deliverPendingSignal maskedHandler).2.kernel.currentProcess.isSome = true := rfl
  generalize deliverPendingSignal maskedHandler = x at *
  obtain ⟨d, c1⟩ := x
  cases hhandled
  obtain ⟨t, ht, hmask⟩ := (Option.any_eq_true ..).mp hthread
  obtain ⟨p, hp⟩ := Option.isSome_iff_exists.mp hprocess
  obtain ⟨id, k, hk⟩ := emptyTree_forks hphys hkernel hpml4 (by rw [hslot]; exact Option.some_ne_none _) hp
  exact ⟨c1, t, id, k, rfl, ht, hmask, htask, hk⟩

theorem fork_in_handler_mask_maskedHandler : ∃ c1 id k slot parent child,
    deliverPendingSignal maskedHandler = (.handled 10 true, c1) ∧
      (SpawnCall.fork physicalOffset).run c1.kernel = some (.ok id, k) ∧
      (rtSigreturn ⟨k, maskedHandler.frame, fun _ => 0⟩).2.kernel.currentThread = some parent ∧
      (rtSigreturn ⟨{ k with current := slot }, maskedHandler.frame, fun _ => 0⟩).2.kernel.currentThread = some child ∧
      parent.inSignalHandler = false ∧ child.inSignalHandler = false ∧ parent.sigMask = sigsetAdd .empty 12 := by
  obtain ⟨c1, t, id, k, hd, ht, -, htask, hk⟩ := maskedHandler_forks
  obtain ⟨slot, -, hboth⟩ := fork_in_handler_mask maskedHandler c1 c1 _ 10 true [] _ id k rfl hd rfl htask hk
  obtain ⟨parent, child, -, hparent, hchild, hp, hc, hmask, -⟩ := hboth maskedHandler.frame maskedHandler.frame
    (fun _ => 0) (fun _ => 0) { k with current := slot } rfl rfl rfl rfl
  exact ⟨c1, id, k, slot, parent, child, hd, hk, hparent, hchild, hp, hc, hmask⟩

/-- The parent blocks signal 12 again, and the child does not. -/
theorem fork_in_handler_loses_mask : ∃ c1 id k slot parent child,
    deliverPendingSignal maskedHandler = (.handled 10 true, c1) ∧
      (SpawnCall.fork physicalOffset).run c1.kernel = some (.ok id, k) ∧ c1.kernel.freeTaskSlot = some slot ∧
      (rtSigreturn ⟨k, maskedHandler.frame, fun _ => 0⟩).2.kernel.currentThread = some parent ∧
      (rtSigreturn ⟨{ k with current := slot }, maskedHandler.frame, fun _ => 0⟩).2.kernel.currentThread = some child ∧
      sigsetContains parent.sigMask 12 = true ∧ sigsetContains child.sigMask 12 = false := by
  obtain ⟨c1, t, id, k, hd, ht, hmask, htask, hk⟩ := maskedHandler_forks
  obtain ⟨slot, thread, hi⟩ := SpawnCall.inherits hk
  obtain ⟨-, hparent, hchild⟩ := hi.returned ht htask maskedHandler.frame maskedHandler.frame (fun _ => 0)
    (fun _ => 0) { k with current := slot } rfl rfl rfl rfl
  refine ⟨c1, id, k, slot, t.returned, thread.returned, hd, hk, hi.first, hparent, hchild, hmask, ?_⟩
  show sigsetContains thread.savedSigMask 12 = false
  rw [hi.saved]
  decide

end CoreOS
