/-
Close-on-exec (`fd_flags` of `proc/fd.rs`) and the calls that create descriptors.
-/
import CoreOS.FdAtomic

namespace CoreOS

open ByteMem

/-! ## The flags of descriptors -/

variable {k k' : Kernel}

theorem getFdFlags_same (h : SameProcesses k k') : getFdFlags k' = getFdFlags k := by
  funext fd
  simp only [getFdFlags, Kernel.currentProcess, h.currentThread, h.processes]

theorem getFdFlags_of {t : Thread} {p : Process} (ht : k.currentThread = some t)
    (hp : k.processes t.groupSlot = some p) (fd : Nat) :
    getFdFlags k fd = if maxFds ≤ fd ∨ p.fds fd = .empty then none else some (p.fdFlags fd) := by
  rw [getFdFlags, currentProcess_of ht hp]
  rfl

/-- The descriptors `fds` have the flags `w`, all others the flags they had. -/
structure FillsFds (k k' : Kernel) (fds : List Nat) (w : BitVec 32) : Prop where
  new : ∀ fd ∈ fds, getFdFlags k' fd = some w
  other : ∀ fd, fd ∉ fds → getFdFlags k' fd = getFdFlags k fd

namespace FillsFds

variable {k k1 k2 k' : Kernel} {fd : Nat} {w : BitVec 32}

variable {target : FdTarget}

theorem setFd {t : Thread} {p : Process} (ht : k.currentThread = some t) (hp : k.processes t.groupSlot = some p)
    (hlt : fd < maxFds) (hne : target ≠ .empty) :
    FillsFds k (k.setFd t.groupSlot fd target w) [fd] w := by
  have ht' : (k.setFd t.groupSlot fd target w).currentThread = some t := Kernel.setFd_currentThread.trans ht
  have hflags := getFdFlags_of ht' (Kernel.setFd_processes fd target w hp)
  constructor
  · intro x hx
    obtain rfl := List.mem_singleton.mp hx
    rw [hflags, if_neg (by simp [hne, hlt])]
    simp
  · intro x hx
    rw [List.mem_singleton] at hx
    rw [hflags, getFdFlags_of ht hp]
    simp only [Function.update_of_ne hx]

variable {fds : List Nat}

theorem same_left (h : FillsFds k1 k' fds w) (hs : SameProcesses k k1) : FillsFds k k' fds w :=
  ⟨h.new, fun fd hfd => (h.other fd hfd).trans (congrFun (getFdFlags_same hs) fd)⟩

theorem same_right (h : FillsFds k k1 fds w) (hs : SameProcesses k1 k') : FillsFds k k' fds w :=
  ⟨fun fd hfd => (congrFun (getFdFlags_same hs) fd).trans (h.new fd hfd),
    fun fd hfd => (congrFun (getFdFlags_same hs) fd).trans (h.other fd hfd)⟩

theorem allocSpecificFd (hne : target ≠ .empty) (h : CoreOS.allocSpecificFd k target w = some (fd, k')) :
    FillsFds k k' [fd] w := by
  obtain ⟨t, p, ht, hp, hlt, -, rfl⟩ := allocSpecificFd_cases h
  exact .setFd ht hp hlt hne

theorem openCharDevice (h : CoreOS.openCharDevice k target = some (fd, k')) :
    FillsFds k k' [fd] 0 := by
  unfold CoreOS.openCharDevice at h
  split at h
  · exact .allocSpecificFd (by decide) h
  · exact .allocSpecificFd (by decide) h
  · exact .allocSpecificFd (by decide) h
  · cases h

theorem openFile {fileIdx : Nat} {statusFlags : BitVec 32}
    (h : CoreOS.openFile k fileIdx statusFlags = (some fd, k')) : FillsFds k k' [fd] 0 := by
  unfold CoreOS.openFile at h
  split at h
  · cases h
  next i k1 ha =>
    have hsame : SameProcesses k k1 := by
      unfold FdOpen.alloc at ha
      split at ha
      · cases ha
        exact .setOpenFile
      · cases ha
    split at h
    next t p ht hcp =>
      have hp : k1.processes t.groupSlot = some p := by simpa [Kernel.currentProcess, ht] using hcp
      split at h
      next fd' hfd =>
        cases h
        exact (FillsFds.setFd ht hp (firstEmptyFd_spec hfd).1 (by simp)).same_left hsame
      · cases h
    · cases h

variable {oldFd minFd : Nat} {cloexec : Bool}

theorem dupFd {newFd : Option Nat} (hne : newFd ≠ some oldFd)
    (h : CoreOS.dupFd k oldFd minFd newFd cloexec = (some fd, k')) :
    FillsFds k k' [fd] (if cloexec then fdCloexec else 0) := by
  unfold CoreOS.dupFd at h
  split at h
  next t p ht hcp =>
    have hp : k.processes t.groupSlot = some p := by simpa [Kernel.currentProcess, ht] using hcp
    split at h
    · cases h
    split at h
    · cases h
    next hold =>
    split at h
    · cases h
    next fd' hsame =>
      -- only the descriptor itself is its own copy
      cases newFd with
      | none =>
        unfold dupDest at hsame
        dsimp only at hsame
        split at hsame <;> cases hsame
      | some new =>
        unfold dupDest at hsame
        dsimp only at hsame
        split at hsame
        · cases hsame
        · split at hsame
          next he => exact absurd (congrArg some he) hne
          · cases hsame
    next fd' hdest =>
      obtain ⟨hlt, -⟩ := dupDest_spec hdest hold
      dsimp only at h
      split at h
      · cases h
      next k2 hk2 =>
        cases h
        have hretain : SameProcesses _ k2 := .retain hk2
        by_cases hempty : p.fds fd = .empty
        · rw [if_pos hempty] at hretain
          have ht2 : k2.currentThread = some t := hretain.currentThread.trans ht
          have hp2 : k2.processes t.groupSlot = some p := hretain.processes ▸ hp
          exact (FillsFds.setFd ht2 hp2 hlt hold).same_left hretain
        · rw [if_neg hempty] at hretain
          have hclosed := (SameProcesses.release (k := k.setFd t.groupSlot fd .empty (p.fdFlags fd)) (p.fds fd)).trans hretain
          have ht2 : k2.currentThread = some t :=
            hclosed.currentThread.trans (Kernel.setFd_currentThread.trans ht)
          have hp1 := Kernel.setFd_processes fd .empty (p.fdFlags fd) hp
          have hp2 := hclosed.processes ▸ hp1
          have hfill := FillsFds.setFd (w := if cloexec then fdCloexec else 0) ht2 hp2 hlt hold
          refine ⟨hfill.new, fun x hx => (hfill.other x hx).trans ?_⟩
          have hx' : x ≠ fd := fun he => hx (List.mem_singleton.mpr he)
          rw [getFdFlags_of ht2 hp2, getFdFlags_of ht hp]
          simp only [Function.update_of_ne hx']
  · cases h

theorem append {fds' : List Nat} (h : FillsFds k k1 fds w) (h' : FillsFds k1 k' fds' w) :
    FillsFds k k' (fds ++ fds') w := by
  constructor
  · intro x hx
    by_cases hx' : x ∈ fds'
    · exact h'.new x hx'
    · exact (h'.other x hx').trans (h.new x ((List.mem_append.mp hx).resolve_right hx'))
  · intro x hx
    rw [List.mem_append, not_or] at hx
    exact (h'.other x hx.2).trans (h.other x hx.1)

theorem setFdFlags (h : CoreOS.setFdFlags k fd w = some k') : FillsFds k k' [fd] w := by
  obtain ⟨t, p, ht, hp, hlt, hne, rfl⟩ := setFdFlags_cases h
  have hset := getFdFlags_of (k := k.setProcess t.groupSlot (some { p with fdFlags := Function.update p.fdFlags fd w }))
    ht (Function.update_self ..)
  constructor
  · intro x hx
    obtain rfl := List.mem_singleton.mp hx
    rw [hset, if_neg (by simp [hne, hlt])]
    simp
  · intro x hx
    rw [List.mem_singleton] at hx
    rw [hset, getFdFlags_of ht hp]
    simp only [Function.update_of_ne hx]

theorem again {w' : BitVec 32} (h : FillsFds k k1 fds w') (h' : FillsFds k1 k' fds w) :
    FillsFds k k' fds w :=
  ⟨h'.new, fun fd hfd => (h'.other fd hfd).trans (h.other fd hfd)⟩

/-! ### `open` -/

theorem fdOrBad {r : Option Nat × Kernel} (h : CoreOS.fdOrBad r = (.ok fd, k')) : r = (some fd, k') := by
  obtain ⟨_ | fd', k1⟩ := r
  · cases h
  · cases h
    rfl

variable {flags : BitVec 64}

theorem openPath {name : List Char} (h : CoreOS.openPath k name flags = (.ok fd, k')) :
    FillsFds k k' [fd] 0 := by
  rcases openPath_eq k name flags with ⟨-, e, he⟩ | ⟨-, fs, idx, -, he⟩
  · rw [he] at h
    cases h
  · rw [he] at h
    have hsame : SameProcesses k (k.setFs fs) := ⟨rfl, rfl, rfl, rfl⟩
    exact (FillsFds.openFile (fdOrBad h)).same_left hsame

theorem openDevice (h : CoreOS.fdOrBad (openSpecialPath.openDevice k target) = (.ok fd, k')) :
    FillsFds k k' [fd] 0 := by
  have hdev := fdOrBad h
  unfold openSpecialPath.openDevice at hdev
  split at hdev
  next ho =>
    cases hdev
    exact .openCharDevice ho
  · cases hdev

theorem dupMin (h : CoreOS.fdOrBad (CoreOS.dupMin k oldFd minFd cloexec) = (.ok fd, k')) :
    FillsFds k k' [fd] (if cloexec then fdCloexec else 0) :=
  .dupFd (by simp) (fdOrBad h)

theorem syscallOpen {raw : List Byte} (h : CoreOS.syscallOpen k raw flags = (.ok fd, k')) :
    FillsFds k k' [fd] 0 := by
  unfold CoreOS.syscallOpen at h
  split at h
  next r hr =>
    subst h
    unfold openSpecialPath at hr
    split at hr
    · cases hr
    split at hr
    · exact .openDevice (Option.some.inj hr)
    split at hr
    · exact .openDevice (Option.some.inj hr)
    split at hr
    · exact .openDevice (Option.some.inj hr)
    split at hr
    · exact .dupMin (Option.some.inj hr)
    split at hr
    · exact .dupMin (Option.some.inj hr)
    split at hr
    · exact .dupMin (Option.some.inj hr)
    split at hr
    · split at hr
      · cases hr
      · exact .openPath (Option.some.inj hr)
    · cases hr
  · split at h
    · cases h
    · exact .openPath h

/-! ### `pipe2` -/

theorem allocPipe {r q : Nat} (h : CoreOS.allocPipe k = (some (r, q), k')) :
    r < maxFds ∧ q < maxFds ∧ FillsFds k k' [r, q] 0 := by
  unfold CoreOS.allocPipe at h
  split at h
  · cases h
  next j k1 ha =>
    have hsame : SameProcesses k k1 := by
      unfold FdPipe.alloc at ha
      split at ha
      · cases ha
        exact .setPipe
      · cases ha
    split at h
    · cases h
    next r' k2 hr =>
      split at h
      next q' k3 hq =>
        cases h
        obtain ⟨-, -, -, -, hrlt, -, -⟩ := allocSpecificFd_cases hr
        obtain ⟨-, -, -, -, hqlt, -, -⟩ := allocSpecificFd_cases hq
        have hread := FillsFds.allocSpecificFd (by simp) hr
        have hwrite := FillsFds.allocSpecificFd (by simp) hq
        exact ⟨hrlt, hqlt, (hread.append hwrite).same_left hsame⟩
      · cases h

end FillsFds

variable {fd : Nat}

theorem SameProcesses.setStatusFlags {flags : BitVec 32} (h : CoreOS.setStatusFlags k fd flags = some k') :
    SameProcesses k k' := by
  have hpipe : ∀ {k'}, FdPipe.setStatusFlags k fd flags = some k' → SameProcesses k k' := by
    intro k' h
    obtain ⟨e, -, rfl⟩ := Option.map_eq_some_iff.mp h
    exact .setPipe
  unfold CoreOS.setStatusFlags at h
  split at h
  · cases h
    exact .refl k
  · cases h
    exact .refl k
  · cases h
    exact .refl k
  · cases h
    exact .refl k
  · unfold FdOpen.setStatusFlags at h
    split at h
    · cases h
      exact .setOpenFile
    · cases h
  · exact hpipe h
  · exact hpipe h
  · cases h
  · cases h

variable {flags : BitVec 64} {r : Nat}

theorem pipe2End_ok (h : pipe2End k flags fd = (.ok r, k')) :
    (flags &&& oCloexec ≠ 0 ∧ FillsFds k k' [fd] fdCloexec) ∨ (flags &&& oCloexec = 0 ∧ SameProcesses k k') := by
  unfold pipe2End at h
  split at h
  · cases h
  next k1 hk1 =>
    have hsame : SameProcesses k1 k' := by
      split at h
      · cases h
      next k2 hk2 =>
        cases h
        split at hk2
        · exact .setStatusFlags hk2
        · cases hk2
          exact .refl _
    split at hk1
    next hflag => exact .inl ⟨hflag, (FillsFds.setFdFlags hk1).same_right hsame⟩
    next hflag =>
      cases hk1
      exact .inr ⟨not_not.mp hflag, hsame⟩

/-- The flags a call asks for. -/
def askedFlags (flags : BitVec 64) : BitVec 32 := if flags &&& oCloexec ≠ 0 then fdCloexec else 0

theorem pipe2_ends {k1 k2 : Kernel} {q x y : Nat} (h1 : pipe2End k flags r = (.ok x, k1))
    (h2 : pipe2End k1 flags q = (.ok y, k2)) {k0 : Kernel} (h : FillsFds k0 k [r, q] 0) :
    FillsFds k0 k2 [r, q] (askedFlags flags) := by
  unfold askedFlags
  rcases pipe2End_ok h1 with ⟨hflag, hr⟩ | ⟨hflag, hr⟩
  · rcases pipe2End_ok h2 with ⟨-, hq⟩ | ⟨hno, -⟩
    · rw [if_pos hflag]
      exact h.again (hr.append hq)
    · exact absurd hno hflag
  · rcases pipe2End_ok h2 with ⟨hyes, -⟩ | ⟨-, hq⟩
    · exact absurd hflag hyes
    · rw [if_neg (not_not.mpr hflag)]
      exact h.same_right (hr.trans hq)

/-- The two descriptors that stand in user memory after a pipe was made. -/
def pipeFds (user : Mem) (pipefdPtr : Nat) : List Nat :=
  [fdOfBytes ((load user pipefdPtr 8).take 4), fdOfBytes ((load user pipefdPtr 8).drop 4)]

theorem FillsFds.syscallPipe2 {user user' : Mem} {pipefdPtr : Nat}
    (h : CoreOS.syscallPipe2 k user pipefdPtr flags = (.ok r, k', user')) :
    FillsFds k k' (pipeFds user' pipefdPtr) (askedFlags flags) := by
  unfold CoreOS.syscallPipe2 at h
  split at h
  · cases h
  split at h
  · cases h
  next k1 user1 hpipe =>
    -- the descriptors of the new pipe are what stands in memory
    obtain ⟨rd, wr, hrd, hwr, hfill, huser⟩ : ∃ rd wr, rd < maxFds ∧ wr < maxFds ∧ FillsFds k k1 [rd, wr] 0 ∧
        load user1 pipefdPtr 8 = toBytes 4 rd ++ toBytes 4 wr := by
      unfold syscallPipe at hpipe
      split at hpipe
      · cases hpipe
      split at hpipe
      · cases hpipe
      next rd wr k2 ha =>
        obtain ⟨hrd, hwr, hfill⟩ := FillsFds.allocPipe ha
        split at hpipe
        next user2 hcopy =>
          cases hpipe
          unfold copyToUser at hcopy
          split at hcopy
          · cases hcopy
            have hload := load_store user pipefdPtr (toBytes 4 rd ++ toBytes 4 wr)
            rw [List.length_append, toBytes_length, toBytes_length] at hload
            exact ⟨rd, wr, hrd, hwr, hfill, hload⟩
          · cases hcopy
        · cases hpipe
    have hfds : fdOfBytes ((load user1 pipefdPtr 8).take 4) = rd ∧ fdOfBytes ((load user1 pipefdPtr 8).drop 4) = wr := by
      have htake : (toBytes 4 rd ++ toBytes 4 wr).take 4 = toBytes 4 rd := List.take_left' toBytes_length
      have hdrop : (toBytes 4 rd ++ toBytes 4 wr).drop 4 = toBytes 4 wr := List.drop_left' toBytes_length
      rw [huser, htake, hdrop, fdOfBytes_toBytes hrd, fdOfBytes_toBytes hwr]
      exact ⟨rfl, rfl⟩
    split at h
    · cases h
    next raw hraw =>
      unfold copyFromUser at hraw
      split at hraw
      · cases hraw
        split at h
        · cases h
        next x k2 hend1 =>
          cases hend2 : pipe2End k2 flags (fdOfBytes ((load user1 pipefdPtr 8).drop 4)) with
          | mk r2 k3 =>
            rw [hend2] at h
            cases h
            unfold pipeFds
            refine pipe2_ends hend1 hend2 ?_
            rw [hfds.1, hfds.2]
            exact hfill
      · cases hraw

/-! ## The calls -/

/-- The calls that create descriptors and can be asked to have them closed on
`exec`. -/
inductive CreatingCall
  | syscallOpen (raw : List Byte) (flags : BitVec 64)
  | openat (dirfd : BitVec 64) (raw : List Byte) (flags : BitVec 64)
  | dup3 (oldFd newFd : Nat) (flags : BitVec 64)
  | pipe2 (user : Mem) (pipefdPtr : Nat) (flags : BitVec 64)
  | dupfdCloexec (fd : Nat) (arg : BitVec 64)

namespace CreatingCall

/-- The descriptor a call returns and the state it leaves, if it succeeds. -/
def created : Except SysError Nat × Kernel → Option (List Nat × Kernel)
  | (.ok fd, k) => some ([fd], k)
  | (.error _, _) => none

/-- The descriptors a successful call creates, with the state after it. -/
def run (k : Kernel) : CreatingCall → Option (List Nat × Kernel)
  | .syscallOpen raw flags => created (CoreOS.syscallOpen k raw flags)
  | .openat dirfd raw flags => created (CoreOS.openat k dirfd raw flags)
  | .dup3 oldFd newFd flags => created (syscallDup3 k oldFd newFd flags)
  | .pipe2 user pipefdPtr flags =>
    match syscallPipe2 k user pipefdPtr flags with
    | (.ok _, k, user) => some (pipeFds user pipefdPtr, k)
    | (.error _, _, _) => none
  | .dupfdCloexec fd arg => created (syscallFcntl k fd fDupfdCloexec arg)

/-- Close-on-exec was asked for. -/
def requested : CreatingCall → Bool
  | .syscallOpen _ flags | .openat _ _ flags | .dup3 _ _ flags | .pipe2 _ _ flags => flags &&& oCloexec ≠ 0
  | .dupfdCloexec .. => true

def isOpen : CreatingCall → Bool
  | .syscallOpen .. | .openat .. => true
  | _ => false

/-- What `F_GETFD` answers. -/
def getfd (k : Kernel) (fd : Nat) : Except SysError Nat := (syscallFcntl k fd fGetfd 0).1

/-- A call that created `fds` on the way from `k` to `k'`: `F_GETFD` reports
`FD_CLOEXEC` of the new descriptors exactly if it was asked for, and of all others
what it reported before. -/
def Honoured (call : CreatingCall) (k k' : Kernel) (fds : List Nat) : Prop :=
  (∀ fd ∈ fds, getfd k' fd = .ok (if call.requested then fdCloexec.toNat else 0)) ∧
  ∀ fd, fd ∉ fds → getfd k' fd = getfd k fd

theorem getfd_eq (k : Kernel) (fd : Nat) :
    getfd k fd = (getFdFlags k fd).elim (.error .badFd) fun flags => .ok flags.toNat := by
  unfold getfd syscallFcntl
  rw [if_neg (by decide), if_neg (by decide), if_pos rfl]
  cases getFdFlags k fd with
  | none => rfl
  | some flags => rfl

variable {fds : List Nat} {k' : Kernel}

theorem created_some {r : Except SysError Nat × Kernel} (h : created r = some (fds, k')) :
    ∃ fd, fds = [fd] ∧ r = (.ok fd, k') := by
  obtain ⟨e | fd, k1⟩ := r
  · cases h
  · cases h
    exact ⟨fd, rfl, rfl⟩

variable {k : Kernel} {call : CreatingCall}

/-- **What a creating call does to the flags.** `open` leaves the new descriptor
without flags, the others set what was asked for. -/
theorem run_fills (h : call.run k = some (fds, k')) :
    FillsFds k k' fds (if call.requested && !call.isOpen then fdCloexec else 0) := by
  cases call with
  | syscallOpen raw flags =>
    obtain ⟨fd, rfl, hr⟩ := created_some h
    simp only [isOpen, Bool.not_true, Bool.and_false, Bool.false_eq_true, if_false]
    exact .syscallOpen hr
  | openat dirfd raw flags =>
    obtain ⟨fd, rfl, hr⟩ := created_some h
    simp only [isOpen, Bool.not_true, Bool.and_false, Bool.false_eq_true, if_false]
    unfold CoreOS.openat at hr
    split at hr
    · exact .syscallOpen hr
    · cases hr
  | dup3 oldFd newFd flags =>
    obtain ⟨fd, rfl, hr⟩ := created_some h
    unfold syscallDup3 at hr
    split at hr
    · cases hr
    split at hr
    · cases hr
    next hne =>
      have hfill := FillsFds.dupFd (fun he => hne (Option.some.inj he).symm) (FillsFds.fdOrBad hr)
      simpa only [requested, isOpen, Bool.not_false, Bool.and_true] using hfill
  | pipe2 user pipefdPtr flags =>
    unfold run at h
    dsimp only at h
    split at h
    next r k1 user' hp =>
      cases h
      have hfill := FillsFds.syscallPipe2 hp
      simpa only [requested, isOpen, Bool.not_false, Bool.and_true, askedFlags, decide_eq_true_eq] using hfill
    · cases h
  | dupfdCloexec fd arg =>
    obtain ⟨fd', rfl, hr⟩ := created_some h
    unfold syscallFcntl at hr
    rw [if_neg (by decide), if_pos rfl] at hr
    exact .dupMin hr

theorem open_one (h : call.run k = some (fds, k')) (hopen : call.isOpen = true) :
    ∃ fd, fds = [fd] := by
  cases call with
  | syscallOpen raw flags =>
    obtain ⟨fd, hfd, -⟩ := created_some h
    exact ⟨fd, hfd⟩
  | openat dirfd raw flags =>
    obtain ⟨fd, hfd, -⟩ := created_some h
    exact ⟨fd, hfd⟩
  | dup3 => cases hopen
  | pipe2 => cases hopen
  | dupfdCloexec => cases hopen

end CreatingCall

/-- **Close-on-exec is honoured by every creating call but `open`.** In every state and
for every path and flag word, after a successful `open`, `openat`, `dup3`, `pipe2` or
`F_DUPFD_CLOEXEC` the new descriptors report close-on-exec exactly if it was asked for,
and all others what they did, exactly if the call is not an `open` that asks for it. -/
theorem cloexec_honoured_iff (k k' : Kernel) (call : CreatingCall) (fds : List Nat)
    (hrun : call.run k = some (fds, k')) :
    call.Honoured k k' fds ↔ ¬ (call.isOpen = true ∧ call.requested = true) := by
  have hother : ∀ fd, fd ∉ fds → CreatingCall.getfd k' fd = CreatingCall.getfd k fd := by
    intro fd hfd
    rw [CreatingCall.getfd_eq, CreatingCall.getfd_eq, (CreatingCall.run_fills hrun).other fd hfd]
  have hnew : ∀ fd ∈ fds, CreatingCall.getfd k' fd =
      .ok (if call.requested && !call.isOpen then fdCloexec else 0).toNat := by
    intro fd hfd
    rw [CreatingCall.getfd_eq, (CreatingCall.run_fills hrun).new fd hfd]
    rfl
  constructor
  · rintro h ⟨hopen, hreq⟩
    obtain ⟨fd, hfd⟩ := CreatingCall.open_one hrun hopen
    have hmem : fd ∈ fds := hfd ▸ List.mem_singleton_self fd
    have hgot := h.1 fd hmem
    rw [hnew fd hmem, hopen, hreq] at hgot
    exact absurd (Except.ok.inj hgot) (by decide)
  · intro hcond
    refine ⟨fun fd hfd => ?_, hother⟩
    rw [hnew fd hfd]
    by_cases hreq : call.requested = true
    · have hopen : call.isOpen = false := by
        by_contra ho
        exact hcond ⟨by simpa using ho, hreq⟩
      rw [hreq, hopen]
      rfl
    · rw [Bool.not_eq_true] at hreq
      rw [hreq]
      rfl

theorem cloexec_honoured_iff_dup3 :
    ∃ k', (CreatingCall.dup3 3 7 oCloexec).run fileSharers = some ([7], k') ∧
      (CreatingCall.dup3 3 7 oCloexec).Honoured fileSharers k' [7] := by
  refine ⟨_, rfl, ?_⟩
  exact (cloexec_honoured_iff _ _ _ _ rfl).mpr (by decide)

/-- A process opens a file, and opens a device, to be closed on `exec`; `F_GETFD`
reports no flag of either. -/
theorem open_ignores_cloexec :
    ∃ k1 k2,
      (CreatingCall.syscallOpen (pathBytes ['/', 'a']) oCloexec).run fileSharers = some ([6], k1) ∧
      CreatingCall.getfd k1 6 = .ok 0 ∧
      (CreatingCall.syscallOpen devNull oCloexec).run fileSharers = some ([6], k2) ∧
      CreatingCall.getfd k2 6 = .ok 0 ∧
      ¬ (CreatingCall.syscallOpen devNull oCloexec).Honoured fileSharers k2 [6] := by
  have hrun : ∀ {raw : List Byte}, (syscallOpen fileSharers raw oCloexec).1.toOption = some 6 →
      ∃ k', (CreatingCall.syscallOpen raw oCloexec).run fileSharers = some ([6], k') := by
    intro raw hfd
    show ∃ k', CreatingCall.created (syscallOpen fileSharers raw oCloexec) = some ([6], k')
    generalize syscallOpen fileSharers raw oCloexec = r at hfd
    obtain ⟨e | fd, k'⟩ := r
    · cases hfd
    · cases hfd
      exact ⟨k', rfl⟩
  have hflags : ∀ {raw : List Byte} {k' : Kernel},
      (CreatingCall.syscallOpen raw oCloexec).run fileSharers = some ([6], k') →
      CreatingCall.getfd k' 6 = .ok 0 := by
    intro raw k' h
    have hfill := CreatingCall.run_fills h
    simp only [CreatingCall.isOpen, Bool.not_true, Bool.and_false, Bool.false_eq_true, if_false] at hfill
    rw [CreatingCall.getfd_eq, hfill.new 6 (List.mem_singleton_self 6)]
    rfl
  obtain ⟨k1, h1⟩ := hrun (show (syscallOpen fileSharers (pathBytes ['/', 'a']) oCloexec).1.toOption = some 6 by
    decide +kernel)
  obtain ⟨k2, h2⟩ := hrun (show (syscallOpen fileSharers devNull oCloexec).1.toOption = some 6 by decide +kernel)
  refine ⟨k1, k2, h1, hflags h1, h2, hflags h2, fun h => ?_⟩
  have hgot := h.1 6 (List.mem_singleton_self 6)
  rw [hflags h2] at hgot
  exact absurd (Except.ok.inj hgot) (by decide)

end CoreOS
