/-
The way of an exit code from a child to its parent: the argument of `exit`, the
`exit_code` of the record, the result of `waitpid` in the register that also
carries errors (`result::ret`), and what the C library makes of it
(`syscall_ret` in `libcshim.h`).
-/
import CoreOS.Waitpid

namespace CoreOS

open ByteMem

/-- `syscall_ret`: what a program sees of the register, a `long`. -/
def syscallRet (ret : Word) : Int := if ret.toInt < 0 ∧ -4095 ≤ ret.toInt then -1 else ret.toInt

/-- The codes that are taken for errors. -/
def LooksLikeError (code : Word) : Prop := -4095 ≤ code.toInt ∧ code.toInt ≤ -2

instance {code : Word} : Decidable (LooksLikeError code) := inferInstanceAs (Decidable (_ ∧ _))

theorem errno_toInt (e : SysError) : (errno e).toInt = -(errnoCode e : Int) := by
  cases e <;> decide

theorem errno_looksLikeError (e : SysError) : LooksLikeError (errno e) := by
  unfold LooksLikeError
  rw [errno_toInt]
  cases e <;> decide

/-- **What the register keeps apart.** -/
theorem ret_decodes_iff (code : Word) :
    (syscallRet (ret (.ok code)) = code.toInt ∧ ∀ e, ret (.ok code) ≠ ret (.error e)) ↔ ¬ LooksLikeError code := by
  constructor
  · rintro ⟨hdec, -⟩ ⟨hlow, hhigh⟩
    rw [ret, syscallRet, if_pos ⟨by omega, hlow⟩] at hdec
    omega
  · intro h
    constructor
    · unfold LooksLikeError at h
      rw [ret, syscallRet]
      split
      next hneg => omega
      · rfl
    · intro e he
      rw [ret, ret] at he
      exact h (he ▸ errno_looksLikeError e)

/-! ## The record -/

/-- The record at slot `g` is that of an exited child, with its code. -/
def ExitedWith (k : Kernel) (g : Slot) (pid : Nat) (code : Int) : Prop :=
  ∃ p, k.processes g = some p ∧ p.pid = pid ∧ p.state = .zombie ∧ p.exitCode = code

variable {g : Slot} {pid : Nat} {code : Int}

theorem Undisturbed.exitedWith {k k' : Kernel} (h : Undisturbed k k') (he : ExitedWith k g pid code) :
    ExitedWith k' g pid code := by
  obtain ⟨p, hp, hpid, hz, hc⟩ := he
  obtain ⟨p', hp', hf⟩ := exists_of_map_eq (h.processes g).symm hp
  obtain ⟨hpid', hs', -, hc'⟩ := Process.fate_eq hf
  exact ⟨p', hp', hpid'.symm.trans hpid, hs'.symm.trans hz, hc'.symm.trans hc⟩

variable {k k' : Kernel} {t : Thread} {p : Process}

theorem exitThread_exitedWith (ht : k.currentThread = some t) (hp : k.processes t.groupSlot = some p) (code : Int)
    {wholeGroup : Bool} (hlast : wholeGroup = true ∨ p.threadCount ≤ 1) :
    (k.exitThread code wholeGroup).1 = true ∧ ExitedWith (k.exitThread code wholeGroup).2 t.groupSlot p.pid code := by
  unfold Kernel.exitThread
  rw [ht]
  have hsame : (k.setThread k.current (some { t with state := .zombie })).processes t.groupSlot = some p := hp
  dsimp only
  rw [hsame]
  dsimp only
  by_cases hw : wholeGroup = true
  · rw [if_pos hw]
    refine ⟨rfl, { p with state := .zombie, exitCode := code, threadCount := 0 }, ?_, rfl, rfl, rfl⟩
    rw [((Kernel.exitGroupThread_round _ _).loop (List.nodup_finRange _)).2.2.2.2]
    simp
  · have hcount : p.threadCount - 1 = 0 := by
      rcases hlast with h | h
      · exact absurd h hw
      · omega
    rw [if_neg hw, if_pos hcount]
    exact ⟨rfl, { p with state := .zombie, exitCode := code, threadCount := 0 }, by simp, rfl, rfl, rfl⟩

theorem killTask_exitedWith (c : Slot) (h : ExitedWith k g pid code) :
    ExitedWith (k.killTask c) g pid code := by
  unfold ExitedWith at *
  rwa [Kernel.killTask_tables.2]

/-- `exit` of the last thread of a process, or `exit_group` of any. -/
def EndsProcess (op : LifeOp) (code : Int) (p : Process) : Prop :=
  (op = .exit code ∧ p.threadCount ≤ 1) ∨ op = .exitGroup code

theorem EndsProcess.exitedWith {op : LifeOp} (h : EndsProcess op code p) (ht : k.currentThread = some t)
    (hp : k.processes t.groupSlot = some p) (hs : op.step k = some k') : ExitedWith k' t.groupSlot p.pid code := by
  rcases h with ⟨rfl, hlast⟩ | rfl
  · obtain ⟨hdead, hexit⟩ : (k.exitThread code false).1 = true ∧ _ := exitThread_exitedWith ht hp code (.inr hlast)
    obtain rfl : syscallExit k code = k' := Option.some.inj hs
    unfold syscallExit
    dsimp only
    rw [if_pos hdead]
    exact killTask_exitedWith _ ((Undisturbed.notifyParentExit _).exitedWith hexit)
  · obtain ⟨-, hexit⟩ := exitThread_exitedWith ht hp code (.inl rfl)
    obtain rfl : syscallExitGroup k code = k' := Option.some.inj hs
    exact killTask_exitedWith _ ((Undisturbed.notifyParentExit _).exitedWith hexit)

theorem waitpidRound_exited {code : Word} (h : ExitedWith k g pid code.toInt) :
    ∃ k', waitpidRound k g = some (.ok code, k') := by
  obtain ⟨p, hp, -, hz, hc⟩ := h
  have hnot : k.isRunningInSlot g = false := by
    rw [Kernel.isRunningInSlot, hp]
    simp [hz]
  refine ⟨((releaseFds k p.fds).setProcess g none).setThread g none, ?_⟩
  rw [waitpidRound, hnot, if_neg (by decide), reapSlot, hp]
  dsimp only
  rw [if_pos hz, hc]
  dsimp only
  rw [BitVec.ofInt_toInt]

/-! ## The whole way -/

def LifeOp.reaped : LifeOp → Option Slot
  | reap slot => some slot
  | _ => none

/-- Steps that leave the record at slot `g` to be waited for. -/
def Spares (g : Slot) (k : Kernel) (op : LifeOp) : Prop := op.Orderly k ∧ op.reaped ≠ some g

instance {g : Slot} {k : Kernel} {op : LifeOp} : Decidable (Spares g k op) := inferInstanceAs (Decidable (_ ∧ _))

theorem ExitedWith.step {op : LifeOp} (hk : LifeOK k) (h : ExitedWith k g pid code) (ho : Spares g k op)
    (hs : op.step k = some k') : ExitedWith k' g pid code := by
  obtain ⟨p, hp, hpid, hz, hc⟩ := h
  rcases (hk.step ho.1 hs).2.2 g p hp hz with hr | ⟨p', hp', hpid', hz', hc'⟩
  · subst hr
    exact absurd rfl ho.2
  · exact ⟨p', hp', hpid'.trans hpid, hz', hc'.trans hc⟩

/-- **Which exit codes survive.** A child ends by `exit` of its last thread or by
`exit_group`, with any code; after any steps that leave its record alone, a
`waitpid` on it gets that code. The parent's C library gives back the code, and the
result is no error's, exactly when it is not one of -4095 to -2. -/
theorem exit_code_survives_iff (phys : Phys) (addrs : CodeAddrs) (kernelPml4 stackBase : Nat) (before after : List LifeOp)
    (k k' : Kernel) (t : Thread) (p : Process) (code : Word) (op : LifeOp)
    (hbefore : Lts.Meets LifeOp.step LifeOp.Orderly ((Kernel.statics phys addrs kernelPml4).initMainTask stackBase) before)
    (hk : Lts.exec LifeOp.step ((Kernel.statics phys addrs kernelPml4).initMainTask stackBase) before = some k)
    (ht : k.currentThread = some t) (hp : k.processes t.groupSlot = some p) (hend : EndsProcess op code.toInt p)
    (hafter : Lts.Meets LifeOp.step (Spares t.groupSlot) k (op :: after))
    (hk' : Lts.exec LifeOp.step k (op :: after) = some k') :
    ∃ r k'', waitpidRound k' t.groupSlot = some (r, k'') ∧ ret r = code ∧
      ((syscallRet (ret r) = code.toInt ∧ ∀ e, ret r ≠ ret (.error e)) ↔ ¬ LooksLikeError code) := by
  have hboot : LifeOK ((Kernel.statics phys addrs kernelPml4).initMainTask stackBase) :=
    ⟨⟨nofun, nofun, nofun, nofun, nofun⟩, nofun⟩
  have hlife := Lts.exec_invariant_of_meets LifeOK (fun _ _ _ hi ho hs => (hi.step ho hs).1) hboot hbefore hk
  obtain ⟨k1, hk1, hrest⟩ := Lts.exec_cons.mp hk'
  have hexited := hend.exitedWith ht hp hk1
  have hlife1 := (hlife.step hafter.1.1 hk1).1
  obtain ⟨-, hlast⟩ := Lts.exec_invariant_of_meets (fun k => LifeOK k ∧ ExitedWith k t.groupSlot p.pid code.toInt)
    (fun k op k' hi ho hs => ⟨(hi.1.step ho.1 hs).1, hi.2.step hi.1 ho hs⟩) ⟨hlife1, hexited⟩ (hafter.2 k1 hk1) hrest
  obtain ⟨k'', hround⟩ := waitpidRound_exited hlast
  exact ⟨.ok code, k'', hround, rfl, ret_decodes_iff code⟩

/-- A program is started and forks, and its child runs. -/
def childRuns : List LifeOp := [.exec 0 0 0 [], .switch, .fork 0 0, .switch]

theorem exit_code_survives_iff_seven :
    ∃ k k' k'' r, Lts.exec LifeOp.step ((Kernel.statics allFree ⟨0, 0⟩ 0).initMainTask 0) childRuns = some k ∧
      Lts.exec LifeOp.step k [.exit 7, .switch, .switch] = some k' ∧ waitpidRound k' 2 = some (r, k'') ∧
      syscallRet (ret r) = 7 := by
  have hrun : (Lts.exec LifeOp.step ((Kernel.statics allFree ⟨0, 0⟩ 0).initMainTask 0) childRuns).map
      (fun k => (k.currentThread.map Thread.groupSlot, (k.processes 2).map Process.threadCount,
        (Lts.exec LifeOp.step k [.exit 7, .switch, .switch]).isSome,
        decide (Lts.Meets LifeOp.step (Spares 2) k [.exit 7, .switch, .switch]))) =
      some (some 2, some 1, true, true) := by decide +kernel
  obtain ⟨k, hk, he⟩ := Option.map_eq_some_iff.mp hrun
  simp only [Prod.mk.injEq, Option.map_eq_some_iff, decide_eq_true_eq, Option.isSome_iff_exists] at he
  obtain ⟨⟨t, ht, hg⟩, ⟨p, hp, hcount⟩, ⟨k', hk'⟩, hafter⟩ := he
  have hend : EndsProcess (.exit 7) (7 : Word).toInt p := .inl ⟨rfl, Nat.le_of_eq hcount⟩
  obtain ⟨r, k'', hround, -, hiff⟩ := exit_code_survives_iff allFree ⟨0, 0⟩ 0 0 childRuns [.switch, .switch] k k' t p 7
    (.exit 7) (by decide +kernel) hk ht (hg ▸ hp) hend (hg ▸ hafter) hk'
  exact ⟨k, k', k'', r, hk, hk', hg ▸ hround, (hiff.mpr (by decide)).1⟩

/-- **A code that is lost.** The child exits with -22. What its parent gets is what
`waitpid` returns for an invalid argument, and the C library makes it -1. -/
theorem exit_code_taken_for_error :
    ∃ k k' k'' r, Lts.exec LifeOp.step ((Kernel.statics allFree ⟨0, 0⟩ 0).initMainTask 0) childRuns = some k ∧
      Lts.exec LifeOp.step k [.exit (-22), .switch, .switch] = some k' ∧ waitpidRound k' 2 = some (r, k'') ∧
      ret r = ret (.error .invalid) ∧ syscallRet (ret r) = -1 := by
  have hrun : (Lts.exec LifeOp.step ((Kernel.statics allFree ⟨0, 0⟩ 0).initMainTask 0) childRuns).map
      (fun k => (Lts.exec LifeOp.step k [.exit (-22), .switch, .switch]).map fun k' =>
        (waitpidRound k' 2).map fun r => (ret r.1, syscallRet (ret r.1))) =
      some (some (some (ret (.error .invalid), -1))) := by decide +kernel
  obtain ⟨k, hk, he⟩ := Option.map_eq_some_iff.mp hrun
  obtain ⟨k', hk', he⟩ := Option.map_eq_some_iff.mp he
  obtain ⟨⟨r, k''⟩, hround, he⟩ := Option.map_eq_some_iff.mp he
  obtain ⟨hret, hdec⟩ := Prod.mk.inj he
  exact ⟨k, k', k'', r, hk, hk', hround, hret, hdec⟩

end CoreOS
