/-
`waitpid` (`syscall_waitpid_impl`): the pid is looked up once, and the slot it
was found in is then polled until no running process is there, across any
number of context switches.
-/
import CoreOS.Lib.Numbered
import CoreOS.LifeFrame

namespace CoreOS

open ByteMem
open Function (update update_of_ne)

/-! ## The call -/

/-- `waitpid` up to its loop: the slot it is going to poll. -/
def waitpidTarget (k : Kernel) (pid : Nat) : Except SysError Slot :=
  if ¬ 0 < pid then .error .invalid
  else
    match k.findSlotByPid pid with
    | none => .error .noEntry
    | some slot =>
      if ¬ slot ≠ k.current then .error .invalid
      else
        match k.processes slot with
        | none => .error .noEntry
        | some target => if ¬ target.parentPid = k.currentPid then .error .child else .ok slot

/-- One round of the loop, `none` when the caller is to yield and look again. -/
def waitpidRound (k : Kernel) (slot : Slot) : Option (Except SysError Word × Kernel) :=
  if k.isRunningInSlot slot then none
  else
    match reapSlot k slot with
    | none => some (.error .invalid, k)
    | some (code, k) => some (.ok (BitVec.ofInt 64 code), k)

variable {k : Kernel} {slot : Slot}

theorem waitpidRound_cases {k' : Kernel} {r : Except SysError Word} (h : waitpidRound k slot = some (r, k')) :
    (r = .error .invalid ∧ k' = k) ∨ ∃ code, r = .ok (BitVec.ofInt 64 code) ∧ reapSlot k slot = some (code, k') := by
  unfold waitpidRound at h
  split at h
  · cases h
  split at h
  · cases h
    exact .inl ⟨rfl, rfl⟩
  next code k1 hr =>
    cases h
    exact .inr ⟨code, rfl, hr⟩

theorem waitpidTarget_spec {pid : Nat} (h : waitpidTarget k pid = .ok slot) :
    ∃ p, k.processes slot = some p ∧ p.pid = pid ∧ p.parentPid = k.currentPid := by
  unfold waitpidTarget at h
  split at h
  · cases h
  split at h
  · cases h
  next s hs =>
  split at h
  · cases h
  split at h
  · cases h
  next p hp =>
  split at h
  · cases h
  next hparent =>
    cases h
    unfold Kernel.findSlotByPid at hs
    have hfound := List.find?_some hs
    rw [hp] at hfound
    exact ⟨p, hp, by simpa using hfound, not_not.mp hparent⟩

/-! ## Runs -/

/-- A `waitpid` that has not returned: what it was asked for, by the process
with which pid, and the slot it polls. -/
structure Wait where
  pid : Nat
  caller : Nat
  slot : Slot

/-- A record that a `waitpid` took: its serial number, the wait, and the status
that was returned. -/
structure Reap where
  serial : Nat
  record : Process
  pid : Nat
  caller : Nat
  status : Word

/-- `born` numbers the process records in the order of their creation. -/
structure WaitRun where
  kernel : Kernel
  waiting : Slot → Option Wait
  serial : Nat
  born : Slot → Nat
  reaps : List Reap

/-- `poll` is one round of the current task's `waitpid`. Of the other steps,
`reap` is what the kernel's own task does for the images it starts. -/
inductive WaitOp
  | life (op : LifeOp)
  | waitpid (pid : Nat)
  | poll

/-- The slot of the task that a step created. -/
def Kernel.newSlot (k k' : Kernel) : Option Slot := k.freeTaskSlot.filter fun slot => (k'.tasks slot).isSome

namespace WaitRun

/-- The kernel after a step. A new task waits for nothing, and a new process
takes the next number. -/
def after (s : WaitRun) (op : LifeOp) (k : Kernel) : WaitRun :=
  match s.kernel.newSlot k with
  | none => { s with kernel := k }
  | some slot =>
    let waiting := update s.waiting slot none
    if op.creates then
      { s with kernel := k, waiting, serial := s.serial + 1, born := update s.born slot s.serial }
    else { s with kernel := k, waiting }

/-- A task that waits goes on to poll, and does nothing else. -/
def step (s : WaitRun) : WaitOp → Option WaitRun
  | .life op => if (s.waiting s.kernel.current).isSome then none else (op.step s.kernel).map (s.after op)
  | .waitpid pid =>
    if (s.waiting s.kernel.current).isSome then none
    else
      match waitpidTarget s.kernel pid with
      | .error _ => some s
      | .ok slot => some { s with
          waiting := update s.waiting s.kernel.current (some ⟨pid, s.kernel.currentPid, slot⟩) }
  | .poll => do
    let w ← s.waiting s.kernel.current
    match waitpidRound s.kernel w.slot with
    | none => some { s with kernel := s.kernel.nextTaskSwitch.elim s.kernel Prod.snd }
    | some (status, k) =>
      let waiting := update s.waiting s.kernel.current none
      match status, s.kernel.processes w.slot with
      | .ok status, some p =>
        some { s with kernel := k, waiting, reaps := ⟨s.born w.slot, p, w.pid, w.caller, status⟩ :: s.reaps }
      | _, _ => some { s with kernel := k, waiting }

def boot (phys : Phys) (code : CodeAddrs) (kernelPml4 stackBase : Nat) : WaitRun where
  kernel := (Kernel.statics phys code kernelPml4).initMainTask stackBase
  waiting := fun _ => none
  serial := 0
  born := fun _ => 0
  reaps := []

end WaitRun

/-- The task in a slot is current, or may become so. -/
def Kernel.mayRun (k : Kernel) (x : Slot) : Bool := x = k.current || (k.tasks x).any (·.state ≠ .dead)

/-- The condition on a step: a process is not created in a slot that a task
which may still run is waiting on. -/
def WaitRun.Unawaited (s : WaitRun) : WaitOp → Prop
  | .life (.fork ..) | .life (.exec ..) =>
    ∀ x, s.kernel.mayRun x → (s.waiting x).all fun w => s.kernel.freeTaskSlot ≠ some w.slot
  | _ => True

instance {s : WaitRun} {op : WaitOp} : Decidable (s.Unawaited op) :=
  match op with
  | .life (.fork ..) | .life (.exec ..) => inferInstanceAs (Decidable (∀ _, _ → _))
  | .life (.cloneThread ..) | .life (.exit ..) | .life (.exitGroup ..) | .life (.kill ..) | .life (.tkill ..)
  | .life (.tgkill ..) | .life (.reap ..) | .life (.other ..) | .life (.finish ..) | .life (.fault ..)
  | .life .switch | .waitpid .. | .poll => inferInstanceAs (Decidable True)

/-! ## Who may run -/

namespace Kernel

variable {k k' : Kernel} {x : Slot}

theorem mayRun_iff : k.mayRun x = true ↔ x = k.current ∨ ∃ t, k.tasks x = some t ∧ t.state ≠ .dead := by
  simp [mayRun, Option.any_eq_true]

theorem Kills.mayRun (h : Kills k k') (hx : k'.mayRun x = true) : k.mayRun x = true := by
  rw [mayRun_iff, h.current] at hx
  refine mayRun_iff.mpr (hx.imp_right ?_)
  rintro ⟨t', ht', hd⟩
  cases ht : k.tasks x with
  | none =>
    rw [h.none ht] at ht'
    cases ht'
  | some t =>
    obtain ⟨t1, ht1, -, hs⟩ := h.some ht
    cases ht'.symm.trans ht1
    exact ⟨t, rfl, hs.resolve_right hd ▸ hd⟩

variable {slot : Slot} {k1 : Kernel}

theorem Spawned.mayRun (h : Spawned k slot k1) (hta : k'.tasks = k1.tasks) (hcur : k'.current = k.current)
    (hne : x ≠ slot) (hx : k'.mayRun x = true) : k.mayRun x = true := by
  obtain ⟨task, htasks, -⟩ := h.tasks
  rwa [mayRun_iff, hcur, hta, htasks, update_of_ne hne, ← mayRun_iff] at hx

theorem mayRun_of_switch {sw : SwitchTo} (h : k.nextTaskSwitch = some (sw, k')) (hx : k'.mayRun x = true) :
    k.mayRun x = true := by
  obtain ⟨hcur, hold⟩ := nextTaskSwitch_tasks h
  refine mayRun_iff.mpr (.inr ?_)
  rcases mayRun_iff.mp hx with rfl | ⟨t', ht', hd⟩
  · exact hcur
  · obtain ⟨t, ht, hdead⟩ := hold ht'
    exact ⟨t, ht, fun hs => hd (hdead hs)⟩

theorem newSlot_none (h : ∀ {x}, k.tasks x = none → k'.tasks x = none) : k.newSlot k' = none := by
  cases hfree : k.freeTaskSlot with
  | none => simp [newSlot, hfree]
  | some slot => simp [newSlot, hfree, h (freeTaskSlot_spec hfree)]

theorem Spawned.newSlot (h : Spawned k slot k1) (hta : k'.tasks = k1.tasks) :
    k.newSlot k' = some slot := by
  obtain ⟨task, htask, -⟩ := h.task_self
  simp [Kernel.newSlot, h.free, hta, htask]

end Kernel

/-! ## Every wait reaps its child -/

namespace WaitRun

/-- What is to hold of a record that was taken: it is the child that was waited
for, and its status was returned. -/
structure Rightful (r : Reap) : Prop where
  pid : r.record.pid = r.pid
  parent : r.record.parentPid = r.caller
  status : r.status = BitVec.ofInt 64 r.record.exitCode

/-- A record in a slot that is waited on is that of the child, and the records
that were taken are gone. -/
structure Kept (s : WaitRun) : Prop where
  waits : ∀ {x w p}, s.waiting x = some w → s.kernel.mayRun x = true → s.kernel.processes w.slot = some p →
    p.ident = (w.pid, w.caller)
  numbered : Numbered s.serial s.born s.kernel.processes
  rightful : ∀ r ∈ s.reaps, Rightful r
  gone : ∀ r ∈ s.reaps, r.serial < s.serial ∧ ∀ {x p}, s.kernel.processes x = some p → s.born x ≠ r.serial
  once : (s.reaps.map Reap.serial).Nodup

namespace Kept

variable {s t : WaitRun}

variable {slot : Slot} {w : Wait}

theorem cleared {x : Slot} (h : update s.waiting slot none x = some w) :
    x ≠ slot ∧ s.waiting x = some w := by
  by_cases hne : x = slot
  · simp [hne] at h
  · exact ⟨hne, by rwa [update_of_ne hne] at h⟩

variable {k : Kernel}

theorem shrink {waiting : Slot → Option Wait} (h : s.Kept)
    (hw : ∀ {x w}, waiting x = some w → k.mayRun x = true → s.waiting x = some w ∧ s.kernel.mayRun x = true)
    (hpr : ∀ {x p}, k.processes x = some p → ∃ q, s.kernel.processes x = some q ∧ p.ident = q.ident) :
    Kept { s with kernel := k, waiting } where
  waits hx hr hp := by
    obtain ⟨q, hq, hid⟩ := hpr hp
    exact hid.trans (h.waits (hw hx hr).1 (hw hx hr).2 hq)
  numbered := h.numbered.sub fun hp => by
    obtain ⟨q, hq, -⟩ := hpr hp
    exact ⟨q, hq⟩
  rightful := h.rightful
  gone r hr := by
    refine ⟨(h.gone r hr).1, fun hp => ?_⟩
    obtain ⟨q, hq, -⟩ := hpr hp
    exact (h.gone r hr).2 hq
  once := h.once

variable {p : Process}

theorem create (h : s.Kept) (hpr : k.processes = update s.kernel.processes slot (some p))
    (hrun : ∀ {x}, x ≠ slot → k.mayRun x = true → s.kernel.mayRun x = true)
    (hfree : ∀ {x w}, s.kernel.mayRun x = true → s.waiting x = some w → w.slot ≠ slot) :
    Kept { s with
      kernel := k
      waiting := update s.waiting slot none
      serial := s.serial + 1
      born := update s.born slot s.serial } where
  waits := by
    intro x w q hx hr hq
    dsimp only at hx hr hq
    have hne : x ≠ slot := by
      rintro rfl
      simp at hx
    rw [update_of_ne hne] at hx
    rw [hpr, update_of_ne (hfree (hrun hne hr) hx)] at hq
    exact h.waits hx (hrun hne hr) hq
  numbered := by
    rw [hpr]
    exact h.numbered.insert slot p
  rightful := h.rightful
  gone := by
    intro r hr
    obtain ⟨hlt, hgone⟩ := h.gone r hr
    refine ⟨Nat.lt_succ_of_lt hlt, fun {x q} hq => ?_⟩
    dsimp only at hq ⊢
    rw [hpr] at hq
    by_cases hx : x = slot
    · rw [hx, Function.update_self]
      omega
    · rw [update_of_ne hx] at hq ⊢
      exact hgone hq
  once := h.once

theorem begin {pid : Nat} (h : s.Kept) (ht : waitpidTarget s.kernel pid = .ok slot) :
    Kept { s with
      waiting := update s.waiting s.kernel.current (some ⟨pid, s.kernel.currentPid, slot⟩) } where
  waits := by
    intro x w p hx hr hp
    dsimp only at hx hr hp
    by_cases hcur : x = s.kernel.current
    · obtain ⟨q, hq, hpid, hparent⟩ := waitpidTarget_spec ht
      rw [hcur, Function.update_self] at hx
      cases hx
      cases hq.symm.trans hp
      exact Prod.ext hpid hparent
    · rw [update_of_ne hcur] at hx
      exact h.waits hx hr hp
  numbered := h.numbered
  rightful := h.rightful
  gone := h.gone
  once := h.once

theorem take {code : Int} (h : s.Kept) (hw : s.waiting s.kernel.current = some w)
    (hr : reapSlot s.kernel w.slot = some (code, k)) (hp : s.kernel.processes w.slot = some p) :
    Kept { s with
      kernel := k
      waiting := update s.waiting s.kernel.current none
      reaps := ⟨s.born w.slot, p, w.pid, w.caller, BitVec.ofInt 64 code⟩ :: s.reaps } := by
  obtain ⟨q, hq, -, rfl, hpr, -, hta, hcur⟩ := reapSlot_spec hr
  cases hp.symm.trans hq
  have hold : ∀ {x p'}, k.processes x = some p' → x ≠ w.slot ∧ s.kernel.processes x = some p' := by
    intro x p' hp'
    rw [hpr] at hp'
    by_cases hx : x = w.slot
    · simp [hx] at hp'
    · exact ⟨hx, by rwa [update_of_ne hx] at hp'⟩
  have hrest : Kept { s with kernel := k, waiting := update s.waiting s.kernel.current none } := by
    refine h.shrink (fun {x w'} hx hr => ?_) fun {x p'} hp' => ?_
    · exact ⟨(cleared hx).2, (Kernel.Kills.of_tasks hcur hta).mayRun hr⟩
    · exact ⟨p', (hold hp').2, rfl⟩
  have hid := h.waits hw (Kernel.mayRun_iff.mpr (.inl rfl)) hp
  refine ⟨hrest.waits, hrest.numbered, fun r hr => ?_, fun r hr => ?_, ?_⟩
  · rcases List.mem_cons.mp hr with rfl | hr
    · exact ⟨congrArg Prod.fst hid, congrArg Prod.snd hid, rfl⟩
    · exact h.rightful r hr
  · rcases List.mem_cons.mp hr with rfl | hr
    · refine ⟨h.numbered.fresh hp, fun {x p'} hp' hnum => ?_⟩
      obtain ⟨hx, hp'⟩ := hold hp'
      exact hx (h.numbered.inj hp' hp hnum)
    · exact hrest.gone r hr
  · rw [List.map_cons, List.nodup_cons]
    refine ⟨fun hmem => ?_, h.once⟩
    obtain ⟨r, hr, hnum⟩ := List.mem_map.mp hmem
    exact (h.gone r hr).2 hp hnum.symm

theorem switch {sw : Kernel.SwitchTo} (h : s.Kept) (hsw : s.kernel.nextTaskSwitch = some (sw, k)) :
    Kept { s with kernel := k } := by
  refine h.shrink (fun hw hr => ⟨hw, Kernel.mayRun_of_switch hsw hr⟩) fun {x p} hp => ?_
  exact ⟨p, (nextTaskSwitch_tables hsw).1 ▸ hp, rfl⟩

theorem life {op : LifeOp} (h : s.Kept) (hC : s.Unawaited (.life op)) (hs : s.step (.life op) = some t) : t.Kept := by
  simp only [step] at hs
  split at hs
  · cases hs
  obtain ⟨k, hk, rfl⟩ := Option.map_eq_some_iff.mp hs
  have hsame : ∀ {k : Kernel}, (∀ x, (k.processes x).map Process.ident = (s.kernel.processes x).map Process.ident) →
      ∀ {x p}, k.processes x = some p → ∃ q, s.kernel.processes x = some q ∧ p.ident = q.ident :=
    fun hid _ _ hp => exists_of_map_eq (hid _) hp
  rcases LifeOp.step_cases hk with hl | ⟨slot, hpr, hta, hcur⟩ | ⟨slot, k1, p, hc, sp, hpr, hta, hcur⟩ |
    ⟨slot, k1, hc, sp, hid, hta, hcur⟩ | ⟨sw, hsw⟩
  · rw [after, Kernel.newSlot_none hl.kills.none]
    exact h.shrink (fun hw hr => ⟨hw, hl.kills.mayRun hr⟩) (hsame hl.idents)
  · have hkills : s.kernel.Kills k := .of_tasks hcur hta
    rw [after, Kernel.newSlot_none hkills.none]
    refine h.shrink (fun hw hr => ⟨hw, hkills.mayRun hr⟩) fun {x p} hp => ?_
    rw [hpr] at hp
    by_cases hx : x = slot
    · simp [hx] at hp
    · exact ⟨p, by rwa [update_of_ne hx] at hp, rfl⟩
  · rw [after, sp.newSlot hta]
    simp only [hc, if_true]
    refine h.create hpr (fun hne hr => sp.mayRun hta hcur hne hr) fun {x w} hr hw => ?_
    have hfree : ((s.waiting x).all fun w => s.kernel.freeTaskSlot ≠ some w.slot) = true := by
      cases op <;> first | exact hC x hr | cases hc
    rw [hw, sp.free] at hfree
    rintro rfl
    simp at hfree
  · rw [after, sp.newSlot hta]
    simp only [hc, Bool.false_eq_true, if_false]
    refine h.shrink (fun hw hr => ?_) (hsame hid)
    obtain ⟨hne, hw⟩ := cleared hw
    exact ⟨hw, sp.mayRun hta hcur hne hr⟩
  · rw [after, Kernel.newSlot_none fun {x} hx => ?_]
    · exact h.switch hsw
    · cases ht : k.tasks x with
      | none => rfl
      | some t' =>
        obtain ⟨t, ht, -⟩ := (nextTaskSwitch_tasks hsw).2 ht
        rw [hx] at ht
        cases ht

theorem poll (h : s.Kept) (hs : s.step .poll = some t) : t.Kept := by
  simp only [step, Option.bind_eq_bind, Option.bind_eq_some_iff] at hs
  obtain ⟨w, hw, hs⟩ := hs
  have hend : Kept { s with waiting := update s.waiting s.kernel.current none } :=
    h.shrink (fun hx hr => ⟨(cleared hx).2, hr⟩) fun hp => ⟨_, hp, rfl⟩
  split at hs
  · cases hs
    cases hsw : s.kernel.nextTaskSwitch with
    | none => exact h
    | some x => exact h.switch hsw
  next r k hround =>
    rcases waitpidRound_cases hround with ⟨rfl, rfl⟩ | ⟨code, rfl, hr⟩
    · cases hs
      exact hend
    · obtain ⟨p, hp, -⟩ := reapSlot_spec hr
      simp only [hp] at hs
      cases hs
      exact h.take hw hr hp

theorem step {op : WaitOp} (h : s.Kept) (hC : s.Unawaited op) (hs : s.step op = some t) : t.Kept := by
  cases op with
  | life op => exact h.life hC hs
  | waitpid pid =>
    simp only [WaitRun.step] at hs
    split at hs
    · cases hs
    split at hs
    · cases hs
      exact h
    next slot htarget =>
      cases hs
      exact h.begin htarget
  | poll => exact h.poll hs

end Kept

end WaitRun

/-- **Every wait reaps its child.** In every run from boot in which no process
is created in a slot that is waited on, each record that a `waitpid` took has
the pid that was asked for and the caller's pid as its parent, its exit status
is what was returned, and no process was taken twice. -/
theorem waitpid_reaps_its_child (phys : Phys) (code : CodeAddrs) (kernelPml4 stackBase : Nat) (ops : List WaitOp)
    (s : WaitRun)
    (hmeets : Lts.Meets WaitRun.step WaitRun.Unawaited (WaitRun.boot phys code kernelPml4 stackBase) ops)
    (h : Lts.exec WaitRun.step (WaitRun.boot phys code kernelPml4 stackBase) ops = some s) :
    (∀ r ∈ s.reaps, r.record.pid = r.pid ∧ r.record.parentPid = r.caller ∧
      r.status = BitVec.ofInt 64 r.record.exitCode) ∧
    (s.reaps.map Reap.serial).Nodup := by
  have hboot : (WaitRun.boot phys code kernelPml4 stackBase).Kept := ⟨nofun, .empty, nofun, nofun, .nil⟩
  have hs := Lts.exec_invariant_of_meets WaitRun.Kept (fun _ _ _ hi hC hs => hi.step hC hs) hboot hmeets h
  exact ⟨fun r hr => ⟨(hs.rightful r hr).pid, (hs.rightful r hr).parent, (hs.rightful r hr).status⟩, hs.once⟩

/-- A program starts a second thread and forks; both threads wait for the child,
which exits with code 7, and the first one reaps it. -/
def bothWait : List WaitOp :=
  [.life (.exec 0 0 0 []), .life .switch, .life (.cloneThread 0 0 0), .life (.fork 0 0), .waitpid 3, .poll,
    .waitpid 3, .poll, .life (.exit 7), .life .switch, .life .switch, .poll]

/-- The child was reaped, with its status. -/
theorem waitpid_reaps_its_child_bothWait :
    ∃ s r, Lts.exec WaitRun.step (WaitRun.boot allFree ⟨0, 0⟩ 0 0) bothWait = some s ∧ s.reaps = [r] ∧ r.pid = 3 ∧
      r.record.pid = 3 ∧ r.status = 7 := by
  have hrun : (Lts.exec WaitRun.step (WaitRun.boot allFree ⟨0, 0⟩ 0 0) bothWait).map
      (fun s => s.reaps.map fun r => (r.pid, r.status)) = some [(3, 7)] := rfl
  obtain ⟨s, hs, he⟩ := Option.map_eq_some_iff.mp hrun
  obtain ⟨r, hr, he⟩ := List.map_eq_singleton_iff.mp he
  obtain ⟨hpid, hstatus⟩ := Prod.mk.inj he
  have hmeets : Lts.Meets WaitRun.step WaitRun.Unawaited (WaitRun.boot allFree ⟨0, 0⟩ 0 0) bothWait := by
    decide +kernel
  obtain ⟨hchild, -, -⟩ := (waitpid_reaps_its_child _ _ _ _ _ s hmeets hs).1 r (by simp [hr])
  exact ⟨s, r, hs, hr, hpid, hchild.trans hpid, hstatus⟩

/-- **A wait takes another process's status.** After that the first thread forks
again. The new process gets the slot of the child, and the second thread, still
waiting for pid 3, reaps it. -/
theorem waitpid_reaps_another :
    ∃ s r, Lts.exec WaitRun.step (WaitRun.boot allFree ⟨0, 0⟩ 0 0) (bothWait ++ [.life (.fork 0 0), .life .switch, .poll,
        .life (.exit 9), .life .switch, .life .switch, .life .switch, .poll]) = some s ∧
      r ∈ s.reaps ∧ r.pid = 3 ∧ r.record.pid = 4 ∧ r.status = 9 := by
  have hrun : (Lts.exec WaitRun.step (WaitRun.boot allFree ⟨0, 0⟩ 0 0) (bothWait ++ [.life (.fork 0 0), .life .switch,
      .poll, .life (.exit 9), .life .switch, .life .switch, .life .switch, .poll])).map
        (fun s => s.reaps.map fun r => (r.pid, r.record.pid, r.status)) = some [(3, 4, 9), (3, 3, 7)] := by
    decide +kernel
  obtain ⟨s, hs, he⟩ := Option.map_eq_some_iff.mp hrun
  obtain ⟨r, rest, hr, he, -⟩ := List.map_eq_cons_iff.mp he
  simp only [Prod.mk.injEq] at he
  exact ⟨s, r, hs, by simp [hr], he.1, he.2.1, he.2.2⟩

end CoreOS
