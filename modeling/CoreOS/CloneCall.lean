/-
`clone` with the ids it writes to user memory, what it makes, and what `fork` and
`clone` leave behind when they fail.
-/
import CoreOS.ForkReturn
import CoreOS.KernelHalf

namespace CoreOS

open ByteMem
open Function (update_self update_of_ne)
open Option (map_eq_some_iff)

/-! ## The ids in user memory -/

/-- `copy_nonoverlapping` to addresses of the space at `pml4`. Without a page there
the kernel takes a fault it does not return from: `none`. -/
def Phys.storeUser (pml4 : Nat) : Nat → List Byte → Phys → Option Phys
  | _, [], s => some s
  | dst, byte :: bytes, s =>
    match s.translatePage pml4 (pageBase dst) with
    | none => none
    | some frame => storeUser pml4 (dst + 1) bytes (s.setMem (store s.mem (frame + dst % pageSize) [byte]))

/-- `copy_struct_to_user(ptr, &(id as i32))` in the caller's address space. -/
def Kernel.putIdToUser (k : Kernel) (ptr id : Nat) : Option (Bool × Kernel) :=
  if userRangeOk ptr 4 then (k.phys.storeUser k.currentPml4 ptr (toBytes 4 id)).map fun phys => (true, k.setPhys phys)
  else some (false, k)

/-- `cloneFinish` with its writes. -/
def cloneFinishIds (k : Kernel) (flags childStack parentTidPtr childTidPtr : Word) (slot : Slot) (childId : Nat) :
    Option (Except SysError Nat × Kernel) :=
  match if childStack = 0 then some k else k.setChildStack slot childStack with
  | none => some (.error .invalid, k)
  | some k =>
    match if flags &&& cloneChildSettid = 0 then some k else k.setClearChildTid slot childTidPtr.toNat with
    | none => some (.error .invalid, k)
    | some k =>
      match if flags &&& cloneChildSettid = 0 then some (true, k) else k.putIdToUser childTidPtr.toNat childId with
      | none => none
      | some (false, k) => some (.error .fault, k)
      | some (true, k) =>
        match if flags &&& cloneChildCleartid = 0 then some k else k.setClearChildTid slot childTidPtr.toNat with
        | none => some (.error .invalid, k)
        | some k =>
          -- `CLONE_PARENT_SETTID` is not looked at
          match if parentTidPtr = 0 then some (true, k) else k.putIdToUser parentTidPtr.toNat childId with
          | none => none
          | some (false, k) => some (.error .fault, k)
          | some (true, k) => some (.ok childId, k)

/-- `syscall_clone_impl`; the outer `none` is a panic or a fault. -/
def syscallCloneImpl (k : Kernel) (flags childStack parentTidPtr childTidPtr : Word) (framePtr : Nat) :
    Option (Except SysError Nat × Kernel) :=
  match cloneRefused flags with
  | some e => some (.error e, k)
  | none =>
    match cloneTask k flags childTidPtr framePtr with
    | none => none
    | some (.error e, k) => some (.error e, k)
    | some (.ok (slot, childId), k) => cloneFinishIds k flags childStack parentTidPtr childTidPtr slot childId

section Finish

variable {k k' : Kernel} {flags childStack parentTidPtr childTidPtr : Word} {slot : Slot} {childId : Nat}
  {r : Except SysError Nat}

theorem putIdToUser_step {c : Prop} [Decidable c] {ptr id : Nat} {b : Bool}
    (h : (if c then some (true, k) else k.putIdToUser ptr id) = some (b, k')) :
    (b = false ∧ ¬ c ∧ userRangeOk ptr 4 = false ∧ k' = k) ∨
    (b = true ∧ (¬ c → userRangeOk ptr 4 = true) ∧
      ∃ phys, (if c then some k.phys else k.phys.storeUser k.currentPml4 ptr (toBytes 4 id)) = some phys ∧
        k' = k.setPhys phys) := by
  split at h
  next hc =>
    cases h
    exact .inr ⟨rfl, fun hn => absurd hc hn, k.phys, if_pos hc, rfl⟩
  next hc =>
    unfold Kernel.putIdToUser at h
    split at h
    next hok =>
      obtain ⟨phys, hphys, he⟩ := map_eq_some_iff.mp h
      cases he
      exact .inr ⟨rfl, fun _ => hok, phys, (if_neg hc).trans hphys, rfl⟩
    next hok =>
      cases h
      exact .inl ⟨rfl, hc, by simpa using hok, rfl⟩

/-- Where `clone` puts the stack of its child. -/
def Phys.withChildStack (s : Phys) (task : Task) (childStack : Word) : Phys :=
  if childStack = 0 then s else s.setMem (storeWord s.mem (Kernel.taskFrameWord task 14) childStack)

/-- The two writes of the id, one after the other. -/
def Phys.storeIds (s : Phys) (pml4 : Nat) (flags parentTidPtr childTidPtr : Word) (id : Nat) : Option Phys :=
  (if flags &&& cloneChildSettid = 0 then some s else s.storeUser pml4 childTidPtr.toNat (toBytes 4 id)).bind fun s =>
    if parentTidPtr = 0 then some s else s.storeUser pml4 parentTidPtr.toNat (toBytes 4 id)

/-- The pointers that `clone` writes to are user addresses. -/
def IdPointersOk (flags parentTidPtr childTidPtr : Word) : Prop :=
  (flags &&& cloneChildSettid ≠ 0 → userRangeOk childTidPtr.toNat 4 = true) ∧
    (parentTidPtr ≠ 0 → userRangeOk parentTidPtr.toNat 4 = true)

theorem setChildStack_step {task : Task} (htask : k.tasks slot = some task) :
    (if childStack = 0 then some k else k.setChildStack slot childStack) =
      some (k.setPhys (k.phys.withChildStack task childStack)) := by
  unfold Phys.withChildStack
  split
  · rfl
  · rw [Kernel.setChildStack, htask]
    rfl

theorem setClearChildTid_step {thread : Thread} {c : Prop} [Decidable c] {ptr : Nat} (hthread : k.threads slot = some thread) :
    (if c then some k else k.setClearChildTid slot ptr) =
      some (k.setThread slot (some { thread with clearChildTid := if c then thread.clearChildTid else ptr })) := by
  split
  · refine congrArg some ?_
    rw [Kernel.setThread, ← hthread, Function.update_eq_self]
  · rw [Kernel.setClearChildTid, hthread]
    rfl

theorem cloneFinishIds_cases {task : Task} {thread : Thread} (htask : k.tasks slot = some task)
    (hthread : k.threads slot = some thread)
    (h : cloneFinishIds k flags childStack parentTidPtr childTidPtr slot childId = some (r, k')) :
    (r = .error .fault ∧ ¬ IdPointersOk flags parentTidPtr childTidPtr ∧ k'.tasks = k.tasks ∧
      ∀ x, x ≠ slot → k'.threads x = k.threads x) ∨
    (r = .ok childId ∧ IdPointersOk flags parentTidPtr childTidPtr ∧ ∃ s,
      (k.phys.withChildStack task childStack).storeIds k.currentPml4 flags parentTidPtr childTidPtr childId = some s ∧
      k' = (k.setPhys s).setThread slot (some
        { thread with
          clearChildTid := if flags &&& cloneChildCleartid = 0 ∧ flags &&& cloneChildSettid = 0
            then thread.clearChildTid else childTidPtr.toNat })) := by
  unfold cloneFinishIds at h
  rw [setChildStack_step htask] at h
  dsimp only at h
  generalize hs1 : k.phys.withChildStack task childStack = s1 at h ⊢
  rw [setClearChildTid_step (show (k.setPhys s1).threads slot = some thread from hthread)] at h
  dsimp only at h
  generalize ht1 : ({ thread with clearChildTid := _ } : Thread) = t1 at h
  cases hput : (if flags &&& cloneChildSettid = 0 then some (true, (k.setPhys s1).setThread slot (some t1))
      else ((k.setPhys s1).setThread slot (some t1)).putIdToUser childTidPtr.toNat childId) with
  | none =>
    rw [hput] at h
    cases h
  | some x =>
  obtain ⟨b, k2⟩ := x
  rw [hput] at h
  rcases putIdToUser_step hput with ⟨rfl, hset, hbad, rfl⟩ | ⟨rfl, hok1, s2, hs2, rfl⟩
  · cases h
    refine .inl ⟨rfl, fun hp => ?_, rfl, fun x hx => update_of_ne hx ..⟩
    rw [hp.1 hset] at hbad
    cases hbad
  dsimp only at h
  have hthread2 : (((k.setPhys s1).setThread slot (some t1)).setPhys s2).threads slot = some t1 := update_self ..
  rw [setClearChildTid_step hthread2] at h
  dsimp only at h
  generalize ht2 : ({ t1 with clearChildTid := _ } : Thread) = t2 at h
  generalize hk3 : (((k.setPhys s1).setThread slot (some t1)).setPhys s2).setThread slot (some t2) = k3 at h
  cases hput : (if parentTidPtr = 0 then some (true, k3) else k3.putIdToUser parentTidPtr.toNat childId) with
  | none =>
    rw [hput] at h
    cases h
  | some x =>
  obtain ⟨b, k4⟩ := x
  rw [hput] at h
  subst hk3
  rcases putIdToUser_step hput with ⟨rfl, hset, hbad, rfl⟩ | ⟨rfl, hok2, s3, hs3, rfl⟩
  · cases h
    refine .inl ⟨rfl, fun hp => ?_, rfl, fun x hx => (update_of_ne hx ..).trans (update_of_ne hx ..)⟩
    rw [hp.2 hset] at hbad
    cases hbad
  cases h
  refine .inr ⟨rfl, ⟨hok1, hok2⟩, s3, ?_, ?_⟩
  · unfold Phys.storeIds
    refine (congrArg (Option.bind · _) hs2).trans ?_
    exact hs3
  · subst ht1 ht2
    rw [ite_and]
    exact congrArg (fun threads => ({ k with phys := s3, threads } : Kernel)) (Function.update_idem ..)

/-- **The two forms of the end of `clone`** differ in memory alone. -/
theorem cloneFinishIds_eq (h : cloneFinishIds k flags childStack parentTidPtr childTidPtr slot childId = some (r, k')) :
    ∃ s, r = (cloneFinish k flags childStack parentTidPtr childTidPtr slot childId).1 ∧
      k' = (cloneFinish k flags childStack parentTidPtr childTidPtr slot childId).2.setPhys s := by
  unfold cloneFinishIds at h
  unfold cloneFinish
  cases hstack : (if childStack = 0 then some k else k.setChildStack slot childStack) with
  | none =>
    rw [hstack] at h
    cases h
    exact ⟨k.phys, rfl, rfl⟩
  | some k1 =>
  rw [hstack] at h
  dsimp only at h ⊢
  cases hset : (if flags &&& cloneChildSettid = 0 then some k1 else k1.setClearChildTid slot childTidPtr.toNat) with
  | none =>
    rw [hset] at h
    cases h
    exact ⟨k'.phys, rfl, rfl⟩
  | some k2 =>
  rw [hset] at h
  dsimp only at h ⊢
  cases hput : (if flags &&& cloneChildSettid = 0 then some (true, k2) else k2.putIdToUser childTidPtr.toNat childId) with
  | none =>
    rw [hput] at h
    cases h
  | some x =>
  obtain ⟨b, k3⟩ := x
  rw [hput] at h
  rcases putIdToUser_step hput with ⟨rfl, hc, hbad, rfl⟩ | ⟨rfl, hok, s, -, rfl⟩
  · cases h
    rw [if_pos ⟨hc, by rw [hbad]; decide⟩]
    exact ⟨k'.phys, rfl, rfl⟩
  have hclear : (if flags &&& cloneChildCleartid = 0 then some (k2.setPhys s)
      else (k2.setPhys s).setClearChildTid slot childTidPtr.toNat) =
      (if flags &&& cloneChildCleartid = 0 then some k2 else k2.setClearChildTid slot childTidPtr.toNat).map (·.setPhys s) := by
    split
    · rfl
    · unfold Kernel.setClearChildTid
      rw [Option.map_map]
      rfl
  rw [if_neg fun hc => hc.2 (hok hc.1)]
  dsimp only at h
  rw [hclear] at h
  cases hk4 : (if flags &&& cloneChildCleartid = 0 then some k2 else k2.setClearChildTid slot childTidPtr.toNat) with
  | none =>
    rw [hk4] at h
    cases h
    exact ⟨s, rfl, rfl⟩
  | some k4 =>
  rw [hk4, Option.map_some] at h
  dsimp only at h ⊢
  cases hput : (if parentTidPtr = 0 then some (true, k4.setPhys s) else (k4.setPhys s).putIdToUser parentTidPtr.toNat childId) with
  | none =>
    rw [hput] at h
    cases h
  | some x =>
  obtain ⟨b, k5⟩ := x
  rw [hput] at h
  rcases putIdToUser_step hput with ⟨rfl, hc, hbad, rfl⟩ | ⟨rfl, hok, s', -, rfl⟩
  · cases h
    rw [if_pos ⟨hc, by rw [hbad]; decide⟩]
    exact ⟨s, rfl, rfl⟩
  · cases h
    rw [if_neg fun hc => hc.2 (hok hc.1)]
    exact ⟨s', rfl, rfl⟩

/-- **The two forms of `clone`** give the same answer and the same tables. -/
theorem syscallCloneImpl_eq {framePtr : Nat}
    (h : syscallCloneImpl k flags childStack parentTidPtr childTidPtr framePtr = some (r, k')) :
    ∃ k1 s, syscallClone k flags childStack parentTidPtr childTidPtr framePtr = some (r, k1) ∧ k' = k1.setPhys s := by
  unfold syscallCloneImpl at h
  unfold syscallClone
  cases hflags : cloneRefused flags with
  | some e =>
    rw [hflags] at h
    cases h
    exact ⟨k, k.phys, rfl, rfl⟩
  | none =>
  rw [hflags] at h
  dsimp only at h ⊢
  cases htask : cloneTask k flags childTidPtr framePtr with
  | none =>
    rw [htask] at h
    cases h
  | some x =>
  rw [htask] at h
  obtain ⟨_ | ⟨slot, childId⟩, k1⟩ := x
  · cases h
    exact ⟨k', k'.phys, rfl, rfl⟩
  · obtain ⟨s, rfl, rfl⟩ := cloneFinishIds_eq h
    exact ⟨_, s, rfl, rfl⟩

end Finish

/-! ## The child -/

section Child

variable {frame : Nat}

theorem forkedStack_out {mem : Mem} {base top x : Nat} {trampoline : Word}
    (htop : top = base + physicalOffset + stackPages * pageSize) (hx : x < base ∨ base + stackPages * pageSize ≤ x) :
    (pushWords (storeWord (copy mem (v2p (top - syscallFrameSize)) (v2p frame) syscallFrameSize)
      (v2p (top - syscallFrameSize + 88)) 0) (top - syscallFrameSize) (trampoline :: contextWords)).1 x = mem x := by
  have hlow : physicalOffset + syscallFrameSize + 8 * 7 ≤ top := by
    unfold stackPages pageSize at htop
    unfold syscallFrameSize
    omega
  have hv : v2p top = base + stackPages * pageSize := by
    rw [htop, v2p, if_pos (by omega)]
    omega
  have hstart : v2p (top - syscallFrameSize) + syscallFrameSize = v2p top := v2p_sub (by omega)
  have hrsp : v2p (top - syscallFrameSize - 8 * 7) + 8 * 7 = v2p (top - syscallFrameSize) := v2p_sub (by omega)
  have h88 : v2p (top - syscallFrameSize + 88) = v2p (top - syscallFrameSize) + 88 := v2p_add (by omega)
  obtain ⟨-, -, hout⟩ := pushWords_spec (trampoline :: contextWords)
    (storeWord (copy mem (v2p (top - syscallFrameSize)) (v2p frame) syscallFrameSize) (v2p (top - syscallFrameSize + 88)) 0)
    (top - syscallFrameSize) (by show _ + 8 * 7 ≤ _; omega)
  have hsize : stackPages * pageSize = 16384 ∧ syscallFrameSize = 128 := ⟨rfl, rfl⟩
  rw [hout x (by show x < v2p (_ - 8 * 7) ∨ _; omega), storeWord_out (by omega), copy_out (by omega)]

/-- The frame of a task on its kernel stack, where `clone` puts its stack pointer. -/
def InFrameWord (task : Task) (x : Nat) : Prop :=
  Kernel.taskFrameWord task 14 ≤ x ∧ x < Kernel.taskFrameWord task 14 + 8

variable {k k' : Kernel} {pml4 : Nat} {slot : Slot}

variable {layout : Mem → Nat → Mem × Nat}

theorem spawnTask_keeps
    (hlayout : ∀ mem base top x, top = base + physicalOffset + stackPages * pageSize → x < base ∨ base + stackPages * pageSize ≤ x → (layout mem top).1 x = mem x)
    (h : k.spawnTask pml4 layout = some (slot, k')) : Keeps k.phys k'.phys := by
  obtain ⟨f, phys, task, ht, -, -, -, -, hpmm, hswap⟩ := Kernel.spawnTask_stack h
  have hmem := (Prod.mk.inj hswap).2
  refine ⟨fun g hg => ?_, fun x hx => ?_⟩
  · rw [hpmm] at hg
    exact ((ht.isFree g).mp hg).1
  · have hout : x < f * pageSize ∨ f * pageSize + stackPages * pageSize ≤ x := by
      by_contra hin
      have hrun := ht.run (x / pageSize - f) (by unfold pageSize stackPages at *; omega)
      rw [Nat.add_sub_cancel' (by unfold pageSize at *; omega), hx] at hrun
      cases hrun
    rw [hmem]
    exact (hlayout phys.mem (f * pageSize) _ x rfl hout).trans (ht.keeps.mem x hx)

theorem spawnForkedTask_keeps (h : k.spawnForkedTask frame pml4 = some (slot, k')) :
    Keeps k.phys k'.phys ∧ ∃ task, k'.tasks slot = some task ∧ task.pml4 = pml4 ∧
      ∀ x, InFrameWord task x → k.phys.pmm.isFree (x / pageSize) = true := by
  obtain ⟨f, phys, task, ht, htask, -, -, hpml4, -, hlayout⟩ := Kernel.spawnTask_stack h
  generalize htop : f * pageSize + physicalOffset + stackPages * pageSize = top at hlayout
  have hrsp := (Prod.mk.inj hlayout).1
  have hsize : stackPages * pageSize = 16384 ∧ syscallFrameSize = 128 := ⟨rfl, rfl⟩
  have hfree : ∀ x, f * pageSize ≤ x → x < f * pageSize + stackPages * pageSize →
      k.phys.pmm.isFree (x / pageSize) = true := by
    intro x h1 h2
    have hrun := ht.run (x / pageSize - f) (by unfold pageSize stackPages at *; omega)
    rwa [Nat.add_sub_cancel' (by unfold pageSize at *; omega)] at hrun
  refine ⟨spawnTask_keeps (fun _ _ _ _ htop hout => forkedStack_out htop hout) h, task, htask, hpml4, fun x hx => ?_⟩
  · obtain ⟨hsp, -⟩ := pushWords_spec (k.code.forkReturnTrampoline :: contextWords)
      (storeWord (copy phys.mem (v2p (top - syscallFrameSize)) (v2p frame) syscallFrameSize)
        (v2p (top - syscallFrameSize + 88)) 0) (top - syscallFrameSize) (by show _ + 8 * 7 ≤ _; omega)
    have hsp : task.rsp = top - syscallFrameSize - 8 * 7 := hrsp.trans hsp
    have hword : Kernel.taskFrameWord task 14 = f * pageSize + 16368 := by
      unfold Kernel.taskFrameWord contextSize
      rw [hsp, show top - syscallFrameSize - 8 * 7 + 6 * 8 + 8 + 14 * 8 = f * pageSize + physicalOffset + 16368 by omega,
        v2p, if_pos (by omega)]
      omega
    unfold InFrameWord at hx
    exact hfree x (by omega) (by omega)

/-- `spawn_task` finds a slot and a kernel stack. -/
def Kernel.Spawns (k : Kernel) : Prop :=
  k.freeTaskSlot ≠ none ∧ ∃ g, 1 ≤ g ∧ g + stackPages ≤ maxFrames ∧ k.phys.pmm.RunAt stackPages g

theorem spawnTask_none_iff : k.spawnTask pml4 layout = none ↔ ¬ k.Spawns := by
  unfold Kernel.spawnTask
  cases hslot : k.freeTaskSlot with
  | none => exact iff_of_true rfl fun h => h.1 hslot
  | some slot =>
    dsimp only
    rcases k.phys.allocFrames_cases (show 0 < stackPages by decide) with ⟨f, s, he, ht⟩ | ⟨he, hno⟩
    · have hne : f * pageSize ≠ 0 := Nat.mul_ne_zero (Nat.ne_of_gt ht.pos) (by decide)
      rw [he, if_neg hne]
      exact iff_of_false nofun fun h => h ⟨by rw [hslot]; nofun, f, ht.pos, ht.bound, ht.run⟩
    · rw [he]
      exact iff_of_true rfl fun ⟨_, g, h1, h2, hrun⟩ => hno g h1 h2 hrun

theorem spawns_of_spawnTask (h : k.spawnTask pml4 layout = some (slot, k')) : k.Spawns := by
  by_contra hno
  rw [spawnTask_none_iff.mpr hno] at h
  cases h

variable {s s' : Phys} {T : Nat → Prop}

theorem Writes.avail_of_spawns (hw : Writes k.phys s T) (h : (k.setPhys s).Spawns) : k.phys.avail ≠ ∅ := by
  obtain ⟨-, g, hg, hle, hrun⟩ := h
  have hfree : s.pmm.isFree (g + 0) = true := hrun 0 (by decide)
  have hmem : g ∈ k.phys.avail := mem_avail.mpr ⟨by omega, by unfold stackPages at hle; omega, hw.free g hfree⟩
  exact Finset.ne_empty_of_mem hmem

theorem cloneUserAddressSpace_keeps {kernel src : Nat} (h : s.cloneUserAddressSpace kernel src = some (pml4, s'))
    (havail : s.avail ≠ ∅) : Keeps s s' := by
  rcases cloneUserAddressSpace_writes h with ⟨f, -, -, -, hw⟩ | ⟨-, hnone, -⟩
  · refine ⟨hw.free, fun x hx => ?_⟩
    rcases hw.mem x with hsame | hno | htaken
    · exact hsame
    · exact hno.elim
    · rw [htaken.1] at hx
      cases hx
  · exact absurd hnone havail

theorem spawnThreadInGroup_phys {c b tid : Nat} (h : k.spawnThreadInGroup slot c b = some (tid, k')) :
    k'.phys = k.phys := by
  simp only [Kernel.spawnThreadInGroup, Option.bind_eq_bind, Option.bind_eq_some_iff, Option.some.injEq,
    Prod.mk.injEq] at h
  obtain ⟨pt, -, p, -, -, rfl⟩ := h
  rfl

theorem forkRetain_phys (ts : List FdTarget) (k : Kernel) : (ts.foldl forkRetain k).phys = k.phys := by
  induction ts generalizing k with
  | nil => rfl
  | cons t ts ih =>
    rw [List.foldl_cons, ih]
    rcases forkRetain_cases k t with he | ⟨i, refs, he⟩ | ⟨j, p, he⟩ <;>
    · rw [he]
      try rfl

theorem forkCurrent_phys {pid : Nat} (h : forkCurrent k slot = some (pid, k')) :
    k'.phys = k.phys := by
  simp only [forkCurrent, Option.bind_eq_bind, Option.bind_eq_some_iff, Option.some.injEq, Prod.mk.injEq] at h
  obtain ⟨parent, -, pt, -, -, rfl⟩ := h
  exact forkRetain_phys _ _

variable {flags childTidPtr : Word} {id : Nat}

/-- The address space that `clone` gives its task, and memory when it has it. -/
def CloneSpace (k : Kernel) (flags : Word) (pml4 : Nat) (s : Phys) : Prop :=
  if flags &&& cloneThreadFlag ≠ 0 then pml4 = k.currentPml4 ∧ s = k.phys
  else k.phys.cloneUserAddressSpace k.kernelPml4 k.currentPml4 = some (pml4, s)

/-- What `clone` has made before it looks at its pointers. -/
structure CloneMade (k k' : Kernel) (s : Phys) (flags childTidPtr : Word) (slot : Slot) (id : Nat) (task : Task)
    (thread : Thread) : Prop where
  first : k.freeTaskSlot = some slot
  tasks : k'.tasks = Function.update k.tasks slot (some task)
  threads : k'.threads = Function.update k.threads slot (some thread)
  current : k'.current = k.current
  record : ∃ pt group tls, k.currentThread = some pt ∧ thread = .newGroupMember id pt.tid group slot
    (if flags &&& cloneThreadFlag ≠ 0 ∧ (flags &&& cloneChildCleartid ≠ 0 ∨ flags &&& cloneChildSettid ≠ 0)
      then childTidPtr.toNat else 0) tls pt.sigMask
  space : CloneSpace k flags task.pml4 s
  fresh : flags &&& cloneThreadFlag = 0 → ∃ f, task.pml4 = f * pageSize ∧ k.phys.pmm.isFree f = true
  copied : Keeps k.phys s
  keeps : Keeps s k'.phys
  stack : ∀ x, InFrameWord task x → s.pmm.isFree (x / pageSize) = true

namespace CloneMade

variable {task : Task} {thread : Thread} (m : CloneMade k k' s flags childTidPtr slot id task thread)
include m

theorem free : k.tasks slot = none := Kernel.freeTaskSlot_spec m.first

theorem hasTask : k'.tasks slot = some task := by rw [m.tasks, update_self]

theorem hasThread : k'.threads slot = some thread := by rw [m.threads, update_self]

end CloneMade

theorem CloneMade.of_spawned {k1 : Kernel} {thread : Thread} (hspace : CloneSpace k flags pml4 s)
    (hfresh : flags &&& cloneThreadFlag = 0 → ∃ f, pml4 = f * pageSize ∧ k.phys.pmm.isFree f = true) (hk : Keeps k.phys s)
    (hsp : (k.setPhys s).spawnForkedTask frame pml4 = some (slot, k1)) (hphys : k'.phys = k1.phys) (hta : k'.tasks = k1.tasks)
    (hcur : k'.current = k1.current) (hth : k'.threads = Function.update k1.threads slot (some thread))
    (hrecord : ∃ pt group tls, k1.currentThread = some pt ∧ thread = .newGroupMember id pt.tid group slot
      (if flags &&& cloneThreadFlag ≠ 0 ∧ (flags &&& cloneChildCleartid ≠ 0 ∨ flags &&& cloneChildSettid ≠ 0) then childTidPtr.toNat else 0) tls pt.sigMask) :
    ∃ task, CloneMade k k' s flags childTidPtr slot id task thread := by
  have sp := Kernel.spawnTask_spec hsp
  obtain ⟨hkeeps, task, htask, hpml4, hstack⟩ := spawnForkedTask_keeps hsp
  obtain ⟨task', htasks, -⟩ := sp.tasks
  have htask' : task' = task := by
    rw [htasks, update_self] at htask
    exact Option.some.inj htask
  rw [Kernel.currentThread, sp.threads, sp.current] at hrecord
  refine ⟨task, sp.free, ?_, by rw [hth, sp.threads]; rfl, hcur.trans sp.current, hrecord, hpml4 ▸ hspace,
    hpml4 ▸ hfresh, hk, ?_, hstack⟩
  · rw [hta, htasks, htask']
    rfl
  · rw [hphys]
    exact hkeeps

variable {framePtr : Nat}

theorem cloneTask_made (h : cloneTask k flags childTidPtr framePtr = some (.ok (slot, id), k')) :
    ∃ s task thread, CloneMade k k' s flags childTidPtr slot id task thread := by
  cases cloneTask_cases h with
  | thread hflag hsp htls ht =>
    obtain ⟨pt, p, hpt, -, -, -, hth, hta, hcur, -⟩ := spawnThreadInGroup_spec ht
    obtain ⟨task, hmade⟩ := CloneMade.of_spawned ((if_pos hflag).mpr ⟨rfl, rfl⟩) (absurd · hflag) .refl hsp
      (spawnThreadInGroup_phys ht) hta hcur hth ⟨pt, _, _, hpt, congrArg (Thread.newGroupMember _ _ _ _ · _ _) (if_congr (and_iff_right hflag).symm rfl rfl)⟩
    exact ⟨_, task, _, hmade⟩
  | process hflag hclone hsp hf' =>
    have hspawns := spawns_of_spawnTask hsp
    obtain ⟨f, hroot, hf, -⟩ := (cloneUserAddressSpace_writes hclone).resolve_right fun ⟨_, hnone, hw⟩ =>
      hw.avail_of_spawns hspawns hnone
    obtain ⟨parent, pt, -, hpt, -, -, hth, hta, hcur⟩ := forkCurrent_spec hf'
    obtain ⟨task, hmade⟩ := CloneMade.of_spawned ((if_neg (not_not.mpr hflag)).mpr hclone)
      (fun _ => ⟨f, hroot, Grown.isFree_of_mem hf⟩) (cloneUserAddressSpace_keeps hclone (Finset.ne_empty_of_mem hf)) hsp
      (forkCurrent_phys hf') hta hcur hth
      ⟨pt, _, _, hpt, congrArg (Thread.newGroupMember _ _ _ _ · _ _) (if_neg fun hc => hc.1 hflag).symm⟩
    exact ⟨_, task, _, hmade⟩

theorem Kernel.Spawned.currentProcess (h : Kernel.Spawned k slot k') : k'.currentProcess = k.currentProcess := by
  unfold Kernel.currentProcess Kernel.currentThread
  rw [h.threads, h.processes, h.current]

variable {p : Process}

theorem forkCurrent_returns (h : k.currentProcess = some p) (slot : Slot) :
    ∃ pid k', forkCurrent k slot = some (pid, k') := by
  obtain ⟨t, ht, -⟩ := Option.bind_eq_some_iff.mp h
  have hp : k.bumpPid.currentProcess = some p := h
  have ht : k.bumpPid.currentThread = some t := ht
  simp only [forkCurrent, Option.bind_eq_bind, hp, ht, Option.bind_some]
  exact ⟨_, _, rfl⟩

theorem spawnThreadInGroup_returns (h : k.currentProcess = some p) (slot : Slot) (clear tls : Nat) :
    ∃ tid k', k.spawnThreadInGroup slot clear tls = some (tid, k') := by
  obtain ⟨t, ht, hp⟩ := Option.bind_eq_some_iff.mp h
  have ht : k.bumpPid.currentThread = some t := ht
  have hp : k.bumpPid.processes t.groupSlot = some p := hp
  simp only [Kernel.spawnThreadInGroup, Option.bind_eq_bind, hp, ht, Option.bind_some]
  exact ⟨_, _, rfl⟩

/-- Once it has an address space, a task is made or an error returned. -/
theorem cloneTask_returns (hp : k.currentProcess = some p) (hspace : CloneSpace k flags pml4 s) :
    ∃ r k', cloneTask k flags childTidPtr framePtr = some (r, k') := by
  unfold cloneTask
  unfold CloneSpace at hspace
  split at hspace
  next hthread =>
    rw [if_pos hthread]
    cases hsp : k.spawnForkedTask framePtr k.currentPml4 with
    | none => exact ⟨_, _, rfl⟩
    | some x =>
      dsimp only
      split
      · exact ⟨_, _, rfl⟩
      · obtain ⟨tid, k', hk'⟩ := spawnThreadInGroup_returns ((Kernel.spawnTask_spec hsp).currentProcess.trans hp) x.1
          (if flags &&& cloneChildCleartid ≠ 0 ∨ flags &&& cloneChildSettid ≠ 0 then childTidPtr.toNat else 0)
          (if flags &&& cloneSettls ≠ 0 then (loadWord x.2.phys.mem (v2p (framePtr + 6 * 8))).toNat else x.2.currentFsBase)
        rw [hk']
        exact ⟨_, _, rfl⟩
  next hthread =>
    rw [if_neg hthread, hspace]
    dsimp only
    cases hsp : (k.setPhys s).spawnForkedTask framePtr pml4 with
    | none => exact ⟨_, _, rfl⟩
    | some x =>
      have hp1 : x.2.currentProcess = some p := (Kernel.spawnTask_spec hsp).currentProcess.trans hp
      obtain ⟨pid, k', hk'⟩ := forkCurrent_returns hp1 x.1
      dsimp only
      rw [hk']
      exact ⟨_, _, rfl⟩

end Child

/-! ## Calls that fail -/

/-- The calls that make a task from the caller's. -/
inductive SpawnCall
  | fork (framePtr : Nat)
  | clone (flags childStack parentTidPtr childTidPtr : Word) (framePtr : Nat)

def SpawnCall.run (k : Kernel) : SpawnCall → Option (Except SysError Nat × Kernel)
  | fork framePtr => syscallFork k framePtr
  | clone flags childStack parentTidPtr childTidPtr framePtr =>
    syscallCloneImpl k flags childStack parentTidPtr childTidPtr framePtr

/-- The caller of a system call, with the frames of its address space and that of the
kernel's root table in use. -/
structure SpaceCaller (k : Kernel) (root kernel : Nat) : Prop where
  pml4 : k.currentPml4 = root * pageSize
  half : UserHalf k.phys root
  kernelPml4 : k.kernelPml4 = kernel * pageSize
  kernelUsed : k.phys.pmm.isFree kernel = false

/-- The tables, the reference counts and the free frames are as before. -/
structure Untouched (k k' : Kernel) : Prop where
  tasks : k'.tasks = k.tasks
  processes : k'.processes = k.processes
  threads : k'.threads = k.threads
  openFiles : k'.openFiles = k.openFiles
  pipes : k'.pipes = k.pipes
  free : ∀ f, k'.phys.pmm.isFree f = k.phys.pmm.isFree f

theorem Untouched.refl (k : Kernel) : Untouched k k := ⟨rfl, rfl, rfl, rfl, rfl, fun _ => rfl⟩

/-- There is a slot, and above the frames that a copy of the address space takes, which
are the lowest, a kernel stack. -/
def Kernel.CopySpawns (k : Kernel) (root : Nat) : Prop :=
  k.freeTaskSlot ≠ none ∧ ∃ g, 1 ≤ g ∧ g + stackPages ≤ maxFrames ∧ k.phys.pmm.RunAt stackPages g ∧
    cloneCost k.phys.mem root ≤ (k.phys.avail.filter (· < g)).card

/-- The task is not made, and nothing is taken for it: no slot or no stack for a
thread, and no frame at all for a process. -/
def Kernel.NoneSpawned (k : Kernel) (flags : Word) : Prop :=
  if flags &&& cloneThreadFlag ≠ 0 then ¬ k.Spawns else k.phys.avail = ∅

/-- The task is made: a thread has the frame its TLS is read from, and a process finds
a slot and a stack after the copy. -/
def Kernel.TaskSpawned (k : Kernel) (root framePtr : Nat) (flags : Word) : Prop :=
  if flags &&& cloneThreadFlag ≠ 0 then ¬ (flags &&& cloneSettls ≠ 0 ∧ framePtr = 0) else k.CopySpawns root

/-- Nothing is found wanting once frames are taken: the call is refused, or it takes
nothing, or its task is made and the pointers it comes to are good. -/
def SpawnCall.NoLateFailure (k : Kernel) (root : Nat) : SpawnCall → Prop
  | fork framePtr => framePtr = 0 ∨ k.NoneSpawned 0 ∨ k.TaskSpawned root framePtr 0
  | clone flags _ parentTidPtr childTidPtr framePtr => cloneRefused flags ≠ none ∨ k.NoneSpawned flags ∨
    k.TaskSpawned root framePtr flags ∧ IdPointersOk flags parentTidPtr childTidPtr

section Failures

variable {k k' : Kernel} {s s' : Phys} {root kernel framePtr pml4 : Nat} {flags childTidPtr : Word}

theorem SpaceCloned.runAt_iff {src new g n : Nat} {S : Finset Nat} {T : Nat → Prop}
    (h : SpaceCloned s s' kernel src new S) (hw : Writes s s' T) (hn : 0 < n) (hg : 1 ≤ g) :
    s'.pmm.RunAt n g ↔ s.pmm.RunAt n g ∧ cloneCost s.mem src ≤ (s.avail.filter (· < g)).card := by
  have hlow : ∀ f ∈ insert new S, ∀ g, 1 ≤ g → s'.pmm.isFree g = true → f < g := fun f hf =>
    (hw.lowest f ⟨Grown.isFree_of_mem (h.fresh hf), h.used f hf⟩).2
  rw [← h.card]
  constructor
  · intro hrun
    refine ⟨fun i hi => ((h.free _).mp (hrun i hi)).1, Finset.card_le_card fun f hf => ?_⟩
    exact Finset.mem_filter.mpr ⟨h.fresh hf, hlow f hf g hg (hrun 0 hn)⟩
  · rintro ⟨hrun, hcard⟩ i hi
    rw [h.free]
    refine ⟨hrun i hi, fun hmem => ?_⟩
    -- a frame below the run that was not taken would be above one that was
    have hsub : s.avail.filter (· < g) ⊆ (insert new S).erase (g + i) := by
      intro f hf
      obtain ⟨hf, hlt⟩ := Finset.mem_filter.mp hf
      obtain ⟨h0, -, hfree⟩ := mem_avail.mp hf
      refine Finset.mem_erase.mpr ⟨by omega, ?_⟩
      by_contra hnot
      have := hlow _ hmem f (by omega) ((h.free f).mpr ⟨hfree, hnot⟩)
      omega
    have hless := Finset.card_le_card hsub
    rw [Finset.card_erase_of_mem hmem] at hless
    have hpos : 0 < (insert new S).card := Finset.card_pos.mpr ⟨_, hmem⟩
    omega

/-- **What a copy leaves**: it takes frames unless there are none, and then finds a
slot and a stack as the free frames before it say. -/
theorem SpaceCaller.copied (hc : SpaceCaller k root kernel)
    (hclone : k.phys.cloneUserAddressSpace k.kernelPml4 k.currentPml4 = some (pml4, s)) :
    (Untouched k (k.setPhys s) ↔ k.phys.avail = ∅) ∧ ((k.setPhys s).Spawns ↔ k.phys.avail ≠ ∅ ∧ k.CopySpawns root) := by
  rcases cloneUserAddressSpace_writes hclone with ⟨f, -, hf, htaken, hw⟩ | ⟨-, hnone, hw⟩
  · have havail : k.phys.avail ≠ ∅ := Finset.ne_empty_of_mem hf
    refine ⟨iff_of_false (fun hu => ?_) havail, ?_⟩
    · have hused := htaken.2
      rw [show s.pmm.isFree f = k.phys.pmm.isFree f from hu.free f, htaken.1] at hused
      cases hused
    · rcases cloneUserAddressSpace_cases hc.half.sourceTable hc.kernelUsed havail with ⟨hno, -⟩ | ⟨new, s', S, he, hcloned⟩
      · rw [hc.kernelPml4, hc.pml4, hno] at hclone
        cases hclone
      · rw [hc.kernelPml4, hc.pml4, he] at hclone
        cases hclone
        rw [and_iff_right havail]
        refine and_congr_right fun _ => exists_congr fun g => and_congr_right fun hg => and_congr_right fun _ => ?_
        exact hcloned.runAt_iff hw (by decide) hg
  · refine ⟨iff_of_true ⟨rfl, rfl, rfl, rfl, rfl, fun g => ?_⟩ hnone,
      iff_of_false (fun h => hw.avail_of_spawns h hnone) fun h => h.1 hnone⟩
    show s.pmm.isFree g = _
    cases hfree : k.phys.pmm.isFree g with
    | false => exact hw.used hfree
    | true =>
      by_contra hne
      obtain ⟨⟨hg, hlt⟩, -⟩ := hw.lowest g ⟨hfree, by simpa using hne⟩
      have hmem : g ∈ k.phys.avail := mem_avail.mpr ⟨by omega, hlt, hfree⟩
      rw [hnone] at hmem
      cases hmem

theorem cloneTask_error {e : SysError} (hc : SpaceCaller k root kernel)
    (h : cloneTask k flags childTidPtr framePtr = some (.error e, k')) :
    (Untouched k k' ↔ k.NoneSpawned flags) ∧ (k.TaskSpawned root framePtr flags → k.NoneSpawned flags) := by
  unfold Kernel.NoneSpawned Kernel.TaskSpawned
  cases cloneTask_cases h with
  | noThread hthread hsp =>
    rw [if_pos hthread]
    exact ⟨iff_of_true (.refl k) (spawnTask_none_iff.mp hsp), fun _ => spawnTask_none_iff.mp hsp⟩
  | @noTls slot _ hthread hsp htls =>
    rw [if_pos hthread, if_pos hthread]
    refine ⟨iff_of_false (fun hu => ?_) (not_not.mpr (spawns_of_spawnTask hsp)), fun hok => absurd htls hok⟩
    have sp := Kernel.spawnTask_spec hsp
    obtain ⟨task, htask, -⟩ := sp.task_self
    rw [hu.tasks, Kernel.freeTaskSlot_spec sp.free] at htask
    cases htask
  | noProcess hprocess hclone hsp =>
    rw [if_neg (not_not.mpr hprocess), if_neg (not_not.mpr hprocess)]
    obtain ⟨huntouched, hspawns⟩ := hc.copied hclone
    refine ⟨huntouched, fun hcopy => ?_⟩
    by_contra havail
    exact spawnTask_none_iff.mp hsp (hspawns.mpr ⟨havail, hcopy⟩)

theorem cloneTask_ok {x : Slot × Nat} (hc : SpaceCaller k root kernel)
    (h : cloneTask k flags childTidPtr framePtr = some (.ok x, k')) :
    ¬ k.NoneSpawned flags ∧ k.TaskSpawned root framePtr flags := by
  unfold Kernel.NoneSpawned Kernel.TaskSpawned
  cases cloneTask_cases h with
  | thread hthread hsp htls ht =>
    rw [if_pos hthread, if_pos hthread]
    exact ⟨not_not.mpr (spawns_of_spawnTask hsp), htls⟩
  | process hprocess hclone hsp hf =>
    rw [if_neg (not_not.mpr hprocess), if_neg (not_not.mpr hprocess)]
    exact (hc.copied hclone).2.mp (spawns_of_spawnTask hsp)

/-- With frames for the copy, a slot and a stack, `fork` makes a process. -/
theorem SpaceCaller.fork_ok {p : Process} (hc : SpaceCaller k root kernel) (hp : k.currentProcess = some p)
    (hframe : framePtr ≠ 0) (hcost : cloneCost k.phys.mem root ≤ k.phys.avail.card) (hcopy : k.CopySpawns root) :
    ∃ id k', syscallFork k framePtr = some (.ok id, k') := by
  have havail := avail_of_cloneCost hcost
  rcases cloneUserAddressSpace_cases hc.half.sourceTable hc.kernelUsed havail with ⟨-, hlt⟩ | ⟨new, s, S, hclone, -⟩
  · omega
  rw [← hc.kernelPml4, ← hc.pml4] at hclone
  obtain ⟨r, k', htask⟩ : ∃ r k', cloneTask k 0 0 framePtr = some (r, k') := cloneTask_returns hp hclone
  rw [syscallFork_eq k hframe, htask]
  cases r with
  | ok x => exact ⟨_, _, rfl⟩
  | error e => exact absurd ((cloneTask_error hc htask).2 hcopy) havail

end Failures

/-- **A failing `fork` or `clone` creates nothing** exactly where it does not fail late.
For every state of the kernel in which the frames of the caller's address space are in
use, every flag word and all pointers: a call that returns leaves the tables, the
reference counts and the free frames as they were if it returns an error, exactly when
nothing is found wanting once frames are taken. -/
theorem failed_spawn_creates_nothing_iff (k k' : Kernel) (root kernel : Nat) (hc : SpaceCaller k root kernel)
    (call : SpawnCall) (r : Except SysError Nat) (hrun : call.run k = some (r, k')) :
    ((∃ e, r = .error e) → Untouched k k') ↔ call.NoLateFailure k root := by
  cases call with
  | fork framePtr =>
    change syscallFork k framePtr = _ at hrun
    rw [SpawnCall.NoLateFailure]
    by_cases hframe : framePtr = 0
    · rw [syscallFork, if_pos hframe] at hrun
      cases hrun
      exact iff_of_true (fun _ => .refl k) (.inl hframe)
    · rw [syscallFork_eq k hframe] at hrun
      obtain ⟨⟨o, k1⟩, htask, he⟩ := map_eq_some_iff.mp hrun
      cases he
      cases o with
      | ok x => exact iff_of_true nofun (.inr (.inr (cloneTask_ok hc htask).2))
      | error e =>
        obtain ⟨huntouched, hnone⟩ := cloneTask_error hc htask
        rw [forall_prop_of_true ⟨e, rfl⟩, huntouched, or_iff_right hframe, or_iff_left_of_imp hnone]
  | clone flags childStack parentTidPtr childTidPtr framePtr =>
    change syscallCloneImpl k flags childStack parentTidPtr childTidPtr framePtr = _ at hrun
    rw [SpawnCall.NoLateFailure]
    unfold syscallCloneImpl at hrun
    split at hrun
    next hflags =>
      cases hrun
      exact iff_of_true (fun _ => .refl k) (.inl (by rw [hflags]; nofun))
    next hflags =>
    rw [or_iff_right (not_not.mpr hflags)]
    split at hrun
    · cases hrun
    next e k1 htask =>
      cases hrun
      obtain ⟨huntouched, hnone⟩ := cloneTask_error hc htask
      rw [forall_prop_of_true ⟨e, rfl⟩, huntouched, or_iff_left_of_imp fun h => hnone h.1]
    next slot childId k1 htask =>
      obtain ⟨hspawned, hok⟩ := cloneTask_ok hc htask
      obtain ⟨s, task, thread, m⟩ := cloneTask_made htask
      rw [or_iff_right hspawned, and_iff_right hok]
      rcases cloneFinishIds_cases m.hasTask m.hasThread hrun with ⟨rfl, hbad, htasks, -⟩ | ⟨rfl, hptrs, -⟩
      · refine iff_of_false (fun hu => ?_) hbad
        have htask := m.hasTask
        rw [← htasks, (hu ⟨_, rfl⟩).tasks, m.free] at htask
        cases htask
      · exact iff_of_true nofun hptrs

/-- The process of `emptyProcess`, with no slot left. -/
def crowdedProcess : Kernel := { emptyProcess with tasks := fun _ => emptyProcess.tasks 0 }

/-- A thread finds no slot, and the parent's pointer, which is no user address, is not
looked at. -/
theorem failed_spawn_creates_nothing_crowdedProcess : ∃ k',
    (SpawnCall.clone 0x10f00 0 0x800000000000 0 physicalOffset).run crowdedProcess = some (.error .invalid, k') ∧
      Untouched crowdedProcess k' := by
  have hrun : ((SpawnCall.clone 0x10f00 0 0x800000000000 0 physicalOffset).run crowdedProcess).bind
      (fun x => x.1.casesOn some fun _ => none) = some .invalid := by
    decide +kernel
  obtain ⟨⟨r, k'⟩, hr, he⟩ := Option.bind_eq_some_iff.mp hrun
  cases r with
  | ok _ => cases he
  | error e =>
    cases he
    have hfull : crowdedProcess.freeTaskSlot = none := by decide +kernel
    have hlate : (SpawnCall.clone 0x10f00 0 0x800000000000 0 physicalOffset).NoLateFailure crowdedProcess 1 :=
      .inr (.inl ((if_pos (by decide)).mpr fun h => h.1 hfull))
    have hc : SpaceCaller crowdedProcess 1 1 := ⟨rfl, emptyTree_userHalf, rfl, by decide⟩
    exact ⟨k', hr, (failed_spawn_creates_nothing_iff crowdedProcess k' 1 1 hc _ _ hr).mpr hlate ⟨_, rfl⟩⟩

theorem syscallFork_full {k : Kernel} {framePtr pml4 : Nat} {phys : Phys} (hframe : framePtr ≠ 0)
    (hclone : k.phys.cloneUserAddressSpace k.kernelPml4 k.currentPml4 = some (pml4, phys)) (hslot : k.freeTaskSlot = none) :
    syscallFork k framePtr = some (.error .invalid, k.setPhys phys) := by
  have hspawn : (k.setPhys phys).spawnForkedTask framePtr pml4 = none := spawnTask_none_iff.mpr fun h => h.1 hslot
  rw [syscallFork_eq k hframe, cloneTask, if_neg (by decide), hclone]
  dsimp only
  rw [hspawn]
  rfl

theorem crowdedProcess_fork : ∃ phys g,
    (SpawnCall.fork physicalOffset).run crowdedProcess = some (.error .invalid, crowdedProcess.setPhys phys) ∧
      Taken crowdedProcess.phys phys g := by
  have hsrc := emptyTree_wellFormed.sourceTable emptyTree_inUse
  rcases cloneUserAddressSpace_cases hsrc (show emptyTree.pmm.isFree 1 = false by decide)
    (avail_of_cloneCost emptyTree_enough) with ⟨-, hlt⟩ | ⟨new, phys, S, hclone, -⟩
  · exact absurd emptyTree_enough (Nat.not_le.mpr hlt)
  · rcases cloneUserAddressSpace_writes hclone with ⟨g, -, -, htaken, -⟩ | ⟨-, hnone, -⟩
    · refine ⟨phys, g, ?_, htaken⟩
      have hfull : crowdedProcess.freeTaskSlot = none := by decide +kernel
      have hpml4 : crowdedProcess.kernelPml4 = 1 * pageSize ∧ crowdedProcess.currentPml4 = 1 * pageSize := by decide
      have hcopy : crowdedProcess.phys.cloneUserAddressSpace crowdedProcess.kernelPml4 crowdedProcess.currentPml4 =
          some (new * pageSize, phys) := by
        rw [hpml4.1, hpml4.2, show crowdedProcess.phys = emptyTree from rfl, hclone]
      rw [SpawnCall.run]
      exact syscallFork_full (by decide) hcopy hfull
    · exact absurd hnone (avail_of_cloneCost emptyTree_enough)

/-- **What a failure leaves.** A thread is made before `clone` finds that
`parent_tid_ptr` is no user address: it fails with the thread ready and counted. A
`fork` that finds no slot fails with the frames of its copy taken. -/
theorem failed_clone_leaves :
    (∃ k', (SpawnCall.clone 0x10f00 0 0x800000000000 0 physicalOffset).run emptyProcess = some (.error .fault, k') ∧
      emptyProcess.tasks 1 = none ∧ (k'.tasks 1).map Task.state = some .ready ∧ (k'.threads 1).isSome = true ∧
      (k'.processes 0).map Process.threadCount = some 2) ∧
    ∃ k' g, (SpawnCall.fork physicalOffset).run crowdedProcess = some (.error .invalid, k') ∧
      crowdedProcess.phys.pmm.isFree g = true ∧ k'.phys.pmm.isFree g = false := by
  constructor
  · have hrun : ((SpawnCall.clone 0x10f00 0 0x800000000000 0 physicalOffset).run emptyProcess).map
        (fun x => (x.1.casesOn some fun _ => none, (x.2.tasks 1).map Task.state, (x.2.threads 1).isSome,
          (x.2.processes 0).map Process.threadCount)) = some (some .fault, some .ready, true, some 2) := by
      decide +kernel
    obtain ⟨⟨r, k'⟩, hr, he⟩ := Option.map_eq_some_iff.mp hrun
    cases r with
    | ok _ => cases he
    | error e =>
      obtain ⟨herr, htask, hthread, hcount⟩ : _ ∧ _ ∧ _ ∧ _ := by simpa only [Prod.mk.injEq] using he
      cases herr
      exact ⟨k', hr, rfl, htask, hthread, hcount⟩
  · obtain ⟨phys, g, hrun, hfree, hused⟩ := crowdedProcess_fork
    exact ⟨_, g, hrun, hfree, hused⟩

end CoreOS
