/-
A pipe is a bounded FIFO. The two byte loops of `fd_pipe.rs` are the push and
pop of a ring buffer (`Pipe.writeBytes_spec`, `Pipe.readBytes_spec`), so along
any run of pipe operations, by whatever descriptors, what was read from a pipe
followed by what it still holds is what was written to it since it was last
allocated (`pipe_is_fifo`).
-/
import CoreOS.Fd
import CoreOS.Lib.Exec
import CoreOS.Lib.Ring

namespace CoreOS

open ByteMem

/-! ## A pipe as a ring buffer -/

namespace Pipe

def ring (p : Pipe) : RingBuf Byte where
  buf := p.buf
  readPos := p.readPos
  writePos := p.writePos
  len := p.len

/-- The bytes written and not yet read, oldest first. -/
def unread (p : Pipe) : List Byte := RingBuf.items pipeCapacity p.ring

/-- The cursors of the ring are consistent. -/
abbrev RingOK (p : Pipe) : Prop := RingBuf.WellFormed pipeCapacity p.ring

@[simp] theorem unread_length (p : Pipe) : p.unread.length = p.len := RingBuf.items_length

/-- Two pipes that differ in their bytes and cursors only. -/
structure SameEnds (p q : Pipe) : Prop where
  readRefs : q.readRefs = p.readRefs
  writeRefs : q.writeRefs = p.writeRefs
  readFlags : q.readFlags = p.readFlags
  writeFlags : q.writeFlags = p.writeFlags
  inUse : q.inUse = p.inUse

theorem SameEnds.refl (p : Pipe) : SameEnds p p := ⟨rfl, rfl, rfl, rfl, rfl⟩

variable {p : Pipe}

theorem SameEnds.trans {q r : Pipe} (h : SameEnds p q) (h' : SameEnds q r) : SameEnds p r :=
  ⟨h'.1.trans h.1, h'.2.trans h.2, h'.3.trans h.3, h'.4.trans h.4, h'.5.trans h.5⟩

theorem sameEnds_pushByte (p : Pipe) (b : Byte) : SameEnds p (p.pushByte b) := ⟨rfl, rfl, rfl, rfl, rfl⟩

theorem sameEnds_popByte (p : Pipe) : SameEnds p p.popByte := ⟨rfl, rfl, rfl, rfl, rfl⟩

theorem sameEnds_writeBytes (bs : List Byte) : SameEnds p (p.writeBytes bs).2 := by
  induction bs generalizing p with
  | nil => exact .refl p
  | cons b bs ih =>
    simp only [writeBytes]
    split
    · exact (sameEnds_pushByte p b).trans ih
    · exact .refl p

theorem sameEnds_readBytes (count : Nat) : SameEnds p (p.readBytes count).2 := by
  induction count generalizing p with
  | zero => exact .refl p
  | succ count ih =>
    simp only [readBytes]
    split
    · exact (sameEnds_popByte p).trans ih
    · exact .refl p

/-- What the write loop does: as many bytes as there is room for go in, from
the front of the caller's buffer to the back of the queue. -/
structure Wrote (p : Pipe) (bs : List Byte) (n : Nat) (q : Pipe) : Prop where
  count : n = min bs.length (pipeCapacity - p.len)
  ring : q.RingOK
  unread : q.unread = p.unread ++ bs.take n
  ends : SameEnds p q

theorem writeBytes_spec (bs : List Byte) (hp : p.RingOK) :
    Wrote p bs (p.writeBytes bs).1 (p.writeBytes bs).2 := by
  induction bs generalizing p with
  | nil => exact ⟨by simp [writeBytes], hp, by simp [writeBytes], .refl p⟩
  | cons b bs ih =>
    by_cases hlt : p.len < pipeCapacity
    · have hring : (p.pushByte b).RingOK := RingBuf.WellFormed.push hp hlt
      have hunread : (p.pushByte b).unread = p.unread ++ [b] := RingBuf.items_push hp hlt
      obtain ⟨hcount, hr, hu, he⟩ := ih hring
      simp only [writeBytes, if_pos hlt]
      refine ⟨?_, hr, ?_, (sameEnds_pushByte p b).trans he⟩
      · have hl : (p.pushByte b).len = p.len + 1 := rfl
        rw [hcount, hl, List.length_cons]
        omega
      · rw [hu, hunread, List.take_succ_cons, List.append_assoc, List.singleton_append]
    · simp only [writeBytes, if_neg hlt]
      exact ⟨by omega, hp, by simp, .refl p⟩

/-- What the read loop does: the front of the queue comes out. -/
structure Took (p : Pipe) (count : Nat) (bs : List Byte) (q : Pipe) : Prop where
  bytes : bs = p.unread.take count
  ring : q.RingOK
  unread : q.unread = p.unread.drop count
  ends : SameEnds p q

theorem readBytes_spec (count : Nat) (hp : p.RingOK) :
    Took p count (p.readBytes count).1 (p.readBytes count).2 := by
  induction count generalizing p with
  | zero => exact ⟨by simp [readBytes], hp, by simp [readBytes], .refl p⟩
  | succ count ih =>
    by_cases hpos : 0 < p.len
    · have hring : p.popByte.RingOK := RingBuf.WellFormed.pop hp hpos
      have hunread : p.unread = p.buf p.readPos :: p.popByte.unread := RingBuf.items_pop hp hpos
      obtain ⟨hb, hr, hu, he⟩ := ih hring
      simp only [readBytes, if_pos hpos]
      refine ⟨?_, hr, ?_, (sameEnds_popByte p).trans he⟩
      · rw [hunread, List.take_succ_cons, ← hb]
      · rw [hunread, List.drop_succ_cons, hu]
    · have hnil : p.unread = [] := List.eq_nil_of_length_eq_zero (by rw [unread_length]; omega)
      simp only [readBytes, if_neg hpos]
      exact ⟨by simp [hnil], hp, by simp [hnil], .refl p⟩

theorem ringOK_empty : Pipe.empty.RingOK := ⟨by decide, by decide, by decide⟩

theorem ringOK_new : Pipe.new.RingOK := ⟨by decide, by decide, by decide⟩

theorem unread_new : Pipe.new.unread = [] := rfl

theorem inUse_new : Pipe.new.inUse = true := rfl

end Pipe

/-! ## What a call can do -/

namespace FdPipe

variable {k : Kernel} {fd : Nat}

theorem getMut_inUse {j : Nat} {isReadEnd : Bool} (h : getMut k fd = some (j, isReadEnd)) :
    (k.pipes j).inUse = true := by
  obtain ⟨target, -, h⟩ := Option.bind_eq_some_iff.mp h
  unfold resolve at h
  split at h
  · split at h
    next hl =>
      cases h
      exact (Bool.and_eq_true _ _ ▸ hl).2
    · cases h
  · split at h
    next hl =>
      cases h
      exact (Bool.and_eq_true _ _ ▸ hl).2
    · cases h
  · cases h

variable {k' : Kernel}

theorem write_cases {n : Nat} {bytes : List Byte} (h : write k fd bytes = some (n, k')) :
    ∃ j, getMut k fd = some (j, false) ∧
      (((k.pipes j).readRefs = 0 ∧ n = 0 ∧ k' = k) ∨
        ((k.pipes j).readRefs ≠ 0 ∧ n = ((k.pipes j).writeBytes bytes).1 ∧
          k' = k.setPipe j ((k.pipes j).writeBytes bytes).2)) := by
  cases hg : getMut k fd with
  | none => simp [write, hg] at h
  | some e =>
    obtain ⟨j, isReadEnd⟩ := e
    simp only [write, hg, Option.bind_eq_bind, Option.bind_some] at h
    cases isReadEnd with
    | true => cases h
    | false =>
      refine ⟨j, rfl, ?_⟩
      simp only [Bool.false_eq_true, if_false] at h
      split at h
      next hr => cases h; exact .inl ⟨hr, rfl, rfl⟩
      next hr => cases h; exact .inr ⟨hr, rfl, rfl⟩

theorem read_cases {count : Nat} {r : ReadRound} (h : read k fd count = some (r, k')) :
    ∃ j, getMut k fd = some (j, true) ∧
      ((0 < (k.pipes j).len ∧ r = .bytes ((k.pipes j).readBytes count).1 ∧
          k' = k.setPipe j ((k.pipes j).readBytes count).2) ∨
        ((k.pipes j).len = 0 ∧ (k.pipes j).writeRefs = 0 ∧ r = .bytes [] ∧ k' = k) ∨
        ((k.pipes j).len = 0 ∧ (k.pipes j).writeRefs ≠ 0 ∧ r = .wait ∧ k' = k)) := by
  cases hg : getMut k fd with
  | none => simp [read, peerClosed, hg] at h
  | some e =>
    obtain ⟨j, isReadEnd⟩ := e
    simp only [read, peerClosed, hg, Option.map_some, Option.bind_eq_bind, Option.bind_some] at h
    cases isReadEnd with
    | false => simp at h
    | true =>
      refine ⟨j, rfl, ?_⟩
      simp only [Bool.not_true, Bool.false_eq_true, if_false, if_true, beq_iff_eq] at h
      split at h
      next hl => cases h; exact .inl ⟨hl, rfl, rfl⟩
      next hl =>
        split at h
        next hw => cases h; exact .inr (.inl ⟨by omega, hw, rfl, rfl⟩)
        next hw => cases h; exact .inr (.inr ⟨by omega, hw, rfl, rfl⟩)

end FdPipe

/-! ## Runs

A run keeps, beside the kernel, what was accepted by writes to and returned
by reads of each pipe since it was last allocated. -/

structure PipeRun where
  kernel : Kernel
  accepted : Nat → List Byte
  returned : Nat → List Byte

/-- The operations of `fd_pipe.rs`. Between them the descriptor tables, and
which task runs, change in any way whatever (`descriptors`). -/
inductive PipeOp
  | descriptors (current : Slot) (threads : Slot → Option Thread) (processes : Slot → Option Process)
  | alloc
  | clear (pipeIdx : Nat)
  | retainRead (pipeIdx : Nat)
  | retainWrite (pipeIdx : Nat)
  | releaseRead (pipeIdx : Nat)
  | releaseWrite (pipeIdx : Nat)
  | setStatusFlags (fd : Nat) (flags : BitVec 32)
  | write (fd : Nat) (bytes : List Byte)
  | read (fd count : Nat)

namespace PipeRun

def withKernel (s : PipeRun) (k : Kernel) : PipeRun := { s with kernel := k }

/-- A call that fails changes nothing. -/
def step (s : PipeRun) : PipeOp → Option PipeRun
  | .descriptors current threads processes =>
    some (s.withKernel { s.kernel with current, threads, processes })
  | .alloc =>
    match FdPipe.alloc s.kernel with
    | some (j, k) => some
      { kernel := k
        accepted := Function.update s.accepted j []
        returned := Function.update s.returned j [] }
    | none => some s
  | .clear j => some (s.withKernel (FdPipe.clear s.kernel j))
  | .retainRead j => some (s.withKernel ((FdPipe.retainRead s.kernel j).getD s.kernel))
  | .retainWrite j => some (s.withKernel ((FdPipe.retainWrite s.kernel j).getD s.kernel))
  | .releaseRead j => some (s.withKernel (FdPipe.releaseRead s.kernel j))
  | .releaseWrite j => some (s.withKernel (FdPipe.releaseWrite s.kernel j))
  | .setStatusFlags fd flags => some (s.withKernel ((FdPipe.setStatusFlags s.kernel fd flags).getD s.kernel))
  | .write fd bytes =>
    match FdPipe.getMut s.kernel fd, FdPipe.write s.kernel fd bytes with
    | some (j, _), some (written, k) => some
      { s with
        kernel := k
        accepted := Function.update s.accepted j (s.accepted j ++ bytes.take written) }
    | _, _ => some s
  | .read fd count =>
    match FdPipe.getMut s.kernel fd, FdPipe.read s.kernel fd count with
    | some (j, _), some (.bytes bs, k) => some
      { s with
        kernel := k
        returned := Function.update s.returned j (s.returned j ++ bs) }
    | _, _ => some s

end PipeRun

/-- What holds of one pipe and its two histories. -/
structure PipeHistory (p : Pipe) (accepted returned : List Byte) : Prop where
  ring : p.RingOK
  history : p.inUse → accepted = returned ++ p.unread

namespace PipeHistory

variable {p q : Pipe} {accepted returned : List Byte}

theorem congr (h : PipeHistory p accepted returned) (hr : q.ring = p.ring) (hu : q.inUse = p.inUse) :
    PipeHistory q accepted returned := by
  constructor
  · rw [Pipe.RingOK, hr]
    exact h.ring
  · rw [Pipe.unread, hr, hu]
    exact h.history

theorem empty : PipeHistory .empty accepted returned := ⟨Pipe.ringOK_empty, fun h => by cases h⟩

theorem new : PipeHistory .new [] [] := ⟨Pipe.ringOK_new, fun _ => by simp [Pipe.unread_new]⟩

theorem collect (h : PipeHistory p accepted returned) : PipeHistory (FdPipe.collect p) accepted returned := by
  unfold FdPipe.collect
  split
  · exact empty
  · exact h

variable {bs : List Byte}

theorem wrote {n : Nat} (h : PipeHistory p accepted returned) (hw : Pipe.Wrote p bs n q) :
    PipeHistory q (accepted ++ bs.take n) returned := by
  refine ⟨hw.ring, fun hu => ?_⟩
  rw [hw.ends.inUse] at hu
  rw [h.history hu, hw.unread, List.append_assoc]

theorem took {count : Nat} (h : PipeHistory p accepted returned) (ht : Pipe.Took p count bs q) :
    PipeHistory q accepted (returned ++ bs) := by
  refine ⟨ht.ring, fun hu => ?_⟩
  rw [ht.ends.inUse] at hu
  rw [h.history hu, ht.unread, ht.bytes, List.append_assoc, List.take_append_drop]

end PipeHistory

namespace PipeRun

/-- The invariant of a run, pipe by pipe. -/
def HistoryOK (s : PipeRun) : Prop := ∀ j, PipeHistory (s.kernel.pipes j) (s.accepted j) (s.returned j)

variable {s : PipeRun} {j : Nat} {p : Pipe}

variable {a r : List Byte}

theorem HistoryOK.update {k : Kernel} (h : s.HistoryOK) (hk : k.pipes = Function.update s.kernel.pipes j p)
    (hp : PipeHistory p a r) :
    HistoryOK ⟨k, Function.update s.accepted j a, Function.update s.returned j r⟩ := by
  intro i
  by_cases hij : i = j
  · subst hij
    simpa [hk] using hp
  · simpa [hk, hij] using h i

theorem HistoryOK.setPipe (h : s.HistoryOK) (hp : PipeHistory p (s.accepted j) (s.returned j)) :
    HistoryOK (s.withKernel (s.kernel.setPipe j p)) := by
  simpa [withKernel] using h.update (k := s.kernel.setPipe j p) rfl hp

theorem HistoryOK.accepts (h : s.HistoryOK) (hp : PipeHistory p a (s.returned j)) :
    HistoryOK { s with kernel := s.kernel.setPipe j p, accepted := Function.update s.accepted j a } := by
  simpa using h.update (k := s.kernel.setPipe j p) rfl hp

theorem HistoryOK.returns (h : s.HistoryOK) (hp : PipeHistory p (s.accepted j) r) :
    HistoryOK { s with kernel := s.kernel.setPipe j p, returned := Function.update s.returned j r } := by
  simpa using h.update (k := s.kernel.setPipe j p) rfl hp

theorem HistoryOK.step {t : PipeRun} {op : PipeOp} (h : s.HistoryOK) (hs : s.step op = some t) :
    t.HistoryOK := by
  cases op with
  | descriptors current threads processes => cases hs; exact h
  | alloc =>
    simp only [PipeRun.step, FdPipe.alloc] at hs
    split at hs
    next j k he =>
      cases hs
      split at he <;> cases he
      exact h.update rfl .new
    · cases hs; exact h
  | clear j =>
    cases hs
    unfold FdPipe.clear
    split
    · exact h.setPipe .empty
    · exact h
  | retainRead j =>
    cases hs
    unfold FdPipe.retainRead
    split
    · exact h.setPipe ((h j).congr rfl rfl)
    · exact h
  | retainWrite j =>
    cases hs
    unfold FdPipe.retainWrite
    split
    · exact h.setPipe ((h j).congr rfl rfl)
    · exact h
  | releaseRead j =>
    cases hs
    unfold FdPipe.releaseRead
    split
    · exact h.setPipe (.collect ((h j).congr rfl rfl))
    · exact h
  | releaseWrite j =>
    cases hs
    unfold FdPipe.releaseWrite
    split
    · exact h.setPipe (.collect ((h j).congr rfl rfl))
    · exact h
  | setStatusFlags fd flags =>
    cases hs
    unfold FdPipe.setStatusFlags
    cases FdPipe.getMut s.kernel fd with
    | none => exact h
    | some e =>
      refine h.setPipe ((h e.1).congr ?_ ?_)
      · split <;> rfl
      · split <;> rfl
  | write fd bytes =>
    simp only [PipeRun.step] at hs
    split at hs
    next j isReadEnd n k hg hw =>
      cases hs
      obtain ⟨j', hg', ⟨-, rfl, rfl⟩ | ⟨-, rfl, rfl⟩⟩ := FdPipe.write_cases hw
      · simpa using h
      · cases hg.symm.trans hg'
        exact h.accepts ((h j).wrote (Pipe.writeBytes_spec bytes (h j).ring))
    · cases hs; exact h
  | read fd count =>
    simp only [PipeRun.step] at hs
    split at hs
    next j isReadEnd bs k hg hr =>
      cases hs
      obtain ⟨j', hg', ⟨-, hb, rfl⟩ | ⟨-, -, hb, rfl⟩ | ⟨-, -, hb, -⟩⟩ := FdPipe.read_cases hr
      · cases hg.symm.trans hg'
        cases hb
        exact h.returns ((h j).took (Pipe.readBytes_spec count (h j).ring))
      · cases hb
        simpa using h
      · cases hb
    · cases hs; exact h

/-- No pipe is in use at boot. -/
def start (phys : Phys) (code : CodeAddrs) (kernelPml4 : Nat) : PipeRun where
  kernel := .statics phys code kernelPml4
  accepted := fun _ => []
  returned := fun _ => []

variable {phys : Phys} {code : CodeAddrs} {kernelPml4 : Nat}

theorem HistoryOK.start :
    (PipeRun.start phys code kernelPml4).HistoryOK :=
  fun _ => .empty

theorem HistoryOK.exec {ops : List PipeOp}
    (h : Lts.exec PipeRun.step (PipeRun.start phys code kernelPml4) ops = some s) : s.HistoryOK :=
  Lts.exec_invariant HistoryOK (fun _ _ _ hs ht => hs.step ht) .start h

end PipeRun

theorem FdPipe.alloc_cases {k k' : Kernel} {j : Nat} (h : FdPipe.alloc k = some (j, k')) :
    j < maxPipes ∧ (k.pipes j).inUse = false ∧ k' = k.setPipe j .new := by
  unfold FdPipe.alloc at h
  split at h
  next i hi =>
    cases h
    have hmem := List.mem_of_find?_eq_some hi
    have hfree := List.find?_some hi
    exact ⟨List.mem_range.mp hmem, by simpa using hfree, rfl⟩
  · cases h

/-- **A pipe is a bounded FIFO**, for any number of readers and writers. In
every state a run of pipe operations reaches, the cursors of every pipe agree
with its length; what the writes to a pipe in use have put in since it was
allocated is what its reads have taken out followed by the `len` bytes it
holds. A write takes the first `min n free` bytes it is offered, none without
a read end; a read of some bytes comes back empty only from an empty pipe
without a write end; and a pipe handed out anew starts empty with empty
histories, so nothing of an earlier life is ever read. -/
theorem pipe_is_fifo (phys : Phys) (code : CodeAddrs) (kernelPml4 : Nat) (ops : List PipeOp) (s : PipeRun)
    (h : Lts.exec PipeRun.step (PipeRun.start phys code kernelPml4) ops = some s) :
    (∀ j,
      (s.kernel.pipes j).writePos = ((s.kernel.pipes j).readPos + (s.kernel.pipes j).len) % pipeCapacity ∧
      (s.kernel.pipes j).len ≤ pipeCapacity ∧
      ((s.kernel.pipes j).inUse →
        s.accepted j = s.returned j ++ (s.kernel.pipes j).unread ∧
        (s.kernel.pipes j).unread.length = (s.kernel.pipes j).len)) ∧
    (∀ fd bytes n k, FdPipe.write s.kernel fd bytes = some (n, k) →
      ∃ j, FdPipe.getMut s.kernel fd = some (j, false) ∧
        (k.pipes j).unread = (s.kernel.pipes j).unread ++ bytes.take n ∧
        n = if (s.kernel.pipes j).readRefs = 0 then 0
          else min bytes.length (pipeCapacity - (s.kernel.pipes j).len)) ∧
    (∀ fd count bs k, FdPipe.read s.kernel fd count = some (.bytes bs, k) →
      ∃ j, FdPipe.getMut s.kernel fd = some (j, true) ∧
        bs = (s.kernel.pipes j).unread.take count ∧
        (k.pipes j).unread = (s.kernel.pipes j).unread.drop count ∧
        (0 < count → bs = [] → (s.kernel.pipes j).len = 0 ∧ (s.kernel.pipes j).writeRefs = 0)) ∧
    (∀ j k t, FdPipe.alloc s.kernel = some (j, k) → s.step .alloc = some t →
      t.kernel = k ∧ (s.kernel.pipes j).inUse = false ∧ (t.kernel.pipes j).inUse ∧
        (t.kernel.pipes j).unread = [] ∧ t.accepted j = [] ∧ t.returned j = []) := by
  have hok := PipeRun.HistoryOK.exec h
  refine ⟨fun j => ?_, fun fd bytes n k hw => ?_, fun fd count bs k hr => ?_, fun j k t ha ht => ?_⟩
  · refine ⟨(hok j).ring.writePos, (hok j).ring.len, fun hu => ⟨(hok j).history hu, Pipe.unread_length _⟩⟩
  · obtain ⟨j, hg, ⟨h0, rfl, rfl⟩ | ⟨h0, rfl, rfl⟩⟩ := FdPipe.write_cases hw
    · exact ⟨j, hg, by simp, by simp [h0]⟩
    · have hs := Pipe.writeBytes_spec bytes (hok j).ring
      refine ⟨j, hg, ?_, ?_⟩
      · rw [Kernel.setPipe_pipes, Function.update_self, hs.unread]
      · rw [if_neg h0, ← hs.count]
  · obtain ⟨j, hg, ⟨hpos, hb, rfl⟩ | ⟨h0, hw, hb, rfl⟩ | ⟨-, -, hb, -⟩⟩ := FdPipe.read_cases hr
    · have hs := Pipe.readBytes_spec count (hok j).ring
      cases hb
      refine ⟨j, hg, hs.bytes, ?_, fun hc hnil => ?_⟩
      · rw [Kernel.setPipe_pipes, Function.update_self, hs.unread]
      · rw [hs.bytes, List.take_eq_nil_iff] at hnil
        rcases hnil with hnil | hnil
        · omega
        · rw [← List.length_eq_zero_iff, Pipe.unread_length] at hnil
          omega
    · cases hb
      have hnil : (s.kernel.pipes j).unread = [] := List.eq_nil_of_length_eq_zero (by simpa using h0)
      exact ⟨j, hg, by simp [hnil], by simp [hnil], fun _ _ => ⟨h0, hw⟩⟩
    · cases hb
  · obtain ⟨-, hfree, rfl⟩ := FdPipe.alloc_cases ha
    simp only [PipeRun.step, ha, Option.some.injEq] at ht
    subst ht
    simp [hfree, Pipe.inUse_new, Pipe.unread_new]

/-- A process whose descriptors 3 and 4 are the ends of pipe 0. -/
def pipeHolder : Process :=
  { Process.newLeader 1 0 [] with
    fds := fun fd => if fd = 3 then .pipeRead 0 else if fd = 4 then .pipeWrite 0 else .empty }

def pipeHolderOps : List PipeOp :=
  [.alloc, .descriptors 0 (fun _ => some (.newLeader 1 0 0 0)) fun _ => some pipeHolder, .write 4 [7, 8], .read 3 1]

/-- Two bytes in and one out: the other is what the pipe still holds. -/
theorem pipe_is_fifo_pipeHolder :
    ∃ s, Lts.exec PipeRun.step (PipeRun.start ⟨.new, fun _ => 0⟩ ⟨0, 0⟩ 0) pipeHolderOps = some s ∧
      s.accepted 0 = [7, 8] ∧ s.returned 0 = [7] ∧ s.accepted 0 = s.returned 0 ++ (s.kernel.pipes 0).unread := by
  refine ⟨_, rfl, rfl, rfl, ?_⟩
  exact (((pipe_is_fifo _ _ _ pipeHolderOps _ rfl).1 0).2.2 rfl).1

end CoreOS
