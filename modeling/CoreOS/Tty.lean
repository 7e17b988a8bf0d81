/-
The terminal (`hw/tty.rs`). Keystrokes are edited in a line buffer; a line end
moves the line into a ring of cooked bytes, from which reads take at most one
line at a time.
-/
import CoreOS.Fd
import CoreOS.Lib.Exec
import CoreOS.Lib.Ring
import Mathlib.Data.List.TakeDrop

namespace CoreOS

open ByteMem

def cookedCapacity : Nat := 1024

def lineCapacity : Nat := 256

def newline : Byte := 0x0a

/-- The locked part of `Tty` (`Inner`). -/
structure Tty where
  cooked : Nat → Byte
  cookedHead : Nat
  cookedTail : Nat
  line : Nat → Byte
  lineLen : Nat

/-- What is shown for a keystroke. -/
inductive Echo
  | none
  | byte (b : Byte)
  | backspace
  | newline
  deriving DecidableEq

/-- The bytes written to the screen for it. -/
def Echo.shown : Echo → List Byte
  | none => []
  | byte b => [b]
  | backspace => [0x08, 0x20, 0x08]
  | newline => [CoreOS.newline]

/-- The keys that commit the line. -/
def isCommit (b : Byte) : Bool := b = 0x0d || b = 0x0a

def isBackspace (b : Byte) : Bool := b = 0x08 || b = 0x7f

def isPrintable (b : Byte) : Bool := 0x20 ≤ b && b ≤ 0x7e

namespace Tty

def new : Tty := ⟨fun _ => 0, 0, 0, fun _ => 0, 0⟩

def cookedIsEmpty (t : Tty) : Bool := t.cookedHead = t.cookedTail

def cookedIsFull (t : Tty) : Bool := (t.cookedHead + 1) % cookedCapacity = t.cookedTail

/-- A byte for which there is no room is dropped. -/
def cookedPush (t : Tty) (byte : Byte) : Tty :=
  if t.cookedIsFull then t
  else
    { t with
      cooked := Function.update t.cooked t.cookedHead byte
      cookedHead := (t.cookedHead + 1) % cookedCapacity }

def cookedPop (t : Tty) : Option (Byte × Tty) :=
  if t.cookedIsEmpty then none
  else some (t.cooked t.cookedTail, { t with cookedTail := (t.cookedTail + 1) % cookedCapacity })

def commitLine (t : Tty) : Tty :=
  let t := (List.range t.lineLen).foldl (fun t i => t.cookedPush (t.line i)) t
  { t.cookedPush newline with lineLen := 0 }

def inputChar (t : Tty) (byte : Byte) : Echo × Tty :=
  if isCommit byte then (.newline, t.commitLine)
  else if isBackspace byte then
    if t.lineLen = 0 then (.none, t) else (.backspace, { t with lineLen := t.lineLen - 1 })
  else if isPrintable byte then
    if lineCapacity ≤ t.lineLen then (.none, t)
    else (.byte byte, { t with line := Function.update t.line t.lineLen byte, lineLen := t.lineLen + 1 })
  else (.none, t)

/-- The locked loop of `Tty::read`: at most `count` bytes, and none after a line
end. -/
def copyOut (t : Tty) : Nat → List Byte × Tty
  | 0 => ([], t)
  | count + 1 =>
    match t.cookedPop with
    | none => ([], t)
    | some (byte, t) =>
      if byte = newline then ([byte], t)
      else
        let (bytes, t) := t.copyOut count
        (byte :: bytes, t)

/-- One round of the loop of `Tty::read`; `wait` is the call of
`wait_for_event`, after which the next round begins. -/
def read (t : Tty) (count : Nat) : FdPipe.ReadRound × Tty :=
  if count = 0 then (.bytes [], t)
  else
    let (bytes, t) := t.copyOut count
    if bytes.isEmpty then (.wait, t) else (.bytes bytes, t)

/-! ## The ring between the indices -/

/-- How many bytes lie between the indices. -/
def used (t : Tty) : Nat := (t.cookedHead + cookedCapacity - t.cookedTail) % cookedCapacity

/-- The bytes between them, oldest first. -/
def unread (t : Tty) : List Byte := (List.range t.used).map fun i => t.cooked ((t.cookedTail + i) % cookedCapacity)

/-- The line being edited. -/
def pending (t : Tty) : List Byte := (List.range t.lineLen).map t.line

/-- The indices are inside the ring. -/
structure IndicesOK (t : Tty) : Prop where
  head : t.cookedHead < cookedCapacity
  tail : t.cookedTail < cookedCapacity

def ring (t : Tty) : RingBuf Byte where
  buf := t.cooked
  readPos := t.cookedTail
  writePos := t.cookedHead
  len := t.used

@[simp] theorem unread_length (t : Tty) : t.unread.length = t.used := by
  simp [unread]

@[simp] theorem pending_length (t : Tty) : t.pending.length = t.lineLen := by
  simp [pending]

variable {t : Tty}

theorem IndicesOK.ring (h : t.IndicesOK) : RingBuf.WellFormed cookedCapacity t.ring := by
  obtain ⟨hh, ht⟩ := h
  refine ⟨ht, ?_, (Nat.mod_lt _ (by decide)).le⟩
  simp only [Tty.ring, used, cookedCapacity] at *
  omega

theorem IndicesOK.cookedPush (h : t.IndicesOK) (byte : Byte) : (t.cookedPush byte).IndicesOK := by
  unfold Tty.cookedPush
  split
  · exact h
  · exact ⟨Nat.mod_lt _ (by decide), h.tail⟩

theorem IndicesOK.inputChar (h : t.IndicesOK) (byte : Byte) : (t.inputChar byte).2.IndicesOK := by
  have hpushed : ∀ is : List Nat, ∀ t : Tty, t.IndicesOK →
      (is.foldl (fun t i => t.cookedPush (t.line i)) t).IndicesOK := by
    intro is
    induction is with
    | nil => exact fun t ht => ht
    | cons i is ih => exact fun t ht => ih _ (ht.cookedPush _)
  unfold Tty.inputChar
  split
  · have hline := (hpushed (List.range t.lineLen) t h).cookedPush newline
    exact ⟨hline.head, hline.tail⟩
  split
  · split
    · exact h
    · exact ⟨h.head, h.tail⟩
  split
  · split
    · exact h
    · exact ⟨h.head, h.tail⟩
  · exact h

theorem cookedIsEmpty_iff (h : t.IndicesOK) : t.cookedIsEmpty = true ↔ t.used = 0 := by
  obtain ⟨hh, ht⟩ := h
  rw [cookedIsEmpty, decide_eq_true_eq]
  simp only [used, cookedCapacity] at *
  omega

theorem cookedIsFull_iff (h : t.IndicesOK) : t.cookedIsFull = true ↔ t.used = cookedCapacity - 1 := by
  obtain ⟨hh, ht⟩ := h
  rw [cookedIsFull, decide_eq_true_eq]
  simp only [used, cookedCapacity] at *
  omega

theorem cookedPush_spec (h : t.IndicesOK) (byte : Byte) (hroom : t.used + 1 < cookedCapacity) :
    (t.cookedPush byte).IndicesOK ∧ (t.cookedPush byte).unread = t.unread ++ [byte] ∧
      (t.cookedPush byte).line = t.line ∧ (t.cookedPush byte).lineLen = t.lineLen := by
  have hfull : ¬ t.cookedIsFull = true := by
    rw [cookedIsFull_iff h]
    omega
  rw [cookedPush, if_neg hfull]
  refine ⟨⟨Nat.mod_lt _ (by decide), h.tail⟩, ?_, rfl, rfl⟩
  have hlen : used { t with
      cooked := Function.update t.cooked t.cookedHead byte
      cookedHead := (t.cookedHead + 1) % cookedCapacity } = t.used + 1 := by
    obtain ⟨hh, ht⟩ := h
    simp only [used, cookedCapacity] at *
    omega
  have hpush := RingBuf.items_push (x := byte) h.ring (Nat.lt_of_succ_lt hroom)
  rw [unread, hlen]
  exact hpush

theorem cookedPop_spec (h : t.IndicesOK) :
    (t.unread = [] ∧ t.cookedPop = none) ∨
    ∃ byte t', t.cookedPop = some (byte, t') ∧ t.unread = byte :: t'.unread ∧ t'.IndicesOK ∧
      t'.line = t.line ∧ t'.lineLen = t.lineLen := by
  by_cases hz : t.used = 0
  · refine .inl ⟨List.eq_nil_of_length_eq_zero (by rw [unread_length, hz]), ?_⟩
    rw [cookedPop, if_pos ((cookedIsEmpty_iff h).mpr hz)]
  · right
    have hempty : ¬ t.cookedIsEmpty = true := fun he => hz ((cookedIsEmpty_iff h).mp he)
    rw [cookedPop, if_neg hempty]
    refine ⟨_, _, rfl, ?_, ⟨h.head, Nat.mod_lt _ (by decide)⟩, rfl, rfl⟩
    have hlen : used { t with cookedTail := (t.cookedTail + 1) % cookedCapacity } = t.used - 1 := by
      obtain ⟨hh, ht⟩ := h
      simp only [used, cookedCapacity] at *
      omega
    have hpop := RingBuf.items_pop h.ring (Nat.pos_of_ne_zero hz)
    rw [unread, unread, hlen]
    exact hpop

/-! ## One operation -/

/-- The bytes up to the first line end, with it. -/
def firstLine : List Byte → List Byte
  | [] => []
  | b :: bs => if b = newline then [b] else b :: firstLine bs

theorem firstLine_cons_ne_nil (b : Byte) (bs : List Byte) : firstLine (b :: bs) ≠ [] := by
  rw [firstLine]
  split <;> simp

theorem newline_notMem_firstLine (bs : List Byte) : newline ∉ (firstLine bs).dropLast := by
  induction bs with
  | nil => simp [firstLine]
  | cons b bs ih =>
    rw [firstLine]
    split
    · simp
    next hb =>
      cases hrest : firstLine bs with
      | nil => simp
      | cons c cs =>
        rw [hrest] at ih
        rw [List.dropLast_cons_cons, List.mem_cons, not_or]
        exact ⟨fun he => hb he.symm, ih⟩

theorem pushLine_spec (h : t.IndicesOK) {n : Nat} (hroom : t.used + n < cookedCapacity) :
    let t' := (List.range n).foldl (fun t i => t.cookedPush (t.line i)) t
    t'.IndicesOK ∧ t'.unread = t.unread ++ (List.range n).map t.line ∧ t'.line = t.line ∧ t'.lineLen = t.lineLen := by
  induction n with
  | zero => exact ⟨h, by simp, rfl, rfl⟩
  | succ n ih =>
    obtain ⟨hok, hunread, hline, hlen⟩ := ih (by omega)
    simp only [List.range_succ, List.foldl_append, List.foldl_cons, List.foldl_nil, List.map_append, List.map_cons,
      List.map_nil]
    generalize (List.range n).foldl (fun t i => t.cookedPush (t.line i)) t = t' at hok hunread hline hlen
    have hused : t'.used = t.used + n := by
      rw [← unread_length, hunread]
      simp
    obtain ⟨hok', hunread', hline', hlen'⟩ := cookedPush_spec hok (t'.line n) (by omega)
    refine ⟨hok', ?_, hline'.trans hline, hlen'.trans hlen⟩
    rw [hunread', hunread, hline, List.append_assoc]

theorem commitLine_spec (h : t.IndicesOK) (hroom : t.used + t.lineLen + 1 < cookedCapacity) :
    t.commitLine.IndicesOK ∧ t.commitLine.unread = t.unread ++ (t.pending ++ [newline]) ∧ t.commitLine.pending = [] := by
  obtain ⟨hok, hunread, -, -⟩ := pushLine_spec h (n := t.lineLen) (by omega)
  unfold commitLine
  dsimp only
  generalize (List.range t.lineLen).foldl (fun t i => t.cookedPush (t.line i)) t = t' at hok hunread
  have hused : t'.used = t.used + t.lineLen := by
    rw [← unread_length, hunread]
    simp
  obtain ⟨hok', hunread', -, -⟩ := cookedPush_spec hok newline (by omega)
  refine ⟨⟨hok'.head, hok'.tail⟩, ?_, rfl⟩
  refine hunread'.trans ?_
  rw [hunread, List.append_assoc]
  rfl

theorem copyOut_spec (count : Nat) (h : t.IndicesOK) :
    (t.copyOut count).1 = (firstLine t.unread).take count ∧ (t.copyOut count).2.IndicesOK ∧
      t.unread = (t.copyOut count).1 ++ (t.copyOut count).2.unread ∧ (t.copyOut count).2.pending = t.pending := by
  induction count generalizing t with
  | zero => exact ⟨List.take_zero.symm, h, rfl, rfl⟩
  | succ count ih =>
    rcases cookedPop_spec h with ⟨hnil, hpop⟩ | ⟨byte, t', hpop, hunread, hok, hline, hlen⟩
    · have hnone : t.copyOut (count + 1) = ([], t) := by simp only [copyOut, hpop]
      rw [hnone, hnil]
      exact ⟨rfl, h, rfl, rfl⟩
    · have hpending : t'.pending = t.pending := by rw [pending, pending, hline, hlen]
      rw [hunread]
      simp only [copyOut, hpop, firstLine]
      split
      · exact ⟨by simp, hok, rfl, hpending⟩
      · obtain ⟨hbytes, hok', hunread', hpending'⟩ := ih hok
        refine ⟨?_, hok', ?_, hpending'.trans hpending⟩
        · rw [hbytes, List.take_succ_cons]
        · rw [List.cons_append, ← hunread']

theorem read_cases (count : Nat) (h : t.IndicesOK) :
    (∃ bytes t', t.read count = (.bytes bytes, t') ∧ bytes = (firstLine t.unread).take count ∧ t'.IndicesOK ∧
      t.unread = bytes ++ t'.unread ∧ t'.pending = t.pending ∧ (count = 0 ∨ t.unread ≠ [])) ∨
    (t.read count = (.wait, t) ∧ t.unread = [] ∧ 0 < count) := by
  unfold read
  split
  next hz => exact .inl ⟨[], t, rfl, by rw [hz, List.take_zero], h, rfl, rfl, .inl hz⟩
  next hz =>
    rcases cookedPop_spec h with ⟨hnil, hpop⟩ | ⟨byte, t', -, hunread, -⟩
    · obtain ⟨n, rfl⟩ := Nat.exists_eq_succ_of_ne_zero hz
      simp only [copyOut, hpop]
      exact .inr ⟨rfl, hnil, Nat.succ_pos n⟩
    · obtain ⟨hbytes, hok, hrest, hpending⟩ := copyOut_spec count h
      refine .inl ⟨(t.copyOut count).1, (t.copyOut count).2, ?_, hbytes, hok, hrest, hpending, .inr (by rw [hunread]; simp)⟩
      have hne : (t.copyOut count).1 ≠ [] := by
        rw [hbytes, hunread, Ne, List.take_eq_nil_iff]
        exact not_or.mpr ⟨hz, firstLine_cons_ne_nil byte t'.unread⟩
      exact if_neg fun he => hne (List.isEmpty_iff.mp he)

end Tty

/-! ## The line discipline -/

/-- What the typist has: the lines committed so far, each with its line end, and
the line being edited. -/
structure Typing where
  lines : List (List Byte)
  line : List Byte

namespace Typing

/-- A keystroke that does not commit: a backspace takes the last character away,
a printable character is appended unless the line holds 256 already, and
anything else is ignored. -/
def edit (line : List Byte) (b : Byte) : List Byte :=
  if isBackspace b then line.dropLast
  else if isPrintable b ∧ line.length < lineCapacity then line ++ [b]
  else line

def type (s : Typing) (b : Byte) : Typing :=
  if isCommit b then ⟨s.lines ++ [s.line ++ [newline]], []⟩ else ⟨s.lines, edit s.line b⟩

/-- After the keystrokes `bs`. -/
def after (bs : List Byte) : Typing := bs.foldl type ⟨[], []⟩

theorem after_append (bs : List Byte) (b : Byte) : after (bs ++ [b]) = (after bs).type b := by
  simp [after]

end Typing

/-- Keystrokes and rounds of reads, in any order. -/
inductive TtyOp
  | input (byte : Byte)
  | read (count : Nat)

/-- A terminal with what was typed and the reads that returned: their counts and
their bytes. -/
structure TtyRun where
  tty : Tty
  typed : List Byte
  reads : List (Nat × List Byte)

namespace TtyRun

def start : TtyRun := ⟨.new, [], []⟩

/-- A round of a read that has to wait changes nothing. -/
def step (s : TtyRun) : TtyOp → Option TtyRun
  | .input byte => some { s with tty := (s.tty.inputChar byte).2, typed := s.typed ++ [byte] }
  | .read count =>
    match s.tty.read count with
    | (.bytes bytes, tty) => some { s with tty, reads := s.reads ++ [(count, bytes)] }
    | (.wait, tty) => some { s with tty }

/-- A commit finds room for the line and its end among the 1023 places. -/
def Room (s : TtyRun) : TtyOp → Prop
  | .input byte => isCommit byte → s.tty.used + s.tty.lineLen + 1 ≤ cookedCapacity - 1
  | .read _ => True

instance {s : TtyRun} {op : TtyOp} : Decidable (s.Room op) :=
  match op with
  | .input _ => inferInstanceAs (Decidable (_ → _))
  | .read _ => inferInstanceAs (Decidable True)

/-- All bytes read so far. -/
def delivered (s : TtyRun) : List Byte := s.reads.flatMap Prod.snd

/-- The terminal holds the line that the typist edits, and between its indices
what was committed and not read. -/
structure Faithful (s : TtyRun) : Prop where
  indices : s.tty.IndicesOK
  line : s.tty.pending = (Typing.after s.typed).line
  queue : s.delivered ++ s.tty.unread = (Typing.after s.typed).lines.flatten
  reads : ∀ r ∈ s.reads, r.2.length ≤ r.1 ∧ newline ∉ r.2.dropLast

theorem Faithful.start : Faithful .start := ⟨⟨by decide, by decide⟩, rfl, rfl, by simp [TtyRun.start]⟩

namespace Faithful

variable {s t : TtyRun}

theorem inputChar {byte : Byte} (h : s.Faithful) (hc : isCommit byte = false) :
    (s.tty.inputChar byte).2.IndicesOK ∧ (s.tty.inputChar byte).2.unread = s.tty.unread ∧
      (s.tty.inputChar byte).2.pending = Typing.edit (Typing.after s.typed).line byte := by
  have hok := h.indices
  rw [Tty.inputChar, if_neg (by simp [hc]), Typing.edit, ← h.line]
  split
  · split
    next hz => exact ⟨hok, rfl, by simp [Tty.pending, hz]⟩
    next hz =>
      refine ⟨⟨hok.head, hok.tail⟩, rfl, ?_⟩
      obtain ⟨n, hn⟩ := Nat.exists_eq_succ_of_ne_zero hz
      simp [Tty.pending, hn, List.range_succ]
  · split
    next hp =>
      split
      next hfull => exact ⟨hok, rfl, by rw [if_neg]; simpa using fun _ => hfull⟩
      next hroom =>
        refine ⟨⟨hok.head, hok.tail⟩, rfl, ?_⟩
        rw [if_pos ⟨hp, by simpa using hroom⟩]
        simp only [Tty.pending, List.range_succ, List.map_append, List.map_cons, List.map_nil, Function.update_self]
        congr 1
        refine List.map_congr_left fun i hi => Function.update_of_ne ?_ _ _
        rw [List.mem_range] at hi
        omega
    next hp => exact ⟨hok, rfl, by rw [if_neg (by simp [hp])]⟩

theorem step {op : TtyOp} (h : s.Faithful) (hroom : s.Room op) (hs : s.step op = some t) : t.Faithful := by
  cases op with
  | input byte =>
    cases hs
    cases hc : isCommit byte with
    | true =>
      have hfits := hroom hc
      obtain ⟨hok, hunread, hpending⟩ := Tty.commitLine_spec h.indices (by unfold cookedCapacity at *; omega)
      have hin : (s.tty.inputChar byte).2 = s.tty.commitLine := by rw [Tty.inputChar, if_pos hc]
      refine ⟨hin ▸ hok, ?_, ?_, h.reads⟩
      · simp only [hin, hpending, Typing.after_append, Typing.type, hc, if_true]
      · simp only [hin, hunread, Typing.after_append, Typing.type, hc, if_true, List.flatten_append,
          List.flatten_cons, List.flatten_nil, List.append_nil]
        rw [← h.queue, ← h.line, List.append_assoc]
        rfl
    | false =>
      obtain ⟨hok, hunread, hpending⟩ := h.inputChar hc
      refine ⟨hok, ?_, ?_, h.reads⟩
      · simp only [hpending, Typing.after_append, Typing.type, hc, Bool.false_eq_true, if_false]
      · simp only [hunread, Typing.after_append, Typing.type, hc, Bool.false_eq_true, if_false]
        exact h.queue
  | read count =>
    rcases Tty.read_cases count h.indices with ⟨bytes, tty, hread, hbytes, hok, hunread, hpending, -⟩ | ⟨hread, -⟩
    · simp only [TtyRun.step, hread, Option.some.injEq] at hs
      cases hs
      refine ⟨hok, hpending.trans h.line, ?_, ?_⟩
      · rw [← h.queue, hunread]
        simp [delivered]
      · intro r hr
        rcases List.mem_append.mp hr with hr | hr
        · exact h.reads r hr
        · rw [List.mem_singleton.mp hr, hbytes]
          refine ⟨List.length_take_le _ _, fun hmem => ?_⟩
          rw [List.dropLast_take_eq_take_dropLast] at hmem
          exact Tty.newline_notMem_firstLine _ (List.mem_of_mem_take hmem)
    · simp only [TtyRun.step, hread, Option.some.injEq] at hs
      exact hs ▸ h

end Faithful

end TtyRun

/-- The keystrokes of a run. -/
def TtyOp.keys (ops : List TtyOp) : List Byte :=
  ops.filterMap fun
    | .input byte => some byte
    | .read _ => none

namespace TtyRun

theorem exec_typed {ops : List TtyOp} {s t : TtyRun} (h : Lts.exec step s ops = some t) :
    t.typed = s.typed ++ TtyOp.keys ops := by
  induction ops generalizing s with
  | nil =>
    cases h
    simp [TtyOp.keys]
  | cons op ops ih =>
    obtain ⟨u, hu, ht⟩ := Lts.exec_cons.mp h
    rw [ih ht]
    cases op with
    | input byte =>
      cases hu
      simp [TtyOp.keys]
    | read count =>
      simp only [step] at hu
      split at hu <;> (cases hu; simp [TtyOp.keys])

/-- **The terminal is a faithful line discipline.** As long as every commit finds
room for its line, what the reads have returned is a prefix of the lines
committed by the keystrokes, each edited by its backspaces and cut at 256
characters; no read returns more than it asked for or goes past a line end; and
what lies between the indices is what was committed and not read. -/
theorem line_discipline (ops : List TtyOp) (s : TtyRun) (hroom : Lts.Meets step Room start ops)
    (hrun : Lts.exec step start ops = some s) :
    s.delivered <+: (Typing.after (TtyOp.keys ops)).lines.flatten ∧
      (∀ r ∈ s.reads, r.2.length ≤ r.1 ∧ newline ∉ r.2.dropLast) ∧
      s.tty.IndicesOK ∧ s.delivered ++ s.tty.unread = (Typing.after (TtyOp.keys ops)).lines.flatten := by
  have h : s.Faithful :=
    Lts.exec_invariant_of_meets Faithful (fun _ _ _ h hroom hs => h.step hroom hs) .start hroom hrun
  have hkeys : s.typed = TtyOp.keys ops := exec_typed hrun
  rw [← hkeys]
  exact ⟨⟨s.tty.unread, h.queue⟩, h.reads, h.indices, h.queue⟩

/-- `ab`, a backspace, `c` and a line end are typed and read in two pieces. -/
def editedLine : List TtyOp :=
  [.input 0x61, .input 0x62, .read 4, .input 0x08, .input 0x63, .input 0x0d, .read 2, .read 4]

theorem line_discipline_editedLine :
    ∃ s, Lts.exec step start editedLine = some s ∧ s.reads = [(2, [0x61, 0x63]), (4, [newline])] ∧
      s.delivered <+: (Typing.after (TtyOp.keys editedLine)).lines.flatten := by
  have hrun : (Lts.exec step start editedLine).map TtyRun.reads = some [(2, [0x61, 0x63]), (4, [newline])] := by
    decide +kernel
  obtain ⟨s, hs, hreads⟩ := Option.map_eq_some_iff.mp hrun
  exact ⟨s, hs, hreads, (line_discipline editedLine s (by decide +kernel) hs).1⟩

/-- What holds also where input is lost for want of room. -/
structure InBounds (s : TtyRun) : Prop where
  indices : s.tty.IndicesOK
  line : s.tty.lineLen ≤ lineCapacity
  reads : ∀ r ∈ s.reads, r.2.length ≤ r.1 ∧ newline ∉ r.2.dropLast

/-- **Every buffer stays in bounds**, and no read passes its count or a line end,
whatever is typed and read from boot on. -/
theorem terminal_in_bounds (ops : List TtyOp) (s : TtyRun) (h : Lts.exec step start ops = some s) : s.InBounds := by
  refine Lts.exec_invariant InBounds (fun s op t hs hstep => ?_)
    ⟨Faithful.start.indices, Nat.zero_le _, Faithful.start.reads⟩ h
  obtain ⟨hok, hlen, hreads⟩ := hs
  cases op with
  | input byte =>
    cases hstep
    refine ⟨hok.inputChar byte, ?_, hreads⟩
    dsimp only [Tty.inputChar]
    grind [Tty.commitLine]
  | read count =>
    rcases Tty.read_cases count hok with ⟨bytes, tty, hr, hbytes, hok', -, hpending, -⟩ | ⟨hr, -⟩
    · simp only [step, hr] at hstep
      cases hstep
      have hkept : tty.lineLen = s.tty.lineLen := by simpa using congrArg List.length hpending
      refine ⟨hok', hkept ▸ hlen, fun r hr => ?_⟩
      rcases List.mem_append.mp hr with hr | hr
      · exact hreads r hr
      · rw [List.mem_singleton.mp hr, hbytes]
        refine ⟨List.length_take_le _ _, fun hmem => ?_⟩
        rw [List.dropLast_take_eq_take_dropLast] at hmem
        exact Tty.newline_notMem_firstLine _ (List.mem_of_mem_take hmem)
    · simp only [step, hr] at hstep
      cases hstep
      exact ⟨hok, hlen, hreads⟩

theorem terminal_in_bounds_editedLine : ∃ s, Lts.exec step start editedLine = some s ∧ s.InBounds :=
  ⟨_, rfl, terminal_in_bounds editedLine _ rfl⟩

end TtyRun

end CoreOS
