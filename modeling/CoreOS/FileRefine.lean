/-
Reading and writing a file through descriptors, against a reference in which the
file is a byte string and every open-file description has one cursor.
-/
import CoreOS.FileIo

namespace CoreOS

open ByteMem Contents
open Option (map_some)

/-! ## Calls and their results -/

inductive FileCall
  | read (count : Nat)
  | write (bytes : List Byte)
  | lseek (offset : BitVec 64) (whence : Nat)
  | pread64 (count offset : Nat)
  | pwrite64 (bytes : List Byte) (offset : Nat)
  | ftruncate (len : Nat)

/-- What a call gives back, with the bytes it puts into the caller's buffer. -/
inductive FileResult
  | bytes (bytes : List Byte)
  | count (n : Nat)
  | error (e : SysError)
  deriving DecidableEq

/-- A call of the task in slot `task` on its descriptor `fd`. -/
structure FileUse where
  task : Slot
  fd : Nat
  call : FileCall

/-! ## The reference -/

/-- The file, and the cursor of every description. -/
structure FileModel where
  contents : List Byte
  cursor : Nat → Nat

namespace FileCall

/-- Whether the access mode lets a call through. -/
def allowed (mode : BitVec 32) : FileCall → Bool
  | read count => count = 0 ∨ mode ≠ oWronly
  | pread64 .. => mode ≠ oWronly
  | write _ => mode = oWronly ∨ mode = oRdwr
  | pwrite64 .. => mode ≠ oRdonly
  | lseek .. | ftruncate _ => true

/-- What the offset of a seek counts from. -/
def seekBase (size cursor whence : Nat) : Option Nat :=
  if whence = seekSet then some 0
  else if whence = seekCur then some cursor
  else if whence = seekEnd then some size
  else none

/-- Where a write begins. -/
def writeStart (append : Bool) (size cursor : Nat) : Nat := if append then size else cursor

/-- A call through a description: its result, the contents of the file and the
cursor after it. A seek beyond the largest `i64` goes there. -/
def model (append : Bool) (contents : List Byte) (cursor : Nat) : FileCall → FileResult × List Byte × Nat
  | read count =>
    let bytes := (contents.drop cursor).take count
    (.bytes bytes, contents, cursor + bytes.length)
  | write d =>
    let p := writeStart append contents.length cursor
    (.count d.length, overwrite 0 contents p d, p + d.length)
  | lseek offset whence =>
    match seekBase contents.length cursor whence with
    | none => (.error .invalid, contents, cursor)
    | some base =>
      if base + offset.toInt < 0 then (.error .invalid, contents, cursor)
      else
        let p := min (base + offset.toInt).toNat (2 ^ 63 - 1)
        (.count p, contents, p)
  | pread64 count offset => (.bytes ((contents.drop offset).take count), contents, cursor)
  | pwrite64 d offset => (.count d.length, overwrite 0 contents offset d, cursor)
  | ftruncate len => (.count 0, resize 0 contents len, cursor)

/-- The offsets and lengths a call brings together stay below `2 ^ 63`, and
`pread64` starts within the file. -/
def InRange (append : Bool) (contents : List Byte) (cursor : Nat) : FileCall → Prop
  | write d => writeStart append contents.length cursor + d.length < 2 ^ 63
  | pread64 _ offset => offset ≤ contents.length
  | pwrite64 d offset => offset + d.length < 2 ^ 63
  | ftruncate len => len < 2 ^ 63
  | read _ | lseek .. => True

instance {append : Bool} {contents : List Byte} {cursor : Nat} {c : FileCall} :
    Decidable (c.InRange append contents cursor) :=
  match c with
  | write _ | pwrite64 .. | ftruncate _ => Nat.decLt _ _
  | pread64 .. => Nat.decLe _ _
  | read _ | lseek .. => inferInstanceAs (Decidable True)

end FileCall

/-- The descriptors of a file: the description each belongs to, and the status
flags of the descriptions. -/
structure FileUsers where
  description : Slot → Nat → Option Nat
  flags : Nat → BitVec 32

namespace FileUsers

def append (d : FileUsers) (i : Nat) : Bool := d.flags i &&& oAppend ≠ 0

/-- A call in the reference: one that the mode forbids changes nothing, and only
the cursor of the description it goes through may move. -/
def call (d : FileUsers) (m : FileModel) (i : Nat) (c : FileCall) : FileResult × FileModel :=
  if c.allowed (d.flags i &&& oAccmode) then
    let (r, contents, cursor) := c.model (d.append i) m.contents (m.cursor i)
    (r, { contents, cursor := Function.update m.cursor i cursor })
  else (.error .badFd, m)

/-- The reference run, with the results so far. -/
def step (d : FileUsers) (s : FileModel × List FileResult) (u : FileUse) : Option (FileModel × List FileResult) :=
  (d.description u.task u.fd).map fun i =>
    let (r, m) := d.call s.1 i u.call
    (m, s.2 ++ [r])

def InRange (d : FileUsers) (s : FileModel × List FileResult) (u : FileUse) : Prop :=
  ∀ i, d.description u.task u.fd = some i → u.call.InRange (d.append i) s.1.contents (s.1.cursor i)

instance {d : FileUsers} {s : FileModel × List FileResult} {u : FileUse} : Decidable (d.InRange s u) :=
  match h : d.description u.task u.fd with
  | none => isTrue fun i hi => nomatch h.symm.trans hi
  | some i => decidable_of_iff (u.call.InRange (d.append i) s.1.contents (s.1.cursor i)) (by simp [InRange, h])

end FileUsers

/-! ## The kernel -/

namespace FileResult

def ofExcept : Except SysError Nat → FileResult
  | .ok n => .count n
  | .error e => .error e

end FileResult

/-- A call on the kernel; `none` is a panic. A read that would wait has no result
yet. -/
def FileCall.perform (k : Kernel) (fd : Nat) : FileCall → Option (FileResult × Kernel)
  | read count =>
    match readFromFd k fd count [] with
    | some (.bytes bytes, k) => some (.bytes bytes, k)
    | some (.wait, _) => none
    | none => some (.error .badFd, k)
  | write bytes => (writeToFd k fd bytes).map fun
    | (some n, k) => (.count n, k)
    | (none, k) => (.error .badFd, k)
  | lseek offset whence =>
    let (r, k) := CoreOS.lseek k fd offset whence
    some (.ofExcept r, k)
  | pread64 count offset => (CoreOS.pread64 k fd count offset).map fun
    | .ok bytes => (.bytes bytes, k)
    | .error e => (.error e, k)
  | pwrite64 bytes offset => (CoreOS.pwrite64 k fd bytes offset).map fun (r, k) => (.ofExcept r, k)
  | ftruncate len => (CoreOS.ftruncate k fd len).map fun (r, k) => (.ofExcept r, k)

namespace FileUse

/-- The task runs and makes its call. -/
def step (s : Kernel × List FileResult) (u : FileUse) : Option (Kernel × List FileResult) :=
  (u.call.perform { s.1 with current := u.task } u.fd).map fun (r, k) => (k, s.2 ++ [r])

end FileUse

/-- The descriptors of file `idx`. -/
def Kernel.fileUsers (k : Kernel) (idx : Nat) : FileUsers where
  description task fd := (fdOpenIdx { k with current := task } fd).filter fun i => (k.openFiles i).fileIdx = idx
  flags i := (k.openFiles i).statusFlags

/-- The file as the reference sees it. -/
def Kernel.fileModel (k : Kernel) (data : List Byte) : FileModel where
  contents := data
  cursor i := (k.openFiles i).offset

/-! ## One call -/

/-- The kernel with other files, and the cursor of description `i` elsewhere. -/
def Kernel.putFile (k : Kernel) (fs : Option RamFS) (i cursor : Nat) : Kernel :=
  (k.setFs fs).setOpenFile i { k.openFiles i with offset := cursor }

theorem Kernel.putFile_offset (k : Kernel) (fs : Option RamFS) (i : Nat) :
    k.putFile fs i (k.openFiles i).offset = k.setFs fs := by
  have : Function.update k.openFiles i (k.openFiles i) = k.openFiles := Function.update_eq_self i _
  simp only [Kernel.putFile, Kernel.setOpenFile, Kernel.setFs, this]

theorem Kernel.putFile_self (k : Kernel) (i : Nat) : k.putFile k.fs i (k.openFiles i).offset = k := k.putFile_offset k.fs i

theorem take_min_length {xs : List Byte} {p count : Nat} :
    (xs.drop p).take (min count (xs.length - p)) = (xs.drop p).take count := by
  rw [← List.length_drop]
  exact List.take_eq_take_min.symm

theorem seekTarget_eq {size cursor : Nat} (whence : Nat) (offset : BitVec 64) (hsize : size < 2 ^ 63)
    (hcur : cursor < 2 ^ 63) :
    seekTarget (toI64 size) (toI64 cursor) offset.toInt whence =
      (FileCall.seekBase size cursor whence).map fun (base : Nat) => min (base + offset.toInt) (2 ^ 63 - 1) := by
  have hlt := BitVec.toInt_lt (x := offset)
  have hle := BitVec.le_toInt (x := offset)
  rw [toI64_of_lt hsize, toI64_of_lt hcur]
  unfold seekTarget FileCall.seekBase i64SaturatingAdd
  by_cases hset : whence = seekSet
  · simp only [if_pos hset, map_some, Option.some.injEq]
    omega
  by_cases hrel : whence = seekCur
  · simp only [if_neg hset, if_pos hrel, map_some, Option.some.injEq]
    omega
  by_cases hend : whence = seekEnd
  · simp only [if_neg hset, if_neg hrel, if_pos hend, map_some, Option.some.injEq]
    omega
  · simp only [if_neg hset, if_neg hrel, if_neg hend, Option.map_none]

namespace OnFile

variable {k : Kernel} {fd i : Nat} {data : List Byte}

/-- A call on the kernel that goes as the reference says. -/
def Follows (k : Kernel) (fd i : Nat) (c : FileCall) (r : FileResult × List Byte × Nat) : Prop :=
  ∃ fs, c.perform k fd = some (r.1, k.putFile fs i r.2.2) ∧ fsData fs (k.openFiles i).fileIdx = some r.2.1

variable {c : FileCall}

theorem Follows.unchanged {r : FileResult} (hdata : fsData k.fs (k.openFiles i).fileIdx = some data)
    (h : c.perform k fd = some (r, k)) : Follows k fd i c (r, data, (k.openFiles i).offset) :=
  ⟨k.fs, by rw [k.putFile_self]; exact h, hdata⟩

theorem perform_forbidden (h : OnFile k fd i) (hmode : c.allowed ((k.openFiles i).statusFlags &&& oAccmode) = false) :
    c.perform k fd = some (.error .badFd, k) := by
  cases c with
  | read count =>
    simp only [FileCall.allowed, decide_eq_false_iff_not, not_or, not_not] at hmode
    simp only [FileCall.perform, h.readFromFd, h.readFile, if_neg hmode.1, if_pos hmode.2, Option.map_none]
  | write bytes =>
    simp only [FileCall.allowed, decide_eq_false_iff_not] at hmode
    simp only [FileCall.perform, h.writeToFd, writeFile, h.openIdx, if_neg hmode, map_some]
  | pread64 count offset =>
    simp only [FileCall.allowed, decide_eq_false_iff_not, not_not] at hmode
    simp only [FileCall.perform, h.pread64, if_pos hmode, map_some]
  | pwrite64 bytes offset =>
    simp only [FileCall.allowed, decide_eq_false_iff_not, not_not] at hmode
    simp only [FileCall.perform, h.pwrite64, if_pos hmode, map_some, FileResult.ofExcept]
  | lseek _ _ => cases hmode
  | ftruncate _ => cases hmode

variable {append : Bool}

theorem follows_read (h : OnFile k fd i) {count : Nat} (hdata : fsData k.fs (k.openFiles i).fileIdx = some data)
    (hlen : data.length < 2 ^ 63) (hcur : (k.openFiles i).offset < 2 ^ 63)
    (hmode : count = 0 ∨ (k.openFiles i).statusFlags &&& oAccmode ≠ oWronly) :
    Follows k fd i (.read count) (FileCall.model append data (k.openFiles i).offset (.read count)) := by
  refine ⟨k.fs, ?_, hdata⟩
  simp only [FileCall.perform, FileCall.model, h.readFromFd, h.readFile]
  by_cases hcount : count = 0
  · simp only [hcount, if_true, List.take_zero, List.length_nil, Nat.add_zero, k.putFile_self]
  · have hwrap : wrappingAdd (k.openFiles i).offset ((data.drop (k.openFiles i).offset).take count).length =
        (k.openFiles i).offset + ((data.drop (k.openFiles i).offset).take count).length := by
      refine wrappingAdd_of_lt ?_
      simp only [List.length_take, List.length_drop, usizeMod]
      omega
    simp only [if_neg hcount, if_neg (hmode.resolve_left hcount), map_some, fsRead, hdata, take_min_length, hwrap]
    rfl

theorem follows_write (h : OnFile k fd i) {bytes : List Byte} (hdata : fsData k.fs (k.openFiles i).fileIdx = some data)
    (hmode : (k.openFiles i).statusFlags &&& oAccmode = oWronly ∨ (k.openFiles i).statusFlags &&& oAccmode = oRdwr)
    (hlt : (k.openFiles i).writePos data.length + bytes.length < 2 ^ 63) :
    Follows k fd i (.write bytes) (.count bytes.length,
      overwrite 0 data ((k.openFiles i).writePos data.length) bytes,
      (k.openFiles i).writePos data.length + bytes.length) := by
  have hmax : (k.openFiles i).writePos data.length + bytes.length ≤ isizeMax := Nat.le_sub_one_of_lt hlt
  obtain ⟨fs, hw, hd⟩ := h.writeFile_ok hmode hdata hmax
  refine ⟨some fs, ?_, hd⟩
  simp only [FileCall.perform, h.writeToFd, hw, map_some]
  rfl

theorem follows_lseek (h : OnFile k fd i) {offset : BitVec 64} {whence : Nat}
    (hdata : fsData k.fs (k.openFiles i).fileIdx = some data) (hlen : data.length < 2 ^ 63)
    (hcur : (k.openFiles i).offset < 2 ^ 63) :
    Follows k fd i (.lseek offset whence)
      (FileCall.model append data (k.openFiles i).offset (.lseek offset whence)) := by
  have hsize : fsFileSize k.fs (k.openFiles i).fileIdx = data.length := by simp only [fsFileSize, hdata]
  have hseek : seek k fd offset.toInt whence =
      ((FileCall.seekBase data.length (k.openFiles i).offset whence).map fun (base : Nat) =>
        min (base + offset.toInt) (2 ^ 63 - 1)).bind fun newOff =>
          if newOff < 0 then none else some (newOff.toNat, k.putFile k.fs i newOff.toNat) := by
    rw [← seekTarget_eq whence offset hlen hcur]
    simp only [seek, h.openIdx, hsize, Option.bind_eq_bind, Option.bind_some]
    rfl
  have hfail : seek k fd offset.toInt whence = none →
      (FileCall.lseek offset whence).perform k fd = some (.error .invalid, k) := by
    intro hnone
    simp only [FileCall.perform, h.lseek, hnone, FileResult.ofExcept]
  simp only [FileCall.model]
  split
  next hbase =>
    refine .unchanged hdata (hfail ?_)
    rw [hseek, hbase]
    rfl
  next base hbase =>
    rw [hbase, map_some, Option.bind_some] at hseek
    split
    next hneg =>
      refine .unchanged hdata (hfail ?_)
      rw [hseek, if_pos (by omega)]
    next hpos =>
      have hto : (min (base + offset.toInt) (2 ^ 63 - 1)).toNat = min (base + offset.toInt).toNat (2 ^ 63 - 1) := by
        omega
      rw [if_neg (by omega), hto] at hseek
      refine ⟨k.fs, ?_, hdata⟩
      simp only [FileCall.perform, h.lseek, hseek, FileResult.ofExcept]

theorem follows_pread64 (h : OnFile k fd i) {count offset : Nat}
    (hdata : fsData k.fs (k.openFiles i).fileIdx = some data)
    (hmode : (k.openFiles i).statusFlags &&& oAccmode ≠ oWronly) (hle : offset ≤ data.length) :
    Follows k fd i (.pread64 count offset)
      (FileCall.model append data (k.openFiles i).offset (.pread64 count offset)) := by
  refine .unchanged hdata ?_
  simp only [FileCall.perform, h.pread64, if_neg hmode, fsReadToVec, hdata, if_neg (Nat.not_lt.mpr hle),
    map_some, take_min_length]

theorem follows_pwrite64 (h : OnFile k fd i) {bytes : List Byte} {offset : Nat}
    (hdata : fsData k.fs (k.openFiles i).fileIdx = some data)
    (hmode : (k.openFiles i).statusFlags &&& oAccmode ≠ oRdonly) (hlt : offset + bytes.length < 2 ^ 63) :
    Follows k fd i (.pwrite64 bytes offset)
      (FileCall.model append data (k.openFiles i).offset (.pwrite64 bytes offset)) := by
  have hmax : offset + bytes.length ≤ isizeMax := Nat.le_sub_one_of_lt hlt
  obtain ⟨fs, hw, hd⟩ := fsWriteAt_spec hdata hmax
  refine ⟨some fs, ?_, hd⟩
  simp only [FileCall.perform, FileCall.model, h.pwrite64, if_neg hmode, hw, map_some, FileResult.ofExcept,
    k.putFile_offset]

theorem follows_ftruncate (h : OnFile k fd i) {len : Nat} (hdata : fsData k.fs (k.openFiles i).fileIdx = some data)
    (hlt : len < 2 ^ 63) :
    Follows k fd i (.ftruncate len) (FileCall.model append data (k.openFiles i).offset (.ftruncate len)) := by
  have hmax : len ≤ isizeMax := Nat.le_sub_one_of_lt hlt
  obtain ⟨fs, hw, hd⟩ := fsResize_spec hdata hmax
  refine ⟨some fs, ?_, hd⟩
  simp only [FileCall.perform, FileCall.model, h.ftruncate, hw, map_some, FileResult.ofExcept, k.putFile_offset]

/-- **One call** through a descriptor does what the reference says. -/
theorem perform_model (h : OnFile k fd i) (hdata : fsData k.fs (k.openFiles i).fileIdx = some data)
    (hlen : data.length < 2 ^ 63) (hcur : (k.openFiles i).offset < 2 ^ 63)
    (hmode : c.allowed ((k.openFiles i).statusFlags &&& oAccmode) = true)
    (hrange : c.InRange ((k.openFiles i).statusFlags &&& oAppend ≠ 0) data (k.openFiles i).offset) :
    Follows k fd i c (c.model ((k.openFiles i).statusFlags &&& oAppend ≠ 0) data (k.openFiles i).offset) := by
  have hpos : FileCall.writeStart ((k.openFiles i).statusFlags &&& oAppend ≠ 0) data.length (k.openFiles i).offset =
      (k.openFiles i).writePos data.length := by
    simp only [FileCall.writeStart, OpenFile.writePos, decide_eq_true_eq]
  cases c with
  | read count =>
    simp only [FileCall.allowed, decide_eq_true_eq] at hmode
    exact h.follows_read hdata hlen hcur hmode
  | write bytes =>
    simp only [FileCall.allowed, decide_eq_true_eq] at hmode
    simp only [FileCall.InRange, hpos] at hrange
    simp only [FileCall.model, hpos]
    exact h.follows_write hdata hmode hrange
  | lseek offset whence => exact h.follows_lseek hdata hlen hcur
  | pread64 count offset =>
    simp only [FileCall.allowed, decide_eq_true_eq] at hmode
    exact h.follows_pread64 hdata hmode hrange
  | pwrite64 bytes offset =>
    simp only [FileCall.allowed, decide_eq_true_eq] at hmode
    exact h.follows_pwrite64 hdata hmode hrange
  | ftruncate len => exact h.follows_ftruncate hdata hrange

end OnFile

/-! ## Sequences of calls -/

theorem FileCall.model_lt {c : FileCall} {append : Bool} {contents : List Byte} {cursor : Nat}
    (hlen : contents.length < 2 ^ 63) (hcur : cursor < 2 ^ 63) (hrange : c.InRange append contents cursor) :
    (c.model append contents cursor).2.1.length < 2 ^ 63 ∧ (c.model append contents cursor).2.2 < 2 ^ 63 := by
  cases c with
  | read count =>
    refine ⟨hlen, ?_⟩
    simp only [model, List.length_take, List.length_drop]
    omega
  | write d =>
    simp only [InRange] at hrange
    simp only [model, length_overwrite]
    omega
  | lseek offset whence =>
    simp only [model]
    split
    · exact ⟨hlen, hcur⟩
    split
    · exact ⟨hlen, hcur⟩
    · exact ⟨hlen, by dsimp only; omega⟩
  | pread64 count offset => exact ⟨hlen, hcur⟩
  | pwrite64 d offset =>
    simp only [InRange] at hrange
    simp only [model, length_overwrite]
    omega
  | ftruncate len =>
    simp only [model, length_resize]
    exact ⟨hrange, hcur⟩

/-- Kernel `k` later on, when only files and cursors have changed and another
task may run. -/
def Kernel.later (k : Kernel) (fs : Option RamFS) (task : Slot) (cursor : Nat → Nat) : Kernel :=
  { k with
    fs
    current := task
    openFiles := fun i => { k.openFiles i with offset := cursor i } }

theorem Kernel.later_putFile (k : Kernel) (fs fs' : Option RamFS) (task : Slot) (cursor : Nat → Nat) (i p : Nat) :
    (k.later fs task cursor).putFile fs' i p = k.later fs' task (Function.update cursor i p) := by
  have : Function.update (fun x => { k.openFiles x with offset := cursor x }) i { k.openFiles i with offset := p } =
      fun x => { k.openFiles x with offset := Function.update cursor i p x } := by
    funext x
    by_cases hx : x = i
    · subst hx
      simp only [Function.update_self]
    · simp only [Function.update_of_ne hx]
  simp only [putFile, setOpenFile, setFs, later, this]

/-- The reference with what the kernel's integers can hold. -/
structure FileModel.Fits (k : Kernel) (idx : Nat) (m : FileModel) : Prop where
  length : m.contents.length < 2 ^ 63
  cursor : ∀ i, (k.openFiles i).fileIdx = idx → m.cursor i < 2 ^ 63

theorem Kernel.perform_later {k : Kernel} {idx fd i : Nat} {fs : Option RamFS} {task : Slot} {m : FileModel}
    {c : FileCall} (hi : (k.fileUsers idx).description task fd = some i) (hfs : fsData fs idx = some m.contents)
    (hm : m.Fits k idx) (hrange : c.InRange ((k.fileUsers idx).append i) m.contents (m.cursor i)) :
    ∃ fs', c.perform (k.later fs task m.cursor) fd = some (((k.fileUsers idx).call m i c).1,
        k.later fs' task ((k.fileUsers idx).call m i c).2.cursor) ∧
      fsData fs' idx = some ((k.fileUsers idx).call m i c).2.contents ∧ ((k.fileUsers idx).call m i c).2.Fits k idx := by
  obtain ⟨hopen, hidx⟩ := Option.filter_eq_some_iff.mp hi
  obtain rfl : (k.openFiles i).fileIdx = idx := by simpa using hidx
  -- the descriptor leads to the same description as at the start
  have hon : OnFile (k.later fs task m.cursor) fd i := fdOpenIdx_eq_some.mp hopen
  unfold FileUsers.call
  split
  next hmode =>
    obtain ⟨fs', hp, hd⟩ := hon.perform_model hfs hm.length (hm.cursor i rfl) hmode hrange
    have hlt := FileCall.model_lt hm.length (hm.cursor i rfl) hrange
    rw [later_putFile] at hp
    refine ⟨fs', hp, hd, hlt.1, fun x hx => ?_⟩
    dsimp only
    by_cases hxi : x = i
    · subst hxi
      rw [Function.update_self]
      exact hlt.2
    · rw [Function.update_of_ne hxi]
      exact hm.cursor x hx
  next hmode =>
    exact ⟨fs, hon.perform_forbidden (Bool.eq_false_iff.mpr hmode), hfs, hm⟩

/-- The kernel, started at `k`, and the reference agree on file `idx`. -/
structure FileAgree (k : Kernel) (idx : Nat) (s : Kernel × List FileResult) (a : FileModel × List FileResult) : Prop where
  results : s.2 = a.2
  kernel : ∃ fs task, s.1 = k.later fs task a.1.cursor ∧ fsData fs idx = some a.1.contents
  fits : a.1.Fits k idx

theorem FileAgree.step {k : Kernel} {idx : Nat} {s : Kernel × List FileResult} {a b : FileModel × List FileResult}
    {u : FileUse} (h : FileAgree k idx s a) (hrange : (k.fileUsers idx).InRange a u)
    (hb : (k.fileUsers idx).step a u = some b) : ∃ t, FileUse.step s u = some t ∧ FileAgree k idx t b := by
  obtain ⟨i, hi, rfl⟩ := Option.map_eq_some_iff.mp hb
  obtain ⟨fs, task, hk, hfs⟩ := h.kernel
  obtain ⟨fs', hp, hd, hm⟩ := Kernel.perform_later hi hfs h.fits (hrange i hi)
  refine ⟨(k.later fs' u.task ((k.fileUsers idx).call a.1 i u.call).2.cursor,
    s.2 ++ [((k.fileUsers idx).call a.1 i u.call).1]), ?_, ⟨by rw [h.results], ⟨fs', u.task, rfl, hd⟩, hm⟩⟩
  have hcur : { s.1 with current := u.task } = k.later fs u.task a.1.cursor := by
    rw [hk]
    rfl
  rw [FileUse.step, hcur, hp]
  rfl

/-- **Descriptor I/O refines the byte-array file.** From any kernel, for any
sequence of calls of any tasks on descriptors of one file that stay in range,
whatever their sharing: no call panics, every result is the reference's, and so
are the contents of the file and every cursor at the end. -/
theorem descriptor_io_refines (k : Kernel) (idx : Nat) (data : List Byte) (uses : List FileUse) (m : FileModel)
    (results : List FileResult) (hdata : fsData k.fs idx = some data) (hfits : (k.fileModel data).Fits k idx)
    (hrange : Lts.Meets (k.fileUsers idx).step (k.fileUsers idx).InRange (k.fileModel data, []) uses)
    (hrun : Lts.exec (k.fileUsers idx).step (k.fileModel data, []) uses = some (m, results)) :
    ∃ k', Lts.exec FileUse.step (k, []) uses = some (k', results) ∧ fsData k'.fs idx = some m.contents ∧
      ∀ i, (k'.openFiles i).offset = m.cursor i := by
  have hstart : FileAgree k idx (k, []) (k.fileModel data, []) := ⟨rfl, ⟨k.fs, k.current, rfl, hdata⟩, hfits⟩
  have hstep : ∀ s a u b, FileAgree k idx s a → (k.fileUsers idx).InRange a u → (k.fileUsers idx).step a u = some b →
      ∃ t, FileUse.step s u = some t ∧ FileAgree k idx t b := fun _ _ _ _ h hrange hb => h.step hrange hb
  obtain ⟨⟨k', results'⟩, hexec, hres, ⟨fs, task, hk, hfs⟩, -⟩ :=
    Lts.exec_follows (FileAgree k idx) hstep hstart hrange hrun
  dsimp only at hres hk hfs
  subst hres hk
  exact ⟨_, hexec, hfs, fun i => rfl⟩

/-- Two tasks share description 0 of a file, the first through two descriptors;
description 1 of the file was opened for appending. -/
def fileSharers : Kernel :=
  { Kernel.statics ⟨.new, fun _ => 0⟩ ⟨0, 0⟩ 0 with
    fs := some ⟨[⟨['a'], []⟩]⟩
    threads := fun task => some (.newLeader (task + 1) 0 task task)
    processes := fun task => some
      { Process.newLeader (task + 1) 0 [] with
        fds := fun fd => if fd = 3 ∨ fd = 4 then .openFile 0 else if fd = 5 then .openFile 1 else .empty }
    openFiles := fun i => ⟨0, 0, if i = 0 then oRdwr else oWronly ||| oAppend, 1, i < 2⟩ }

/-- The first task writes; the other one seeks back and reads; then bytes are
appended, written past the end, and cut. -/
def fileSharersUses : List FileUse :=
  [⟨0, 3, .write [1, 2, 3]⟩, ⟨1, 4, .lseek (-2) seekCur⟩, ⟨1, 3, .read 8⟩, ⟨0, 5, .write [9]⟩,
    ⟨0, 4, .pwrite64 [7] 6⟩, ⟨0, 5, .read 1⟩, ⟨1, 4, .pread64 9 2⟩, ⟨0, 3, .lseek (-9) seekEnd⟩, ⟨1, 5, .ftruncate 5⟩]

theorem descriptor_io_refines_fileSharers :
    ∃ k, Lts.exec FileUse.step (fileSharers, []) fileSharersUses = some (k, [.count 3, .count 1, .bytes [2, 3],
        .count 1, .count 1, .error .badFd, .bytes [3, 9, 0, 0, 7], .error .invalid, .count 0]) ∧
      fsData k.fs 0 = some [1, 2, 3, 9, 0] ∧ (k.openFiles 0).offset = 3 := by
  have hfits : (fileSharers.fileModel []).Fits fileSharers 0 := ⟨by decide, fun i _ => Nat.two_pow_pos 63⟩
  have hrun : (Lts.exec (fileSharers.fileUsers 0).step (fileSharers.fileModel [], []) fileSharersUses).map
      (fun s => (s.2, s.1.contents, s.1.cursor 0)) = some ([.count 3, .count 1, .bytes [2, 3],
        .count 1, .count 1, .error .badFd, .bytes [3, 9, 0, 0, 7], .error .invalid, .count 0], [1, 2, 3, 9, 0], 3) := by
    decide +kernel
  obtain ⟨⟨m, results⟩, hexec, hobs⟩ := Option.map_eq_some_iff.mp hrun
  simp only [Prod.mk.injEq] at hobs
  obtain ⟨rfl, hcontents, hcursor⟩ := hobs
  obtain ⟨k, hk, hdata, hoff⟩ := descriptor_io_refines fileSharers 0 [] fileSharersUses m _ rfl hfits (by decide +kernel) hexec
  exact ⟨k, hk, by rw [hdata, hcontents], by rw [hoff, hcursor]⟩

end CoreOS
