/-
What the file calls can do to the kernel, call by call, and what they come down
to on a descriptor that leads to an open file (`OnFile`): its description and
the bytes of the file.
-/
import CoreOS.Lib.Contents
import CoreOS.PipeFifo
import CoreOS.SyscallVfs

namespace CoreOS

open ByteMem

/-! ## What a call can do -/

/-- What an open does to the files before it opens one: it may create it, and
truncate it. -/
inductive FsPrepared (fs : Option RamFS) : Option RamFS → Prop
  | same : FsPrepared fs fs
  | created {fs1 : Option RamFS} {name : List Char} {fs2 : RamFS} (h : FsPrepared fs fs1)
      (hc : Vfs.create fs1 name = some fs2) : FsPrepared fs (some fs2)
  | truncated {fs1 : Option RamFS} {idx : Nat} {fs2 : RamFS} (h : FsPrepared fs fs1)
      (hr : fsResize fs1 idx 0 = some (some fs2)) : FsPrepared fs (some fs2)

variable {fs : Option RamFS}

theorem FsPrepared.trans {fs1 fs2 : Option RamFS} (h1 : FsPrepared fs fs1) (h2 : FsPrepared fs1 fs2) :
    FsPrepared fs fs2 := by
  induction h2 with
  | same => exact h1
  | created _ hc ih => exact .created ih hc
  | truncated _ hr ih => exact .truncated ih hr

/-- The status flags of a file opened with `flags`. -/
def openStatus (flags : BitVec 64) : BitVec 32 := flags.setWidth 32 &&& (oAccmode ||| oAppend ||| oNonblock)

theorem fdOrBad_kernel (r : Option Nat × Kernel) : (fdOrBad r).2 = r.2 := by
  obtain ⟨_ | fd, k⟩ := r <;> rfl

theorem openFound_cases (k : Kernel) (fileIdx : Option Nat) (flags : BitVec 64) :
    (openFound k fileIdx flags).2 = k ∨
    ∃ fs idx, FsPrepared k.fs fs ∧ (openFound k fileIdx flags).2 = (openFile (k.setFs fs) idx (openStatus flags)).2 := by
  unfold openFound
  split
  · exact .inl rfl
  next idx =>
    dsimp only
    split
    · exact .inl rfl
    next k1 hk1 =>
      right
      obtain ⟨fs, hfs, rfl⟩ : ∃ fs, FsPrepared k.fs fs ∧ k1 = k.setFs fs := by
        split at hk1
        · split at hk1
          next fs hr =>
            cases hk1
            exact ⟨some fs, .truncated .same hr, rfl⟩
          · cases hk1
          · cases hk1
        · cases hk1
          exact ⟨k.fs, .same, rfl⟩
      refine ⟨fs, idx, hfs, ?_⟩
      unfold openStatus
      split
      next fd k2 ho => rw [ho]
      next k2 ho => rw [ho]

theorem openPath_cases (k : Kernel) (path : List Char) (flags : BitVec 64) :
    ∃ fs, FsPrepared k.fs fs ∧ ((openPath k path flags).2 = k.setFs fs ∨
      ∃ idx, (openPath k path flags).2 = (openFile (k.setFs fs) idx (openStatus flags)).2) := by
  have hsame : ∀ {k' : Kernel}, k' = k → ∃ fs, FsPrepared k.fs fs ∧ (k' = k.setFs fs ∨
      ∃ idx, k' = (openFile (k.setFs fs) idx (openStatus flags)).2) := fun h => ⟨k.fs, .same, .inl h⟩
  unfold openPath
  split
  · exact hsame rfl
  split
  · exact hsame rfl
  split
  · exact hsame rfl
  split
  next idx _ =>
    split
    · exact hsame rfl
    · rcases openFound_cases k (some idx) flags with h | ⟨fs, idx, hfs, h⟩
      · exact hsame h
      · exact ⟨fs, hfs, .inr ⟨idx, h⟩⟩
  · split
    · exact hsame rfl
    · split
      · exact hsame rfl
      next fs hc =>
        rcases openFound_cases (k.setFs (some fs)) (fsFindIdx (some fs) path) flags with h | ⟨fs', idx, hfs', h⟩
        · exact ⟨some fs, .created .same hc, .inl h⟩
        · exact ⟨fs', FsPrepared.trans (.created .same hc) hfs', .inr ⟨idx, h⟩⟩

/-- **What an open can do.** It opens a file, perhaps a new or truncated one,
fills a descriptor with a device, or duplicates one of the first three. -/
theorem syscallOpen_cases (k : Kernel) (raw : List Byte) (flags : BitVec 64) :
    (∃ fs, FsPrepared k.fs fs ∧ ((syscallOpen k raw flags).2 = k.setFs fs ∨
      ∃ idx, (syscallOpen k raw flags).2 = (openFile (k.setFs fs) idx (openStatus flags)).2)) ∨
    (∃ target fd k', openCharDevice k target = some (fd, k') ∧ (syscallOpen k raw flags).2 = k') ∨
    ∃ fd, (syscallOpen k raw flags).2 = (dupMin k fd 3 false).2 := by
  have hsame : ∀ {k' : Kernel}, k' = k → ∃ fs, FsPrepared k.fs fs ∧ (k' = k.setFs fs ∨
      ∃ idx, k' = (openFile (k.setFs fs) idx (openStatus flags)).2) := fun h => ⟨k.fs, .same, .inl h⟩
  have hdev : ∀ target, (fdOrBad (openSpecialPath.openDevice k target)).2 = k ∨
      ∃ target' fd k', openCharDevice k target' = some (fd, k') ∧
        (fdOrBad (openSpecialPath.openDevice k target)).2 = k' := by
    intro target
    rw [fdOrBad_kernel]
    unfold openSpecialPath.openDevice
    split
    next fd k' ho => exact .inr ⟨target, fd, k', ho, rfl⟩
    · exact .inl rfl
  have hspecial : ∀ r, openSpecialPath k raw flags = some r →
      (∃ fs, FsPrepared k.fs fs ∧ (r.2 = k.setFs fs ∨ ∃ idx, r.2 = (openFile (k.setFs fs) idx (openStatus flags)).2)) ∨
      (∃ target fd k', openCharDevice k target = some (fd, k') ∧ r.2 = k') ∨ ∃ fd, r.2 = (dupMin k fd 3 false).2 := by
    intro r h
    unfold openSpecialPath at h
    split at h
    · cases h
      exact .inl (hsame rfl)
    split at h
    · cases h
      exact (hdev .null).imp hsame .inl
    split at h
    · cases h
      exact (hdev .zero).imp hsame .inl
    split at h
    · cases h
      exact (hdev .tty).imp hsame .inl
    split at h
    · cases h
      exact .inr (.inr ⟨0, fdOrBad_kernel _⟩)
    split at h
    · cases h
      exact .inr (.inr ⟨1, fdOrBad_kernel _⟩)
    split at h
    · cases h
      exact .inr (.inr ⟨2, fdOrBad_kernel _⟩)
    split at h
    · split at h
      · cases h
        exact .inl (hsame rfl)
      · cases h
        exact .inl (openPath_cases k _ flags)
    · cases h
  unfold syscallOpen
  split
  next r hr => exact hspecial r hr
  · split
    · exact .inl (hsame rfl)
    next path _ => exact .inl (openPath_cases k path flags)

variable {k k' : Kernel} {fd : Nat} {bytes : List Byte}

theorem readFile_cases {count : Nat} (h : readFile k fd count = some (bytes, k')) :
    ∃ i n, fdOpenIdx k fd = some i ∧ k' = k.setOpenFile i { k.openFiles i with offset := n } := by
  simp only [readFile, Option.bind_eq_bind, Option.bind_eq_some_iff] at h
  obtain ⟨i, hi, h⟩ := h
  split at h
  · cases h
  · cases h
    exact ⟨i, _, hi, rfl⟩

theorem readFromFd_cases {count : Nat} {typed : List Byte} {r : FdPipe.ReadRound}
    (h : readFromFd k fd count typed = some (r, k')) :
    k' = k ∨ (∃ j, (k.pipes j).inUse = true ∧ k' = k.setPipe j ((k.pipes j).readBytes count).2) ∨
      ∃ i n, fdOpenIdx k fd = some i ∧ k' = k.setOpenFile i { k.openFiles i with offset := n } := by
  unfold readFromFd at h
  split at h
  · cases h
    exact .inl rfl
  split at h
  · cases h
    exact .inl rfl
  split at h
  · cases h
    exact .inl rfl
  · cases h
    exact .inl rfl
  · cases h
    exact .inl rfl
  split at h
  next r' hr =>
    cases h
    obtain ⟨j, hj, hk⟩ := FdPipe.read_cases hr
    rcases hk with ⟨-, -, rfl⟩ | ⟨-, -, -, rfl⟩ | ⟨-, -, -, rfl⟩
    · exact .inr (.inl ⟨j, FdPipe.getMut_inUse hj, rfl⟩)
    · exact .inl rfl
    · exact .inl rfl
  · obtain ⟨⟨bytes, k1⟩, hk1, he⟩ := Option.map_eq_some_iff.mp h
    cases he
    exact .inr (.inr (readFile_cases hk1))

theorem writeFile_cases {n : Option Nat} (h : writeFile k fd bytes = some (n, k')) :
    (n = none ∧ k' = k) ∨
    ∃ i fs offset, fdOpenIdx k fd = some i ∧
      fsWriteAt k.fs (k.openFiles i).fileIdx offset bytes = some (some fs) ∧ n = some bytes.length ∧
      k' = (k.setFs (some fs)).setOpenFile i { k.openFiles i with offset := wrappingAdd offset bytes.length } := by
  unfold writeFile at h
  split at h
  · cases h
    exact .inl ⟨rfl, rfl⟩
  next i hi =>
    dsimp only at h
    split at h
    · split at h
      · cases h
      · cases h
        exact .inl ⟨rfl, rfl⟩
      next fs hfs =>
        cases h
        exact .inr ⟨i, fs, _, hi, hfs, rfl, rfl⟩
    · cases h
      exact .inl ⟨rfl, rfl⟩

theorem writeToFd_cases {n : Option Nat} (h : writeToFd k fd bytes = some (n, k')) :
    k' = k ∨ (∃ j, (k.pipes j).inUse = true ∧ k' = k.setPipe j ((k.pipes j).writeBytes bytes).2) ∨
      ∃ i fs offset, fdOpenIdx k fd = some i ∧
        fsWriteAt k.fs (k.openFiles i).fileIdx offset bytes = some (some fs) ∧
        k' = (k.setFs (some fs)).setOpenFile i { k.openFiles i with offset := wrappingAdd offset bytes.length } := by
  unfold writeToFd at h
  split at h
  · cases h
    exact .inl rfl
  split at h
  · cases h
    exact .inl rfl
  · cases h
    exact .inl rfl
  · cases h
    exact .inl rfl
  split at h
  · cases h
  next n' k1 hw =>
    cases h
    rcases writeFile_cases hw with ⟨hn, -⟩ | ⟨i, fs, offset, hi, hfs, -, hk⟩
    · cases hn
    · exact .inr (.inr ⟨i, fs, offset, hi, hfs, hk⟩)
  next k1 hw =>
    obtain rfl : k1 = k := by
      rcases writeFile_cases hw with ⟨-, hk⟩ | ⟨_, _, _, -, -, hn, -⟩
      · exact hk
      · cases hn
    split at h
    next n' k2 hp =>
      cases h
      obtain ⟨j, hj, hk⟩ := FdPipe.write_cases hp
      rcases hk with ⟨-, -, rfl⟩ | ⟨-, -, rfl⟩
      · exact .inl rfl
      · exact .inr (.inl ⟨j, FdPipe.getMut_inUse hj, rfl⟩)
    · cases h
      exact .inl rfl

variable {offset : Nat}

theorem pwrite64_cases {r : Except SysError Nat} (h : pwrite64 k fd bytes offset = some (r, k')) :
    k' = k ∨ ∃ idx fs, fsWriteAt k.fs idx offset bytes = some (some fs) ∧ k' = k.setFs (some fs) := by
  unfold pwrite64 at h
  split at h
  · cases h
    exact .inl rfl
  split at h
  · cases h
    exact .inl rfl
  split at h
  · cases h
    exact .inl rfl
  · obtain ⟨_ | fs, hfs, he⟩ := Option.map_eq_some_iff.mp h
    · cases he
      exact .inl rfl
    · cases he
      exact .inr ⟨_, fs, hfs, rfl⟩
  · cases h
    exact .inl rfl

theorem ftruncate_cases {len : Nat} {r : Except SysError Nat} (h : ftruncate k fd len = some (r, k')) :
    k' = k ∨ ∃ idx fs, fsResize k.fs idx len = some (some fs) ∧ k' = k.setFs (some fs) := by
  unfold ftruncate at h
  split at h
  · cases h
    exact .inl rfl
  · obtain ⟨_ | fs, hfs, he⟩ := Option.map_eq_some_iff.mp h
    · cases he
      exact .inl rfl
    · cases he
      exact .inr ⟨_, fs, hfs, rfl⟩
  · cases h
    exact .inl rfl

theorem touch_cases (k : Kernel) (raw : List Byte) :
    (touch k raw).2 = k ∨ ∃ path fs, Vfs.create k.fs path = some fs ∧ (touch k raw).2 = k.setFs (some fs) := by
  unfold touch
  split
  · exact .inl rfl
  · split
    · exact .inl rfl
    next fs hc => exact .inr ⟨_, fs, hc, rfl⟩

/-! ## What the calls on files have in common -/

/-- Files, cursors and what is in pipes in use may have changed, and nothing else. -/
inductive FileMoves (k : Kernel) : Kernel → Prop
  | refl : FileMoves k k
  | setFs {k' : Kernel} (h : FileMoves k k') (fs : Option RamFS) : FileMoves k (k'.setFs fs)
  | setOffset {k' : Kernel} (h : FileMoves k k') (i n : Nat) :
      FileMoves k (k'.setOpenFile i { k'.openFiles i with offset := n })
  | setPipe {k' : Kernel} (h : FileMoves k k') (j : Nat) {p : Pipe} (hu : (k'.pipes j).inUse = true)
      (hp : Pipe.SameEnds (k'.pipes j) p) : FileMoves k (k'.setPipe j p)

namespace FileMoves

variable {k k' k'' : Kernel}

theorem trans (h1 : FileMoves k k') (h2 : FileMoves k' k'') : FileMoves k k'' := by
  induction h2 with
  | refl => exact h1
  | setFs _ fs ih => exact ih.setFs fs
  | setOffset _ i n ih => exact ih.setOffset i n
  | setPipe _ j hu hp ih => exact ih.setPipe j hu hp

variable {fd : Nat}

theorem readFromFd {count : Nat} {typed : List Byte} {r : FdPipe.ReadRound}
    (h : CoreOS.readFromFd k fd count typed = some (r, k')) : FileMoves k k' := by
  rcases readFromFd_cases h with rfl | ⟨j, hu, rfl⟩ | ⟨i, n, -, rfl⟩
  · exact .refl
  · exact refl.setPipe j hu (Pipe.sameEnds_readBytes count)
  · exact refl.setOffset i n

theorem readvLoop {fd : Nat} : ∀ (iovs : List (Option ReadBuf)) (k : Kernel) (total : Nat),
    FileMoves k (CoreOS.readvLoop fd k iovs total).2.2
  | [], _, _ => .refl
  | none :: _, _, _ => .refl
  | some buf :: iovs, k, total => by
    unfold CoreOS.readvLoop
    split
    · exact .refl
    next k1 hr => exact readFromFd hr
    next bytes k1 hr =>
      dsimp only
      split
      · exact readFromFd hr
      · exact (readFromFd hr).trans (readvLoop iovs k1 _)

theorem readv (fd : Nat) (iovs : List (Option ReadBuf)) : FileMoves k (CoreOS.readv k fd iovs).2.2 := by
  unfold CoreOS.readv
  split
  · exact readvLoop iovs k 0
  · exact .refl

theorem writeToFd {bytes : List Byte} {n : Option Nat} (h : CoreOS.writeToFd k fd bytes = some (n, k')) :
    FileMoves k k' := by
  rcases writeToFd_cases h with rfl | ⟨j, hu, rfl⟩ | ⟨i, fs, offset, -, -, rfl⟩
  · exact .refl
  · exact refl.setPipe j hu (Pipe.sameEnds_writeBytes bytes)
  · exact (refl.setFs (some fs)).setOffset i _

theorem writevLoop {fd : Nat} : ∀ (iovs : List (Option (List Byte))) (k k' : Kernel) (total : Nat)
    (r : Except SysError Nat), CoreOS.writevLoop fd k iovs total = some (r, k') → FileMoves k k'
  | [], k, k', _, r, h => by
    cases h
    exact .refl
  | none :: _, k, k', _, r, h => by
    cases h
    exact .refl
  | some bytes :: iovs, k, k', total, r, h => by
    unfold CoreOS.writevLoop at h
    split at h
    · cases h
    next k1 hw =>
      cases h
      exact writeToFd hw
    next written k1 hw =>
      dsimp only at h
      split at h
      · cases h
        exact writeToFd hw
      · exact (writeToFd hw).trans (writevLoop iovs k1 k' _ r h)

variable {r : Except SysError Nat}

theorem writev {iovs : List (Option (List Byte))} (h : CoreOS.writev k fd iovs = some (r, k')) : FileMoves k k' := by
  unfold CoreOS.writev at h
  split at h
  · exact writevLoop iovs k k' 0 r h
  · cases h
    exact .refl

theorem pwrite64 {offset : Nat} {bytes : List Byte} (h : CoreOS.pwrite64 k fd bytes offset = some (r, k')) :
    FileMoves k k' := by
  rcases pwrite64_cases h with rfl | ⟨idx, fs, -, rfl⟩
  · exact .refl
  · exact refl.setFs (some fs)

theorem ftruncate {len : Nat} (h : CoreOS.ftruncate k fd len = some (r, k')) :
    FileMoves k k' := by
  rcases ftruncate_cases h with rfl | ⟨idx, fs, -, rfl⟩
  · exact .refl
  · exact refl.setFs (some fs)

theorem lseek {offset : BitVec 64} {whence : Nat} : FileMoves k (CoreOS.lseek k fd offset whence).2 := by
  unfold CoreOS.lseek
  split
  · exact .refl
  · split
    next newOff k' hs =>
      simp only [seek, Option.bind_eq_bind, Option.bind_eq_some_iff] at hs
      obtain ⟨i, -, n, -, hs⟩ := hs
      split at hs
      · cases hs
      · cases hs
        exact refl.setOffset i _
    · exact .refl
  · exact .refl

theorem sendfile {outFd inFd count : Nat} {offset : OffsetArg} {r : Except SysError (Nat × Option Int)}
    (h : CoreOS.sendfile k outFd inFd offset count = some (r, k')) : FileMoves k k' := by
  have hadvance : ∀ {k : Kernel} {start written : Nat}, FileMoves k (offset.advance k inFd start written).2 := by
    intro k start written
    unfold OffsetArg.advance
    split
    · split
      next i _ => exact refl.setOffset i _
      · exact .refl
    · exact .refl
    · exact .refl
  unfold CoreOS.sendfile at h
  split at h
  · cases h
    exact .refl
  split at h
  · cases h
    exact .refl
  split at h
  · cases h
    exact .refl
  · split at h
    · cases h
      exact .refl
    split at h
    · cases h
    · cases h
      exact .refl
    split at h
    · cases h
    next k1 hw =>
      cases h
      exact writeToFd hw
    next written k1 hw =>
      obtain rfl : (OffsetArg.advance k1 inFd _ written offset).2 = k' := congrArg Prod.snd (Option.some.inj h)
      exact (writeToFd hw).trans hadvance
  · cases h
    exact .refl

variable {raw : List Byte}

theorem touch : FileMoves k (CoreOS.touch k raw).2 := by
  rcases touch_cases k raw with h | ⟨path, fs, -, h⟩
  · rw [h]
    exact .refl
  · rw [h]
    exact refl.setFs (some fs)

theorem rm : FileMoves k (CoreOS.rm k raw).2 := by
  unfold CoreOS.rm
  split
  · exact .refl
  · split
    · exact .refl
    next fs _ => exact refl.setFs (some fs)

theorem unlinkat {flags : BitVec 64} : FileMoves k (CoreOS.unlinkat k raw flags).2 := by
  unfold CoreOS.unlinkat
  split
  · exact .refl
  split
  · exact .refl
  split
  · exact .refl
  · exact rm

end FileMoves

/-! ## The bytes of a file -/

open Contents

variable {idx : Nat} {data : List Byte}

theorem fsData_setData {fs : RamFS} (h : fsData (some fs) idx = some data) :
    fsData (some (fs.setData idx bytes)) idx = some bytes := by
  obtain ⟨f, hf, -⟩ := Option.map_eq_some_iff.mp h
  simp [fsData, RamFS.setData, hf]

theorem fsWriteAt_eq {fs : RamFS} (h : fsData (some fs) idx = some data) (hlt : offset + bytes.length ≤ isizeMax) :
    fsWriteAt (some fs) idx offset bytes = some (some (fs.setData idx (overwrite 0 data offset bytes))) := by
  have hstop : wrappingAdd offset bytes.length = offset + bytes.length := by
    refine wrappingAdd_of_lt ?_
    unfold isizeMax at hlt
    unfold usizeMod
    omega
  have hdata : vecCopyFrom (if data.length < offset + bytes.length then vecResize data (offset + bytes.length)
      else data) offset bytes = overwrite 0 data offset bytes := by
    unfold vecCopyFrom
    split
    next hshort =>
      rw [vecResize, take_append_replicate, take_append_drop (by simp), overwrite_resize (by omega)]
    next hlong => exact take_append_drop (by omega)
  simp only [fsWriteAt, h, hstop]
  rw [if_neg (by omega), hdata]

theorem fsWriteAt_spec (h : fsData fs idx = some data) (hlt : offset + bytes.length ≤ isizeMax) :
    ∃ fs', fsWriteAt fs idx offset bytes = some (some fs') ∧
      fsData (some fs') idx = some (overwrite 0 data offset bytes) := by
  cases fs with
  | none => cases h
  | some fs => exact ⟨_, fsWriteAt_eq h hlt, fsData_setData h⟩

theorem fsResize_spec {len : Nat} (h : fsData fs idx = some data) (hlt : len ≤ isizeMax) :
    ∃ fs', fsResize fs idx len = some (some fs') ∧ fsData (some fs') idx = some (resize 0 data len) := by
  cases fs with
  | none => cases h
  | some fs =>
    refine ⟨fs.setData idx (resize 0 data len), ?_, fsData_setData h⟩
    simp only [fsResize, h]
    rw [if_neg (by omega), vecResize, take_append_replicate]

/-! ## Descriptors of files -/

/-- Where a write begins in a file of `size` bytes: at the cursor, or at the end. -/
def OpenFile.writePos (f : OpenFile) (size : Nat) : Nat := if f.statusFlags &&& oAppend ≠ 0 then size else f.offset

/-- Descriptor `fd` of the current process leads to description `i`, which is
in use. -/
structure OnFile (k : Kernel) (fd i : Nat) : Prop where
  target : getFdTarget k fd = some (.openFile i)
  live : FdOpen.live k i = true

theorem fdOpenIdx_eq_some {i : Nat} : fdOpenIdx k fd = some i ↔ OnFile k fd i := by
  constructor
  · intro h
    unfold fdOpenIdx at h
    split at h
    next j hj =>
      split at h
      next hlive =>
        cases h
        exact ⟨hj, hlive⟩
      · cases h
    · cases h
  · intro h
    simp only [fdOpenIdx, h.target, h.live, if_true]

namespace OnFile

variable {k : Kernel} {fd i : Nat}

theorem openIdx (h : OnFile k fd i) : fdOpenIdx k fd = some i := fdOpenIdx_eq_some.mpr h

theorem inUse (h : OnFile k fd i) : (k.openFiles i).inUse = true := by
  have := h.live
  simp only [FdOpen.live, Bool.and_eq_true] at this
  exact this.2

theorem statusFlags (h : OnFile k fd i) : getStatusFlags k fd = some (k.openFiles i).statusFlags := by
  simp only [getStatusFlags, h.target, FdOpen.statusFlags, h.live, if_true]

theorem info (h : OnFile k fd i) :
    descriptorInfo k fd = some (.file (k.openFiles i).fileIdx (fsFileSize k.fs (k.openFiles i).fileIdx)) := by
  simp only [descriptorInfo, h.target, FdOpen.descriptorInfo, h.live, if_true]

theorem kept {k' : Kernel} (h : OnFile k fd i) (ht : getFdTarget k' fd = getFdTarget k fd)
    (hu : (k'.openFiles i).inUse = (k.openFiles i).inUse) : OnFile k' fd i := by
  refine ⟨ht.trans h.target, ?_⟩
  have := h.live
  rwa [FdOpen.live, ← hu] at this

theorem notPipe (h : OnFile k fd i) : FdPipe.getMut k fd = none := by
  simp only [FdPipe.getMut, h.target, Option.bind_some, FdPipe.resolve]

/-! ### Reading and writing -/

theorem readFile (h : OnFile k fd i) (count : Nat) :
    CoreOS.readFile k fd count =
      if (k.openFiles i).statusFlags &&& oAccmode = oWronly then none
      else
        let bytes := fsRead k.fs (k.openFiles i).fileIdx (k.openFiles i).offset count
        some (bytes, k.setOpenFile i
          { k.openFiles i with offset := wrappingAdd (k.openFiles i).offset bytes.length }) := by
  simp only [CoreOS.readFile, h.openIdx, Option.bind_eq_bind, Option.bind_some]

theorem readFromFd (h : OnFile k fd i) (count : Nat) (typed : List Byte) :
    CoreOS.readFromFd k fd count typed =
      if count = 0 then some (.bytes [], k)
      else (CoreOS.readFile k fd count).map fun (bytes, k) => (.bytes bytes, k) := by
  have hread : FdPipe.read k fd count = none := by
    simp only [FdPipe.read, FdPipe.peerClosed, h.notPipe, Option.map_none, Option.bind_eq_bind, Option.bind_none]
  simp only [CoreOS.readFromFd, isStdin, h.info, h.target, hread, Bool.false_eq_true, if_false]

theorem writeToFd (h : OnFile k fd i) (bytes : List Byte) : CoreOS.writeToFd k fd bytes = writeFile k fd bytes := by
  have hnone : ∀ {k' : Kernel}, writeFile k fd bytes = some (none, k') → k' = k := by
    intro k' hw
    rcases writeFile_cases hw with ⟨-, hk⟩ | ⟨_, _, _, -, -, hn, -⟩
    · exact hk
    · cases hn
  have hpipe : FdPipe.write k fd bytes = none := by
    simp only [FdPipe.write, h.notPipe, Option.bind_eq_bind, Option.bind_none]
  simp only [CoreOS.writeToFd, isStdoutOrStderr, h.info, h.target, Bool.false_eq_true, if_false]
  cases hw : writeFile k fd bytes with
  | none => rfl
  | some r =>
    obtain ⟨written, k'⟩ := r
    cases written with
    | some n => rfl
    | none =>
      obtain rfl := hnone hw
      simp only [hpipe]

theorem writeFile_ok {data bytes : List Byte} (h : OnFile k fd i)
    (hmode : (k.openFiles i).statusFlags &&& oAccmode = oWronly ∨ (k.openFiles i).statusFlags &&& oAccmode = oRdwr)
    (hdata : fsData k.fs (k.openFiles i).fileIdx = some data)
    (hlt : (k.openFiles i).writePos data.length + bytes.length ≤ isizeMax) :
    ∃ fs, writeFile k fd bytes = some (some bytes.length, (k.setFs (some fs)).setOpenFile i
        { k.openFiles i with offset := (k.openFiles i).writePos data.length + bytes.length }) ∧
      fsData (some fs) (k.openFiles i).fileIdx =
        some (overwrite 0 data ((k.openFiles i).writePos data.length) bytes) := by
  have hsize : fsFileSize k.fs (k.openFiles i).fileIdx = data.length := by simp only [fsFileSize, hdata]
  obtain ⟨fs, hw, hd⟩ := fsWriteAt_spec hdata hlt
  refine ⟨fs, ?_, hd⟩
  have hwrap : wrappingAdd ((k.openFiles i).writePos data.length) bytes.length =
      (k.openFiles i).writePos data.length + bytes.length := by
    refine wrappingAdd_of_lt ?_
    unfold isizeMax at hlt
    unfold usizeMod
    omega
  rw [← hwrap]
  unfold OpenFile.writePos at hw ⊢
  simp only [writeFile, h.openIdx, hmode, if_true, hsize, hw]

theorem pread64 (h : OnFile k fd i) (count offset : Nat) :
    CoreOS.pread64 k fd count offset =
      if (k.openFiles i).statusFlags &&& oAccmode = oWronly then some (.error .badFd)
      else (fsReadToVec k.fs (k.openFiles i).fileIdx offset count).map fun
        | some bytes => .ok bytes
        | none => .error .badFd := by
  unfold CoreOS.pread64
  rewrite [h.statusFlags, h.info]
  rfl

theorem pwrite64 (h : OnFile k fd i) (bytes : List Byte) (offset : Nat) :
    CoreOS.pwrite64 k fd bytes offset =
      if (k.openFiles i).statusFlags &&& oAccmode = oRdonly then some (.error .badFd, k)
      else (fsWriteAt k.fs (k.openFiles i).fileIdx offset bytes).map fun
        | some fs => (.ok bytes.length, k.setFs (some fs))
        | none => (.error .badFd, k) := by
  unfold CoreOS.pwrite64
  rewrite [h.statusFlags, h.info]
  rfl

theorem ftruncate (h : OnFile k fd i) (len : Nat) :
    CoreOS.ftruncate k fd len = (fsResize k.fs (k.openFiles i).fileIdx len).map fun
      | some fs => (.ok 0, k.setFs (some fs))
      | none => (.error .invalid, k) := by
  unfold CoreOS.ftruncate
  rewrite [h.info]
  rfl

theorem lseek (h : OnFile k fd i) (offset : BitVec 64) (whence : Nat) :
    CoreOS.lseek k fd offset whence = match seek k fd offset.toInt whence with
      | some (newOff, k) => (.ok newOff, k)
      | none => (.error .invalid, k) := by
  unfold CoreOS.lseek
  rewrite [h.info]
  rfl

end OnFile

end CoreOS
