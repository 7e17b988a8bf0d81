/-
Vector calls on regular files. `readv`, `writev`, `preadv` and `pwritev` are
loops of calls on one buffer each, with an early exit after a short one; on a
file that comes to the same as one call on all the bytes, scattered over the
buffers or gathered from them (`vectored_eq_scalar`).
-/
import CoreOS.UserIo

namespace CoreOS

open ByteMem Contents

/-! ## Scattering and gathering -/

/-- How long the buffers are together. -/
def Iovec.total (iovs : List Iovec) : Nat := (iovs.map Iovec.len).sum

/-- `bytes` put into the buffers in order, each filled before the next. -/
def scatter (user : Mem) : List Iovec → List Byte → Mem
  | [], _ => user
  | v :: iovs, bytes => scatter (store user v.base (bytes.take v.len)) iovs (bytes.drop v.len)

/-- The bytes of the buffers in order. -/
def gather (user : Mem) (iovs : List Iovec) : List Byte := iovs.flatMap fun v => load user v.base v.len

@[simp] theorem Iovec.total_cons (v : Iovec) (iovs : List Iovec) : total (v :: iovs) = v.len + total iovs := rfl

@[simp] theorem gather_cons (user : Mem) (v : Iovec) (iovs : List Iovec) :
    gather user (v :: iovs) = load user v.base v.len ++ gather user iovs := rfl

@[simp] theorem gather_length (user : Mem) (iovs : List Iovec) : (gather user iovs).length = Iovec.total iovs := by
  induction iovs with
  | nil => rfl
  | cons v iovs ih => rw [gather_cons, List.length_append, ih, Iovec.total_cons, load, List.length_map, List.length_range]

@[simp] theorem scatter_nil (user : Mem) (iovs : List Iovec) : scatter user iovs [] = user := by
  induction iovs with
  | nil => rfl
  | cons v iovs ih => rw [scatter, List.take_nil, List.drop_nil, store_nil, ih]

variable {v : Iovec} {iovs : List Iovec}

theorem scatter_short {user : Mem} {bytes : List Byte} (h : bytes.length ≤ v.len) :
    scatter user (v :: iovs) bytes = store user v.base bytes := by
  rw [scatter, List.take_of_length_le h, List.drop_eq_nil_of_le h, scatter_nil]

namespace Io

/-- One read of `Iovec.total` bytes, scattered over the buffers; with one buffer
it is `read_impl`. -/
def readScattered (s : Io) (fd : Nat) (iovs : List Iovec) : IoResult :=
  match s.readFromFd fd (Iovec.total iovs) with
  | none => .failed .badFd s
  | some (.wait, s) => .wait iovs 0 s
  | some (.bytes bytes, s) => .done bytes.length { s with user := scatter s.user iovs bytes }

/-- One `pread64_impl` of all the bytes, scattered. -/
def preadScattered (s : Io) (fd : Nat) (iovs : List Iovec) (offset : Nat) : IoResult :=
  match CoreOS.pread64 s.kernel fd (Iovec.total iovs) offset with
  | none => .panics
  | some (.error e) => .failed e s
  | some (.ok bytes) => .done bytes.length { s with user := scatter s.user iovs bytes }

/-- One write of the bytes of the buffers on end. -/
def writeGathered (s : Io) (fd : Nat) (iovs : List Iovec) : IoResult :=
  match s.writeToFd fd (gather s.user iovs) with
  | none => .panics
  | some (none, s) => .failed .badFd s
  | some (some written, s) => .done written s

/-- One `pwrite64_impl` of the bytes of the buffers on end. -/
def pwriteGathered (s : Io) (fd : Nat) (iovs : List Iovec) (offset : Nat) : IoResult :=
  match CoreOS.pwrite64 s.kernel fd (gather s.user iovs) offset with
  | none => .panics
  | some (.error e, k) => .failed e (s.withKernel k)
  | some (.ok written, k) => .done written (s.withKernel k)

end Io

/-! ## Buffers in user memory -/

theorem Iovec.ok_len (h : v.ok = true) : v.len ≤ userTop := by
  have := (userRangeOk_iff.mp h).2
  omega

theorem copyIovecsFromUser_length {user : Mem} {iovPtr iovcnt : Nat}
    (h : copyIovecsFromUser user iovPtr iovcnt = some iovs) : iovs ≠ [] ∧ iovs.length ≤ maxIov := by
  unfold copyIovecsFromUser at h
  split at h
  · cases h
  next hcnt =>
    split at h
    · cases h
    · cases h
      simp only [not_not, iovcntOk, Bool.and_eq_true, decide_eq_true_eq] at hcnt
      refine ⟨?_, by simpa using hcnt.2⟩
      simpa using hcnt.1

theorem Iovec.total_lt (hok : ∀ v ∈ iovs, v.ok = true) (hlen : iovs.length ≤ maxIov) :
    total iovs < usizeMod := by
  have hle : ∀ iovs : List Iovec, (∀ v ∈ iovs, v.ok = true) → total iovs ≤ iovs.length * userTop := by
    intro iovs hok
    induction iovs with
    | nil => exact Nat.zero_le _
    | cons v iovs ih =>
      have hv := ok_len (hok v List.mem_cons_self)
      have hrest := ih fun w hw => hok w (List.mem_cons_of_mem v hw)
      rw [total_cons, List.length_cons, Nat.succ_mul]
      omega
  calc total iovs ≤ iovs.length * userTop := hle iovs hok
    _ ≤ maxIov * userTop := Nat.mul_le_mul_right _ hlen
    _ < usizeMod := by decide

theorem Iovec.ok_lt (h : v.ok = true) : v.len < usizeMod := Nat.lt_of_le_of_lt (ok_len h) (by decide)

/-! ## Reading -/

/-- The contents of the file behind description `i`; none when it is gone. -/
def Kernel.fileBytes (k : Kernel) (i : Nat) : List Byte := (fsData k.fs (k.openFiles i).fileIdx).getD []

theorem fsRead_eq_take (k : Kernel) (i offset count : Nat) :
    fsRead k.fs (k.openFiles i).fileIdx offset count = ((k.fileBytes i).drop offset).take count := by
  unfold fsRead Kernel.fileBytes
  cases fsData k.fs (k.openFiles i).fileIdx with
  | none => simp
  | some data => exact take_min_length

/-- A cursor and contents as the machine can hold them. -/
structure FileFits (k : Kernel) (i : Nat) : Prop where
  cursor : (k.openFiles i).offset < usizeMod
  contents : (k.fileBytes i).length ≤ isizeMax

/-- The next `count` bytes from the cursor on. -/
def Kernel.ahead (k : Kernel) (i count : Nat) : List Byte := ((k.fileBytes i).drop (k.openFiles i).offset).take count

theorem FileFits.ahead_lt {k : Kernel} {i : Nat} (h : FileFits k i) (count : Nat) :
    (k.openFiles i).offset + (k.ahead i count).length < usizeMod := by
  have hcur := h.cursor
  have hlen := h.contents
  simp only [Kernel.ahead, List.length_take, List.length_drop]
  unfold isizeMax at hlen
  unfold usizeMod at *
  omega

theorem FileFits.writeStart_lt {k : Kernel} {i : Nat} (h : FileFits k i) : k.writeStart i < usizeMod := by
  have hsize : fsFileSize k.fs (k.openFiles i).fileIdx = (k.fileBytes i).length := by
    unfold fsFileSize Kernel.fileBytes
    cases fsData k.fs (k.openFiles i).fileIdx <;> rfl
  unfold Kernel.writeStart OpenFile.writePos
  split
  · exact hsize ▸ lt_usizeMod_of_le h.contents
  · exact h.cursor

namespace Io

variable {s : Io} {fd i : Nat}

/-- The cursor of description `i` at `cursor`. -/
def seekTo (s : Io) (i cursor : Nat) : Io := s.withKernel (s.kernel.putFile s.kernel.fs i cursor)

theorem onFile_seekTo (h : OnFile s.kernel fd i) (cursor : Nat) : OnFile (s.seekTo i cursor).kernel fd i :=
  h.kept rfl (by simp [seekTo, withKernel, Kernel.putFile])

theorem readSide_file (h : OnFile s.kernel fd i) : readSide s.kernel fd = .file i := by
  simp [readSide, h.target, h.live]

theorem readFromFd_file (h : OnFile s.kernel fd i) (hfits : FileFits s.kernel i)
    (hmode : (s.kernel.openFiles i).statusFlags &&& oAccmode ≠ oWronly) (count : Nat) :
    s.readFromFd fd count = some (.bytes (s.kernel.ahead i count),
      s.seekTo i ((s.kernel.openFiles i).offset + (s.kernel.ahead i count).length)) := by
  by_cases hc : count = 0
  · subst hc
    have hnone : s.kernel.ahead i 0 = [] := List.take_zero
    rw [readFromFd_zero, hnone, List.length_nil, Nat.add_zero, seekTo, Kernel.putFile_self]
    rfl
  · have hwrap := wrappingAdd_of_lt (hfits.ahead_lt count)
    rw [readFromFd_eq hc, readSide_file h, ReadSide.read]
    dsimp only
    rw [if_neg hmode, fsRead_eq_take]
    unfold Kernel.ahead at *
    rw [hwrap]
    rfl

theorem readBuf_file (h : OnFile s.kernel fd i) (hfits : FileFits s.kernel i)
    (hmode : (s.kernel.openFiles i).statusFlags &&& oAccmode ≠ oWronly) {v : Iovec} (hok : v.ok = true) :
    readBuf fd s v = .moved (s.kernel.ahead i v.len).length
      ((s.seekTo i ((s.kernel.openFiles i).offset + (s.kernel.ahead i v.len).length)).put v.base
        (s.kernel.ahead i v.len)) := by
  simp only [readBuf, hok, not_true_eq_false, if_false, readFromFd_file h hfits hmode]

theorem fileFits_seekTo {cursor : Nat} (hfits : FileFits s.kernel i) (hcur : cursor < usizeMod) :
    FileFits (s.seekTo i cursor).kernel i := by
  refine ⟨by simpa [seekTo, withKernel, Kernel.putFile] using hcur, ?_⟩
  simpa [seekTo, withKernel, Kernel.putFile, Kernel.fileBytes, Kernel.setOpenFile, Kernel.setFs] using hfits.contents

theorem ahead_add {n count : Nat} (hfull : (s.kernel.ahead i n).length = n) :
    s.kernel.ahead i (n + count) =
      s.kernel.ahead i n ++ (s.seekTo i ((s.kernel.openFiles i).offset + (s.kernel.ahead i n).length)).kernel.ahead i count := by
  rw [hfull]
  simp only [seekTo, withKernel, Kernel.putFile, Kernel.ahead, Kernel.fileBytes, Kernel.setOpenFile, Kernel.setFs,
    Function.update_self]
  rw [List.take_add, List.drop_drop]

theorem ahead_short {n count : Nat} (hshort : (s.kernel.ahead i n).length ≠ n) :
    s.kernel.ahead i (n + count) = s.kernel.ahead i n := by
  have hlt : ((s.kernel.fileBytes i).drop (s.kernel.openFiles i).offset).length < n := by
    simp only [Kernel.ahead, List.length_take] at hshort
    omega
  unfold Kernel.ahead
  rw [List.take_of_length_le (by omega), List.take_of_length_le (by omega)]

theorem seekTo_put_seekTo (s : Io) (i a b base : Nat) (bs : List Byte) (m : Mem) :
    { ((s.seekTo i a).put base bs).seekTo i b with user := m } = { s.seekTo i b with user := m } := by
  simp [put, seekTo, withKernel, Kernel.putFile, Kernel.setOpenFile, Kernel.setFs]

theorem seekTo_offset (s : Io) (i a : Nat) : ((s.seekTo i a).kernel.openFiles i).offset = a := by
  simp [seekTo, Kernel.putFile]

theorem writeSide_seekTo (s : Io) (i a fd : Nat) : writeSide (s.seekTo i a).kernel fd = writeSide s.kernel fd := by
  have hlive : ∀ i', FdOpen.live (s.seekTo i a).kernel i' = FdOpen.live s.kernel i' := by
    intro i'
    by_cases hi : i' = i
    · subst hi
      simp [FdOpen.live, seekTo, Kernel.putFile]
    · simp [FdOpen.live, seekTo, Kernel.putFile, Kernel.setFs, hi]
  have htarget : getFdTarget (s.seekTo i a).kernel fd = getFdTarget s.kernel fd := rfl
  have hpipe : ∀ j, FdPipe.live (s.seekTo i a).kernel j = FdPipe.live s.kernel j := fun j => rfl
  simp only [writeSide, htarget, hlive, hpipe]

theorem seekTo_statusFlags (s : Io) (i a : Nat) :
    ((s.seekTo i a).kernel.openFiles i).statusFlags = (s.kernel.openFiles i).statusFlags := by
  simp [seekTo, Kernel.putFile]

/-- What reading `count` bytes of a file into the buffers leaves. -/
def tookAhead (s : Io) (i : Nat) (iovs : List Iovec) : Io :=
  let bytes := s.kernel.ahead i (Iovec.total iovs)
  { s.seekTo i ((s.kernel.openFiles i).offset + bytes.length) with user := scatter s.user iovs bytes }

variable {iovs : List Iovec}

theorem readv_file (h : OnFile s.kernel fd i) (hfits : FileFits s.kernel i)
    (hmode : (s.kernel.openFiles i).statusFlags &&& oAccmode ≠ oWronly) (hok : ∀ v ∈ iovs, v.ok = true) {total : Nat}
    (htotal : total + Iovec.total iovs < usizeMod) :
    Vectored.run Iovec.len saturatingAdd (readBuf fd) s iovs total =
      .done (total + (s.kernel.ahead i (Iovec.total iovs)).length) (s.tookAhead i iovs) := by
  induction iovs generalizing s total with
  | nil =>
    have hnone : s.kernel.ahead i (Iovec.total []) = [] := List.take_zero
    rw [tookAhead, hnone, List.length_nil, Nat.add_zero, Nat.add_zero, seekTo, Kernel.putFile_self]
    rfl
  | cons v iovs ih =>
    rw [Iovec.total_cons] at htotal
    have hle : (s.kernel.ahead i v.len).length ≤ v.len := List.length_take_le _ _
    have hsat : saturatingAdd total (s.kernel.ahead i v.len).length = total + (s.kernel.ahead i v.len).length :=
      saturatingAdd_of_lt (by omega)
    simp only [Vectored.run, readBuf_file h hfits hmode (hok v List.mem_cons_self), hsat, tookAhead, Iovec.total_cons]
    split
    next hshort =>
      rw [ahead_short hshort, scatter_short hle]
      rfl
    next hfull =>
      have hfull := not_not.mp hfull
      have hcur := hfits.ahead_lt v.len
      have hrest := ih (s := (s.seekTo i ((s.kernel.openFiles i).offset + (s.kernel.ahead i v.len).length)).put v.base
        (s.kernel.ahead i v.len)) (onFile_seekTo h _) (fileFits_seekTo hfits hcur) (by rwa [put_kernel, seekTo_statusFlags])
        (fun w hw => hok w (List.mem_cons_of_mem v hw))
        (show total + (s.kernel.ahead i v.len).length + Iovec.total iovs < usizeMod by omega)
      rw [hrest, ahead_add hfull, List.length_append, scatter, ← Nat.add_assoc, ← Nat.add_assoc, tookAhead, put_kernel,
        seekTo_offset, List.take_left' hfull, List.drop_left' hfull]
      rw [seekTo_put_seekTo]
      rfl

theorem readv_wronly (h : OnFile s.kernel fd i) (hmode : (s.kernel.openFiles i).statusFlags &&& oAccmode = oWronly)
    (hok : ∀ v ∈ iovs, v.ok = true) :
    readvLoop fd s iovs = if Iovec.total iovs = 0 then .done 0 s else .failed .badFd s := by
  unfold readvLoop
  induction iovs with
  | nil => rfl
  | cons v iovs ih =>
    have hv := hok v List.mem_cons_self
    by_cases hz : v.len = 0
    · have hmove : readBuf fd s v = .moved 0 s := by
        simp only [readBuf, hv, not_true_eq_false, if_false, hz, readFromFd_zero, put, store_nil, List.length_nil]
      simp only [Vectored.run, hmove, hz, ne_eq, not_true_eq_false, if_false, Iovec.total_cons, Nat.zero_add]
      exact ih fun w hw => hok w (List.mem_cons_of_mem v hw)
    · have hmove : readBuf fd s v = .failed .badFd s := by
        simp only [readBuf, hv, not_true_eq_false, if_false, readFromFd_eq hz, readSide_file h, ReadSide.read, hmode,
          if_true]
      rw [Vectored.run, hmove, if_neg (by rw [Iovec.total_cons]; omega)]

theorem readvLoop_eq (h : OnFile s.kernel fd i) (hfits : FileFits s.kernel i) (hok : ∀ v ∈ iovs, v.ok = true)
    (htotal : Iovec.total iovs < usizeMod) :
    readvLoop fd s iovs = s.readScattered fd iovs := by
  unfold readScattered
  by_cases hmode : (s.kernel.openFiles i).statusFlags &&& oAccmode = oWronly
  · rw [readv_wronly h hmode hok]
    split
    next hz => rw [hz, readFromFd_zero]; simp
    next hz => simp [readFromFd_eq hz, readSide_file h, ReadSide.read, hmode]
  · rw [readFromFd_file h hfits hmode, readvLoop, readv_file h hfits hmode hok (by omega), Nat.zero_add]
    rfl

/-! ### At an offset -/

variable {offset : Nat} {data : List Byte}

theorem preadBuf_file (h : OnFile s.kernel fd i) (hmode : (s.kernel.openFiles i).statusFlags &&& oAccmode ≠ oWronly)
    (hdata : fsData s.kernel.fs (s.kernel.openFiles i).fileIdx = some data) (hoff : offset ≤ data.length) {v : Iovec}
    (hok : v.ok = true) :
    preadBuf fd offset s v =
      .moved ((data.drop offset).take v.len).length (s.put v.base ((data.drop offset).take v.len)) := by
  simp only [preadBuf, hok, not_true_eq_false, if_false, h.pread64, hmode, fsReadToVec_eq hdata, hoff, if_true,
    Option.map_some, fileRange_eq, take_min_length]

theorem preadv_file (h : OnFile s.kernel fd i) (hmode : (s.kernel.openFiles i).statusFlags &&& oAccmode ≠ oWronly)
    (hdata : fsData s.kernel.fs (s.kernel.openFiles i).fileIdx = some data) (hvec : data.length ≤ isizeMax)
    (hok : ∀ v ∈ iovs, v.ok = true) {total : Nat} (hoff : offset ≤ data.length)
    (htotal : total + Iovec.total iovs < usizeMod) :
    (Vectored.run Iovec.len saturatingAdd (atOffset (preadBuf fd)) (s, offset) iovs total).map Prod.fst =
      .done (total + ((data.drop offset).take (Iovec.total iovs)).length)
        { s with user := scatter s.user iovs ((data.drop offset).take (Iovec.total iovs)) } := by
  induction iovs generalizing s offset total with
  | nil => simp [Vectored.run, Vectored.Result.map, Iovec.total, scatter]
  | cons v iovs ih =>
    rw [Iovec.total_cons] at htotal
    have hle : ((data.drop offset).take v.len).length ≤ v.len := List.length_take_le _ _
    have hsat : saturatingAdd total ((data.drop offset).take v.len).length =
        total + ((data.drop offset).take v.len).length := saturatingAdd_of_lt (by omega)
    have hlen : ((data.drop offset).take v.len).length = min v.len (data.length - offset) := by simp
    have hnext : saturatingAdd offset ((data.drop offset).take v.len).length =
        offset + ((data.drop offset).take v.len).length := by
      refine saturatingAdd_of_lt ?_
      unfold isizeMax at hvec
      unfold usizeMod
      omega
    have hmove : atOffset (preadBuf fd) (s, offset) v = .moved ((data.drop offset).take v.len).length
        (s.put v.base ((data.drop offset).take v.len), offset + ((data.drop offset).take v.len).length) := by
      simp only [atOffset, preadBuf_file h hmode hdata hoff (hok v List.mem_cons_self), hnext]
    simp only [Vectored.run, hmove, hsat, Iovec.total_cons]
    split
    next hshort =>
      have hall : (data.drop offset).take (v.len + Iovec.total iovs) = (data.drop offset).take v.len := by
        rw [List.take_of_length_le (by rw [List.length_drop]; omega), List.take_of_length_le (by rw [List.length_drop]; omega)]
      rw [hall, scatter_short hle]
      rfl
    next hfull =>
      have hfull := not_not.mp hfull
      have hrest := ih (s := s.put v.base ((data.drop offset).take v.len)) h hmode hdata
        (fun w hw => hok w (List.mem_cons_of_mem v hw))
        (show offset + ((data.drop offset).take v.len).length ≤ data.length by omega)
        (show total + ((data.drop offset).take v.len).length + Iovec.total iovs < usizeMod by omega)
      rw [hrest, List.take_add, List.length_append, scatter, List.take_left' hfull, List.drop_left' hfull, hfull,
        List.drop_drop, ← Nat.add_assoc]
      rfl

theorem preadvLoop_eq (h : OnFile s.kernel fd i) (hfits : FileFits s.kernel i) (hne : iovs ≠ [])
    (hok : ∀ v ∈ iovs, v.ok = true) (htotal : Iovec.total iovs < usizeMod)
    (hoff : offset ≤ (s.kernel.fileBytes i).length) :
    preadvLoop fd s iovs offset = s.preadScattered fd iovs offset := by
  obtain ⟨v, iovs', rfl⟩ := List.exists_cons_of_ne_nil hne
  have hv := hok v List.mem_cons_self
  -- what fails for the first buffer fails for all of them
  have hfail : ∀ {e : SysError}, (∀ count, CoreOS.pread64 s.kernel fd count offset = some (.error e)) →
      preadvLoop fd s (v :: iovs') offset = s.preadScattered fd (v :: iovs') offset := by
    intro e he
    have hmove : atOffset (preadBuf fd) (s, offset) v = .failed e (s, offset) := by
      simp only [atOffset, preadBuf, hv, not_true_eq_false, if_false, he]
    simp only [preadvLoop, Vectored.run, hmove, preadScattered, he]
    rfl
  by_cases hmode : (s.kernel.openFiles i).statusFlags &&& oAccmode = oWronly
  · exact hfail fun count => by rw [h.pread64, if_pos hmode]
  · cases hdata : fsData s.kernel.fs (s.kernel.openFiles i).fileIdx with
    | none =>
      have hnone : ∀ count, CoreOS.pread64 s.kernel fd count offset = some (.error .badFd) := by
        intro count
        simp only [h.pread64, hmode, if_false, fsReadToVec, hdata, Option.map_some]
      exact hfail hnone
    | some data =>
      have hbytes : s.kernel.fileBytes i = data := by rw [Kernel.fileBytes, hdata, Option.getD_some]
      have hvec := hfits.contents
      rw [hbytes] at hvec hoff
      rw [preadvLoop, preadv_file h hmode hdata hvec hok hoff (by omega), Nat.zero_add]
      simp only [preadScattered, h.pread64, hmode, if_false, fsReadToVec_eq hdata, hoff, if_true, Option.map_some,
        fileRange_eq, take_min_length]

/-! ## Writing -/

theorem writeSide_file (h : OnFile s.kernel fd i) : writeSide s.kernel fd = .file i := by
  simp [writeSide, h.target, h.live]

variable {f : RamFS}

/-- What writing `bytes` at `start` of the file `f` holds under description `i`
leaves: the file, and the cursor after the bytes. -/
def wrote (s : Io) (i : Nat) (f : RamFS) (data : List Byte) (start : Nat) (bytes : List Byte) : Io :=
  s.withKernel (s.kernel.putFile (some (f.setData (s.kernel.openFiles i).fileIdx (overwrite 0 data start bytes))) i
    (start + bytes.length))

theorem wrote_writePos {start : Nat} (hstart : (s.kernel.openFiles i).writePos data.length = start)
    (bytes : List Byte) :
    ((s.wrote i f data start bytes).kernel.openFiles i).writePos (overwrite 0 data start bytes).length =
      start + bytes.length := by
  have hopen : (s.wrote i f data start bytes).kernel.openFiles i =
      { s.kernel.openFiles i with offset := start + bytes.length } := by
    simp [wrote, Kernel.putFile]
  rw [hopen, length_overwrite]
  unfold OpenFile.writePos at *
  dsimp only
  split at hstart
  next happ =>
    rw [if_pos happ]
    omega
  next happ => rw [if_neg happ]

theorem wrote_wrote {start : Nat} (a b : List Byte) :
    (s.wrote i f data start a).wrote i (f.setData (s.kernel.openFiles i).fileIdx (overwrite 0 data start a))
      (overwrite 0 data start a) (start + a.length) b = s.wrote i f data start (a ++ b) := by
  have hidx : ((s.wrote i f data start a).kernel.openFiles i).fileIdx = (s.kernel.openFiles i).fileIdx := by
    simp [wrote, Kernel.putFile]
  rw [wrote, hidx, RamFS.setData_setData, overwrite_overwrite, Nat.add_assoc, ← List.length_append]
  simp [wrote, withKernel, Kernel.putFile, Kernel.setOpenFile, Kernel.setFs]

section

variable {f : RamFS} {data : List Byte} (h : OnFile s.kernel fd i)
  (hmode : (s.kernel.openFiles i).statusFlags &&& oAccmode = oWronly ∨
    (s.kernel.openFiles i).statusFlags &&& oAccmode = oRdwr)
  (hf : s.kernel.fs = some f) (hdata : fsData (some f) (s.kernel.openFiles i).fileIdx = some data)
include h hmode hf hdata

variable {start : Nat}

theorem writeToFd_file {bytes : List Byte} (hstart : (s.kernel.openFiles i).writePos data.length = start)
    (hlt : start < usizeMod) (hlen : bytes.length < usizeMod) :
    s.writeToFd fd bytes =
      if start + bytes.length ≤ isizeMax then some (some bytes.length, s.wrote i f data start bytes) else none := by
  have hsize : fsFileSize (some f) (s.kernel.openFiles i).fileIdx = data.length := by simp only [fsFileSize, hdata]
  rw [writeToFd_eq, writeSide_file h, WriteSide.write]
  dsimp only
  rw [if_pos hmode, hf, hsize, hstart, fsWriteAt_cases hdata hlt hlen]
  by_cases hle : start + bytes.length ≤ isizeMax
  · rw [if_pos hle, if_pos hle, wrappingAdd_of_lt (lt_usizeMod_of_le hle)]
    rfl
  · rw [if_neg hle, if_neg hle]

theorem writeBuf_file (hstart : (s.kernel.openFiles i).writePos data.length = start) {v : Iovec} (hok : v.ok = true)
    (hlt : start < usizeMod) :
    writeBuf fd s v = if start + v.len ≤ isizeMax then .moved v.len (s.wrote i f data start (s.get v)) else .panics := by
  have hlen : (s.get v).length < usizeMod := by
    rw [get_length]
    exact Iovec.ok_lt hok
  have hwrite := writeToFd_file h hmode hf hdata hstart hlt hlen
  rw [get_length] at hwrite
  by_cases hle : start + v.len ≤ isizeMax
  · rw [if_pos hle] at hwrite ⊢
    simp only [writeBuf, hok, not_true_eq_false, if_false, hwrite]
  · rw [if_neg hle] at hwrite ⊢
    simp only [writeBuf, hok, not_true_eq_false, if_false, hwrite]

omit hf in
/-- A buffer written after others. -/
theorem writeBuf_wrote (hstart : (s.kernel.openFiles i).writePos data.length = start) {v : Iovec} (hok : v.ok = true)
    (front : List Byte) (hfront : start + front.length ≤ isizeMax) :
    writeBuf fd (s.wrote i f data start front) v =
      if start + front.length + v.len ≤ isizeMax then .moved v.len (s.wrote i f data start (front ++ s.get v))
      else .panics := by
  have hkept : OnFile (s.wrote i f data start front).kernel fd i := h.kept rfl (by simp [wrote, Kernel.putFile])
  have hflags : ((s.wrote i f data start front).kernel.openFiles i).statusFlags = (s.kernel.openFiles i).statusFlags := by
    simp [wrote, Kernel.putFile]
  have hidx : ((s.wrote i f data start front).kernel.openFiles i).fileIdx = (s.kernel.openFiles i).fileIdx := by
    simp [wrote, Kernel.putFile]
  rw [← wrote_wrote]
  refine writeBuf_file hkept (by rwa [hflags]) rfl ?_ (wrote_writePos hstart front) hok (lt_usizeMod_of_le hfront)
  rw [hidx]
  exact fsData_setData hdata

theorem writev_file (hstart : (s.kernel.openFiles i).writePos data.length = start) (hlt : start < usizeMod)
    {iovs : List Iovec} (hne : iovs ≠ []) (hok : ∀ v ∈ iovs, v.ok = true) (htotal : Iovec.total iovs < usizeMod) :
    writevLoop fd s iovs =
      if start + Iovec.total iovs ≤ isizeMax then
        .done (Iovec.total iovs) (s.wrote i f data start (gather s.user iovs))
      else .panics := by
  obtain ⟨v, iovs, rfl⟩ := List.exists_cons_of_ne_nil hne
  exact Vectored.run_on_end_from (fun a b hab => saturatingAdd_of_lt hab) (fun w _ => s.get_length w)
    (writeBuf_file h hmode hf hdata hstart (hok v List.mem_cons_self) hlt)
    (fun front hfront w hw => writeBuf_wrote h hmode hdata hstart (hok w (List.mem_cons_of_mem v hw)) front hfront)
    htotal

end

theorem writeToFd_refused (h : OnFile s.kernel fd i)
    (hbad : ¬ (((s.kernel.openFiles i).statusFlags &&& oAccmode = oWronly ∨
      (s.kernel.openFiles i).statusFlags &&& oAccmode = oRdwr) ∧
      ∃ data, fsData s.kernel.fs (s.kernel.openFiles i).fileIdx = some data)) (bytes : List Byte) :
    s.writeToFd fd bytes = some (none, s) := by
  rw [writeToFd_eq, writeSide_file h, WriteSide.write]
  dsimp only
  split
  next hmode =>
    have hgone : fsData s.kernel.fs (s.kernel.openFiles i).fileIdx = none := by
      by_contra hsome
      exact hbad ⟨hmode, Option.ne_none_iff_exists'.mp hsome⟩
    rw [fsWriteAt_noFile hgone]
  · rfl

theorem writevLoop_eq (h : OnFile s.kernel fd i) (hfits : FileFits s.kernel i) (hne : iovs ≠ [])
    (hok : ∀ v ∈ iovs, v.ok = true) (htotal : Iovec.total iovs < usizeMod) :
    writevLoop fd s iovs = s.writeGathered fd iovs := by
  by_cases hgood : ((s.kernel.openFiles i).statusFlags &&& oAccmode = oWronly ∨
      (s.kernel.openFiles i).statusFlags &&& oAccmode = oRdwr) ∧
      ∃ data, fsData s.kernel.fs (s.kernel.openFiles i).fileIdx = some data
  · obtain ⟨hmode, data, hdata⟩ := hgood
    obtain ⟨f, hf, -⟩ := Option.bind_eq_some_iff.mp hdata
    have hstart : (s.kernel.openFiles i).writePos data.length = s.kernel.writeStart i := by
      rw [Kernel.writeStart, fsFileSize, hdata]
    rw [hf] at hdata
    rw [writev_file h hmode hf hdata hstart hfits.writeStart_lt hne hok htotal, writeGathered,
      writeToFd_file h hmode hf hdata hstart hfits.writeStart_lt (by rwa [gather_length]), gather_length]
    by_cases hle : s.kernel.writeStart i + Iovec.total iovs ≤ isizeMax
    · rw [if_pos hle, if_pos hle]
    · rw [if_neg hle, if_neg hle]
  · obtain ⟨v, iovs', rfl⟩ := List.exists_cons_of_ne_nil hne
    have hfail := writeToFd_refused h hgood
    have hmove : writeBuf fd s v = .failed .badFd s := by
      simp only [writeBuf, hok v List.mem_cons_self, not_true_eq_false, if_false, hfail]
    simp only [writevLoop, Vectored.run, hmove, writeGathered, hfail]

/-! ### At an offset -/

/-- What writing `bytes` at `offset` leaves, the cursor where it was. -/
def wroteAt (s : Io) (i : Nat) (f : RamFS) (data : List Byte) (offset : Nat) (bytes : List Byte) : Io :=
  s.withKernel (s.kernel.setFs (some (f.setData (s.kernel.openFiles i).fileIdx (overwrite 0 data offset bytes))))

theorem wroteAt_wroteAt (a b : List Byte) :
    (s.wroteAt i f data offset a).wroteAt i (f.setData (s.kernel.openFiles i).fileIdx (overwrite 0 data offset a))
      (overwrite 0 data offset a) (offset + a.length) b = s.wroteAt i f data offset (a ++ b) := by
  have hidx : ((s.wroteAt i f data offset a).kernel.openFiles i).fileIdx = (s.kernel.openFiles i).fileIdx := rfl
  rw [wroteAt, hidx, RamFS.setData_setData, overwrite_overwrite]
  rfl

theorem pwrite64_file {k : Kernel} {bytes : List Byte} (h : OnFile k fd i)
    (hmode : (k.openFiles i).statusFlags &&& oAccmode ≠ oRdonly) (hf : k.fs = some f)
    (hdata : fsData (some f) (k.openFiles i).fileIdx = some data) (hlt : offset < usizeMod)
    (hlen : bytes.length < usizeMod) :
    CoreOS.pwrite64 k fd bytes offset =
      if offset + bytes.length ≤ isizeMax then
        some (.ok bytes.length, k.setFs (some (f.setData (k.openFiles i).fileIdx (overwrite 0 data offset bytes))))
      else none := by
  rw [h.pwrite64, if_neg hmode, hf, fsWriteAt_cases hdata hlt hlen]
  by_cases hle : offset + bytes.length ≤ isizeMax
  · rw [if_pos hle, if_pos hle, Option.map_some]
  · rw [if_neg hle, if_neg hle, Option.map_none]

section

variable {f : RamFS} {data : List Byte} (h : OnFile s.kernel fd i)
  (hmode : (s.kernel.openFiles i).statusFlags &&& oAccmode ≠ oRdonly)
  (hf : s.kernel.fs = some f) (hdata : fsData (some f) (s.kernel.openFiles i).fileIdx = some data)
include h hmode hf hdata

variable {offset : Nat}

theorem pwriteBuf_file {v : Iovec} (hok : v.ok = true) (hlt : offset < usizeMod) :
    atOffset (pwriteBuf fd) (s, offset) v =
      if offset + v.len ≤ isizeMax then
        .moved v.len (s.wroteAt i f data offset (s.get v), offset + (s.get v).length)
      else .panics := by
  have hlen : (s.get v).length < usizeMod := by
    rw [get_length]
    exact Iovec.ok_lt hok
  have hwrite := pwrite64_file h hmode hf hdata hlt hlen
  rw [get_length] at hwrite ⊢
  by_cases hle : offset + v.len ≤ isizeMax
  · rw [if_pos hle] at hwrite ⊢
    simp only [atOffset, pwriteBuf, hok, not_true_eq_false, if_false, hwrite,
      saturatingAdd_of_lt (lt_usizeMod_of_le hle)]
    rfl
  · rw [if_neg hle] at hwrite ⊢
    simp only [atOffset, pwriteBuf, hok, not_true_eq_false, if_false, hwrite]

omit hf in
/-- A buffer written after others. -/
theorem pwriteBuf_wroteAt {v : Iovec} (hok : v.ok = true) (front : List Byte)
    (hfront : offset + front.length ≤ isizeMax) :
    atOffset (pwriteBuf fd) (s.wroteAt i f data offset front, offset + front.length) v =
      if offset + front.length + v.len ≤ isizeMax then
        .moved v.len (s.wroteAt i f data offset (front ++ s.get v), offset + (front ++ s.get v).length)
      else .panics := by
  have hkept : OnFile (s.wroteAt i f data offset front).kernel fd i := h.kept rfl rfl
  have hnext := pwriteBuf_file hkept hmode rfl (fsData_setData hdata) hok (lt_usizeMod_of_le hfront)
  rw [wroteAt_wroteAt] at hnext
  rw [List.length_append, ← Nat.add_assoc]
  exact hnext

theorem pwritev_file (hlt : offset < usizeMod) {iovs : List Iovec} (hne : iovs ≠ []) (hok : ∀ v ∈ iovs, v.ok = true)
    (htotal : Iovec.total iovs < usizeMod) :
    pwritevLoop fd s iovs offset =
      if offset + Iovec.total iovs ≤ isizeMax then
        .done (Iovec.total iovs) (s.wroteAt i f data offset (gather s.user iovs))
      else .panics := by
  obtain ⟨v, iovs, rfl⟩ := List.exists_cons_of_ne_nil hne
  have hrun := Vectored.run_on_end_from (fun a b hab => saturatingAdd_of_lt hab) (fun w _ => s.get_length w)
    (pwriteBuf_file h hmode hf hdata (hok v List.mem_cons_self) hlt)
    (fun front hfront w hw => pwriteBuf_wroteAt h hmode hdata (hok w (List.mem_cons_of_mem v hw)) front hfront) htotal
  rw [pwritevLoop, hrun]
  change Vectored.Result.map Prod.fst (if offset + Iovec.total (v :: iovs) ≤ isizeMax then _ else _) = _
  split
  · rfl
  · rfl

end

theorem pwritevLoop_eq (h : OnFile s.kernel fd i) (hne : iovs ≠ []) (hok : ∀ v ∈ iovs, v.ok = true)
    (htotal : Iovec.total iovs < usizeMod) (hlt : offset < usizeMod) :
    pwritevLoop fd s iovs offset = s.pwriteGathered fd iovs offset := by
  by_cases hgood : (s.kernel.openFiles i).statusFlags &&& oAccmode ≠ oRdonly ∧
      ∃ data, fsData s.kernel.fs (s.kernel.openFiles i).fileIdx = some data
  · obtain ⟨hmode, data, hdata⟩ := hgood
    obtain ⟨f, hf, -⟩ := Option.bind_eq_some_iff.mp hdata
    rw [hf] at hdata
    rw [pwritev_file h hmode hf hdata hlt hne hok htotal, pwriteGathered,
      pwrite64_file h hmode hf hdata hlt (by rwa [gather_length]), gather_length]
    by_cases hle : offset + Iovec.total iovs ≤ isizeMax
    · rw [if_pos hle, if_pos hle]
      rfl
    · rw [if_neg hle, if_neg hle]
  · have hfail : ∀ bytes, CoreOS.pwrite64 s.kernel fd bytes offset = some (.error .badFd, s.kernel) := by
      intro bytes
      rw [h.pwrite64]
      split
      · rfl
      next hmode =>
        have hgone : fsData s.kernel.fs (s.kernel.openFiles i).fileIdx = none := by
          by_contra hsome
          exact hgood ⟨hmode, Option.ne_none_iff_exists'.mp hsome⟩
        rw [fsWriteAt_noFile hgone]
        rfl
    obtain ⟨v, iovs', rfl⟩ := List.exists_cons_of_ne_nil hne
    have hmove : atOffset (pwriteBuf fd) (s, offset) v = .failed .badFd (s, offset) := by
      simp only [atOffset, pwriteBuf, hok v List.mem_cons_self, not_true_eq_false, if_false, hfail]
      rfl
    simp only [pwritevLoop, Vectored.run, hmove, pwriteGathered, hfail]
    rfl

/-- **On a regular file a vector call is one call.** For buffers in user memory,
whatever their lengths: `readv` and `preadv`, from within the file, give the bytes,
result and cursor of one read of the buffers' total, scattered over them in order;
`writev` and `pwritev` leave the file, result and cursor of one write of what they
hold, on end. -/
theorem vectored_eq_scalar (s : Io) (fd iovPtr iovcnt i : Nat) (iovs : List Iovec)
    (hiovs : copyIovecsFromUser s.user iovPtr iovcnt = some iovs) (hok : ∀ v ∈ iovs, v.ok = true)
    (hfile : OnFile s.kernel fd i) (hfits : FileFits s.kernel i) :
    s.readv fd iovPtr iovcnt = s.readScattered fd iovs ∧
    (∀ offset, offset ≤ (s.kernel.fileBytes i).length →
      s.preadv fd iovPtr iovcnt offset = s.preadScattered fd iovs offset) ∧
    s.writev fd iovPtr iovcnt = s.writeGathered fd iovs ∧
    ∀ offset, offset < usizeMod → s.pwritev fd iovPtr iovcnt offset = s.pwriteGathered fd iovs offset := by
  obtain ⟨hne, hlen⟩ := copyIovecsFromUser_length hiovs
  have htotal := Iovec.total_lt hok hlen
  refine ⟨?_, fun offset hoff => ?_, ?_, fun offset hlt => ?_⟩
  · rw [readv, vectored, hiovs]
    exact readvLoop_eq hfile hfits hok htotal
  · rw [preadv, vectored, hiovs]
    exact preadvLoop_eq hfile hfits hne hok htotal hoff
  · rw [writev, vectored, hiovs]
    exact writevLoop_eq hfile hfits hne hok htotal
  · rw [pwritev, vectored, hiovs]
    exact pwritevLoop_eq hfile hne hok htotal hlt

/-- A file of three bytes behind descriptor 3, and a vector of three buffers, the
second of them empty. -/
def threeBuffers : Io where
  kernel := { fileSharers with fs := some ⟨[⟨['a'], [1, 2, 3]⟩]⟩ }
  tty := .new
  console := []
  user := storeWords (fun _ => 0x61) 0x1000 [0x2000, 1, 0x3000, 0, 0x3000, 4]

theorem vectored_eq_scalar_threeBuffers :
    threeBuffers.readv 3 0x1000 3 = threeBuffers.readScattered 3 [⟨0x2000, 1⟩, ⟨0x3000, 0⟩, ⟨0x3000, 4⟩] ∧
      threeBuffers.writev 3 0x1000 3 = threeBuffers.writeGathered 3 [⟨0x2000, 1⟩, ⟨0x3000, 0⟩, ⟨0x3000, 4⟩] := by
  have h := vectored_eq_scalar threeBuffers 3 0x1000 3 0 [⟨0x2000, 1⟩, ⟨0x3000, 0⟩, ⟨0x3000, 4⟩] (by decide +kernel)
    (by decide +kernel) ⟨by decide +kernel, by decide +kernel⟩ ⟨by decide +kernel, by decide +kernel⟩
  exact ⟨h.1, h.2.2.1⟩

end Io

/-! ## Buffers as lists

The calls on a vector that are given its buffers as lists are these calls without the
caller's memory. -/

namespace Io

variable {s : Io} {fd iovPtr iovcnt : Nat} {iovs : List Iovec}

def bytesOf (s : Io) (v : Iovec) : Option (List Byte) := if v.ok then some (s.get v) else none

/-- The bytes of each buffer put in their place. -/
def putAll (s : Io) (iovs : List Iovec) (chunks : List (List Byte)) : Io :=
  (chunks.zip iovs).foldl (fun s x => s.put x.2.base x.1) s

/-- The result of a call that writes, and the kernel after it. -/
def outcome : IoResult → Option (Except SysError Nat × Kernel)
  | .done total s => some (.ok total, s.kernel)
  | .failed e s => some (.error e, s.kernel)
  | .wait .. | .panics => none

/-- A call that fills buffers, where `chunks` were read and `r` is its result. -/
def filled (s : Io) (iovs : List Iovec) (chunks : List (List Byte)) : Except SysError Nat → IoResult
  | .ok total => .done total (s.putAll iovs chunks)
  | .error e => .failed e (s.putAll iovs chunks)

/-- A call that may have to wait for the rest. -/
def readEnd (s : Io) (iovs : List Iovec) : List (List Byte) × ReadvEnd × Kernel → IoResult
  | (chunks, .done r, k) => (s.withKernel k).filled iovs chunks r
  | (chunks, .wait _ total, k) => .wait (iovs.drop chunks.length) total ((s.withKernel k).putAll iovs chunks)

theorem writevLoop_outcome {total : Nat} : outcome (Vectored.run Iovec.len saturatingAdd (writeBuf fd) s iovs total) =
    CoreOS.writevLoop fd s.kernel (iovs.map s.bytesOf) total := by
  induction iovs generalizing s total with
  | nil => rfl
  | cons v iovs ih =>
    rw [Vectored.run, List.map_cons, writeBuf, bytesOf]
    by_cases hok : v.ok = true
    · rw [if_neg (not_not.mpr hok), if_pos hok, CoreOS.writevLoop, writeToFd]
      rcases CoreOS.writeToFd s.kernel fd (s.get v) with _ | ⟨_ | n, k⟩
      · rfl
      · rfl
      · simp only [Option.map_some, get_length]
        split
        · rfl
        · exact ih
    · rw [if_pos hok, if_neg hok]
      rfl

theorem pwritevLoop_outcome {offset total : Nat} :
    outcome ((Vectored.run Iovec.len saturatingAdd (atOffset (pwriteBuf fd)) (s, offset) iovs total).map Prod.fst) =
      CoreOS.pwritevLoop fd s.kernel (iovs.map s.bytesOf) offset total := by
  induction iovs generalizing s offset total with
  | nil => rfl
  | cons v iovs ih =>
    rw [Vectored.run, List.map_cons, atOffset, pwriteBuf, bytesOf]
    by_cases hok : v.ok = true
    · rw [if_neg (not_not.mpr hok), if_pos hok, CoreOS.pwritevLoop]
      rcases CoreOS.pwrite64 s.kernel fd (s.get v) offset with _ | ⟨e | n, k⟩
      · rfl
      · rfl
      · simp only [get_length]
        split
        · rfl
        · exact ih
    · rw [if_pos hok, if_neg hok]
      rfl

theorem preadvLoop_filled {offset total : Nat} :
    (Vectored.run Iovec.len saturatingAdd (atOffset (preadBuf fd)) (s, offset) iovs total).map Prod.fst =
      (CoreOS.preadvLoop s.kernel fd (iovs.map fun v => if v.ok then some v.len else none) offset total).elim .panics
        fun x => s.filled iovs x.1 x.2 := by
  induction iovs generalizing s offset total with
  | nil => rfl
  | cons v iovs ih =>
    rw [Vectored.run, List.map_cons, atOffset, preadBuf]
    by_cases hok : v.ok = true
    · rw [if_neg (not_not.mpr hok), if_pos hok, CoreOS.preadvLoop]
      rcases CoreOS.pread64 s.kernel fd v.len offset with _ | e | bytes
      · rfl
      · rfl
      · dsimp only
        split
        · rfl
        · rw [ih, put_kernel]
          rcases CoreOS.preadvLoop s.kernel fd _ _ _ with _ | ⟨chunks, _ | _⟩ <;> rfl
    · rw [if_pos hok, if_neg hok]
      rfl

theorem readsTerminal_iff {k : Kernel} :
    readsTerminal k fd = true ↔ getFdTarget k fd = some (.stdio 0) ∨ getFdTarget k fd = some .tty := by
  unfold readsTerminal isStdin CoreOS.descriptorInfo FdOpen.descriptorInfo
  rcases getFdTarget k fd with _ | t
  · simp
  · cases t with
    | openFile i => by_cases hlive : FdOpen.live k i <;> simp [hlive]
    | stdio index => by_cases hz : index = 0 <;> simp [hz]
    | _ => simp

theorem readvLoop_filled {total : Nat} (h : ¬ readsTerminal s.kernel fd) :
    Vectored.run Iovec.len saturatingAdd (readBuf fd) s iovs total = s.readEnd iovs
      (CoreOS.readvLoop fd s.kernel (iovs.map fun v => if v.ok then some ⟨v.len, []⟩ else none) total) := by
  induction iovs generalizing s total with
  | nil => rfl
  | cons v iovs ih =>
    rw [Vectored.run, List.map_cons, readBuf]
    by_cases hok : v.ok = true
    · rw [if_neg (not_not.mpr hok), if_pos hok, CoreOS.readvLoop, readFromFd, if_neg fun hc => h hc.2]
      cases hr : CoreOS.readFromFd s.kernel fd v.len [] with
      | none => rfl
      | some x =>
        obtain ⟨bytes | _, k⟩ := x
        · have htarget : getFdTarget k fd = getFdTarget s.kernel fd := by
            rcases readFromFd_cases hr with rfl | ⟨j, -, rfl⟩ | ⟨i, n, -, rfl⟩ <;> rfl
          have h' : ¬ readsTerminal k fd := by rwa [readsTerminal_iff, htarget, ← readsTerminal_iff]
          simp only [Option.map_some]
          split
          · rfl
          · rw [ih h']
            dsimp only [put_kernel, withKernel_kernel]
            rcases CoreOS.readvLoop fd k _ _ with ⟨chunks, (_ | _) | _, k'⟩ <;> rfl
        · rfl
    · rw [if_pos hok, if_neg hok]
      rfl

/-- **The calls on vectors** come to what they come to with the buffers as lists; `readv`
does so where it does not read from the terminal. -/
theorem vectored_lists (h : copyIovecsFromUser s.user iovPtr iovcnt = some iovs) :
    outcome (s.writev fd iovPtr iovcnt) = CoreOS.writev s.kernel fd (iovs.map s.bytesOf) ∧
    (∀ offset, outcome (s.pwritev fd iovPtr iovcnt offset) =
      CoreOS.pwritev s.kernel fd (iovs.map s.bytesOf) offset) ∧
    (∀ offset, s.preadv fd iovPtr iovcnt offset =
      (CoreOS.preadv s.kernel fd (iovs.map fun v => if v.ok then some v.len else none) offset).elim .panics
        fun x => s.filled iovs x.1 x.2) ∧
    (¬ readsTerminal s.kernel fd → s.readv fd iovPtr iovcnt =
      s.readEnd iovs (CoreOS.readv s.kernel fd (iovs.map fun v => if v.ok then some ⟨v.len, []⟩ else none))) := by
  have hcount : iovcntOk iovs.length = true := by simpa [iovcntOk] using copyIovecsFromUser_length h
  unfold writev pwritev preadv readv CoreOS.writev CoreOS.pwritev CoreOS.preadv CoreOS.readv vectored
  simp only [h, List.length_map, hcount, if_true]
  exact ⟨writevLoop_outcome, fun _ => pwritevLoop_outcome, fun _ => preadvLoop_filled, readvLoop_filled⟩

end Io

end CoreOS
