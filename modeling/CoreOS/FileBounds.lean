/-
The end of a file and the end of the integers. Three routines read a range of a
file and agree inside it, but `fs_read_to_vec` slices the contents even for no
bytes and panics past their end, and with it `pread64`, `preadv` and `sendfile`
(`read_past_end_panics`). `fs_write_at` adds the length to an unchecked offset:
as long as the sum fits a vector a write overwrites, and otherwise it panics
(`write_past_vec_panics`).
-/
import CoreOS.FileRefine
import CoreOS.Vm

namespace CoreOS

open ByteMem Contents

/-! ## Reading a range -/

/-- The contents from `min offset size` up to `min (offset + count) size`. -/
def fileRange (data : List Byte) (offset count : Nat) : List Byte :=
  (data.take (min (offset + count) data.length)).drop (min offset data.length)

theorem fileRange_eq (data : List Byte) (offset count : Nat) :
    fileRange data offset count = (data.drop offset).take (min count (data.length - offset)) := by
  unfold fileRange
  rw [List.drop_take]
  rcases Nat.le_total offset data.length with h | h
  · rw [Nat.min_eq_left h]
    congr 1
    omega
  · rw [Nat.min_eq_right h, List.drop_length, List.drop_eq_nil_of_le h, List.take_nil, List.take_nil]

variable {data : List Byte} {offset : Nat}

theorem fileRange_past (count : Nat) (h : data.length ≤ offset) :
    fileRange data offset count = [] := by
  rw [fileRange_eq, List.drop_eq_nil_of_le h, List.take_nil]

section

variable {fs : Option RamFS} {idx : Nat} {data : List Byte} (hdata : fsData fs idx = some data)
include hdata

theorem fsRead_eq (offset count : Nat) : fsRead fs idx offset count = fileRange data offset count := by
  rw [fileRange_eq, fsRead, hdata]

theorem fsReadToVec_eq (offset count : Nat) :
    fsReadToVec fs idx offset count =
      if offset ≤ data.length then some (some (fileRange data offset count)) else none := by
  rw [fileRange_eq, fsReadToVec, hdata]
  dsimp only
  split
  next h => rw [if_neg (by omega)]
  next h => rw [if_pos (by omega)]

theorem readRange_eq (hvec : data.length ≤ isizeMax) (offset count : Nat) :
    Vfs.readRange fs idx offset count = some (fileRange data offset count) := by
  obtain ⟨f, hf, hd⟩ := Option.bind_eq_some_iff.mp hdata
  obtain ⟨file, hfile, rfl⟩ := Option.map_eq_some_iff.mp hd
  have hstop : min (min (min offset file.data.length + count) (usizeMod - 1)) file.data.length =
      min (min offset file.data.length + count) file.data.length := by
    unfold isizeMax at hvec
    unfold usizeMod
    omega
  simp only [Vfs.readRange, hf, hfile, Option.bind_eq_bind, Option.bind_some, hstop, Option.some.injEq]
  rw [fileRange, List.drop_take]
  congr 1
  omega

end

/-! ### At the end and past it -/

variable {k k' : Kernel} {fd : Nat}

theorem writeToFd_nil {n : Nat} (h : writeToFd k fd [] = some (some n, k')) : n = 0 := by
  unfold writeToFd at h
  split at h
  · cases h
    rfl
  split at h
  · cases h
    rfl
  · cases h
    rfl
  · cases h
    rfl
  split at h
  · cases h
  next n' k1 hw =>
    cases h
    rcases writeFile_cases hw with ⟨hn, -⟩ | ⟨_, _, _, -, -, hn, -⟩
    · cases hn
    · exact Option.some.inj hn
  · split at h
    next n' k2 hp =>
      cases h
      obtain ⟨j, -, hk⟩ := FdPipe.write_cases hp
      rcases hk with ⟨-, hn, -⟩ | ⟨-, hn, -⟩
      · exact hn
      · exact hn
    · cases h

variable {i : Nat} {bytes : List Byte}

theorem OnFile.writeToFd_kept {outFd : Nat} {n : Option Nat} (h : OnFile k fd i)
    (hw : CoreOS.writeToFd k outFd bytes = some (n, k')) : OnFile k' fd i := by
  rcases writeToFd_cases hw with rfl | ⟨j, -, rfl⟩ | ⟨i', fs, offset, -, -, rfl⟩
  · exact h
  · exact h.kept rfl rfl
  · refine h.kept rfl ?_
    by_cases hi : i = i'
    · subst hi
      simp [Kernel.setOpenFile, Kernel.setFs]
    · simp [Kernel.setOpenFile, Kernel.setFs, hi]

/-- What the calls do that read a file of `size` bytes from `offset` on, at or
past its end, through descriptor `fd` of description `i`. -/
structure ReadsAtEnd (k : Kernel) (fd i size offset : Nat) : Prop where
  read : (k.openFiles i).offset = offset → ∀ count typed, ∃ k', readFromFd k fd count typed = some (.bytes [], k')
  mmap : ∀ (flags fd' : BitVec 32) (off : Word) (len : Nat), flags &&& mapAnonymous = 0 → fd'.toNat = fd →
    off.toNat = offset → mmapSeed k flags fd' off len = some (some [])
  pread64 : ∀ count, pread64 k fd count offset = if offset = size then some (.ok []) else none
  preadv : ∀ lens : List Nat, iovcntOk lens.length →
    if offset = size then
      ∃ chunks, preadv k fd (lens.map some) offset = some (chunks, .ok 0) ∧ ∀ bytes ∈ chunks, bytes = []
    else preadv k fd (lens.map some) offset = none
  sendfile : ∀ (outFd : Nat) (arg : OffsetArg) (count : Nat), arg.start k fd = .ok offset →
    if offset = size then
      ∀ n k', writeToFd k outFd [] = some (some n, k') →
        ∃ moved k'', sendfile k outFd fd arg count = some (.ok (0, moved), k'')
    else sendfile k outFd fd arg count = none

section

variable {k : Kernel} {fd i : Nat} (h : OnFile k fd i)
  (hmode : (k.openFiles i).statusFlags &&& oAccmode ≠ oWronly) {data : List Byte}
  (hdata : fsData k.fs (k.openFiles i).fileIdx = some data)
include h hmode hdata

theorem read_at_end (hend : data.length ≤ (k.openFiles i).offset) (count : Nat) (typed : List Byte) :
    ∃ k', readFromFd k fd count typed = some (.bytes [], k') := by
  rw [h.readFromFd, h.readFile, if_neg hmode, fsRead_eq hdata, fileRange_past count hend]
  split
  · exact ⟨_, rfl⟩
  · exact ⟨_, rfl⟩

variable {offset : Nat}

theorem pread64_at_end (hend : data.length ≤ offset) (count : Nat) :
    pread64 k fd count offset = if offset = data.length then some (.ok []) else none := by
  rw [h.pread64, if_neg hmode, fsReadToVec_eq hdata, fileRange_past count hend]
  by_cases hlen : offset = data.length
  · rw [if_pos hlen, if_pos (Nat.le_of_eq hlen)]
    rfl
  · rw [if_neg hlen, if_neg (by omega)]
    rfl

theorem preadvLoop_at_end (hvec : data.length ≤ isizeMax) (hend : data.length ≤ offset) (lens : List Nat)
    (hlens : lens ≠ []) :
    if offset = data.length then
      ∃ chunks, preadvLoop k fd (lens.map some) offset 0 = some (chunks, .ok 0) ∧ ∀ bytes ∈ chunks, bytes = []
    else preadvLoop k fd (lens.map some) offset 0 = none := by
  split
  next hlen =>
    have hstay : saturatingAdd offset 0 = offset := by
      unfold isizeMax at hvec
      unfold saturatingAdd usizeMod
      omega
    clear hlens
    induction lens with
    | nil => exact ⟨[], rfl, by simp⟩
    | cons len lens ih =>
      obtain ⟨chunks, hchunks, hnil⟩ := ih
      have hzero : saturatingAdd 0 0 = 0 := rfl
      simp only [List.map_cons, preadvLoop, pread64_at_end h hmode hdata hend, if_pos hlen, List.length_nil, hstay,
        hzero, hchunks, Option.map_some]
      split
      · exact ⟨[[]], rfl, by simp⟩
      · exact ⟨[] :: chunks, rfl, by simpa using hnil⟩
  next hlen =>
    cases lens with
    | nil => exact absurd rfl hlens
    | cons len lens => simp only [List.map_cons, preadvLoop, pread64_at_end h hmode hdata hend, if_neg hlen]

theorem sendfile_at_end (hend : data.length ≤ offset) (outFd : Nat) (arg : OffsetArg) (count : Nat)
    (harg : arg.start k fd = .ok offset) :
    if offset = data.length then
      ∀ n k', writeToFd k outFd [] = some (some n, k') →
        ∃ moved k'', sendfile k outFd fd arg count = some (.ok (0, moved), k'')
    else sendfile k outFd fd arg count = none := by
  unfold sendfile
  rw [h.statusFlags, h.info]
  dsimp only
  rw [if_neg hmode, harg]
  dsimp only
  rw [fsReadToVec_eq hdata, fileRange_past count hend]
  split
  next hlen =>
    intro n k' hw
    obtain rfl := writeToFd_nil hw
    rw [if_pos (Nat.le_of_eq hlen)]
    dsimp only
    rw [hw]
    dsimp only
    cases arg with
    | null =>
      simp only [OffsetArg.advance, (h.writeToFd_kept hw).openIdx]
      exact ⟨_, _, rfl⟩
    | outside => cases harg
    | value offset => exact ⟨_, _, rfl⟩
  next hlen => rw [if_neg (by omega)]

theorem readsAtEnd (hvec : data.length ≤ isizeMax) (hend : data.length ≤ offset) :
    ReadsAtEnd k fd i data.length offset where
  read hoff := read_at_end h hmode hdata (hoff ▸ hend)
  mmap flags fd' off len hanon hfd hoff := by
    simp only [mmapSeed, hanon, ne_eq, not_true_eq_false, if_false, hfd, h.info, hoff]
    rw [readRange_eq hdata hvec, fileRange_past len hend, Option.getD_some]
  pread64 := pread64_at_end h hmode hdata hend
  preadv lens hcnt := by
    have hlens : lens ≠ [] := by
      rintro rfl
      cases hcnt
    have hloop : preadv k fd (lens.map some) offset = preadvLoop k fd (lens.map some) offset 0 := by
      unfold preadv
      rw [List.length_map, if_pos hcnt]
    rw [hloop]
    exact preadvLoop_at_end h hmode hdata hvec hend lens hlens
  sendfile := sendfile_at_end h hmode hdata hend

end

/-- **Reading at and past the end of a file.** For every file, offset and count
`fs_read` and `vfs::read_range` give the range cut to the file, and
`fs_read_to_vec` gives it exactly when it starts inside the file or at its end,
and panics otherwise. So do the calls on it: at the end `pread64`, `preadv` and
`sendfile` give nothing as `read` and `mmap` do, and past it they panic. -/
theorem read_paths_agree (fs : Option RamFS) (idx : Nat) (data : List Byte) (hdata : fsData fs idx = some data)
    (hvec : data.length ≤ isizeMax) (offset count : Nat) :
    fsRead fs idx offset count = fileRange data offset count ∧
    Vfs.readRange fs idx offset count = some (fileRange data offset count) ∧
    (offset ≤ data.length → fsReadToVec fs idx offset count = some (some (fileRange data offset count))) ∧
    (data.length < offset → fsReadToVec fs idx offset count = none) ∧
    ∀ k fd i, k.fs = fs → OnFile k fd i → (k.openFiles i).fileIdx = idx →
      (k.openFiles i).statusFlags &&& oAccmode ≠ oWronly → data.length ≤ offset →
      ReadsAtEnd k fd i data.length offset := by
  refine ⟨fsRead_eq hdata offset count, readRange_eq hdata hvec offset count, fun hle => ?_, fun hlt => ?_, ?_⟩
  · rw [fsReadToVec_eq hdata, if_pos hle]
  · rw [fsReadToVec_eq hdata, if_neg (by omega)]
  · rintro k fd i rfl h rfl hmode hend
    exact readsAtEnd h hmode hdata hvec hend

theorem fileSharers_onFile : OnFile fileSharers 3 0 := ⟨rfl, rfl⟩

/-- The file with three bytes in it. -/
def filledSharers : Kernel := fileSharers.setFs (some ⟨[⟨['a'], [7, 8, 9]⟩]⟩)

theorem read_paths_agree_filledSharers :
    fsRead filledSharers.fs 0 1 8 = [8, 9] ∧ Vfs.readRange filledSharers.fs 0 1 8 = some [8, 9] ∧
      fsReadToVec filledSharers.fs 0 1 8 = some (some [8, 9]) ∧ ReadsAtEnd filledSharers 3 0 3 3 := by
  have hagree := read_paths_agree filledSharers.fs 0 [7, 8, 9] rfl (by decide)
  obtain ⟨hread, hrange, hvec, -⟩ := hagree 1 8
  refine ⟨hread, hrange, hvec (by decide), ?_⟩
  exact (hagree 3 8).2.2.2.2 filledSharers 3 0 rfl (fileSharers_onFile.kept rfl rfl) rfl (by decide) (Nat.le_refl 3)

/-- One byte past the end of an empty file `read` gives nothing and `pread64`,
`preadv` and `sendfile` panic. -/
theorem read_past_end_panics :
    fsRead fileSharers.fs 0 1 8 = [] ∧ fsReadToVec fileSharers.fs 0 1 8 = none ∧
      pread64 fileSharers 3 8 1 = none ∧ preadv fileSharers 3 [some 8] 1 = none ∧
      (sendfile fileSharers 5 3 (.value 1) 8).isNone = true := by
  decide +kernel

/-! ## Writing a range -/

theorem lt_usizeMod_of_le {a : Nat} (h : a ≤ isizeMax) : a < usizeMod := Nat.lt_of_le_of_lt h (by decide)

theorem saturatingAdd_of_lt {a b : Nat} (h : a + b < usizeMod) : saturatingAdd a b = a + b := by
  unfold saturatingAdd
  omega

theorem RamFS.setData_setData (f : RamFS) (idx : Nat) (data data' : List Byte) :
    (f.setData idx data).setData idx data' = f.setData idx data' := by
  simp only [RamFS.setData, List.modify_modify_eq]
  rfl

variable {f : RamFS} {idx : Nat}

theorem RamFS.setData_self (h : fsData (some f) idx = some data) :
    f.setData idx data = f := by
  obtain ⟨file, hfile, rfl⟩ := Option.map_eq_some_iff.mp h
  have hmod : f.files.modify idx (fun f => ⟨f.name, file.data⟩) = f.files := by
    refine List.ext_getElem? fun j => ?_
    rw [List.getElem?_modify]
    by_cases hj : idx = j
    · subst hj
      rw [hfile]
      simp
    · simp [hj]
  unfold RamFS.setData
  rw [hmod]

theorem RamFS.setData_eq_iff {data' : List Byte} (h : fsData (some f) idx = some data) :
    f.setData idx data' = f ↔ data' = data := by
  constructor
  · intro he
    have hset : fsData (some (f.setData idx data')) idx = some data' := fsData_setData h
    rw [he, h] at hset
    exact (Option.some.inj hset).symm
  · rintro rfl
    exact RamFS.setData_self h

theorem fsWriteAt_cases (hdata : fsData (some f) idx = some data) (hoff : offset < usizeMod)
    (hlen : bytes.length < usizeMod) :
    fsWriteAt (some f) idx offset bytes =
      if offset + bytes.length ≤ isizeMax then some (some (f.setData idx (overwrite 0 data offset bytes))) else none := by
  split
  next hle => exact fsWriteAt_eq hdata hle
  next hgt =>
    have hstop : wrappingAdd offset bytes.length < offset ∨ isizeMax < wrappingAdd offset bytes.length := by
      unfold wrappingAdd usizeMod isizeMax at *
      omega
    simp only [fsWriteAt, hdata, hstop, if_true]

theorem fsWriteAt_noFile {fs : Option RamFS} (h : fsData fs idx = none) :
    fsWriteAt fs idx offset bytes = some none := by
  unfold fsWriteAt
  rw [h]
  cases fs <;> rfl

/-- Descriptor `fd` leads to a file that is there and that `pwrite64` may
write. -/
structure Kernel.Writable (k : Kernel) (fd i : Nat) (f : RamFS) (data : List Byte) : Prop where
  onFile : OnFile k fd i
  mode : (k.openFiles i).statusFlags &&& oAccmode ≠ oRdonly
  fs : k.fs = some f
  contents : fsData (some f) (k.openFiles i).fileIdx = some data

namespace Kernel.Writable

theorem setData (h : k.Writable fd i f data) (data' : List Byte) :
    (k.setFs (some (f.setData (k.openFiles i).fileIdx data'))).Writable fd i
      (f.setData (k.openFiles i).fileIdx data') data' :=
  ⟨h.onFile.kept rfl rfl, h.mode, rfl, fsData_setData h.contents⟩

theorem setFs_eq_iff {data' : List Byte} (h : k.Writable fd i f data) :
    k.setFs (some (f.setData (k.openFiles i).fileIdx data')) = k ↔ data' = data := by
  rw [← RamFS.setData_eq_iff h.contents]
  refine ⟨fun he => Option.some.inj ((congrArg Kernel.fs he).trans h.fs), fun he => ?_⟩
  rw [he, ← h.fs]
  rfl

theorem pwrite64 (h : k.Writable fd i f data) (hoff : offset < usizeMod) (hlen : bytes.length < usizeMod) :
    CoreOS.pwrite64 k fd bytes offset =
      if offset + bytes.length ≤ isizeMax then
        some (.ok bytes.length, k.setFs (some (f.setData (k.openFiles i).fileIdx (overwrite 0 data offset bytes))))
      else none := by
  rw [h.onFile.pwrite64, if_neg h.mode, h.fs, fsWriteAt_cases h.contents hoff hlen]
  split <;> rfl

end Kernel.Writable

/-- The bytes of the buffers before the first one outside user memory, on end. -/
def gathered : List (Option (List Byte)) → List Byte
  | some bytes :: iovs => bytes ++ gathered iovs
  | _ => []

/-- **The loop of `pwritev`** on a file that may be written: the buffers before
the first one outside user memory are written on end, or the call panics. -/
theorem Kernel.Writable.pwritevLoop {total : Nat} {iovs : List (Option (List Byte))} (h : k.Writable fd i f data)
    (hlen : ∀ bytes, some bytes ∈ iovs → bytes.length < usizeMod) (hoff : offset < usizeMod) (htotal : total ≤ offset)
    (hstart : (∃ bytes, iovs.head? = some (some bytes)) ∨ offset ≤ data.length ∧ offset ≤ isizeMax) :
    CoreOS.pwritevLoop fd k iovs offset total =
      if offset + (gathered iovs).length ≤ isizeMax then
        some (if none ∈ iovs then .error .fault else .ok (total + (gathered iovs).length),
          k.setFs (some (f.setData (k.openFiles i).fileIdx (overwrite 0 data offset (gathered iovs)))))
      else none := by
  induction iovs generalizing k offset total f data with
  | nil =>
    obtain ⟨hle, hmax⟩ := hstart.resolve_left (by simp)
    simp [CoreOS.pwritevLoop, gathered, hmax, h.setFs_eq_iff.mpr (overwrite_nil hle)]
  | cons iov iovs ih =>
    cases iov with
    | none =>
      obtain ⟨hle, hmax⟩ := hstart.resolve_left (by simp)
      simp [CoreOS.pwritevLoop, gathered, hmax, h.setFs_eq_iff.mpr (overwrite_nil hle)]
    | some bytes =>
      have hbytes := hlen bytes List.mem_cons_self
      rw [CoreOS.pwritevLoop, h.pwrite64 hoff hbytes, gathered, List.length_append]
      by_cases hfits : offset + bytes.length ≤ isizeMax
      · have hsat : ∀ n, n ≤ offset → saturatingAdd n bytes.length = n + bytes.length := fun n hn =>
          saturatingAdd_of_lt (lt_usizeMod_of_le (by omega))
        have hrest := ih (h.setData (overwrite 0 data offset bytes))
          (fun b hb => hlen b (List.mem_cons_of_mem _ hb)) (lt_usizeMod_of_le hfits)
          (Nat.add_le_add_right htotal bytes.length) (.inr ⟨by simp, hfits⟩)
        simp only [if_pos hfits, hsat offset (Nat.le_refl _), hsat total htotal, ne_eq, not_true_eq_false, if_false]
        rw [hrest]
        simp [Kernel.setFs, RamFS.setData_setData, overwrite_overwrite, Nat.add_assoc]
      · rw [if_neg hfits, if_neg (by omega)]

/-- Where a `write` through description `i` begins. -/
def Kernel.writeStart (k : Kernel) (i : Nat) : Nat :=
  (k.openFiles i).writePos (fsFileSize k.fs (k.openFiles i).fileIdx)

theorem OnFile.writeFile (h : OnFile k fd i) (bytes : List Byte) :
    CoreOS.writeFile k fd bytes =
      if (k.openFiles i).statusFlags &&& oAccmode = oWronly ∨ (k.openFiles i).statusFlags &&& oAccmode = oRdwr then
        (fsWriteAt k.fs (k.openFiles i).fileIdx (k.writeStart i) bytes).map fun
          | some fs => (some bytes.length, (k.setFs (some fs)).setOpenFile i
              { k.openFiles i with offset := wrappingAdd (k.writeStart i) bytes.length })
          | none => (none, k)
      else some (none, k) := by
  unfold CoreOS.writeFile
  rewrite [h.openIdx]
  dsimp only
  split
  · unfold Kernel.writeStart OpenFile.writePos
    split
    next hw => rw [hw]; rfl
    next hw => rw [hw]; rfl
    next hw => rw [hw]; rfl
  · rfl

end CoreOS
