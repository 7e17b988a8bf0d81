/-
Paths in user memory (`syscall/helpers.rs`) and the calls that take them.
-/
import CoreOS.Exec

namespace CoreOS

open ByteMem

/-! ## The decoders -/

/-- `copy_path_from_user`. -/
def copyPathFromUser (user : Mem) (pathPtr pathLen : Nat) : Option (List Char) :=
  if pathLen = 0 ∨ maxPathLen < pathLen then none
  else (copyFromUser user pathPtr pathLen).bind normalizePathBytes

/-- The loop of `copy_cstr_from_user`, with `raw` read and `left` places left. -/
def copyCstrLoop (user : Mem) (pathPtr : Nat) : Nat → List Byte → Option (List Byte)
  | 0, _ => none
  | left + 1, raw =>
    match copyFromUser user (wrappingAdd pathPtr raw.length) 1 with
    | none => none
    | some byte => if byte = [0] then some raw else copyCstrLoop user pathPtr left (raw ++ byte)

/-- `copy_cstr_from_user`, the bytes before the end. -/
def copyCstrFromUser (user : Mem) (pathPtr : Nat) : Option (List Byte) :=
  if pathPtr = 0 then none else copyCstrLoop user pathPtr maxPathLen []

/-- `copy_path_cstr_from_user`. -/
def copyPathCstrFromUser (user : Mem) (pathPtr : Nat) : Option (List Char) :=
  (copyCstrFromUser user pathPtr).bind normalizePathBytes

/-! ## The calls that look for the end of their path -/

/-- `open_impl`. -/
def openFromUser (user : Mem) (k : Kernel) (pathPtr : Nat) (flags : BitVec 64) : Except SysError Nat × Kernel :=
  match copyCstrFromUser user pathPtr with
  | none => (.error .fault, k)
  | some raw => syscallOpen k raw flags

/-- The end of `truncate_impl`, on the name. -/
def truncateName (k : Kernel) (name : List Char) (len : Nat) : Option (Except SysError Nat × Kernel) :=
  match fsFindIdx k.fs name with
  | none => some (.error .noEntry, k)
  | some fileIdx => (fsResize k.fs fileIdx len).map fun
    | some fs => (.ok 0, k.setFs (some fs))
    | none => (.error .invalid, k)

/-- `truncate_impl`. -/
def truncateFromUser (user : Mem) (k : Kernel) (pathPtr len : Nat) : Option (Except SysError Nat × Kernel) :=
  match copyPathCstrFromUser user pathPtr with
  | none => some (.error .fault, k)
  | some name => truncateName k name len

def fOk : BitVec 64 := 0
def xOk : BitVec 64 := 1
def wOk : BitVec 64 := 2
def rOk : BitVec 64 := 4

/-- The paths that are no files of the filesystem. -/
def specialPaths : List (List Byte) := [devNull, devZero, devTty, devStdin, devStdout, devStderr, procSelfExe]

/-- The end of `faccessat_impl`, on the name. -/
def faccessName (k : Kernel) (name : List Char) (mode : BitVec 64) : Except SysError Nat :=
  match fsFindIdx k.fs name with
  | none => .error .noEntry
  | some _ => if mode &&& xOk = 0 then .ok 0 else .error .access

/-- `faccessat_impl` with `AT_FDCWD` and no flags. -/
def faccessatFromUser (user : Mem) (k : Kernel) (pathPtr : Nat) (mode : BitVec 64) : Except SysError Nat :=
  if ¬ (mode &&& ~~~(rOk ||| wOk ||| xOk) = 0 ∨ mode = fOk) then .error .invalid
  else
    match copyCstrFromUser user pathPtr with
    | none => .error .fault
    | some raw =>
      if specialPaths.contains raw then if mode &&& xOk = 0 then .ok 0 else .error .access
      else if raw = pathBytes ['/'] then if mode &&& wOk = 0 then .ok 0 else .error .access
      else
        match normalizePathBytes raw with
        | none => .error .fault
        | some name => faccessName k name mode

/-- The end of `syscall_exec_impl`, on the name. -/
def execName (k : Kernel) (name : List Char) : Option (Except SysError Nat × Kernel) :=
  match Vfs.cloneBytes k.fs name with
  | none => some (.error .noEntry, k)
  | some data =>
    match execAsTask k data name with
    | none => none
    | some (0, k) => some (.error .invalid, k)
    | some (pid, k) => some (.ok pid, k)

/-- `syscall_exec_impl`. -/
def execFromUser (user : Mem) (k : Kernel) (pathPtr : Nat) : Option (Except SysError Nat × Kernel) :=
  match copyPathCstrFromUser user pathPtr with
  | none => some (.error .fault, k)
  | some name => execName k name

/-- `vfs::remove` of a name, as `rm` and `unlinkat` end. -/
def removeName (k : Kernel) (name : List Char) : Except SysError Nat × Kernel :=
  match Vfs.remove k.fs name with
  | none => (.error .noEntry, k)
  | some fs => (.ok 0, k.setFs (some fs))

/-- `unlinkat_impl` with `AT_FDCWD` and no flags. -/
def unlinkatFromUser (user : Mem) (k : Kernel) (pathPtr : Nat) : Except SysError Nat × Kernel :=
  match copyCstrFromUser user pathPtr with
  | none => (.error .fault, k)
  | some raw => unlinkat k raw 0

/-! ## What a path comes to -/

/-- The name a path stands for: what follows its leading slashes, if that is not
empty and has no slash. -/
def pathName (s : List Byte) : Option (List Char) :=
  let rest := s.dropWhile (· = 0x2F)
  if rest = [] ∨ 0x2F ∈ rest then none else some (rest.map byteChar)

theorem byteChar_slash : ∀ b : Byte, byteChar b = '/' ↔ b = 0x2F := by decide +kernel

variable {s : List Byte}

theorem normalizePathBytes_eq (hpos : s ≠ []) (hlen : s.length ≤ maxPathLen) :
    normalizePathBytes s = pathName s := by
  have hchars : (fun b : Byte => decide (byteChar b = '/')) = fun b => decide (b = 0x2F) := by
    funext b
    simp only [byteChar_slash]
  unfold normalizePathBytes pathName
  rw [if_neg (by simp [hpos, hlen])]
  simp only [hchars]
  generalize s.dropWhile (fun b => decide (b = 0x2F)) = rest
  by_cases hnil : rest = []
  · simp [hnil]
  · by_cases hslash : 0x2F#8 ∈ rest
    · simp [hnil, hslash]
    · simp [hnil, hslash]

variable {name : List Char}

theorem normalizePathBytes_length (h : normalizePathBytes s = some name) :
    name.length ≤ s.length := by
  unfold normalizePathBytes at h
  split at h
  · cases h
  · dsimp only at h
    split at h
    · cases h
    · split at h
      · cases h
      · cases h
        rw [List.length_map]
        exact (List.dropWhile_sublist _).length_le

theorem not_special (h : normalizePathBytes s = some name) :
    s ∉ specialPaths ∧ s ≠ pathBytes ['/'] := by
  have hspecial : ∀ p ∈ specialPaths, normalizePathBytes p = none := by decide +kernel
  have hroot : normalizePathBytes (pathBytes ['/']) = none := by decide +kernel
  constructor
  · intro hs
    rw [hspecial s hs] at h
    cases h
  · rintro rfl
    rw [hroot] at h
    cases h

/-- The C-string calls act on the file of this name. -/
structure CallsReach (user : Mem) (pathPtr : Nat) (name : List Char) : Prop where
  opens : ∀ k flags, openFromUser user k pathPtr flags = openPath k name flags
  truncates : ∀ k len, truncateFromUser user k pathPtr len = truncateName k name len
  accesses : ∀ k mode, mode &&& ~~~(rOk ||| wOk ||| xOk) = 0 → faccessatFromUser user k pathPtr mode = faccessName k name mode
  executes : ∀ k, execFromUser user k pathPtr = execName k name
  unlinks : ∀ k, unlinkatFromUser user k pathPtr = removeName k name

variable {user : Mem} {pathPtr : Nat}

theorem callsReach (hcstr : copyCstrFromUser user pathPtr = some s) (hname : normalizePathBytes s = some name) :
    CallsReach user pathPtr name := by
  have hpath : copyPathCstrFromUser user pathPtr = some name := by rw [copyPathCstrFromUser, hcstr, Option.bind_some, hname]
  obtain ⟨hspecial, hroot⟩ := not_special hname
  refine ⟨fun k flags => ?_, fun k len => ?_, fun k mode hmode => ?_, fun k => ?_, fun k => ?_⟩
  · have hne : ∀ p ∈ specialPaths, s ≠ p := fun p hp he => hspecial (he ▸ hp)
    simp only [specialPaths, List.forall_mem_cons] at hne
    obtain ⟨h1, h2, h3, h4, h5, h6, h7, -⟩ := hne
    unfold openFromUser
    rw [hcstr]
    dsimp only
    unfold syscallOpen openSpecialPath
    by_cases hflags : validOpenFlags flags = true
    · rw [if_neg (not_not.mpr hflags), if_neg h1, if_neg h2, if_neg h3, if_neg h4, if_neg h5, if_neg h6, if_neg h7, hname]
    · rw [if_pos hflags, openPath, if_pos hflags]
  · rw [truncateFromUser, hpath]
  · rw [faccessatFromUser, if_neg (not_not.mpr (.inl hmode)), hcstr]
    dsimp only
    rw [if_neg fun hc => hspecial (List.contains_iff_mem.mp hc), if_neg hroot, hname]
  · rw [execFromUser, hpath]
  · rw [unlinkatFromUser, hcstr]
    dsimp only
    have hlist : s ∉ [devNull, devZero, devTty, devStdin, devStdout, devStderr, procSelfExe] := hspecial
    rw [unlinkat, if_neg (by decide), if_neg (by decide), if_neg hlist, rm, hname]
    rfl

/-! ## Paths stored in user memory -/

/-- The path `s` stands at `pathPtr`, with a zero after it. -/
structure StoredPath (user : Mem) (pathPtr : Nat) (s : List Byte) : Prop where
  pos : s ≠ []
  len : s.length ≤ maxPathLen
  noNul : 0 ∉ s
  range : userRangeOk pathPtr (s.length + 1) = true
  bytes : load user pathPtr (s.length + 1) = s ++ [0]

namespace StoredPath

variable {user : Mem} {pathPtr : Nat} {s : List Byte}

theorem byte (h : StoredPath user pathPtr s) {i : Nat} (hi : i < s.length + 1) :
    copyFromUser user (wrappingAdd pathPtr i) 1 = some ((s ++ [0])[i]?.toList) := by
  obtain ⟨-, hend⟩ := userRangeOk_iff.mp h.range
  have htop : userTop < usizeMod := by decide
  rw [wrappingAdd_of_lt (by omega), copyFromUser, if_pos (userRangeOk_iff.mpr ⟨by omega, by omega⟩), ← h.bytes]
  simp [load, hi]

theorem copyPath (h : StoredPath user pathPtr s) : copyPathFromUser user pathPtr s.length = normalizePathBytes s := by
  obtain ⟨hlt, hend⟩ := userRangeOk_iff.mp h.range
  have hlen := List.length_pos_iff.mpr h.pos
  have hload : load user pathPtr s.length = s := by
    have := congrArg (List.take s.length) h.bytes
    rwa [List.take_left, load, ← List.map_take, List.take_range, Nat.min_eq_left (Nat.le_succ _)] at this
  have hle := h.len
  rw [copyPathFromUser, if_neg (by omega), copyFromUser, if_pos (userRangeOk_iff.mpr ⟨hlt, by omega⟩), hload]
  rfl

theorem copyCstrLoop (h : StoredPath user pathPtr s) {left : Nat} {raw rest : List Byte} (hs : raw ++ rest = s) :
    CoreOS.copyCstrLoop user pathPtr left raw = if rest.length < left then some s else none := by
  induction left generalizing raw rest with
  | zero => rfl
  | succ left ih =>
    have hlen : raw.length < s.length + 1 := by
      rw [← hs, List.length_append]
      omega
    unfold CoreOS.copyCstrLoop
    rw [h.byte hlen]
    dsimp only
    cases rest with
    | nil =>
      rw [List.append_nil] at hs
      subst hs
      simp
    | cons b rest =>
      have hb : b ≠ 0 := fun h0 => h.noNul (by rw [← hs, h0]; simp)
      have hget : (s ++ [0])[raw.length]? = some b := by
        rw [← hs, List.append_assoc, List.getElem?_append_right (Nat.le_refl _), Nat.sub_self]
        rfl
      rw [hget, Option.toList_some, if_neg (by simpa using hb), ih (show raw ++ [b] ++ rest = s by rw [← hs]; simp)]
      simp only [List.length_cons, Nat.succ_lt_succ_iff]

theorem copyCstr (h : StoredPath user pathPtr s) :
    copyCstrFromUser user pathPtr = if pathPtr ≠ 0 ∧ s.length < maxPathLen then some s else none := by
  unfold copyCstrFromUser
  by_cases hp : pathPtr = 0
  · rw [if_pos hp, if_neg (fun hc => hc.1 hp)]
  · rw [if_neg hp, h.copyCstrLoop (List.nil_append s)]
    simp only [ne_eq, hp, not_false_eq_true, true_and]

end StoredPath

theorem copyCstrLoop_length {left : Nat} {raw : List Byte} (h : copyCstrLoop user pathPtr left raw = some s) :
    s.length < raw.length + left := by
  induction left generalizing raw with
  | zero => cases h
  | succ left ih =>
    unfold copyCstrLoop at h
    cases hbyte : copyFromUser user (wrappingAdd pathPtr raw.length) 1 with
    | none =>
      rw [hbyte] at h
      cases h
    | some byte =>
      rw [hbyte] at h
      dsimp only at h
      split at h
      · cases h
        omega
      · have hone : byte.length = 1 := by
          unfold copyFromUser at hbyte
          split at hbyte
          · cases hbyte
            rfl
          · cases hbyte
        have := ih h
        rw [List.length_append, hone] at this
        omega

theorem copyPathCstrFromUser_length (h : copyPathCstrFromUser user pathPtr = some name) : name.length < maxPathLen := by
  obtain ⟨s, hs, hname⟩ := Option.bind_eq_some_iff.mp h
  unfold copyCstrFromUser at hs
  split at hs
  · cases hs
  · have hshort := copyCstrLoop_length hs
    have hle := normalizePathBytes_length hname
    rw [List.length_nil, Nat.zero_add] at hshort
    omega

theorem StoredPath.store (hpos : s ≠ []) (hlen : s.length ≤ maxPathLen) (hnul : 0 ∉ s) :
    StoredPath (ByteMem.store (fun _ => 0) 4096 (s ++ [0])) 4096 s := by
  have hload := load_store (fun _ => 0) 4096 (s ++ [0])
  rw [List.length_append, List.length_singleton] at hload
  refine ⟨hpos, hlen, hnul, userRangeOk_iff.mpr ⟨by decide, ?_⟩, hload⟩
  unfold maxPathLen at hlen
  unfold userTop
  omega

theorem pathName_some (h : pathName s = some name) :
    ∃ rest, rest <:+ s ∧ rest ≠ [] ∧ 0x2F ∉ rest ∧ name = rest.map byteChar := by
  unfold pathName at h
  dsimp only at h
  split at h
  · cases h
  next hok =>
    obtain ⟨hnil, hslash⟩ := not_or.mp hok
    exact ⟨_, List.dropWhile_suffix _, hnil, hslash, (Option.some.inj h).symm⟩

theorem pathName_of_no_slash (hpos : s ≠ []) (hslash : 0x2F ∉ s) :
    pathName s = some (s.map byteChar) := by
  have hdrop : s.dropWhile (fun b => decide (b = 0x2F)) = s := by
    cases s with
    | nil => rfl
    | cons b s =>
      refine List.dropWhile_cons_of_neg ?_
      rw [decide_eq_true_eq]
      exact fun hb => hslash (hb ▸ List.mem_cons_self)
  unfold pathName
  dsimp only
  rw [hdrop, if_neg (not_or.mpr ⟨hpos, hslash⟩)]

theorem cstr_names_iff (hlen : s.length ≤ maxPathLen) (hnul : 0 ∉ s) (hname : pathName s = some name) :
    (∃ user pathPtr, copyPathCstrFromUser user pathPtr = some name) ↔ name.length < maxPathLen := by
  constructor
  · rintro ⟨user, pathPtr, h⟩
    exact copyPathCstrFromUser_length h
  · intro hshort
    obtain ⟨rest, hsuffix, hpos, hslash, rfl⟩ := pathName_some hname
    have hle : rest.length ≤ maxPathLen := Nat.le_trans hsuffix.length_le hlen
    have hstored := StoredPath.store hpos hle fun h0 => hnul (hsuffix.subset h0)
    rw [List.length_map] at hshort
    refine ⟨store (fun _ => 0) 4096 (rest ++ [0]), 4096, ?_⟩
    rw [copyPathCstrFromUser, hstored.copyCstr, if_pos ⟨by decide, hshort⟩, Option.bind_some,
      normalizePathBytes_eq hpos hle, pathName_of_no_slash hpos hslash]

/-- **The two decoders agree on paths shorter than the limit.** On a path stored in
user memory with a zero after it, the decoder that is told the length and the one
that looks for the end both return the name the path stands for, and the calls that
use the second act on the file that those that use the first can name, exactly if the
path is shorter than the limit and not at address 0, or stands for no file. And of the
files that can be named at all those can be reached by a call of the second kind whose
names are shorter than the limit. -/
theorem path_decoders_agree_iff (user : Mem) (pathPtr : Nat) (s : List Byte) (h : StoredPath user pathPtr s) :
    ((copyPathFromUser user pathPtr s.length = pathName s ∧ copyPathCstrFromUser user pathPtr = pathName s ∧
        ∀ name, copyPathFromUser user pathPtr s.length = some name → CallsReach user pathPtr name) ↔
      (pathPtr ≠ 0 ∧ s.length < maxPathLen) ∨ pathName s = none) ∧
    ∀ name, pathName s = some name →
      ((∃ user' pathPtr', copyPathCstrFromUser user' pathPtr' = some name) ↔ name.length < maxPathLen) := by
  have hnorm := normalizePathBytes_eq h.pos h.len
  have hcopy := h.copyPath
  have hcstr := h.copyCstr
  refine ⟨?_, fun name hname => cstr_names_iff h.len h.noNul hname⟩
  rw [hnorm] at hcopy
  by_cases hcond : pathPtr ≠ 0 ∧ s.length < maxPathLen
  · rw [if_pos hcond] at hcstr
    have hpath : copyPathCstrFromUser user pathPtr = pathName s := by
      rw [copyPathCstrFromUser, hcstr, Option.bind_some, hnorm]
    refine ⟨fun _ => .inl hcond, fun _ => ⟨hcopy, hpath, fun name hname => ?_⟩⟩
    exact callsReach hcstr (hnorm.trans (hcopy.symm.trans hname))
  · rw [if_neg hcond] at hcstr
    have hpath : copyPathCstrFromUser user pathPtr = none := by
      rw [copyPathCstrFromUser, hcstr, Option.bind_none]
    rw [hpath, hcopy]
    constructor
    · rintro ⟨-, hnone, -⟩
      exact .inr hnone.symm
    · intro hc
      have hnone := hc.resolve_left hcond
      rw [hnone]
      exact ⟨rfl, rfl, fun name hname => by cases hname⟩

/-- `"/a"`, which both read as `a`. -/
theorem path_decoders_agree_iff_a :
    StoredPath (store (fun _ => 0) 4096 (pathBytes ['/', 'a'] ++ [0])) 4096 (pathBytes ['/', 'a']) ∧
      copyPathFromUser (store (fun _ => 0) 4096 (pathBytes ['/', 'a'] ++ [0])) 4096 2 = some ['a'] ∧
      copyPathCstrFromUser (store (fun _ => 0) 4096 (pathBytes ['/', 'a'] ++ [0])) 4096 = some ['a'] := by
  have hs : StoredPath (store (fun _ => 0) 4096 (pathBytes ['/', 'a'] ++ [0])) 4096 (pathBytes ['/', 'a']) :=
    .store (by decide) (by decide) (by decide)
  have hname : pathName (pathBytes ['/', 'a']) = some ['a'] := by decide +kernel
  obtain ⟨hcopy, hcstr, -⟩ := (path_decoders_agree_iff _ _ _ hs).1.mpr (.inl ⟨by decide, by decide⟩)
  exact ⟨hs, hcopy.trans hname, hcstr.trans hname⟩

/-- A name of 64 characters: `touch` makes the file, and `open` does not find the
end of its path. -/
theorem longest_name_not_opened :
    StoredPath (store (fun _ => 0) 4096 (List.replicate 64 0x61 ++ [0])) 4096 (List.replicate 64 0x61) ∧
      copyPathFromUser (store (fun _ => 0) 4096 (List.replicate 64 0x61 ++ [0])) 4096 64 =
        some (List.replicate 64 'a') ∧
      copyPathCstrFromUser (store (fun _ => 0) 4096 (List.replicate 64 0x61 ++ [0])) 4096 = none ∧
      ∀ user pathPtr, copyPathCstrFromUser user pathPtr ≠ some (List.replicate 64 'a') := by
  have hs : StoredPath (store (fun _ => 0) 4096 (List.replicate 64 0x61 ++ [0])) 4096 (List.replicate 64 0x61) :=
    .store (by decide) (by decide) (by decide)
  have hcopy : copyPathFromUser (store (fun _ => 0) 4096 (List.replicate 64 0x61 ++ [0])) 4096 64 = _ := hs.copyPath
  refine ⟨hs, hcopy.trans (by decide +kernel), ?_, fun user pathPtr h => ?_⟩
  · rw [copyPathCstrFromUser, hs.copyCstr, if_neg (by decide)]
    rfl
  · have := copyPathCstrFromUser_length h
    exact absurd this (by decide)

end CoreOS
