/-
A failing open. `open_path` creates and truncates first and asks for a
description and a descriptor last, and nothing takes the former back. So a
failing open leaves everything as it was exactly when the tables had room, or
it was refused or had nothing to create or cut off before it asked
(`failing_open_unchanged`).
-/
import CoreOS.FdRefs
import CoreOS.FsMap

namespace CoreOS

open ByteMem

/-! ## Which files an open changes -/

/-- The name in the filesystem that a path comes to, if it comes to one. -/
def openName (k : Kernel) (raw : List Byte) : Option (List Char) :=
  if raw = devNull ∨ raw = devZero ∨ raw = devTty ∨ raw = devStdin ∨ raw = devStdout ∨ raw = devStderr then none
  else if raw = procSelfExe then
    if (currentExePath k).isEmpty then none else some ((currentExePath k).map byteChar)
  else normalizePathBytes raw

/-- The flags pass the checks of `open_path`. -/
def FlagsAccepted (flags : BitVec 64) : Prop :=
  validOpenFlags flags = true ∧
    (accmode flags = oRdonly.setWidth 64 ∨ accmode flags = oWronly.setWidth 64 ∨ accmode flags = oRdwr.setWidth 64) ∧
    ¬ (hasFlag flags oTrunc = true ∧ accmode flags = oRdonly.setWidth 64)

/-- The open is not refused before it asks for a descriptor. -/
def AsksForFd (k : Kernel) (name : List Char) (flags : BitVec 64) : Prop :=
  FlagsAccepted flags ∧
    match fsFindIdx k.fs name with
    | some _ => ¬ (hasFlag flags oCreat = true ∧ hasFlag flags oExcl = true)
    | none => hasFlag flags oCreat = true ∧ (Vfs.create k.fs name).isSome = true

/-- By then it has created the file, or cut bytes off. -/
def ChangesFiles (k : Kernel) (name : List Char) (flags : BitVec 64) : Prop :=
  match fsFindIdx k.fs name with
  | some idx => hasFlag flags oTrunc = true ∧ fsData k.fs idx ≠ some []
  | none => True

variable {idx : Nat}

theorem fsData_of_findIdx {fs : Option RamFS} {name : List Char} (h : fsFindIdx fs name = some idx) :
    ∃ f data, fs = some f ∧ fsData fs idx = some data := by
  obtain ⟨f, rfl, hpos⟩ := Option.bind_eq_some_iff.mp h
  obtain ⟨file, hfile, -⟩ := Keyed.getElem?_of_position hpos
  exact ⟨f, file.data, rfl, by simp [fsData, hfile]⟩

theorem fsResize_zero {f : RamFS} {data : List Byte} (h : fsData (some f) idx = some data) :
    fsResize (some f) idx 0 = some (some (f.setData idx [])) := by
  simp [fsResize, h, vecResize]

variable {k : Kernel} {flags : BitVec 64}

theorem openFound_asks {f : RamFS} {data : List Byte} (hf : k.fs = some f) (hdata : fsData k.fs idx = some data)
    (htrunc : ¬ (hasFlag flags oTrunc = true ∧ accmode flags = oRdonly.setWidth 64)) :
    openFound k (some idx) flags =
      fdOrBad (openFile (k.setFs (some (if hasFlag flags oTrunc then f.setData idx [] else f))) idx
        (openStatus flags)) := by
  unfold openFound openStatus
  dsimp only
  by_cases ht : hasFlag flags oTrunc = true
  · have hmode : accmode flags ≠ oRdonly.setWidth 64 := fun he => htrunc ⟨ht, he⟩
    rw [if_pos ⟨ht, hmode⟩, hf, fsResize_zero (hf ▸ hdata), if_pos ht]
    dsimp only
    split
    next heq => rw [heq, fdOrBad]
    next heq => rw [heq, fdOrBad]
  · have hself : k.setFs (some f) = k := by rw [← hf]; rfl
    rw [if_neg fun h => ht h.1, if_neg ht, hself]
    dsimp only
    split
    next heq => rw [heq, fdOrBad]
    next heq => rw [heq, fdOrBad]

/-- **What an open comes to.** Refused, it changes nothing; else it asks for a
descriptor, with the files as they then are. -/
theorem openPath_eq (k : Kernel) (name : List Char) (flags : BitVec 64) :
    (¬ AsksForFd k name flags ∧ ∃ e, openPath k name flags = (.error e, k)) ∨
    AsksForFd k name flags ∧ ∃ fs idx, (fs = k.fs ↔ ¬ ChangesFiles k name flags) ∧
      openPath k name flags = fdOrBad (openFile (k.setFs fs) idx (openStatus flags)) := by
  unfold openPath
  split
  next hv => exact .inl ⟨fun h => hv h.1.1, _, rfl⟩
  next hv =>
  split
  next hm => exact .inl ⟨fun h => hm h.1.2.1, _, rfl⟩
  next hm =>
  split
  next ht => exact .inl ⟨fun h => h.1.2.2 ht, _, rfl⟩
  next ht =>
  have hflags : FlagsAccepted flags := ⟨not_not.mp hv, not_not.mp hm, ht⟩
  unfold AsksForFd ChangesFiles
  cases hidx : fsFindIdx k.fs name with
  | some idx =>
    dsimp only
    split
    next he => exact .inl ⟨fun h => h.2 he, _, rfl⟩
    next he =>
      obtain ⟨f, data, hf, hdata⟩ := fsData_of_findIdx hidx
      refine .inr ⟨⟨hflags, he⟩, _, idx, ?_, openFound_asks hf hdata ht⟩
      have hnil : f.setData idx [] = f ↔ data = [] := (RamFS.setData_eq_iff (hf ▸ hdata)).trans eq_comm
      rw [hf] at hdata ⊢
      rw [hdata, Option.some.injEq]
      by_cases htr : hasFlag flags oTrunc = true
      · simp [htr, hnil]
      · simp [htr]
  | none =>
    dsimp only
    split
    next hc => exact .inl ⟨fun h => hc h.2.1, _, rfl⟩
    next hc =>
      cases hcreate : Vfs.create k.fs name with
      | none => exact .inl ⟨fun h => by simp at h, _, rfl⟩
      | some fs' =>
        dsimp only
        obtain ⟨f, hf, hcr⟩ := Option.bind_eq_some_iff.mp hcreate
        have hfiles : fs' = ⟨f.files ++ [⟨name, []⟩]⟩ := by
          unfold RamFS.create at hcr
          split at hcr
          · cases hcr
          · split at hcr
            · cases hcr
            · exact (Option.some.inj hcr).symm
        obtain ⟨idx, hnew⟩ : ∃ idx, fsFindIdx (some fs') name = some idx := by
          refine Option.ne_none_iff_exists'.mp fun hno => ?_
          exact Keyed.position_eq_none.mp hno ⟨name, []⟩ (by simp [hfiles]) rfl
        obtain ⟨f', data, hf', hdata⟩ := fsData_of_findIdx hnew
        cases hf'
        rw [hnew]
        refine .inr ⟨⟨hflags, not_not.mp hc, rfl⟩, _, idx, ?_, openFound_asks (k := k.setFs (some fs')) rfl hdata ht⟩
        -- one file more, truncated or not
        have hlen : (if hasFlag flags oTrunc = true then fs'.setData idx [] else fs').files.length = f.files.length + 1 := by
          split
          · simp [RamFS.setData, hfiles]
          · simp [hfiles]
        simp only [not_true_eq_false, iff_false]
        intro he
        rw [hf] at he
        rw [Option.some.inj he] at hlen
        omega

/-! ## Room in the tables -/

/-- A description and a descriptor of the process are free. -/
def Kernel.CanOpen (k : Kernel) (p : Process) : Prop :=
  (∃ i < maxOpenFiles, (k.openFiles i).inUse = false) ∧ ∃ fd < maxFds, 3 ≤ fd ∧ p.fds fd = .empty

/-- The files, the descriptor tables and the open-file table are as before; in
the latter an entry that is not in use may have been emptied. -/
structure OpenUnchanged (k k' : Kernel) : Prop where
  fs : k'.fs = k.fs
  processes : k'.processes = k.processes
  inUse : ∀ i, (k'.openFiles i).inUse = (k.openFiles i).inUse
  used : ∀ i, (k.openFiles i).inUse = true → k'.openFiles i = k.openFiles i
  unused : (∀ i, (k.openFiles i).inUse = false → k.openFiles i = .empty) → k'.openFiles = k.openFiles

theorem OpenUnchanged.refl (k : Kernel) : OpenUnchanged k k := ⟨rfl, rfl, fun _ => rfl, fun _ _ => rfl, fun _ => rfl⟩

theorem OpenUnchanged.empty {i : Nat} (h : (k.openFiles i).inUse = false) :
    OpenUnchanged k (k.setOpenFile i .empty) where
  fs := rfl
  processes := rfl
  inUse j := by
    by_cases hj : j = i
    · subst hj
      simp [Kernel.setOpenFile, h, OpenFile.empty]
    · simp [Kernel.setOpenFile, hj]
  used j hj := by
    have hne : j ≠ i := by
      rintro rfl
      rw [h] at hj
      cases hj
    simp [Kernel.setOpenFile, hne]
  unused hall := by
    simp only [Kernel.setOpenFile]
    rw [← hall i h, Function.update_eq_self]

theorem find_free_description :
    ((List.range maxOpenFiles).find? fun i => !(k.openFiles i).inUse) = none ↔
      ¬ ∃ i < maxOpenFiles, (k.openFiles i).inUse = false := by
  simp [List.find?_eq_none]

variable {p : Process}

theorem firstEmptyFd_eq_none {minFd : Nat} :
    firstEmptyFd p minFd = none ↔ ¬ ∃ fd < maxFds, minFd ≤ fd ∧ p.fds fd = .empty := by
  simp [firstEmptyFd, List.find?_eq_none]

theorem openFile_fails_iff (hproc : k.currentProcess = some p) (fileIdx : Nat) (statusFlags : BitVec 32) :
    (k.CanOpen p ∧ ∃ fd k', openFile k fileIdx statusFlags = (some fd, k')) ∨
    ¬ k.CanOpen p ∧ ∃ k', openFile k fileIdx statusFlags = (none, k') ∧ OpenUnchanged k k' := by
  obtain ⟨t, ht, -⟩ : ∃ t, k.currentThread = some t ∧ k.processes t.groupSlot = some p :=
    Option.bind_eq_some_iff.mp hproc
  unfold openFile FdOpen.alloc
  cases hfree : (List.range maxOpenFiles).find? fun i => !(k.openFiles i).inUse with
  | none => exact .inr ⟨fun h => find_free_description.mp hfree h.1, k, rfl, .refl k⟩
  | some i =>
    have hlt : i < maxOpenFiles := List.mem_range.mp (List.mem_of_find?_eq_some hfree)
    have hunused : (k.openFiles i).inUse = false := by simpa using List.find?_some hfree
    have ht' : (k.setOpenFile i (.new fileIdx statusFlags)).currentThread = some t := ht
    have hp' : (k.setOpenFile i (.new fileIdx statusFlags)).currentProcess = some p := hproc
    dsimp only
    rw [ht', hp']
    dsimp only
    cases hfd : firstEmptyFd p 3 with
    | some fd =>
      obtain ⟨hfdlt, hmin, hempty⟩ := firstEmptyFd_spec hfd
      exact .inl ⟨⟨⟨i, hlt, hunused⟩, fd, hfdlt, hmin, hempty⟩, _, _, rfl⟩
    | none =>
      refine .inr ⟨fun h => firstEmptyFd_eq_none.mp hfd h.2, _, rfl, ?_⟩
      have hrelease : releaseFdTarget (k.setOpenFile i (.new fileIdx statusFlags)) (.openFile i) =
          k.setOpenFile i .empty := by
        simp [releaseFdTarget, FdOpen.release, FdOpen.live, Kernel.setOpenFile, OpenFile.new, hlt]
      rw [hrelease]
      exact .empty hunused

/-! ## The special paths -/

variable {k' : Kernel}

theorem dupMin_fails {oldFd minFd : Nat} {cloexec : Bool} (h : dupMin k oldFd minFd cloexec = (none, k')) : k' = k := by
  unfold dupMin dupFd at h
  split at h
  next t p _ _ =>
    split at h
    · cases h; rfl
    split at h
    · cases h; rfl
    · split at h
      · cases h; rfl
      · cases h
      next fd hdest =>
        have hempty : p.fds fd = .empty := by
          unfold dupDest at hdest
          dsimp only at hdest
          split at hdest
          next fd' hfd =>
            cases hdest
            exact (firstEmptyFd_spec hfd).2.2
          · cases hdest
        rw [if_pos hempty] at h
        dsimp only at h
        cases hretain : retainFdTarget k (p.fds oldFd) with
        | none =>
          rw [hretain] at h
          cases h
          rfl
        | some k1 =>
          rw [hretain] at h
          cases h
  · cases h; rfl

variable {e : SysError}

theorem fdOrBad_fails {r : Option Nat × Kernel} (h : fdOrBad r = (.error e, k')) :
    r = (none, k') := by
  obtain ⟨_ | fd, k⟩ := r
  · cases h
    rfl
  · cases h

theorem openDevice_fails {target : FdTarget} (h : openSpecialPath.openDevice k target = (none, k')) : k' = k := by
  unfold openSpecialPath.openDevice at h
  split at h
  · cases h
  · cases h; rfl

theorem openSpecialPath_fails {raw : List Byte} {r : Except SysError Nat × Kernel}
    (h : openSpecialPath k raw flags = some r) (hraw : raw ≠ procSelfExe) (hr : r = (.error e, k')) :
    k' = k := by
  subst hr
  unfold openSpecialPath at h
  rw [if_neg hraw] at h
  split at h
  · cases h
    rfl
  split at h
  · exact openDevice_fails (fdOrBad_fails (Option.some.inj h))
  split at h
  · exact openDevice_fails (fdOrBad_fails (Option.some.inj h))
  split at h
  · exact openDevice_fails (fdOrBad_fails (Option.some.inj h))
  split at h
  · exact dupMin_fails (fdOrBad_fails (Option.some.inj h))
  split at h
  · exact dupMin_fails (fdOrBad_fails (Option.some.inj h))
  split at h
  · exact dupMin_fails (fdOrBad_fails (Option.some.inj h))
  cases h

theorem openPath_invalid (k : Kernel) (name : List Char) (h : ¬ validOpenFlags flags = true) :
    openPath k name flags = (.error .invalid, k) := by
  unfold openPath
  rw [if_pos h]

theorem syscallOpen_eq (k : Kernel) (raw : List Byte) (flags : BitVec 64) :
    (∃ name, openName k raw = some name ∧ syscallOpen k raw flags = openPath k name flags) ∨
    openName k raw = none ∧ ∀ e k', syscallOpen k raw flags = (.error e, k') → k' = k := by
  by_cases hexe : raw = procSelfExe
  · subst hexe
    have hname : openName k procSelfExe =
        if (currentExePath k).isEmpty then none else some ((currentExePath k).map byteChar) := by
      unfold openName
      rw [if_neg (by decide), if_pos rfl]
    have hopen : syscallOpen k procSelfExe flags =
        if validOpenFlags flags = true then
          if (currentExePath k).isEmpty then (.error .noEntry, k)
          else openPath k ((currentExePath k).map byteChar) flags
        else (.error .invalid, k) := by
      unfold syscallOpen openSpecialPath
      rw [if_neg (by decide : procSelfExe ≠ devNull), if_neg (by decide : procSelfExe ≠ devZero),
        if_neg (by decide : procSelfExe ≠ devTty), if_neg (by decide : procSelfExe ≠ devStdin),
        if_neg (by decide : procSelfExe ≠ devStdout), if_neg (by decide : procSelfExe ≠ devStderr), if_pos rfl]
      by_cases hv : validOpenFlags flags = true
      · rw [if_neg (not_not.mpr hv), if_pos hv]
        by_cases hempty : (currentExePath k).isEmpty = true
        · rw [if_pos hempty, if_pos hempty]
        · rw [if_neg hempty, if_neg hempty]
      · rw [if_pos hv, if_neg hv]
    rw [hname, hopen]
    by_cases hempty : (currentExePath k).isEmpty = true
    · refine .inr ⟨if_pos hempty, fun e k' h => ?_⟩
      rw [if_pos hempty] at h
      split at h
      · cases h; rfl
      · cases h; rfl
    · refine .inl ⟨_, if_neg hempty, ?_⟩
      rw [if_neg hempty]
      split
      · rfl
      next hv => exact (openPath_invalid k _ hv).symm
  by_cases hdev : raw = devNull ∨ raw = devZero ∨ raw = devTty ∨ raw = devStdin ∨ raw = devStdout ∨ raw = devStderr
  · refine .inr ⟨by rw [openName, if_pos hdev], fun e k' h => ?_⟩
    have hspecial : openSpecialPath k raw flags ≠ none := by
      unfold openSpecialPath
      rcases hdev with rfl | rfl | rfl | rfl | rfl | rfl <;> split <;> nofun
    obtain ⟨r, hr⟩ := Option.ne_none_iff_exists'.mp hspecial
    simp only [syscallOpen, hr] at h
    exact openSpecialPath_fails hr hexe h
  · have hne := hdev
    simp only [not_or] at hne
    obtain ⟨h1, h2, h3, h4, h5, h6⟩ := hne
    rw [openName, if_neg hdev, if_neg hexe]
    unfold syscallOpen openSpecialPath
    rw [if_neg h1, if_neg h2, if_neg h3, if_neg h4, if_neg h5, if_neg h6, if_neg hexe]
    cases hpath : normalizePathBytes raw with
    | none =>
      refine .inr ⟨rfl, fun e k' h => ?_⟩
      split at h
      next heq =>
        split at heq
        · cases heq
          cases h
          rfl
        · cases heq
      · cases h
        rfl
    | some path =>
      refine .inl ⟨path, rfl, ?_⟩
      by_cases hv : validOpenFlags flags = true
      · rw [if_neg (not_not.mpr hv)]
      · rw [if_pos hv]
        exact (openPath_invalid k path hv).symm

/-! ## A failing open -/

theorem syscallOpen_fails_iff {raw : List Byte} (hproc : k.currentProcess = some p)
    (h : syscallOpen k raw flags = (.error e, k')) :
    OpenUnchanged k k' ↔
      k.CanOpen p ∨ ∀ name, openName k raw = some name → AsksForFd k name flags → ¬ ChangesFiles k name flags := by
  rcases syscallOpen_eq k raw flags with ⟨name, hname, hopen⟩ | ⟨hname, hfail⟩
  · rw [hopen] at h
    rcases openPath_eq k name flags with ⟨hno, e', hrefused⟩ | ⟨hasks, fs, idx, hfs, hasked⟩
    · rw [hrefused] at h
      cases h
      refine iff_of_true (.refl k) (.inr fun other hother hasks => ?_)
      rw [hname] at hother
      cases hother
      exact absurd hasks hno
    · rw [hasked] at h
      have hfile := fdOrBad_fails h
      have hproc' : (k.setFs fs).currentProcess = some p := hproc
      rcases openFile_fails_iff hproc' idx (openStatus flags) with ⟨-, fd, k1, hok⟩ | ⟨hroom, k1, hno, hsame⟩
      · rw [hok] at hfile
        cases hfile
      · rw [hno] at hfile
        cases hfile
        have hroom' : ¬ k.CanOpen p := hroom
        constructor
        · intro hun
          refine .inr fun other hother _ => ?_
          rw [hname] at hother
          cases hother
          exact hfs.mp (hsame.fs.symm.trans hun.fs)
        · intro hcond
          have hkept : fs = k.fs := hfs.mpr (hcond.resolve_left hroom' name hname hasks)
          subst hkept
          exact hsame
  · rw [hfail e k' h]
    refine iff_of_true (.refl k) (.inr fun name hother => ?_)
    rw [hname] at hother
    cases hother

/-- **A failing open.** For every file system, tables, path and flags: if
`open` or `openat` called by a process fails, then the files, the descriptor
tables and the open-file table are as before, exactly if a description and a
descriptor were free, or the call was refused before it asked for them, or it
neither created the file nor cut off any of its bytes. -/
theorem failing_open_unchanged (k : Kernel) (p : Process) (raw : List Byte) (flags : BitVec 64)
    (hproc : k.currentProcess = some p) :
    (∀ e k', syscallOpen k raw flags = (.error e, k') → (OpenUnchanged k k' ↔
      k.CanOpen p ∨ ∀ name, openName k raw = some name → AsksForFd k name flags → ¬ ChangesFiles k name flags)) ∧
    ∀ dirfd e k', openat k dirfd raw flags = (.error e, k') → (OpenUnchanged k k' ↔
      dirfd.toInt ≠ atFdcwd ∨ k.CanOpen p ∨
        ∀ name, openName k raw = some name → AsksForFd k name flags → ¬ ChangesFiles k name flags) := by
  refine ⟨fun e k' h => syscallOpen_fails_iff hproc h, fun dirfd e k' h => ?_⟩
  unfold openat at h
  split at h
  next hcwd =>
    rw [syscallOpen_fails_iff hproc h]
    exact ⟨.inr, fun hor => hor.resolve_left (not_not.mpr hcwd)⟩
  next hother =>
    cases h
    exact iff_of_true (.refl k) (.inl hother)

theorem failing_open_unchanged_noEntry :
    (syscallOpen fileSharers (pathBytes ['z']) 0).1 = .error .noEntry ∧
      OpenUnchanged fileSharers (syscallOpen fileSharers (pathBytes ['z']) 0).2 := by
  have herr : (syscallOpen fileSharers (pathBytes ['z']) 0).1 = .error .noEntry := by decide +kernel
  obtain ⟨p, hp, hfd⟩ : ∃ p, fileSharers.currentProcess = some p ∧ p.fds 6 = .empty := ⟨_, rfl, rfl⟩
  have hroom : fileSharers.CanOpen p := ⟨⟨2, by decide, rfl⟩, 6, by decide, by decide, hfd⟩
  have hsame := (failing_open_unchanged fileSharers p (pathBytes ['z']) 0 hp).1 _ _ (Prod.ext herr rfl)
  exact ⟨herr, hsame.mpr (.inl hroom)⟩

/-- Every description is in use, and the file holds a byte. -/
def fullOpenFiles : Kernel :=
  { fileSharers with
    fs := some ⟨[⟨['a'], [1]⟩]⟩
    openFiles := fun _ => ⟨0, 0, oRdwr, 1, true⟩ }

/-- With the open-file table full, an open for truncation fails with the file
cut to nothing, and one for creation with a new file left behind. -/
theorem failing_open_changes_files :
    (syscallOpen fullOpenFiles (pathBytes ['a']) ((oWronly ||| oTrunc).setWidth 64)).1 = .error .badFd ∧
      fsData (syscallOpen fullOpenFiles (pathBytes ['a']) ((oWronly ||| oTrunc).setWidth 64)).2.fs 0 = some [] ∧
      (syscallOpen fullOpenFiles (pathBytes ['b']) ((oWronly ||| oCreat).setWidth 64)).1 = .error .badFd ∧
      Vfs.cloneBytes fullOpenFiles.fs ['b'] = none ∧
      Vfs.cloneBytes (syscallOpen fullOpenFiles (pathBytes ['b']) ((oWronly ||| oCreat).setWidth 64)).2.fs ['b'] =
        some [] := by
  decide +kernel

end CoreOS
