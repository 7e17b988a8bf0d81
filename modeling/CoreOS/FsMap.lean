/-
The RAM filesystem as a finite map from names to contents.
-/
import CoreOS.FileBounds
import CoreOS.Lib.Keyed

namespace CoreOS

open ByteMem Contents
open Function (update update_of_ne)

/-- The names with their contents. -/
abbrev FsMap := List Char → Option (List Byte)

namespace RamFS

def contents (fs : RamFS) : FsMap := fun name => (fs.find name).map File.data

/-- No file is without a name, and no two share one. -/
structure WellNamed (fs : RamFS) : Prop where
  nonempty : ∀ file ∈ fs.files, file.name ≠ []
  distinct : Keyed.Distinct File.name fs.files

theorem find_eq_lookup (fs : RamFS) (name : List Char) : fs.find name = Keyed.lookup File.name fs.files name := rfl

variable {fs fs' : RamFS} {name : List Char} {i : Nat} {file : File}

theorem contents_eq_none : fs.contents name = none ↔ ∀ file ∈ fs.files, file.name ≠ name := by
  rw [contents, Option.map_eq_none_iff, find_eq_lookup, Keyed.lookup_eq_none]

theorem contents_append (hnew : fs.contents name = none) (data : List Byte) :
    contents ⟨fs.files ++ [⟨name, data⟩]⟩ = update fs.contents name (some data) := by
  have hno : Keyed.lookup File.name fs.files (File.name ⟨name, data⟩) = none := Option.map_eq_none_iff.mp hnew
  funext other
  rw [contents, find_eq_lookup, Keyed.lookup_append hno]
  by_cases h : other = name
  · subst h
    simp
  · rw [if_neg h, update_of_ne h]
    rfl

namespace WellNamed

theorem new : WellNamed RamFS.new := ⟨by simp [RamFS.new], List.nodup_nil⟩

variable (h : fs.WellNamed)
include h

theorem contents_eq_some {data : List Byte} : fs.contents name = some data ↔ ⟨name, data⟩ ∈ fs.files := by
  rw [contents, Option.map_eq_some_iff]
  constructor
  · rintro ⟨file, hfind, rfl⟩
    obtain ⟨hmem, rfl⟩ := h.distinct.lookup_eq_some.mp hfind
    exact hmem
  · intro hmem
    exact ⟨⟨name, data⟩, h.distinct.lookup_eq hmem, rfl⟩

/-! ## What the operations do to the map -/

theorem create (name : List Char) :
    (∃ fs', fs.create name = some fs' ∧ name ≠ [] ∧ fs.contents name = none ∧ fs'.WellNamed ∧
      fs'.contents = update fs.contents name (some [])) ∨
    fs.create name = none ∧ (name = [] ∨ fs.contents name ≠ none) := by
  unfold RamFS.create
  split
  next hname => exact .inr ⟨rfl, .inl (List.isEmpty_iff.mp hname)⟩
  next hname =>
    split
    next hany =>
      obtain ⟨file, hmem, heq⟩ := List.any_eq_true.mp hany
      exact .inr ⟨rfl, .inr fun hnone => contents_eq_none.mp hnone file hmem (by simpa using heq)⟩
    next hany =>
      have hne : name ≠ [] := fun he => hname (List.isEmpty_iff.mpr he)
      have hnew : fs.contents name = none := contents_eq_none.mpr fun file hmem heq =>
        hany (List.any_eq_true.mpr ⟨file, hmem, by simpa using heq⟩)
      refine .inl ⟨_, rfl, hne, hnew, ⟨fun file hmem => ?_, ?_⟩, contents_append hnew []⟩
      · rcases List.mem_append.mp hmem with hmem | hmem
        · exact h.nonempty file hmem
        · rw [List.mem_singleton.mp hmem]
          exact hne
      · exact h.distinct.append (Option.map_eq_none_iff.mp hnew)

theorem eraseIdx (hfile : fs.files[i]? = some file) :
    WellNamed ⟨fs.files.eraseIdx i⟩ ∧
      contents ⟨fs.files.eraseIdx i⟩ = update fs.contents file.name none := by
  refine ⟨⟨fun file hmem => h.nonempty file (List.mem_of_mem_eraseIdx hmem), h.distinct.eraseIdx i⟩, ?_⟩
  funext other
  rw [contents, find_eq_lookup, h.distinct.lookup_eraseIdx hfile]
  by_cases ho : other = file.name
  · subst ho
    simp
  · rw [if_neg ho, update_of_ne ho]
    rfl

theorem remove (name : List Char) :
    (∃ fs', fs.remove name = some fs' ∧ fs.contents name ≠ none ∧ fs'.WellNamed ∧
      fs'.contents = update fs.contents name none) ∨
    fs.remove name = none ∧ fs.contents name = none := by
  unfold RamFS.remove
  split
  next i hpos =>
    obtain ⟨file, hfile, rfl⟩ := Keyed.getElem?_of_position hpos
    have hdata := h.contents_eq_some.mpr (List.mem_of_getElem? hfile)
    exact .inl ⟨_, rfl, by rw [hdata]; nofun, h.eraseIdx hfile⟩
  next hpos => exact .inr ⟨rfl, contents_eq_none.mpr (Keyed.position_eq_none.mp hpos)⟩

theorem setData (hfile : fs.files[i]? = some file) (data : List Byte) :
    (fs.setData i data).WellNamed ∧
      (fs.setData i data).contents = update fs.contents file.name (some data) := by
  have hkey : ∀ file : File, File.name ⟨file.name, data⟩ = file.name := fun _ => rfl
  refine ⟨⟨fun other hmem => ?_, h.distinct.modify hkey i⟩, ?_⟩
  · have hname : other.name ∈ fs.files.map File.name := by
      rw [← Keyed.map_modify hkey fs.files i]
      exact List.mem_map_of_mem hmem
    obtain ⟨file, hmem, heq⟩ := List.mem_map.mp hname
    rw [← heq]
    exact h.nonempty file hmem
  · funext other
    rw [contents, find_eq_lookup, RamFS.setData, h.distinct.lookup_modify hkey hfile]
    by_cases ho : other = file.name
    · subst ho
      simp
    · rw [if_neg ho, update_of_ne ho]
      rfl

end WellNamed

/-! ## The three lookups -/

/-- A file is what its name leads to, by index, by shared and by mutable
reference. -/
structure Resolves (fs : RamFS) (name : List Char) (i : Nat) (file : File) : Prop where
  findIdx : fsFindIdx (some fs) name = some i
  entry : fs.files[i]? = some file
  find : Vfs.find (some fs) name = some file
  findMut : ∀ f, Vfs.modifyData (some fs) name f = some (fs.setData i (f file.data))

theorem WellNamed.resolves (h : fs.WellNamed) (hfile : fs.files[i]? = some file) : fs.Resolves file.name i file := by
  have hidx : fs.position file.name = some i := h.distinct.position_eq hfile
  refine ⟨hidx, hfile, h.distinct.lookup_eq (List.mem_of_getElem? hfile), fun f => ?_⟩
  simp only [Vfs.modifyData, hidx, hfile, Option.bind_eq_bind, Option.bind_some]

theorem WellNamed.resolve (h : fs.WellNamed) (name : List Char) :
    (∃ i file, file.name = name ∧ fs.contents name = some file.data ∧ fs.Resolves name i file) ∨
    fs.contents name = none ∧ fsFindIdx (some fs) name = none ∧ Vfs.find (some fs) name = none ∧
      ∀ f, Vfs.modifyData (some fs) name f = none := by
  cases hidx : fs.position name with
  | some i =>
    obtain ⟨file, hfile, rfl⟩ := Keyed.getElem?_of_position hidx
    exact .inl ⟨i, file, rfl, h.contents_eq_some.mpr (List.mem_of_getElem? hfile), h.resolves hfile⟩
  | none =>
    have hno := Keyed.position_eq_none.mp hidx
    refine .inr ⟨contents_eq_none.mpr hno, hidx, Keyed.lookup_eq_none.mpr hno, fun f => ?_⟩
    simp only [Vfs.modifyData, hidx, Option.bind_eq_bind, Option.bind_some, Option.bind_none]

end RamFS

/-! ## The operations -/

/-- An access by the index that `fs_find_idx` gave. -/
inductive FsIo
  | size
  | read (offset count : Nat)
  | readToVec (offset count : Nat)
  | readRange (offset count : Nat)
  | write (offset : Nat) (bytes : List Byte)
  | resize (len : Nat)

inductive FsOp
  | create (name : List Char)
  | remove (name : List Char)
  | replaceAll (name : List Char) (bytes : List Byte)
  | appendAll (name : List Char) (bytes : List Byte)
  | find (name : List Char)
  | cloneBytes (name : List Char)
  | list
  | findIdx (name : List Char)
  | byIdx (name : List Char) (io : FsIo)

inductive FsResult
  | done (ok : Bool)
  | file (f : Option File)
  | bytes (b : Option (List Byte))
  | files (l : Option (List File))
  | index (i : Option Nat)
  | size (n : Nat)

/-- A call that answers `true` with a new filesystem, or `false`. -/
def fsDone (fs : RamFS) : Option RamFS → FsResult × RamFS
  | some fs' => (.done true, fs')
  | none => (.done false, fs)

/-- An access to file `idx`; `none` is a panic. -/
def FsIo.perform (fs : RamFS) (idx : Nat) : FsIo → Option (FsResult × RamFS)
  | .size => some (.size (fsFileSize (some fs) idx), fs)
  | .read offset count => some (.bytes (some (fsRead (some fs) idx offset count)), fs)
  | .readToVec offset count => (fsReadToVec (some fs) idx offset count).map fun bytes => (.bytes bytes, fs)
  | .readRange offset count => some (.bytes (Vfs.readRange (some fs) idx offset count), fs)
  | .write offset bytes => (fsWriteAt (some fs) idx offset bytes).map (fsDone fs)
  | .resize len => (fsResize (some fs) idx len).map (fsDone fs)

namespace FsOp

/-- An operation on the filesystem; `none` is a panic. -/
def perform (fs : RamFS) : FsOp → Option (FsResult × RamFS)
  | .create name => some (fsDone fs (Vfs.create (some fs) name))
  | .remove name => some (fsDone fs (Vfs.remove (some fs) name))
  | .replaceAll name bytes => some (fsDone fs (Vfs.replaceAll (some fs) name bytes))
  | .appendAll name bytes => some (fsDone fs (Vfs.appendAll (some fs) name bytes))
  | .find name => some (.file (Vfs.find (some fs) name), fs)
  | .cloneBytes name => some (.bytes (Vfs.cloneBytes (some fs) name), fs)
  | .list => some (.files (Vfs.list (some fs)), fs)
  | .findIdx name => some (.index (fsFindIdx (some fs) name), fs)
  | .byIdx name io =>
    match fsFindIdx (some fs) name with
    | none => some (.index none, fs)
    | some idx => io.perform fs idx

def step (fs : RamFS) (op : FsOp) : Option RamFS := (op.perform fs).map Prod.snd

end FsOp

/-- What an access gives on the contents `data` and makes of them. The bounds
are those of every vector and slice. -/
def FsIo.Meets (data : List Byte) (r : FsResult) (data' : List Byte) : FsIo → Prop
  | .size => r = .size data.length ∧ data' = data
  | .read offset count => r = .bytes (some (fileRange data offset count)) ∧ data' = data
  | .readToVec offset count => r = .bytes (some (fileRange data offset count)) ∧ data' = data
  | .readRange offset count =>
    (data.length ≤ isizeMax → r = .bytes (some (fileRange data offset count))) ∧ data' = data
  | .write offset bytes => r = .done true ∧ (bytes.length ≤ isizeMax → data' = overwrite 0 data offset bytes)
  | .resize len => r = .done true ∧ data' = Contents.resize 0 data len

/-- What an operation gives on the map `m` and makes of it. -/
def FsOp.Meets (m : FsMap) (r : FsResult) (m' : FsMap) : FsOp → Prop
  | .create name =>
    if name ≠ [] ∧ m name = none then r = .done true ∧ m' = update m name (some [])
    else r = .done false ∧ m' = m
  | .remove name =>
    if m name ≠ none then r = .done true ∧ m' = update m name none else r = .done false ∧ m' = m
  | .replaceAll name bytes =>
    if m name ≠ none then r = .done true ∧ m' = update m name (some bytes) else r = .done false ∧ m' = m
  | .appendAll name bytes =>
    match m name with
    | some data => r = .done true ∧ m' = update m name (some (data ++ bytes))
    | none => r = .done false ∧ m' = m
  | .find name => r = .file ((m name).map fun data => ⟨name, data⟩) ∧ m' = m
  | .cloneBytes name => r = .bytes (m name) ∧ m' = m
  | .list =>
    ∃ files, r = .files (some files) ∧ (files.map File.name).Nodup ∧
      (∀ name data, ⟨name, data⟩ ∈ files ↔ m name = some data) ∧ m' = m
  | .findIdx name => ∃ i, r = .index i ∧ (i = none ↔ m name = none) ∧ m' = m
  | .byIdx name io =>
    match m name with
    | some data => ∃ data', io.Meets data r data' ∧ m' = update m name (some data')
    | none => r = .index none ∧ m' = m

/-! ### Every operation is the map's -/

theorem fsWriteAt_setData {fs : RamFS} {idx offset : Nat} {data bytes : List Byte} {r : Option RamFS}
    (hdata : fsData (some fs) idx = some data) (h : fsWriteAt (some fs) idx offset bytes = some r) :
    ∃ data', r = some (fs.setData idx data') ∧ (bytes.length ≤ isizeMax → data' = overwrite 0 data offset bytes) := by
  by_cases hlt : offset + bytes.length ≤ isizeMax
  · rw [fsWriteAt_eq hdata hlt] at h
    cases h
    exact ⟨_, rfl, fun _ => rfl⟩
  · simp only [fsWriteAt, hdata] at h
    split at h
    · cases h
    next hstop =>
      cases h
      refine ⟨_, rfl, fun hlen => absurd hstop (not_not.mpr ?_)⟩
      unfold wrappingAdd usizeMod isizeMax at *
      omega

theorem fsResize_setData {fs : RamFS} {idx len : Nat} {data : List Byte} {r : Option RamFS}
    (hdata : fsData (some fs) idx = some data) (h : fsResize (some fs) idx len = some r) :
    r = some (fs.setData idx (resize 0 data len)) := by
  simp only [fsResize, hdata] at h
  split at h
  · cases h
  · cases h
    rw [vecResize, take_append_replicate]

theorem done_eq {fs fs1 : RamFS} {x y : Option RamFS} {r : FsResult} (hx : y = x) (h : fsDone fs y = (r, fs1)) :
    r = .done x.isSome ∧ fs1 = x.getD fs := by
  subst hx
  cases y with
  | none =>
    cases h
    exact ⟨rfl, rfl⟩
  | some fs' =>
    cases h
    exact ⟨rfl, rfl⟩

namespace RamFS.WellNamed

variable {fs fs' : RamFS} {name : List Char} {i : Nat} {file : File} {r : FsResult} (h : fs.WellNamed)
include h

theorem io {io : FsIo} (hfile : fs.files[i]? = some file) (hrun : io.perform fs i = some (r, fs')) :
    fs'.WellNamed ∧ ∃ data', io.Meets file.data r data' ∧
      fs'.contents = update fs.contents file.name (some data') := by
  have hdata : fsData (some fs) i = some file.data := by simp [fsData, hfile]
  have hsame : fs.contents = update fs.contents file.name (some file.data) := by
    rw [← h.contents_eq_some.mpr (List.mem_of_getElem? hfile), Function.update_eq_self]
  cases io with
  | size =>
    cases hrun
    exact ⟨h, file.data, ⟨by rw [fsFileSize, hdata], rfl⟩, hsame⟩
  | read offset count =>
    cases hrun
    exact ⟨h, file.data, ⟨by rw [fsRead_eq hdata], rfl⟩, hsame⟩
  | readToVec offset count =>
    obtain ⟨bytes, hbytes, he⟩ := Option.map_eq_some_iff.mp hrun
    cases he
    rw [fsReadToVec_eq hdata] at hbytes
    split at hbytes
    · cases hbytes
      exact ⟨h, file.data, ⟨rfl, rfl⟩, hsame⟩
    · cases hbytes
  | readRange offset count =>
    cases hrun
    exact ⟨h, file.data, ⟨fun hvec => by rw [readRange_eq hdata hvec], rfl⟩, hsame⟩
  | write offset bytes =>
    obtain ⟨written, hw, he⟩ := Option.map_eq_some_iff.mp hrun
    obtain ⟨data', rfl, hover⟩ := fsWriteAt_setData hdata hw
    cases he
    exact ⟨(h.setData hfile data').1, data', ⟨rfl, hover⟩, (h.setData hfile data').2⟩
  | resize len =>
    obtain ⟨resized, hw, he⟩ := Option.map_eq_some_iff.mp hrun
    obtain rfl := fsResize_setData hdata hw
    cases he
    exact ⟨(h.setData hfile _).1, _, ⟨rfl, rfl⟩, (h.setData hfile _).2⟩

theorem modifyData (name : List Char) (f : List Byte → List Byte) :
    (∃ fs' data, Vfs.modifyData (some fs) name f = some fs' ∧ fs.contents name = some data ∧ fs'.WellNamed ∧
      fs'.contents = update fs.contents name (some (f data))) ∨
    Vfs.modifyData (some fs) name f = none ∧ fs.contents name = none := by
  rcases h.resolve name with ⟨i, file, rfl, hdata, hres⟩ | ⟨hnone, -, -, hmut⟩
  · exact .inl ⟨_, file.data, hres.findMut f, hdata, h.setData hres.entry _⟩
  · exact .inr ⟨hmut f, hnone⟩

/-- **One operation.** In a well-named filesystem an operation that does not
panic keeps names apart and is the map's. -/
theorem op {op : FsOp} (hrun : op.perform fs = some (r, fs')) :
    fs'.WellNamed ∧ op.Meets fs.contents r fs'.contents := by
  cases op with
  | create name =>
    rw [FsOp.Meets]
    rcases h.create name with ⟨fs', hc, hne, hnew, hwell, hmap⟩ | ⟨hc, hfail⟩
    · obtain ⟨rfl, rfl⟩ := done_eq hc (Option.some.inj hrun)
      rw [if_pos ⟨hne, hnew⟩]
      exact ⟨hwell, rfl, hmap⟩
    · obtain ⟨rfl, rfl⟩ := done_eq hc (Option.some.inj hrun)
      rw [if_neg fun hn => hfail.elim hn.1 fun hf => hf hn.2]
      exact ⟨h, rfl, rfl⟩
  | remove name =>
    rw [FsOp.Meets]
    rcases h.remove name with ⟨fs', hc, hsome, hwell, hmap⟩ | ⟨hc, hnone⟩
    · obtain ⟨rfl, rfl⟩ := done_eq hc (Option.some.inj hrun)
      rw [if_pos hsome]
      exact ⟨hwell, rfl, hmap⟩
    · obtain ⟨rfl, rfl⟩ := done_eq hc (Option.some.inj hrun)
      rw [if_neg (not_not.mpr hnone)]
      exact ⟨h, rfl, rfl⟩
  | replaceAll name bytes =>
    rw [FsOp.Meets]
    rcases h.modifyData name fun _ => bytes with ⟨fs', data, hm, hdata, hwell, hmap⟩ | ⟨hm, hnone⟩
    · obtain ⟨rfl, rfl⟩ := done_eq hm (Option.some.inj hrun)
      rw [if_pos (by rw [hdata]; nofun)]
      exact ⟨hwell, rfl, hmap⟩
    · obtain ⟨rfl, rfl⟩ := done_eq hm (Option.some.inj hrun)
      rw [if_neg (not_not.mpr hnone)]
      exact ⟨h, rfl, rfl⟩
  | appendAll name bytes =>
    rw [FsOp.Meets]
    rcases h.modifyData name fun data => data ++ bytes with ⟨fs', data, hm, hdata, hwell, hmap⟩ | ⟨hm, hnone⟩
    · obtain ⟨rfl, rfl⟩ := done_eq hm (Option.some.inj hrun)
      simp only [hdata]
      exact ⟨hwell, rfl, hmap⟩
    · obtain ⟨rfl, rfl⟩ := done_eq hm (Option.some.inj hrun)
      rw [hnone]
      exact ⟨h, rfl, rfl⟩
  | find name =>
    cases hrun
    refine ⟨h, ?_, rfl⟩
    rcases h.resolve name with ⟨i, file, rfl, hdata, hres⟩ | ⟨hnone, -, hfind, -⟩
    · rw [hres.find, hdata, Option.map_some]
    · rw [hfind, hnone, Option.map_none]
  | cloneBytes name =>
    cases hrun
    exact ⟨h, rfl, rfl⟩
  | list =>
    cases hrun
    exact ⟨h, fs.files, rfl, h.distinct, fun name data => h.contents_eq_some.symm, rfl⟩
  | findIdx name =>
    cases hrun
    refine ⟨h, _, rfl, ?_, rfl⟩
    rcases h.resolve name with ⟨i, file, rfl, hdata, hres⟩ | ⟨hnone, hidx, -, -⟩
    · rw [hres.findIdx, hdata]
      simp
    · simp [hidx, hnone]
  | byIdx name io =>
    rcases h.resolve name with ⟨i, file, rfl, hdata, hres⟩ | ⟨hnone, hidx, -, -⟩
    · simp only [FsOp.perform, hres.findIdx] at hrun
      simp only [FsOp.Meets, hdata]
      exact h.io hres.entry hrun
    · simp only [FsOp.perform, hidx] at hrun
      cases hrun
      rw [FsOp.Meets, hnone]
      exact ⟨h, rfl, rfl⟩

end RamFS.WellNamed

/-- **The filesystem is a finite map.** After any sequence of operations on an
empty filesystem: no file is without a name and no two share one; every name
leads, by `fs_find_idx`, `find` and `find_mut` alike, to the one file of that
name, or to none where the map has none; and whatever operation comes next is
the map's, which reads and changes the entry of its name alone. -/
theorem ramfs_is_finite_map (ops : List FsOp) (fs : RamFS) (hrun : Lts.exec FsOp.step .new ops = some fs) :
    (∀ file ∈ fs.files, file.name ≠ []) ∧ (fs.files.map File.name).Nodup ∧
    (∀ name, (∃ i file, file.name = name ∧ fs.contents name = some file.data ∧ fs.Resolves name i file) ∨
      fs.contents name = none ∧ fsFindIdx (some fs) name = none ∧ Vfs.find (some fs) name = none ∧
        ∀ f, Vfs.modifyData (some fs) name f = none) ∧
    ∀ (op : FsOp) r fs', op.perform fs = some (r, fs') → op.Meets fs.contents r fs'.contents := by
  have hstep : ∀ fs op fs', fs.WellNamed → FsOp.step fs op = some fs' → fs'.WellNamed := by
    intro fs op fs' h hs
    obtain ⟨⟨r, fs1⟩, hp, rfl⟩ := Option.map_eq_some_iff.mp hs
    exact (h.op hp).1
  have h : fs.WellNamed := Lts.exec_invariant RamFS.WellNamed hstep .new hrun
  exact ⟨h.nonempty, h.distinct, h.resolve, fun op r fs' hp => (h.op hp).2⟩

/-- Two files are made, the first is removed, so the second one moves down, and
is written by its new index. -/
def shiftOps : List FsOp :=
  [.create ['a'], .create ['b'], .create ['b'], .appendAll ['b'] [1], .remove ['a'], .byIdx ['b'] (.write 2 [3])]

theorem ramfs_is_finite_map_shift :
    ∃ fs, Lts.exec FsOp.step .new shiftOps = some fs ∧ (fs.files.map File.name).Nodup ∧
      FsOp.Meets fs.contents (.bytes (some [1, 0, 3])) fs.contents (.cloneBytes ['b']) := by
  have hrun : (Lts.exec FsOp.step .new shiftOps).map (fun fs => fs.contents ['b']) = some (some [1, 0, 3]) := by
    decide +kernel
  obtain ⟨fs, hexec, hb⟩ := Option.map_eq_some_iff.mp hrun
  obtain ⟨-, hnodup, -, hops⟩ := ramfs_is_finite_map shiftOps fs hexec
  have hperform : (FsOp.cloneBytes ['b']).perform fs = some (.bytes (some [1, 0, 3]), fs) := by
    rw [← hb]
    rfl
  exact ⟨fs, hexec, hnodup, hops _ _ _ hperform⟩

end CoreOS
