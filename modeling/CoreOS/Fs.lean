/-
The RAM filesystem (`fs.rs`), the name-based operations of `vfs.rs` and the
index-based ones of `syscall/fs.rs`.
-/
import CoreOS.State

namespace CoreOS

open ByteMem

/-! ## Bytes of a file -/

/-- `Vec::resize(len, 0)`. -/
def vecResize (data : List Byte) (len : Nat) : List Byte :=
  data.take len ++ List.replicate (len - data.length) 0

/-- `data[offset..offset + bytes.len()].copy_from_slice(bytes)`, inside the
bounds of `data`. -/
def vecCopyFrom (data : List Byte) (offset : Nat) (bytes : List Byte) : List Byte :=
  data.take offset ++ bytes ++ data.drop (offset + bytes.length)

/-! ## `RamFS` -/

namespace RamFS

def new : RamFS := ⟨[]⟩

/-- `files.iter().position(|f| f.name == name)`. -/
def position (fs : RamFS) (name : List Char) : Option Nat := fs.files.findIdx? fun f => f.name = name

def create (fs : RamFS) (name : List Char) : Option RamFS :=
  if name.isEmpty then none
  else if fs.files.any fun f => f.name = name then none
  else some ⟨fs.files ++ [⟨name, []⟩]⟩

def find (fs : RamFS) (name : List Char) : Option File := fs.files.find? fun f => f.name = name

def remove (fs : RamFS) (name : List Char) : Option RamFS :=
  match fs.position name with
  | some idx => some ⟨fs.files.eraseIdx idx⟩
  | none => none

/-- The bytes of the file at `idx` replaced. -/
def setData (fs : RamFS) (idx : Nat) (data : List Byte) : RamFS :=
  ⟨fs.files.modify idx fun f => ⟨f.name, data⟩⟩

end RamFS

/-! ## `vfs.rs` -/

namespace Vfs

def create (fs : Option RamFS) (name : List Char) : Option RamFS := fs.bind fun fs => fs.create name

def find (fs : Option RamFS) (name : List Char) : Option File := fs.bind fun fs => fs.find name

def remove (fs : Option RamFS) (name : List Char) : Option RamFS := fs.bind fun fs => fs.remove name

def cloneBytes (fs : Option RamFS) (name : List Char) : Option (List Byte) :=
  fs.bind fun fs => (fs.find name).map File.data

def list (fs : Option RamFS) : Option (List File) := fs.map RamFS.files

/-- `vfs::read_range`. -/
def readRange (fs : Option RamFS) (fileIdx offset len : Nat) : Option (List Byte) := do
  let fs ← fs
  let file ← fs.files[fileIdx]?
  let start := min offset file.data.length
  let stop := min (min (start + len) (usizeMod - 1)) file.data.length
  some ((file.data.drop start).take (stop - start))

/-- `find_mut` of the first file of that name, its bytes replaced by `f`. -/
def modifyData (fs : Option RamFS) (name : List Char) (f : List Byte → List Byte) : Option RamFS := do
  let fs ← fs
  let idx ← fs.position name
  let file ← fs.files[idx]?
  some (fs.setData idx (f file.data))

def appendAll (fs : Option RamFS) (name : List Char) (bytes : List Byte) : Option RamFS :=
  modifyData fs name fun data => data ++ bytes

def replaceAll (fs : Option RamFS) (name : List Char) (bytes : List Byte) : Option RamFS :=
  modifyData fs name fun _ => bytes

end Vfs

/-! ## `syscall/fs.rs` -/

def fsFindIdx (fs : Option RamFS) (name : List Char) : Option Nat := fs.bind fun fs => fs.position name

/-- The bytes of file `fileIdx`, `none` when there is no filesystem or the
index is past its end. -/
def fsData (fs : Option RamFS) (fileIdx : Nat) : Option (List Byte) :=
  fs.bind fun fs => (fs.files[fileIdx]?).map File.data

def fsFileSize (fs : Option RamFS) (fileIdx : Nat) : Nat :=
  match fsData fs fileIdx with
  | some data => data.length
  | none => 0

/-- The bytes `fs_read` copies out; their number is its result. -/
def fsRead (fs : Option RamFS) (fileIdx offset count : Nat) : List Byte :=
  match fsData fs fileIdx with
  | some data => (data.drop offset).take (min count (data.length - offset))
  | none => []

/-- `fs_read_to_vec`; slicing from past the end panics, even for no bytes. -/
def fsReadToVec (fs : Option RamFS) (fileIdx offset count : Nat) : Option (Option (List Byte)) :=
  match fsData fs fileIdx with
  | some data =>
    if data.length < offset then none
    else some (some ((data.drop offset).take (min count (data.length - offset))))
  | none => some none

/-- `fs_write_at`. The end of the range is computed with wrapping; a range
that wrapped, or a length no `Vec` can hold, panics. -/
def fsWriteAt (fs : Option RamFS) (fileIdx offset : Nat) (bytes : List Byte) : Option (Option RamFS) :=
  match fs, fsData fs fileIdx with
  | some fs, some data =>
    let stop := wrappingAdd offset bytes.length
    if stop < offset ∨ isizeMax < stop then none
    else
      let data := if data.length < stop then vecResize data stop else data
      some (some (fs.setData fileIdx (vecCopyFrom data offset bytes)))
  | _, _ => some none

def fsResize (fs : Option RamFS) (fileIdx len : Nat) : Option (Option RamFS) :=
  match fs, fsData fs fileIdx with
  | some fs, some data =>
    if isizeMax < len then none
    else some (some (fs.setData fileIdx (vecResize data len)))
  | _, _ => some none

end CoreOS
