/-
`exec` as a system call (`proc/exec.rs`): a new address space is made, the file
loaded into it, sixteen pages of stack mapped and the program's first stack frame
written to them, and a task is spawned that starts there. The caller goes on as it
was. A failure after the address space was made takes nothing back.
-/
import CoreOS.Elf
import CoreOS.SyscallVfs

namespace CoreOS

open ByteMem

def userStackPages : Nat := 16
def userStackTop : Nat := 0x80000000

def atNull : Word := 0
def atPhdr : Word := 3
def atPhent : Word := 4
def atPhnum : Word := 5
def atPagesz : Word := 6
def atEntry : Word := 9
def atUid : Word := 11
def atEuid : Word := 12
def atGid : Word := 13
def atEgid : Word := 14
def atSecure : Word := 23
def atRandom : Word := 25
def atExecfn : Word := 31

structure AuxEntry where
  key : Word
  value : Word

/-! ## The first stack frame -/

namespace Phys

/-- `write_user_bytes`, with whether all pages were there. A round writes at least a
byte, so `bytes.length` rounds are enough. -/
def writeUserBytes (pml4 : Nat) : Nat → Nat → List Byte → Phys → Bool × Phys
  | 0, _, _, s => (true, s)
  | fuel + 1, userAddr, bytes, s =>
    if bytes = [] then (true, s)
    else
      match s.translatePage pml4 userAddr with
      | none => (false, s)
      | some frame =>
        let pageOff := userAddr % pageSize
        let chunk := min (pageSize - pageOff) bytes.length
        writeUserBytes pml4 fuel (wrappingAdd userAddr chunk) (bytes.drop chunk)
          (s.setMem (store s.mem (frame + pageOff) (bytes.take chunk)))

/-- `push_user_bytes`, with the new stack pointer; `align` is a power of two. -/
def pushUserBytes (pml4 sp : Nat) (bytes : List Byte) (align : Nat) (s : Phys) : Option Nat × Phys :=
  if sp < bytes.length then (none, s)
  else
    let sp := sp - bytes.length - (sp - bytes.length) % align
    match writeUserBytes pml4 bytes.length sp bytes s with
    | (true, s) => (some sp, s)
    | (false, s) => (none, s)

def pushUserU64 (pml4 sp : Nat) (value : Word) (s : Phys) : Option Nat × Phys :=
  pushUserBytes pml4 sp (toBytes 8 value.toNat) 8 s

/-- `push_user_u64` of one word after the other. -/
def pushUserWords (pml4 : Nat) : List Word → Nat → Phys → Option Nat × Phys
  | [], sp, s => (some sp, s)
  | value :: values, sp, s =>
    match pushUserU64 pml4 sp value s with
    | (none, s) => (none, s)
    | (some sp, s) => pushUserWords pml4 values sp s

/-- The path of the program as it is pushed: a slash, the low byte of each of the
name's first characters, and a zero. -/
def execfn (name : List Char) : List Byte :=
  0x2F :: (name.take exePathMax).map (fun ch => BitVec.ofNat 8 ch.toNat) ++ [0]

def randomBytes : List Byte :=
  [0x13, 0x37, 0xca, 0xfe, 0xba, 0xbe, 0xde, 0xad, 0xfa, 0xce, 0x12, 0x34, 0x56, 0x78, 0xab, 0xcd]

/-- The auxiliary vector; the ids are the caller's, `0` without a process. -/
def auxv (image : LoadedImage) (process : Option Process) (randomPtr execfnPtr : Nat) : List AuxEntry :=
  let id (field : Process → Nat) : Word := BitVec.ofNat 64 ((process.map field).getD 0)
  [⟨atPhdr, BitVec.ofNat 64 image.phdr⟩, ⟨atPhent, BitVec.ofNat 64 image.phent⟩,
    ⟨atPhnum, BitVec.ofNat 64 image.phnum⟩, ⟨atPagesz, BitVec.ofNat 64 pageSize⟩,
    ⟨atEntry, BitVec.ofNat 64 image.entry⟩, ⟨atUid, id Process.uid⟩, ⟨atEuid, id Process.euid⟩,
    ⟨atGid, id Process.gid⟩, ⟨atEgid, id Process.egid⟩, ⟨atSecure, 0⟩, ⟨atRandom, BitVec.ofNat 64 randomPtr⟩,
    ⟨atExecfn, BitVec.ofNat 64 execfnPtr⟩, ⟨atNull, 0⟩]

/-- The words pushed last: the auxiliary vector from its end, the empty environment,
and the arguments, of which the program's path is the only one. -/
def stackWords (aux : List AuxEntry) (execfnPtr : Nat) : List Word :=
  aux.reverse.flatMap (fun e => [e.value, e.key]) ++ [0, 0, BitVec.ofNat 64 execfnPtr, 1]

/-- The end of `build_initial_stack`, from the random bytes on. -/
def pushVectors (pml4 : Nat) (image : LoadedImage) (process : Option Process) (execfnPtr randomPtr : Nat) (s : Phys) :
    Option Nat × Phys :=
  match pushUserWords pml4 (stackWords (auxv image process randomPtr execfnPtr) execfnPtr) randomPtr s with
  | (none, s) => (none, s)
  | (some sp, s) => (some (sp - sp % 16), s)

/-- What comes below the path of the program. -/
def pushBelowPath (pml4 : Nat) (image : LoadedImage) (process : Option Process) (execfnPtr : Nat) (s : Phys) :
    Option Nat × Phys :=
  match s.pushUserBytes pml4 execfnPtr randomBytes 16 with
  | (none, s) => (none, s)
  | (some randomPtr, s) => s.pushVectors pml4 image process execfnPtr randomPtr

/-- `build_initial_stack`, with the program's first stack pointer. -/
def buildInitialStack (pml4 stackTop : Nat) (name : List Char) (image : LoadedImage) (process : Option Process)
    (s : Phys) : Option Nat × Phys :=
  match s.pushUserBytes pml4 stackTop (execfn name) 1 with
  | (none, s) => (none, s)
  | (some execfnPtr, s) => s.pushBelowPath pml4 image process execfnPtr

/-- The loop that maps the stack; with whether there were frames for it. -/
def mapUserStack (pml4 : Nat) (s : Phys) : Option (Option Nat × Phys) :=
  mapPages pml4 (userStackTop - userStackPages * pageSize) { writable := true, user := true, executable := false } none
    userStackPages 0 s

end Phys

/-! ## The call -/

/-- `exec_as_task`: the id of the new process, `0` on failure. -/
def execAsTask (k : Kernel) (data : List Byte) (name : List Char) : Option (Nat × Kernel) :=
  match k.phys.cloneKernelAddressSpace k.kernelPml4 with
  | (newPml4, s) =>
    match s.loadInto newPml4 data with
    | none => none
    | some (.error _, s) => some (0, k.setPhys s)
    | some (.ok image, s) =>
      match s.mapUserStack newPml4 with
      | none => none
      | some (some _, s) => some (0, k.setPhys s)
      | some (none, s) =>
        match s.buildInitialStack newPml4 userStackTop name image k.currentProcess with
        | (none, s) => some (0, k.setPhys s)
        | (some sp, s) =>
          match execTask (k.setPhys s) (BitVec.ofNat 64 image.entry) (BitVec.ofNat 64 sp) newPml4 name with
          | (pid, k) => some (pid.getD 0, k)

/-- `syscall_exec_impl` on the path the caller passed. -/
def syscallExec (k : Kernel) (path : List Byte) : Option (Except SysError Nat × Kernel) :=
  match normalizePathBytes path with
  | none => some (.error .fault, k)
  | some name =>
    match Vfs.cloneBytes k.fs name with
    | none => some (.error .noEntry, k)
    | some data =>
      match execAsTask k data name with
      | none => none
      | some (0, k) => some (.error .invalid, k)
      | some (pid, k) => some (.ok pid, k)

end CoreOS
