/-
Memory regions and the calls that map memory (`proc/vm.rs`, `syscall/mm.rs`).
-/
import CoreOS.Task
import CoreOS.Paging
import CoreOS.SyscallBase

namespace CoreOS

open ByteMem

def protExec : BitVec 32 := 0x1
def protWrite : BitVec 32 := 0x2
def mapShared : BitVec 32 := 0x01
def mapPrivate : BitVec 32 := 0x02
def mapFixed : BitVec 32 := 0x10
def mapAnonymous : BitVec 32 := 0x20

def mapFlagsFromProt (prot : BitVec 32) : MapFlags where
  writable := prot &&& protWrite != 0
  user := true
  executable := prot &&& protExec != 0

/-- `n & !0xFFF`. -/
def pageBase (n : Nat) : Nat := n - n % pageSize

/-- `(n + 0xFFF) & !0xFFF`. -/
def roundPage (n : Nat) : Nat := pageBase (wrappingAdd n 0xFFF)

/-! ## Regions -/

def overlaps (aStart aLen bStart bLen : Nat) : Bool :=
  aStart < saturatingAdd bStart bLen && bStart < saturatingAdd aStart aLen

/-- The process with entry `i` of its regions replaced. -/
def Process.setVma (p : Process) (i : Nat) (v : VmRegion) : Process := { p with vmas := Function.update p.vmas i v }

namespace Kernel

def regionConflicts (k : Kernel) (start len : Nat) : Bool :=
  match k.currentProcess with
  | none => true
  | some p => (List.range maxVmas).any fun i => (p.vmas i).inUse && overlaps start len (p.vmas i).start (p.vmas i).len

def allocVma (k : Kernel) (start len : Nat) (prot flags : BitVec 32) : Option Kernel := do
  let p ← k.currentProcess
  let i ← (List.range maxVmas).find? fun i => !(p.vmas i).inUse
  k.modifyCurrent fun p => p.setVma i (.new start len prot flags)

/-- `find_vma_exact_mut`: the index of the region. -/
def findVmaExact (k : Kernel) (start len : Nat) : Option Nat := do
  let p ← k.currentProcess
  (List.range maxVmas).find? fun i => (p.vmas i).inUse && (p.vmas i).start == start && (p.vmas i).len == len

/-- `*vma = ...` through the reference that `find_vma_exact_mut` gave. -/
def modifyVma (k : Kernel) (i : Nat) (f : VmRegion → VmRegion) : Kernel :=
  (k.modifyCurrent fun p => p.setVma i (f (p.vmas i))).getD k

/-- `reserve_mmap_base`. The pointer moves on whatever becomes of the call. -/
def reserveMmapBase (k : Kernel) (len : Nat) : Option (Nat × Kernel) := do
  let p ← k.currentProcess
  let start := roundPage p.nextMmapBase
  if start + len < usizeMod then
    (k.modifyCurrent fun p => { p with nextMmapBase := start + len }).map fun k => (start, k)
  else none

/-- `current_brk`, `0` without a current process. -/
def currentBrk (k : Kernel) : Nat := (k.currentProcess.map Process.programBreak).getD 0

def setBrk (k : Kernel) (newBrk : Nat) : Kernel :=
  (k.modifyCurrent fun p => { p with programBreak := newBrk }).getD k

end Kernel

/-! ## Ranges of pages -/

namespace Phys

/-- Bytes written through the user address of a page. -/
def writeUserPage (s : Phys) (pml4 virt : Nat) (bytes : List Byte) : Phys :=
  match s.translatePage pml4 virt with
  | some phys => s.setMem (store s.mem phys bytes)
  | none => s

/-- What a file gives the page at offset `off` of its mapping, nothing for an
anonymous one. -/
def seedPage (s : Phys) (pml4 virt off : Nat) : Option (List Byte) → Phys
  | none => s
  | some bytes => s.writeUserPage pml4 virt ((bytes.drop off).take pageSize)

/-- The loop of `mmap_impl` and `brk_impl`: `n` pages from page `i` of a range
on get a zeroed frame each. With the number of pages that were mapped when
frames ran out, if they did; the panic of `alloc_table` is the outer `none`. -/
def mapPages (pml4 start : Nat) (flags : MapFlags) (seed : Option (List Byte)) :
    Nat → Nat → Phys → Option (Option Nat × Phys)
  | 0, _, s => some (none, s)
  | n + 1, i, s =>
    match s.allocFrame with
    | (0, s) => some (some i, s)
    | (frame, s) =>
      let virt := wrappingAdd start (i * pageSize)
      match s.mapPageIn pml4 virt frame flags with
      | none => none
      | some s =>
        let s := s.setMem (fill s.mem frame pageSize 0)
        mapPages pml4 start flags seed n (i + 1) (s.seedPage pml4 virt (i * pageSize) seed)

/-- A page unmapped and its frame given back. -/
def unmapFree (s : Phys) (pml4 virt : Nat) : Phys :=
  match s.unmapPageIn pml4 virt with
  | (some frame, s) => s.freeFrame frame
  | (none, s) => s

def unmapPages (s : Phys) (pml4 start n : Nat) : Phys :=
  (List.range n).foldl (fun s i => s.unmapFree pml4 (wrappingAdd start (i * pageSize))) s

/-- The loop of `mprotect_impl`, which stops at the first page that is not
there. -/
def protectPages (pml4 start : Nat) (flags : MapFlags) : Nat → Nat → Phys → Bool × Phys
  | 0, _, s => (true, s)
  | n + 1, i, s =>
    match s.protectPageIn pml4 (wrappingAdd start (i * pageSize)) flags with
    | (true, s) => protectPages pml4 start flags n (i + 1) s
    | (false, s) => (false, s)

end Phys

/-! ## The calls

The outer `none` is a panic. -/

def brk (k : Kernel) (addr : Word) : Option (Except SysError Nat × Kernel) :=
  let currentBrk := k.currentBrk
  let newBrk := addr.toNat
  if newBrk = 0 then some (.ok currentBrk, k)
  else if newBrk ≤ currentBrk then some (.ok newBrk, k.setBrk newBrk)
  else
    let page := roundPage currentBrk
    let flags : MapFlags := { writable := true, user := true, executable := false }
    -- both ends are page-aligned, so the loop makes this many rounds
    match Phys.mapPages k.currentPml4 page flags none ((roundPage newBrk - page) / pageSize) 0 k.phys with
    | none => none
    | some (none, s) => some (.ok newBrk, (k.setPhys s).setBrk newBrk)
    -- the pages mapped before frames ran out stay
    | some (some _, s) => some (.ok currentBrk, k.setPhys s)

/-- The checks `mmap_impl` makes of its arguments alone. -/
def mmapRefused (len : Word) (flags fd : BitVec 32) (off : Word) : Option SysError :=
  if len = 0 then some .invalid
  else if flags &&& (mapPrivate ||| mapShared) = 0 then some .invalid
  else if flags &&& mapShared ≠ 0 then some .unsupported
  else if flags &&& mapAnonymous ≠ 0 then if fd.toInt = -1 ∧ off = 0 then none else some .invalid
  else if fd.toInt < 0 then some .badFd
  else if off.toInt < 0 ∨ off &&& 0xFFF ≠ 0 then some .invalid
  else none

/-- Where the new region is to start. -/
def mmapStart (k : Kernel) (addr : Word) (len : Nat) (flags : BitVec 32) : Option (Nat × Kernel) :=
  if addr = 0 then k.reserveMmapBase len
  else
    let addr := pageBase addr.toNat
    if flags &&& mapFixed ≠ 0 ∧ ¬ k.regionConflicts addr len then some (addr, k) else none

/-- The bytes a mapping starts with: `some none` for an anonymous one, `none`
when the descriptor is no file. -/
def mmapSeed (k : Kernel) (flags fd : BitVec 32) (off : Word) (len : Nat) : Option (Option (List Byte)) :=
  if flags &&& mapAnonymous ≠ 0 then some none
  else
    match descriptorInfo k fd.toNat with
    | some (.file fileIdx _) => some (some ((Vfs.readRange k.fs fileIdx off.toNat len).getD []))
    | _ => none

def mmap (k : Kernel) (addr len : Word) (prot flags fd : BitVec 32) (off : Word) :
    Option (Except SysError Nat × Kernel) :=
  match mmapRefused len flags fd off with
  | some e => some (.error e, k)
  | none =>
    let len := roundPage len.toNat
    match mmapStart k addr len flags with
    | none => some (.error .invalid, k)
    | some (start, k) =>
      if k.regionConflicts start len then some (.error .invalid, k)
      else
        match k.allocVma start len prot flags with
        | none => some (.error .invalid, k)
        | some k =>
          match mmapSeed k flags fd off len with
          -- the region stays in use
          | none => some (.error .badFd, k)
          | some seed =>
            match Phys.mapPages k.currentPml4 start (mapFlagsFromProt prot) seed (len / pageSize) 0 k.phys with
            | none => none
            | some (none, s) => some (.ok start, k.setPhys s)
            | some (some mapped, s) =>
              let k := k.setPhys (s.unmapPages k.currentPml4 start mapped)
              match k.findVmaExact start len with
              | some i => some (.error .noMem, k.modifyVma i fun _ => .empty)
              | none => some (.error .noMem, k)

def munmap (k : Kernel) (addr len : Word) : Except SysError Nat × Kernel :=
  if addr = 0 ∨ len = 0 then (.error .invalid, k)
  else
    let start := pageBase addr.toNat
    let len := roundPage len.toNat
    match k.findVmaExact start len with
    | none => (.error .invalid, k)
    | some i =>
      let k := k.setPhys (k.phys.unmapPages k.currentPml4 start (len / pageSize))
      (.ok 0, k.modifyVma i fun _ => .empty)

def mprotect (k : Kernel) (addr len prot : Word) : Except SysError Nat × Kernel :=
  if addr = 0 ∨ len = 0 then (.error .invalid, k)
  else
    let start := pageBase addr.toNat
    let len := roundPage len.toNat
    match k.findVmaExact start len with
    | none => (.error .invalid, k)
    | some i =>
      let prot := prot.setWidth 32
      match Phys.protectPages k.currentPml4 start (mapFlagsFromProt prot) (len / pageSize) 0 k.phys with
      | (true, s) => (.ok 0, (k.setPhys s).modifyVma i fun v => { v with prot })
      | (false, s) => (.error .invalid, k.setPhys s)

end CoreOS
