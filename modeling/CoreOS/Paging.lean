/-
Four-level page tables (`arch/amd64/paging.rs`). A table is a frame of 512
entries; the kernel reads and writes them through the direct map, so the word
at `p2v(a)` is the word at the physical address `a` here. What the processor
caches of the tables (`invlpg`) is not modelled. A panic is `none`.
-/
import CoreOS.Pmm

namespace CoreOS

open ByteMem

def ptePresent : Word := 1#64 <<< 0

def pteWritable : Word := 1#64 <<< 1

def pteUser : Word := 1#64 <<< 2

def pteHuge : Word := 1#64 <<< 7

def pteNx : Word := 1#64 <<< 63

def pteAddrMask : Word := 0x000ffffffffff000#64

/-- `PTE_*` bit tests, as the source writes them. -/
def has (entry bit : Word) : Bool := entry &&& bit != 0

structure MapFlags where
  writable : Bool
  user : Bool
  executable : Bool
  deriving DecidableEq

/-- The bits of a leaf entry that stand for the flags. -/
def MapFlags.bits (flags : MapFlags) : Word :=
  (if flags.writable then pteWritable else 0) ||| (if flags.user then pteUser else 0) |||
    (if flags.executable then 0 else pteNx)

/-- Entry `index` of the table at `table`. -/
def entryAt (mem : Mem) (table index : Nat) : Word := loadWord mem (table + index * 8)

def writeEntry (mem : Mem) (table index : Nat) (value : Word) : Mem := storeWord mem (table + index * 8) value

/-- The table an entry points to, `entry & !0xFFF`. -/
def tableOf (entry : Word) : Nat := (entry &&& ~~~0xFFF#64).toNat

/-- `(virt >> shift) & 0x1FF`. -/
def tableIndex (virt shift : Nat) : Nat := (virt >>> shift) % 512

namespace Phys

def setMem (s : Phys) (mem : Mem) : Phys := { s with mem }

def allocTable (s : Phys) : Option (Nat × Phys) :=
  match s.allocFrame with
  | (0, _) => none
  | (addr, s) => some (addr, s)

/-! ## Single pages -/

/-- The physical address of the 4 KiB entry for `virt`. -/
def ptePtr (s : Phys) (pml4 virt : Nat) : Option Nat :=
  let pml4e := entryAt s.mem pml4 (tableIndex virt 39)
  if ¬ has pml4e ptePresent then none
  else
    let pdpte := entryAt s.mem (tableOf pml4e) (tableIndex virt 30)
    if ¬ has pdpte ptePresent then none
    else
      let pde := entryAt s.mem (tableOf pdpte) (tableIndex virt 21)
      if ¬ has pde ptePresent ∨ has pde pteHuge then none
      else some (tableOf pde + tableIndex virt 12 * 8)

/-- The step of `map_page_in` down one level: an entry that is zero gets a new
table. -/
def ensureTable (s : Phys) (table index : Nat) (flags : MapFlags) : Option Phys :=
  if entryAt s.mem table index = 0 then
    match s.allocTable with
    | none => none
    | some (t, s) =>
      let user := if flags.user then pteUser else 0
      some (s.setMem (writeEntry s.mem table index (BitVec.ofNat 64 t ||| ptePresent ||| pteWritable ||| user)))
  else some s

def mapPageIn (s : Phys) (pml4 virt phys : Nat) (flags : MapFlags) : Option Phys := do
  let s ← s.ensureTable pml4 (tableIndex virt 39) flags
  let pdpt := tableOf (entryAt s.mem pml4 (tableIndex virt 39))
  let s ← s.ensureTable pdpt (tableIndex virt 30) flags
  let pd := tableOf (entryAt s.mem pdpt (tableIndex virt 30))
  let s ← s.ensureTable pd (tableIndex virt 21) flags
  let pde := entryAt s.mem pd (tableIndex virt 21)
  -- a 2 MiB page is left as it is
  if has pde pteHuge then some s
  else
    let entry := BitVec.ofNat 64 phys ||| ptePresent ||| flags.bits
    some (s.setMem (writeEntry s.mem (tableOf pde) (tableIndex virt 12) entry))

def translatePage (s : Phys) (pml4 virt : Nat) : Option Nat :=
  let pml4e := entryAt s.mem pml4 (tableIndex virt 39)
  if ¬ has pml4e ptePresent then none
  else
    let pdpte := entryAt s.mem (tableOf pml4e) (tableIndex virt 30)
    if ¬ has pdpte ptePresent then none
    else
      let pde := entryAt s.mem (tableOf pdpte) (tableIndex virt 21)
      if ¬ has pde ptePresent then none
      else if has pde pteHuge then some ((pde &&& pteAddrMask).toNat + virt % (2 * 1024 * 1024))
      else
        match s.ptePtr pml4 virt with
        | none => none
        | some ptr =>
          let pte := loadWord s.mem ptr
          if ¬ has pte ptePresent then none else some (pte &&& pteAddrMask).toNat

/-- `unmap_page_in`, with the frame that was mapped. -/
def unmapPageIn (s : Phys) (pml4 virt : Nat) : Option Nat × Phys :=
  match s.ptePtr pml4 virt with
  | none => (none, s)
  | some pte =>
    let entry := loadWord s.mem pte
    if ¬ has entry ptePresent then (none, s)
    else (some (entry &&& pteAddrMask).toNat, s.setMem (storeWord s.mem pte 0))

/-- `protect_page_in`, with whether there was a page. -/
def protectPageIn (s : Phys) (pml4 virt : Nat) (flags : MapFlags) : Bool × Phys :=
  match s.ptePtr pml4 virt with
  | none => (false, s)
  | some pte =>
    let entry := loadWord s.mem pte
    if ¬ has entry ptePresent then (false, s)
    else
      let entry := (entry &&& ~~~(pteWritable ||| pteUser ||| pteNx)) ||| flags.bits
      (true, s.setMem (storeWord s.mem pte entry))

/-! ## Whole address spaces -/

/-- `clone_kernel_address_space`, the kernel's own tables being at `kernelPml4`
(`KERNEL_PML4`). Running out of frames is not checked for. -/
def cloneKernelAddressSpace (s : Phys) (kernelPml4 : Nat) : Nat × Phys :=
  match s.allocFrame with
  | (newPml4, s) =>
    let mem := fill s.mem newPml4 4096 0
    (newPml4, s.setMem ((List.range' 256 256).foldl
      (fun mem i => writeEntry mem newPml4 i (entryAt mem kernelPml4 i)) mem))

/-- One round of the innermost loop of `clone_user_address_space`. -/
def clonePte (srcPt dstPt : Nat) (s : Phys) (ptI : Nat) : Option Phys :=
  let srcPte := entryAt s.mem srcPt ptI
  if ¬ has srcPte ptePresent then some s
  else
    let srcFrame := (srcPte &&& pteAddrMask).toNat
    match s.allocFrame with
    | (0, _) => none
    | (newFrame, s) =>
      let mem := copy s.mem newFrame srcFrame 4096
      let pteFlags := srcPte &&& ~~~pteAddrMask
      some (s.setMem (writeEntry mem dstPt ptI (BitVec.ofNat 64 newFrame ||| pteFlags)))

def clonePt (srcPt dstPt : Nat) (s : Phys) : Option Phys := (List.range 512).foldlM (clonePte srcPt dstPt) s

/-- What the three outer loops do for an entry that points to a table: a new
table takes its place with the same flags and `inner` fills it. -/
def cloneTable (inner : Nat → Nat → Phys → Option Phys) (dst index : Nat) (entry : Word) (s : Phys) : Option Phys :=
  match s.allocTable with
  | none => none
  | some (new, s) =>
    let flags := entry &&& ~~~pteAddrMask
    inner (entry &&& pteAddrMask).toNat new (s.setMem (writeEntry s.mem dst index (BitVec.ofNat 64 new ||| flags)))

def clonePde (srcPd dstPd : Nat) (s : Phys) (pdI : Nat) : Option Phys :=
  let srcPde := entryAt s.mem srcPd pdI
  if ¬ has srcPde ptePresent then some s
  else if has srcPde pteHuge then some (s.setMem (writeEntry s.mem dstPd pdI srcPde))
  else cloneTable clonePt dstPd pdI srcPde s

def clonePd (srcPd dstPd : Nat) (s : Phys) : Option Phys := (List.range 512).foldlM (clonePde srcPd dstPd) s

def clonePdpte (srcPdpt dstPdpt : Nat) (s : Phys) (pdptI : Nat) : Option Phys :=
  let srcPdpte := entryAt s.mem srcPdpt pdptI
  if ¬ has srcPdpte ptePresent then some s else cloneTable clonePd dstPdpt pdptI srcPdpte s

def clonePdpt (srcPdpt dstPdpt : Nat) (s : Phys) : Option Phys :=
  (List.range 512).foldlM (clonePdpte srcPdpt dstPdpt) s

def clonePml4e (srcPml4 dstPml4 : Nat) (s : Phys) (pml4I : Nat) : Option Phys :=
  let srcPml4e := entryAt s.mem srcPml4 pml4I
  if ¬ has srcPml4e ptePresent then some s else cloneTable clonePdpt dstPml4 pml4I srcPml4e s

def cloneUserAddressSpace (s : Phys) (kernelPml4 srcPml4 : Nat) : Option (Nat × Phys) :=
  match s.cloneKernelAddressSpace kernelPml4 with
  | (newPml4, s) => ((List.range 256).foldlM (clonePml4e srcPml4 newPml4) s).map fun s => (newPml4, s)

end Phys

end CoreOS
