/-
The ELF loader (`proc/elf.rs`): header checks, then every `PT_LOAD` program
header in turn gets its pages mapped and its bytes copied through the direct
map.
-/
import CoreOS.Vm

namespace CoreOS

open ByteMem

inductive ElfError
  | tooSmall
  | badMagic
  | not64Bit
  | notLittleEndian
  | notExecutable
  | notX8664
  | noProgramHeaders
  | oomLoadingSegment
  deriving DecidableEq

structure LoadedImage where
  entry : Nat
  phdr : Nat
  phent : Nat
  phnum : Nat
  deriving DecidableEq

/-! ## Reading the file -/

def elfMag : List Byte := [0x7F, 0x45, 0x4C, 0x46]
def elfClass64 : Byte := 2
def elfData2Lsb : Byte := 1
def etExec : Nat := 2
def emX8664 : Nat := 62
def ptLoad : Nat := 1

/-- `&data[start..stop]`. -/
def slice (data : List Byte) (start stop : Nat) : Option (List Byte) :=
  if start ≤ stop ∧ stop ≤ data.length then some ((data.drop start).take (stop - start)) else none

/-- The little-endian number of `n` bytes at `offset`. -/
def readLe (n : Nat) (data : List Byte) (offset : Nat) : Option Nat := (slice data offset (offset + n)).map ofBytes

def readU16 : List Byte → Nat → Option Nat := readLe 2
def readU32 : List Byte → Nat → Option Nat := readLe 4
def readU64 : List Byte → Nat → Option Nat := readLe 8

def offClass : Nat := 4
def offData : Nat := 5
def offType : Nat := 16
def offMachine : Nat := 18
def offEntry : Nat := 24
def offPhoff : Nat := 32
def offPhentsize : Nat := 54
def offPhnum : Nat := 56

def phType : Nat := 0
def phOffset : Nat := 8
def phVaddr : Nat := 16
def phFilesz : Nat := 32
def phMemsz : Nat := 40

structure ElfHeader where
  entry : Nat
  phoff : Nat
  phentsize : Nat
  phnum : Nat
  deriving DecidableEq

structure ProgramHeader where
  type : Nat
  offset : Nat
  vaddr : Nat
  filesz : Nat
  memsz : Nat
  deriving DecidableEq

/-- The header checks. -/
def validateHeader (data : List Byte) : Option (Except ElfError ElfHeader) := do
  if data.length < 64 then some (.error .tooSmall)
  else if (← slice data 0 4) ≠ elfMag then some (.error .badMagic)
  else if (← data[offClass]?) ≠ elfClass64 then some (.error .not64Bit)
  else if (← data[offData]?) ≠ elfData2Lsb then some (.error .notLittleEndian)
  else if (← readU16 data offType) ≠ etExec then some (.error .notExecutable)
  else if (← readU16 data offMachine) ≠ emX8664 then some (.error .notX8664)
  else
    let entry ← readU64 data offEntry
    let phoff ← readU64 data offPhoff
    let phentsize ← readU16 data offPhentsize
    let phnum ← readU16 data offPhnum
    if phnum = 0 then some (.error .noProgramHeaders)
    else some (.ok { entry, phoff, phentsize, phnum })

def readProgramHeader (ph : List Byte) : Option ProgramHeader := do
  let type ← readU32 ph phType
  let offset ← readU64 ph phOffset
  let vaddr ← readU64 ph phVaddr
  let filesz ← readU64 ph phFilesz
  let memsz ← readU64 ph phMemsz
  return { type, offset, vaddr, filesz, memsz }

namespace ElfHeader

/-- `ph_start`. -/
def phStart (h : ElfHeader) (i : Nat) : Nat := wrappingAdd h.phoff (i * h.phentsize)

/-- `ph_start + phentsize`. -/
def phEnd (h : ElfHeader) (i : Nat) : Nat := wrappingAdd (h.phStart i) h.phentsize

/-- Program header `i` of the file. -/
def programHeader (h : ElfHeader) (data : List Byte) (i : Nat) : Option ProgramHeader :=
  (slice data (h.phStart i) (h.phEnd i)).bind readProgramHeader

end ElfHeader

namespace ProgramHeader

/-- The headers that are not skipped. -/
def Loads (p : ProgramHeader) : Prop := p.type = ptLoad ∧ p.memsz ≠ 0

instance {p : ProgramHeader} : Decidable p.Loads := inferInstanceAs (Decidable (_ ∧ _))

def pageStart (p : ProgramHeader) : Nat := pageBase p.vaddr

def pageEnd (p : ProgramHeader) : Nat := roundPage (wrappingAdd p.vaddr p.memsz)

/-- The rounds of the loop `while page < page_end`, both ends being aligned. -/
def pages (p : ProgramHeader) : Nat := (p.pageEnd - p.pageStart) / pageSize

/-- The file range is checked without wrapping. -/
def InFile (p : ProgramHeader) (data : List Byte) : Prop :=
  p.offset + p.filesz < usizeMod ∧ p.offset + p.filesz ≤ data.length

instance {p : ProgramHeader} {data : List Byte} : Decidable (p.InFile data) := inferInstanceAs (Decidable (_ ∧ _))

/-- The file range has the program headers in it. -/
def HoldsHeaders (p : ProgramHeader) (phoff : Nat) : Prop := p.offset ≤ phoff ∧ phoff < p.offset + p.filesz

instance {p : ProgramHeader} {phoff : Nat} : Decidable (p.HoldsHeaders phoff) := inferInstanceAs (Decidable (_ ∧ _))

/-- Where the program headers are in memory then. -/
def phdrAt (p : ProgramHeader) (phoff : Nat) : Nat := wrappingAdd p.vaddr (phoff - p.offset)

end ProgramHeader

/-! ## Segments -/

namespace Phys

/-- The flags all segments are mapped with. -/
def segmentFlags : MapFlags where
  writable := true
  user := true
  executable := true

/-- The loop that maps `n` pages from `page` on; a page that is there already is
used as it is. -/
def mapSegment (pml4 : Nat) : Nat → Nat → Phys → Option (Except ElfError Unit × Phys)
  | 0, _, s => some (.ok (), s)
  | n + 1, page, s =>
    match s.translatePage pml4 page with
    | some _ => mapSegment pml4 n (wrappingAdd page pageSize) s
    | none =>
      match s.allocFrame with
      | (0, s) => some (.error .oomLoadingSegment, s)
      | (frame, s) =>
        match s.mapPageIn pml4 page frame segmentFlags with
        | none => none
        | some s => mapSegment pml4 n (wrappingAdd page pageSize) (s.setMem (fill s.mem frame pageSize 0))

/-- The loop that copies `src` to `vaddr`, a page at a time, with `copied` bytes
done. It copies at least a byte a round, so `src.length` rounds are enough. -/
def copySegment (pml4 vaddr : Nat) (src : List Byte) : Nat → Nat → Nat → Phys → Except ElfError Unit × Phys
  | 0, _, _, s => (.ok (), s)
  | fuel + 1, copied, curPage, s =>
    if copied < src.length then
      let pageOff := if curPage = pageBase vaddr then vaddr % pageSize else 0
      let chunk := min (src.length - copied) (pageSize - pageOff)
      match s.translatePage pml4 curPage with
      | none => (.error .oomLoadingSegment, s)
      | some frame =>
        copySegment pml4 vaddr src fuel (copied + chunk) (wrappingAdd curPage pageSize)
          (s.setMem (store s.mem (frame + pageOff) ((src.drop copied).take chunk)))
    else (.ok (), s)

/-- One segment. The last look at the first page is for a log line. -/
def loadSegment (pml4 : Nat) (data : List Byte) (p : ProgramHeader) (s : Phys) :
    Option (Except ElfError Unit × Phys) :=
  match mapSegment pml4 p.pages p.pageStart s with
  | none => none
  | some (.error e, s) => some (.error e, s)
  | some (.ok (), s) =>
    if p.filesz = 0 then some (.ok (), s)
    else
      match slice data p.offset (wrappingAdd p.offset p.filesz) with
      | none => none
      | some src =>
        match copySegment pml4 p.vaddr src src.length 0 p.pageStart s with
        | (.error e, s) => some (.error e, s)
        | (.ok (), s) =>
          match s.translatePage pml4 p.pageStart with
          | none => some (.error .oomLoadingSegment, s)
          | some _ => some (.ok (), s)

/-- The loop over the `n` program headers from `i` on, with `phdr_vaddr`. -/
def loadSegments (pml4 : Nat) (data : List Byte) (h : ElfHeader) :
    Nat → Nat → Nat → Phys → Option (Except ElfError Nat × Phys)
  | 0, _, phdr, s => some (.ok phdr, s)
  | n + 1, i, phdr, s =>
    if data.length < h.phEnd i then some (.error .tooSmall, s)
    else
      match h.programHeader data i with
      | none => none
      | some p =>
        if ¬ p.Loads then loadSegments pml4 data h n (i + 1) phdr s
        else if ¬ p.InFile data then some (.error .tooSmall, s)
        else
          let phdr := if phdr = 0 ∧ p.HoldsHeaders h.phoff then p.phdrAt h.phoff else phdr
          match loadSegment pml4 data p s with
          | none => none
          | some (.error e, s) => some (.error e, s)
          | some (.ok (), s) => loadSegments pml4 data h n (i + 1) phdr s

def loadInto (s : Phys) (pml4 : Nat) (data : List Byte) : Option (Except ElfError LoadedImage × Phys) :=
  match validateHeader data with
  | none => none
  | some (.error e) => some (.error e, s)
  | some (.ok h) =>
    match loadSegments pml4 data h h.phnum 0 0 s with
    | none => none
    | some (.error e, s) => some (.error e, s)
    | some (.ok phdr, s) => some (.ok { entry := h.entry, phdr, phent := h.phentsize, phnum := h.phnum }, s)

/-- `load_into(clone_kernel_address_space(), data)`. -/
def loadFresh (s : Phys) (kernelPml4 : Nat) (data : List Byte) : Option (Except ElfError LoadedImage × Phys) :=
  match s.cloneKernelAddressSpace kernelPml4 with
  | (pml4, s) => s.loadInto pml4 data

end Phys

end CoreOS
