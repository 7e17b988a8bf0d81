/-
The physical memory manager (`mem/pmm.rs`): a bitmap of `maxFrames` frames,
a set bit meaning used, with a running count of the clear ones.
-/
import CoreOS.Machine

namespace CoreOS

open ByteMem

/-- `MAX_FRAMES`: 4 GiB of frames. -/
def maxFrames : Nat := 1024 * 1024

/-- `EFI_CONVENTIONAL_MEMORY`: free RAM. -/
def efiConventionalMemory : Nat := 7

structure MemMapEntry where
  physicalStart : Nat
  numPages : Nat
  memType : Nat

/-- What the bootloader hands over, as far as the frame allocator reads it:
the first `mmap_count` entries of the memory map and the kernel image. -/
structure BootInfo where
  mmap : List MemMapEntry
  kernelPhysBase : Nat
  kernelAllocSize : Nat

structure PmmState where
  bitmap : Nat → BitVec 8
  totalFrames : Nat
  freeFrames : Nat

namespace PmmState

def new : PmmState where
  bitmap := fun _ => 0xFF
  totalFrames := 0
  freeFrames := 0

def setUsed (p : PmmState) (f : Nat) : PmmState :=
  { p with bitmap := fun i => if i = f / 8 then p.bitmap i ||| (1#8 <<< (f % 8)) else p.bitmap i }

def setFree (p : PmmState) (f : Nat) : PmmState :=
  { p with bitmap := fun i => if i = f / 8 then p.bitmap i &&& ~~~(1#8 <<< (f % 8)) else p.bitmap i }

def isFree (p : PmmState) (f : Nat) : Bool := (p.bitmap (f / 8) &&& (1#8 <<< (f % 8))) == 0#8

/-- The state with its `free_frames` counter set. -/
def withFree (p : PmmState) (n : Nat) : PmmState := { p with freeFrames := n }

/-- The state with its `total_frames` counter set. -/
def withTotal (p : PmmState) (n : Nat) : PmmState := { p with totalFrames := n }

/-! ## Initialisation -/

/-- One frame of a conventional memory map entry. -/
def releaseFrame (p : PmmState) (f : Nat) : PmmState :=
  if f < maxFrames ∧ ¬ p.isFree f then
    ((p.setFree f).withFree (p.freeFrames + 1)).withTotal (p.totalFrames + 1)
  else p

/-- One frame of the kernel image. -/
def reserveFrame (p : PmmState) (f : Nat) : PmmState :=
  if f < maxFrames ∧ p.isFree f then
    (p.setUsed f).withFree (wrappingSub p.freeFrames 1)
  else p

/-- `start..stop`. -/
def frameRange (start stop : Nat) : List Nat := List.range' start (stop - start)

def releaseEntry (p : PmmState) (entry : MemMapEntry) : PmmState :=
  if entry.memType ≠ efiConventionalMemory then p
  else
    let startFrame := entry.physicalStart / pageSize
    (frameRange startFrame (wrappingAdd startFrame entry.numPages)).foldl releaseFrame p

def reserveKernel (p : PmmState) (b : BootInfo) : PmmState :=
  (frameRange (b.kernelPhysBase / pageSize)
    (divCeil (wrappingAdd b.kernelPhysBase b.kernelAllocSize) pageSize)).foldl reserveFrame p

def init (p : PmmState) (b : BootInfo) : PmmState :=
  let p := reserveKernel (b.mmap.foldl releaseEntry p) b
  if p.isFree 0 then (p.setUsed 0).withFree (p.freeFrames - 1) else p

/-! ## Search -/

/-- The loop of `alloc_frames` over the frames left to look at, with its two
running variables: the first frame of a run of `count` free ones. -/
def findRun (p : PmmState) (count : Nat) : List Nat → Nat → Nat → Option Nat
  | [], _, _ => none
  | f :: fs, consecutive, startFrame =>
    if p.isFree f then
      let startFrame := if consecutive = 0 then f else startFrame
      if consecutive + 1 = count then some startFrame
      else findRun p count fs (consecutive + 1) startFrame
    else findRun p count fs 0 startFrame

end PmmState

/-- The frame allocator and physical memory. -/
structure Phys where
  pmm : PmmState
  mem : Mem

namespace Phys

/-- `alloc_frame`: the address of a zeroed frame, `0` when none is free. -/
def allocFrame (s : Phys) : Nat × Phys :=
  match (List.range' 1 (maxFrames - 1)).find? s.pmm.isFree with
  | some f =>
    let addr := f * pageSize
    (addr, { pmm := (s.pmm.setUsed f).withFree (s.pmm.freeFrames - 1)
             mem := fill s.mem addr pageSize 0 })
  | none => (0, s)

/-- `alloc_frames`: `count` zeroed frames in a row, `0` when there is no
such run. -/
def allocFrames (s : Phys) (count : Nat) : Nat × Phys :=
  if count = 0 then (0, s)
  else if count = 1 then s.allocFrame
  else
    match s.pmm.findRun count (List.range' 1 (maxFrames - 1)) 0 0 with
    | some startFrame =>
      let p := (List.range count).foldl (fun p i => p.setUsed (startFrame + i)) s.pmm
      let addr := startFrame * pageSize
      (addr, { pmm := p.withFree (p.freeFrames - count)
               mem := fill s.mem addr (count * pageSize) 0 })
    | none => (0, s)

/-- `free_frame`. -/
def freeFrame (s : Phys) (physAddr : Nat) : Phys :=
  let f := physAddr / pageSize
  if f = 0 ∨ f ≥ maxFrames then s
  else if ¬ s.pmm.isFree f then
    { s with pmm := (s.pmm.setFree f).withFree (s.pmm.freeFrames + 1) }
  else s

end Phys

end CoreOS
