/-
The kernel heap (`mem/heap.rs`): a slab allocator over the frame allocator.
Eight size classes with up to 64 slabs each, a slab being one frame cut into
slots whose free ones are threaded on a list; larger blocks are runs of whole
frames.
-/
import CoreOS.Pmm

namespace CoreOS

open ByteMem

/-- `core::alloc::Layout`. -/
structure Layout where
  size : Nat
  align : Nat
  align_pow : ∃ k, align = 2 ^ k
  fits : size + (align - 1) ≤ isizeMax
  deriving DecidableEq

/-- `SIZE_CLASSES`. -/
def sizeClasses : List Nat := [16, 32, 64, 128, 256, 512, 1024, 2048]

/-- `NUM_CLASSES`. -/
def numClasses : Nat := 8

/-- `MAX_SLABS_PER_CLASS`. -/
def maxSlabsPerClass : Nat := 64

/-- `SIZE_CLASSES[class_idx]`. -/
def slotSize (classIdx : Nat) : Nat := sizeClasses.getD classIdx 0

structure SlabHeader where
  page : Nat
  freeHead : Nat
  freeCount : Nat
  capacity : Nat
  deriving DecidableEq

namespace SlabHeader

def empty : SlabHeader := ⟨0, 0, 0, 0⟩

def isEmptySlot (h : SlabHeader) : Bool := h.page == 0

end SlabHeader

def classFor (size : Nat) : Option Nat := sizeClasses.findIdx? fun s => size ≤ s

/-- The number of bytes a layout is served with: at least its alignment and a
word. -/
def blockSize (layout : Layout) : Nat := max (max layout.size layout.align) 8

/-- `SLABS` and physical memory. -/
structure Heap where
  phys : Phys
  slabs : Nat → Nat → SlabHeader

namespace Heap

def setSlab (h : Heap) (ci j : Nat) (header : SlabHeader) : Heap :=
  { h with slabs := Function.update h.slabs ci (Function.update (h.slabs ci) j header) }

def setMem (h : Heap) (mem : Mem) : Heap := { h with phys := { h.phys with mem } }

/-- One round of the loop of `new_slab`: slot `i` is linked to the slots after
it. -/
def threadSlot (page slotSize : Nat) (s : Nat × Mem) (i : Nat) : Nat × Mem :=
  let slotVirt := p2v (page + i * slotSize)
  (slotVirt, storeWord s.2 (v2p slotVirt) (BitVec.ofNat 64 s.1))

/-- The loop of `new_slab`, `(0..capacity).rev()`: the head of the list and the
memory it is in. -/
def threadSlots (page slotSize capacity : Nat) (mem : Mem) : Nat × Mem :=
  (List.range capacity).reverse.foldl (threadSlot page slotSize) (0, mem)

/-- The first header of a class for which `p` holds. -/
def findSlab (h : Heap) (ci : Nat) (p : SlabHeader → Bool) : Option Nat :=
  (List.range maxSlabsPerClass).find? fun j => p (h.slabs ci j)

/-- `new_slab`: the index of the header filled in. -/
def newSlab (h : Heap) (ci : Nat) : Option (Nat × Heap) :=
  match h.findSlab ci SlabHeader.isEmptySlot with
  | none => none
  | some j =>
    match h.phys.allocFrame with
    | (0, _) => none
    | (page, phys) =>
      let capacity := pageSize / slotSize ci
      let (head, mem) := threadSlots page (slotSize ci) capacity phys.mem
      some (j, ({ h with phys := { phys with mem } } : Heap).setSlab ci j ⟨page, head, capacity, capacity⟩)

/-- A slot is taken off the list of a slab and zeroed. -/
def takeSlot (h : Heap) (ci j : Nat) : Nat × Heap :=
  let header := h.slabs ci j
  let slot := header.freeHead
  let next := (loadWord h.phys.mem (v2p slot)).toNat
  (slot, (h.setSlab ci j { header with freeHead := next, freeCount := header.freeCount - 1 }).setMem
    (fill h.phys.mem (v2p slot) (slotSize ci) 0))

/-- `SlabAllocator::alloc`, `0` being the null pointer. -/
def alloc (h : Heap) (layout : Layout) : Nat × Heap :=
  match classFor (blockSize layout) with
  | some ci =>
    match h.findSlab ci fun header => !header.isEmptySlot && header.freeCount > 0 with
    | some j => h.takeSlot ci j
    | none =>
      match h.newSlab ci with
      | some (j, h) => h.takeSlot ci j
      | none => (0, h)
  | none =>
    match h.phys.allocFrames (divCeil (blockSize layout) pageSize) with
    | (0, _) => (0, h)
    | (first, phys) => (p2v first, { h with phys })

/-- `SlabAllocator::dealloc`. -/
def dealloc (h : Heap) (ptr : Nat) (layout : Layout) : Heap :=
  if ptr = 0 then h
  else
    match classFor (blockSize layout) with
    | some ci =>
      let addrPhys := v2p ptr
      match h.findSlab ci fun header =>
          !header.isEmptySlot && header.page ≤ addrPhys && addrPhys < header.page + pageSize with
      | some j =>
        let header := h.slabs ci j
        let h := h.setMem (storeWord h.phys.mem addrPhys (BitVec.ofNat 64 header.freeHead))
        if header.freeCount + 1 = header.capacity then
          ({ h with phys := h.phys.freeFrame header.page } : Heap).setSlab ci j .empty
        else h.setSlab ci j { header with freeHead := ptr, freeCount := header.freeCount + 1 }
      | none => h
    | none =>
      let pagesNeeded := divCeil (blockSize layout) pageSize
      { h with phys := (List.range pagesNeeded).foldl (fun phys i => phys.freeFrame (v2p ptr + i * pageSize)) h.phys }

end Heap

end CoreOS
