import GammaOS.Machine
import Mathlib.Logic.Function.Basic

namespace GammaOS.Memory

open Function

def kernelHbSize : ℕ := 4096

def heapBlockEntryFree : UInt8 := 0x0
def heapBlockEntryTaken : UInt8 := 0x1
def heapBlockHasNext : UInt8 := 0b10000000
def heapBlockIsFirst : UInt8 := 0b01000000

/-- `struct hb_table`: one byte for each block of the heap. -/
structure HbTable where
  entries : ℕ → UInt8
  numEntries : ℕ

def HbTable.set (t : HbTable) (block : ℕ) (entry : UInt8) : HbTable :=
  { t with entries := update t.entries block entry }

structure Heap where
  entryTable : HbTable
  heapBase : ℕ

def validateHeapAlignment (addr : ℕ) : Bool := addr % kernelHbSize == 0

/-- The pointer difference is a signed 32-bit value, divided with truncation
and then compared as an unsigned one. -/
def validateHeapTable (saddr eaddr : ℕ) (t : HbTable) : Bool :=
  t.numEntries == ofInt32 (Int.tdiv (toInt32 (subU32 eaddr saddr)) kernelHbSize)

def createHeap (saddr eaddr : ℕ) (t : HbTable) : Except ℤ Heap :=
  if ¬ (validateHeapAlignment saddr ∧ validateHeapAlignment eaddr) then .error (-errInvarg)
  else if ¬ validateHeapTable saddr eaddr t then .error (-errInvarg)
  else .ok
    { entryTable :=
        { t with entries := fun i ↦ if i < t.numEntries then heapBlockEntryFree else t.entries i }
      heapBase := saddr }

def getAlignedHeapSize (size : ℕ) : ℕ :=
  if size % kernelHbSize = 0 then size
  else u32 (size - size % kernelHbSize + kernelHbSize)

def findFreeLoop (t : HbTable) (blocksToAllocate : ℕ) : ℕ → ℕ → ℕ → ℕ → ℕ
  | 0, _, _, _ => negU32 errMallocFail
  | n + 1, currentBlock, blockStart, blockCount =>
    if t.entries currentBlock ≠ heapBlockEntryFree then
      findFreeLoop t blocksToAllocate n (currentBlock + 1) (negU32 1) 0
    else
      let blockStart := if blockStart = negU32 1 then currentBlock else blockStart
      if blockCount + 1 = blocksToAllocate then blockStart
      else findFreeLoop t blocksToAllocate n (currentBlock + 1) blockStart (blockCount + 1)

def findFreeEntry (t : HbTable) (blocksToAllocate : ℕ) : ℕ :=
  findFreeLoop t blocksToAllocate t.numEntries 0 (negU32 1) 0

def markLoop (sblock eblock : ℕ) : ℕ → ℕ → HbTable → HbTable
  | 0, _, t => t
  | n + 1, block, t =>
    let entry :=
      if block = sblock then heapBlockEntryTaken ||| heapBlockIsFirst ||| heapBlockHasNext
      else if block = eblock then heapBlockEntryTaken
      else heapBlockEntryTaken ||| heapBlockHasNext
    markLoop sblock eblock n (block + 1) (t.set block entry)

def markBlocksTaken (t : HbTable) (sblock eblock : ℕ) : HbTable :=
  if sblock = eblock then t.set sblock (heapBlockEntryTaken ||| heapBlockIsFirst)
  else markLoop sblock eblock (eblock + 1 - sblock) sblock t

def mallocBlocks (h : Heap) (blocksToAllocate : ℕ) : ℕ × Heap :=
  let startEntry := findFreeEntry h.entryTable blocksToAllocate
  if startEntry = negU32 errMallocFail then (0, h)
  else
    (u32 (h.heapBase + startEntry * kernelHbSize),
      { h with entryTable :=
          markBlocksTaken h.entryTable startEntry (startEntry + blocksToAllocate - 1) })

def malloc (h : Heap) (size : ℕ) : ℕ × Heap :=
  mallocBlocks h (getAlignedHeapSize size / kernelHbSize)

/-- The loop of `free_blocks` with `n` blocks left. The entry is cleared
before its `HEAP_BLOCK_HAS_NEXT` bit is tested. -/
def freeLoop : ℕ → ℕ → HbTable → HbTable
  | 0, _, t => t
  | n + 1, block, t =>
    let t := t.set block heapBlockEntryFree
    if t.entries block &&& heapBlockHasNext = 0 then t else freeLoop n (block + 1) t

def freeBlocks (h : Heap) (startBlock : ℕ) : Heap :=
  { h with entryTable :=
      freeLoop (h.entryTable.numEntries - startBlock) startBlock h.entryTable }

def Heap.blockOf (h : Heap) (base : ℕ) : ℕ := subU32 base h.heapBase / kernelHbSize

def free (h : Heap) (base : ℕ) : Heap := freeBlocks h (h.blockOf base)

end GammaOS.Memory
