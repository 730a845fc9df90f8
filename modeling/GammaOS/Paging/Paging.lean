import GammaOS.Memory.Arena

namespace GammaOS.Paging

open Foundation Memory

def pagePresent : ℕ := 0b00000001
def pageWriteAccess : ℕ := 0b00000010
def pageUserAccess : ℕ := 0b00000100

def pageDirEntries : ℕ := 1024
def pageTableEntries : ℕ := 1024

def addressPageAligned (vaddr : ℕ) : Bool := vaddr % pageSize == 0

def pagingAlignToPageUpper (address : ℕ) : ℕ :=
  if address % pageSize ≠ 0 then u32 (address - address % pageSize + pageSize) else address

def pagingAlignToPageLower (address : ℕ) : ℕ :=
  if address % pageSize ≠ 0 then address - address % pageSize else address

/-- The directory and table index of an address. An address that is not
aligned gets none: the source then leaves both unset. -/
def getPageIndices (vaddr : ℕ) : Option (ℕ × ℕ) :=
  if addressPageAligned vaddr then
    some (vaddr / (pageSize * pageTableEntries), vaddr % (pageTableEntries * pageSize) / pageSize)
  else none

def tableOf (m : ByteMemory) (directory pdIndex : ℕ) : ℕ :=
  m.load32 (directory + 4 * pdIndex) &&& 0xfffff000

/-- `pd` is the address of a `struct page_directory`, which holds the address of its entries. -/
def mapVaddrToVal (m : ByteMemory) (pd vaddr val : ℕ) : ℤ × ByteMemory :=
  match getPageIndices vaddr with
  | none => (-errInvarg, m)
  | some (pdIndex, ptIndex) =>
    (success, m.store32 (tableOf m (m.load32 pd) pdIndex + 4 * ptIndex) val)

def mapPages (vspace flags : ℕ) : ℕ → ℕ → ℕ → ByteMemory → ByteMemory
  | 0, _, _, m => m
  | n + 1, vaddr, paddr, m =>
    mapPages vspace flags n (u32 (vaddr + pageSize)) (u32 (paddr + pageSize))
      (mapVaddrToVal m (m.load32 vspace) vaddr (paddr ||| flags)).2

def pagingMapRange (m : ByteMemory) (vspace vaddr paddr endaddr flags : ℕ) : ℤ × ByteMemory :=
  if ¬ (addressPageAligned vaddr ∧ addressPageAligned paddr ∧ addressPageAligned endaddr) then
    (-errProcessMappingFailed, m)
  else if endaddr < paddr then (-errProcessMappingFailed, m)
  else (success, mapPages vspace flags ((endaddr - paddr) / pageSize) vaddr paddr m)

def pagingVirtToPhy (m : ByteMemory) (vspace vaddr : ℕ) : Option ℕ :=
  (getPageIndices vaddr).map (fun (pdIndex, ptIndex) ↦
    m.load32 (tableOf m (m.load32 (m.load32 vspace)) pdIndex + 4 * ptIndex))

/-- The inner loop of `new_page_directory` with `n` entries left to write. -/
def fillTable (table offset flags : ℕ) : ℕ → ℕ → ByteMemory → ByteMemory
  | 0, _, m => m
  | n + 1, ptEntry, m =>
    fillTable table offset flags n (ptEntry + 1)
      (m.store32 (table + 4 * ptEntry) ((offset + ptEntry * pageSize) ||| flags))

/-- What one turn of the outer loop of `new_page_directory` writes: the
entries of the new table, and the directory entry that points to it. -/
def newTableMem (directory flags pdEntry table : ℕ) (m : ByteMemory) : ByteMemory :=
  (fillTable table (pdEntry * (pageTableEntries * pageSize)) flags pageTableEntries 0 m).store32
    (directory + 4 * pdEntry) (table ||| flags ||| pageWriteAccess)

variable {σ : Type} [Allocator σ]

def onMem (f : ByteMemory → ByteMemory) : ArenaM σ Unit :=
  Program.modifyState (fun s ↦ { s with mem := f s.mem })

/-- The outer loop of `new_page_directory` with `n` entries left to make. -/
def newTables (directory flags : ℕ) : ℕ → ℕ → ArenaM σ Unit
  | 0, _ => pure ()
  | n + 1, pdEntry => do
    let table ← kzallocUnchecked (4 * pageTableEntries)
    onMem (newTableMem directory flags pdEntry table)
    newTables directory flags n (pdEntry + 1)

def newPageDirectory (flags : ℕ) : ArenaM σ ℕ := do
  let directory ← kzallocUnchecked (4 * pageDirEntries)
  newTables directory flags pageDirEntries 0
  let pd ← kzallocUnchecked 4
  onMem (fun m ↦ m.store32 pd directory)
  pure pd

def createVirtualAddressSpace (flags : ℕ) : ArenaM σ ℕ := do
  let vspace ← kzallocUnchecked 4
  let pd ← newPageDirectory flags
  onMem (fun m ↦ m.store32 vspace pd)
  pure vspace

def freeTables (vspace : ℕ) : ℕ → ℕ → ArenaM σ Unit
  | 0, _ => pure ()
  | n + 1, pdEntry => do
    let m ← Program.gets Arena.mem
    kfree (tableOf m (m.load32 (m.load32 vspace)) pdEntry)
    freeTables vspace n (pdEntry + 1)

def destroyVirtualAddressSpace (vspace : ℕ) : ArenaM σ Unit := do
  freeTables vspace pageDirEntries 0
  let m ← Program.gets Arena.mem
  kfree (m.load32 vspace)
  kfree vspace

end GammaOS.Paging
