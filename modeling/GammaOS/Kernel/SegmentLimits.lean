import GammaOS.Kernel.Process
import GammaOS.Memory.KernelHeap
import GammaOS.Segments.Gdt

namespace GammaOS.Kernel

open Foundation Memory Paging Segments Loader

def kernelDataSelector : ℕ := 0x10

def selected (m : ByteMemory) (gdt selector : ℕ) : Descriptor :=
  .decode m (gdt + 8 * (selector / 8))

def BlocksInside (d : Descriptor) (p n : ℕ) : Prop :=
  ∀ a, p ≤ a → a < p + pageSize * blocksOf (u32 n) → d.Contains a

structure TaskInside (m : ByteMemory) (gdt : ℕ) (r : Reg) : Prop where
  entry : (selected m gdt r.cs).Contains r.ip
  stack : ∀ a, taskDefaultStackEnd ≤ a → a < r.esp → (selected m gdt r.ss).Contains a

variable {m : ByteMemory} {gdt tss p n : ℕ} {htss : tss < 2 ^ 32} {whole : Bool}

theorem decodes_end {d : Descriptor} {source : GdtStructured} (h : Decodes d source)
    (hbase : source.base = 0) (hlimit : source.limit = 0xFFFFF) :
    d.base = 0 ∧ d.effectiveLimit = 0xFFFFF := by
  refine ⟨h.base.trans hbase, ?_⟩
  rw [(h.large (by omega)).2, hlimit]
  decide

/-- The segments of the kernel and of its tasks end at 1 MiB: their limit is
taken for a count of bytes. -/
theorem selected_end (selector : ℕ) (h : ∀ i < gdtEntries,
    Decodes (.decode m (gdt + 8 * i)) (kernelGdtS tss htss i))
    (hi : selector / 8 = 2 ∨ selector / 8 = 3 ∨ selector / 8 = 4) :
    (selected m gdt selector).base = 0 ∧ (selected m gdt selector).effectiveLimit = 0xFFFFF := by
  unfold selected
  rcases hi with hi | hi | hi <;> rw [hi]
  · exact decodes_end (h 2 (by decide)) rfl rfl
  · exact decodes_end (h 3 (by decide)) rfl rfl
  · exact decodes_end (h 4 (by decide)) rfl rfl

theorem not_contains {d : Descriptor} (h : d.base = 0 ∧ d.effectiveLimit = 0xFFFFF) {a : ℕ}
    (ha : 0x100000 ≤ a) : ¬ d.Contains a := by
  intro hc
  have hle := hc.2
  rw [h.1, h.2] at hle
  omega

theorem heap_outside {d : Descriptor} (h : d.base = 0 ∧ d.effectiveLimit = 0xFFFFF)
    {s s' : Arena (KHeap whole)} (hz : kzalloc n s = .ok (p, s')) (hp : p ≠ 0) :
    ¬ BlocksInside d p n := by
  intro hb
  obtain ⟨hlow, -⟩ := KHeap.kzalloc_inside hz hp
  have hpos := (kzalloc_granted hz hp).pos
  have hle := lt_blocksOf (u32 n)
  refine not_contains h (a := p) ?_ (hb p (Nat.le_refl p) (by omega))
  unfold kernelHeapBase at hlow
  omega

/-- With the table that the kernel builds no allocation lies in the data
segment of the kernel, and no stack of a task in that of the tasks. -/
theorem addresses_outside (tss : ℕ) (htss : tss < 2 ^ 32) (gdt : ℕ) (m : ByteMemory) :
    ∃ m', getGdtFromStructured gdt (kernelGdtS tss htss) gdtEntries m = .ok m' ∧
      (∀ (whole : Bool) (s s' : Arena (KHeap whole)) (n p : ℕ),
        (kmalloc n s = .ok (p, s') ∨ kzalloc n s = .ok (p, s')) → p ≠ 0 →
          ¬ BlocksInside (selected m' gdt kernelDataSelector) p n) ∧
      ∀ (alien mem : ByteMemory) (data : ProcessData),
        ¬ TaskInside m' gdt (initRegisters alien mem data) := by
  obtain ⟨m', hm', hdec⟩ :=
    gdt_decodes gdt gdtEntries (kernelGdtS tss htss) m (fun _ ↦ kernelGdtS_limit htss)
  refine ⟨m', hm', fun whole s s' n p hrun hp ↦ ?_, fun alien mem data h ↦ ?_⟩
  · have hend := selected_end kernelDataSelector hdec (by decide)
    rcases hrun with hrun | hrun
    · cases hrun
      exact heap_outside hend (rfl : kzalloc n s = .ok _) hp
    · exact heap_outside hend hrun hp
  · have hend := selected_end userDataSelector hdec (by decide)
    have hesp : taskDefaultStackEnd < taskDefaultStackBegin := by decide
    exact not_contains hend (by decide) (h.stack taskDefaultStackEnd (Nat.le_refl _) hesp)

theorem addresses_outside_fresh : ∃ m',
    getGdtFromStructured 0x9000 (kernelGdtS 0x8000 (by decide)) gdtEntries (fun _ ↦ 0) = .ok m' ∧
      ¬ BlocksInside (selected m' 0x9000 kernelDataSelector)
        (Allocator.kzalloc 1 (freshArena false).heap).1 1 := by
  obtain ⟨m', hm', hheap, -⟩ := addresses_outside 0x8000 (by decide) 0x9000 (fun _ ↦ 0)
  refine ⟨m', hm', hheap false (freshArena false) _ 1 _ (Or.inr rfl) ?_⟩
  have hroom := freshArena_room false (n := blocksOf (u32 1) + 0) (by decide)
  exact (RoomyAllocator.room_kzalloc (freshArena false).heap 1 0 (by decide) hroom).1

theorem first_block_outside : ∃ (m' : ByteMemory) (s' : Arena (KHeap false)),
    getGdtFromStructured 0x9000 (kernelGdtS 0x8000 (by decide)) gdtEntries (fun _ ↦ 0) = .ok m' ∧
      kzalloc 1 (freshArena false) = .ok (kernelHeapBase, s') ∧
      ¬ BlocksInside (selected m' 0x9000 kernelDataSelector) kernelHeapBase 1 := by
  obtain ⟨m', hm', hdec⟩ := gdt_decodes 0x9000 gdtEntries (kernelGdtS 0x8000 (by decide)) (fun _ ↦ 0)
    (fun _ ↦ kernelGdtS_limit (by decide))
  have hp : (Allocator.kzalloc 1 (freshArena false).heap).1 = kernelHeapBase := by decide +kernel
  refine ⟨m', _, hm', (congrArg (fun p ↦ Except.ok (p, _)) hp), ?_⟩
  exact heap_outside (selected_end kernelDataSelector hdec (by decide))
    (congrArg (fun p ↦ Except.ok (p, _)) hp) (by decide)

end GammaOS.Kernel
