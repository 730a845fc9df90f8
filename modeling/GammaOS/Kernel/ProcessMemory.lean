import GammaOS.Kernel.LoadFrame
import GammaOS.Kernel.ProcessMap

namespace GammaOS.Kernel

open Foundation Memory Paging Loader

def binaryCall (rawData size : ℕ) : MapCall where
  vaddr := taskDefaultStart
  paddr := rawData
  endaddr := pagingAlignToPageUpper (u32 (rawData + size))
  flags := pageWriteAccess ||| pagePresent ||| pageUserAccess

def stackCall (stack : ℕ) : MapCall where
  vaddr := taskDefaultStackEnd
  paddr := stack
  endaddr := pagingAlignToPageUpper (u32 (stack + taskStackSize))
  flags := pagePresent ||| pageUserAccess ||| pageWriteAccess

def ProcessData.calls (alien : ℕ → ByteMemory) (m : ByteMemory) : ProcessData → List MapCall
  | .elf elfData => elfCalls alien m elfData
  | .bin rawData size => [binaryCall rawData size]

def memoryCalls (alien : ℕ → ByteMemory) (m : ByteMemory) (data : ProcessData) (stack : ℕ) :
    List MapCall :=
  data.calls alien m ++ [stackCall stack]

def DataOff (S : Space) : ProcessData → Prop
  | .elf elfData => BufferOff S elfData
  | .bin _ _ => True

variable {S : Space} {m : ByteMemory} {alien : ℕ → ByteMemory} {data : ProcessData} {stack : ℕ}

def mapStatus (ok : Bool) : ℤ := if ok then (success : ℤ) else -errProcessMappingFailed

theorem mapStatus_nonneg {ok : Bool} : 0 ≤ mapStatus ok ↔ ok = true := by
  cases ok
  · exact iff_of_false (by decide) Bool.false_ne_true
  · exact iff_of_true (by decide) rfl

theorem mapRange_eq (c : MapCall) (vspace : ℕ) (m : ByteMemory) :
    pagingMapRange m vspace c.vaddr c.paddr c.endaddr c.flags =
      (mapStatus (mapCalls vspace [c] m).1, (mapCalls vspace [c] m).2) := by
  rw [mapCalls]
  by_cases hc : c.Accepted
  · rw [if_pos hc, c.accepted hc, MapCall.run, c.accepted hc]
    rfl
  · rw [if_neg hc, c.refused hc]
    rfl

theorem processMapBinary_eq (vspace rawData size : ℕ) (m : ByteMemory) :
    processMapBinary vspace rawData size m =
      (mapStatus (mapCalls vspace [binaryCall rawData size] m).1,
        (mapCalls vspace [binaryCall rawData size] m).2) := by
  have h := mapRange_eq (binaryCall rawData size) vspace m
  have hmap : processMapBinary vspace rawData size m =
      (if (mapStatus (mapCalls vspace [binaryCall rawData size] m).1 : ℤ) < 0
        then (-(errProcessMappingFailed : ℤ), (mapCalls vspace [binaryCall rawData size] m).2)
        else ((success : ℤ), (mapCalls vspace [binaryCall rawData size] m).2)) := by
    unfold processMapBinary
    unfold binaryCall at h ⊢
    dsimp only at h ⊢
    rw [h]
  rw [hmap]
  cases (mapCalls vspace [binaryCall rawData size] m).1
  · rw [if_pos (by decide)]
    rfl
  · rw [if_neg (by decide)]
    rfl

theorem mapStack_eq {vspace : ℕ} {calls : List MapCall} {r : ℤ × ByteMemory}
    (hr : r = (mapStatus (mapCalls vspace calls m).1, (mapCalls vspace calls m).2)) :
    (if r.1 < 0 then r
      else pagingMapRange r.2 vspace taskDefaultStackEnd stack
        (pagingAlignToPageUpper (u32 (stack + taskStackSize)))
        (pagePresent ||| pageUserAccess ||| pageWriteAccess)) =
      (mapStatus (mapCalls vspace (calls ++ [stackCall stack]) m).1,
        (mapCalls vspace (calls ++ [stackCall stack]) m).2) := by
  rw [hr, mapCalls_append]
  cases hok : (mapCalls vspace calls m).1
  · rfl
  · have h := mapRange_eq (stackCall stack) vspace (mapCalls vspace calls m).2
    have hneg : ¬ mapStatus true < 0 := by decide
    rw [if_neg hneg, if_pos rfl, ← h, stackCall]

theorem processMapMemory_eq (h : Holds m S) (hb : DataOff S data) :
    processMapMemory alien S.vspace data stack m =
      (mapStatus (mapCalls S.vspace (memoryCalls alien m data stack) m).1,
        (mapCalls S.vspace (memoryCalls alien m data stack) m).2) := by
  cases data with
  | elf elfData => exact mapStack_eq (processMapElf_eq h hb)
  | bin rawData size => exact mapStack_eq (processMapBinary_eq _ _ _ _)

theorem calls_congr {m' : ByteMemory} (h : ∀ elfData, data = .elf elfData → ∀ a, elfData.data ≤ a →
    a < elfData.data + elfData.fileSize → m' a = m a) : data.calls alien m' = data.calls alien m := by
  cases data with
  | elf elfData =>
    have hview : (fun k ↦ elfData.view (alien k) m') = fun k ↦ elfData.view (alien k) m :=
      funext (fun k ↦ view_eq (h elfData rfl) (alien k))
    rw [ProcessData.calls, ProcessData.calls, elfCalls, elfCalls, hview]
  | bin rawData size => rfl

theorem stackCall_valid (hs : stack < 2 ^ 32) : (stackCall stack).Valid := by
  have hv : taskDefaultStackEnd < 2 ^ 32 := by
    unfold taskDefaultStackEnd taskDefaultStackBegin
    omega
  have he : (stackCall stack).endaddr < 2 ^ 32 := by
    have h : ∀ a, pagingAlignToPageUpper (u32 a) < 2 ^ 32 := fun a ↦ alignToPageUpper_lt (u32_lt a)
    simpa only [stackCall] using h (stack + taskStackSize)
  have hf : pagePresent ||| pageUserAccess ||| pageWriteAccess < pageSize := by decide
  exact ⟨hv, hs, he, hf⟩

theorem binaryCall_valid {rawData size : ℕ} (hr : rawData < 2 ^ 32) :
    (binaryCall rawData size).Valid := by
  have hv : taskDefaultStart < 2 ^ 32 := by decide
  have hf : pageWriteAccess ||| pagePresent ||| pageUserAccess < pageSize := by decide
  exact ⟨hv, hr, alignToPageUpper_lt (u32_lt _), hf⟩

theorem memoryCalls_valid (hs : stack < 2 ^ 32) (hd : ∀ b ∈ data.blocks, b.1 < 2 ^ 32) :
    ∀ c ∈ memoryCalls alien m data stack, c.Valid := by
  intro c hc
  rcases List.mem_append.mp hc with hc | hc
  · cases data with
    | elf elfData => exact elfCalls_valid c hc
    | bin rawData size =>
      cases List.mem_singleton.mp hc
      exact binaryCall_valid (hd _ (List.mem_singleton_self _))
  · cases List.mem_singleton.mp hc
    exact stackCall_valid hs

end GammaOS.Kernel
