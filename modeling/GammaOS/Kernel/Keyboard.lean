import GammaOS.Kernel.State

namespace GammaOS.Kernel

open Function Foundation Foundation.Program Memory

def processMaxKeyboardBufferSize : ℕ := 1024

/-- The place that a counter names. The remainder of a negative counter is
negative, which is no place of the buffer. -/
def keyboardIndex (counter : ℤ) : ℕ := ofInt32 (Int.tmod counter processMaxKeyboardBufferSize)

def nextCounter (counter : ℤ) : ℤ := toInt32 (ofInt32 (counter + 1))

def keyboardPopFromBuffer (p : Process) : Except Fault (UInt8 × Process) :=
  let index := keyboardIndex p.keyboardBuf.head
  if index < processMaxKeyboardBufferSize then
    let ch := p.keyboardBuf.buffer index
    if ch = 0 then .ok (0, p)
    else .ok (ch, { p with keyboardBuf := { p.keyboardBuf with
        buffer := update p.keyboardBuf.buffer index 0
        head := nextCounter p.keyboardBuf.head } })
  else .error .outOfBounds

def keyboardPushToBuffer (p : Process) (ch : UInt8) : Except Fault Process :=
  if ch = 0 then .ok p
  else
    let indexToPush := keyboardIndex p.keyboardBuf.tail
    if indexToPush < processMaxKeyboardBufferSize then
      .ok { p with keyboardBuf := { p.keyboardBuf with
        buffer := update p.keyboardBuf.buffer indexToPush ch
        tail := nextCounter p.keyboardBuf.tail } }
    else .error .outOfBounds

variable {σ δ : Type}

def keyboardPut (ch : UInt8) : KernelM σ δ Unit := do
  let current ← gets KernelState.currentProcess
  if current = 0 then pure ()
  else do
    let p ← processAt current
    let p ← ofExcept (keyboardPushToBuffer p ch)
    setProcess current (some p)

def keyboardGet : KernelM σ δ UInt8 := do
  let current ← gets KernelState.currentProcess
  if current = 0 then pure 0
  else do
    let p ← processAt current
    let (ch, p) ← ofExcept (keyboardPopFromBuffer p)
    setProcess current (some p)
    pure ch

end GammaOS.Kernel
