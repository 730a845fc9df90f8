import Mathlib.Algebra.Group.Int.Defs
import Mathlib.Algebra.Group.Nat.Defs
import Mathlib.Data.Nat.Init

namespace GammaOS

def u8 (n : ℕ) : ℕ := n % 2 ^ 8

def u32 (n : ℕ) : ℕ := n % 2 ^ 32

/-- The unsigned 32-bit value of a negative `int`. -/
def negU32 (e : ℕ) : ℕ := 2 ^ 32 - e

def subU32 (a b : ℕ) : ℕ := u32 (a + 2 ^ 32 - b)

/-- The signed reading of an unsigned 32-bit value. -/
def toInt32 (n : ℕ) : ℤ := if u32 n < 2 ^ 31 then (u32 n : ℤ) else (u32 n : ℤ) - 2 ^ 32

def ofInt32 (z : ℤ) : ℕ := (z % 2 ^ 32).toNat

theorem u8_of_lt {n : ℕ} (h : n < 2 ^ 8) : u8 n = n := Nat.mod_eq_of_lt h

theorem u32_of_lt {n : ℕ} (h : n < 2 ^ 32) : u32 n = n := Nat.mod_eq_of_lt h

theorem u32_lt (n : ℕ) : u32 n < 2 ^ 32 := Nat.mod_lt _ (by decide)

/-! The codes of `kstatus.h`. A function of the source returns them negated. -/

def success : ℕ := 0
def errInvarg : ℕ := 1
def errMallocFail : ℕ := 2
def errInvpath : ℕ := 3
def errTaskFail : ℕ := 4
def errFsFail : ℕ := 5
def errFsInvSign : ℕ := 6
def errFsRootNotFound : ℕ := 7
def errFsInvFileMode : ℕ := 8
def errFsFopenFailed : ℕ := 9
def errFsFreadFailed : ℕ := 10
def errFdNotFound : ℕ := 11
def errMaxProcessLimitReached : ℕ := 12
def errProcessLoadFail : ℕ := 13
def errProcessCreationFailed : ℕ := 14
def errProcessMappingFailed : ℕ := 15
def errInvalidElfFile : ℕ := 16
def errElfPhdrFail : ℕ := 17

end GammaOS
