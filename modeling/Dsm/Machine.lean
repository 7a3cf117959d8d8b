import Mathlib.Data.Vector.Basic
import Mathlib.Logic.Function.Basic

/-!
# Machine words and pages

The C sources compute with fixed-width unsigned integers. The model keeps page ids, frame numbers
and counters as `Nat` and writes the reduction out (`u32`, `u64`, `u64Sub`) wherever the source
could wrap. Flags that the source narrows to a byte (`(uint8_t)write`) stay machine words.
-/

namespace Dsm

def u32 (n : Nat) : Nat := n % 2 ^ 32

def u64 (n : Nat) : Nat := n % 2 ^ 64

/-- `a - b` on `uint64_t`: wraps below zero. -/
def u64Sub (a b : Nat) : Nat := (a + (2 ^ 64 - b % 2 ^ 64)) % 2 ^ 64

theorem u32_lt (n : Nat) : u32 n < 2 ^ 32 := Nat.mod_lt _ (by decide)

theorem u32_of_lt {n : Nat} (h : n < 2 ^ 32) : u32 n = n := Nat.mod_eq_of_lt h

theorem u64Sub_of_le {a b : Nat} (ha : a < 2 ^ 64) (h : b ≤ a) : u64Sub a b = a - b := by
  unfold u64Sub
  rw [Nat.mod_eq_of_lt (show b < 2 ^ 64 by omega)]
  omega

def pageSize : Nat := 4096

abbrev Page := Vector UInt8 pageSize

def Page.fill (b : UInt8) : Page := Vector.replicate pageSize b

/-- `static uint8_t zero_page[PAGE_SIZE]`, and what `mmap` hands out. -/
def zeroPage : Page := Page.fill 0

theorem Page.fill_ne {a b : UInt8} (h : a ≠ b) : Page.fill a ≠ Page.fill b := by
  intro hab
  apply h
  have h0 := congrArg (fun p : Page => p.toList.head?) hab
  simpa [Page.fill, pageSize] using h0

end Dsm
