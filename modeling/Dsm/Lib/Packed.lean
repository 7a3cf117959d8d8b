import Mathlib.Logic.Equiv.Prod
import Mathlib.Data.List.Basic
import Mathlib.Algebra.Group.Nat.Defs

/-!
# Packed layouts

A packed structure is laid out byte by byte, field after field, with no padding of the compiler's.
`Packed α` is such a layout of `α`: how a value is put into bytes, how it is got back from the front
of a buffer, and the two laws that make this a layout. Reading what was written gives the value,
whatever stands behind it (`get_put`); writing what was read gives the bytes that were read
(`put_get`), so every buffer that is long enough stands for exactly one value.

Layouts are built from bytes (`u8`, `bytes`), little-endian words (`u16`, `u32`), pairs (`prod`) and
a change of the type they describe (`iso`); `putAll` and `getAll` lay out an array.
-/

namespace Dsm.Lib

variable {α β : Type*}

structure Packed (α : Type*) where
  size : Nat
  put : α → List UInt8
  get : List UInt8 → α
  length_put : ∀ a, (put a).length = size
  get_put : ∀ a rest, get (put a ++ rest) = a
  put_get : ∀ buf, size ≤ buf.length → put (get buf) = buf.take size

namespace Packed

/-! ## Words -/

def u8 : Packed UInt8 where
  size := 1
  put b := [b]
  get buf := buf.headD 0
  length_put _ := rfl
  get_put _ _ := rfl
  put_get buf h := by
    cases buf with
    | nil => exact absurd h (by decide)
    | cons b buf => rfl

/-- `n` bytes as they come. -/
def bytes (n : Nat) : Packed (Vector UInt8 n) where
  size := n
  put v := v.toList
  get buf := Vector.ofFn fun i => buf.getD i 0
  length_put v := by simp
  get_put v rest := by
    ext i hi
    simp [List.getElem?_append_left]
  put_get buf h := by
    apply List.ext_getElem
    · simpa using (Nat.min_eq_left h).symm
    · intro i hi _
      have hlt : i < n := by simpa using hi
      simp [List.getElem?_eq_getElem (Nat.lt_of_lt_of_le hlt h)]

/-- One layout behind another. -/
def prod (p : Packed α) (q : Packed β) : Packed (α × β) where
  size := p.size + q.size
  put x := p.put x.1 ++ q.put x.2
  get buf := (p.get buf, q.get (buf.drop p.size))
  length_put x := by rw [List.length_append, p.length_put, q.length_put]
  get_put x rest := by
    have hdrop : ((p.put x.1 ++ q.put x.2) ++ rest).drop p.size = q.put x.2 ++ rest := by
      rw [List.append_assoc, ← p.length_put x.1, List.drop_left]
    rw [hdrop, q.get_put, List.append_assoc, p.get_put]
  put_get buf h := by
    rw [p.put_get buf (by omega), q.put_get (buf.drop p.size) (by rw [List.length_drop]; omega),
      List.take_add]

/-- The same bytes, read as another type. -/
def iso (p : Packed α) (e : α ≃ β) : Packed β where
  size := p.size
  put b := p.put (e.symm b)
  get buf := e (p.get buf)
  length_put b := p.length_put _
  get_put b rest := by rw [p.get_put, e.apply_symm_apply]
  put_get buf h := by rw [e.symm_apply_apply, p.put_get buf h]

/-- A word of two bytes from its low and its high byte. -/
def word16 : UInt8 × UInt8 ≃ UInt16 where
  toFun w := UInt16.ofNat (w.1.toNat + w.2.toNat * 2 ^ 8)
  invFun n := (UInt8.ofNat n.toNat, UInt8.ofNat (n.toNat / 2 ^ 8))
  left_inv w := by
    have h₁ := w.1.toNat_lt
    have h₂ := w.2.toNat_lt
    apply Prod.ext <;> apply UInt8.toNat.inj <;>
      simp only [UInt8.toNat_ofNat', UInt16.toNat_ofNat'] <;> omega
  right_inv n := by
    have h := n.toNat_lt
    apply UInt16.toNat.inj
    simp only [UInt8.toNat_ofNat', UInt16.toNat_ofNat']
    omega

def word32 : UInt16 × UInt16 ≃ UInt32 where
  toFun w := UInt32.ofNat (w.1.toNat + w.2.toNat * 2 ^ 16)
  invFun n := (UInt16.ofNat n.toNat, UInt16.ofNat (n.toNat / 2 ^ 16))
  left_inv w := by
    have h₁ := w.1.toNat_lt
    have h₂ := w.2.toNat_lt
    apply Prod.ext <;> apply UInt16.toNat.inj <;>
      simp only [UInt16.toNat_ofNat', UInt32.toNat_ofNat'] <;> omega
  right_inv n := by
    have h := n.toNat_lt
    apply UInt32.toNat.inj
    simp only [UInt16.toNat_ofNat', UInt32.toNat_ofNat']
    omega

-- Little endian: the low half comes first.
def u16 : Packed UInt16 := (u8.prod u8).iso word16

def u32 : Packed UInt32 := (u16.prod u16).iso word32

/-! ## Reading from a longer buffer -/

theorem put_injective (p : Packed α) : Function.Injective p.put := by
  intro a b h
  have ha := p.get_put a []
  rw [h, p.get_put] at ha
  exact ha.symm

/-- Reading looks at the first `size` bytes only. -/
theorem get_take (p : Packed α) {buf : List UInt8} {n : Nat} (hn : p.size ≤ n)
    (h : p.size ≤ buf.length) : p.get (buf.take n) = p.get buf := by
  apply p.put_injective
  rw [p.put_get _ (by rw [List.length_take]; omega), p.put_get _ h, List.take_take,
    Nat.min_eq_left hn]

/-! ## Arrays -/

def putAll (p : Packed α) (as : List α) : List UInt8 := as.flatMap p.put

def getAll (p : Packed α) : Nat → List UInt8 → List α
  | 0, _ => []
  | n + 1, buf => p.get buf :: p.getAll n (buf.drop p.size)

theorem length_putAll (p : Packed α) (as : List α) :
    (p.putAll as).length = as.length * p.size := by
  induction as with
  | nil => simp [putAll]
  | cons a as ih =>
      rw [putAll, List.flatMap_cons, List.length_append, p.length_put, ← putAll, ih,
        List.length_cons, Nat.add_one_mul, Nat.add_comm]

@[simp] theorem length_getAll (p : Packed α) (n : Nat) (buf : List UInt8) :
    (p.getAll n buf).length = n := by
  induction n generalizing buf with
  | zero => rfl
  | succ n ih => rw [getAll, List.length_cons, ih]

theorem getAll_putAll (p : Packed α) (as : List α) (rest : List UInt8) :
    p.getAll as.length (p.putAll as ++ rest) = as := by
  induction as with
  | nil => rfl
  | cons a as ih =>
      have hcons : p.putAll (a :: as) ++ rest = p.put a ++ (p.putAll as ++ rest) := by
        rw [putAll, List.flatMap_cons, List.append_assoc, ← putAll]
      rw [hcons, List.length_cons, getAll, p.get_put, ← p.length_put a, List.drop_left, ih]

theorem putAll_getAll (p : Packed α) (n : Nat) (buf : List UInt8) (h : n * p.size ≤ buf.length) :
    p.putAll (p.getAll n buf) = buf.take (n * p.size) := by
  induction n generalizing buf with
  | zero => simp [getAll, putAll]
  | succ n ih =>
      have hsplit : (n + 1) * p.size = p.size + n * p.size := by
        rw [Nat.add_one_mul, Nat.add_comm]
      rw [getAll, putAll, List.flatMap_cons, ← putAll, p.put_get buf (by omega),
        ih _ (by rw [List.length_drop]; omega), hsplit, List.take_add]

end Packed

end Dsm.Lib
