import Mathlib.Algebra.BigOperators.Group.List.Basic
import Mathlib.Algebra.Order.BigOperators.GroupWithZero.List
import Mathlib.Data.List.Forall2
import Mathlib.Tactic.Linarith

/-!
# Mixed-radix numerals

A list of digits, each below its radix, stands for a number: the sum of the digits times the products
of the radices behind them. This is how a table of any rank lies in a line, row after row. Every
numeral is below the product of the radices (`value_lt`), and different numerals are different
numbers (`value_injective`). Dividing by the weights, one after the other, finds the digits of every
number below the product (`digits_numeral`, `value_digits`).
-/

namespace Dsm.Lib.MixedRadix

/-- The weight of each place: the product of the radices behind it. -/
def weights : List Int → List Int
  | [] => []
  | _ :: dims => dims.prod :: weights dims

/-- Each digit is below its radix. -/
abbrev Numeral (digits dims : List Int) : Prop :=
  List.Forall₂ (fun x d => 0 ≤ x ∧ x < d) digits dims

/-- The number that digits stand for in places of the given weights. -/
def value (digits ws : List Int) : Int := (List.zipWith (· * ·) digits ws).sum

@[simp]
theorem value_nil (ws : List Int) : value [] ws = 0 := rfl

@[simp]
theorem value_cons (x w : Int) (xs ws : List Int) :
    value (x :: xs) (w :: ws) = x * w + value xs ws := by
  simp [value]

@[simp]
theorem weights_length (dims : List Int) : (weights dims).length = dims.length := by
  induction dims with
  | nil => rfl
  | cons d dims ih => simp [weights, ih]

theorem value_nonneg_and_lt {digits dims : List Int} (h : Numeral digits dims) :
    0 ≤ value digits (weights dims) ∧ value digits (weights dims) < dims.prod := by
  induction h with
  | nil => simp
  | @cons x d xs dims hx _ ih =>
      simp only [weights, value_cons, List.prod_cons]
      constructor
      · have := mul_nonneg hx.1 (ih.1.trans ih.2.le)
        linarith
      · have hmul := mul_le_mul_of_nonneg_right (Int.add_one_le_iff.mpr hx.2) (ih.1.trans ih.2.le)
        linarith

theorem value_nonneg {digits dims : List Int} (h : Numeral digits dims) :
    0 ≤ value digits (weights dims) := (value_nonneg_and_lt h).1

theorem value_lt {digits dims : List Int} (h : Numeral digits dims) :
    value digits (weights dims) < dims.prod := (value_nonneg_and_lt h).2

/-- The first digit is the quotient by its weight, the rest stands for the remainder. -/
theorem value_injective {xs ys dims : List Int} (hx : Numeral xs dims) (hy : Numeral ys dims)
    (h : value xs (weights dims) = value ys (weights dims)) : xs = ys := by
  induction hx generalizing ys with
  | nil => cases hy; rfl
  | @cons x d xs dims _ hxs ih =>
      cases hy with
      | @cons y _ ys _ _ hys =>
          simp only [weights, value_cons] at h
          have hpos : 0 < dims.prod := (value_nonneg hxs).trans_lt (value_lt hxs)
          have hquot : ∀ z {zs}, Numeral zs dims → (z * dims.prod + value zs (weights dims)) /
              dims.prod = z := by
            intro z zs hzs
            rw [add_comm, Int.add_mul_ediv_right _ _ hpos.ne',
              Int.ediv_eq_zero_of_lt (value_nonneg hzs) (value_lt hzs), zero_add]
          have hhead : x = y := by rw [← hquot x hxs, h, hquot y hys]
          subst hhead
          rw [ih hys (add_left_cancel h)]

/-- The digits of a number: the quotients by the weights, each of what the last one left. -/
def digits : Int → List Int → List Int
  | _, [] => []
  | n, w :: ws => n / w :: digits (n % w) ws

/-- If there is a number in range at all, no radix and no weight is zero. -/
theorem prod_pos_of_lt {n d : Int} {dims : List Int} (hdims : ∀ x ∈ dims, 0 ≤ x) (hn : 0 ≤ n)
    (hlt : n < d * dims.prod) : 0 < dims.prod := by
  refine (List.prod_nonneg hdims).lt_of_ne fun hzero => ?_
  rw [← hzero, mul_zero] at hlt
  exact absurd hlt (not_lt.mpr hn)

theorem weights_pos {dims : List Int} (hdims : ∀ d ∈ dims, 0 ≤ d) : ∀ {n : Int}, 0 ≤ n →
    n < dims.prod → ∀ w ∈ weights dims, 0 < w := by
  induction dims with
  | nil => simp [weights]
  | cons d dims ih =>
      intro n hn hlt w hw
      obtain ⟨-, hdims'⟩ := List.forall_mem_cons.mp hdims
      rw [List.prod_cons] at hlt
      have hpos := prod_pos_of_lt hdims' hn hlt
      rcases List.mem_cons.mp hw with rfl | hw
      · exact hpos
      · exact ih hdims' le_rfl hpos w hw

theorem digits_numeral_and_value {dims : List Int} (hdims : ∀ d ∈ dims, 0 ≤ d) : ∀ {n : Int},
    0 ≤ n → n < dims.prod → Numeral (digits n (weights dims)) dims ∧
      value (digits n (weights dims)) (weights dims) = n := by
  induction dims with
  | nil =>
      intro n hn hlt
      rw [List.prod_nil] at hlt
      have hzero : n = 0 := by omega
      exact ⟨.nil, hzero.symm⟩
  | cons d dims ih =>
      intro n hn hlt
      obtain ⟨-, hdims'⟩ := List.forall_mem_cons.mp hdims
      rw [List.prod_cons] at hlt
      have hpos := prod_pos_of_lt hdims' hn hlt
      obtain ⟨hnum, hvalue⟩ := ih hdims' (Int.emod_nonneg n hpos.ne') (Int.emod_lt_of_pos n hpos)
      constructor
      · exact .cons ⟨Int.ediv_nonneg hn hpos.le, Int.ediv_lt_of_lt_mul hpos hlt⟩ hnum
      · rw [weights, digits, value_cons, hvalue, mul_comm, Int.mul_ediv_add_emod]

section Digits

variable {dims : List Int} (hdims : ∀ d ∈ dims, 0 ≤ d)

include hdims

theorem digits_numeral {n : Int} (hn : 0 ≤ n) (hlt : n < dims.prod) :
    Numeral (digits n (weights dims)) dims := (digits_numeral_and_value hdims hn hlt).1

theorem value_digits {n : Int} (hn : 0 ≤ n) (hlt : n < dims.prod) :
    value (digits n (weights dims)) (weights dims) = n := (digits_numeral_and_value hdims hn hlt).2

/-- Dividing finds the numeral back. -/
theorem digits_value {xs : List Int} (h : Numeral xs dims) :
    digits (value xs (weights dims)) (weights dims) = xs :=
  value_injective (digits_numeral hdims (value_nonneg h) (value_lt h)) h
    (value_digits hdims (value_nonneg h) (value_lt h))

end Digits

end Dsm.Lib.MixedRadix
