import Mathlib.Data.List.Basic
import Mathlib.Algebra.GroupWithZero.Nat

/-!
# Messages on a stream without delimiters

Messages of a sequence are written one after the other as lists of items, with nothing in between.
A receiver stays in step with the sender because it takes exactly as many items as the message has.
The lemmas below are the two ways this is used: what is left of the stream determines which messages
are still to come, and the pieces a receiver cut out are the ones that were written, if the lengths
agree.
-/

namespace Dsm.Lib

variable {μ β : Type*} {enc : μ → List β}

theorem eq_nil_of_flatMap_eq_nil (hne : ∀ m, enc m ≠ []) {ms : List μ} (h : ms.flatMap enc = []) :
    ms = [] := by
  cases ms with
  | nil => rfl
  | cons m ms =>
      rw [List.flatMap_cons] at h
      exact absurd (List.append_eq_nil_iff.mp h).1 (hne m)

/-- **Resynchronising.** Both ends have a position in the same sequence of messages. If what one end
has still to read is what lies between them followed by what the other end has still to write, then
whole messages lie between them. -/
theorem resync (hne : ∀ m, enc m ≠ []) {read unread written unwritten : List μ} {between : List β}
    (hall : read ++ unread = written ++ unwritten)
    (h : unread.flatMap enc = between ++ unwritten.flatMap enc) :
    ∃ ms, unread = ms ++ unwritten ∧ between = ms.flatMap enc := by
  rcases List.append_eq_append_iff.mp hall with ⟨c, -, hc⟩ | ⟨c, -, hc⟩
  · refine ⟨c, hc, ?_⟩
    rw [hc, List.flatMap_append] at h
    exact (List.append_cancel_right h).symm
  · -- The reader cannot be ahead of the writer.
    rw [hc, List.flatMap_append, ← List.append_assoc] at h
    have hnil : between ++ c.flatMap enc = [] := by
      have hlen := congrArg List.length h
      rw [List.length_append] at hlen
      exact List.eq_nil_of_length_eq_zero (by omega)
    obtain ⟨hbetween, hcnil⟩ := List.append_eq_nil_iff.mp hnil
    refine ⟨[], ?_, hbetween⟩
    rw [eq_nil_of_flatMap_eq_nil hne hcnil] at hc
    exact hc.symm

theorem eq_nil_of_sum_map_eq_zero {ms : List μ} (len : μ → Nat) (hpos : ∀ m ∈ ms, 0 < len m)
    (h : (ms.map len).sum = 0) : ms = [] := by
  cases ms with
  | nil => rfl
  | cons m ms =>
      rw [List.map_cons, List.sum_cons] at h
      have := hpos m List.mem_cons_self
      omega

end Dsm.Lib
