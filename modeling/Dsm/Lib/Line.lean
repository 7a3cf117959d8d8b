import Mathlib.Data.Int.ConditionallyCompleteOrder
import Mathlib.Data.List.GetD
import Mathlib.Order.CompletePartialOrder
import Mathlib.Order.Interval.Set.Disjoint
import Mathlib.Tactic.Linarith

/-!
# Cells on a line

Cells numbered by the integers, and runs of neighbouring cells that are read and written at once: what
was written is read back, and whoever reads other cells does not notice.
-/

namespace Dsm.Lib

variable {β : Type*} {m m' : Int → β} {start : Int}

/-- The values of `len` cells from `start` on. -/
def readAt (m : Int → β) (start : Int) (len : Nat) : List β :=
  (List.range len).map fun i : Nat => m (start + i)

/-- The cells after the values of a list were written from `start` on. -/
def writeAt (m : Int → β) (start : Int) (vs : List β) : Int → β := fun x =>
  if start ≤ x then vs.getD (x - start).toNat (m x) else m x

theorem length_readAt (m : Int → β) (start : Int) (len : Nat) :
    (readAt m start len).length = len := by
  simp [readAt]

theorem readAt_congr {len : Nat} (h : ∀ x ∈ Set.Ico start (start + len), m x = m' x) :
    readAt m start len = readAt m' start len := by
  refine List.map_congr_left fun i hi => h _ ⟨?_, ?_⟩
  · omega
  · have := List.mem_range.mp hi
    omega

theorem writeAt_outside {vs : List β} {x : Int} (h : x ∉ Set.Ico start (start + vs.length)) :
    writeAt m start vs x = m x := by
  unfold writeAt
  split
  · next hle =>
      rw [Set.mem_Ico, not_and, not_lt] at h
      have hlen := h hle
      exact List.getD_eq_default _ _ (by omega)
  · rfl

/-- What was written is read back. -/
theorem readAt_writeAt (m : Int → β) (start : Int) (vs : List β) :
    readAt (writeAt m start vs) start vs.length = vs := by
  refine List.ext_getElem (length_readAt _ _ _) fun i hi hi' => ?_
  have hstart : start ≤ start + (i : Int) := by omega
  simp only [readAt, List.getElem_map, List.getElem_range, writeAt, if_pos hstart]
  have hsub : (start + (i : Int) - start).toNat = i := by omega
  rw [hsub]
  exact List.getD_eq_getElem _ _ hi'

/-- Other cells are as they were. -/
theorem readAt_writeAt_of_disjoint {vs : List β} {start' : Int} {len : Nat}
    (h : Disjoint (Set.Ico start (start + vs.length)) (Set.Ico start' (start' + len))) :
    readAt (writeAt m start vs) start' len = readAt m start' len :=
  readAt_congr fun _ hx => writeAt_outside fun hx' => Set.disjoint_left.mp h hx' hx

end Dsm.Lib
