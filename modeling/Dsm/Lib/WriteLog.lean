import Mathlib.Logic.Function.Basic
import Mathlib.Data.List.Induction

/-!
# Memory cells and the log of their writes

Cells of type `A` hold values of type `V`, and the log has every write in the order in which they
took effect. The content of a cell at a moment is that of its last write before, so it can only
differ between two moments if the cell was written in between, and it is known when all the writes in
between wrote the same value.
-/

namespace Dsm.Lib

variable {A V : Type*} [DecidableEq A]

/-- The cells after the writes of a log, first write first. -/
def replay (m : A → V) (log : List (A × V)) : A → V :=
  log.foldl (fun m w => Function.update m w.1 w.2) m

@[simp] theorem replay_nil (m : A → V) : replay m [] = m := rfl

theorem replay_append (m : A → V) (log rest : List (A × V)) :
    replay m (log ++ rest) = replay (replay m log) rest := List.foldl_append

theorem replay_snoc (m : A → V) (log : List (A × V)) (w : A × V) :
    replay m (log ++ [w]) = Function.update (replay m log) w.1 w.2 := replay_append m log [w]

theorem replay_untouched {m : A → V} {log : List (A × V)} {a : A} (h : ∀ w ∈ log, w.1 ≠ a) :
    replay m log a = m a := by
  induction log using List.reverseRecOn with
  | nil => rfl
  | append_singleton log w ih =>
      have hw := h w (List.mem_append_right _ (List.mem_singleton_self w))
      rw [replay_snoc, Function.update_of_ne (Ne.symm hw)]
      exact ih fun v hv => h v (List.mem_append_left _ hv)

/-- A cell that was written, and only with one value, has that value. -/
theorem replay_settled {m : A → V} {log : List (A × V)} {a : A} {v : V}
    (hsome : ∃ w ∈ log, w.1 = a) (hall : ∀ w ∈ log, w.1 = a → w.2 = v) : replay m log a = v := by
  induction log using List.reverseRecOn with
  | nil =>
      obtain ⟨w, hw, -⟩ := hsome
      exact absurd hw List.not_mem_nil
  | append_singleton log w ih =>
      rw [replay_snoc]
      by_cases hw : w.1 = a
      · subst hw
        rw [Function.update_self]
        exact hall w (List.mem_append_right _ (List.mem_singleton_self w)) rfl
      · rw [Function.update_of_ne (Ne.symm hw)]
        refine ih ?_ fun v hv => hall v (List.mem_append_left _ hv)
        obtain ⟨v, hv, rfl⟩ := hsome
        rcases List.mem_append.mp hv with hv | hv
        · exact ⟨v, hv, rfl⟩
        · exact absurd (congrArg Prod.fst (List.mem_singleton.mp hv)).symm hw

/-- A cell has its initial value or one that was written to it. -/
theorem replay_cases (m : A → V) (log : List (A × V)) (a : A) :
    replay m log a = m a ∨ (a, replay m log a) ∈ log := by
  induction log using List.reverseRecOn with
  | nil => exact .inl rfl
  | append_singleton log w ih =>
      rw [replay_snoc]
      by_cases hw : a = w.1
      · subst hw
        rw [Function.update_self]
        exact .inr (List.mem_append_right _ (List.mem_singleton_self w))
      · rw [Function.update_of_ne hw]
        exact ih.imp_right (List.mem_append_left _)

/-! ## Between two moments -/

/-- The log up to a moment is the log up to an earlier one and what was written in between. -/
theorem take_between {α : Type*} (log : List α) {s t : Nat} (hst : s ≤ t) :
    log.take t = log.take s ++ (log.take t).drop s := by
  have hsplit := (List.take_append_drop s (log.take t)).symm
  rwa [List.take_take, Nat.min_eq_left hst] at hsplit

theorem mem_between {α : Type*} {log : List α} {s t : Nat} {w : α}
    (h : w ∈ (log.take t).drop s) : ∃ u, s ≤ u ∧ u < t ∧ log[u]? = some w := by
  obtain ⟨i, hi⟩ := List.mem_iff_getElem?.mp h
  rw [List.getElem?_drop] at hi
  have hlt : s + i < t := by
    by_contra hge
    rw [List.getElem?_take_eq_none (by omega)] at hi
    cases hi
  rw [List.getElem?_take_of_lt hlt] at hi
  exact ⟨s + i, Nat.le_add_right _ _, hlt, hi⟩

theorem between_of_getElem? {α : Type*} {log : List α} {s t u : Nat} {w : α} (hs : s ≤ u) (ht : u < t)
    (h : log[u]? = some w) : w ∈ (log.take t).drop s := by
  refine List.mem_iff_getElem?.mpr ⟨u - s, ?_⟩
  rw [List.getElem?_drop, Nat.add_sub_cancel' hs, List.getElem?_take_of_lt ht]
  exact h

/-- A cell that is not written between two moments has the same value at both. -/
theorem replay_between {m : A → V} {log : List (A × V)} {a : A} {s t : Nat} (hst : s ≤ t)
    (h : ∀ u w, s ≤ u → u < t → log[u]? = some w → w.1 ≠ a) :
    replay m (log.take t) a = replay m (log.take s) a := by
  rw [take_between log hst, replay_append]
  refine replay_untouched fun w hw => ?_
  obtain ⟨u, hsu, hut, hu⟩ := mem_between hw
  exact h u w hsu hut hu

/-- A cell that is written between two moments, and only with one value, has it afterwards. -/
theorem replay_settles {m : A → V} {log : List (A × V)} {a : A} {v : V} {s t u : Nat} (hsu : s ≤ u)
    (hut : u < t) (hu : log[u]? = some (a, v))
    (hall : ∀ u w, s ≤ u → u < t → log[u]? = some w → w.1 = a → w.2 = v) :
    replay m (log.take t) a = v := by
  rw [take_between log (Nat.le_trans hsu (Nat.le_of_lt hut)), replay_append]
  refine replay_settled ⟨_, between_of_getElem? hsu hut hu, rfl⟩ fun w hw => ?_
  obtain ⟨u', hsu', hut', hu'⟩ := mem_between hw
  exact hall u' w hsu' hut' hu'

end Dsm.Lib
