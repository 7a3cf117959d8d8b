import Mathlib.Logic.Relation

/-!
# Runs of a labelled transition relation

A system is a relation `step : σ → α → σ → Prop` between states, labelled by what happens. A run is
a list of labels with the states it leads between. The rules below package the two inductions every
safety proof needs: what each step preserves holds at the end of every run, and what holds at the
end of every guarded run holds in every state such a run passes through, because a run that is cut
short is still a run.
-/

namespace Dsm.Lib

variable {σ α : Type*} {step : σ → α → σ → Prop}

/-- A finite run and its labels, first step first. -/
inductive Run (step : σ → α → σ → Prop) : σ → List α → σ → Prop
  | nil (s : σ) : Run step s [] s
  | cons {s t u : σ} {a : α} {as : List α} : step s a t → Run step t as u → Run step s (a :: as) u

namespace Run

theorem single {s t : σ} {a : α} (h : step s a t) : Run step s [a] t := .cons h (.nil t)

theorem append {s t u : σ} {as bs : List α} (h₁ : Run step s as t) (h₂ : Run step t bs u) :
    Run step s (as ++ bs) u := by
  induction h₁ with
  | nil _ => exact h₂
  | cons hstep _ ih => exact .cons hstep (ih h₂)

theorem snoc {s t u : σ} {as : List α} {a : α} (h : Run step s as t) (hs : step t a u) :
    Run step s (as ++ [a]) u := h.append (single hs)

/-- A run along a concatenation splits at the seam. -/
theorem split {s u : σ} {as bs : List α} (h : Run step s (as ++ bs) u) :
    ∃ t, Run step s as t ∧ Run step t bs u := by
  induction as generalizing s with
  | nil => exact ⟨s, .nil s, h⟩
  | cons a as ih =>
      cases h with
      | cons hstep hrest =>
          obtain ⟨t, h₁, h₂⟩ := ih hrest
          exact ⟨t, .cons hstep h₁, h₂⟩

/-- **The invariant rule**: what every step preserves survives every run. -/
theorem invariant (Inv : σ → Prop) (hstep : ∀ s a t, Inv s → step s a t → Inv t)
    {s t : σ} {as : List α} (h : Run step s as t) (hs : Inv s) : Inv t := by
  induction h with
  | nil _ => exact hs
  | cons ha _ ih => exact ih (hstep _ _ _ hs ha)

/-- The invariant rule where a step may use what is known of the run so far. -/
theorem invariant_from (Inv : σ → Prop) {s₀ : σ}
    (hstep : ∀ as s a t, Run step s₀ as s → Inv s → step s a t → Inv t)
    {t : σ} {as : List α} (h : Run step s₀ as t) (h₀ : Inv s₀) : Inv t := by
  suffices ∀ {s : σ} {bs : List α}, Run step s bs t → ∀ pre, Run step s₀ pre s → Inv s → Inv t from
    this h [] (.nil s₀) h₀
  intro s bs hrun
  induction hrun with
  | nil _ => exact fun _ _ hs => hs
  | cons ha _ ih => exact fun pre hpre hs => ih h _ (hpre.snoc ha) (hstep _ _ _ _ hpre hs ha)

/-- The invariant rule for a run all of whose labels satisfy `P`. -/
theorem invariant_of_labels (Inv : σ → Prop) (P : α → Prop)
    (hstep : ∀ s a t, P a → Inv s → step s a t → Inv t)
    {s t : σ} {as : List α} (h : Run step s as t) (hP : ∀ a ∈ as, P a) (hs : Inv s) : Inv t := by
  induction h with
  | nil _ => exact hs
  | cons ha _ ih =>
      exact ih (fun b hb => hP b (List.mem_cons_of_mem _ hb))
        (hstep _ _ _ (hP _ List.mem_cons_self) hs ha)

/-- The invariant rule for a run each of whose steps meets a condition on the state it starts in. -/
theorem invariant_of_guard (Inv : σ → Prop) (guard : σ → α → Prop)
    (hstep : ∀ s a t, guard s a → Inv s → step s a t → Inv t) {s t : σ} {as : List α}
    (h : Run step s as t)
    (hguard : ∀ pre a, pre ++ [a] <+: as → ∀ u, Run step s pre u → guard u a) (hs : Inv s) :
    Inv t := by
  induction h with
  | nil _ => exact hs
  | cons ha _ ih =>
      have hnext := hstep _ _ _ (hguard [] _ (List.prefix_append [_] _) _ (.nil _)) hs ha
      refine ih (fun pre b hpre u hu => ?_) hnext
      exact hguard (_ :: pre) b (List.prefix_cons_inj _ |>.mpr hpre) u (.cons ha hu)

/-- Where the label determines the step, the labels determine the run. -/
theorem functional (hdet : ∀ s a t u, step s a t → step s a u → t = u) {s t u : σ} {as : List α}
    (h₁ : Run step s as t) (h₂ : Run step s as u) : t = u := by
  induction h₁ with
  | nil _ =>
      cases h₂ with
      | nil _ => rfl
  | cons ha _ ih =>
      cases h₂ with
      | cons hb hrest =>
          obtain rfl := hdet _ _ _ _ ha hb
          exact ih hrest

/-- Runs of a stronger relation are runs of a weaker one. -/
theorem mono {step' : σ → α → σ → Prop} (hle : ∀ s a t, step s a t → step' s a t)
    {s t : σ} {as : List α} (h : Run step s as t) : Run step' s as t := by
  induction h with
  | nil s => exact .nil s
  | cons ha _ ih => exact .cons (hle _ _ _ ha) ih

end Run

end Dsm.Lib
