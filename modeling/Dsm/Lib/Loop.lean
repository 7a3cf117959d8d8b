import Dsm.Lib.Run

/-!
# Bounded loops with a break

A loop makes at most `n` turns. A turn goes wrong (`none`: the program has no defined behaviour from
there on) or yields an observation and the next state; a state that says `stop` ends the loop early.

A head is a state in which a turn is about to be made. What the loop comes to is said in terms of its
heads: it goes wrong exactly if a turn does (`loop_eq_none_iff`), and otherwise its observations are
those made at the heads, and it was stopped exactly if one of the turns did that (`loop_eq_some`).
-/

namespace Dsm.Lib

variable {σ α : Type*} (body : σ → Option (α × σ)) (stop : σ → Bool)

/-- At most `n` turns, with what they yield. -/
def loop : Nat → σ → Option (List α × σ)
  | 0, s => some ([], s)
  | n + 1, s =>
    if stop s then some ([], s)
    else do
      let (a, t) ← body s
      let (as, u) ← loop n t
      return (a :: as, u)

def Turn (s : σ) (a : α) (t : σ) : Prop := stop s = false ∧ body s = some (a, t)

/-- Among the first `n` turns from `s` on there is one that is made in state `t`. -/
def Head (n : Nat) (s t : σ) : Prop :=
  ∃ as, Run (Turn body stop) s as t ∧ as.length < n ∧ stop t = false

variable {body stop} {n : Nat} {s t u : σ} {a : α} {as : List α}

theorem not_head_zero : ¬ Head body stop 0 s t := fun ⟨_, _, hlt, _⟩ => Nat.not_lt_zero _ hlt

theorem head_succ_iff : Head body stop (n + 1) s t ↔
    stop s = false ∧ (t = s ∨ ∃ a v, body s = some (a, v) ∧ Head body stop n v t) := by
  constructor
  · rintro ⟨as, hrun, hlt, hstop⟩
    cases hrun with
    | nil => exact ⟨hstop, .inl rfl⟩
    | cons hturn hrest =>
        exact ⟨hturn.1, .inr ⟨_, _, hturn.2, _, hrest, Nat.lt_of_succ_lt_succ hlt, hstop⟩⟩
  · rintro ⟨hstop, rfl | ⟨a, v, hbody, as, hrun, hlt, hstop'⟩⟩
    · exact ⟨[], .nil _, Nat.succ_pos n, hstop⟩
    · exact ⟨a :: as, .cons ⟨hstop, hbody⟩ hrun, Nat.succ_lt_succ hlt, hstop'⟩

/-- What every turn preserves holds at every head. -/
theorem Head.invariant (h : Head body stop n s t) (Inv : σ → Prop)
    (hstep : ∀ s a t, Inv s → body s = some (a, t) → Inv t) (hs : Inv s) : Inv t := by
  obtain ⟨as, hrun, -⟩ := h
  exact hrun.invariant Inv (fun s a t hs hturn => hstep s a t hs hturn.2) hs

/-- A counter that goes up by one per turn stays below its start plus the number of turns. -/
theorem Head.count_lt (h : Head body stop n s t) (count : σ → Nat)
    (hstep : ∀ s a t, body s = some (a, t) → count t = count s + 1) : count t < count s + n := by
  obtain ⟨as, hrun, hlt, -⟩ := h
  have hcount : count t = count s + as.length := by
    clear hlt
    induction hrun with
    | nil _ => rfl
    | cons hturn _ ih =>
        rw [ih, hstep _ _ _ hturn.2, List.length_cons]
        omega
  omega

theorem head_turn_iff (hstop : stop s = false) (hbody : body s = some (a, u)) :
    Head body stop (n + 1) s t ↔ t = s ∨ Head body stop n u t := by
  rw [head_succ_iff, and_iff_right hstop]
  refine or_congr_right ⟨?_, fun hhead => ⟨a, u, hbody, hhead⟩⟩
  rintro ⟨b, v, hb, hhead⟩
  obtain ⟨rfl, rfl⟩ := Prod.mk.inj (Option.some.inj (hbody.symm.trans hb))
  exact hhead

theorem loop_turn (hstop : stop s = false) (hbody : body s = some (a, t)) :
    loop body stop (n + 1) s = (loop body stop n t).map fun r => (a :: r.1, r.2) := by
  rw [loop, if_neg (by simp [hstop]), hbody]
  simp only [Option.bind_eq_bind, Option.bind_some]
  cases loop body stop n t <;> rfl

theorem loop_stopped (hstop : stop s = true) : loop body stop n s = some ([], s) := by
  cases n with
  | zero => rfl
  | succ n => exact if_pos hstop

theorem loop_wrong (hstop : stop s = false) (hbody : body s = none) :
    loop body stop (n + 1) s = none := by
  rw [loop, if_neg (by simp [hstop]), hbody]
  rfl

/-- **The loop goes wrong** exactly if one of its turns does. -/
theorem loop_eq_none_iff :
    loop body stop n s = none ↔ ∃ t, Head body stop n s t ∧ body t = none := by
  induction n generalizing s with
  | zero => simp [loop, not_head_zero]
  | succ n ih =>
      cases hstop : stop s with
      | true => simp [loop_stopped hstop, head_succ_iff, hstop]
      | false =>
          cases hbody : body s with
          | none =>
              exact iff_of_true (loop_wrong hstop hbody)
                ⟨s, head_succ_iff.mpr ⟨hstop, .inl rfl⟩, hbody⟩
          | some next =>
              rw [loop_turn hstop hbody, Option.map_eq_none_iff, ih]
              simp only [head_turn_iff hstop hbody]
              constructor
              · rintro ⟨t, hhead, hnone⟩
                exact ⟨t, .inr hhead, hnone⟩
              · rintro ⟨t, rfl | hhead, hnone⟩
                · rw [hbody] at hnone
                  cases hnone
                · exact ⟨t, hhead, hnone⟩

/-- No turn of a loop that comes to an end goes wrong. -/
theorem Head.turns (hhead : Head body stop n s t) (h : loop body stop n s = some (as, u)) :
    ∃ a v, body t = some (a, v) := by
  cases hbody : body t with
  | none =>
      rw [loop_eq_none_iff.mpr ⟨t, hhead, hbody⟩] at h
      cases h
  | some next => exact ⟨next.1, next.2, rfl⟩

/-- **What the loop comes to** if no turn goes wrong. -/
theorem loop_eq_some (h : loop body stop n s = some (as, u)) :
    (∀ a, a ∈ as ↔ ∃ t v, Head body stop n s t ∧ body t = some (a, v)) ∧
      (stop s = false → (stop u = true ↔
        ∃ t a v, Head body stop n s t ∧ body t = some (a, v) ∧ stop v = true)) := by
  induction n generalizing s as with
  | zero =>
      obtain ⟨rfl, rfl⟩ := Prod.mk.inj (Option.some.inj h)
      simp +contextual [not_head_zero]
  | succ n ih =>
      cases hstop : stop s with
      | true =>
          rw [loop_stopped hstop] at h
          obtain ⟨rfl, rfl⟩ := Prod.mk.inj (Option.some.inj h)
          simp [head_succ_iff, hstop]
      | false =>
          cases hbody : body s with
          | none =>
              rw [loop_wrong hstop hbody] at h
              cases h
          | some next =>
              obtain ⟨a, t⟩ := next
              rw [loop_turn hstop hbody, Option.map_eq_some_iff] at h
              obtain ⟨⟨rest, v⟩, hrest, heq⟩ := h
              obtain ⟨rfl, rfl⟩ := Prod.mk.inj heq
              obtain ⟨hmem, hstopped⟩ := ih hrest
              simp only [head_turn_iff hstop hbody]
              refine ⟨fun b => ?_, fun _ => ?_⟩
              · rw [List.mem_cons, hmem]
                constructor
                · rintro (rfl | ⟨t', w, hhead, hb⟩)
                  · exact ⟨s, t, .inl rfl, hbody⟩
                  · exact ⟨t', w, .inr hhead, hb⟩
                · rintro ⟨t', w, rfl | hhead, hb⟩
                  · obtain ⟨rfl, -⟩ := Prod.mk.inj (Option.some.inj (hbody.symm.trans hb))
                    exact .inl rfl
                  · exact .inr ⟨t', w, hhead, hb⟩
              · cases ht : stop t with
                | true =>
                    rw [loop_stopped ht] at hrest
                    obtain ⟨-, rfl⟩ := Prod.mk.inj (Option.some.inj hrest)
                    exact iff_of_true ht ⟨s, a, t, .inl rfl, hbody, ht⟩
                | false =>
                    rw [hstopped ht]
                    constructor
                    · rintro ⟨t', b, w, hhead, hb⟩
                      exact ⟨t', b, w, .inr hhead, hb⟩
                    · rintro ⟨t', b, w, rfl | hhead, hb, hw⟩
                      · obtain ⟨-, rfl⟩ := Prod.mk.inj (Option.some.inj (hbody.symm.trans hb))
                        exact absurd (ht.symm.trans hw) (by decide)
                      · exact ⟨t', b, w, hhead, hb, hw⟩

end Dsm.Lib
