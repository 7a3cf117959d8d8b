import Dsm.Lib.Run
import Mathlib.Data.Set.Basic

/-!
# Hearsay

Sites hold facts and never forget one, and each has a fact of its own. In a round some sites ask
others: who is asked learns the fact of the asker, and the asker takes over whatever the other one held
when the round began. How far facts have travelled after a number of rounds is then a matter of who
asks whom.
-/

namespace Dsm.Lib

variable {ι α σ β : Type*}

/-- The sites whose facts have come to site `i` in `n` rounds. -/
def heardOf (asks : ι → ι → Prop) : Nat → ι → Set ι
  | 0, i => {i}
  | n + 1, i => {k | k ∈ heardOf asks n i ∨ asks k i ∨ ∃ j, asks i j ∧ k ∈ heardOf asks n j}

/-- What a round does, from the states that `Inv` describes. -/
structure Hearsay (round : σ → β → σ → Prop) (Inv : σ → Prop) (holds : σ → ι → Set α) (own : ι → α)
    (asks : ι → ι → Prop) : Prop where
  inv {s t : σ} {b : β} : Inv s → round s b t → Inv t
  keeps {s t : σ} {b : β} : Inv s → round s b t → ∀ i, holds s i ⊆ holds t i
  asked {s t : σ} {b : β} {i j : ι} : Inv s → round s b t → asks i j → own i ∈ holds t j
  told {s t : σ} {b : β} {i j : ι} : Inv s → round s b t → asks i j → holds s j ⊆ holds t i

/-- **The rule for rounds.** -/
theorem Hearsay.run {round : σ → β → σ → Prop} {Inv : σ → Prop} {holds : σ → ι → Set α} {own : ι → α}
    {asks : ι → ι → Prop} (h : Hearsay round Inv holds own asks) {s : σ} (hs : Inv s)
    (hown : ∀ i, own i ∈ holds s i) (n : Nat) :
    ∀ {bs : List β} {t : σ}, bs.length = n → Run round s bs t →
      ∀ {i k : ι}, k ∈ heardOf asks n i → own k ∈ holds t i := by
  induction n with
  | zero =>
      intro bs t hlen hrun i k hk
      obtain rfl := List.length_eq_zero_iff.mp hlen
      cases hrun
      obtain rfl := hk
      exact hown k
  | succ n ih =>
      intro bs t hlen hrun i k hk
      obtain ⟨before, b, rfl⟩ := List.eq_nil_or_concat bs |>.resolve_left (by rintro rfl; cases hlen)
      rw [List.concat_eq_append] at hlen hrun
      rw [List.length_append, List.length_singleton] at hlen
      obtain ⟨u, hbefore, hlast⟩ := hrun.split
      have hearlier := fun {i k} => ih (Nat.succ.inj hlen) hbefore (i := i) (k := k)
      have hu : Inv u := hbefore.invariant Inv (fun _ _ _ => h.inv) hs
      cases hlast with
      | cons hround hnil =>
          cases hnil
          rcases hk with hk | hasks | ⟨j, hasks, hk⟩
          · exact h.keeps hu hround i (hearlier hk)
          · exact h.asked hu hround hasks
          · exact h.told hu hround hasks (hearlier hk)

end Dsm.Lib
