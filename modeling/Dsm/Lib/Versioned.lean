import Mathlib.Data.Set.Insert
import Mathlib.Order.Basic

/-!
# Versioned records

Records arrive under keys, in any order and any number of times. A map keeps one record a key, and
replaces it by an arriving one only if that has a higher version. What it then holds for a key is a
record of the highest version among all that have arrived (`Holds.record`, `Holds.foldl`). Where two
records of one key and one version are always equal, this says what the map is (`Holds.eq_some_iff`),
so that it depends on the set of the records alone (`Holds.unique`).
-/

namespace Dsm.Lib.Versioned

variable {κ δ ν : Type*} [LinearOrder ν] (version : δ → ν)

/-- The rule for one arriving record. -/
def record [DecidableEq κ] (m : κ → Option δ) (r : κ × δ) : κ → Option δ :=
  Function.update m r.1 <| some <|
    match m r.1 with
    | none => r.2
    | some old => if version old < version r.2 then r.2 else old

/-- A record of the key `k`, such that none has a higher version. -/
def Newest (seen : Set (κ × δ)) (k : κ) (d : δ) : Prop :=
  (k, d) ∈ seen ∧ ∀ d', (k, d') ∈ seen → version d' ≤ version d

/-- Records of one key and one version are equal. -/
def Consistent (seen : Set (κ × δ)) : Prop :=
  ∀ k d d', (k, d) ∈ seen → (k, d') ∈ seen → version d = version d' → d = d'

/-- The map has a newest record of each key that has one. -/
structure Holds (seen : Set (κ × δ)) (m : κ → Option δ) : Prop where
  newest : ∀ k d, m k = some d → Newest version seen k d
  known : ∀ k d, (k, d) ∈ seen → m k ≠ none

variable {version} {seen : Set (κ × δ)} {m m' : κ → Option δ}

theorem Newest.insert_of_ne {r : κ × δ} {k : κ} {d : δ} (h : Newest version seen k d)
    (hk : k ≠ r.1) : Newest version (insert r seen) k d := by
  refine ⟨.inr h.1, fun d' hd' => ?_⟩
  rcases hd' with rfl | hd'
  · exact absurd rfl hk
  · exact h.2 d' hd'

theorem Newest.insert_of_le {k : κ} {d new : δ} (h : Newest version seen k d)
    (hle : version new ≤ version d) : Newest version (insert (k, new) seen) k d := by
  refine ⟨.inr h.1, fun d' hd' => ?_⟩
  rcases hd' with hd' | hd'
  · obtain rfl := (Prod.mk.inj hd').2
    exact hle
  · exact h.2 d' hd'

/-- The arriving record, where all that came before are no newer. -/
theorem newest_insert {k : κ} {new : δ} (h : ∀ d, (k, d) ∈ seen → version d ≤ version new) :
    Newest version (insert (k, new) seen) k new := by
  refine ⟨.inl rfl, fun d hd => ?_⟩
  rcases hd with hd | hd
  · rw [(Prod.mk.inj hd).2]
  · exact h d hd

namespace Holds

/-- **One step.** After a record has arrived, the map holds what has arrived. -/
theorem record [DecidableEq κ] (h : Holds version seen m) (r : κ × δ) :
    Holds version (insert r seen) (record version m r) where
  newest := by
    obtain ⟨k₀, new⟩ := r
    intro k d hd
    by_cases hk : k = k₀
    · subst hk
      rw [Versioned.record, Function.update_self] at hd
      obtain rfl := Option.some.inj hd
      cases hm : m k with
      | none => exact newest_insert fun d hd => absurd hm (h.known k d hd)
      | some old =>
          have hold := h.newest k old hm
          dsimp only
          split
          · next hlt => exact newest_insert fun d hd => (hold.2 d hd).trans hlt.le
          · next hle => exact hold.insert_of_le (not_lt.mp hle)
    · rw [Versioned.record, Function.update_of_ne hk] at hd
      exact (h.newest k d hd).insert_of_ne hk
  known := by
    intro k d hd
    by_cases hk : k = r.1
    · rw [hk, Versioned.record, Function.update_self]
      exact Option.some_ne_none _
    · rw [Versioned.record, Function.update_of_ne hk]
      rcases hd with rfl | hd
      · exact absurd rfl hk
      · exact h.known k d hd

/-- **A whole sequence.** -/
theorem foldl [DecidableEq κ] (rs : List (κ × δ)) {seen : Set (κ × δ)} {m : κ → Option δ}
    (h : Holds version seen m) :
    Holds version (seen ∪ {r | r ∈ rs}) (rs.foldl (Versioned.record version) m) := by
  induction rs generalizing seen m with
  | nil =>
      have : seen ∪ {r | r ∈ ([] : List (κ × δ))} = seen := by simp
      rw [this]
      exact h
  | cons r rs ih =>
      have : seen ∪ {r' | r' ∈ r :: rs} = insert r seen ∪ {r' | r' ∈ rs} := by
        ext r'
        simp only [Set.mem_union, Set.mem_ofPred_eq, List.mem_cons, Set.mem_insert_iff, or_assoc,
          or_left_comm]
      rw [this]
      exact ih (h.record r)

theorem eq_some_iff (h : Holds version seen m) (hc : Consistent version seen) {k : κ} {d : δ} :
    m k = some d ↔ Newest version seen k d := by
  constructor
  · exact h.newest k d
  · intro hd
    obtain ⟨d', hd'⟩ := Option.ne_none_iff_exists'.mp (h.known k d hd.1)
    have hnew := h.newest k d' hd'
    have hversion := le_antisymm (hnew.2 d hd.1) (hd.2 d' hnew.1)
    rw [hd', hc k d d' hd.1 hnew.1 hversion]

/-- Two maps that hold the same records are the same. -/
theorem unique (h : Holds version seen m) (h' : Holds version seen m')
    (hc : Consistent version seen) : m = m' := by
  funext k
  ext d
  rw [h.eq_some_iff hc, h'.eq_some_iff hc]

end Holds

end Dsm.Lib.Versioned
