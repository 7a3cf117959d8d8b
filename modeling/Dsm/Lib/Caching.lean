import Mathlib.Data.Finset.Card
import Mathlib.Data.List.Induction
import Mathlib.Tactic.Ring

/-!
# Caches of bounded size and their faults

Requests for pages of type `α` are served by a cache of `k` pages. `Serves` is what any policy can do,
with or without knowledge of the future: a page that is requested is in the cache afterwards, only
requested pages enter it, and dropping pages is free.

A policy is conservative if it faults at most `k` times in any stretch of requests for at most `k`
distinct pages. Such a policy faults at most `k` times as often as any other way of serving the same
requests (`competitive`): a stretch that goes on until one more page is requested costs everybody a
fault.
-/

namespace Dsm.Lib

variable {α : Type*} [DecidableEq α] {k : Nat}

/-- A cache that starts with `cache` can serve the requests with this many faults. -/
inductive Serves (k : Nat) : Finset α → List α → Nat → Prop
  | nil (cache : Finset α) : Serves k cache [] 0
  | hit {cache cache' : Finset α} {r : α} {rs : List α} {faults : Nat} : r ∈ cache → r ∈ cache' →
      cache' ⊆ cache → Serves k cache' rs faults → Serves k cache (r :: rs) faults
  | fault {cache cache' : Finset α} {r : α} {rs : List α} {faults : Nat} : r ∉ cache → r ∈ cache' →
      cache' ⊆ insert r cache → cache'.card ≤ k → Serves k cache' rs faults →
      Serves k cache (r :: rs) (faults + 1)

/-- Every page that is requested and not there at first costs a fault. -/
theorem Serves.absent_le {cache : Finset α} {rs : List α} {faults : Nat}
    (h : Serves k cache rs faults) : (rs.toFinset \ cache).card ≤ faults := by
  induction h with
  | nil cache => simp
  | @hit cache cache' r rs faults hr _ hsub _ ih =>
      refine le_trans (Finset.card_le_card fun p hp => ?_) ih
      rw [List.toFinset_cons, Finset.mem_sdiff, Finset.mem_insert] at hp
      obtain ⟨rfl | hp, hnot⟩ := hp
      · exact absurd hr hnot
      · exact Finset.mem_sdiff.mpr ⟨hp, fun hc => hnot (hsub hc)⟩
  | @fault cache cache' r rs faults _ _ hsub _ _ ih =>
      have hle : ((r :: rs).toFinset \ cache).card ≤ (insert r (rs.toFinset \ cache')).card := by
        refine Finset.card_le_card fun p hp => ?_
        rw [List.toFinset_cons, Finset.mem_sdiff, Finset.mem_insert] at hp
        obtain ⟨hp, hnot⟩ := hp
        rw [Finset.mem_insert, Finset.mem_sdiff]
        by_cases hpr : p = r
        · exact .inl hpr
        · refine .inr ⟨hp.resolve_left hpr, fun hc => hnot ?_⟩
          exact (Finset.mem_insert.mp (hsub hc)).resolve_left hpr
      calc ((r :: rs).toFinset \ cache).card
          ≤ (insert r (rs.toFinset \ cache')).card := hle
        _ ≤ (rs.toFinset \ cache').card + 1 := Finset.card_insert_le _ _
        _ ≤ faults + 1 := Nat.add_le_add_right ih 1

/-- The first part of the requests, and the rest with the cache that is left. -/
theorem Serves.split {cache : Finset α} {as : List α} {r : α} {bs : List α} {faults : Nat}
    (h : Serves k cache (as ++ r :: bs) faults) (hcard : cache.card ≤ k) :
    ∃ cache' before after, Serves k cache (as ++ [r]) before ∧ Serves k cache' bs after ∧
      r ∈ cache' ∧ cache'.card ≤ k ∧ faults = before + after := by
  induction as generalizing cache faults with
  | nil =>
      cases h with
      | @hit _ cache' _ _ _ hr hr' hsub hrest =>
          exact ⟨cache', 0, faults, .hit hr hr' hsub (.nil _), hrest, hr',
            (Finset.card_le_card hsub).trans hcard, (Nat.zero_add _).symm⟩
      | @fault _ cache' _ _ faults hr hr' hsub hcard' hrest =>
          exact ⟨cache', 1, faults, .fault hr hr' hsub hcard' (.nil _), hrest, hr', hcard',
            Nat.add_comm _ _⟩
  | cons a as ih =>
      cases h with
      | @hit _ cache' _ _ _ hr hr' hsub hrest =>
          obtain ⟨c, before, after, h₁, h₂, hc, hcc, rfl⟩ :=
            ih hrest ((Finset.card_le_card hsub).trans hcard)
          exact ⟨c, before, after, .hit hr hr' hsub h₁, h₂, hc, hcc, rfl⟩
      | @fault _ cache' _ _ faults hr hr' hsub hcard' hrest =>
          obtain ⟨c, before, after, h₁, h₂, hc, hcc, rfl⟩ := ih hrest hcard'
          exact ⟨c, before + 1, after, .fault hr hr' hsub hcard' h₁, h₂, hc, hcc, by omega⟩

/-- **A stretch that outgrows the cache costs a fault.** The page `r` is there; of `r`, the requests
`as` and one more there are more than `k`. -/
theorem Serves.fault_of_many {cache : Finset α} {r : α} {as : List α} {faults : Nat}
    (h : Serves k cache as faults) (hr : r ∈ cache) (hcard : cache.card ≤ k)
    (hmany : k < (r :: as).toFinset.card) : 1 ≤ faults := by
  have hsome : ∃ p ∈ (r :: as).toFinset, p ∉ cache := by
    by_contra hall
    have hsub : (r :: as).toFinset ⊆ cache := fun p hp => by
      by_contra hnot
      exact hall ⟨p, hp, hnot⟩
    have := Finset.card_le_card hsub
    omega
  obtain ⟨p, hp, hnot⟩ := hsome
  have hpr : p ≠ r := fun heq => hnot (heq ▸ hr)
  rw [List.toFinset_cons, Finset.mem_insert] at hp
  have hmem : p ∈ as.toFinset \ cache := Finset.mem_sdiff.mpr ⟨hp.resolve_left hpr, hnot⟩
  exact le_trans (Finset.card_pos.mpr ⟨p, hmem⟩) h.absent_le

/-! ## Conservative policies -/

/-- The requests of a policy, each with whether it was a fault. -/
abbrev Served (α : Type*) := List (α × Bool)

def Served.pages (rs : Served α) : Finset α := (rs.map Prod.fst).toFinset

def Served.faults (rs : Served α) : Nat := rs.countP Prod.snd

/-- The pages of the faults. -/
def Served.missed (rs : Served α) : List α := (rs.filter Prod.snd).map Prod.fst

omit [DecidableEq α] in
theorem Served.missed_append (rs rs' : Served α) : Served.missed (rs ++ rs') =
    Served.missed rs ++ Served.missed rs' := by
  simp [Served.missed]

omit [DecidableEq α] in
theorem Served.length_missed (rs : Served α) : (Served.missed rs).length = Served.faults rs := by
  rw [Served.missed, List.length_map, Served.faults, List.countP_eq_length_filter]

theorem Served.pages_append (rs rs' : Served α) : Served.pages (rs ++ rs') =
    Served.pages rs ∪ Served.pages rs' := by
  rw [Served.pages, List.map_append, List.toFinset_append]
  rfl

omit [DecidableEq α] in
theorem Served.faults_append (rs rs' : Served α) : Served.faults (rs ++ rs') =
    Served.faults rs + Served.faults rs' := List.countP_append

def Conservative (k : Nat) (rs : Served α) : Prop :=
  ∀ stretch, stretch <:+: rs → (Served.pages stretch).card ≤ k → Served.faults stretch ≤ k

theorem Conservative.within {rs rs' : Served α} (h : Conservative k rs) (hsub : rs' <:+: rs) :
    Conservative k rs' := fun stretch hstretch => h stretch (hstretch.trans hsub)

/-- The longest first stretch of at most `k` pages: all the requests, or it ends before a request
that would be one page too many. -/
theorem exists_stretch (k : Nat) (rs : Served α) : (Served.pages rs).card ≤ k ∨
    ∃ stretch r rest, rs = stretch ++ r :: rest ∧ (Served.pages stretch).card ≤ k ∧
      k < (Served.pages (stretch ++ [r])).card := by
  induction rs using List.reverseRecOn with
  | nil => exact .inl (Nat.zero_le k)
  | append_singleton rs r ih =>
      rcases ih with hall | ⟨stretch, r', rest, rfl, hle, hlt⟩
      · by_cases hmore : (Served.pages (rs ++ [r])).card ≤ k
        · exact .inl hmore
        · exact .inr ⟨rs, r, [], rfl, hall, Nat.lt_of_not_le hmore⟩
      · exact .inr ⟨stretch, r', rest ++ [r], by simp, hle, hlt⟩

/-- From the first request of a stretch on, with that page in the other cache. -/
theorem Conservative.faults_le_of_mem {r : α × Bool} {rs : Served α} (hk : 1 ≤ k)
    (h : Conservative k (r :: rs)) {cache : Finset α} (hr : r.1 ∈ cache) (hcard : cache.card ≤ k)
    {faults : Nat} (hserves : Serves k cache (rs.map Prod.fst) faults) :
    Served.faults (r :: rs) ≤ k * (1 + faults) := by
  induction hn : rs.length using Nat.strong_induction_on generalizing r rs cache faults with
  | _ n ih =>
      rcases exists_stretch k (r :: rs) with hall | ⟨stretch, r', rest, heq, hle, hlt⟩
      · exact (h (r :: rs) List.infix_rfl hall).trans (Nat.le_mul_of_pos_right k (by omega))
      · -- The stretch is not empty, since one page is not too many.
        cases stretch with
        | nil =>
            have hone : (Served.pages [r']).card = 1 := rfl
            rw [List.nil_append, hone] at hlt
            omega
        | cons a stretch =>
            rw [List.cons_append, List.cons_eq_cons] at heq
            obtain ⟨rfl, rfl⟩ := heq
            rw [List.map_append, List.map_cons] at hserves
            obtain ⟨cache', before, after, hbefore, hafter, hr', hcard', rfl⟩ :=
              hserves.split hcard
            have hone : 1 ≤ before := by
              refine hbefore.fault_of_many hr hcard ?_
              simpa [Served.pages] using hlt
            have hfirst := h (r :: stretch) ⟨[], r' :: rest, by simp⟩ hle
            have hrest := ih rest.length (by simp [← hn]; omega)
              (h.within ⟨r :: stretch, [], by simp⟩) hr' hcard' hafter rfl
            calc Served.faults (r :: stretch ++ r' :: rest)
                = Served.faults (r :: stretch) + Served.faults (r' :: rest) :=
                  Served.faults_append _ _
              _ ≤ k + k * (1 + after) := Nat.add_le_add hfirst hrest
              _ = k * (1 + (1 + after)) := by ring
              _ ≤ k * (1 + (before + after)) := Nat.mul_le_mul_left k (by omega)

/-- **A conservative policy is competitive**: from an empty cache it faults at most `k` times as often
as any other way of serving the same requests. -/
theorem Conservative.competitive {rs : Served α} (hk : 1 ≤ k) (h : Conservative k rs) {faults : Nat}
    (hserves : Serves k ∅ (rs.map Prod.fst) faults) : Served.faults rs ≤ k * faults := by
  cases rs with
  | nil => exact Nat.zero_le _
  | cons r rs =>
      cases hserves with
      | hit hr => exact absurd hr (Finset.notMem_empty _)
      | @fault _ cache' _ _ faults _ hr' _ hcard hrest =>
          rw [Nat.add_comm]
          exact h.faults_le_of_mem hk hr' hcard hrest

end Dsm.Lib
