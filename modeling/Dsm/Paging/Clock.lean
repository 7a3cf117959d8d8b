import Dsm.Paging.Moves
import Mathlib.Data.Nat.Find
import Mathlib.Data.Nat.ModEq

/-!
# The clock

`evict_page` is the one loop of `dsm_paging.c` without a bound. It only runs when the free list is
empty, so every frame is occupied, and it turns over the frames from the hand on, clearing each
reference bit that is set, until it stands on one that is clear.

`DsmContext.passed` is the state after `j` turns in closed form, and `StopsAt` says after how many
turns the loop ends: at the first clear bit, or, when all bits are set, back where it started, where
the bit has been cleared meanwhile. `evictPage_eq` is the whole loop in one equation.
-/

namespace Dsm.Paging

open DsmContext Dsm.Lib

variable {ctx : DsmContext} {s : Pager} {held : Finset Nat}

theorem entryAt_of_lt {p : Nat} (h : p < ctx.numVirtualPages) :
    ctx.entryAt p = some (ctx.pageTable p) := if_pos h

theorem frameAt_of_lt {f : Nat} (h : f < ctx.numPages) :
    ctx.frameAt f = some (ctx.frameTable f) := if_pos h

theorem pushFreeFrame_of_held (h : RepInv held ctx) {f : Nat} (hf : f ∈ held) :
    ctx.pushFreeFrame f = some { ctx with freeList := f :: ctx.freeList } :=
  if_pos (h.room_of_held hf)

/-- With no frame free and none held, every frame holds a page. -/
theorem RepInv.holds_of_full (h : RepInv ∅ ctx) (hfl : ctx.freeList = []) {f : Nat}
    (hf : f < ctx.numPages) : ctx.Holds f (ctx.frameTable f).pageNumber := by
  refine ⟨hf, ?_, rfl⟩
  have hfree := h.free_iff f
  rw [hfl] at hfree
  simp only [Finset.notMem_empty, List.not_mem_nil, or_self, false_iff, not_and] at hfree
  simpa using hfree hf

theorem RepInv.page_lt (h : RepInv held ctx) {f q : Nat} (hq : ctx.Holds f q) :
    q < ctx.numVirtualPages := ((h.maps_iff q f).mpr hq).1

/-! ## Clock order -/

namespace DsmContext

/-- The frame `j` places after the hand. -/
def clockFrame (ctx : DsmContext) (j : Nat) : Nat := (ctx.clockHand + j) % ctx.numPages

/-- The page in that frame. -/
def clockPage (ctx : DsmContext) (j : Nat) : Nat := (ctx.frameTable (ctx.clockFrame j)).pageNumber

/-- The clock has passed `j` frames. -/
def passed (ctx : DsmContext) (j : Nat) : DsmContext :=
  { ctx with
    clockHand := ctx.clockFrame j
    pageTable := fun p =>
      { ctx.pageTable p with
        referenceBit := (ctx.pageTable p).referenceBit && decide (∀ i < j, ctx.clockPage i ≠ p) } }

/-- The clock stops `k` places after the hand: at the first frame whose page has its bit clear or,
when all bits are set, at the hand itself, after a full turn. -/
structure StopsAt (ctx : DsmContext) (k : Nat) : Prop where
  le : k ≤ ctx.numPages
  bit_set : ∀ j < k, (ctx.pageTable (ctx.clockPage j)).referenceBit = true
  bit_clear : k < ctx.numPages → (ctx.pageTable (ctx.clockPage k)).referenceBit = false

theorem clockFrame_inj {i j : Nat} (hi : i < ctx.numPages) (hj : j < ctx.numPages)
    (heq : ctx.clockFrame i = ctx.clockFrame j) : i = j := by
  have hmod : i ≡ j [MOD ctx.numPages] := Nat.ModEq.add_left_cancel' ctx.clockHand heq
  exact hmod.eq_of_lt_of_lt hi hj

theorem exists_stopsAt (ctx : DsmContext) : ∃ k, ctx.StopsAt k := by
  by_cases hclear : ∃ k, k < ctx.numPages ∧ (ctx.pageTable (ctx.clockPage k)).referenceBit = false
  · obtain ⟨hlt, hbit⟩ := Nat.find_spec hclear
    refine ⟨Nat.find hclear, hlt.le, fun j hj => ?_, fun _ => hbit⟩
    have hmin := Nat.find_min hclear hj
    rw [not_and, Bool.not_eq_false] at hmin
    exact hmin (hj.trans hlt)
  · refine ⟨ctx.numPages, le_rfl, fun j hj => ?_, fun h => absurd h (lt_irrefl _)⟩
    by_contra hbit
    exact hclear ⟨j, hj, by simpa using hbit⟩

end DsmContext

namespace RepInv

theorem clockFrame_lt (h : RepInv held ctx) (j : Nat) : ctx.clockFrame j < ctx.numPages :=
  Nat.mod_lt _ h.numPages_pos

theorem clockFrame_zero (h : RepInv held ctx) : ctx.clockFrame 0 = ctx.clockHand :=
  Nat.mod_eq_of_lt h.hand_lt

theorem holds_clockPage (h : RepInv ∅ ctx) (hfl : ctx.freeList = []) (j : Nat) :
    ctx.Holds (ctx.clockFrame j) (ctx.clockPage j) :=
  h.holds_of_full hfl (h.clockFrame_lt j)

/-- In one turn the clock meets every page once. -/
theorem clockPage_inj (h : RepInv ∅ ctx) (hfl : ctx.freeList = []) {i j : Nat}
    (hi : i < ctx.numPages) (hj : j < ctx.numPages) (heq : ctx.clockPage i = ctx.clockPage j) :
    i = j := by
  have hmi := (h.maps_iff _ _).mpr (h.holds_clockPage hfl i)
  have hmj := (h.maps_iff _ _).mpr (h.holds_clockPage hfl j)
  rw [heq] at hmi
  exact clockFrame_inj hi hj (hmi.frame_unique hmj)

theorem passed_zero (h : RepInv held ctx) : ctx.passed 0 = ctx := by
  simp [passed, h.clockFrame_zero]

theorem clockFrame_succ (h : RepInv held ctx) (j : Nat) :
    u32 (ctx.clockFrame j + 1) % ctx.numPages = ctx.clockFrame (j + 1) := by
  have h₁ := h.clockFrame_lt j
  have h₂ := h.numPages_lt
  rw [u32_of_lt (by omega), clockFrame, clockFrame, Nat.mod_add_mod, Nat.add_assoc]

/-- One more turn of the loop: the page at the hand loses its bit and the hand moves on. -/
theorem passed_succ (h : RepInv held ctx) (j : Nat) (store : Nat → Page) :
    (Move.sweep (ctx.clockPage j)).onContext (ctx.passed j) store = ctx.passed (j + 1) := by
  have htable : ∀ p, ((Move.sweep (ctx.clockPage j)).onContext (ctx.passed j) store).pageTable p =
      (ctx.passed (j + 1)).pageTable p := by
    intro p
    by_cases hp : p = ctx.clockPage j
    · subst hp
      have hmet : ¬ ∀ i < j + 1, ctx.clockPage i ≠ ctx.clockPage j :=
        fun hall => hall j (Nat.lt_succ_self j) rfl
      simp only [Move.onContext, advanceHand, setEntry, passed, Function.update_self,
        decide_eq_false hmet, Bool.and_false]
    · have hlast : (∀ i < j + 1, ctx.clockPage i ≠ p) ↔ ∀ i < j, ctx.clockPage i ≠ p := by
        rw [Nat.forall_lt_succ_right]
        exact and_iff_left fun heq => hp heq.symm
      simp only [Move.onContext, advanceHand, setEntry, passed, Function.update_of_ne hp, hlast]
  have htable' := funext htable
  simp only [Move.onContext, advanceHand, setEntry, passed] at htable' ⊢
  rw [htable', h.clockFrame_succ]

protected theorem passed (h : RepInv held ctx) (j : Nat) : RepInv held (ctx.passed j) :=
  h.congr (fun _ => rfl) (fun _ => rfl) rfl rfl rfl rfl (h.clockFrame_lt j)

/-- The clock meets cached pages only. -/
theorem passed_of_absent (h : RepInv ∅ ctx) (hfl : ctx.freeList = []) {p : Nat}
    (hp : (ctx.pageTable p).valid = false) (j : Nat) :
    (ctx.passed j).pageTable p = ctx.pageTable p := by
  have hmet : ∀ i < j, ctx.clockPage i ≠ p := by
    rintro i - rfl
    have hm := (h.maps_iff _ _).mpr (h.holds_clockPage hfl i)
    exact absurd hp hm.not_absent
  simp only [passed, decide_eq_true hmet, Bool.and_true]

/-- Within one turn the page at the hand still has the bit it started with. -/
theorem bit_passed (h : RepInv ∅ ctx) (hfl : ctx.freeList = []) {j : Nat} (hj : j < ctx.numPages) :
    ((ctx.passed j).pageTable (ctx.clockPage j)).referenceBit =
      (ctx.pageTable (ctx.clockPage j)).referenceBit := by
  have hnew : ∀ i < j, ctx.clockPage i ≠ ctx.clockPage j := by
    intro i hi heq
    have := h.clockPage_inj hfl (hi.trans hj) hj heq
    omega
  simp only [passed, decide_eq_true hnew, Bool.and_true]

/-- Where the clock stops it stands on a clear bit. -/
theorem bit_stopped (h : RepInv ∅ ctx) (hfl : ctx.freeList = []) {k : Nat} (hk : ctx.StopsAt k) :
    ((ctx.passed k).pageTable (ctx.clockPage k)).referenceBit = false := by
  rcases hk.le.lt_or_eq with hlt | rfl
  · rw [h.bit_passed hfl hlt]
    exact hk.bit_clear hlt
  · -- A full turn: the hand is back at the frame it passed first.
    have hback : ctx.clockPage 0 = ctx.clockPage ctx.numPages := by
      simp [clockPage, clockFrame]
    have hmet : ¬ ∀ i < ctx.numPages, ctx.clockPage i ≠ ctx.clockPage ctx.numPages :=
      fun hall => hall 0 h.numPages_pos hback
    simp [passed, hmet]

end RepInv

/-! ## The loop -/

theorem dropVictim_eq (h : RepInv ∅ ctx) {q f : Nat} (hq : ctx.Holds f q) (store : Nat → Page) :
    dropVictim ctx q f = some (f, (Move.evict q f).onContext ctx store) := by
  have hroom := (h.unmap hq).room_of_held (f := f) (Finset.mem_insert_self f ∅)
  -- The push finds the array as the eviction left it, so the pop returns the victim itself.
  have hpush : ((Move.evict q f).onContext ctx store).pushFreeFrame f =
      some { (Move.evict q f).onContext ctx store with freeList := f :: ctx.freeList } :=
    if_pos hroom
  unfold dropVictim
  rw [entryAt_of_lt (h.page_lt hq), frameAt_of_lt hq.1]
  show (do let c ← ((Move.evict q f).onContext ctx store).pushFreeFrame f; pure c.getFreeFrame) = _
  rw [hpush]
  rfl

/-- What becomes of the page the clock stands on: it goes, or its writeback fails. -/
def victimMove (ctx : DsmContext) (q : Nat) : PutOutcome → Move
  | .ok => .evict q ctx.clockHand
  | .failed applied =>
      if ctx.NeedsWriteback q then .putFailed q ctx.clockHand applied else .evict q ctx.clockHand

theorem victimMove_failed {q : Nat} (hwb : ctx.NeedsWriteback q) (applied : Bool) :
    victimMove ctx q (.failed applied) = .putFailed q ctx.clockHand applied := if_pos hwb

theorem victimMove_evict {q : Nat} {out : PutOutcome} (h : ¬ (ctx.NeedsWriteback q ∧ out ≠ .ok)) :
    victimMove ctx q out = .evict q ctx.clockHand := by
  cases out with
  | ok => rfl
  | failed applied => exact if_neg fun hwb => h ⟨hwb, by simp⟩

theorem victimMove_cases (ctx : DsmContext) (q : Nat) (out : PutOutcome) :
    (∃ applied, ctx.NeedsWriteback q ∧
      victimMove ctx q out = .putFailed q ctx.clockHand applied) ∨
    victimMove ctx q out = .evict q ctx.clockHand := by
  by_cases hfail : ctx.NeedsWriteback q ∧ out ≠ .ok
  · obtain ⟨hwb, hout⟩ := hfail
    cases out with
    | ok => exact absurd rfl hout
    | failed applied => exact .inl ⟨applied, hwb, victimMove_failed hwb applied⟩
  · exact .inr (victimMove_evict hfail)

/-- The end of the loop clears no reference bit. -/
theorem referenceBit_victimMove (w : Work) (q p : Nat) (out : PutOutcome) :
    (((victimMove w.pager.ctx q out).apply w).pager.ctx.pageTable p).referenceBit =
      (w.pager.ctx.pageTable p).referenceBit := by
  rcases victimMove_cases w.pager.ctx q out with ⟨applied, -, heq⟩ | heq
  · rw [heq]
    rfl
  · rw [heq]
    by_cases hp : p = q
    · subst hp
      simp [Move.apply, Move.onContext, unmapPage, advanceHand, setFrame, setEntry]
    · simp [Move.apply, Move.onContext, unmapPage, advanceHand, setFrame, setEntry, hp]

theorem evictVictim_eq (h : RepInv ∅ s.ctx) {q : Nat} (hq : s.ctx.Holds s.ctx.clockHand q)
    (out : PutOutcome) :
    evictVictim s q (s.ctx.pageTable q) out =
      some (if s.ctx.NeedsWriteback q ∧ out ≠ .ok then dsmNoFrame else s.ctx.clockHand,
        ((victimMove s.ctx q out).apply ⟨∅, s⟩).pager) := by
  have hdrop := dropVictim_eq h hq s.remote.store
  by_cases hwb : s.ctx.NeedsWriteback q
  · have hcond : (s.ctx.pageTable q).dirty ≠ 0 ∧ (s.ctx.pageTable q).location = .locRemote := hwb
    cases out with
    | ok =>
        simp [evictVictim, if_pos hcond, Remote.dsmRpcPut, hdrop, victimMove, Move.apply,
          Move.onRemote, hwb]
    | failed applied =>
        simp [evictVictim, if_pos hcond, Remote.dsmRpcPut, victimMove, Move.apply, Move.onRemote,
          Move.onContext, hwb]
  · have hcond : ¬ ((s.ctx.pageTable q).dirty ≠ 0 ∧ (s.ctx.pageTable q).location = .locRemote) :=
      hwb
    cases out <;>
      simp [evictVictim, if_neg hcond, hdrop, victimMove, Move.apply, Move.onRemote, hwb]

theorem evictPage_victim (h : RepInv ∅ s.ctx) {q : Nat} (hq : s.ctx.Holds s.ctx.clockHand q)
    (hbit : (s.ctx.pageTable q).referenceBit = false) (fuel : Nat) (out : PutOutcome) :
    evictPage (fuel + 1) s out = evictVictim s q (s.ctx.pageTable q) out := by
  obtain ⟨hlt, hocc, rfl⟩ := hq
  have hp := h.page_lt ⟨hlt, hocc, rfl⟩
  simp [evictPage, frameAt_of_lt hlt, hocc, entryAt_of_lt hp, hbit]

theorem evictPage_sweep (h : RepInv ∅ s.ctx) {q : Nat} (hq : s.ctx.Holds s.ctx.clockHand q)
    (hbit : (s.ctx.pageTable q).referenceBit = true) (fuel : Nat) (out : PutOutcome) :
    evictPage (fuel + 1) s out = evictPage fuel ((Move.sweep q).apply ⟨∅, s⟩).pager out := by
  obtain ⟨hlt, hocc, rfl⟩ := hq
  have hp := h.page_lt ⟨hlt, hocc, rfl⟩
  simp [evictPage, frameAt_of_lt hlt, hocc, entryAt_of_lt hp, hbit, Move.apply, Move.onContext,
    Move.onRemote]

/-- The pages the clock has passed after `j` turns, in the order it met them. -/
def DsmContext.passedPages (ctx : DsmContext) (j : Nat) : List Nat := (List.range j).map ctx.clockPage

/-- **The loop goes round** as long as it meets set bits: `j` turns bring it to `passed j`. -/
theorem evictPage_passed (h : RepInv ∅ s.ctx) (hfl : s.ctx.freeList = []) (out : PutOutcome)
    {j : Nat} (hj : j ≤ s.ctx.numPages)
    (hset : ∀ i < j, (s.ctx.pageTable (s.ctx.clockPage i)).referenceBit = true) :
    (∀ fuel, evictPage (fuel + j) s out = evictPage fuel ⟨s.ctx.passed j, s.remote⟩ out) ∧
    Moves ⟨∅, s⟩ ((s.ctx.passedPages j).map .sweep) ⟨∅, s.ctx.passed j, s.remote⟩ := by
  induction j with
  | zero =>
      rw [h.passed_zero]
      exact ⟨fun _ => rfl, Run.nil _⟩
  | succ j ih =>
      obtain ⟨hloop, hrun⟩ := ih (by omega) fun i hi => hset i (by omega)
      have hq : (s.ctx.passed j).Holds (s.ctx.passed j).clockHand (s.ctx.clockPage j) :=
        h.holds_clockPage hfl j
      have hbit : ((s.ctx.passed j).pageTable (s.ctx.clockPage j)).referenceBit = true := by
        rw [h.bit_passed hfl hj]
        exact hset j (Nat.lt_succ_self j)
      have hnext : (Move.sweep (s.ctx.clockPage j)).apply ⟨∅, s.ctx.passed j, s.remote⟩ =
          ⟨∅, s.ctx.passed (j + 1), s.remote⟩ := by
        rw [← h.passed_succ j s.remote.store]
        rfl
      refine ⟨fun fuel => ?_, ?_⟩
      · rw [← Nat.add_assoc, Nat.add_right_comm, hloop,
          evictPage_sweep (s := ⟨s.ctx.passed j, s.remote⟩) (h.passed j) hq hbit, hnext]
      · rw [passedPages, List.range_succ, List.map_append, List.map_append]
        exact hrun.snoc ⟨⟨hq, hbit⟩, hnext.symm⟩

/-- The move that ends the loop can happen where the clock stops. -/
theorem victimMove_enabled (h : RepInv ∅ s.ctx) (hfl : s.ctx.freeList = []) {k : Nat}
    (hk : s.ctx.StopsAt k) (out : PutOutcome) :
    (victimMove (s.ctx.passed k) (s.ctx.clockPage k) out).Enabled
      ⟨∅, s.ctx.passed k, s.remote⟩ := by
  have hq : (s.ctx.passed k).Holds (s.ctx.passed k).clockHand (s.ctx.clockPage k) :=
    h.holds_clockPage hfl k
  have hbit := h.bit_stopped hfl hk
  rcases victimMove_cases (s.ctx.passed k) (s.ctx.clockPage k) out with ⟨applied, hwb, heq⟩ | heq
  · rw [heq]
    exact ⟨rfl, hq, hbit, hwb⟩
  · rw [heq]
    exact ⟨rfl, hq, hbit⟩

/-- **`evict_page` in one equation**: it examines `k + 1` frames, where `k` is where the clock
stops. -/
theorem evictPage_eq (h : RepInv ∅ s.ctx) (hfl : s.ctx.freeList = []) {k : Nat}
    (hk : s.ctx.StopsAt k) (out : PutOutcome) (fuel : Nat) :
    evictPage fuel s out = if k < fuel then
      some (if s.ctx.NeedsWriteback (s.ctx.clockPage k) ∧ out ≠ .ok then dsmNoFrame
          else s.ctx.clockFrame k,
        ((victimMove (s.ctx.passed k) (s.ctx.clockPage k) out).apply
          ⟨∅, s.ctx.passed k, s.remote⟩).pager)
      else none := by
  by_cases hfuel : k < fuel
  · obtain ⟨extra, rfl⟩ : ∃ extra, fuel = extra + 1 + k := ⟨fuel - k - 1, by omega⟩
    have hq : (s.ctx.passed k).Holds (s.ctx.passed k).clockHand (s.ctx.clockPage k) :=
      h.holds_clockPage hfl k
    rw [if_pos hfuel, (evictPage_passed h hfl out hk.le hk.bit_set).1,
      evictPage_victim (s := ⟨s.ctx.passed k, s.remote⟩) (h.passed k) hq (h.bit_stopped hfl hk),
      evictVictim_eq (s := ⟨s.ctx.passed k, s.remote⟩) (h.passed k) hq]
    rfl
  · have hle : fuel ≤ k := Nat.le_of_not_lt hfuel
    have hloop := (evictPage_passed h hfl out (hle.trans hk.le)
      fun i hi => hk.bit_set i (hi.trans_le hle)).1 0
    rw [if_neg hfuel, ← Nat.zero_add fuel, hloop]
    rfl

end Dsm.Paging
