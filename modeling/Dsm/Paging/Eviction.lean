import Dsm.Paging.Transparency

/-!
# Giving a page up

What the clock does in any reachable state (`clock_eviction`), and what an access does to the pages
it was not asked for: each stays as it was, except the one the clock may have given up to make room
(`Accessed.kept_or_givenUp`). The latter is the residue of an access that fails halfway
(`failed_access_loses_nothing`).
-/

namespace Dsm.Paging

open DsmContext Dsm.Lib

variable {s s' : Pager} {numPages numVirtualPages : Nat}

/-! ## The clock in any reachable state -/

/-- **Clock eviction.** With every frame taken, `evict_page` examines `k + 1` frames, at most one more
than there are, where `k` is the place of the first clear reference bit in clock order, or a full
turn if all bits are set. It clears the bits of the pages it has passed and no others. If it does not
fail, the victim's page is invalid and clean, it was sent to the server exactly if it was dirty and
remote, the hand stands just after the victim, and the victim is the frame returned. -/
theorem clock_eviction (hs : s.Reachable numPages numVirtualPages) (hfull : s.ctx.freeList = [])
    (out : PutOutcome) :
    ∃ k r s', s.ctx.StopsAt k ∧ k ≤ numPages ∧ (k = numPages → s.ctx.clockFrame k = s.ctx.clockHand) ∧
      (∀ fuel, evictPage fuel s out = if k < fuel then some (r, s') else none) ∧
      (∀ p, (s'.ctx.pageTable p).referenceBit =
        ((s.ctx.pageTable p).referenceBit && decide (∀ j < k, s.ctx.clockPage j ≠ p))) ∧
      (r = dsmNoFrame ↔ s.ctx.NeedsWriteback (s.ctx.clockPage k) ∧ out ≠ .ok) ∧
      (r ≠ dsmNoFrame →
        r = s.ctx.clockFrame k ∧
        (s'.ctx.pageTable (s.ctx.clockPage k)).valid = false ∧
        (s'.ctx.pageTable (s.ctx.clockPage k)).dirty = 0 ∧
        s'.remote = (if s.ctx.NeedsWriteback (s.ctx.clockPage k) then
          (s.remote.dsmRpcPut (s.ctx.clockPage k) (s.ctx.localMemory (s.ctx.clockFrame k)) .ok).2
          else s.remote) ∧
        s'.ctx.clockHand = (s.ctx.clockFrame k + 1) % numPages ∧
        s'.ctx.freeList = []) := by
  obtain ⟨calls, hcalls⟩ := hs
  obtain ⟨h, rfl, -⟩ := hcalls.rep
  obtain ⟨k, hk⟩ := s.ctx.exists_stopsAt
  have hlt := h.clockFrame_lt k
  refine ⟨k, _, _, hk, hk.le, ?_, fun fuel => evictPage_eq h hfull hk out fuel,
    fun p => referenceBit_victimMove ⟨∅, s.ctx.passed k, s.remote⟩ _ p out, ?_, ?_⟩
  · rintro rfl
    rw [clockFrame, Nat.add_mod_right]
    exact h.clockFrame_zero
  · by_cases hfail : s.ctx.NeedsWriteback (s.ctx.clockPage k) ∧ out ≠ .ok
    · rw [if_pos hfail]
      exact ⟨fun _ => hfail, fun _ => rfl⟩
    · rw [if_neg hfail]
      exact ⟨fun heq => absurd heq (h.ne_noFrame hlt), fun hc => absurd hc hfail⟩
  · intro hr
    have hfail : ¬ ((s.ctx.passed k).NeedsWriteback (s.ctx.clockPage k) ∧ out ≠ .ok) :=
      fun hfail => hr (if_pos hfail)
    rw [victimMove_evict hfail, if_neg (show ¬ (s.ctx.NeedsWriteback _ ∧ _) from hfail)]
    refine ⟨rfl, ?_, ?_, rfl, ?_, hfull⟩
    · simp [Move.apply, Move.onContext, unmapPage, advanceHand, setFrame, setEntry]
    · simp [Move.apply, Move.onContext, unmapPage, advanceHand, setFrame, setEntry]
    · have hn := h.numPages_lt
      show u32 (s.ctx.clockFrame k + 1) % s.ctx.numPages = _
      rw [u32_of_lt (by omega)]

/-- Two frames, three pages: both bits are set, so the clock turns once and takes frame `0`. -/
theorem clock_eviction_full_turn : ∃ s k r s', s.Reachable 2 3 ∧ s.ctx.freeList = [] ∧
    s.ctx.StopsAt k ∧ (∀ fuel, evictPage fuel s .ok = if k < fuel then some (r, s') else none) ∧
    k = 2 := by
  have hreach : ∃ s : Pager, s.Reachable 2 3 ∧ s.ctx.freeList = [] ∧
      (s.ctx.pageTable (s.ctx.clockPage 0)).referenceBit = true ∧
      (s.ctx.pageTable (s.ctx.clockPage 1)).referenceBit = true :=
    ⟨_, ⟨[.setSocket 3, .access 0 1 id ⟨.ok, .ok, true⟩, .access 1 0 id ⟨.ok, .ok, true⟩],
      by decide, by decide, by decide, by simp [Call.InRange], ⟨fun _ => zeroPage, []⟩, _, rfl⟩,
      rfl, rfl, rfl⟩
  obtain ⟨s, hs, hfull, h₀, h₁⟩ := hreach
  obtain ⟨k, r, s', hk, hle, -, heq, -⟩ := clock_eviction hs hfull .ok
  refine ⟨s, k, r, s', hs, hfull, hk, heq, ?_⟩
  obtain ⟨calls, hcalls⟩ := hs
  obtain ⟨-, hn, -⟩ := hcalls.rep
  have hstop : ∀ j < 2, (s.ctx.pageTable (s.ctx.clockPage j)).referenceBit = true := by
    intro j hj
    obtain rfl | rfl : j = 0 ∨ j = 1 := by omega
    · exact h₀
    · exact h₁
  by_contra hne
  have hclear := hk.bit_clear (by omega)
  rw [hstop k (by omega)] at hclear
  cases hclear

/-! ## What an access does to the other pages -/

/-- A prefetch with no free frame collects nothing. -/
theorem prefetchMoves_full {w w' : Work} {batch : List (Nat × Nat)} {ok : Bool}
    (hrun : Moves w (prefetchMoves batch ok) w') (hfl : w.pager.ctx.freeList = []) : batch = [] := by
  cases batch with
  | nil => rfl
  | cons x batch =>
      obtain - | ⟨⟨hen, -⟩, -⟩ := hrun
      rw [Move.Enabled, hfl] at hen
      cases hen

/-- With every frame taken, the access installs its page and nothing else. -/
theorem FrameMoves.of_full {ctx : DsmContext} {p f : Nat} {write : Int32} {rpc : RpcScript}
    {r : Option Nat} {ms : List Move} (hms : FrameMoves ctx p f write rpc r ms)
    (hrun : Moves ⟨{f}, s⟩ ms ⟨∅, s'⟩) (hfl : s.ctx.freeList = []) :
    (∃ left, r = none ∧ ms = [.fetchFailed p f left, .give f]) ∨
      r = some f ∧ (ms = [.fetch p f write, .remember p] ∨ ms = [.mapLocal p f write, .remember p]) := by
  -- What follows the installation finds the free list as empty as before.
  have notrail : ∀ {m : Move} {trail : List Move}, (m.apply ⟨{f}, s⟩).pager.ctx.freeList = [] →
      Trailing ctx.lastPageId p rpc.batch trail →
      Moves ⟨{f}, s⟩ (m :: (trail ++ [.remember p])) ⟨∅, s'⟩ → trail = [] := by
    intro m trail hfl' htrail hrun'
    obtain - | ⟨⟨-, rfl⟩, hrest⟩ := hrun'
    obtain ⟨w, htr, -⟩ := hrest.split
    unfold Trailing at htrail
    split at htrail
    · obtain ⟨batch, rfl⟩ := htrail
      rw [prefetchMoves_full htr hfl']
      rfl
    · exact htrail
  cases hms with
  | fetchFailed left _ => exact .inl ⟨left, rfl, rfl⟩
  | fetched trail _ _ htrail =>
      rw [notrail (m := .fetch p f write) hfl htrail hrun]
      exact .inr ⟨rfl, .inl rfl⟩
  | served trail _ htrail =>
      rw [notrail (m := .mapLocal p f write) hfl htrail hrun]
      exact .inr ⟨rfl, .inr rfl⟩

/-- The moves by which a frame is filled, and others are prefetched into. -/
def Move.IsFilling : Move → Prop
  | .sweep _ | .evict _ _ | .putFailed _ _ _ | .hit _ _ => False
  | _ => True

theorem Move.IsFilling.spares {m : Move} (h : m.IsFilling) (q : Nat) : m.Spares q := by
  cases m <;> trivial

/-- The moves that follow the acquisition of a frame fill it. -/
theorem FrameMoves.filling {ctx : DsmContext} {p f : Nat} {write : Int32} {rpc : RpcScript}
    {r : Option Nat} {ms : List Move} (hms : FrameMoves ctx p f write rpc r ms) :
    ∀ m ∈ ms, m.IsFilling := by
  have htrails : ∀ {trail : List Move}, Trailing ctx.lastPageId p rpc.batch trail →
      ∀ m ∈ trail ++ [.remember p], m.IsFilling := by
    intro trail htrail m hm
    rcases List.mem_append.mp hm with hm | hm
    · have := isPrefetching_of_trailing htrail m hm
      cases m <;> trivial
    · rw [List.mem_singleton.mp hm]
      trivial
  cases hms with
  | fetchFailed left _ => simp [Move.IsFilling]
  | fetched trail _ _ htrail => exact List.forall_mem_cons.mpr ⟨trivial, htrails htrail⟩
  | served trail _ htrail => exact List.forall_mem_cons.mpr ⟨trivial, htrails htrail⟩

theorem FrameMoves.spares {ctx : DsmContext} {p f : Nat} {write : Int32} {rpc : RpcScript}
    {r : Option Nat} {ms : List Move} (hms : FrameMoves ctx p f write rpc r ms) (q : Nat) :
    ∀ m ∈ ms, m.Spares q := fun m hm => (hms.filling m hm).spares q

def RpcEvent.isPut : RpcEvent → Bool
  | .put _ _ _ => true
  | _ => false

/-- The rest of an access to page `p` that found every frame taken and has got frame `f`: no other
entry is written, the hand stays, no PUT is sent, and `f` is free again if the access fails. -/
structure Filled (p f : Nat) (r : Option Nat) (s s' : Pager) : Prop where
  entry : ∀ q ≠ p, s'.ctx.pageTable q = s.ctx.pageTable q
  hand : s'.ctx.clockHand = s.ctx.clockHand
  free : s'.ctx.freeList = if r = none then [f] else []
  store : s'.remote.store = s.remote.store
  log : ∃ later : List RpcEvent, (∀ e ∈ later, e.isPut = false) ∧
    s'.remote.log = later ++ s.remote.log

theorem FrameMoves.filled {ctx : DsmContext} {p f : Nat} {write : Int32} {rpc : RpcScript}
    {r : Option Nat} {ms : List Move} (hms : FrameMoves ctx p f write rpc r ms)
    (hrun : Moves ⟨{f}, s⟩ ms ⟨∅, s'⟩) (hfl : s.ctx.freeList = []) : Filled p f r s s' := by
  have hother : ∀ {m : Move}, m.page? = some p → ∀ q ≠ p,
      (m.onContext s.ctx s.remote.store).pageTable q = s.ctx.pageTable q := by
    intro m hm q hq
    refine Move.pageTable_of_ne _ _ ?_
    rw [hm]
    exact fun heq => hq (Option.some.inj heq).symm
  rcases hms.of_full hrun hfl with ⟨left, rfl, rfl⟩ | ⟨rfl, rfl | rfl⟩ <;>
    obtain - | ⟨⟨-, rfl⟩, - | ⟨⟨-, hs'⟩, hnil⟩⟩ := hrun <;> cases hnil <;>
    obtain rfl := congrArg Work.pager hs'
  · exact ⟨fun _ _ => rfl, rfl, congrArg (f :: ·) hfl, rfl, [.get p false],
      by simp [RpcEvent.isPut], rfl⟩
  · exact ⟨hother (m := .fetch p f write) rfl, rfl, hfl, rfl, [.get p true],
      by simp [RpcEvent.isPut], rfl⟩
  · exact ⟨hother (m := .mapLocal p f write) rfl, rfl, hfl, rfl, [], by simp, rfl⟩

/-- An access has given up page `q`, which was in frame `f`: the page is absent, and it was put on the
server, before anything else was asked of it, exactly if it was dirty and remote. -/
structure GivenUp (q f : Nat) (s s' : Pager) : Prop where
  absent : (s'.ctx.pageTable q).valid = false
  store : s'.remote.store q =
    if s.ctx.NeedsWriteback q then s.ctx.localMemory f else s.remote.store q
  log : ∃ later : List RpcEvent, (∀ e ∈ later, e.isPut = false) ∧ s'.remote.log = later ++
    if s.ctx.NeedsWriteback q then .put q (s.ctx.localMemory f) true :: s.remote.log
    else s.remote.log

/-- The server after the eviction of the page `k` places after the hand. -/
theorem evictedAt_remote (s : Pager) (k : Nat) : (s.evictedAt k).remote =
    if s.ctx.NeedsWriteback (s.ctx.clockPage k) then
      (s.remote.dsmRpcPut (s.ctx.clockPage k) (s.ctx.localMemory (s.ctx.clockFrame k)) .ok).2
    else s.remote := rfl

/-- The victim of the clock, at the end of the access that needed its frame. -/
theorem evicted_givenUp {p : Nat} {write : Int32} {rpc : RpcScript} {r : Option Nat}
    {ms : List Move} {k : Nat} (hv : p ≠ s.ctx.clockPage k) (hfl : s.ctx.freeList = [])
    (hrun : Moves ⟨{s.ctx.clockFrame k}, s.evictedAt k⟩ ms ⟨∅, s'⟩)
    (hms : FrameMoves s.ctx p (s.ctx.clockFrame k) write rpc r ms) :
    GivenUp (s.ctx.clockPage k) (s.ctx.clockFrame k) s s' ∧
      (r = none → s.ctx.clockFrame k ∈ s'.ctx.freeList) := by
  obtain ⟨hentry, -, hfree, hstore, later, hlater, hlog⟩ := hms.filled hrun hfl
  rw [evictedAt_remote] at hstore hlog
  refine ⟨⟨?_, ?_, later, hlater, ?_⟩, fun hnone => ?_⟩
  · rw [hentry _ (Ne.symm hv)]
    simp [Pager.evictedAt, Move.apply, Move.onContext, unmapPage, advanceHand, setFrame, setEntry]
  · rw [hstore]
    split <;> simp [Remote.dsmRpcPut]
  · rw [hlog]
    split <;> simp [Remote.dsmRpcPut]
  · rw [hfree, if_pos hnone]
    exact List.mem_cons_self

/-- **What an access does to the other pages**: at most one is given up, all others are kept. -/
theorem Accessed.others (h : RepInv ∅ s.ctx) {p : Nat} {write : Int32} {rpc : RpcScript}
    {r : Option Nat} (hacc : Accessed s p write rpc r s') :
    ∃ given : Option Nat,
      (∀ q f, s.ctx.Maps q f → q ≠ p → given ≠ some q → Kept q f s.ctx s'.ctx) ∧
      ∀ q f, s.ctx.Maps q f → given = some q →
        GivenUp q f s s' ∧ (r = none → f ∈ s'.ctx.freeList) := by
  cases hacc with
  | hit hmaps =>
      refine ⟨none, fun q f hq hqp _ => ?_, fun _ _ _ hg => by cases hg⟩
      exact Kept.move (w := ⟨∅, s⟩) (m := .hit p write) h hq (Ne.symm hqp)
        ⟨⟨hmaps.1, hmaps.2.1⟩, rfl⟩
  | popped hv hfl hrun hms =>
      refine ⟨none, fun q f hq _ _ => ?_, fun _ _ _ hg => by cases hg⟩
      have hkept := Kept.moves hrun (popped_rep h hfl) hq (hms.spares q)
      exact ⟨hkept.maps, hkept.memory, hkept.dirty, hkept.location⟩
  | @stuck k _ hv hfl hk hwb hput =>
      refine ⟨none, fun q f hq _ _ => ?_, fun _ _ _ hg => by cases hg⟩
      exact Kept.moves (evictPage_passed h hfl .ok hk.le hk.bit_set).2 h hq (by simp [Move.Spares])
  | @evicted k _ _ _ hv hfl hk hput hrun hms =>
      have hmaps := (h.maps_iff _ _).mpr (h.holds_clockPage hfl k)
      refine ⟨some (s.ctx.clockPage k), fun q f hq _ hg => ?_, ?_⟩
      · have hevict := evict_run h hfl hk
        have hkept := Kept.moves hevict h hq (by
          intro m hm
          rcases List.mem_append.mp hm with hm | hm
          · obtain ⟨v, -, rfl⟩ := List.mem_map.mp hm
            trivial
          · rw [List.mem_singleton.mp hm]
            exact fun heq => hg (congrArg some heq))
        exact hkept.trans (Kept.moves hrun (h.moves hevict) hkept.maps (hms.spares q))
      · rintro q f hq ⟨⟩
        obtain rfl : f = s.ctx.clockFrame k := hq.frame_unique hmaps
        refine evicted_givenUp ?_ hfl hrun hms
        rintro rfl
        exact absurd hv hmaps.not_absent

/-! ## An access that fails -/

/-- A fetch that fails leaves the page table and the bookkeeping of served misses alone. -/
theorem FrameMoves.failed {ctx : DsmContext} {p f : Nat} {write : Int32} {rpc : RpcScript}
    {ms : List Move} (hms : FrameMoves ctx p f write rpc none ms)
    (hrun : Moves ⟨{f}, s⟩ ms ⟨∅, s'⟩) :
    s'.ctx.pageTable = s.ctx.pageTable ∧ s'.ctx.lastPageId = s.ctx.lastPageId ∧
      s'.ctx.remoteFetches = s.ctx.remoteFetches := by
  cases hms with
  | fetchFailed left _ =>
      obtain - | ⟨⟨-, rfl⟩, - | ⟨⟨-, hs'⟩, hnil⟩⟩ := hrun
      cases hnil
      obtain rfl := congrArg Work.pager hs'
      exact ⟨rfl, rfl, rfl⟩

/-- A failed access leaves the entry it was asked for and the bookkeeping of served misses alone. -/
theorem Accessed.failed (h : RepInv ∅ s.ctx) {p : Nat} {write : Int32} {rpc : RpcScript}
    (hacc : Accessed s p write rpc none s') :
    s'.ctx.pageTable p = s.ctx.pageTable p ∧ (s.ctx.pageTable p).valid = false ∧
      s'.ctx.lastPageId = s.ctx.lastPageId ∧ s'.ctx.remoteFetches = s.ctx.remoteFetches := by
  cases hacc with
  | popped hv hfl hrun hms =>
      obtain ⟨htable, hlast, hfetches⟩ := hms.failed hrun
      exact ⟨congrFun htable p, hv, hlast, hfetches⟩
  | stuck hv hfl hk hwb hput => exact ⟨h.passed_of_absent hfl hv _, hv, rfl, rfl⟩
  | @evicted k _ _ _ hv hfl hk hput hrun hms =>
      obtain ⟨htable, hlast, hfetches⟩ := hms.failed hrun
      have hne : (Move.evict (s.ctx.clockPage k) (s.ctx.clockFrame k)).page? ≠ some p := by
        rintro ⟨⟩
        exact absurd hv ((h.maps_iff _ _).mpr (h.holds_clockPage hfl k)).not_absent
      have hentry : (s.evictedAt k).ctx.pageTable p = (s.ctx.passed k).pageTable p :=
        Move.pageTable_of_ne _ s.remote.store hne
      refine ⟨(congrFun htable p).trans (hentry.trans (h.passed_of_absent hfl hv k)), hv, ?_, ?_⟩
      · exact hlast
      · exact hfetches

/-- Every access of the run is made over a connected socket; `fd` is the socket it starts with. So a
socket is set before the first access, and none is missing later. -/
def AccessesConnected : Int → List Call → Prop
  | _, [] => True
  | fd, .access _ _ _ _ :: calls => 0 ≤ fd ∧ AccessesConnected fd calls
  | fd, .prefetch _ _ _ :: calls => AccessesConnected fd calls
  | _, .setSocket fd :: calls => AccessesConnected fd calls

/-- Every cached page came from the server. -/
def DsmContext.RemoteOnly (ctx : DsmContext) : Prop :=
  ∀ q f, ctx.Maps q f → (ctx.pageTable q).location = .locRemote

theorem DsmContext.RemoteOnly.move {w w' : Work} {m : Move} (h : w.pager.ctx.RemoteOnly)
    (hrep : RepInv w.held w.pager.ctx)
    (hm : ∀ p f write, m = .mapLocal p f write → 0 ≤ w.pager.ctx.sockFd) (hs : MoveStep w m w') :
    w'.pager.ctx.RemoteOnly := by
  intro q f hq
  have hnv := (Move.sizes w.pager.ctx w.pager.remote.store m).2.1
  obtain ⟨hen, rfl⟩ := hs
  -- A page whose entry was not written was cached before.
  have old : m.page? ≠ some q → ((m.apply w).pager.ctx.pageTable q).location = .locRemote := by
    intro hne
    have he := Move.pageTable_of_ne w.pager.ctx w.pager.remote.store hne
    rw [Maps, show (m.apply w).pager.ctx.pageTable q = _ from he,
      show (m.apply w).pager.ctx.numVirtualPages = _ from hnv] at hq
    rw [show (m.apply w).pager.ctx.pageTable q = _ from he]
    exact h q f hq
  by_cases hpage : m.page? = some q
  · cases m with
    | take | give | putFailed | fetchFailed | batch | remember => cases hpage
    | mapLocal p g write =>
        have := hm p g write rfl
        have := hen.1
        omega
    | fetch p g write =>
        obtain rfl := Option.some.inj hpage
        simp [Move.apply, Move.onContext, mapPage, setFrame, setEntry]
    | prefetch p g =>
        obtain rfl := Option.some.inj hpage
        simpa [Move.apply, Move.onContext, mapPage, setFrame, setEntry] using hen.2.2.2
    | hit p write =>
        obtain rfl := Option.some.inj hpage
        simpa [Move.apply, Move.onContext, accessHit, setEntry] using h p _ ⟨hen.1, hen.2, rfl⟩
    | sweep p =>
        obtain rfl := Option.some.inj hpage
        have hmaps := (hrep.maps_iff _ _).mpr hen.1
        simpa [Move.apply, Move.onContext, advanceHand, setEntry] using h p _ hmaps
    | evict p g =>
        obtain rfl := Option.some.inj hpage
        have hv := hq.2.1
        simp [Move.apply, Move.onContext, unmapPage, advanceHand, setFrame, setEntry] at hv
  · exact old hpage

theorem DsmContext.RemoteOnly.moves {w w' : Work} {ms : List Move} (hrun : Moves w ms w')
    (h : w.pager.ctx.RemoteOnly) (hrep : RepInv w.held w.pager.ctx)
    (hms : ∀ m ∈ ms, ∀ p f write, m = .mapLocal p f write → 0 ≤ w.pager.ctx.sockFd) :
    w'.pager.ctx.RemoteOnly := by
  refine (hrun.invariant_of_labels
    (fun v => RepInv v.held v.pager.ctx ∧ v.pager.ctx.sockFd = w.pager.ctx.sockFd ∧
      v.pager.ctx.RemoteOnly)
    (fun m => ∀ p f write, m = .mapLocal p f write → 0 ≤ w.pager.ctx.sockFd) ?_ hms
    ⟨hrep, rfl, h⟩).2.2
  rintro v m v' hm ⟨hrep', hfd, hremote⟩ hs
  refine ⟨hrep'.move hs, ?_, hremote.move hrep' (fun p f write heq => hfd ▸ hm p f write heq) hs⟩
  obtain ⟨-, rfl⟩ := hs
  exact (Move.sizes _ _ m).2.2.1.trans hfd

theorem DsmContext.RemoteOnly.callerChange {ctx : DsmContext} (h : ctx.RemoteOnly) (f : Nat)
    (write : Int32) (change : Page → Page) : (callerChange ctx f write change).RemoteOnly := by
  intro q g hq
  rw [Maps, (callerChange_sizes ctx f write change).2.1, callerChange_pageTable] at hq
  rw [callerChange_pageTable]
  exact h q g hq

/-- If every access is made over a connected socket, every cached page came from the server. -/
theorem Pager.ReachedBy.remoteOnly {calls : List Call}
    (h : s.ReachedBy numPages numVirtualPages calls) (hconn : AccessesConnected (-1) calls) :
    s.ctx.RemoteOnly := by
  obtain ⟨hpos, hnp, hnv, hcalls, remote, seen, heq⟩ := h
  refine (Pager.run_rule (fun s calls => RepInv ∅ s.ctx ∧
    (∀ c ∈ calls, c.InRange s.ctx.numVirtualPages) ∧ AccessesConnected s.ctx.sockFd calls ∧
    s.ctx.RemoteOnly) ?_ calls ⟨RepInv.create hpos hnp hnv, hcalls, hconn, ?_⟩ heq).2.2.2
  · rintro s c calls seen s' ⟨hrep, hin, hconn, hremote⟩ heq
    obtain ⟨seen', s'', heq', hrep', -, hnv'⟩ := Pager.call_inv hrep (hin c List.mem_cons_self)
    obtain ⟨-, rfl⟩ := Prod.mk.inj (Option.some.inj (heq.symm.trans heq'))
    refine ⟨hrep', fun c' hc' => hnv' ▸ hin c' (List.mem_cons_of_mem _ hc'), ?_⟩
    cases c with
    | access p write change rpc =>
        obtain ⟨r, s₁, ms, hrun, -, hcall⟩ :=
          call_access hrep (hin _ List.mem_cons_self) write change rpc
        obtain ⟨-, rfl⟩ := Prod.mk.inj (Option.some.inj (hcall.symm.trans heq))
        have hfd := hrun.sizes.2.2.1
        have h₁ := hremote.moves hrun hrep fun _ _ _ _ _ _ => hconn.1
        cases r with
        | none => exact ⟨hfd ▸ hconn.2, h₁⟩
        | some f =>
            obtain ⟨-, -, hfd₁⟩ := callerChange_sizes s₁.ctx f write change
            exact ⟨(hfd₁.trans hfd) ▸ hconn.2, h₁.callerChange f write change⟩
    | prefetch startPage count ok =>
        obtain ⟨s₁, batch, hpre, hrun, -⟩ :=
          dsmPrefetchPages_run hrep (hin _ List.mem_cons_self).1 count ok
        rw [Pager.call, hpre] at heq
        obtain ⟨-, rfl⟩ := Prod.mk.inj (Option.some.inj heq)
        refine ⟨hrun.sizes.2.2.1 ▸ hconn, hremote.moves hrun hrep ?_⟩
        rintro m hm p f write rfl
        exact absurd (isPrefetching_prefetchMoves batch ok _ hm) id
    | setSocket fd =>
        obtain ⟨-, rfl⟩ := Prod.mk.inj (Option.some.inj heq)
        exact ⟨hconn, hremote⟩
  · intro q f hq
    simp [Maps, dsmCreateContext] at hq

/-- **A failed access loses nothing.** An access that returns `NULL` leaves the requested entry as it
was, still invalid, and every other cached page in its frame with its content and dirty bit, except
at most one. That one was clean or has just been put on the server, and its frame is free; the tables
are consistent, so every frame is free or holds a page. -/
theorem failed_access_loses_nothing {calls : List Call}
    (hs : s.ReachedBy numPages numVirtualPages calls) (hconn : AccessesConnected (-1) calls)
    {p : Nat} (hp : p < numVirtualPages) (write : Int32) (rpc : RpcScript) :
    ∃ r s', dsmAccessPage s p write rpc = some (r, s') ∧ (r = none →
      s'.ctx.pageTable p = s.ctx.pageTable p ∧ (s.ctx.pageTable p).valid = false ∧
      s'.ctx.lastPageId = s.ctx.lastPageId ∧ s'.ctx.remoteFetches = s.ctx.remoteFetches ∧
      (∃ given : Option Nat,
        (∀ q f, s.ctx.Maps q f → given ≠ some q → Kept q f s.ctx s'.ctx) ∧
        ∀ q f, s.ctx.Maps q f → given = some q → f ∈ s'.ctx.freeList ∧
          ((s.ctx.pageTable q).dirty = 0 ∨ s'.remote.store q = s.ctx.localMemory f ∧
            ∃ later, s'.remote.log =
              later ++ .put q (s.ctx.localMemory f) true :: s.remote.log)) ∧
      Consistent numPages numVirtualPages s'.ctx) := by
  obtain ⟨h, rfl, rfl⟩ := hs.rep
  have hremote := hs.remoteOnly hconn
  obtain ⟨r, s', heq, hacc⟩ := dsmAccessPage_accessed h hp write rpc
  refine ⟨r, s', heq, ?_⟩
  rintro rfl
  obtain ⟨hentry, hv, hlast, hfetches⟩ := hacc.failed h
  obtain ⟨given, hkept, hgiven⟩ := hacc.others h
  obtain ⟨ms, hrun, -⟩ := hacc.run h
  refine ⟨hentry, hv, hlast, hfetches, ⟨given, fun q f hq hg => ?_, fun q f hq hg => ?_⟩, ?_⟩
  · refine hkept q f hq ?_ hg
    rintro rfl
    exact absurd hv hq.not_absent
  · obtain ⟨hup, hfree⟩ := hgiven q f hq hg
    refine ⟨hfree rfl, ?_⟩
    by_cases hd : (s.ctx.pageTable q).dirty = 0
    · exact .inl hd
    · have hwb : s.ctx.NeedsWriteback q := ⟨hd, hremote q f hq⟩
      obtain ⟨later, -, hlog⟩ := hup.log
      rw [if_pos hwb] at hlog
      exact .inr ⟨hup.store.trans (if_pos hwb), later, hlog⟩
  · have hcon := (h.moves hrun).consistent
    rwa [hrun.sizes.1, hrun.sizes.2.1] at hcon

/-- One frame: page `0` is written, given up for page `1` and put on the server; then the fetch of
page `1` fails. -/
theorem failed_access_after_eviction : ∃ s s',
    s.ReachedBy 1 2 [.setSocket 3, .access 0 1 (fun _ => Page.fill 7) ⟨.ok, .ok, true⟩] ∧
    dsmAccessPage s 1 0 ⟨.ok, .failed zeroPage, true⟩ = some (none, s') ∧
    s'.ctx.freeList = [0] ∧ s'.ctx.remoteFetches = s.ctx.remoteFetches ∧
    Consistent 1 2 s'.ctx := by
  have hreach : ∃ s, Pager.ReachedBy 1 2
        [.setSocket 3, .access 0 1 (fun _ => Page.fill 7) ⟨.ok, .ok, true⟩] s ∧
      (dsmAccessPage s 1 0 ⟨.ok, .failed zeroPage, true⟩).map
        (fun r => (r.1, r.2.ctx.freeList)) = some (none, [0]) :=
    ⟨_, ⟨by decide, by decide, by decide, by simp [Call.InRange], ⟨fun _ => zeroPage, []⟩, _, rfl⟩,
      rfl⟩
  obtain ⟨s, hs, hresult⟩ := hreach
  obtain ⟨r, s', heq, hfailed⟩ := failed_access_loses_nothing hs
    (by simp [AccessesConnected]) (show 1 < 2 by decide) 0 ⟨.ok, .failed zeroPage, true⟩
  rw [heq, Option.map_some, Option.some.injEq, Prod.mk.injEq] at hresult
  obtain ⟨rfl, hfree⟩ := hresult
  obtain ⟨-, -, -, hfetches, -, hcon⟩ := hfailed rfl
  exact ⟨s, s', hs, heq, hfree, hfetches, hcon⟩

end Dsm.Paging
