import Dsm.Paging.Counters
import Dsm.Paging.Prefetch
import Dsm.Paging.WriteFlag

/-!
# What an access comes to

A program that goes through `dsm_access_page` sees two things of it: whether it returned `NULL`, and by
how much `local_hits + remote_fetches` has grown. Both are decided by the state before the call and by
the RPCs. `Accessed.none_iff` says when the access fails. `call_counted` says what it counts: one,
and one more for each page that was prefetched on the way, which happens exactly if the tables before
the call say `Prefetches`.
-/

namespace Dsm.Paging

open DsmContext Dsm.Lib

variable {s s' : Pager} {p f : Nat} {write : Int32} {rpc : RpcScript}

/-! ## Failure -/

/-- The clock stops at one place only. -/
theorem DsmContext.StopsAt.unique {ctx : DsmContext} {j k : Nat} (hj : ctx.StopsAt j)
    (hk : ctx.StopsAt k) : j = k := by
  -- The earlier of two places would have its bit both clear and set.
  have not_lt : ∀ {j k : Nat}, ctx.StopsAt j → ctx.StopsAt k → ¬ j < k := by
    intro j k hj hk hlt
    have hclear := hj.bit_clear (hlt.trans_le hk.le)
    rw [hk.bit_set j hlt] at hclear
    cases hclear
  exact le_antisymm (Nat.le_of_not_lt (not_lt hk hj)) (Nat.le_of_not_lt (not_lt hj hk))

/-- No frame is free, the page the clock stops at has to be written back, and its PUT fails. -/
def Pager.WritebackFails (s : Pager) (rpc : RpcScript) : Prop :=
  s.ctx.freeList = [] ∧ rpc.put ≠ .ok ∧
    ∃ k, s.ctx.StopsAt k ∧ s.ctx.NeedsWriteback (s.ctx.clockPage k)

/-- Page `p` is not cached, and an RPC that bringing it in takes fails. -/
def Pager.AccessFails (s : Pager) (p : Nat) (rpc : RpcScript) : Prop :=
  (s.ctx.pageTable p).valid = false ∧ (s.WritebackFails rpc ∨ rpc.get ≠ .ok)

/-- Over a connection, the access fails once it has its frame exactly if the GET does. -/
theorem FrameMoves.none_iff {ctx : DsmContext} {r : Option Nat} {ms : List Move}
    (hfd : 0 ≤ ctx.sockFd) (h : FrameMoves ctx p f write rpc r ms) : r = none ↔ rpc.get ≠ .ok := by
  cases h with
  | fetchFailed left hget => simp [hget]
  | fetched trail _ hget _ => simp [hget]
  | served trail hneg _ => omega

/-- **When an access returns `NULL`.** -/
theorem Accessed.none_iff {r : Option Nat} (hfd : 0 ≤ s.ctx.sockFd)
    (h : Accessed s p write rpc r s') : r = none ↔ s.AccessFails p rpc := by
  cases h with
  | hit hmaps =>
      refine iff_of_false (by simp) fun hfails => ?_
      exact absurd (hmaps.2.1.symm.trans hfails.1) (by decide)
  | popped hv hfl _ hms =>
      rw [hms.none_iff hfd]
      refine ⟨fun hget => ⟨hv, .inr hget⟩, fun hfails => hfails.2.resolve_left fun hput => ?_⟩
      rw [hput.1] at hfl
      cases hfl
  | stuck hv hfl hk hwb hput =>
      exact iff_of_true rfl ⟨hv, .inl ⟨hfl, by simp [hput], _, hk, hwb⟩⟩
  | evicted hv hfl hk hput _ hms =>
      rw [hms.none_iff hfd]
      refine ⟨fun hget => ⟨hv, .inr hget⟩, fun hfails => hfails.2.resolve_left ?_⟩
      rintro ⟨-, hne, j, hj, hwb⟩
      rw [hj.unique hk] at hwb
      exact hne (hput hwb)

theorem call_access_none_iff (h : RepInv ∅ s.ctx) (hfd : 0 ≤ s.ctx.sockFd)
    (hp : p < s.ctx.numVirtualPages) {change : Page → Page} {seen : Seen}
    (hcall : s.call (.access p write change rpc) = some (seen, s')) :
    seen = none ↔ s.AccessFails p rpc := by
  obtain ⟨r, s₁, hacc, heq⟩ := call_accessed h hp write change rpc
  obtain ⟨rfl, -⟩ := Prod.mk.inj (Option.some.inj (heq.symm.trans hcall))
  rw [Option.map_eq_none_iff]
  exact hacc.none_iff hfd

/-- What an access leaves as it was: the sizes, the socket, and if it fails the entry of its page. -/
theorem call_access_kept (h : RepInv ∅ s.ctx) (hp : p < s.ctx.numVirtualPages) (write : Int32)
    (change : Page → Page) (rpc : RpcScript) :
    ∃ seen s', s.call (.access p write change rpc) = some (seen, s') ∧ RepInv ∅ s'.ctx ∧
      s'.ctx.numPages = s.ctx.numPages ∧ s'.ctx.numVirtualPages = s.ctx.numVirtualPages ∧
      s'.ctx.sockFd = s.ctx.sockFd ∧ (seen = none → s'.ctx.pageTable p = s.ctx.pageTable p) := by
  obtain ⟨r, s₁, hacc, heq⟩ := call_accessed h hp write change rpc
  obtain ⟨ms, hrun, -⟩ := hacc.run h
  have hrep := h.moves hrun
  obtain ⟨hnp, hnv, hfd, -⟩ := hrun.sizes
  refine ⟨_, _, heq, ?_⟩
  cases r with
  | none => exact ⟨hrep, hnp, hnv, hfd, fun _ => (hacc.failed h).1⟩
  | some f =>
      obtain ⟨hnp', hnv', hfd'⟩ := callerChange_sizes s₁.ctx f write change
      exact ⟨hrep.callerChange f write change, hnp'.trans hnp, hnv'.trans hnv, hfd'.trans hfd, nofun⟩

theorem RpcScript.Succeeds.not_fails (h : rpc.Succeeds) (s : Pager) (p : Nat) :
    ¬ s.AccessFails p rpc := by
  rintro ⟨-, ⟨-, hput, -⟩ | hget⟩
  · exact hput h.1
  · exact hget h.2.1

/-! ## Locations

A page is marked as remote for good once it has been fetched. -/

theorem Move.location_iff {m : Move} (w : Work) (hm : m.Connected) (q : Nat) :
    ((m.apply w).pager.ctx.pageTable q).location = .locRemote ↔
      (w.pager.ctx.pageTable q).location = .locRemote ∨ ∃ g write, m = .fetch q g write := by
  by_cases hpage : m.page? = some q
  · cases m with
    | take | give | putFailed | fetchFailed | batch | remember => cases hpage
    | mapLocal => exact absurd hm id
    | sweep | evict | prefetch | hit =>
        obtain rfl := Option.some.inj hpage
        simp [Move.apply, Move.onContext, mapPage, unmapPage, advanceHand, accessHit, setFrame,
          setEntry, setMemory]
    | fetch =>
        obtain rfl := Option.some.inj hpage
        simp [Move.apply, Move.onContext, mapPage, setFrame, setEntry]
  · have hentry : (m.apply w).pager.ctx.pageTable q = w.pager.ctx.pageTable q :=
      Move.pageTable_of_ne _ _ hpage
    rw [hentry]
    refine (or_iff_left ?_).symm
    rintro ⟨g, write, rfl⟩
    exact hpage rfl

theorem Moves.location_iff {w w' : Work} {ms : List Move} (hrun : Moves w ms w')
    (hms : ∀ m ∈ ms, m.Connected) (q : Nat) :
    (w'.pager.ctx.pageTable q).location = .locRemote ↔
      (w.pager.ctx.pageTable q).location = .locRemote ∨ ∃ g write, Move.fetch q g write ∈ ms := by
  induction hrun with
  | nil _ => simp
  | cons hs _ ih =>
      obtain ⟨-, rfl⟩ := hs
      rw [ih fun m hm => hms m (List.mem_cons_of_mem _ hm),
        Move.location_iff _ (hms _ List.mem_cons_self)]
      simp only [List.mem_cons, exists_or, or_assoc, eq_comm]

/-- An access fetches no page but its own, and that only if it is served. -/
theorem AccessMoves.of_fetch {ctx : DsmContext} {r : Option Nat} {ms : List Move} {q g : Nat}
    {write' : Int32} (h : AccessMoves ctx p write rpc r ms) (hq : Move.fetch q g write' ∈ ms) :
    q = p ∧ r ≠ none := by
  have acquired : ∀ {f : Nat} {acq : List Move}, Acquired f acq → Move.fetch q g write' ∉ acq := by
    rintro f acq (_ | _) <;> simp
  have trailing : ∀ {trail : List Move}, Trailing ctx.lastPageId p rpc.batch trail →
      Move.fetch q g write' ∉ trail := fun htrail hmem => isPrefetching_of_trailing htrail _ hmem
  cases h with
  | hit | putFailed => simp at hq
  | fetchFailed acq f left hacq _ => simp [acquired hacq] at hq
  | fetched acq trail f _ hacq _ htrail =>
      simp only [List.mem_append, acquired hacq, List.mem_cons, Move.fetch.injEq, trailing htrail,
        reduceCtorEq, List.not_mem_nil, or_false, false_or] at hq
      exact ⟨hq.1, by simp⟩
  | served acq trail f _ hacq htrail => simp [acquired hacq, trailing htrail] at hq

/-- A miss that is served fetches its page. -/
theorem AccessMoves.fetch_mem {ctx : DsmContext} {r : Option Nat} {ms : List Move}
    (hfd : 0 ≤ ctx.sockFd) (h : AccessMoves ctx p write rpc r ms)
    (hv : (ctx.pageTable p).valid = false) (hr : r ≠ none) : ∃ g, Move.fetch p g write ∈ ms := by
  cases h with
  | hit f hmaps => exact absurd hv hmaps.not_absent
  | putFailed | fetchFailed => exact absurd rfl hr
  | fetched acq trail f => exact ⟨f, by simp⟩
  | served acq trail f hneg => omega

/-- **What an access marks as remote**: the page it returns. -/
theorem call_access_location (h : RepInv ∅ s.ctx) (hfd : 0 ≤ s.ctx.sockFd)
    (hremote : s.ctx.RemoteOnly) (hp : p < s.ctx.numVirtualPages) {change : Page → Page} {seen : Seen}
    (hcall : s.call (.access p write change rpc) = some (seen, s')) :
    s'.ctx.RemoteOnly ∧ ∀ q, (s'.ctx.pageTable q).location = .locRemote ↔
      (s.ctx.pageTable q).location = .locRemote ∨ q = p ∧ seen ≠ none := by
  obtain ⟨r, s₁, ms, hrun, hms, heq⟩ := call_access h hp write change rpc
  obtain ⟨rfl, rfl⟩ := Prod.mk.inj (Option.some.inj (heq.symm.trans hcall))
  have hconn := (Logged.access hfd hms).connected
  have hremote₁ : s₁.ctx.RemoteOnly := DsmContext.RemoteOnly.moves hrun hremote h fun m hm _ _ _ _ => hfd
  have hloc : ∀ q, (s₁.ctx.pageTable q).location = .locRemote ↔
      (s.ctx.pageTable q).location = .locRemote ∨ q = p ∧ r ≠ none := by
    intro q
    refine (hrun.location_iff hconn q).trans ⟨Or.imp_right ?_, ?_⟩
    · rintro ⟨g, write', hmem⟩
      exact hms.of_fetch hmem
    · rintro (hq | ⟨rfl, hr⟩)
      · exact .inl hq
      · cases hv : (s.ctx.pageTable q).valid with
        | true => exact .inl (hremote q _ ⟨hp, hv, rfl⟩)
        | false =>
            obtain ⟨g, hmem⟩ := hms.fetch_mem hfd hv hr
            exact .inr ⟨g, write, hmem⟩
  cases r with
  | none => exact ⟨hremote₁, fun q => (hloc q).trans (by simp)⟩
  | some f =>
      refine ⟨hremote₁.callerChange f write change, fun q => ?_⟩
      simp only [callerChange_pageTable]
      exact (hloc q).trans (by simp)

/-! ## What is counted -/

/-- `local_hits + remote_fetches`, on `uint64_t`. -/
def DsmContext.totalAccesses (ctx : DsmContext) : Nat := u64 (ctx.localHits + ctx.remoteFetches)

/-- The moves that bump one of the two counters. -/
def Move.counted : Move → Nat
  | .hit _ _ | .fetch _ _ _ | .prefetch _ _ => 1
  | _ => 0

theorem Move.totalAccesses_apply (w : Work) (m : Move) :
    (m.apply w).pager.ctx.totalAccesses = u64 (w.pager.ctx.totalAccesses + m.counted) := by
  cases m with
  | hit q write =>
      show u64 (u64 (w.pager.ctx.localHits + 1) + w.pager.ctx.remoteFetches) = u64 (u64 _ + 1)
      simp only [u64]
      omega
  | fetch q f write | prefetch q f =>
      show u64 (w.pager.ctx.localHits + u64 (w.pager.ctx.remoteFetches + 1)) = u64 (u64 _ + 1)
      simp only [u64]
      omega
  | _ => exact (Nat.mod_mod _ _).symm

theorem Moves.totalAccesses {w w' : Work} {ms : List Move} (hrun : Moves w ms w') :
    w'.pager.ctx.totalAccesses = u64 (w.pager.ctx.totalAccesses + (ms.map Move.counted).sum) := by
  induction hrun with
  | nil w => exact (Nat.mod_mod _ _).symm
  | cons hs _ ih =>
      obtain ⟨-, rfl⟩ := hs
      rw [ih, Move.totalAccesses_apply, List.map_cons, List.sum_cons]
      simp only [u64]
      omega

theorem counted_prefetchMoves (batch : List (Nat × Nat)) :
    ((prefetchMoves batch true).map Move.counted).sum = batch.length := by
  unfold prefetchMoves
  split
  · next h => simp [h]
  · simp [Function.comp_def, Move.counted]

/-- Page `q` may be brought in by the prefetch that follows a miss on page `p`. -/
structure DsmContext.Eligible (ctx : DsmContext) (p q : Nat) : Prop where
  after : p < q
  near : q ≤ p + ctx.prefetchCount
  lt : q < ctx.numVirtualPages
  absent : (ctx.pageTable q).valid = false
  remote : (ctx.pageTable q).location = .locRemote

/-- Eligibility reads the sizes, and the entries of the pages after `p`. -/
theorem DsmContext.Eligible.congr {ctx ctx' : DsmContext} {q : Nat} (h : ctx.Eligible p q)
    (hcount : ctx'.prefetchCount = ctx.prefetchCount)
    (hnv : ctx'.numVirtualPages = ctx.numVirtualPages)
    (hentry : ∀ q, p < q → ctx'.pageTable q = ctx.pageTable q) : ctx'.Eligible p q where
  after := h.after
  near := hcount.symm ▸ h.near
  lt := hnv.symm ▸ h.lt
  absent := (hentry q h.after).symm ▸ h.absent
  remote := (hentry q h.after).symm ▸ h.remote

/-- A prefetch in a state with a consistent free list collects something exactly if a frame is free and
some page is eligible. -/
theorem collected_pos_iff {ctx : DsmContext} (h : RepInv ∅ ctx) (hp : p < ctx.numVirtualPages)
    {batch : List (Nat × Nat)} {ctx' : DsmContext}
    (hcol : Collected ctx (p + 1) (p + 1 + ctx.prefetchCount) batch)
    (hend : prefetchCollect (p + 1) ctx.prefetchCount 0 ctx [] = some (batch, ctx')) :
    batch.length ≤ dsmPrefetchMax ∧
      (0 < batch.length ↔ ctx.freeList ≠ [] ∧ ∃ q, ctx.Eligible p q) := by
  have hnv := h.numVirtualPages_lt
  obtain ⟨-, hshort, hframes, hcomplete⟩ := prefetchCollect_end (p + 1) ctx.prefetchCount 0 ctx []
    batch ctx' hend (by simp) (by omega) hnv fun f hf => h.ne_noFrame (h.lt_of_free hf)
  rw [List.length_nil, Nat.add_zero] at hframes
  refine ⟨hshort, fun hpos => ⟨?_, ?_⟩, ?_⟩
  · rintro hnil
    rw [hnil, List.length_nil] at hframes
    omega
  · obtain ⟨x, hx⟩ := List.exists_mem_of_length_pos hpos
    obtain ⟨hlo, hhi, hlt, hinv, hloc⟩ := hcol.absent x hx
    exact ⟨x.1, by omega, by omega, hlt, hinv, hloc⟩
  · rintro ⟨hfree, q, hq⟩
    rcases hcomplete with hfull | hnone | hall
    · rw [hfull]
      decide
    · rw [hnone, List.length_nil, Nat.zero_add] at hframes
      rw [hframes]
      exact List.length_pos_iff.mpr hfree
    · have hmem := hall q hq.after (by have := hq.near; omega) hq.lt hq.absent hq.remote
      rw [← List.length_map (f := Prod.fst)]
      exact List.length_pos_of_mem hmem

/-- A miss on page `p` prefetches: it counts as sequential, a second frame is free, and one of the next
pages is absent and marked as remote. -/
structure DsmContext.Prefetches (ctx : DsmContext) (p : Nat) : Prop where
  absent : (ctx.pageTable p).valid = false
  sequential : p = u32 (ctx.lastPageId + 1)
  frames : 2 ≤ ctx.freeList.length
  eligible : ∃ q, ctx.Eligible p q

/-- The end of a miss counts the pages it prefetches. -/
theorem accessFinish_counted {fetched : Bool} {ctx : DsmContext}
    (hinst : accessInstall s.ctx p f write fetched = some ctx) (h : RepInv ∅ ctx)
    (hp : p < ctx.numVirtualPages) (hbatch : rpc.batch = true) :
    ∃ s' extra, accessFinish s p f write fetched rpc = some (some f, s') ∧
      s'.ctx.totalAccesses = u64 (ctx.totalAccesses + extra) ∧ extra ≤ dsmPrefetchMax ∧
      (0 < extra ↔ p = u32 (ctx.lastPageId + 1) ∧ ctx.freeList ≠ [] ∧ ∃ q, ctx.Eligible p q) := by
  unfold accessFinish
  rw [hinst, hbatch]
  simp only [Option.bind_eq_bind, Option.bind_some]
  split
  · next hseq =>
      have hnv := h.numVirtualPages_lt
      rw [u32_of_lt (show p + 1 < 2 ^ 32 by omega)]
      obtain ⟨s₁, batch, heq, hrun, hcol, ctx', hend⟩ := dsmPrefetchPages_run (s := ⟨ctx, s.remote⟩) h
        (show p + 1 < 2 ^ 32 by omega) ctx.prefetchCount true
      obtain ⟨hshort, hpos⟩ := collected_pos_iff h hp hcol hend
      have htotal := hrun.totalAccesses
      rw [counted_prefetchMoves] at htotal
      exact ⟨⟨{ s₁.ctx with lastPageId := p }, s₁.remote⟩, batch.length, by rw [heq]; rfl, htotal,
        hshort, hpos.trans (and_iff_right hseq).symm⟩
  · next hseq =>
      exact ⟨_, 0, rfl, (Nat.mod_mod _ _).symm, Nat.zero_le _,
        iff_of_false (lt_irrefl 0) fun hc => hseq hc.1⟩

/-- An access that holds its frame and whose RPCs succeed counts one, and one for each page it
prefetches. -/
theorem accessWithFrame_counted (h : RepInv {f} s.ctx) (hp : p < s.ctx.numVirtualPages)
    (hv : (s.ctx.pageTable p).valid = false) (hfd : 0 ≤ s.ctx.sockFd) (hrpc : rpc.Succeeds)
    (write : Int32) :
    ∃ s' extra, accessWithFrame s p f write rpc = some (some f, s') ∧
      s'.ctx.totalAccesses = u64 (s.ctx.totalAccesses + (1 + extra)) ∧ extra ≤ dsmPrefetchMax ∧
      (0 < extra ↔ p = u32 (s.ctx.lastPageId + 1) ∧ s.ctx.freeList ≠ [] ∧ ∃ q, s.ctx.Eligible p q) := by
  obtain ⟨-, hget, hbatch⟩ := hrpc
  have hf : f ∈ ({f} : Finset Nat) := Finset.mem_singleton_self f
  have hstep : MoveStep ⟨{f}, s⟩ (.fetch p f write) _ := ⟨⟨hfd, hf, hp, hv⟩, rfl⟩
  have hrep := h.move hstep
  simp only [Move.apply, Move.onHeld, Finset.erase_singleton] at hrep
  have hmem : RepInv {f} { s.ctx.setMemory f (s.remote.store p) with
      remoteFetches := u64 (s.ctx.remoteFetches + 1) } :=
    h.congr (fun _ => rfl) (fun _ => rfl) rfl rfl rfl rfl h.hand_lt
  obtain ⟨s', extra, heq, htotal, hmax, hpos⟩ := accessFinish_counted
    (s := ⟨{ s.ctx.setMemory f (s.remote.store p) with
      remoteFetches := u64 (s.ctx.remoteFetches + 1) }, { s.remote with log := .get p true :: s.remote.log }⟩)
    (accessInstall_eq hmem hf hp write true) hrep hp hbatch
  refine ⟨s', extra, ?_, ?_, hmax, hpos.trans (and_congr_right fun _ => and_congr_right fun _ => ?_)⟩
  · rw [accessWithFrame, if_pos hfd, hget]
    exact heq
  · calc s'.ctx.totalAccesses
        = u64 (((Move.fetch p f write).apply ⟨{f}, s⟩).pager.ctx.totalAccesses + extra) := htotal
      _ = u64 (s.ctx.totalAccesses + (1 + extra)) := by
        rw [Move.totalAccesses_apply]
        simp only [u64, Move.counted]
        omega
  · -- Installing page p changes the entry of no page after it.
    have hentry : ∀ q, p < q → ((Move.fetch p f write).onContext s.ctx s.remote.store).pageTable q =
        s.ctx.pageTable q := by
      intro q hq
      exact Move.pageTable_of_ne s.ctx s.remote.store (by simp [Move.page?]; omega)
    refine exists_congr fun q => ⟨fun hq => ?_, fun hq => ?_⟩
    · exact hq.congr rfl rfl fun q hlt => (hentry q hlt).symm
    · exact hq.congr rfl rfl hentry

theorem dsmAccessPage_counted (h : RepInv ∅ s.ctx) (hp : p < s.ctx.numVirtualPages)
    (hfd : 0 ≤ s.ctx.sockFd) (hrpc : rpc.Succeeds) (write : Int32) :
    ∃ f s' extra, dsmAccessPage s p write rpc = some (some f, s') ∧
      s'.ctx.totalAccesses = u64 (s.ctx.totalAccesses + (1 + extra)) ∧ extra ≤ dsmPrefetchMax ∧
      (0 < extra ↔ s.ctx.Prefetches p) := by
  cases hv : (s.ctx.pageTable p).valid with
  | true =>
      refine ⟨_, _, 0, dsmAccessPage_hit h write rpc ⟨hp, hv, rfl⟩,
        Move.totalAccesses_apply ⟨∅, s⟩ (.hit p write), Nat.zero_le _,
        iff_of_false (lt_irrefl 0) fun hpre => ?_⟩
      exact absurd (hv.symm.trans hpre.absent) (by decide)
  | false =>
      cases hfl : s.ctx.freeList with
      | cons f rest =>
          obtain ⟨s', extra, heq, htotal, hmax, hpos⟩ := accessWithFrame_counted
            (s := ⟨{ s.ctx with freeList := rest }, s.remote⟩) (popped_rep h hfl) hp hv hfd hrpc write
          refine ⟨f, s', extra, (dsmAccessPage_popped h write rpc hp hv hfl).trans heq, htotal, hmax,
            hpos.trans ⟨?_, ?_⟩⟩
          · rintro ⟨hseq, hrest, q, hq⟩
            refine ⟨hv, hseq, ?_, q, hq.congr rfl rfl fun _ _ => rfl⟩
            rw [hfl]
            exact Nat.succ_le_succ (List.length_pos_iff.mpr hrest)
          · rintro ⟨-, hseq, hframes, q, hq⟩
            rw [hfl, List.length_cons] at hframes
            exact ⟨hseq, List.length_pos_iff.mp (Nat.le_of_succ_le_succ hframes), q,
              hq.congr rfl rfl fun _ _ => rfl⟩
      | nil =>
          obtain ⟨k, hk⟩ := s.ctx.exists_stopsAt
          have hevict := evict_run h hfl hk
          obtain ⟨h₁, hp₁, hv₁, -⟩ := evictedAt_ready h hfl hk hp hv
          obtain ⟨s', extra, heq, htotal, hmax, hpos⟩ :=
            accessWithFrame_counted h₁ hp₁ hv₁ (hevict.sizes.2.2.1.symm ▸ hfd) hrpc write
          -- The clock counts nothing, and gives up the only frame there is.
          have hclock : (s.evictedAt k).ctx.totalAccesses = s.ctx.totalAccesses := rfl
          rw [hclock] at htotal
          refine ⟨_, s', extra, (dsmAccessPage_evicted h write rpc hp hv hfl hk fun _ => hrpc.1).trans heq,
            htotal, hmax, hpos.trans (iff_of_false ?_ ?_)⟩
          · exact fun hc => hc.2.1 hfl
          · intro hpre
            have := hpre.frames
            rw [hfl] at this
            simp at this

@[simp] theorem callerChange_totalAccesses (ctx : DsmContext) (f : Nat) (write : Int32)
    (change : Page → Page) :
    (callerChange ctx f write change).totalAccesses = ctx.totalAccesses := by
  unfold callerChange
  split <;> rfl

/-- **What an access counts** whose RPCs succeed: it returns a page and counts one, and one more for
each page it prefetches. -/
theorem call_counted (h : RepInv ∅ s.ctx) (hp : p < s.ctx.numVirtualPages) (hfd : 0 ≤ s.ctx.sockFd)
    (hrpc : rpc.Succeeds) (write : Int32) (change : Page → Page) :
    ∃ page s' extra, s.call (.access p write change rpc) = some (some page, s') ∧
      s'.ctx.totalAccesses = u64 (s.ctx.totalAccesses + (1 + extra)) ∧ extra ≤ dsmPrefetchMax ∧
      (0 < extra ↔ s.ctx.Prefetches p) := by
  obtain ⟨f, s₁, extra, heq, htotal, hmax, hpos⟩ := dsmAccessPage_counted h hp hfd hrpc write
  refine ⟨s₁.ctx.localMemory f, { s₁ with ctx := callerChange s₁.ctx f write change }, extra, ?_,
    ?_, hmax, hpos⟩
  · rw [Pager.call, heq]
    rfl
  · rw [callerChange_totalAccesses]
    exact htotal

end Dsm.Paging
