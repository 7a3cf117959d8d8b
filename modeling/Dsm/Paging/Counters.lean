import Dsm.Paging.Eviction

/-!
# The counters account for the frames

`remote_fetches` and `evictions` are bumped at three places, none of which looks at the tables. They
nevertheless determine how many frames are taken: a fetch takes one, an eviction gives one back, and
whatever else happens on the way, a failed writeback, a failed fetch or a batch that is rolled back,
leaves the balance as it was.

The counters are 64 bits wide. `Balanced` relates them to the true numbers of fetches and evictions,
so that the equation holds modulo `2 ^ 64` in every run, and as it stands as long as fewer than
`2 ^ 64` pages have been fetched.
-/

namespace Dsm.Paging

open DsmContext Dsm.Lib

variable {s s' : Pager} {numPages numVirtualPages : Nat}

/-! ## The balance of a run of moves -/

/-- The pages a move brings in over the network. -/
def Move.fetched : Move → Nat
  | .fetch _ _ _ => 1
  | .prefetch _ _ => 1
  | _ => 0

/-- The pages a move gives up. -/
def Move.evicted : Move → Nat
  | .evict _ _ => 1
  | _ => 0

/-- The move does not install a page without a fetch. -/
def Move.Connected : Move → Prop
  | .mapLocal _ _ _ => False
  | _ => True

/-- `fetched` pages came in and `evicted` went: the counters say so modulo `2 ^ 64`, and the frames
that are neither free nor held are their difference. -/
structure Balanced (fetched evicted : Nat) (w : Work) : Prop where
  remoteFetches : w.pager.ctx.remoteFetches = u64 fetched
  evictions : w.pager.ctx.evictions = u64 evicted
  frames : w.pager.ctx.freeList.length + w.held.card + fetched = w.pager.ctx.numPages + evicted

theorem u64_succ (n : Nat) : u64 (u64 n + 1) = u64 (n + 1) := Nat.mod_add_mod n (2 ^ 64) 1

theorem Balanced.move {fetched evicted : Nat} {w w' : Work} {m : Move}
    (h : Balanced fetched evicted w) (hrep : RepInv w.held w.pager.ctx) (hm : m.Connected)
    (hs : MoveStep w m w') : Balanced (fetched + m.fetched) (evicted + m.evicted) w' := by
  obtain ⟨hf, he, hframes⟩ := h
  obtain ⟨hen, rfl⟩ := hs
  -- A held frame that is filled or given back is no longer held.
  have erase : ∀ {f : Nat}, f ∈ w.held → (w.held.erase f).card + 1 = w.held.card :=
    fun hmem => Finset.card_erase_add_one hmem
  -- A fetch and a prefetch fill a held frame, and both count as a fetch.
  have filled : ∀ {f : Nat}, f ∈ w.held →
      u64 (w.pager.ctx.remoteFetches + 1) = u64 (fetched + 1) ∧
      w.pager.ctx.freeList.length + (w.held.erase f).card + (fetched + 1) =
        w.pager.ctx.numPages + evicted := by
    intro f hmem
    have := erase hmem
    exact ⟨by rw [hf, u64_succ], by omega⟩
  cases m with
  | sweep | putFailed | fetchFailed | batch | hit | remember => exact ⟨hf, he, hframes⟩
  | mapLocal p f write => exact absurd hm id
  | take f =>
      obtain ⟨rest, hfl⟩ : ∃ rest, w.pager.ctx.freeList = f :: rest := List.head?_eq_some_iff.mp hen
      have hnot : f ∉ w.held := fun hmem => hrep.held_not_free f hmem (hfl ▸ List.mem_cons_self)
      refine ⟨hf, he, ?_⟩
      show w.pager.ctx.freeList.tail.length + (insert f w.held).card + fetched =
        w.pager.ctx.numPages + evicted
      rw [Finset.card_insert_of_notMem hnot]
      rw [hfl] at hframes ⊢
      rw [List.length_cons] at hframes
      rw [List.tail_cons]
      omega
  | give f =>
      refine ⟨hf, he, ?_⟩
      show (f :: w.pager.ctx.freeList).length + (w.held.erase f).card + fetched =
        w.pager.ctx.numPages + evicted
      have := erase hen
      rw [List.length_cons]
      omega
  | evict q f =>
      have hnot : f ∉ w.held := fun hmem => hrep.not_holds_of_held hmem hen.2.1
      refine ⟨hf, ?_, ?_⟩
      · show u64 (w.pager.ctx.evictions + 1) = u64 (evicted + 1)
        rw [he, u64_succ]
      · show w.pager.ctx.freeList.length + (insert f w.held).card + fetched =
          w.pager.ctx.numPages + (evicted + 1)
        rw [Finset.card_insert_of_notMem hnot]
        omega
  | fetch p f write =>
      obtain ⟨hcount, hbalance⟩ := filled hen.2.1
      exact ⟨hcount, he, hbalance⟩
  | prefetch p f =>
      obtain ⟨hcount, hbalance⟩ := filled hen.1
      exact ⟨hcount, he, hbalance⟩

/-- **A run of moves keeps the balance.** -/
theorem Balanced.moves {w w' : Work} {ms : List Move} (hrun : Moves w ms w') :
    ∀ {fetched evicted : Nat}, Balanced fetched evicted w → RepInv w.held w.pager.ctx →
      (∀ m ∈ ms, m.Connected) →
      Balanced (fetched + (ms.map Move.fetched).sum) (evicted + (ms.map Move.evicted).sum) w' := by
  induction hrun with
  | nil _ => exact fun h _ _ => h
  | @cons w _ _ m ms hs _ ih =>
      intro fetched evicted h hrep hms
      have hnext := ih (h.move hrep (hms m List.mem_cons_self) hs) (hrep.move hs)
        fun m' hm' => hms m' (List.mem_cons_of_mem _ hm')
      simpa only [List.map_cons, List.sum_cons, ← Nat.add_assoc] using hnext

/-! ## What the log says -/

/-- The pages an RPC brought in. -/
def RpcEvent.fetched : RpcEvent → Nat
  | .get _ true => 1
  | .getBatch ids true => ids.length
  | _ => 0

/-- The pages fetched so far. -/
def Remote.fetched (r : Remote) : Nat := (r.log.map RpcEvent.fetched).sum

/-- The pages a move has the log say it brought in. -/
def Move.logged : Move → Nat
  | .fetch _ _ _ => 1
  | .batch ids true => ids.length
  | _ => 0

theorem Move.fetched_onRemote (ctx : DsmContext) (r : Remote) (m : Move) :
    (m.onRemote ctx r).fetched = r.fetched + m.logged := by
  cases m with
  | putFailed q f applied => simp [Move.onRemote, Remote.dsmRpcPut, Remote.fetched, RpcEvent.fetched,
      Move.logged]
  | evict q f =>
      by_cases hwb : ctx.NeedsWriteback q <;>
        simp [Move.onRemote, hwb, Remote.dsmRpcPut, Remote.fetched, RpcEvent.fetched, Move.logged]
  | fetch p f write =>
      simp [Move.onRemote, Remote.fetched, RpcEvent.fetched, Move.logged, Nat.add_comm]
  | fetchFailed p f left => simp [Move.onRemote, Remote.fetched, RpcEvent.fetched, Move.logged]
  | batch ids ok =>
      cases ok <;> simp [Move.onRemote, Remote.fetched, RpcEvent.fetched, Move.logged, Nat.add_comm]
  | _ => rfl

theorem Moves.fetched_log {w w' : Work} {ms : List Move} (hrun : Moves w ms w') :
    w'.pager.remote.fetched = w.pager.remote.fetched + (ms.map Move.logged).sum := by
  induction hrun with
  | nil _ => rfl
  | cons hs _ ih =>
      obtain ⟨-, rfl⟩ := hs
      rw [ih, List.map_cons, List.sum_cons, ← Nat.add_assoc]
      exact congrArg (· + _) (Move.fetched_onRemote _ _ _)

/-! The log of a batch says all its pages at once, before they are installed one by one. -/

/-- The moves fetch what they log, and all of them have a connection. -/
structure Logged (ms : List Move) : Prop where
  fetched : (ms.map Move.fetched).sum = (ms.map Move.logged).sum
  connected : ∀ m ∈ ms, m.Connected

namespace Logged

theorem nil : Logged [] := ⟨rfl, fun _ h => absurd h List.not_mem_nil⟩

theorem append {ms ns : List Move} (hm : Logged ms) (hn : Logged ns) : Logged (ms ++ ns) where
  fetched := by
    rw [List.map_append, List.map_append, List.sum_append, List.sum_append, hm.fetched, hn.fetched]
  connected := fun m h => (List.mem_append.mp h).elim (hm.connected m) (hn.connected m)

theorem cons {m : Move} {ms : List Move} (hm : m.fetched = m.logged) (hconn : m.Connected)
    (h : Logged ms) : Logged (m :: ms) where
  fetched := by rw [List.map_cons, List.map_cons, List.sum_cons, List.sum_cons, hm, h.fetched]
  connected := fun n hn => by
    rcases List.mem_cons.mp hn with rfl | hn
    · exact hconn
    · exact h.connected n hn

/-- Moves that bring nothing in. -/
theorem map {α : Type*} (l : List α) (f : α → Move)
    (hf : ∀ a, (f a).fetched = (f a).logged ∧ (f a).Connected) : Logged (l.map f) := by
  induction l with
  | nil => exact nil
  | cons a l ih => exact cons (hf a).1 (hf a).2 ih

theorem prefetchMoves (batch : List (Nat × Nat)) (ok : Bool) : Logged (prefetchMoves batch ok) := by
  unfold Paging.prefetchMoves
  refine append (map batch _ fun _ => ⟨rfl, trivial⟩) ?_
  split
  · exact nil
  · cases ok with
    | false => exact cons rfl trivial (map batch _ fun _ => ⟨rfl, trivial⟩)
    | true =>
        refine ⟨?_, ?_⟩
        · simp [Function.comp_def, Move.fetched, Move.logged]
        · intro m hm
          rcases List.mem_cons.mp hm with rfl | hm
          · trivial
          · obtain ⟨x, -, rfl⟩ := List.mem_map.mp hm
            trivial

theorem trailing {last p : Nat} {ok : Bool} {ms : List Move} (h : Trailing last p ok ms) :
    Logged ms := by
  unfold Trailing at h
  split at h
  · obtain ⟨batch, rfl⟩ := h
    exact prefetchMoves batch ok
  · exact h ▸ nil

theorem acquired {f : Nat} {ms : List Move} (h : Acquired f ms) : Logged ms := by
  cases h with
  | popped => exact cons rfl trivial nil
  | evicted qs q =>
      exact append (map qs _ fun _ => ⟨rfl, trivial⟩) (cons rfl trivial nil)

/-- An access over a connected socket. -/
theorem access {ctx : DsmContext} {p : Nat} {write : Int32} {rpc : RpcScript} {r : Option Nat}
    {ms : List Move} (hfd : 0 ≤ ctx.sockFd) (h : AccessMoves ctx p write rpc r ms) : Logged ms := by
  cases h with
  | hit f _ => exact cons rfl trivial nil
  | putFailed qs q f applied _ =>
      exact append (map qs _ fun _ => ⟨rfl, trivial⟩) (cons rfl trivial nil)
  | fetchFailed acq f left hacq _ =>
      exact append (acquired hacq) (cons rfl trivial (cons rfl trivial nil))
  | fetched acq trail f _ hacq _ htrail =>
      exact append (acquired hacq)
        (cons rfl trivial (append (trailing htrail) (cons rfl trivial nil)))
  | served acq trail f hneg _ _ => omega

end Logged

/-! ## Whole runs -/

/-- The frames that hold a page. -/
def DsmContext.occupiedFrames (ctx : DsmContext) : Finset Nat :=
  (Finset.range ctx.numPages).filter fun f => (ctx.frameTable f).occupied = true

theorem RepInv.card_occupiedFrames {ctx : DsmContext} (h : RepInv ∅ ctx) :
    ctx.freeList.length + ctx.occupiedFrames.card = ctx.numPages := by
  have hfree : ctx.freeList.toFinset =
      (Finset.range ctx.numPages).filter fun f => ¬ (ctx.frameTable f).occupied = true := by
    ext f
    have := h.free_iff f
    simpa using this
  rw [← List.toFinset_card_of_nodup h.nodup, hfree, DsmContext.occupiedFrames, Nat.add_comm,
    Finset.card_filter_add_card_filter_not, Finset.card_range]

/-- Between two calls: the balance stands at what the log says was fetched. -/
def Pager.Accounted (s : Pager) : Prop := ∃ evicted, Balanced s.remote.fetched evicted ⟨∅, s⟩

theorem Pager.Accounted.moves {ms : List Move} (h : s.Accounted) (hrep : RepInv ∅ s.ctx)
    (hrun : Moves ⟨∅, s⟩ ms ⟨∅, s'⟩) (hms : Logged ms) : s'.Accounted := by
  obtain ⟨evicted, hbal⟩ := h
  have hlog : s'.remote.fetched = s.remote.fetched + (ms.map Move.logged).sum := hrun.fetched_log
  refine ⟨evicted + (ms.map Move.evicted).sum, ?_⟩
  rw [hlog, ← hms.fetched]
  exact hbal.moves hrun hrep hms.connected

theorem callerChange_frames (ctx : DsmContext) (f : Nat) (write : Int32) (change : Page → Page) :
    (callerChange ctx f write change).freeList = ctx.freeList ∧
    (callerChange ctx f write change).remoteFetches = ctx.remoteFetches ∧
    (callerChange ctx f write change).evictions = ctx.evictions := by
  unfold callerChange
  split <;> exact ⟨rfl, rfl, rfl⟩

theorem Pager.Accounted.callerChange (h : s.Accounted) (f : Nat) (write : Int32)
    (change : Page → Page) :
    Pager.Accounted { s with ctx := Paging.callerChange s.ctx f write change } := by
  obtain ⟨evicted, hf, he, hframes⟩ := h
  obtain ⟨hfree, hfetches, hevictions⟩ := callerChange_frames s.ctx f write change
  have hpages := (callerChange_sizes s.ctx f write change).1
  refine ⟨evicted, hfetches.trans hf, hevictions.trans he, ?_⟩
  show (Paging.callerChange s.ctx f write change).freeList.length + _ + _ =
    (Paging.callerChange s.ctx f write change).numPages + evicted
  rw [hfree, hpages]
  exact hframes

/-- **One call** keeps the account. -/
theorem Pager.Accounted.call {c : Call} {calls : List Call} {seen : Seen} (h : s.Accounted)
    (hrep : RepInv ∅ s.ctx) (hc : c.InRange s.ctx.numVirtualPages)
    (hconn : AccessesConnected s.ctx.sockFd (c :: calls)) (heq : s.call c = some (seen, s')) :
    s'.Accounted ∧ AccessesConnected s'.ctx.sockFd calls := by
  cases c with
  | access p write change rpc =>
      obtain ⟨r, s₁, ms, hrun, hms, hcall⟩ := call_access hrep hc write change rpc
      obtain ⟨-, rfl⟩ := Prod.mk.inj (Option.some.inj (hcall.symm.trans heq))
      have h₁ := h.moves hrep hrun (.access hconn.1 hms)
      have hfd := hrun.sizes.2.2.1
      cases r with
      | none => exact ⟨h₁, hfd ▸ hconn.2⟩
      | some f =>
          have hfd₁ := (callerChange_sizes s₁.ctx f write change).2.2
          exact ⟨h₁.callerChange f write change, (hfd₁.trans hfd) ▸ hconn.2⟩
  | prefetch startPage count ok =>
      obtain ⟨s₁, batch, hpre, hrun, -⟩ := dsmPrefetchPages_run hrep hc.1 count ok
      rw [Pager.call, hpre] at heq
      obtain ⟨-, rfl⟩ := Prod.mk.inj (Option.some.inj heq)
      exact ⟨h.moves hrep hrun (.prefetchMoves batch ok), hrun.sizes.2.2.1 ▸ hconn⟩
  | setSocket fd =>
      obtain ⟨-, rfl⟩ := Prod.mk.inj (Option.some.inj heq)
      obtain ⟨evicted, hf, he, hframes⟩ := h
      exact ⟨⟨evicted, hf, he, hframes⟩, hconn⟩

/-- **The counters account for the frames.** A socket is set before the first access, and then any
calls follow, with any RPC outcomes. The frames that hold a page are as many as are not on the free
list, and as many as pages were fetched less those given up: in the arithmetic of `uint64_t` always,
and as numbers as long as fewer than `2 ^ 64` pages have been fetched. -/
theorem occupied_frames_by_counters (hpos : 1 ≤ numPages) (hnp : numPages < 2 ^ 32)
    (hnv : numVirtualPages < 2 ^ 32) (store : Nat → Page) (calls : List Call)
    (hcalls : ∀ c ∈ calls, c.InRange numVirtualPages) (hconn : AccessesConnected (-1) calls) :
    ∃ seen s, Pager.run ⟨dsmCreateContext numPages numVirtualPages, ⟨store, []⟩⟩ calls =
        some (seen, s) ∧
      s.ctx.freeList.length ≤ numPages ∧
      s.ctx.occupiedFrames.card = numPages - s.ctx.freeList.length ∧
      u64Sub s.ctx.remoteFetches s.ctx.evictions = numPages - s.ctx.freeList.length ∧
      (s.remote.fetched < 2 ^ 64 → s.ctx.evictions ≤ s.ctx.remoteFetches ∧
        numPages - s.ctx.freeList.length = s.ctx.remoteFetches - s.ctx.evictions) := by
  obtain ⟨seen, s, heq, hrep, hn, -⟩ := Pager.run_inv calls
    (s := ⟨dsmCreateContext numPages numVirtualPages, ⟨store, []⟩⟩) (RepInv.create hpos hnp hnv) hcalls
  have hacc : s.Accounted := by
    refine (Pager.run_rule (fun s calls => RepInv ∅ s.ctx ∧
      (∀ c ∈ calls, c.InRange s.ctx.numVirtualPages) ∧ AccessesConnected s.ctx.sockFd calls ∧
      s.Accounted) ?_ calls ⟨RepInv.create hpos hnp hnv, hcalls, hconn, 0, rfl, rfl, ?_⟩ heq).2.2.2
    · rintro s c calls seen s' ⟨hrep, hin, hconn, hacc⟩ heq
      obtain ⟨seen', s'', heq', hrep', -, hnv'⟩ := Pager.call_inv hrep (hin c List.mem_cons_self)
      obtain ⟨-, rfl⟩ := Prod.mk.inj (Option.some.inj (heq.symm.trans heq'))
      obtain ⟨hacc', hconn'⟩ := hacc.call hrep (hin c List.mem_cons_self) hconn heq
      exact ⟨hrep', fun c' hc' => hnv' ▸ hin c' (List.mem_cons_of_mem _ hc'), hconn', hacc'⟩
    · show (List.range numPages).length + 0 + 0 = numPages + 0
      rw [List.length_range]
  have hcard := hrep.card_occupiedFrames
  have hn : s.ctx.numPages = numPages := hn
  obtain ⟨evicted, hf, he, hframes⟩ := hacc
  simp only [Finset.card_empty, u64] at hf he hframes
  rw [hn] at hcard hframes
  refine ⟨seen, s, heq, by omega, by omega, ?_, ?_⟩
  · unfold u64Sub
    omega
  · omega

/-- One frame: page `0` is given up for page `1`, whose fetch then fails. One page was fetched and one
given up, and the frame is free. -/
theorem occupied_frames_by_counters_failed_fetch : ∃ seen s,
    Pager.run ⟨dsmCreateContext 1 2, ⟨fun _ => zeroPage, []⟩⟩
        [.setSocket 3, .access 0 1 id ⟨.ok, .ok, true⟩,
         .access 1 0 id ⟨.ok, .failed zeroPage, true⟩] = some (seen, s) ∧
      s.ctx.evictions = 1 ∧ s.ctx.evictions ≤ s.ctx.remoteFetches ∧
      1 - s.ctx.freeList.length = s.ctx.remoteFetches - s.ctx.evictions := by
  have hlog : (Pager.run ⟨dsmCreateContext 1 2, ⟨fun _ => zeroPage, []⟩⟩
      [.setSocket 3, .access 0 1 id ⟨.ok, .ok, true⟩,
       .access 1 0 id ⟨.ok, .failed zeroPage, true⟩]).map
        (fun r => (r.2.remote.fetched, r.2.ctx.evictions)) = some (1, 1) := rfl
  obtain ⟨seen, s, heq, -, -, -, hcount⟩ := occupied_frames_by_counters (show 1 ≤ 1 by decide)
    (by decide) (show 2 < 2 ^ 32 by decide) (fun _ => zeroPage)
    [.setSocket 3, .access 0 1 id ⟨.ok, .ok, true⟩, .access 1 0 id ⟨.ok, .failed zeroPage, true⟩]
    (by simp [Call.InRange]) (by simp [AccessesConnected])
  rw [heq] at hlog
  obtain ⟨hfetched, hevictions⟩ := Prod.mk.inj (Option.some.inj hlog)
  exact ⟨seen, s, heq, hevictions, hcount (by rw [hfetched]; decide)⟩

end Dsm.Paging
