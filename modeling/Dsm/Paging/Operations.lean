import Dsm.Paging.Clock
import Mathlib.Data.Finset.Lattice.Lemmas

/-!
# Every operation is a sequence of moves

The control flow of `dsm_paging.c`, followed once. Each theorem below says three things about an
operation started in a state that satisfies the representation invariant: it returns (no index
leaves its array and the clock stops), it is a run of moves, and which moves those are. Later files
reason about the moves only.
-/

namespace Dsm.Paging

open DsmContext Dsm.Lib

variable {ctx : DsmContext} {s : Pager} {held : Finset Nat}

/-! ## Eviction -/

/-- How `evict_page` can end: some pages are swept, then the victim goes, or its writeback fails. -/
inductive Evicted (s : Pager) (out : PutOutcome) : Nat → Pager → Prop
  | victim (qs : List Nat) {q f : Nat} {s' : Pager} :
      Moves ⟨∅, s⟩ (qs.map .sweep ++ [.evict q f]) ⟨{f}, s'⟩ → Evicted s out f s'
  | failed (qs : List Nat) {q f : Nat} {applied : Bool} {s' : Pager} :
      out = .failed applied →
      Moves ⟨∅, s⟩ (qs.map .sweep ++ [.putFailed q f applied]) ⟨∅, s'⟩ →
      Evicted s out dsmNoFrame s'

/-- **`evict_page` returns** after at most `num_pages + 1` frames. -/
theorem evictPage_evicted (h : RepInv ∅ s.ctx) (hfl : s.ctx.freeList = []) (out : PutOutcome) :
    ∃ r s', evictPage (s.ctx.numPages + 1) s out = some (r, s') ∧ Evicted s out r s' := by
  obtain ⟨k, hk⟩ := s.ctx.exists_stopsAt
  have hle := hk.le
  have hrun := (evictPage_passed h hfl out hle hk.bit_set).2.append
    (Moves.one (victimMove_enabled h hfl hk out))
  refine ⟨_, _, (evictPage_eq h hfl hk out _).trans (if_pos (by omega)), ?_⟩
  by_cases hfail : (s.ctx.passed k).NeedsWriteback (s.ctx.clockPage k) ∧ out ≠ .ok
  · rw [if_pos (show s.ctx.NeedsWriteback _ ∧ _ from hfail)]
    obtain ⟨hwb, hout⟩ := hfail
    cases out with
    | ok => exact absurd rfl hout
    | failed applied =>
        rw [victimMove_failed hwb] at hrun ⊢
        exact .failed _ rfl hrun
  · rw [if_neg (show ¬ (s.ctx.NeedsWriteback _ ∧ _) from hfail)]
    rw [victimMove_evict hfail] at hrun ⊢
    exact .victim _ hrun

/-! ## Prefetching -/

/-- What the first loop of `dsm_prefetch_pages` may collect from the pages `[lo, hi)`: absent remote
pages, in increasing order, each with a frame of its own. -/
structure Collected (ctx : DsmContext) (lo hi : Nat) (batch : List (Nat × Nat)) : Prop where
  pages : (batch.map Prod.fst).Pairwise (· < ·)
  frames : (batch.map Prod.snd).Nodup
  absent : ∀ x ∈ batch, lo ≤ x.1 ∧ x.1 < hi ∧ x.1 < ctx.numVirtualPages ∧
    (ctx.pageTable x.1).valid = false ∧ (ctx.pageTable x.1).location = .locRemote

def frameSet (batch : List (Nat × Nat)) : Finset Nat := (batch.map Prod.snd).toFinset

@[simp] theorem frameSet_nil : frameSet [] = ∅ := rfl

theorem frameSet_cons (x : Nat × Nat) (batch : List (Nat × Nat)) :
    frameSet (x :: batch) = insert x.2 (frameSet batch) := by
  simp [frameSet]

theorem Collected.nil (ctx : DsmContext) (lo hi : Nat) : Collected ctx lo hi [] :=
  ⟨by simp, by simp, by simp⟩

theorem Collected.mono {lo lo' hi hi' : Nat} {batch : List (Nat × Nat)}
    (h : Collected ctx lo hi batch) (hlo : lo' ≤ lo) (hhi : hi ≤ hi') :
    Collected ctx lo' hi' batch := by
  refine ⟨h.pages, h.frames, ?_⟩
  intro x hx
  obtain ⟨h₁, h₂, h₃⟩ := h.absent x hx
  exact ⟨by omega, by omega, h₃⟩

/-- One more page in front, with a frame that none of the others has. -/
theorem Collected.cons {p hi f : Nat} {batch : List (Nat × Nat)}
    (h : Collected ctx (p + 1) hi batch) (hp : p < ctx.numVirtualPages) (hhi : p < hi)
    (hinv : (ctx.pageTable p).valid = false) (hloc : (ctx.pageTable p).location = .locRemote)
    (hf : ∀ x ∈ batch, x.2 ≠ f) : Collected ctx p hi ((p, f) :: batch) := by
  refine ⟨?_, ?_, ?_⟩
  · rw [List.map_cons, List.pairwise_cons]
    refine ⟨?_, h.pages⟩
    intro q hq
    obtain ⟨x, hx, rfl⟩ := List.mem_map.mp hq
    exact (h.absent x hx).1
  · rw [List.map_cons, List.nodup_cons]
    refine ⟨?_, h.frames⟩
    intro hmem
    obtain ⟨x, hx, hxf⟩ := List.mem_map.mp hmem
    exact hf x hx hxf
  · intro x hx
    rcases List.mem_cons.mp hx with rfl | hx
    · exact ⟨le_rfl, hhi, hp, hinv, hloc⟩
    · exact (h.mono (Nat.le_succ p) le_rfl).absent x hx

/-- One turn of the first loop: it stops, because the batch is full, the page is past the last one or no
frame is left; or it skips the page; or it takes a frame for it. -/
inductive CollectTurn (startPage left i : Nat) (ctx : DsmContext) (batch : List (Nat × Nat)) : Prop
  | full (hfull : dsmPrefetchMax ≤ batch.length)
      (heq : prefetchCollect startPage (left + 1) i ctx batch = some (batch, ctx))
  | past (hpast : ctx.numVirtualPages ≤ startPage + i)
      (heq : prefetchCollect startPage (left + 1) i ctx batch = some (batch, ctx))
  | stuck (hfl : ctx.freeList = [])
      (heq : prefetchCollect startPage (left + 1) i ctx batch = some (batch, ctx))
  | skip (hp : startPage + i < ctx.numVirtualPages)
      (hskip : (ctx.pageTable (startPage + i)).valid = true ∨
        (ctx.pageTable (startPage + i)).location ≠ .locRemote)
      (heq : prefetchCollect startPage (left + 1) i ctx batch =
        prefetchCollect startPage left (i + 1) ctx batch)
  | take (hroom : batch.length < dsmPrefetchMax) (hp : startPage + i < ctx.numVirtualPages)
      (hinv : (ctx.pageTable (startPage + i)).valid = false)
      (hloc : (ctx.pageTable (startPage + i)).location = .locRemote) (f : Nat) (rest : List Nat)
      (hfl : ctx.freeList = f :: rest)
      (heq : prefetchCollect startPage (left + 1) i ctx batch =
        prefetchCollect startPage left (i + 1) { ctx with freeList := rest }
          (batch ++ [(startPage + i, f)]))

theorem prefetchCollect_turn {startPage i : Nat} {ctx : DsmContext} (hlt : startPage + i < 2 ^ 32)
    (hfree : ∀ f ∈ ctx.freeList, f ≠ dsmNoFrame) (left : Nat) (batch : List (Nat × Nat)) :
    CollectTurn startPage left i ctx batch := by
  by_cases hroom : batch.length < dsmPrefetchMax
  · by_cases hp : startPage + i < ctx.numVirtualPages
    · by_cases hskip : (ctx.pageTable (startPage + i)).valid = true ∨
        (ctx.pageTable (startPage + i)).location ≠ .locRemote
      · refine .skip hp hskip ?_
        simp [prefetchCollect, hroom, u32_of_lt hlt, not_le.mpr hp, entryAt_of_lt hp, hskip]
      · obtain ⟨hinv, hloc⟩ : (ctx.pageTable (startPage + i)).valid = false ∧
            (ctx.pageTable (startPage + i)).location = .locRemote := by
          simpa using hskip
        cases hfl : ctx.freeList with
        | nil =>
            refine .stuck hfl ?_
            simp [prefetchCollect, hroom, u32_of_lt hlt, not_le.mpr hp, entryAt_of_lt hp, hinv, hloc,
              getFreeFrame, hfl]
        | cons f rest =>
            have hf := hfree f (hfl ▸ List.mem_cons_self)
            refine .take hroom hp hinv hloc f rest hfl ?_
            simp [prefetchCollect, hroom, u32_of_lt hlt, not_le.mpr hp, entryAt_of_lt hp, hinv, hloc,
              getFreeFrame, hfl, hf]
    · refine .past (not_lt.mp hp) ?_
      simp [prefetchCollect, u32_of_lt hlt, not_lt.mp hp]
  · refine .full (not_lt.mp hroom) ?_
    simp [prefetchCollect, hroom]

/-- The first loop: it pops one free frame for each page it collects. -/
theorem prefetchCollect_run (remote : Remote) (startPage : Nat) :
    ∀ (left i : Nat) (ctx : DsmContext) (batch : List (Nat × Nat)) (held : Finset Nat),
      RepInv held ctx → startPage + i < 2 ^ 32 →
      ∃ new ctx', prefetchCollect startPage left i ctx batch = some (batch ++ new, ctx') ∧
        Moves ⟨held, ctx, remote⟩ (new.map fun x => .take x.2)
          ⟨held ∪ frameSet new, ctx', remote⟩ ∧
        Collected ctx (startPage + i) (startPage + i + left) new ∧ ∀ x ∈ new, x.2 ∉ held := by
  intro left
  induction left with
  | zero =>
      intro i ctx batch held _ _
      refine ⟨[], ctx, by simp [prefetchCollect], ?_, .nil _ _ _, by simp⟩
      rw [frameSet_nil, Finset.union_empty]
      exact Run.nil _
  | succ left ih =>
      intro i ctx batch held h hlt
      -- Stopping here collects nothing more.
      have stop : ∃ new ctx', some (batch, ctx) = some (batch ++ new, ctx') ∧
          Moves ⟨held, ctx, remote⟩ (new.map fun x => .take x.2)
            ⟨held ∪ frameSet new, ctx', remote⟩ ∧
          Collected ctx (startPage + i) (startPage + i + (left + 1)) new ∧ ∀ x ∈ new, x.2 ∉ held := by
        refine ⟨[], ctx, by simp, ?_, .nil _ _ _, by simp⟩
        rw [frameSet_nil, Finset.union_empty]
        exact Run.nil _
      have hnv := h.numVirtualPages_lt
      cases prefetchCollect_turn hlt (fun f hf => h.ne_noFrame (h.lt_of_free hf)) left batch with
      | full _ heq | past _ heq | stuck _ heq =>
          rw [heq]
          exact stop
      | skip hp _ heq =>
          obtain ⟨new, ctx', heq', hrun, hcol, hnot⟩ := ih (i + 1) ctx batch held h (by omega)
          exact ⟨new, ctx', heq.trans heq', hrun, hcol.mono (by omega) (by omega), hnot⟩
      | take _ hp hinv hloc f rest hfl heq =>
          have hhead : ctx.freeList.head? = some f := by rw [hfl]; rfl
          have hf : f ∈ ctx.freeList := by rw [hfl]; exact List.mem_cons_self
          have htail : ctx.freeList.tail = rest := by rw [hfl]; rfl
          have htake := h.take hhead
          rw [htail] at htake
          obtain ⟨new, ctx', heq', hrun, hcol, hnot⟩ :=
            ih (i + 1) { ctx with freeList := rest } (batch ++ [(startPage + i, f)]) (insert f held)
              htake (by omega)
          refine ⟨(startPage + i, f) :: new, ctx', by rw [heq, heq']; simp, ?_, ?_, ?_⟩
          · rw [frameSet_cons, Finset.union_insert, ← Finset.insert_union]
            refine .cons ⟨hhead, ?_⟩ hrun
            simp [Move.apply, Move.onContext, Move.onRemote, Move.onHeld, htail]
          · have hcol' : Collected ctx (startPage + i + 1) (startPage + i + (left + 1)) new :=
              (⟨hcol.pages, hcol.frames, hcol.absent⟩ : Collected ctx _ _ new).mono
                (by omega) (by omega)
            refine hcol'.cons hp (by omega) hinv hloc ?_
            rintro x hx rfl
            exact hnot x hx (Finset.mem_insert_self _ held)
          · intro x hx
            rcases List.mem_cons.mp hx with rfl | hx
            · exact fun hh => h.held_not_free _ hh hf
            · exact fun hh => hnot x hx (Finset.mem_insert_of_mem hh)

/-- The rollback loop gives every collected frame back. -/
theorem prefetchRollback_run (remote : Remote) :
    ∀ (batch : List (Nat × Nat)) (ctx : DsmContext), RepInv (frameSet batch) ctx →
      (batch.map Prod.snd).Nodup →
      ∃ ctx', prefetchRollback batch ctx = some ctx' ∧
        Moves ⟨frameSet batch, ctx, remote⟩ (batch.map fun x => .give x.2) ⟨∅, ctx', remote⟩ := by
  intro batch
  induction batch with
  | nil => exact fun ctx _ _ => ⟨ctx, rfl, Run.nil _⟩
  | cons x batch ih =>
      intro ctx h hnd
      obtain ⟨p, f⟩ := x
      rw [List.map_cons, List.nodup_cons] at hnd
      have hf : f ∈ frameSet ((p, f) :: batch) := by simp [frameSet]
      have hrest : (frameSet ((p, f) :: batch)).erase f = frameSet batch := by
        rw [frameSet_cons]
        exact Finset.erase_insert (by simpa [frameSet] using hnd.1)
      have hgive := h.give hf
      rw [hrest] at hgive
      obtain ⟨ctx', heq, hrun⟩ := ih _ hgive hnd.2
      refine ⟨ctx', ?_, .cons ⟨hf, ?_⟩ hrun⟩
      · simp [prefetchRollback, pushFreeFrame_of_held h hf, heq]
      · simp [Move.apply, Move.onContext, Move.onRemote, Move.onHeld, hrest]

/-- The commit loop installs every collected page in its frame. -/
theorem prefetchCommit_run (remote : Remote) (lo hi : Nat) :
    ∀ (batch : List (Nat × Nat)) (ctx : DsmContext), RepInv (frameSet batch) ctx →
      Collected ctx lo hi batch →
      ∃ ctx', prefetchCommit batch ((batch.map Prod.fst).map remote.store) ctx = some ctx' ∧
        Moves ⟨frameSet batch, ctx, remote⟩ (batch.map fun x => .prefetch x.1 x.2)
          ⟨∅, ctx', remote⟩ := by
  intro batch
  induction batch with
  | nil => exact fun ctx _ _ => ⟨ctx, rfl, Run.nil _⟩
  | cons x batch ih =>
      intro ctx h hcol
      obtain ⟨p, f⟩ := x
      have hnd := hcol.frames
      have hsort := hcol.pages
      rw [List.map_cons, List.nodup_cons] at hnd
      rw [List.map_cons, List.pairwise_cons] at hsort
      obtain ⟨-, -, hp, hinv, hloc⟩ := hcol.absent (p, f) List.mem_cons_self
      have hf : f ∈ frameSet ((p, f) :: batch) := by simp [frameSet]
      have hrest : (frameSet ((p, f) :: batch)).erase f = frameSet batch := by
        rw [frameSet_cons]
        exact Finset.erase_insert (by simpa [frameSet] using hnd.1)
      have hen : (Move.prefetch p f).Enabled ⟨frameSet ((p, f) :: batch), ctx, remote⟩ :=
        ⟨hf, hp, hinv, hloc⟩
      have hinst := h.move (w := ⟨frameSet ((p, f) :: batch), ctx, remote⟩) ⟨hen, rfl⟩
      simp only [Move.apply, Move.onHeld, hrest] at hinst
      -- The remaining pages are other pages, so they are still absent.
      have hcol' : Collected ((Move.prefetch p f).onContext ctx remote.store) lo hi batch := by
        refine ⟨hsort.2, hnd.2, ?_⟩
        intro y hy
        have hne : y.1 ≠ p := by
          have := hsort.1 y.1 (List.mem_map_of_mem hy)
          simp only at this
          omega
        have habs := hcol.absent y (List.mem_cons_of_mem _ hy)
        simpa [Move.onContext, mapPage, setFrame, setEntry, setMemory, hne] using habs
      obtain ⟨ctx', heq, hrun⟩ := ih _ hinst hcol'
      refine ⟨ctx', ?_, .cons ⟨hen, ?_⟩ hrun⟩
      · rw [List.map_cons, List.map_cons, prefetchCommit, prefetchInstall, entryAt_of_lt hp,
          frameAt_of_lt (h.lt_of_held hf)]
        exact heq
      · simp [Move.apply, Move.onRemote, Move.onHeld, hrest]

/-- Popping frames leaves the page table alone. -/
theorem Collected.after_takes {w w' : Work} (fs : List Nat) (hrun : Moves w (fs.map .take) w')
    {lo hi : Nat} {batch : List (Nat × Nat)} (h : Collected w.pager.ctx lo hi batch) :
    Collected w'.pager.ctx lo hi batch := by
  induction fs generalizing w with
  | nil =>
      cases hrun
      exact h
  | cons f fs ih =>
      cases hrun with
      | cons hstep hrest =>
          obtain ⟨-, rfl⟩ := hstep
          exact ih hrest ⟨h.pages, h.frames, h.absent⟩

/-- The moves of a prefetch that collected `batch`. -/
def prefetchMoves (batch : List (Nat × Nat)) (ok : Bool) : List Move :=
  batch.map (fun x => .take x.2) ++
    if batch = [] then []
    else .batch (batch.map Prod.fst) ok ::
      batch.map fun x => if ok then .prefetch x.1 x.2 else .give x.2

/-- **`dsm_prefetch_pages` returns**, whatever the start page and the count. -/
theorem dsmPrefetchPages_run (h : RepInv ∅ s.ctx) {startPage : Nat} (hstart : startPage < 2 ^ 32)
    (count : Nat) (ok : Bool) :
    ∃ s' batch, dsmPrefetchPages s startPage count ok = some s' ∧
      Moves ⟨∅, s⟩ (prefetchMoves batch ok) ⟨∅, s'⟩ ∧
      Collected s.ctx startPage (startPage + count) batch ∧
      ∃ ctx', prefetchCollect startPage count 0 s.ctx [] = some (batch, ctx') := by
  obtain ⟨batch, ctx', heq, hrun, hcol, -⟩ :=
    prefetchCollect_run s.remote startPage count 0 s.ctx [] ∅ h (by omega)
  rw [List.nil_append] at heq
  rw [Finset.empty_union] at hrun
  have h' : RepInv (frameSet batch) ctx' := h.moves hrun
  rw [dsmPrefetchPages, heq]
  simp only [Option.bind_eq_bind, Option.bind_some, List.isEmpty_iff]
  by_cases hb : batch = []
  · subst hb
    refine ⟨⟨ctx', s.remote⟩, [], by simp, by simpa [prefetchMoves, frameSet] using hrun, hcol,
      ctx', rfl⟩
  · have hbatch : Moves ⟨frameSet batch, ctx', s.remote⟩ [.batch (batch.map Prod.fst) ok]
        ⟨frameSet batch, ctx', _⟩ := Moves.one (m := .batch (batch.map Prod.fst) ok) trivial
    rw [if_neg hb]
    cases ok with
    | false =>
        obtain ⟨ctx'', hback, hgive⟩ := prefetchRollback_run
          { s.remote with log := .getBatch (batch.map Prod.fst) false :: s.remote.log } batch ctx' h'
          hcol.frames
        refine ⟨⟨ctx'', _⟩, batch, by simp [Remote.dsmRpcGetBatch, hback]; rfl, ?_, hcol, ctx', rfl⟩
        have := hrun.append (hbatch.append hgive)
        simpa [prefetchMoves, hb] using this
    | true =>
        have htakes : Moves ⟨∅, s⟩ ((batch.map Prod.snd).map .take)
            ⟨frameSet batch, ctx', s.remote⟩ := by
          rw [List.map_map]
          exact hrun
        have hcol' : Collected ctx' startPage (startPage + count) batch :=
          Collected.after_takes _ htakes hcol
        obtain ⟨ctx'', hcommit, hinst⟩ := prefetchCommit_run
          { s.remote with log := .getBatch (batch.map Prod.fst) true :: s.remote.log } _ _ batch ctx'
          h' hcol'
        refine ⟨⟨ctx'', _⟩, batch, by simp [Remote.dsmRpcGetBatch] at hcommit ⊢; simp [hcommit]; rfl,
          ?_, hcol, ctx', rfl⟩
        have := hrun.append (hbatch.append hinst)
        simpa [prefetchMoves, hb] using this

/-! ## Access -/

/-- The clock neither brings pages in nor remembers an access. -/
theorem sweeps_keep {w w' : Work} (qs : List Nat) {q f : Nat}
    (h : Moves w (qs.map .sweep ++ [.evict q f]) w') :
    w'.pager.ctx.lastPageId = w.pager.ctx.lastPageId ∧
    ∀ p, (w.pager.ctx.pageTable p).valid = false → (w'.pager.ctx.pageTable p).valid = false := by
  induction qs generalizing w with
  | nil =>
      obtain - | ⟨⟨-, rfl⟩, hrest⟩ := h
      cases hrest
      refine ⟨rfl, ?_⟩
      intro p hp
      by_cases hpq : p = q <;>
        simp [Move.apply, Move.onContext, unmapPage, advanceHand, setFrame, setEntry, hpq, hp]
  | cons q' qs ih =>
      obtain - | ⟨⟨-, rfl⟩, hrest⟩ := h
      obtain ⟨hlast, hval⟩ := ih hrest
      refine ⟨hlast, ?_⟩
      intro p hp
      apply hval
      by_cases hpq : p = q'
      · subst hpq
        simp [Move.apply, Move.onContext, advanceHand, setEntry, hp]
      · simp [Move.apply, Move.onContext, advanceHand, setEntry, hpq, hp]

/-- How `dsm_access_page_slow` comes by a frame: it pops one, or the clock gives one up. -/
inductive Acquired (f : Nat) : List Move → Prop
  | popped : Acquired f [.take f]
  | evicted (qs : List Nat) (q : Nat) : Acquired f (qs.map .sweep ++ [.evict q f])

/-- The automatic prefetch at the end of a served miss on page `p`. -/
def Trailing (last p : Nat) (ok : Bool) (ms : List Move) : Prop :=
  if p = u32 (last + 1) then ∃ batch, ms = prefetchMoves batch ok else ms = []

/-- The moves of `dsm_access_page` and the pointer it returns. -/
inductive AccessMoves (ctx : DsmContext) (p : Nat) (write : Int32) (rpc : RpcScript) :
    Option Nat → List Move → Prop
  | hit (f : Nat) : ctx.Maps p f → AccessMoves ctx p write rpc (some f) [.hit p write]
  | putFailed (qs : List Nat) (q f : Nat) (applied : Bool) : rpc.put = .failed applied →
      AccessMoves ctx p write rpc none (qs.map .sweep ++ [.putFailed q f applied])
  | fetchFailed (acq : List Move) (f : Nat) (left : Page) : Acquired f acq →
      rpc.get = .failed left →
      AccessMoves ctx p write rpc none (acq ++ [.fetchFailed p f left, .give f])
  | fetched (acq trail : List Move) (f : Nat) : 0 ≤ ctx.sockFd → Acquired f acq →
      rpc.get = .ok → Trailing ctx.lastPageId p rpc.batch trail →
      AccessMoves ctx p write rpc (some f) (acq ++ .fetch p f write :: (trail ++ [.remember p]))
  | served (acq trail : List Move) (f : Nat) : ctx.sockFd < 0 → Acquired f acq →
      Trailing ctx.lastPageId p rpc.batch trail →
      AccessMoves ctx p write rpc (some f) (acq ++ .mapLocal p f write :: (trail ++ [.remember p]))

/-- The moves of `dsm_access_page_slow` once it holds the frame `f`. -/
inductive FrameMoves (ctx : DsmContext) (p f : Nat) (write : Int32) (rpc : RpcScript) :
    Option Nat → List Move → Prop
  | fetchFailed (left : Page) : rpc.get = .failed left →
      FrameMoves ctx p f write rpc none [.fetchFailed p f left, .give f]
  | fetched (trail : List Move) : 0 ≤ ctx.sockFd → rpc.get = .ok →
      Trailing ctx.lastPageId p rpc.batch trail →
      FrameMoves ctx p f write rpc (some f) (.fetch p f write :: (trail ++ [.remember p]))
  | served (trail : List Move) : ctx.sockFd < 0 → Trailing ctx.lastPageId p rpc.batch trail →
      FrameMoves ctx p f write rpc (some f) (.mapLocal p f write :: (trail ++ [.remember p]))

theorem FrameMoves.congr {ctx' : DsmContext} {p f : Nat} {write : Int32} {rpc : RpcScript}
    {r : Option Nat} {ms : List Move} (h : FrameMoves ctx p f write rpc r ms)
    (hfd : ctx'.sockFd = ctx.sockFd) (hlast : ctx'.lastPageId = ctx.lastPageId) :
    FrameMoves ctx' p f write rpc r ms := by
  cases h with
  | fetchFailed left hget => exact .fetchFailed left hget
  | fetched trail hsock hget htrail => exact .fetched trail (hfd ▸ hsock) hget (hlast ▸ htrail)
  | served trail hsock htrail => exact .served trail (hfd ▸ hsock) (hlast ▸ htrail)

theorem FrameMoves.access {p f : Nat} {write : Int32} {rpc : RpcScript} {r : Option Nat}
    {acq ms : List Move} (h : FrameMoves ctx p f write rpc r ms) (hacq : Acquired f acq) :
    AccessMoves ctx p write rpc r (acq ++ ms) := by
  cases h with
  | fetchFailed left hget => exact .fetchFailed acq f left hacq hget
  | fetched trail hsock hget htrail => exact .fetched acq trail f hsock hacq hget htrail
  | served trail hsock htrail => exact .served acq trail f hsock hacq htrail

theorem accessInstall_eq (h : RepInv held ctx) {p f : Nat} (hf : f ∈ held)
    (hp : p < ctx.numVirtualPages) (write : Int32) (fetched : Bool) :
    accessInstall ctx p f write fetched = some (ctx.mapPage p f
      { referenceBit := true, dirty := writeByte write,
        location := if fetched then .locRemote else .locLocal }) := by
  simp [accessInstall, entryAt_of_lt hp, frameAt_of_lt (h.lt_of_held hf), mapPage, setEntry]

/-- From the table updates on, an access prefetches if it has to and returns its frame. -/
theorem accessFinish_run {p f : Nat} {write : Int32} {fetched : Bool} {ctx' : DsmContext}
    (hinst : accessInstall s.ctx p f write fetched = some ctx') (h : RepInv ∅ ctx')
    (rpc : RpcScript) :
    ∃ s' trail, accessFinish s p f write fetched rpc = some (some f, s') ∧
      Moves ⟨∅, ctx', s.remote⟩ (trail ++ [.remember p]) ⟨∅, s'⟩ ∧
      Trailing ctx'.lastPageId p rpc.batch trail := by
  unfold accessFinish Trailing
  rw [hinst]
  simp only [Option.bind_eq_bind, Option.bind_some]
  split
  · have hstart := u32_lt (p + 1)
    obtain ⟨s₁, batch, heq, hrun, -⟩ := dsmPrefetchPages_run (s := ⟨ctx', s.remote⟩) h hstart
      ctx'.prefetchCount rpc.batch
    refine ⟨_, prefetchMoves batch rpc.batch, by rw [heq]; rfl, ?_, batch, rfl⟩
    exact hrun.append (Moves.one (m := .remember p) trivial)
  · exact ⟨_, [], rfl, Moves.one (m := .remember p) trivial, rfl⟩

/-- An access that holds a frame for its page: the fetch, the table updates, the prefetch. -/
theorem accessWithFrame_run {p f : Nat} (h : RepInv {f} s.ctx) (hp : p < s.ctx.numVirtualPages)
    (hinv : (s.ctx.pageTable p).valid = false) (write : Int32) (rpc : RpcScript) :
    ∃ r s' ms, accessWithFrame s p f write rpc = some (r, s') ∧ Moves ⟨{f}, s⟩ ms ⟨∅, s'⟩ ∧
      FrameMoves s.ctx p f write rpc r ms := by
  have hf : f ∈ ({f} : Finset Nat) := Finset.mem_singleton_self f
  unfold accessWithFrame
  by_cases hsock : 0 ≤ s.ctx.sockFd
  · rw [if_pos hsock]
    cases hget : rpc.get with
    | ok =>
        have hen : (Move.fetch p f write).Enabled ⟨{f}, s⟩ := ⟨hsock, hf, hp, hinv⟩
        have h' := h.move (w := ⟨{f}, s⟩) ⟨hen, rfl⟩
        simp only [Move.apply, Move.onHeld, Finset.erase_singleton] at h'
        have hmem : RepInv {f} { s.ctx.setMemory f (s.remote.store p) with
            remoteFetches := u64 (s.ctx.remoteFetches + 1) } :=
          h.congr (fun _ => rfl) (fun _ => rfl) rfl rfl rfl rfl h.hand_lt
        obtain ⟨s', trail, heq, hrun, htrail⟩ := accessFinish_run
          (s := ⟨{ s.ctx.setMemory f (s.remote.store p) with
            remoteFetches := u64 (s.ctx.remoteFetches + 1) }, _⟩)
          (accessInstall_eq hmem hf hp write true) h' rpc
        refine ⟨some f, s', .fetch p f write :: (trail ++ [.remember p]), heq, .cons ⟨hen, rfl⟩ ?_,
          .fetched trail hsock hget htrail⟩
        rw [Move.apply_eq (w := ⟨{f}, s⟩) (m := .fetch p f write) (Finset.erase_singleton f)]
        exact hrun
    | failed left =>
        have hen : (Move.fetchFailed p f left).Enabled ⟨{f}, s⟩ := ⟨hsock, hf⟩
        have h' := h.move (w := ⟨{f}, s⟩) ⟨hen, rfl⟩
        have hgive := Moves.one (w := (Move.fetchFailed p f left).apply ⟨{f}, s⟩) (m := .give f) hf
        rw [Move.apply_eq (w := (Move.fetchFailed p f left).apply ⟨{f}, s⟩) (m := .give f)
          (Finset.erase_singleton f)] at hgive
        refine ⟨none, _, [.fetchFailed p f left, .give f], ?_, .cons ⟨hen, rfl⟩ hgive,
          .fetchFailed left hget⟩
        simp only [Remote.dsmRpcGet, Bool.false_eq_true, if_false]
        rw [show (s.ctx.setMemory f left).pushFreeFrame f = _ from pushFreeFrame_of_held h' hf]
        rfl
  · rw [if_neg hsock]
    have hneg : s.ctx.sockFd < 0 := by omega
    have hen : (Move.mapLocal p f write).Enabled ⟨{f}, s⟩ := ⟨hneg, hf, hp, hinv⟩
    have h' := h.move (w := ⟨{f}, s⟩) ⟨hen, rfl⟩
    simp only [Move.apply, Move.onHeld, Finset.erase_singleton] at h'
    obtain ⟨s', trail, heq, hrun, htrail⟩ :=
      accessFinish_run (accessInstall_eq h hf hp write false) h' rpc
    refine ⟨some f, s', .mapLocal p f write :: (trail ++ [.remember p]), heq, .cons ⟨hen, rfl⟩ ?_,
      .served trail hneg htrail⟩
    rw [Move.apply_eq (w := ⟨{f}, s⟩) (m := .mapLocal p f write) (Finset.erase_singleton f)]
    exact hrun

/-- The pager after the eviction of the page `k` places after the hand. -/
def Pager.evictedAt (s : Pager) (k : Nat) : Pager :=
  ((Move.evict (s.ctx.clockPage k) (s.ctx.clockFrame k)).apply ⟨∅, s.ctx.passed k, s.remote⟩).pager

/-- How `dsm_access_page` goes: it finds the page; or it pops a free frame for it; or the clock gives
a frame up, or cannot because the writeback of its victim fails. -/
inductive Accessed (s : Pager) (p : Nat) (write : Int32) (rpc : RpcScript) :
    Option Nat → Pager → Prop
  | hit {f : Nat} : s.ctx.Maps p f →
      Accessed s p write rpc (some f)
        { s with ctx := accessHit s.ctx p (s.ctx.pageTable p) write }
  | popped {f : Nat} {rest : List Nat} {r : Option Nat} {ms : List Move} {s' : Pager} :
      (s.ctx.pageTable p).valid = false → s.ctx.freeList = f :: rest →
      Moves ⟨{f}, { s.ctx with freeList := rest }, s.remote⟩ ms ⟨∅, s'⟩ →
      FrameMoves s.ctx p f write rpc r ms → Accessed s p write rpc r s'
  | stuck {k : Nat} {applied : Bool} :
      (s.ctx.pageTable p).valid = false → s.ctx.freeList = [] → s.ctx.StopsAt k →
      s.ctx.NeedsWriteback (s.ctx.clockPage k) → rpc.put = .failed applied →
      Accessed s p write rpc none
        ((Move.putFailed (s.ctx.clockPage k) (s.ctx.clockFrame k) applied).apply
          ⟨∅, s.ctx.passed k, s.remote⟩).pager
  | evicted {k : Nat} {r : Option Nat} {ms : List Move} {s' : Pager} :
      (s.ctx.pageTable p).valid = false → s.ctx.freeList = [] → s.ctx.StopsAt k →
      (s.ctx.NeedsWriteback (s.ctx.clockPage k) → rpc.put = .ok) →
      Moves ⟨{s.ctx.clockFrame k}, s.evictedAt k⟩ ms ⟨∅, s'⟩ →
      FrameMoves s.ctx p (s.ctx.clockFrame k) write rpc r ms → Accessed s p write rpc r s'

/-- The eviction of the page the clock stops at, as moves. -/
theorem evict_run (h : RepInv ∅ s.ctx) (hfl : s.ctx.freeList = []) {k : Nat}
    (hk : s.ctx.StopsAt k) :
    Moves ⟨∅, s⟩ ((s.ctx.passedPages k).map .sweep ++
      [.evict (s.ctx.clockPage k) (s.ctx.clockFrame k)]) ⟨{s.ctx.clockFrame k}, s.evictedAt k⟩ :=
  (evictPage_passed h hfl .ok hk.le hk.bit_set).2.append
    (Moves.one (victimMove_enabled h hfl hk .ok))

/-! The four ways of `dsm_access_page`, as equations. -/

section Ways

variable {p : Nat} (h : RepInv ∅ s.ctx) (write : Int32) (rpc : RpcScript)

include h

/-- A page that is cached is found. -/
theorem dsmAccessPage_hit {f : Nat} (hm : s.ctx.Maps p f) :
    dsmAccessPage s p write rpc =
      some (some f, { s with ctx := accessHit s.ctx p (s.ctx.pageTable p) write }) := by
  have hlt := ((h.maps_iff _ _).mp hm).1
  obtain ⟨hp, hv, rfl⟩ := hm
  simp [dsmAccessPage, entryAt_of_lt hp, hv, frameAt_of_lt hlt]

variable (hp : p < s.ctx.numVirtualPages) (hv : (s.ctx.pageTable p).valid = false)

include hp hv

/-- A miss takes a free frame, if there is one. -/
theorem dsmAccessPage_popped {f : Nat} {rest : List Nat} (hfl : s.ctx.freeList = f :: rest) :
    dsmAccessPage s p write rpc =
      accessWithFrame ⟨{ s.ctx with freeList := rest }, s.remote⟩ p f write rpc := by
  have hf : f ∈ s.ctx.freeList := by rw [hfl]; exact List.mem_cons_self
  simp only [dsmAccessPage, entryAt_of_lt hp, Option.bind_eq_bind, Option.bind_some, hv,
    Bool.false_eq_true, if_false, dsmAccessPageSlow, getFreeFrame, hfl,
    if_neg (h.ne_noFrame (h.lt_of_free hf))]

variable (hfl : s.ctx.freeList = []) {k : Nat} (hk : s.ctx.StopsAt k)

include hfl hk

/-- Otherwise the clock gives one up. -/
theorem dsmAccessPage_evicted (hput : s.ctx.NeedsWriteback (s.ctx.clockPage k) → rpc.put = .ok) :
    dsmAccessPage s p write rpc =
      accessWithFrame (s.evictedAt k) p (s.ctx.clockFrame k) write rpc := by
  have hle := hk.le
  have hgo : ¬ ((s.ctx.passed k).NeedsWriteback (s.ctx.clockPage k) ∧ rpc.put ≠ .ok) :=
    fun hc => hc.2 (hput hc.1)
  have hevict : evictPage (s.ctx.numPages + 1) s rpc.put =
      some (s.ctx.clockFrame k, s.evictedAt k) := by
    rw [evictPage_eq h hfl hk, if_pos (by omega), victimMove_evict hgo,
      if_neg (show ¬ (s.ctx.NeedsWriteback _ ∧ _) from hgo)]
    rfl
  simp only [dsmAccessPage, entryAt_of_lt hp, Option.bind_eq_bind, Option.bind_some, hv,
    Bool.false_eq_true, if_false, dsmAccessPageSlow, getFreeFrame, hfl, if_true, hevict,
    if_neg (h.ne_noFrame (h.clockFrame_lt k))]

/-- Or it cannot, because the victim has to be written back and the PUT fails. -/
theorem dsmAccessPage_stuck {applied : Bool} (hwb : s.ctx.NeedsWriteback (s.ctx.clockPage k))
    (hput : rpc.put = .failed applied) :
    dsmAccessPage s p write rpc =
      some (none, ((Move.putFailed (s.ctx.clockPage k) (s.ctx.clockFrame k) applied).apply
        ⟨∅, s.ctx.passed k, s.remote⟩).pager) := by
  have hle := hk.le
  have hwb' : (s.ctx.passed k).NeedsWriteback (s.ctx.clockPage k) := hwb
  have hevict : evictPage (s.ctx.numPages + 1) s rpc.put =
      some (dsmNoFrame, ((Move.putFailed (s.ctx.clockPage k) (s.ctx.clockFrame k) applied).apply
        ⟨∅, s.ctx.passed k, s.remote⟩).pager) := by
    rw [evictPage_eq h hfl hk, if_pos (by omega), hput, victimMove_failed hwb',
      if_pos ⟨hwb, by simp⟩]
    rfl
  simp only [dsmAccessPage, entryAt_of_lt hp, Option.bind_eq_bind, Option.bind_some, hv,
    Bool.false_eq_true, if_false, dsmAccessPageSlow, getFreeFrame, hfl, if_true, hevict]
  rfl

end Ways

/-- What an access has when the clock has given a frame up: the frame, and everything else as before. -/
theorem evictedAt_ready (h : RepInv ∅ s.ctx) (hfl : s.ctx.freeList = []) {k : Nat}
    (hk : s.ctx.StopsAt k) {p : Nat} (hp : p < s.ctx.numVirtualPages)
    (hv : (s.ctx.pageTable p).valid = false) :
    RepInv {s.ctx.clockFrame k} (s.evictedAt k).ctx ∧ p < (s.evictedAt k).ctx.numVirtualPages ∧
      ((s.evictedAt k).ctx.pageTable p).valid = false ∧
      (s.evictedAt k).ctx.lastPageId = s.ctx.lastPageId := by
  have hrun := evict_run h hfl hk
  obtain ⟨hlast, hval⟩ := sweeps_keep _ hrun
  exact ⟨h.moves hrun, hrun.sizes.2.1 ▸ hp, hval p hv, hlast⟩

/-- The frame popped from the free list is held. -/
theorem popped_rep (h : RepInv ∅ s.ctx) {f : Nat} {rest : List Nat}
    (hfl : s.ctx.freeList = f :: rest) : RepInv {f} { s.ctx with freeList := rest } := by
  have htake := h.take (f := f) (by rw [hfl]; rfl)
  rwa [show s.ctx.freeList.tail = rest by rw [hfl]; rfl] at htake

/-- **`dsm_access_page` returns**, in one of the ways of `Accessed`. -/
theorem dsmAccessPage_accessed (h : RepInv ∅ s.ctx) {p : Nat} (hp : p < s.ctx.numVirtualPages)
    (write : Int32) (rpc : RpcScript) :
    ∃ r s', dsmAccessPage s p write rpc = some (r, s') ∧ Accessed s p write rpc r s' := by
  cases hv : (s.ctx.pageTable p).valid with
  | true => exact ⟨_, _, dsmAccessPage_hit h write rpc ⟨hp, hv, rfl⟩, .hit ⟨hp, hv, rfl⟩⟩
  | false =>
      cases hfl : s.ctx.freeList with
      | cons f rest =>
          obtain ⟨r, s', ms, heq, hrun, hms⟩ := accessWithFrame_run
            (s := ⟨{ s.ctx with freeList := rest }, s.remote⟩) (popped_rep h hfl) hp hv write rpc
          exact ⟨r, s', (dsmAccessPage_popped h write rpc hp hv hfl).trans heq,
            .popped hv hfl hrun (hms.congr rfl rfl)⟩
      | nil =>
          obtain ⟨k, hk⟩ := s.ctx.exists_stopsAt
          by_cases hfail : s.ctx.NeedsWriteback (s.ctx.clockPage k) ∧ rpc.put ≠ .ok
          · obtain ⟨hwb, hput⟩ := hfail
            cases hout : rpc.put with
            | ok => exact absurd hout hput
            | failed applied =>
                exact ⟨_, _, dsmAccessPage_stuck h write rpc hp hv hfl hk hwb hout,
                  .stuck hv hfl hk hwb hout⟩
          · have hput : s.ctx.NeedsWriteback (s.ctx.clockPage k) → rpc.put = .ok := by
              intro hwb
              by_contra hne
              exact hfail ⟨hwb, hne⟩
            obtain ⟨h₁, hp₁, hv₁, hlast⟩ := evictedAt_ready h hfl hk hp hv
            obtain ⟨r, s', ms, heq, hrun, hms⟩ := accessWithFrame_run h₁ hp₁ hv₁ write rpc
            exact ⟨r, s', (dsmAccessPage_evicted h write rpc hp hv hfl hk hput).trans heq,
              .evicted hv hfl hk hput hrun
                (hms.congr (evict_run h hfl hk).sizes.2.2.1.symm hlast.symm)⟩

/-- An access is a run of moves. -/
theorem Accessed.run (h : RepInv ∅ s.ctx) {p : Nat} {write : Int32} {rpc : RpcScript}
    {r : Option Nat} {s' : Pager} (hacc : Accessed s p write rpc r s') :
    ∃ ms, Moves ⟨∅, s⟩ ms ⟨∅, s'⟩ ∧ AccessMoves s.ctx p write rpc r ms := by
  cases hacc with
  | hit hmaps =>
      exact ⟨[.hit p write], Moves.one (m := .hit p write) ⟨hmaps.1, hmaps.2.1⟩, .hit _ hmaps⟩
  | popped hv hfl hrun hms =>
      refine ⟨_, .cons ⟨?_, ?_⟩ hrun, hms.access .popped⟩
      · simp [Move.Enabled, hfl]
      · simp [Move.apply, Move.onContext, Move.onRemote, Move.onHeld, hfl]
  | stuck hv hfl hk hwb hput =>
      refine ⟨_, (evictPage_passed h hfl .ok hk.le hk.bit_set).2.append (Moves.one
        (m := .putFailed _ _ _) ⟨rfl, h.holds_clockPage hfl _, h.bit_stopped hfl hk, hwb⟩),
        .putFailed _ _ _ _ hput⟩
  | evicted hv hfl hk hput hrun hms =>
      exact ⟨_, (evict_run h hfl hk).append hrun, hms.access (.evicted _ _)⟩

end Dsm.Paging
