import Dsm.Paging.Transparency

/-!
# Prefetching

`dsm_prefetch_pages` is a hint. Whatever its arguments and whatever the server answers, it never
disturbs what is cached (`prefetch_keeps_cache`). It is not always followed, though: a page is
eligible only if its entry says `LOC_REMOTE`, and a page that was never accessed says `LOC_LOCAL`,
because that is what `calloc` wrote. `prefetch_honoured_iff` says when the hint is followed, and
`prefetch_hint_ignored` is the first hint of a new context, which is not.
-/

namespace Dsm.Paging

open DsmContext Dsm.Lib

variable {s s' : Pager} {numPages numVirtualPages : Nat}

/-! ## The collecting loop -/

/-- Where the first loop of `dsm_prefetch_pages` ends: it has eight pages, or no frame is left, or it
has every eligible page of `[lo, hi)`. -/
structure CollectEnd (lo hi : Nat) (ctx : DsmContext) (batch batch' : List (Nat × Nat))
    (ctx' : DsmContext) : Prop where
  extends_batch : batch <+: batch'
  short : batch'.length ≤ dsmPrefetchMax
  frames : ctx'.freeList.length + batch'.length = ctx.freeList.length + batch.length
  complete : batch'.length = dsmPrefetchMax ∨ ctx'.freeList = [] ∨
    ∀ p, lo ≤ p → p < hi → p < ctx.numVirtualPages → (ctx.pageTable p).valid = false →
      (ctx.pageTable p).location = .locRemote → p ∈ batch'.map Prod.fst

theorem prefetchCollect_end (startPage : Nat) : ∀ (left i : Nat) (ctx : DsmContext)
    (batch : List (Nat × Nat)) (batch' : List (Nat × Nat)) (ctx' : DsmContext),
    prefetchCollect startPage left i ctx batch = some (batch', ctx') →
    batch.length ≤ dsmPrefetchMax → startPage + i < 2 ^ 32 → ctx.numVirtualPages < 2 ^ 32 →
    (∀ f ∈ ctx.freeList, f ≠ dsmNoFrame) →
    CollectEnd (startPage + i) (startPage + i + left) ctx batch batch' ctx' := by
  intro left
  induction left with
  | zero =>
      rintro i ctx batch batch' ctx' ⟨⟩ hlen - - -
      exact ⟨List.prefix_rfl, hlen, rfl, .inr (.inr fun p hlo hhi => by omega)⟩
  | succ left ih =>
      intro i ctx batch batch' ctx' heq hlen hlt hnv hfree
      cases prefetchCollect_turn hlt hfree left batch with
      | full hfull hstop =>
          obtain ⟨rfl, rfl⟩ := Prod.mk.inj (Option.some.inj (heq.symm.trans hstop))
          exact ⟨List.prefix_rfl, hlen, rfl, .inl (le_antisymm hlen hfull)⟩
      | past hpast hstop =>
          -- Past the last page: nothing in the range is left.
          obtain ⟨rfl, rfl⟩ := Prod.mk.inj (Option.some.inj (heq.symm.trans hstop))
          exact ⟨List.prefix_rfl, hlen, rfl, .inr (.inr fun p hlo _ hp => by omega)⟩
      | stuck hfl hstop =>
          obtain ⟨rfl, rfl⟩ := Prod.mk.inj (Option.some.inj (heq.symm.trans hstop))
          exact ⟨List.prefix_rfl, hlen, rfl, .inr (.inl hfl)⟩
      | skip hp hskip hnext =>
          obtain ⟨hext, hshort, hframes, hcomplete⟩ :=
            ih (i + 1) ctx batch batch' ctx' (hnext.symm.trans heq) hlen (by omega) hnv hfree
          refine ⟨hext, hshort, hframes, hcomplete.imp_right (.imp_right ?_)⟩
          intro hall p hlo hhi hpn hinv hloc
          have hne : p ≠ startPage + i := by
            rintro rfl
            rcases hskip with hv | hl
            · exact absurd (hv.symm.trans hinv) (by decide)
            · exact hl hloc
          exact hall p (by omega) (by omega) hpn hinv hloc
      | take hroom hp _ _ f rest hfl hnext =>
          obtain ⟨hext, hshort, hframes, hcomplete⟩ :=
            ih (i + 1) { ctx with freeList := rest } (batch ++ [(startPage + i, f)]) batch' ctx'
              (hnext.symm.trans heq) (by rw [List.length_append]; exact hroom) (by omega) hnv
              (fun g hg => hfree g (by rw [hfl]; exact List.mem_cons_of_mem _ hg))
          refine ⟨(List.prefix_append _ _).trans hext, hshort, ?_, ?_⟩
          · rw [hfl, List.length_cons]
            simp only [List.length_append, List.length_singleton] at hframes
            omega
          · refine hcomplete.imp_right (.imp_right ?_)
            intro hall p hlo hhi hpn hinv hloc
            by_cases hpi : p = startPage + i
            · subst hpi
              exact List.mem_map.mpr ⟨(startPage + i, f), hext.subset (by simp), rfl⟩
            · exact hall p (by omega) (by omega) hpn hinv hloc

/-! ## What is left when the call returns -/

/-- A batch that fails changes the order of the free list and the log, and nothing else. -/
theorem prefetch_rolledBack {w w' : Work} {batch : List (Nat × Nat)}
    (hrun : Moves w (prefetchMoves batch false) w') :
    w'.pager.ctx = { w.pager.ctx with freeList := w'.pager.ctx.freeList } ∧
      w'.pager.remote.store = w.pager.remote.store := by
  refine hrun.invariant_of_labels
    (fun v => v.pager.ctx = { w.pager.ctx with freeList := v.pager.ctx.freeList } ∧
      v.pager.remote.store = w.pager.remote.store)
    (fun m => m.IsPrefetching ∧ ∀ p f, m ≠ .prefetch p f) ?_ ?_ ⟨rfl, rfl⟩
  · rintro v m _ ⟨hm, hnot⟩ ⟨hctx, hstore⟩ ⟨-, rfl⟩
    cases m with
    | take f | give f =>
        refine ⟨?_, hstore⟩
        simp only [Move.apply, Move.onContext]
        rw [hctx]
    | batch ids ok => exact ⟨hctx, hstore⟩
    | prefetch p f => exact absurd rfl (hnot p f)
    | _ => exact absurd hm id
  · intro m hm
    refine ⟨isPrefetching_prefetchMoves batch false m hm, ?_⟩
    rintro p f rfl
    unfold prefetchMoves at hm
    split at hm <;> simp at hm

/-- The pages of a successful batch, each in its own frame, clean and as the server has them. -/
theorem prefetch_committed {w w' : Work} (batch : List (Nat × Nat))
    (hrun : Moves w (batch.map fun x => .prefetch x.1 x.2) w') (hrep : RepInv w.held w.pager.ctx) :
    ∀ x ∈ batch, x.2 ∈ w.held ∧ w'.pager.ctx.Maps x.1 x.2 ∧ (w'.pager.ctx.pageTable x.1).dirty = 0 ∧
      w'.pager.ctx.localMemory x.2 = w.pager.remote.store x.1 := by
  induction batch generalizing w with
  | nil => simp
  | cons y batch ih =>
      obtain - | ⟨⟨hen, rfl⟩, hrest⟩ := hrun
      have hrep' := hrep.move ⟨hen, rfl⟩
      intro x hx
      rcases List.mem_cons.mp hx with rfl | hx
      · have hmaps : ((Move.prefetch x.1 x.2).apply w).pager.ctx.Maps x.1 x.2 := by
          refine ⟨hen.2.1, ?_, ?_⟩ <;>
            simp [Move.apply, Move.onContext, mapPage, setFrame, setEntry]
        have hkept := Kept.moves hrest hrep' hmaps (by
          intro m hm
          obtain ⟨y, -, rfl⟩ := List.mem_map.mp hm
          trivial)
        refine ⟨hen.1, hkept.maps, hkept.dirty.trans ?_, hkept.memory.trans ?_⟩ <;>
          simp [Move.apply, Move.onContext, mapPage, setFrame, setEntry, setMemory]
      · obtain ⟨hheld, hrest'⟩ := ih hrest hrep' x hx
        exact ⟨Finset.mem_of_mem_erase hheld, hrest'⟩

/-- A page outside the batch keeps its entry. -/
theorem prefetch_outside {w w' : Work} {batch : List (Nat × Nat)} {ok : Bool} {q : Nat}
    (hrun : Moves w (prefetchMoves batch ok) w') (hq : q ∉ batch.map Prod.fst) :
    w'.pager.ctx.pageTable q = w.pager.ctx.pageTable q := by
  refine hrun.invariant_of_labels (fun v => v.pager.ctx.pageTable q = w.pager.ctx.pageTable q)
    (fun m => m.page? ≠ some q) ?_ ?_ rfl
  · rintro v m _ hm hv ⟨-, rfl⟩
    exact (Move.pageTable_of_ne _ v.pager.remote.store hm).trans hv
  · intro m hm
    unfold prefetchMoves at hm
    rcases List.mem_append.mp hm with hm | hm
    · obtain ⟨x, -, rfl⟩ := List.mem_map.mp hm
      simp [Move.page?]
    · split at hm
      · simp at hm
      · rcases List.mem_cons.mp hm with rfl | hm
        · simp [Move.page?]
        · obtain ⟨x, hx, rfl⟩ := List.mem_map.mp hm
          cases ok with
          | false => simp [Move.page?]
          | true =>
              rintro ⟨⟩
              exact hq (List.mem_map_of_mem hx)

/-- The pages of a batch that succeeds, at the end of the call. -/
theorem prefetch_installed (h : RepInv ∅ s.ctx) {batch : List (Nat × Nat)}
    (hrun : Moves ⟨∅, s⟩ (prefetchMoves batch true) ⟨∅, s'⟩) :
    ∀ x ∈ batch, x.2 ∈ s.ctx.freeList ∧ s'.ctx.Maps x.1 x.2 ∧ (s'.ctx.pageTable x.1).dirty = 0 ∧
      s'.ctx.localMemory x.2 = s.remote.store x.1 := by
  intro x hx
  have hb : batch ≠ [] := List.ne_nil_of_mem hx
  unfold prefetchMoves at hrun
  rw [if_neg hb] at hrun
  obtain ⟨w, htakes, hrest⟩ := hrun.split
  -- Popping frames changes the free list only.
  have hsame : w.pager.ctx = { s.ctx with freeList := w.pager.ctx.freeList } ∧
      w.pager.remote = s.remote := by
    refine htakes.invariant_of_labels
      (fun v => v.pager.ctx = { s.ctx with freeList := v.pager.ctx.freeList } ∧
        v.pager.remote = s.remote) (fun m => ∃ f, m = .take f) ?_ ?_ ⟨rfl, rfl⟩
    · rintro v _ _ ⟨f, rfl⟩ ⟨hctx, hremote⟩ ⟨-, rfl⟩
      refine ⟨?_, hremote⟩
      simp only [Move.apply, Move.onContext]
      rw [hctx]
    · intro m hm
      obtain ⟨y, -, rfl⟩ := List.mem_map.mp hm
      exact ⟨y.2, rfl⟩
  obtain - | ⟨⟨-, rfl⟩, hcommit⟩ := hrest
  have hrep := h.moves htakes
  obtain ⟨hheld, hmaps, hdirty, hmem⟩ := prefetch_committed batch hcommit
    (hrep.move (m := .batch (batch.map Prod.fst) true) ⟨trivial, rfl⟩) x hx
  refine ⟨?_, hmaps, hdirty, hmem.trans (by rw [← hsame.2]; rfl)⟩
  have hocc := (hrep.free_iff x.2).mp (.inl hheld)
  rw [hsame.1] at hocc
  simpa using (h.free_iff x.2).mpr hocc

/-- **Prefetch never disturbs the cache.** For every start page, count and outcome the call returns, so
no index has left its array. Every cached page keeps its entry and its bytes. If the batch fails, the
tables, the contents and the counters are as before and the same frames are free. If it succeeds, at
most eight pages are new; they lie in the range asked for, are clean, and each has its own frame,
which was free, with the server's bytes of that page. -/
theorem prefetch_keeps_cache (hs : s.Reachable numPages numVirtualPages) {startPage count : Nat}
    (hstart : startPage < 2 ^ 32) (ok : Bool) :
    ∃ s', dsmPrefetchPages s startPage count ok = some s' ∧
      (∀ q f, s.ctx.Maps q f → s'.ctx.pageTable q = s.ctx.pageTable q ∧
        s'.ctx.localMemory f = s.ctx.localMemory f) ∧
      (ok = false → s'.ctx = { s.ctx with freeList := s'.ctx.freeList } ∧
        ∀ f, f ∈ s'.ctx.freeList ↔ f ∈ s.ctx.freeList) ∧
      (ok = true → (s'.ctx.validPages \ s.ctx.validPages).card ≤ 8 ∧
        (∀ p ∈ s'.ctx.validPages \ s.ctx.validPages,
          startPage ≤ p ∧ p < min (startPage + count) numVirtualPages ∧
          (s'.ctx.pageTable p).dirty = 0 ∧ ∃ f ∈ s.ctx.freeList, s'.ctx.Maps p f ∧
            s'.ctx.localMemory f = s.remote.store p) ∧
        ∀ p q f, s'.ctx.Maps p f → s'.ctx.Maps q f → p = q) := by
  obtain ⟨calls, hcalls⟩ := hs
  obtain ⟨h, rfl, rfl⟩ := hcalls.rep
  obtain ⟨s', batch, heq, hrun, hcol, ctx', hend⟩ := dsmPrefetchPages_run h hstart count ok
  have h' := h.moves hrun
  have hlen := (prefetchCollect_end startPage count 0 s.ctx [] batch ctx' hend (by simp) hstart
    h.numVirtualPages_lt fun f hf => h.ne_noFrame (h.lt_of_free hf)).short
  -- A page that is valid now and was not before is one of the batch.
  have hnew : ∀ p, p ∈ s'.ctx.validPages \ s.ctx.validPages → p ∈ batch.map Prod.fst := by
    intro p hp
    obtain ⟨hp', hnot⟩ := Finset.mem_sdiff.mp hp
    rw [RepInv.mem_validPages] at hp' hnot
    by_contra hout
    have he : s'.ctx.pageTable p = s.ctx.pageTable p := prefetch_outside hrun hout
    have hnv : s'.ctx.numVirtualPages = s.ctx.numVirtualPages := hrun.sizes.2.1
    rw [Maps, he, hnv] at hp'
    exact hnot hp'
  refine ⟨s', heq, fun q f hq => ⟨?_, ?_⟩, ?_, ?_⟩
  · exact prefetching_keep hrun (isPrefetching_prefetchMoves batch ok) hq.2.1 rfl
  · refine (Kept.moves hrun h hq fun m hm => ?_).memory
    have := isPrefetching_prefetchMoves batch ok m hm
    cases m <;> trivial
  · rintro rfl
    have hsame := (prefetch_rolledBack hrun).1
    refine ⟨hsame, fun f => ?_⟩
    have hft : s'.ctx.frameTable = s.ctx.frameTable := by rw [hsame]
    have hnp : s'.ctx.numPages = s.ctx.numPages := hrun.sizes.1
    have h₁ := h.free_iff f
    have h₂ := h'.free_iff f
    simp only [Finset.notMem_empty, false_or] at h₁ h₂
    rw [h₁, h₂, hft, hnp]
  · rintro rfl
    refine ⟨?_, fun p hp => ?_, fun p q f hp hq => h'.maps_inj hp hq⟩
    · calc (s'.ctx.validPages \ s.ctx.validPages).card
          ≤ (batch.map Prod.fst).toFinset.card := by
            refine Finset.card_le_card fun p hp => ?_
            rw [List.mem_toFinset]
            exact hnew p hp
        _ ≤ batch.length := by simpa using List.toFinset_card_le (batch.map Prod.fst)
        _ ≤ 8 := hlen
    · obtain ⟨x, hx, rfl⟩ := List.mem_map.mp (hnew p hp)
      obtain ⟨hlo, hhi, hnv, -⟩ := hcol.absent x hx
      obtain ⟨hfree, hmaps, hdirty, hmem⟩ := prefetch_installed h hrun x hx
      exact ⟨hlo, lt_min hhi hnv, hdirty, x.2, hfree, hmaps, hmem⟩

/-- Page `0` was fetched and given up for page `1`, so it can be fetched again: but no frame is free,
and the hint changes nothing. -/
theorem prefetch_keeps_cache_full : ∃ s s', s.Reachable 1 2 ∧
    dsmPrefetchPages s 0 2 true = some s' ∧ s'.ctx.pageTable 1 = s.ctx.pageTable 1 := by
  have hreach : ∃ s : Pager, s.Reachable 1 2 ∧ s.ctx.Maps 1 0 :=
    ⟨_, ⟨[.setSocket 3, .access 0 0 id ⟨.ok, .ok, true⟩, .access 1 0 id ⟨.ok, .ok, true⟩],
      by decide, by decide, by decide, by simp [Call.InRange], ⟨fun _ => zeroPage, []⟩, _, rfl⟩,
      by decide, rfl, rfl⟩
  obtain ⟨s, hs, hm⟩ := hreach
  obtain ⟨s', heq, hkeep, -⟩ := prefetch_keeps_cache hs (show 0 < 2 ^ 32 by decide) true
  exact ⟨s, s', hs, heq, (hkeep 1 0 hm).1⟩

/-! ## When a hint is followed -/

/-- The pages of a hint that are not cached. -/
def DsmContext.absentPages (ctx : DsmContext) (startPage count : Nat) : Finset Nat :=
  (Finset.range ctx.numVirtualPages).filter fun p =>
    startPage ≤ p ∧ p < startPage + count ∧ (ctx.pageTable p).valid = false

/-- An access to page `p`, whatever its flag, is a local hit. -/
def Pager.Hits (s : Pager) (p : Nat) : Prop :=
  ∀ write rpc, ∃ f s', dsmAccessPage s p write rpc = some (some f, s') ∧
    s'.ctx.localHits = u64 (s.ctx.localHits + 1) ∧ s'.remote = s.remote

/-- If there are frames for them and they are not too many, every eligible page is collected. -/
theorem prefetch_complete (h : RepInv ∅ s.ctx) {startPage count : Nat} (hstart : startPage < 2 ^ 32)
    {batch : List (Nat × Nat)} {ctx' : DsmContext}
    (hend : prefetchCollect startPage count 0 s.ctx [] = some (batch, ctx'))
    (hcol : Collected s.ctx startPage (startPage + count) batch)
    (hmax : (s.ctx.absentPages startPage count).card ≤ 8)
    (hfree : (s.ctx.absentPages startPage count).card ≤ s.ctx.freeList.length) {p : Nat}
    (hp : p ∈ s.ctx.absentPages startPage count)
    (hloc : (s.ctx.pageTable p).location = .locRemote) : p ∈ batch.map Prod.fst := by
  obtain ⟨-, -, hframes, hcomplete⟩ := prefetchCollect_end startPage count 0 s.ctx [] batch ctx' hend
    (by simp) hstart h.numVirtualPages_lt fun f hf => h.ne_noFrame (h.lt_of_free hf)
  -- A batch at least as long as the absent pages are many has them all.
  have full : (s.ctx.absentPages startPage count).card ≤ batch.length → p ∈ batch.map Prod.fst := by
    intro hle
    have hsub : (batch.map Prod.fst).toFinset ⊆ s.ctx.absentPages startPage count := by
      intro q hq
      obtain ⟨x, hx, rfl⟩ := List.mem_map.mp (List.mem_toFinset.mp hq)
      obtain ⟨hlo, hhi, hnv, hv, -⟩ := hcol.absent x hx
      exact Finset.mem_filter.mpr ⟨Finset.mem_range.mpr hnv, hlo, hhi, hv⟩
    have hcard : (batch.map Prod.fst).toFinset.card = batch.length := by
      rw [List.toFinset_card_of_nodup (hcol.pages.imp Nat.ne_of_lt), List.length_map]
    have hall := Finset.eq_of_subset_of_card_le hsub (hcard ▸ hle)
    rw [← hall] at hp
    exact List.mem_toFinset.mp hp
  rcases hcomplete with height | hnone | hall
  · exact full (hmax.trans height.ge)
  · refine full (hfree.trans ?_)
    rw [hnone] at hframes
    simp only [List.length_nil] at hframes
    omega
  · obtain ⟨hnv, hlo, hhi, hv⟩ := Finset.mem_filter.mp hp
    exact hall p hlo hhi (Finset.mem_range.mp hnv) hv hloc

/-- **When a prefetch hint is honoured.** A hint asks for at most eight absent pages and at most as many
as there are free frames, and the batch succeeds. Then all its pages are cached afterwards, and an
access to any of them is a local hit, if and only if every absent page among them was marked
`LOC_REMOTE`, as a page is only after it has been fetched by an access. -/
theorem prefetch_honoured_iff (hs : s.Reachable numPages numVirtualPages) {startPage count : Nat}
    (hstart : startPage < numVirtualPages)
    (hmax : (s.ctx.absentPages startPage count).card ≤ 8)
    (hfree : (s.ctx.absentPages startPage count).card ≤ s.ctx.freeList.length) :
    ∃ s', dsmPrefetchPages s startPage count true = some s' ∧
      ((∀ p, startPage ≤ p → p < min (startPage + count) numVirtualPages →
          (s'.ctx.pageTable p).valid = true ∧ s'.Hits p) ↔
        ∀ p ∈ s.ctx.absentPages startPage count, (s.ctx.pageTable p).location = .locRemote) := by
  obtain ⟨calls, hcalls⟩ := hs
  obtain ⟨h, rfl, rfl⟩ := hcalls.rep
  have hstart' : startPage < 2 ^ 32 := hstart.trans h.numVirtualPages_lt
  obtain ⟨s', batch, heq, hrun, hcol, ctx', hend⟩ := dsmPrefetchPages_run h hstart' count true
  have h' := h.moves hrun
  have hnv : s'.ctx.numVirtualPages = s.ctx.numVirtualPages := hrun.sizes.2.1
  refine ⟨s', heq, ?_, ?_⟩
  · intro hhon p hp
    obtain ⟨hnv', hlo, hhi, hv⟩ := Finset.mem_filter.mp hp
    by_contra hloc
    have hout : p ∉ batch.map Prod.fst := by
      intro hmem
      obtain ⟨x, hx, rfl⟩ := List.mem_map.mp hmem
      exact hloc (hcol.absent x hx).2.2.2.2
    have he : s'.ctx.pageTable p = s.ctx.pageTable p := prefetch_outside hrun hout
    have hv' := (hhon p hlo (lt_min hhi (Finset.mem_range.mp hnv'))).1
    rw [he, hv] at hv'
    cases hv'
  · intro hloc p hlo hhi
    obtain ⟨hhi, hp⟩ := lt_min_iff.mp hhi
    have hvalid : (s'.ctx.pageTable p).valid = true := by
      cases hv : (s.ctx.pageTable p).valid with
      | true =>
          have he : s'.ctx.pageTable p = s.ctx.pageTable p :=
            prefetching_keep hrun (isPrefetching_prefetchMoves batch true) hv rfl
          rw [he, hv]
      | false =>
          have habs : p ∈ s.ctx.absentPages startPage count :=
            Finset.mem_filter.mpr ⟨Finset.mem_range.mpr hp, hlo, hhi, hv⟩
          have hmem := prefetch_complete h hstart' hend hcol hmax hfree habs (hloc p habs)
          obtain ⟨x, hx, rfl⟩ := List.mem_map.mp hmem
          exact (prefetch_installed h hrun x hx).2.1.2.1
    refine ⟨hvalid, fun write rpc => ?_⟩
    exact ⟨_, _, dsmAccessPage_hit h' write rpc ⟨hnv ▸ hp, hvalid, rfl⟩, rfl, rfl⟩

/-- Page `0` was fetched and given up for page `1`, whose fetch then failed: the hint is honoured. -/
theorem prefetch_honoured_again : ∃ s s', s.Reachable 1 2 ∧
    dsmPrefetchPages s 0 1 true = some s' ∧ s'.Hits 0 := by
  have hreach : ∃ s : Pager, s.Reachable 1 2 ∧ s.ctx.absentPages 0 1 = {0} ∧
      s.ctx.freeList.length = 1 ∧ (s.ctx.pageTable 0).location = .locRemote :=
    ⟨_, ⟨[.setSocket 3, .access 0 0 id ⟨.ok, .ok, true⟩,
        .access 1 0 id ⟨.ok, .failed zeroPage, true⟩],
      by decide, by decide, by decide, by simp [Call.InRange], ⟨fun _ => zeroPage, []⟩, _, rfl⟩,
      rfl, rfl, rfl⟩
  obtain ⟨s, hs, habs, hfree, hloc⟩ := hreach
  obtain ⟨s', heq, hiff⟩ := prefetch_honoured_iff hs (show 0 < 2 by decide)
    (by rw [habs]; decide) (by rw [habs, hfree]; decide)
  refine ⟨s, s', hs, heq, (hiff.mpr ?_ 0 le_rfl (by decide)).2⟩
  rw [habs]
  simpa using hloc

/-- **A hint that is ignored**: the first one on a new context. Two pages are asked for, four frames are
free, the server would answer, and nothing is sent. -/
theorem prefetch_hint_ignored : ∃ s s', s.ReachedBy 4 8 [.setSocket 3] ∧
    (s.ctx.absentPages 0 2).card ≤ 8 ∧ (s.ctx.absentPages 0 2).card ≤ s.ctx.freeList.length ∧
    dsmPrefetchPages s 0 2 true = some s' ∧ (s'.ctx.pageTable 0).valid = false ∧
    s'.remote.log = [] ∧ ¬ s'.Hits 0 := by
  refine ⟨_, _, ⟨by decide, by decide, by decide, by simp [Call.InRange], ⟨fun _ => zeroPage, []⟩, _,
    rfl⟩, by decide, by decide, rfl, rfl, rfl, ?_⟩
  intro hhits
  obtain ⟨f, s', heq, -, hremote⟩ := hhits 0 ⟨.ok, .ok, true⟩
  have hlog := congrArg (fun r => r.2.remote.log.length) (Option.some.inj heq)
  rw [hremote] at hlog
  revert hlog
  decide

end Dsm.Paging
