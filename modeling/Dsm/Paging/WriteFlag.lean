import Dsm.Paging.Eviction

/-!
# The write flag

`dsm_access_page` takes an `int` for its write flag and keeps its low byte. A caller that passes any
other non-zero number and changes the page has changed a page that looks clean, and loses the change
when the page is given up. `write_flag_honoured_iff` says exactly when the change survives whatever
the program accesses next.

One direction is an invariant about the one page (`Pager.Has`). The other needs a program that drives
the page out of the cache: accesses to absent pages, one after the other, of which the clock needs at
most two turns' worth (`exists_eviction`).
-/

namespace Dsm.Paging

open DsmContext Dsm.Lib

variable {s s' : Pager} {numPages numVirtualPages p : Nat} {v : Page}

/-! ## Where the bytes of one page are -/

/-- The bytes `v` of page `p` are not lost: they are in its frame, and on the server too unless an
eviction will put them there; or the page is absent and they are on the server. -/
def Pager.Safe (s : Pager) (p : Nat) (v : Page) : Prop :=
  (∃ f, s.ctx.Maps p f ∧ (s.ctx.pageTable p).location = .locRemote ∧ s.ctx.localMemory f = v ∧
    ((s.ctx.pageTable p).dirty ≠ 0 ∨ s.remote.store p = v)) ∨
  ((s.ctx.pageTable p).valid = false ∧ s.remote.store p = v)

/-- The page is cached, and the move works on other pages. -/
theorem Pager.Safe.spared {w w' : Work} {m : Move} {f : Nat} (hrep : RepInv w.held w.pager.ctx)
    (hm : w.pager.ctx.Maps p f) (hloc : (w.pager.ctx.pageTable p).location = .locRemote)
    (hmem : w.pager.ctx.localMemory f = v)
    (hsafe : (w.pager.ctx.pageTable p).dirty ≠ 0 ∨ w.pager.remote.store p = v) (hspare : m.Spares p)
    (hs : MoveStep w m w') : w'.pager.Safe p v := by
  have hkept := Kept.move hrep hm hspare hs
  refine .inl ⟨f, hkept.maps, hkept.location.trans hloc, hkept.memory.trans hmem, ?_⟩
  rw [hkept.dirty]
  refine hsafe.imp_right fun hstore => ?_
  obtain ⟨hen, rfl⟩ := hs
  by_cases hput : ∃ g applied, m = .putFailed p g applied
  · -- A failed PUT that reached the server has left the content of the frame there.
    obtain ⟨g, applied, rfl⟩ := hput
    obtain rfl : f = g := hm.frame_unique ((hrep.maps_iff _ _).mpr hen.2.1)
    cases applied <;> simp [Move.apply, Move.onRemote, Remote.dsmRpcPut, hmem, hstore]
  · refine (Move.store_of_ne w.pager.ctx w.pager.remote ?_ ?_).trans hstore
    · rintro g rfl
      exact hspare rfl
    · exact fun g applied heq => hput ⟨g, applied, heq⟩

/-- The page is cached, and the move gives it up or hits it. -/
theorem Pager.Safe.cached_move {w w' : Work} {m : Move} {f : Nat}
    (hrep : RepInv w.held w.pager.ctx) (hm : w.pager.ctx.Maps p f)
    (hloc : (w.pager.ctx.pageTable p).location = .locRemote)
    (hmem : w.pager.ctx.localMemory f = v)
    (hsafe : (w.pager.ctx.pageTable p).dirty ≠ 0 ∨ w.pager.remote.store p = v)
    (hspare : ¬ m.Spares p) (hs : MoveStep w m w') : w'.pager.Safe p v := by
  obtain ⟨hen, rfl⟩ := hs
  cases m with
  | evict q g =>
      obtain rfl : q = p := not_not.mp hspare
      obtain rfl : f = g := hm.frame_unique ((hrep.maps_iff _ _).mpr hen.2.1)
      refine .inr ⟨?_, ?_⟩
      · simp [Move.apply, Move.onContext, unmapPage, advanceHand, setFrame, setEntry]
      · by_cases hwb : w.pager.ctx.NeedsWriteback q
        · simp [Move.apply, Move.onRemote, hwb, Remote.dsmRpcPut, hmem]
        · have hclean := hsafe.resolve_left fun hd => hwb ⟨hd, hloc⟩
          simp [Move.apply, Move.onRemote, hwb, hclean]
  | hit q write =>
      obtain rfl : q = p := not_not.mp hspare
      have he : ((Move.hit q write).apply w).pager.ctx.pageTable q = _ :=
        accessHit_entry w.pager.ctx q write
      refine .inl ⟨f, ?_, ?_, hmem, hsafe.imp_left fun hd => ?_⟩
      · rw [Maps, he]
        exact hm
      · rw [he]
        exact hloc
      · rw [he]
        exact fun hzero => hd (UInt8.or_eq_zero_iff.mp hzero).1
  | _ => exact absurd trivial hspare

/-- The page is absent: only a fetch or a prefetch brings it in, and both read the server. -/
theorem Pager.Safe.absent_move {w w' : Work} {m : Move} (hrep : RepInv w.held w.pager.ctx)
    (hfd : 0 ≤ w.pager.ctx.sockFd) (hv : (w.pager.ctx.pageTable p).valid = false)
    (hstore : w.pager.remote.store p = v) (hs : MoveStep w m w') : w'.pager.Safe p v := by
  have habsent : ∀ {f}, ¬ w.pager.ctx.Holds f p :=
    fun hf => absurd hv ((hrep.maps_iff _ _).mpr hf).not_absent
  obtain ⟨hen, rfl⟩ := hs
  have hstore' : (m.onRemote w.pager.ctx w.pager.remote).store p = v := by
    refine (Move.store_of_ne w.pager.ctx w.pager.remote ?_ ?_).trans hstore
    · rintro g rfl
      exact habsent hen.2.1
    · rintro g applied rfl
      exact habsent hen.2.1
  by_cases hpage : m.page? = some p
  · cases m with
    | take | give | putFailed | fetchFailed | batch | remember => cases hpage
    | sweep q =>
        obtain rfl := Option.some.inj hpage
        exact absurd hen.1 habsent
    | evict q g =>
        obtain rfl := Option.some.inj hpage
        exact absurd hen.2.1 habsent
    | hit q write =>
        obtain rfl := Option.some.inj hpage
        exact absurd (hen.2.symm.trans hv) (by decide)
    | mapLocal q g write =>
        have := hen.1
        omega
    | fetch q g write =>
        obtain rfl := Option.some.inj hpage
        refine .inl ⟨g, ⟨hen.2.2.1, ?_, ?_⟩, ?_, ?_, .inr hstore⟩ <;>
          simp [Move.apply, Move.onContext, mapPage, setFrame, setEntry, setMemory, hstore]
    | prefetch q g =>
        obtain rfl := Option.some.inj hpage
        refine .inl ⟨g, ⟨hen.2.1, ?_, ?_⟩, ?_, ?_, .inr hstore⟩ <;>
          simp [Move.apply, Move.onContext, mapPage, setFrame, setEntry, setMemory, hstore,
            hen.2.2.2]
  · refine .inr ⟨?_, hstore'⟩
    rw [show (m.apply w).pager.ctx.pageTable p = _ from
      Move.pageTable_of_ne w.pager.ctx w.pager.remote.store hpage]
    exact hv

/-- **Every move of a connected pager keeps the bytes of a page safe.** -/
theorem Pager.Safe.move {w w' : Work} {m : Move} (h : w.pager.Safe p v)
    (hrep : RepInv w.held w.pager.ctx) (hfd : 0 ≤ w.pager.ctx.sockFd) (hs : MoveStep w m w') :
    w'.pager.Safe p v := by
  rcases h with ⟨f, hm, hloc, hmem, hsafe⟩ | ⟨hv, hstore⟩
  · by_cases hspare : m.Spares p
    · exact .spared hrep hm hloc hmem hsafe hspare hs
    · exact .cached_move hrep hm hloc hmem hsafe hspare hs
  · exact .absent_move hrep hfd hv hstore hs

theorem Pager.Safe.moves {w w' : Work} {ms : List Move} (hrun : Moves w ms w')
    (h : w.pager.Safe p v) (hrep : RepInv w.held w.pager.ctx) (hfd : 0 ≤ w.pager.ctx.sockFd) :
    w'.pager.Safe p v := by
  refine (hrun.invariant (fun u => RepInv u.held u.pager.ctx ∧ 0 ≤ u.pager.ctx.sockFd ∧
    u.pager.Safe p v) ?_ ⟨hrep, hfd, h⟩).2.2
  rintro u m u' ⟨hrep', hfd', hsafe⟩ hs
  refine ⟨hrep'.move hs, ?_, hsafe.move hrep' hfd' hs⟩
  obtain ⟨-, rfl⟩ := hs
  exact (Move.sizes _ _ m).2.2.1.symm ▸ hfd'

/-! ## A cache that never has to give a page up -/

/-- With no more pages than frames, a miss finds a free frame. -/
theorem RepInv.free_of_room {ctx : DsmContext} (h : RepInv ∅ ctx)
    (hroom : ctx.numVirtualPages ≤ ctx.numPages) {q : Nat} (hq : q < ctx.numVirtualPages)
    (hv : (ctx.pageTable q).valid = false) : ctx.freeList ≠ [] := by
  intro hfl
  have hcount := h.conservation
  rw [hfl] at hcount
  have hsub : ctx.validPages ⊂ Finset.range ctx.numVirtualPages := by
    refine (Finset.ssubset_iff_of_subset (Finset.filter_subset _ _)).mpr
      ⟨q, Finset.mem_range.mpr hq, ?_⟩
    show q ∉ ctx.validPages
    rw [RepInv.mem_validPages]
    exact fun hm => absurd hv hm.not_absent
  have hlt := Finset.card_lt_card hsub
  rw [Finset.card_range] at hlt
  simp only [List.length_nil] at hcount
  omega

/-- The bytes `v` of page `p` will be found: they are safe, or they are cached for good. -/
def Pager.Has (s : Pager) (p : Nat) (v : Page) : Prop :=
  s.Safe p v ∨ s.ctx.numVirtualPages ≤ s.ctx.numPages ∧
    ∃ f, s.ctx.Maps p f ∧ s.ctx.localMemory f = v

/-- Whoever finds the page cached finds the bytes. -/
theorem Pager.Has.cached (h : s.Has p v) {f : Nat} (hm : s.ctx.Maps p f) :
    s.ctx.localMemory f = v := by
  rcases h with (⟨g, hg, -, hmem, -⟩ | ⟨hv, -⟩) | ⟨-, g, hg, hmem⟩
  · obtain rfl : g = f := hg.frame_unique hm
    exact hmem
  · exact absurd hv hm.not_absent
  · obtain rfl : g = f := hg.frame_unique hm
    exact hmem

theorem Pager.Has.accessed (h : s.Has p v) (hrep : RepInv ∅ s.ctx) (hfd : 0 ≤ s.ctx.sockFd) {q : Nat}
    (hq : q < s.ctx.numVirtualPages) {write : Int32} {rpc : RpcScript} {r : Option Nat}
    (hacc : Accessed s q write rpc r s') : s'.Has p v := by
  obtain ⟨ms, hrun, -⟩ := hacc.run hrep
  rcases h with hsafe | ⟨hroom, f, hm, hmem⟩
  · exact .inl (Pager.Safe.moves hrun hsafe hrep hfd)
  · have hroom' : s'.ctx.numVirtualPages ≤ s'.ctx.numPages := by
      have h₁ : s'.ctx.numPages = s.ctx.numPages := hrun.sizes.1
      have h₂ : s'.ctx.numVirtualPages = s.ctx.numVirtualPages := hrun.sizes.2.1
      omega
    refine .inr ⟨hroom', f, ?_⟩
    cases hacc with
    | hit _ =>
        refine ⟨?_, hmem⟩
        by_cases hpq : p = q
        · subst hpq
          rw [Maps, accessHit_entry]
          exact hm
        · simpa [Maps, accessHit, setEntry, hpq] using hm
    | popped _ hfl hrun hms =>
        have hkept := Kept.moves hrun (popped_rep hrep hfl) hm (hms.spares p)
        exact ⟨hkept.maps, hkept.memory.trans hmem⟩
    | stuck hv hfl | evicted hv hfl => exact absurd hfl (hrep.free_of_room hroom hq hv)

/-- The caller's change of another page, or no change at all. -/
theorem Pager.Has.callerChange (h : s.Has p v) (hrep : RepInv ∅ s.ctx) {q g : Nat}
    (hg : s.ctx.Maps q g) {write : Int32} {change : Page → Page}
    (hsame : q = p → write = 0 ∨ change = id) :
    Pager.Has { s with ctx := callerChange s.ctx g write change } p v := by
  obtain ⟨hnp, hnv, -⟩ := callerChange_sizes s.ctx g write change
  have hmaps : ∀ f, (Paging.callerChange s.ctx g write change).Maps p f ↔ s.ctx.Maps p f := by
    intro f
    rw [Maps, Maps, callerChange_pageTable, hnv]
  have hmem : ∀ f, s.ctx.Maps p f →
      (Paging.callerChange s.ctx g write change).localMemory f = s.ctx.localMemory f := by
    intro f hf
    unfold Paging.callerChange
    split
    · rfl
    · next hw =>
      by_cases hgf : f = g
      · subst hgf
        have hid := (hsame (hrep.maps_inj hg hf)).resolve_left hw
        simp [setMemory, hid]
      · exact Function.update_of_ne hgf _ _
  rcases h with (⟨f, hf, hloc, hv, hsafe⟩ | ⟨hv, hstore⟩) | ⟨hroom, f, hf, hv⟩
  · refine .inl (.inl ⟨f, (hmaps f).mpr hf, ?_, (hmem f hf).trans hv, ?_⟩) <;>
      simpa only [callerChange_pageTable]
  · exact .inl (.inr ⟨by simpa only [callerChange_pageTable], hstore⟩)
  · exact .inr ⟨by simpa only [hnp, hnv], f, (hmaps f).mpr hf, (hmem f hf).trans hv⟩

/-! ## What the program does next -/

/-- No RPC fails. -/
def RpcScript.Succeeds (rpc : RpcScript) : Prop := rpc.put = .ok ∧ rpc.get = .ok ∧ rpc.batch = true

/-- An access without a failure of an RPC, that does not change page `p`. -/
def Call.Leaves (numVirtualPages p : Nat) : Call → Prop
  | .access q write change rpc =>
      q < numVirtualPages ∧ rpc.Succeeds ∧ (q = p → write = 0 ∨ change = id)
  | _ => False

/-- Without a failure of an RPC an access returns a page. -/
theorem Accessed.isSome {q : Nat} {write : Int32} {rpc : RpcScript} {r : Option Nat}
    (hacc : Accessed s q write rpc r s') (hrpc : rpc.Succeeds) : ∃ f, r = some f := by
  obtain ⟨hput, hget, -⟩ := hrpc
  cases hacc with
  | hit _ => exact ⟨_, rfl⟩
  | stuck _ _ _ _ hfailed => rw [hput] at hfailed; cases hfailed
  | popped _ _ _ hms | evicted _ _ _ _ _ hms =>
      cases hms with
      | fetchFailed left hfailed => rw [hget] at hfailed; cases hfailed
      | fetched | served => exact ⟨_, rfl⟩

/-- Between two calls of a connected context. -/
structure Pager.Connected (numPages numVirtualPages : Nat) (s : Pager) : Prop where
  rep : RepInv ∅ s.ctx
  socket : 0 ≤ s.ctx.sockFd
  frames : s.ctx.numPages = numPages
  pages : s.ctx.numVirtualPages = numVirtualPages

theorem Pager.Connected.moves (h : s.Connected numPages numVirtualPages) {ms : List Move}
    (hrun : Moves ⟨∅, s⟩ ms ⟨∅, s'⟩) : s'.Connected numPages numVirtualPages where
  rep := h.rep.moves hrun
  socket := hrun.sizes.2.2.1.symm ▸ h.socket
  frames := hrun.sizes.1.trans h.frames
  pages := hrun.sizes.2.1.trans h.pages

theorem Pager.Connected.callerChange (h : s.Connected numPages numVirtualPages) (f : Nat)
    (write : Int32) (change : Page → Page) :
    Pager.Connected numPages numVirtualPages
      { s with ctx := callerChange s.ctx f write change } where
  rep := h.rep.callerChange f write change
  socket := (callerChange_sizes s.ctx f write change).2.2.symm ▸ h.socket
  frames := (callerChange_sizes s.ctx f write change).1.trans h.frames
  pages := (callerChange_sizes s.ctx f write change).2.1.trans h.pages

/-- The page an access returns is mapped to the frame returned. -/
theorem Accessed.maps (hrep : RepInv ∅ s.ctx) {q : Nat} (hq : q < s.ctx.numVirtualPages)
    {write : Int32} {rpc : RpcScript} {f : Nat} (hacc : Accessed s q write rpc (some f) s') :
    s'.ctx.Maps q f := by
  obtain ⟨ms, hrun, hms⟩ := hacc.run hrep
  exact (hms.returns hq hrun).1

/-- **The bytes of a page are kept** by any sequence of accesses that leave it alone. -/
theorem Pager.Has.run {later : List Call} : ∀ {s : Pager}, s.Connected numPages numVirtualPages →
    s.Has p v → (∀ c ∈ later, c.Leaves numVirtualPages p) →
    ∃ seen s', s.run later = some (seen, s') ∧ s'.Connected numPages numVirtualPages ∧ s'.Has p v := by
  induction later with
  | nil => exact fun {s} hs hhas _ => ⟨[], s, rfl, hs, hhas⟩
  | cons c later ih =>
      intro s hs hhas hc
      cases c with
      | access q write change rpc =>
          obtain ⟨hq, hrpc, hsame⟩ := hc _ List.mem_cons_self
          have hq' : q < s.ctx.numVirtualPages := hs.pages.symm ▸ hq
          obtain ⟨r, s₁, hacc, heq⟩ := call_accessed hs.rep hq' write change rpc
          obtain ⟨f, rfl⟩ := hacc.isSome hrpc
          obtain ⟨ms, hrun, -⟩ := hacc.run hs.rep
          have hs₁ := hs.moves hrun
          have hhas₁ := hhas.accessed hs.rep hs.socket hq' hacc
          obtain ⟨rest, s', heq', hs', hhas'⟩ := ih (hs₁.callerChange f write change)
            (hhas₁.callerChange hs₁.rep (hacc.maps hs.rep hq') hsame)
            fun c' hc' => hc c' (List.mem_cons_of_mem _ hc')
          exact ⟨_, s', Pager.run_cons heq heq', hs', hhas'⟩
      | prefetch | setSocket => exact absurd (hc _ List.mem_cons_self) id

/-! ## Driving a page out

The work the clock has before it gives up a cached page: the frames that are still free, a full turn
if the page has its reference bit set, and the places between the hand and its frame. Every access to
an absent page reduces it. -/

/-- The moves that follow the acquisition of a frame, seen from a page that stays cached: they move
neither its entry nor the hand, and they send no PUT. -/
theorem FrameMoves.keep {ctx : DsmContext} {q g : Nat} {write : Int32} {rpc : RpcScript}
    {r : Option Nat} {ms : List Move} (hms : FrameMoves ctx q g write rpc r ms) {w w' : Work}
    (hrun : Moves w ms w') {e : PageTableEntry} (he : e.valid = true)
    (hp : w.pager.ctx.pageTable p = e) :
    w'.pager.ctx.pageTable p = e ∧ w'.pager.ctx.clockHand = w.pager.ctx.clockHand ∧
      w'.pager.remote.store = w.pager.remote.store := by
  refine hrun.invariant_of_labels (fun u => u.pager.ctx.pageTable p = e ∧
    u.pager.ctx.clockHand = w.pager.ctx.clockHand ∧ u.pager.remote.store = w.pager.remote.store)
    Move.IsFilling ?_ hms.filling ⟨hp, rfl, rfl⟩
  rintro u m _ hm ⟨hentry, hhand, hstore⟩ ⟨hen, rfl⟩
  -- A page that is being installed is absent, so it is not `p`.
  have hother : ∀ {q' : Nat}, (u.pager.ctx.pageTable q').valid = false → some q' ≠ some p := by
    rintro q' habs ⟨⟩
    rw [hentry, he] at habs
    cases habs
  have hkeep : m.page? ≠ some p → (m.apply u).pager.ctx.pageTable p = e :=
    fun hne => (Move.pageTable_of_ne _ u.pager.remote.store hne).trans hentry
  cases m with
  | sweep | evict | putFailed | hit => exact absurd hm id
  | take | give | batch | remember | fetchFailed =>
      exact ⟨hkeep (by simp [Move.page?]), hhand, hstore⟩
  | prefetch => exact ⟨hkeep (hother hen.2.2.1), hhand, hstore⟩
  | fetch | mapLocal => exact ⟨hkeep (hother hen.2.2.2), hhand, hstore⟩

/-- If there are more pages than frames, some page is absent. -/
theorem RepInv.exists_absent {ctx : DsmContext} (h : RepInv ∅ ctx)
    (hsmall : ctx.numPages < ctx.numVirtualPages) :
    ∃ q < ctx.numVirtualPages, (ctx.pageTable q).valid = false := by
  by_contra hall
  simp only [not_exists, not_and, Bool.not_eq_false] at hall
  have hcount := h.conservation
  have hvalid : ctx.validPages = Finset.range ctx.numVirtualPages := by
    refine Finset.filter_true_of_mem fun q hq => ?_
    exact hall q (Finset.mem_range.mp hq)
  rw [hvalid, Finset.card_range] at hcount
  omega

/-- The clock has page `p`, in the frame `j` places after the hand, still before it. -/
def clockWork (ctx : DsmContext) (p j : Nat) : Nat :=
  ctx.freeList.length * (2 * ctx.numPages) +
    (if (ctx.pageTable p).referenceBit then ctx.numPages else 0) + j

/-- Page `p` is in frame `f`, `j` places after the hand, and would be given up without a PUT. -/
structure Due (p f j : Nat) (s : Pager) : Prop where
  maps : s.ctx.Maps p f
  clean : ¬ s.ctx.NeedsWriteback p
  lt : j < s.ctx.numPages
  place : s.ctx.clockFrame j = f

/-- Page `p` is in some place after the hand. -/
theorem RepInv.exists_place {ctx : DsmContext} (h : RepInv ∅ ctx) {f : Nat} (hf : f < ctx.numPages) :
    ∃ j < ctx.numPages, ctx.clockFrame j = f := by
  have hhand := h.hand_lt
  refine ⟨(f + ctx.numPages - ctx.clockHand) % ctx.numPages, Nat.mod_lt _ h.numPages_pos, ?_⟩
  rw [clockFrame, Nat.add_mod_mod,
    show ctx.clockHand + (f + ctx.numPages - ctx.clockHand) = f + ctx.numPages by omega,
    Nat.add_mod_right]
  exact Nat.mod_eq_of_lt hf

/-- A miss that takes a free frame leaves one frame less. -/
theorem Due.popped {f j q g g' : Nat} {rest : List Nat} {write : Int32} {rpc : RpcScript}
    {r : Option Nat} {ms : List Move} (hdue : Due p f j s) (h : RepInv ∅ s.ctx)
    (hv : (s.ctx.pageTable q).valid = false) (hfl : s.ctx.freeList = g :: rest)
    (hrun : Moves ⟨{g}, { s.ctx with freeList := rest }, s.remote⟩ ms ⟨∅, s'⟩)
    (hms : FrameMoves s.ctx q g write rpc r ms) (hmaps : s'.ctx.Maps q g') :
    s'.remote.store p = s.remote.store p ∧ Due p f j s' ∧
      clockWork s'.ctx p j < clockWork s.ctx p j := by
  obtain ⟨hm, hclean, hlt, hplace⟩ := hdue
  obtain ⟨hentry, hhand, hstore⟩ := hms.keep hrun hm.2.1 rfl
  obtain ⟨hnp, hnv, -⟩ := hrun.sizes
  simp only at hentry hhand hstore hnp hnv
  have hrep' : RepInv ∅ s'.ctx := (popped_rep h hfl).moves hrun
  refine ⟨by rw [hstore], ⟨?_, ?_, hnp.symm ▸ hlt, ?_⟩, ?_⟩
  · rw [Maps, hentry, hnv]
    exact hm
  · rw [NeedsWriteback, hentry]
    exact hclean
  · rw [clockFrame, hhand, hnp]
    exact hplace
  · -- No page has gone and page `q` has come, so fewer frames are free.
    have hsub : s.ctx.validPages ⊂ s'.ctx.validPages := by
      refine (Finset.ssubset_iff_of_subset fun x hx => ?_).mpr ⟨q, ?_, ?_⟩
      · rw [RepInv.mem_validPages] at hx
        have hkept := Kept.moves hrun (popped_rep h hfl) hx (hms.spares x)
        exact Finset.mem_filter.mpr ⟨Finset.mem_range.mpr hkept.maps.1, hkept.maps.2.1⟩
      · exact Finset.mem_filter.mpr ⟨Finset.mem_range.mpr hmaps.1, hmaps.2.1⟩
      · rw [RepInv.mem_validPages]
        exact fun hx => absurd hv hx.not_absent
    have hcard := Finset.card_lt_card hsub
    have hfree : s'.ctx.freeList.length < s.ctx.freeList.length := by
      have h₁ := h.conservation
      have h₂ := hrep'.conservation
      omega
    have hmul : s'.ctx.freeList.length * (2 * s.ctx.numPages) <
        s.ctx.freeList.length * (2 * s.ctx.numPages) :=
      Nat.mul_lt_mul_of_pos_right hfree (by have := h.numPages_pos; omega)
    rw [clockWork, clockWork, hentry, hnp]
    omega

/-- What a miss with every frame taken leaves of page `p`, if the clock stops `k` places after the hand
on another page: page `p` has its bit cleared if the clock has passed it, and the hand has moved on. -/
structure Passed (p k : Nat) (s s' : Pager) : Prop where
  entry : s'.ctx.pageTable p = (s.ctx.passed k).pageTable p
  hand : s'.ctx.clockHand = s.ctx.clockFrame (k + 1)
  full : s'.ctx.freeList = []
  numPages : s'.ctx.numPages = s.ctx.numPages
  numVirtualPages : s'.ctx.numVirtualPages = s.ctx.numVirtualPages
  store : s'.remote.store p = s.remote.store p

theorem Passed.of_evicted {q k : Nat} {write : Int32} {rpc : RpcScript} {r : Option Nat}
    {ms : List Move} (h : RepInv ∅ s.ctx) (hqp : p ≠ q) (hvictim : s.ctx.clockPage k ≠ p)
    (hfl : s.ctx.freeList = []) (hrun : Moves ⟨{s.ctx.clockFrame k}, s.evictedAt k⟩ ms ⟨∅, s'⟩)
    (hms : FrameMoves s.ctx q (s.ctx.clockFrame k) write rpc r ms) (hr : r ≠ none) :
    Passed p k s s' := by
  have hne : (Move.evict (s.ctx.clockPage k) (s.ctx.clockFrame k)).page? ≠ some p :=
    fun heq => hvictim (Option.some.inj heq)
  have hentry₀ : (s.evictedAt k).ctx.pageTable p = (s.ctx.passed k).pageTable p :=
    Move.pageTable_of_ne _ s.remote.store hne
  have hstore₀ : (s.evictedAt k).remote.store p = s.remote.store p := by
    refine Move.store_of_ne (s.ctx.passed k) s.remote ?_ (by simp)
    rintro g ⟨⟩
    exact hvictim rfl
  obtain ⟨hnp, hnv, -⟩ := hrun.sizes
  obtain ⟨hentry, hhand, hfree, hstore, -⟩ := hms.filled hrun hfl
  exact ⟨(hentry p hqp).trans hentry₀, hhand.trans (h.clockFrame_succ k), hfree.trans (if_neg hr),
    hnp, hnv, (congrFun hstore p).trans hstore₀⟩

/-- The page is due again, in the place it has now. -/
theorem Passed.due {f j k j' : Nat} (hp : Passed p k s s') (hdue : Due p f j s)
    (hj' : j' < s.ctx.numPages) (hf : s.ctx.clockFrame (k + 1 + j') = f) : Due p f j' s' := by
  obtain ⟨hm, hclean, -, -⟩ := hdue
  refine ⟨?_, ?_, hp.numPages.symm ▸ hj', ?_⟩
  · rw [Maps, hp.entry, hp.numVirtualPages]
    exact hm
  · rw [NeedsWriteback, hp.entry]
    exact hclean
  · rw [← hf, clockFrame, hp.hand, hp.numPages, clockFrame, clockFrame, Nat.mod_add_mod,
      Nat.add_assoc]

theorem clockWork_of_full {ctx : DsmContext} (hfl : ctx.freeList = []) (p j : Nat) :
    clockWork ctx p j = (if (ctx.pageTable p).referenceBit then ctx.numPages else 0) + j := by
  simp [clockWork, hfl]

/-- The clock has passed page `p`: it is up to a full turn away now, but its bit is clear. -/
theorem Passed.behind {f j k : Nat} (hp : Passed p k s s') (hdue : Due p f j s)
    (hfl : s.ctx.freeList = []) (hk : s.ctx.StopsAt k) (hpage : s.ctx.clockPage j = p)
    (hvictim : s.ctx.clockPage k ≠ p) (hjk : j < k) :
    ∃ j', Due p f j' s' ∧ clockWork s'.ctx p j' < clockWork s.ctx p j := by
  have hle := hk.le
  have hlt := hdue.lt
  have hset := hk.bit_set j hjk
  rw [hpage] at hset
  have hclear : (s'.ctx.pageTable p).referenceBit = false := by
    have hmet : ¬ ∀ i < k, s.ctx.clockPage i ≠ p := fun hall => hall j hjk hpage
    rw [hp.entry]
    simp only [passed, decide_eq_false hmet, Bool.and_false]
  -- A full turn from the frame of `p` itself would have ended on it.
  have hturn : k + 1 ≤ s.ctx.numPages + j := by
    by_contra hover
    obtain ⟨rfl, rfl⟩ : j = 0 ∧ k = s.ctx.numPages := by omega
    apply hvictim
    rw [← hpage]
    simp [clockPage, clockFrame]
  refine ⟨s.ctx.numPages + j - (k + 1), hp.due hdue (by omega) ?_, ?_⟩
  · rw [show k + 1 + (s.ctx.numPages + j - (k + 1)) = j + s.ctx.numPages by omega, clockFrame,
      ← Nat.add_assoc, Nat.add_mod_right]
    exact hdue.place
  · rw [clockWork_of_full hp.full, clockWork_of_full hfl, hclear, hset]
    simp only [Bool.false_eq_true, if_false, if_true]
    omega

/-- The clock has not reached page `p`: it is closer now. -/
theorem Passed.ahead {f j k : Nat} (hp : Passed p k s s') (hdue : Due p f j s) (h : RepInv ∅ s.ctx)
    (hfl : s.ctx.freeList = []) (hpage : s.ctx.clockPage j = p) (hjk : k < j) :
    ∃ j', Due p f j' s' ∧ clockWork s'.ctx p j' < clockWork s.ctx p j := by
  have hlt := hdue.lt
  have hsame : (s'.ctx.pageTable p).referenceBit = (s.ctx.pageTable p).referenceBit := by
    have hmet : ∀ i < k, s.ctx.clockPage i ≠ p := by
      intro i hi heq
      have := h.clockPage_inj hfl (by omega) hlt (heq.trans hpage.symm)
      omega
    rw [hp.entry]
    simp only [passed, decide_eq_true hmet, Bool.and_true]
  refine ⟨j - (k + 1), hp.due hdue (by omega) ?_, ?_⟩
  · rw [show k + 1 + (j - (k + 1)) = j by omega]
    exact hdue.place
  · rw [clockWork_of_full hp.full, clockWork_of_full hfl, hsame, hp.numPages]
    omega

/-- A miss with every frame taken: the clock gives page `p` up, or comes closer to it. -/
theorem Due.evicted {f j q k : Nat} {write : Int32} {rpc : RpcScript} {r : Option Nat}
    {ms : List Move} (hdue : Due p f j s) (h : RepInv ∅ s.ctx)
    (hv : (s.ctx.pageTable q).valid = false) (hfl : s.ctx.freeList = []) (hk : s.ctx.StopsAt k)
    (hrun : Moves ⟨{s.ctx.clockFrame k}, s.evictedAt k⟩ ms ⟨∅, s'⟩)
    (hms : FrameMoves s.ctx q (s.ctx.clockFrame k) write rpc r ms) (hr : r ≠ none) :
    s'.remote.store p = s.remote.store p ∧ ((s'.ctx.pageTable p).valid = false ∨
      ∃ j', Due p f j' s' ∧ clockWork s'.ctx p j' < clockWork s.ctx p j) := by
  have hpage : s.ctx.clockPage j = p := by
    have hholds := h.holds_clockPage hfl j
    rw [hdue.place] at hholds
    exact h.maps_inj ((h.maps_iff _ _).mpr hholds) hdue.maps
  have hqp : q ≠ p := by
    rintro rfl
    exact absurd hv hdue.maps.not_absent
  by_cases hvictim : s.ctx.clockPage k = p
  · -- The page is clean, or local: it goes without a PUT.
    obtain ⟨hgone, -⟩ := evicted_givenUp (hvictim ▸ hqp) hfl hrun hms
    rw [hvictim] at hgone
    exact ⟨hgone.store.trans (if_neg hdue.clean), .inl hgone.absent⟩
  · have hp := Passed.of_evicted h hqp.symm hvictim hfl hrun hms hr
    refine ⟨hp.store, .inr ?_⟩
    rcases Nat.lt_trichotomy j k with hjk | rfl | hjk
    · exact hp.behind hdue hfl hk hpage hvictim hjk
    · exact absurd hpage hvictim
    · exact hp.ahead hdue h hfl hpage hjk

/-- **Any page that needs no writeback can be driven out**, by accesses to other pages without a failure
of an RPC. The server's copy of it is then what it was. -/
theorem exists_eviction (hsmall : numPages < numVirtualPages) {f : Nat} : ∀ (work : Nat) {s : Pager}
    {j : Nat}, s.Connected numPages numVirtualPages → Due p f j s → clockWork s.ctx p j = work →
    ∃ later seen s', (∀ c ∈ later, c.Leaves numVirtualPages p) ∧ s.run later = some (seen, s') ∧
      s'.Connected numPages numVirtualPages ∧ s'.Safe p (s.remote.store p) ∧
      (s'.ctx.pageTable p).valid = false := by
  intro work
  induction work using Nat.strong_induction_on with
  | _ work ih =>
    rintro s j hs hdue rfl
    obtain ⟨q, hq, hv⟩ := hs.rep.exists_absent (by rw [hs.frames, hs.pages]; exact hsmall)
    have hqp : q ≠ p := by
      rintro rfl
      exact absurd hv hdue.maps.not_absent
    obtain ⟨r, s₁, hacc, heq⟩ := call_accessed hs.rep hq 0 id ⟨.ok, .ok, true⟩
    obtain ⟨g, rfl⟩ := hacc.isSome ⟨rfl, rfl, rfl⟩
    have hleaves : (Call.access q 0 id ⟨.ok, .ok, true⟩).Leaves numVirtualPages p :=
      ⟨hs.pages ▸ hq, ⟨rfl, rfl, rfl⟩, fun _ => .inl rfl⟩
    obtain ⟨ms, hrun, -⟩ := hacc.run hs.rep
    have hs₁ := hs.moves hrun
    have hstep : s₁.remote.store p = s.remote.store p ∧ ((s₁.ctx.pageTable p).valid = false ∨
        ∃ j', Due p f j' s₁ ∧ clockWork s₁.ctx p j' < clockWork s.ctx p j) := by
      have hmaps := hacc.maps hs.rep hq
      cases hacc with
      | hit hmaps₀ => exact absurd hv hmaps₀.not_absent
      | popped _ hfl hrun hms =>
          obtain ⟨hstore, hdue', hless⟩ := hdue.popped hs.rep hv hfl hrun hms hmaps
          exact ⟨hstore, .inr ⟨j, hdue', hless⟩⟩
      | evicted _ hfl hk _ hrun hms => exact hdue.evicted hs.rep hv hfl hk hrun hms (by simp)
    obtain ⟨hstore, hgone | ⟨j', hdue', hless⟩⟩ := hstep
    · exact ⟨[_], _, s₁, by simpa using hleaves, Pager.run_cons heq rfl, hs₁,
        .inr ⟨hgone, hstore⟩, hgone⟩
    · obtain ⟨later, seen, s', hlater, hrun', hs', hsafe, hgone⟩ := ih _ hless hs₁ hdue' rfl
      rw [hstore] at hsafe
      exact ⟨_ :: later, _, s', List.forall_mem_cons.mpr ⟨hleaves, hlater⟩,
        Pager.run_cons heq hrun', hs', hsafe, hgone⟩

/-! ## The flag -/

theorem Pager.Reachable.connected (h : s.Reachable numPages numVirtualPages)
    (hfd : 0 ≤ s.ctx.sockFd) : s.Connected numPages numVirtualPages := by
  obtain ⟨calls, hcalls⟩ := h
  obtain ⟨hrep, hnp, hnv⟩ := hcalls.rep
  exact ⟨hrep, hfd, hnp, hnv⟩

/-- A page that an access has returned will be put when it is given up if the flag has a non-zero low
byte or the page was dirty already, and the page is not a local one. -/
theorem Accessed.needsWriteback_iff (hfd : 0 ≤ s.ctx.sockFd) {write : Int32} {rpc : RpcScript}
    {f : Nat} (hacc : Accessed s p write rpc (some f) s') :
    s'.ctx.NeedsWriteback p ↔
      (writeByte write ≠ 0 ∨ (s.ctx.pageTable p).valid = true ∧ (s.ctx.pageTable p).dirty ≠ 0) ∧
        ((s.ctx.pageTable p).valid = true → (s.ctx.pageTable p).location = .locRemote) := by
  rw [NeedsWriteback, hacc.entry]
  cases hv : (s.ctx.pageTable p).valid with
  | true =>
      simp only [if_true, ne_eq, UInt8.or_eq_zero_iff, not_and_or, true_and, forall_const]
      rw [or_comm]
  | false => simp [hfd]

/-- After an access and a change of the page, the change survives: whatever is accessed next without a
failure of an RPC and without changing the page, an access to the page returns the changed bytes. -/
def ChangeSurvives (numVirtualPages p f : Nat) (write : Int32) (s : Pager) : Prop :=
  ∀ (change : Page → Page) (later : List Call), (∀ c ∈ later, c.Leaves numVirtualPages p) →
    ∃ seen s', Pager.run { s with ctx := callerChange s.ctx f write change } later =
        some (seen, s') ∧
      ∀ (write' : Int32) (rpc' : RpcScript), rpc'.Succeeds → ∃ g s'',
        dsmAccessPage s' p write' rpc' = some (some g, s'') ∧
        s''.ctx.localMemory g = change (s.ctx.localMemory f)

/-- An access to a page whose bytes are not lost returns them. -/
theorem Pager.Has.access (h : s.Has p v) (hs : s.Connected numPages numVirtualPages)
    (hp : p < numVirtualPages) (write : Int32) {rpc : RpcScript} (hrpc : rpc.Succeeds) :
    ∃ g s', dsmAccessPage s p write rpc = some (some g, s') ∧ s'.ctx.localMemory g = v := by
  have hp' : p < s.ctx.numVirtualPages := hs.pages.symm ▸ hp
  obtain ⟨r, s', heq, hacc⟩ := dsmAccessPage_accessed hs.rep hp' write rpc
  obtain ⟨g, rfl⟩ := hacc.isSome hrpc
  exact ⟨g, s', heq, (h.accessed hs.rep hs.socket hp' hacc).cached (hacc.maps hs.rep hp')⟩

section Change

variable {f : Nat} {write : Int32} (hs : s.Connected numPages numVirtualPages)
  (hm : s.ctx.Maps p f)

include hs hm

theorem callerChange_has (hw : write ≠ 0) (change : Page → Page)
    (hkept : numVirtualPages ≤ numPages ∨ s.ctx.NeedsWriteback p) :
    Pager.Has { s with ctx := callerChange s.ctx f write change } p
      (change (s.ctx.localMemory f)) := by
  have hmem : (callerChange s.ctx f write change).localMemory f = change (s.ctx.localMemory f) := by
    simp [callerChange, hw, setMemory]
  obtain ⟨hnp, hnv, -⟩ := callerChange_sizes s.ctx f write change
  have hm' : (callerChange s.ctx f write change).Maps p f := by
    rw [Maps, callerChange_pageTable, hnv]
    exact hm
  rcases hkept with hroom | ⟨hdirty, hloc⟩
  · refine .inr ⟨?_, f, hm', hmem⟩
    show (callerChange s.ctx f write change).numVirtualPages ≤ _
    rw [hnp, hnv, hs.frames, hs.pages]
    exact hroom
  · exact .inl (.inl ⟨f, hm', by simpa using hloc, hmem, .inl (by simpa using hdirty)⟩)

/-- A change that will not be put back can be lost. -/
theorem not_changeSurvives (hp : p < numVirtualPages) (hsmall : numPages < numVirtualPages)
    (hclean : ¬ s.ctx.NeedsWriteback p) : ¬ ChangeSurvives numVirtualPages p f write s := by
  intro hsurvives
  -- Bytes the server does not have.
  obtain ⟨bytes, hbytes⟩ : ∃ bytes : Page, bytes ≠ s.remote.store p := by
    by_cases hzero : zeroPage = s.remote.store p
    · exact ⟨Page.fill 1, fun hone => Page.fill_ne (by decide) (hone.trans hzero.symm)⟩
    · exact ⟨zeroPage, hzero⟩
  have hs' := hs.callerChange f write fun _ => bytes
  obtain ⟨hnp, hnv, -⟩ := callerChange_sizes s.ctx f write fun _ => bytes
  have hm' : (callerChange s.ctx f write fun _ => bytes).Maps p f := by
    rw [Maps, callerChange_pageTable, hnv]
    exact hm
  obtain ⟨j, hj, hplace⟩ := hs'.rep.exists_place (((hs'.rep.maps_iff _ _).mp hm').1)
  have hdue : Due p f j { s with ctx := callerChange s.ctx f write fun _ => bytes } := by
    refine ⟨hm', ?_, hj, hplace⟩
    rw [NeedsWriteback, callerChange_pageTable]
    exact hclean
  obtain ⟨later, seen, s₁, hlater, hrun, hs₁, hsafe, -⟩ := exists_eviction hsmall _ hs' hdue rfl
  obtain ⟨seen', s₁', hrun', haccess⟩ := hsurvives (fun _ => bytes) later hlater
  obtain ⟨-, rfl⟩ := Prod.mk.inj (Option.some.inj (hrun'.symm.trans hrun))
  obtain ⟨g, s₂, heq, hmem⟩ := haccess 0 ⟨.ok, .ok, true⟩ ⟨rfl, rfl, rfl⟩
  obtain ⟨g', s₂', heq', hmem'⟩ := Pager.Has.access (.inl hsafe) hs₁ hp 0
    (show RpcScript.Succeeds ⟨.ok, .ok, true⟩ from ⟨rfl, rfl, rfl⟩)
  obtain ⟨hg, rfl⟩ := Prod.mk.inj (Option.some.inj (heq'.symm.trans heq))
  obtain rfl := Option.some.inj hg
  exact hbytes (hmem.symm.trans hmem')

end Change

/-- **When a non-zero write flag means write.** In every reachable state with a connected socket, an
access to page `p` with a non-zero flag, through either entry point, returns a page that the caller
changes. The change survives if and only if no page is ever given up, because there are no more pages
than frames; or the flag has a non-zero low byte, or the page was cached and dirty already, and the
page is not one that was cached before the socket was set. -/
theorem write_flag_honoured_iff (hs : s.Reachable numPages numVirtualPages)
    (hfd : 0 ≤ s.ctx.sockFd) (hp : p < numVirtualPages) {write : Int32} (hw : write ≠ 0)
    {access : Pager → Nat → Int32 → RpcScript → Option (Option Nat × Pager)}
    (haccess : access = dsmAccessPage ∨ access = dsmAccessPageFast) {rpc : RpcScript} {f : Nat}
    (heq : access s p write rpc = some (some f, s')) :
    ChangeSurvives numVirtualPages p f write s' ↔
      numVirtualPages ≤ numPages ∨
      (writeByte write ≠ 0 ∨ (s.ctx.pageTable p).valid = true ∧ (s.ctx.pageTable p).dirty ≠ 0) ∧
        ((s.ctx.pageTable p).valid = true → (s.ctx.pageTable p).location = .locRemote) := by
  have hconn := hs.connected hfd
  have hp' : p < s.ctx.numVirtualPages := hconn.pages.symm ▸ hp
  have hslow : dsmAccessPage s p write rpc = some (some f, s') := by
    rcases haccess with rfl | rfl
    · exact heq
    · rw [← dsmAccessPageFast_eq]
      exact heq
  obtain ⟨r, s'', heq', hacc⟩ := dsmAccessPage_accessed hconn.rep hp' write rpc
  obtain ⟨rfl, rfl⟩ := Prod.mk.inj (Option.some.inj (heq'.symm.trans hslow))
  obtain ⟨ms, hrun, -⟩ := hacc.run hconn.rep
  have hs' := hconn.moves hrun
  have hm := hacc.maps hconn.rep hp'
  rw [← hacc.needsWriteback_iff hfd]
  constructor
  · intro hsurvives
    by_contra hlost
    rw [not_or, Nat.not_le] at hlost
    exact not_changeSurvives hs' hm hp hlost.1 hlost.2 hsurvives
  · intro hkept change later hlater
    obtain ⟨seen, s₁, hrun', hs₁, hhas⟩ :=
      Pager.Has.run (hs'.callerChange f write change) (callerChange_has hs' hm hw change hkept) hlater
    exact ⟨seen, s₁, hrun', fun write' rpc' hrpc => hhas.access hs₁ hp write' hrpc⟩

theorem write_flag_honoured_two_pages : ∃ s s', s.Reachable 1 2 ∧
    dsmAccessPageFast s 0 1 ⟨.ok, .ok, true⟩ = some (some 0, s') ∧
    ChangeSurvives 2 0 0 1 s' := by
  have hreach : ∃ s s', s.Reachable 1 2 ∧ 0 ≤ s.ctx.sockFd ∧ (s.ctx.pageTable 0).valid = false ∧
      dsmAccessPageFast s 0 1 ⟨.ok, .ok, true⟩ = some (some 0, s') :=
    ⟨_, _, ⟨[.setSocket 3], by decide, by decide, by decide, by simp [Call.InRange],
      ⟨fun _ => zeroPage, []⟩, _, rfl⟩, by decide, rfl, rfl⟩
  obtain ⟨s, s', hs, hfd, hv, heq⟩ := hreach
  refine ⟨s, s', hs, heq, ?_⟩
  exact (write_flag_honoured_iff hs hfd (by decide) (by decide) (.inr rfl) heq).mpr
    (.inr ⟨.inl (by decide), fun hvalid => absurd (hv.symm.trans hvalid) (by decide)⟩)

/-- **Two changes that are lost.** One frame, two pages, every RPC succeeds. With the flag `256` the
dirty bit stays `0`; a page that was cached before the socket was set stays local. In both cases
page `0` is changed, an access to page `1` takes its frame, and page `0` then has its old bytes. -/
theorem write_flag_ignored :
    (∃ s s' : Pager, ∃ seen, s.ReachedBy 1 2 [.setSocket 3] ∧
      Pager.run s [.access 0 256 (fun _ => Page.fill 7) ⟨.ok, .ok, true⟩,
        .access 1 0 id ⟨.ok, .ok, true⟩, .access 0 0 id ⟨.ok, .ok, true⟩] = some (seen, s') ∧
      s'.ctx.Maps 0 0 ∧ s'.ctx.localMemory 0 = zeroPage ∧
      s'.remote.log = [.get 0 true, .get 1 true, .get 0 true]) ∧
    ∃ s s' : Pager, ∃ seen, s.ReachedBy 1 2 [.access 0 0 id ⟨.ok, .ok, true⟩, .setSocket 3] ∧
      Pager.run s [.access 0 1 (fun _ => Page.fill 7) ⟨.ok, .ok, true⟩,
        .access 1 0 id ⟨.ok, .ok, true⟩, .access 0 0 id ⟨.ok, .ok, true⟩] = some (seen, s') ∧
      s'.ctx.Maps 0 0 ∧ s'.ctx.localMemory 0 = zeroPage ∧
      s'.remote.log = [.get 0 true, .get 1 true] :=
  ⟨⟨_, _, _, ⟨by decide, by decide, by decide, by simp [Call.InRange], ⟨fun _ => zeroPage, []⟩, _,
      rfl⟩, rfl, ⟨by decide, rfl, rfl⟩, rfl, rfl⟩,
    ⟨_, _, _, ⟨by decide, by decide, by decide, by simp [Call.InRange], ⟨fun _ => zeroPage, []⟩, _,
      rfl⟩, rfl, ⟨by decide, rfl, rfl⟩, rfl, rfl⟩⟩

end Dsm.Paging
