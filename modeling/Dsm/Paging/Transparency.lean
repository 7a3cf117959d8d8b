import Dsm.Paging.Coherence

/-!
# The page cache is transparent

A program that goes through the cache sees a plain flat memory. The abstract machine is `FlatRun`:
a memory of pages that starts as the server's content, is read by every access that returns a page
and written by the caller's own change. The simulation relation `Coherent` is that of a cache that
owns all pages (`Coherent.iff_shares`), so every move keeps it.
-/

namespace Dsm.Paging

open DsmContext Dsm.Lib

variable {ctx : DsmContext} {s : Pager} {mem : Nat → Page}

/-! ## The abstract memory -/

/-- What the calls may return over a flat memory: an access that returns a page shows the page's
content, and the caller's change of it is the only way the memory changes. -/
def FlatRun : (Nat → Page) → List (Call × Seen) → Prop
  | _, [] => True
  | mem, (.access p write change _, some bytes) :: rest =>
      bytes = mem p ∧
      FlatRun (if write = 0 then mem else Function.update mem p (change (mem p))) rest
  | mem, _ :: rest => FlatRun mem rest

/-- The flat memory after the calls. -/
def flatAfter : (Nat → Page) → List (Call × Seen) → Nat → Page
  | mem, [] => mem
  | mem, (.access p write change _, some _) :: rest =>
      flatAfter (if write = 0 then mem else Function.update mem p (change (mem p))) rest
  | mem, _ :: rest => flatAfter mem rest

/-! ## The simulation relation -/

/-- Cache and server together represent the flat memory `mem`. -/
structure Coherent (mem : Nat → Page) (s : Pager) : Prop where
  cached : ∀ p f, s.ctx.Maps p f → s.ctx.localMemory f = mem p
  remote : ∀ p f, s.ctx.Maps p f → (s.ctx.pageTable p).location = .locRemote
  clean : ∀ p f, s.ctx.Maps p f → (s.ctx.pageTable p).dirty = 0 → s.remote.store p = mem p
  absent : ∀ p < s.ctx.numVirtualPages, (s.ctx.pageTable p).valid = false →
    s.remote.store p = mem p

namespace Coherent

/-- A single client owns every page. -/
theorem iff_shares : Coherent mem s ↔
    Shares (fun _ => True) mem (fun _ _ => True) s.ctx s.remote.store := by
  constructor
  · intro h
    exact ⟨h.remote, fun p f hm _ => h.cached p f hm, fun p f hm _ => h.clean p f hm,
      fun p hp hv _ => h.absent p hp hv, fun _ _ _ hown => absurd trivial hown⟩
  · intro h
    exact ⟨fun p f hm => h.cached p f hm trivial, h.remote, fun p f hm => h.clean p f hm trivial,
      fun p hp hv => h.absent p hp hv trivial⟩

theorem moves {w w' : Work} {ms : List Move} (hrun : Moves w ms w')
    (hrep : RepInv w.held w.pager.ctx) (hfd : 0 ≤ w.pager.ctx.sockFd) (h : Coherent mem w.pager) :
    Coherent mem w'.pager := by
  refine iff_shares.mpr ((iff_shares.mp h).moves hrun hrep hfd fun m _ => ?_).1
  cases m with
  | fetch | prefetch | hit => exact fun hown => absurd trivial hown
  | _ => trivial

/-- The caller changes the page it was handed for writing. -/
theorem callerChange (hrep : RepInv ∅ s.ctx) (h : Coherent mem s) {p f : Nat}
    (hm : s.ctx.Maps p f) (write : Int32) (change : Page → Page)
    (hdirty : write ≠ 0 → (s.ctx.pageTable p).dirty ≠ 0) :
    Coherent (if write = 0 then mem else Function.update mem p (change (mem p)))
      { s with ctx := Paging.callerChange s.ctx f write change } :=
  iff_shares.mpr ((iff_shares.mp h).callerChange hrep hm write change
    fun hw => ⟨trivial, hdirty hw⟩)

end Coherent

/-! ## The page an access returns -/

/-- The moves a prefetch is made of. -/
def Move.IsPrefetching : Move → Prop
  | .take _ | .give _ | .batch _ _ | .prefetch _ _ => True
  | _ => False

theorem isPrefetching_prefetchMoves (batch : List (Nat × Nat)) (ok : Bool) :
    ∀ m ∈ prefetchMoves batch ok, m.IsPrefetching := by
  intro m hm
  unfold prefetchMoves at hm
  rcases List.mem_append.mp hm with hm | hm
  · obtain ⟨x, -, rfl⟩ := List.mem_map.mp hm
    trivial
  · split at hm
    · simp at hm
    · rcases List.mem_cons.mp hm with rfl | hm
      · trivial
      · obtain ⟨x, -, rfl⟩ := List.mem_map.mp hm
        cases ok <;> trivial

theorem isPrefetching_of_trailing {last p : Nat} {ok : Bool} {ms : List Move}
    (h : Trailing last p ok ms) : ∀ m ∈ ms, m.IsPrefetching := by
  unfold Trailing at h
  split at h
  · obtain ⟨batch, rfl⟩ := h
    exact isPrefetching_prefetchMoves batch ok
  · subst h
    simp

/-- A prefetch leaves the entries of cached pages alone. -/
theorem prefetching_keep {w w' : Work} {ms : List Move} (hrun : Moves w ms w')
    (hms : ∀ m ∈ ms, m.IsPrefetching) {p : Nat} {e : PageTableEntry} (he : e.valid = true)
    (hp : w.pager.ctx.pageTable p = e) : w'.pager.ctx.pageTable p = e := by
  refine hrun.invariant_of_labels (fun w => w.pager.ctx.pageTable p = e) Move.IsPrefetching ?_ hms hp
  rintro v m _ hm hv ⟨hen, rfl⟩
  cases m with
  | take _ => exact hv
  | give _ => exact hv
  | batch _ _ => exact hv
  | prefetch q f =>
      have hpq : p ≠ q := by
        rintro rfl
        have habs : (v.pager.ctx.pageTable p).valid = false := hen.2.2.1
        rw [hv, he] at habs
        exact absurd habs (by decide)
      simpa [Move.apply, Move.onContext, mapPage, setFrame, setEntry, setMemory, hpq] using hv
  | _ => exact absurd hm id

/-- A prefetch is not an access: it does not count for the sequential detection. -/
theorem prefetching_lastPageId {w w' : Work} {ms : List Move} (hrun : Moves w ms w')
    (hms : ∀ m ∈ ms, m.IsPrefetching) :
    w'.pager.ctx.lastPageId = w.pager.ctx.lastPageId := by
  refine hrun.invariant_of_labels (fun v => v.pager.ctx.lastPageId = w.pager.ctx.lastPageId)
    Move.IsPrefetching ?_ hms rfl
  rintro v m _ hm hv ⟨-, rfl⟩
  cases m with
  | take | give | batch | prefetch => exact hv
  | _ => exact absurd hm id

/-- What follows the installation of a missed page keeps the new entry. -/
theorem installed_entry {w : Work} {s' : Pager} {m : Move} {trail : List Move} {p : Nat}
    {e : PageTableEntry} (hrun : Moves w (m :: (trail ++ [.remember p])) ⟨∅, s'⟩)
    (htrail : ∀ m ∈ trail, m.IsPrefetching) (he : (m.apply w).pager.ctx.pageTable p = e)
    (hvalid : e.valid = true) : s'.ctx.pageTable p = e := by
  obtain - | ⟨⟨-, rfl⟩, hrest⟩ := hrun
  obtain ⟨w₂, htr, hrem⟩ := hrest.split
  obtain - | ⟨⟨-, hw₃⟩, hnil⟩ := hrem
  cases hnil
  obtain rfl := congrArg Work.pager hw₃
  exact prefetching_keep htr htrail hvalid he

theorem accessHit_entry (ctx : DsmContext) (p : Nat) (write : Int32) :
    (accessHit ctx p (ctx.pageTable p) write).pageTable p =
      { ctx.pageTable p with
        referenceBit := true, dirty := (ctx.pageTable p).dirty ||| writeByte write } := by
  simp [accessHit, setEntry]

/-- After an access that returns a page, that page is mapped to the frame that was returned, and a
flag whose low byte is not zero has left it dirty. -/
theorem AccessMoves.returns {s s' : Pager} {p f : Nat} {write : Int32} {rpc : RpcScript}
    {ms : List Move} (hacc : AccessMoves s.ctx p write rpc (some f) ms)
    (hp : p < s.ctx.numVirtualPages) (hrun : Moves ⟨∅, s⟩ ms ⟨∅, s'⟩) :
    s'.ctx.Maps p f ∧ (writeByte write ≠ 0 → (s'.ctx.pageTable p).dirty ≠ 0) := by
  have hp' : p < s'.ctx.numVirtualPages := hrun.sizes.2.1 ▸ hp
  cases hacc with
  | hit _ hmaps =>
      obtain - | ⟨⟨-, hs'⟩, hnil⟩ := hrun
      cases hnil
      have he : s'.ctx.pageTable p = _ := (congrArg (fun w : Work => w.pager.ctx.pageTable p) hs').trans
        (accessHit_entry s.ctx p write)
      obtain ⟨-, hv, hf⟩ := hmaps
      rw [Maps, he]
      exact ⟨⟨hp', hv, hf⟩, fun hw => by simp [hw]⟩
  | fetched acq trail _ _ _ _ htrail =>
      obtain ⟨w₁, -, hrest⟩ := hrun.split
      have he := installed_entry (e := ⟨f, true, true, writeByte write, .locRemote⟩) hrest
        (isPrefetching_of_trailing htrail)
        (by simp [Move.apply, Move.onContext, mapPage, setFrame, setEntry]) rfl
      rw [Maps, he]
      exact ⟨⟨hp', rfl, rfl⟩, id⟩
  | served acq trail _ _ _ htrail =>
      obtain ⟨w₁, -, hrest⟩ := hrun.split
      have he := installed_entry (e := ⟨f, true, true, writeByte write, .locLocal⟩) hrest
        (isPrefetching_of_trailing htrail)
        (by simp [Move.apply, Move.onContext, mapPage, setFrame, setEntry]) rfl
      rw [Maps, he]
      exact ⟨⟨hp', rfl, rfl⟩, id⟩

/-- The entry of the page an access has returned: a hit keeps the location and adds to the dirty bits,
a miss sets both. -/
theorem Accessed.entry {s s' : Pager} {p f : Nat} {write : Int32} {rpc : RpcScript}
    (hacc : Accessed s p write rpc (some f) s') :
    s'.ctx.pageTable p = if (s.ctx.pageTable p).valid then
        { s.ctx.pageTable p with
          referenceBit := true, dirty := (s.ctx.pageTable p).dirty ||| writeByte write }
      else ⟨f, true, true, writeByte write, if 0 ≤ s.ctx.sockFd then .locRemote else .locLocal⟩ := by
  have missed : ∀ {w : Work} {g : Nat} {ms : List Move}, Moves w ms ⟨∅, s'⟩ →
      FrameMoves s.ctx p g write rpc (some f) ms → s'.ctx.pageTable p =
        ⟨f, true, true, writeByte write, if 0 ≤ s.ctx.sockFd then .locRemote else .locLocal⟩ := by
    intro w g ms hrun hms
    cases hms with
    | fetched trail hsock _ htrail =>
        rw [if_pos hsock]
        exact installed_entry hrun (isPrefetching_of_trailing htrail)
          (by simp [Move.apply, Move.onContext, mapPage, setFrame, setEntry]) rfl
    | served trail hsock htrail =>
        rw [if_neg (by omega)]
        exact installed_entry hrun (isPrefetching_of_trailing htrail)
          (by simp [Move.apply, Move.onContext, mapPage, setFrame, setEntry]) rfl
  cases hacc with
  | hit hmaps => exact (accessHit_entry s.ctx p write).trans (if_pos hmaps.2.1).symm
  | popped hv _ hrun hms => exact (missed hrun hms).trans (if_neg (by simp [hv])).symm
  | evicted hv _ _ _ hrun hms => exact (missed hrun hms).trans (if_neg (by simp [hv])).symm

/-! ## Transparency -/

/-- The calls of a program that leaves the socket alone and passes `0` or `1` as the write flag. -/
def Call.Plain (numVirtualPages : Nat) : Call → Prop
  | .access pageId write _ _ => pageId < numVirtualPages ∧ (write = 0 ∨ write = 1)
  | .prefetch startPage count _ => startPage < 2 ^ 32 ∧ count < 2 ^ 8
  | .setSocket _ => False

/-- Cache and server represent `mem`, between two calls of a connected pager with `n` pages. -/
structure Represents (mem : Nat → Page) (n : Nat) (s : Pager) : Prop where
  rep : RepInv ∅ s.ctx
  socket : 0 ≤ s.ctx.sockFd
  size : s.ctx.numVirtualPages = n
  coherent : Coherent mem s
  outside : ∀ p, n ≤ p → s.remote.store p = mem p

namespace Represents

variable {n : Nat}

theorem moves (h : Represents mem n s) {s' : Pager} {ms : List Move}
    (hrun : Moves ⟨∅, s⟩ ms ⟨∅, s'⟩) : Represents mem n s' where
  rep := h.rep.moves hrun
  socket := hrun.sizes.2.2.1.symm ▸ h.socket
  size := hrun.sizes.2.1.trans h.size
  coherent := h.coherent.moves hrun h.rep h.socket
  outside p hp := (h.rep.store_outside hrun (h.size.trans_le hp)).trans (h.outside p hp)

/-- The caller changes the page it was handed for writing. -/
theorem callerChange (h : Represents mem n s) {p f : Nat} (hm : s.ctx.Maps p f) (write : Int32)
    (change : Page → Page) (hdirty : write ≠ 0 → (s.ctx.pageTable p).dirty ≠ 0) :
    Represents (if write = 0 then mem else Function.update mem p (change (mem p))) n
      { s with ctx := Paging.callerChange s.ctx f write change } := by
  obtain ⟨-, hnv, hfd⟩ := callerChange_sizes s.ctx f write change
  refine ⟨h.rep.callerChange f write change, hfd ▸ h.socket, hnv.trans h.size,
    h.coherent.callerChange h.rep hm write change hdirty, fun q hq => ?_⟩
  have hne : q ≠ p := by
    have := hm.1
    have := h.size
    omega
  rw [h.outside q hq]
  split
  · rfl
  · rw [Function.update_of_ne hne]

/-- **One call** behaves like the flat memory, and cache and server represent it again. -/
theorem call (h : Represents mem n s) {c : Call} (hc : c.Plain n) :
    ∃ seen s' mem', s.call c = some (seen, s') ∧ Represents mem' n s' ∧
      ∀ rest, (FlatRun mem' rest → FlatRun mem ((c, seen) :: rest)) ∧
        flatAfter mem ((c, seen) :: rest) = flatAfter mem' rest := by
  cases c with
  | access p write change rpc =>
      obtain ⟨hp, hw⟩ := hc
      have hp' : p < s.ctx.numVirtualPages := h.size.symm ▸ hp
      obtain ⟨r, s₁, ms, hrun, hacc, heq⟩ := call_access h.rep hp' write change rpc
      have h₁ := h.moves hrun
      cases r with
      | none => exact ⟨none, s₁, mem, heq, h₁, fun _ => ⟨id, rfl⟩⟩
      | some f =>
          obtain ⟨hm, hdirty⟩ := hacc.returns hp' hrun
          have hset : write ≠ 0 → (s₁.ctx.pageTable p).dirty ≠ 0 := by
            intro hne
            have hone := hw.resolve_left hne
            subst hone
            exact hdirty (by decide)
          exact ⟨_, _, _, heq, h₁.callerChange hm write change hset,
            fun _ => ⟨fun hr => ⟨h₁.coherent.cached p f hm, hr⟩, rfl⟩⟩
  | prefetch startPage count ok =>
      obtain ⟨s', batch, heq, hrun, -⟩ := dsmPrefetchPages_run h.rep hc.1 count ok
      exact ⟨none, s', mem, by rw [Pager.call, heq]; rfl, h.moves hrun, fun _ => ⟨id, rfl⟩⟩
  | setSocket fd => exact absurd hc id

/-- **Whole runs** behave like the flat memory. -/
theorem run (calls : List Call) : ∀ {s : Pager} {mem : Nat → Page}, Represents mem n s →
    (∀ c ∈ calls, c.Plain n) →
    ∃ seen s', s.run calls = some (seen, s') ∧ seen.length = calls.length ∧
      FlatRun mem (calls.zip seen) ∧ Represents (flatAfter mem (calls.zip seen)) n s' := by
  induction calls with
  | nil => exact fun {s} _ h _ => ⟨[], s, rfl, rfl, trivial, h⟩
  | cons c calls ih =>
      intro s mem h hc
      obtain ⟨seen, s₁, mem₁, heq, h₁, hflat⟩ := h.call (hc c List.mem_cons_self)
      obtain ⟨rest, s', heq', hlen, hr, h'⟩ := ih h₁ fun c' hc' => hc c' (List.mem_cons_of_mem _ hc')
      refine ⟨seen :: rest, s', Pager.run_cons heq heq', by simp [hlen], (hflat _).1 hr, ?_⟩
      rw [List.zip_cons_cons, (hflat _).2]
      exact h'

/-- Right after a context was created and connected, the memory is the server's. -/
theorem connect {numPages numVirtualPages : Nat} (hpos : 1 ≤ numPages) (hnp : numPages < 2 ^ 32)
    (hnv : numVirtualPages < 2 ^ 32) {fd : Int} (hfd : 0 ≤ fd) (r : Remote) :
    Represents r.store numVirtualPages
      ⟨dsmContextSetSocket (dsmCreateContext numPages numVirtualPages) fd, r⟩ := by
  refine ⟨RepInv.connect hpos hnp hnv fd, hfd, rfl, ⟨?_, ?_, ?_, fun _ _ _ => rfl⟩, fun _ _ => rfl⟩
  all_goals exact fun p f hm => absurd hm (not_maps_connect _ _ fd p f)

end Represents

/-- **The page cache is transparent.** A context is created, its socket is set, and a program makes
any sequence of accesses and prefetches, whatever the RPCs do: the calls return, and every access
that returns a page returns that page's content in the flat memory that starts as the server's
content and receives the program's own writes. -/
theorem cache_transparent {numPages numVirtualPages : Nat} (hpos : 1 ≤ numPages)
    (hnp : numPages < 2 ^ 32) (hnv : numVirtualPages < 2 ^ 32) {fd : Int} (hfd : 0 ≤ fd)
    (content : Nat → Page) (calls : List Call) (hcalls : ∀ c ∈ calls, c.Plain numVirtualPages) :
    ∃ seen s, Pager.run ⟨dsmContextSetSocket (dsmCreateContext numPages numVirtualPages) fd,
        ⟨content, []⟩⟩ calls = some (seen, s) ∧ seen.length = calls.length ∧
      FlatRun content (calls.zip seen) := by
  obtain ⟨seen, s, heq, hlen, hflat, -⟩ :=
    (Represents.connect hpos hnp hnv hfd ⟨content, []⟩).run calls hcalls
  exact ⟨seen, s, heq, hlen, hflat⟩

/-- One frame: the page written first is evicted, written back and fetched again. -/
theorem cache_transparent_refetch :
    ∃ seen s, Pager.run ⟨dsmContextSetSocket (dsmCreateContext 1 2) 3, ⟨fun _ => zeroPage, []⟩⟩
        [.access 0 1 (fun _ => Page.fill 7) ⟨.ok, .ok, true⟩,
         .access 1 0 id ⟨.ok, .ok, true⟩,
         .access 0 0 id ⟨.ok, .ok, true⟩] = some (seen, s) ∧ seen.length = 3 ∧
      FlatRun (fun _ => zeroPage)
        (List.zip [.access 0 1 (fun _ => Page.fill 7) ⟨.ok, .ok, true⟩,
          .access 1 0 id ⟨.ok, .ok, true⟩,
          .access 0 0 id ⟨.ok, .ok, true⟩] seen) := by
  refine cache_transparent (by decide) (by decide) (by decide) (by decide) _ _ ?_
  simp [Call.Plain]

end Dsm.Paging
