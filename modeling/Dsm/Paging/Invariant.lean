import Dsm.Paging.Operations
import Mathlib.Data.Finset.Card

/-!
# The representation invariant over whole runs

Any sequence of API calls, with any RPC outcomes, leaves the tables of the pager consistent
(`pager_consistent`). The statement spells out what consistency means to a reader of the C code;
the proof is the representation invariant of `Paging/Moves.lean` carried along the moves of each
call, and one counting argument (`RepInv.conservation`): the free list and the frames of the valid
pages are a partition of all frames.
-/

namespace Dsm.Paging

open DsmContext Dsm.Lib

variable {ctx : DsmContext} {s : Pager}

/-- The pages that are cached. -/
def DsmContext.validPages (ctx : DsmContext) : Finset Nat :=
  (Finset.range ctx.numVirtualPages).filter fun p => (ctx.pageTable p).valid = true

/-- What the tables of a pager with `numPages` frames and `numVirtualPages` pages look like between
two calls. The last four fields follow from the first six. -/
structure Consistent (numPages numVirtualPages : Nat) (ctx : DsmContext) : Prop where
  free_nodup : ctx.freeList.Nodup
  free_lt : ∀ f ∈ ctx.freeList, f < numPages
  free_iff : ∀ f < numPages, f ∈ ctx.freeList ↔ (ctx.frameTable f).occupied = false
  valid_iff : ∀ p f,
    p < numVirtualPages ∧ (ctx.pageTable p).valid = true ∧ (ctx.pageTable p).frameNumber = f ↔
    f < numPages ∧ (ctx.frameTable f).occupied = true ∧ (ctx.frameTable f).pageNumber = p ∧
      p < numVirtualPages
  hand_lt : ctx.clockHand < numPages
  conservation : ctx.freeList.length + ctx.validPages.card = numPages
  no_sharing : ∀ p < numVirtualPages, ∀ q < numVirtualPages, (ctx.pageTable p).valid = true →
    (ctx.pageTable q).valid = true →
    (ctx.pageTable p).frameNumber = (ctx.pageTable q).frameNumber → p = q
  no_overflow : ctx.freeList.length ≤ numPages
  no_leak : ∀ f < numPages, f ∈ ctx.freeList ∨
    ∃ p < numVirtualPages, (ctx.pageTable p).valid = true ∧ (ctx.pageTable p).frameNumber = f
  no_sentinel : ∀ f < numPages, f ≠ dsmNoFrame

namespace RepInv

/-- Two pages never share a frame. -/
theorem maps_inj {held : Finset Nat} (h : RepInv held ctx) {p q f : Nat} (hp : ctx.Maps p f)
    (hq : ctx.Maps q f) : p = q := by
  have h₁ := ((h.maps_iff p f).mp hp).2.2
  have h₂ := ((h.maps_iff q f).mp hq).2.2
  exact h₁.symm.trans h₂

/-- Every frame is free or holds a valid page. -/
theorem free_or_mapped (h : RepInv ∅ ctx) {f : Nat} (hf : f < ctx.numPages) :
    f ∈ ctx.freeList ∨ ∃ p, ctx.Maps p f := by
  cases hocc : (ctx.frameTable f).occupied with
  | false =>
      left
      simpa using (h.free_iff f).mpr ⟨hf, hocc⟩
  | true => exact .inr ⟨_, (h.maps_iff _ f).mpr ⟨hf, hocc, rfl⟩⟩

theorem mem_validPages {p : Nat} :
    p ∈ ctx.validPages ↔ ctx.Maps p (ctx.pageTable p).frameNumber := by
  simp [validPages, Maps]

/-- **Conservation of frames**: the free frames and the frames of the valid pages are disjoint and
together are all frames. -/
theorem conservation (h : RepInv ∅ ctx) :
    ctx.freeList.length + ctx.validPages.card = ctx.numPages := by
  have hinj : Set.InjOn (fun p => (ctx.pageTable p).frameNumber) ctx.validPages := by
    intro p hp q hq hpq
    have hp' := mem_validPages.mp hp
    have hq' := mem_validPages.mp hq
    simp only at hpq
    rw [hpq] at hp'
    exact h.maps_inj hp' hq'
  have hdisj : Disjoint ctx.freeList.toFinset
      (ctx.validPages.image fun p => (ctx.pageTable p).frameNumber) := by
    rw [Finset.disjoint_left]
    intro f hfree himg
    obtain ⟨p, hp, rfl⟩ := Finset.mem_image.mp himg
    have hocc := ((h.maps_iff _ _).mp (mem_validPages.mp hp)).2.1
    have hfree' := ((h.free_iff _).mp (.inr (List.mem_toFinset.mp hfree))).2
    rw [hocc] at hfree'
    exact absurd hfree' (by decide)
  have hunion : ctx.freeList.toFinset ∪
      (ctx.validPages.image fun p => (ctx.pageTable p).frameNumber) = Finset.range ctx.numPages := by
    ext f
    rw [Finset.mem_union, List.mem_toFinset, Finset.mem_image, Finset.mem_range]
    constructor
    · rintro (hf | ⟨p, hp, rfl⟩)
      · exact h.lt_of_free hf
      · exact ((h.maps_iff _ _).mp (mem_validPages.mp hp)).1
    · intro hf
      rcases h.free_or_mapped hf with hfree | ⟨p, hp⟩
      · exact .inl hfree
      · obtain ⟨hlt, hv, rfl⟩ := hp
        exact .inr ⟨p, mem_validPages.mpr ⟨hlt, hv, rfl⟩, rfl⟩
  calc ctx.freeList.length + ctx.validPages.card
      = ctx.freeList.toFinset.card
          + (ctx.validPages.image fun p => (ctx.pageTable p).frameNumber).card := by
        rw [List.toFinset_card_of_nodup h.nodup, Finset.card_image_of_injOn hinj]
    _ = (Finset.range ctx.numPages).card := by rw [← Finset.card_union_of_disjoint hdisj, hunion]
    _ = ctx.numPages := Finset.card_range _

theorem consistent (h : RepInv ∅ ctx) : Consistent ctx.numPages ctx.numVirtualPages ctx where
  free_nodup := h.nodup
  free_lt := fun _ hf => h.lt_of_free hf
  free_iff := by
    intro f hf
    have := h.free_iff f
    simpa [hf] using this
  valid_iff := by
    intro p f
    constructor
    · intro hp
      obtain ⟨h₁, h₂, h₃⟩ := (h.maps_iff p f).mp hp
      exact ⟨h₁, h₂, h₃, hp.1⟩
    · rintro ⟨h₁, h₂, h₃, -⟩
      exact (h.maps_iff p f).mpr ⟨h₁, h₂, h₃⟩
  hand_lt := h.hand_lt
  conservation := h.conservation
  no_sharing := by
    intro p hp q hq hvp hvq heq
    exact h.maps_inj ⟨hp, hvp, rfl⟩ ⟨hq, hvq, heq.symm⟩
  no_overflow := by
    have := h.conservation
    omega
  no_leak := by
    intro f hf
    rcases h.free_or_mapped hf with hfree | ⟨p, hp, hv, hpf⟩
    · exact .inl hfree
    · exact .inr ⟨p, hp, hv, hpf⟩
  no_sentinel := fun _ hf => h.ne_noFrame hf

end RepInv

/-- `dsm_create_context`, then `dsm_context_set_socket`. -/
theorem RepInv.connect {numPages numVirtualPages : Nat} (hpos : 1 ≤ numPages)
    (hnp : numPages < 2 ^ 32) (hnv : numVirtualPages < 2 ^ 32) (fd : Int) :
    RepInv ∅ (dsmContextSetSocket (dsmCreateContext numPages numVirtualPages) fd) := by
  have h := RepInv.create hpos hnp hnv
  exact h.congr (fun _ => rfl) (fun _ => rfl) rfl rfl rfl rfl h.hand_lt

/-- A context that was created and connected caches nothing. -/
theorem not_maps_connect (numPages numVirtualPages : Nat) (fd : Int) (p f : Nat) :
    ¬ (dsmContextSetSocket (dsmCreateContext numPages numVirtualPages) fd).Maps p f := by
  simp [Maps, dsmContextSetSocket, dsmCreateContext]

/-! ## Calls and runs -/

/-- An access call is the access, then the caller's change of the returned page. -/
theorem call_accessed (h : RepInv ∅ s.ctx) {p : Nat} (hp : p < s.ctx.numVirtualPages)
    (write : Int32) (change : Page → Page) (rpc : RpcScript) :
    ∃ r s₁, Accessed s p write rpc r s₁ ∧
      s.call (.access p write change rpc) = some (r.map s₁.ctx.localMemory,
        match r with
        | none => s₁
        | some f => { s₁ with ctx := callerChange s₁.ctx f write change }) := by
  obtain ⟨r, s₁, heq, hacc⟩ := dsmAccessPage_accessed h hp write rpc
  refine ⟨r, s₁, hacc, ?_⟩
  rw [Pager.call, heq]
  cases r <;> rfl

/-- An access call is its moves, then the caller's change of the returned page. -/
theorem call_access (h : RepInv ∅ s.ctx) {p : Nat} (hp : p < s.ctx.numVirtualPages)
    (write : Int32) (change : Page → Page) (rpc : RpcScript) :
    ∃ r s₁ ms, Moves ⟨∅, s⟩ ms ⟨∅, s₁⟩ ∧ AccessMoves s.ctx p write rpc r ms ∧
      s.call (.access p write change rpc) = some (r.map s₁.ctx.localMemory,
        match r with
        | none => s₁
        | some f => { s₁ with ctx := callerChange s₁.ctx f write change }) := by
  obtain ⟨r, s₁, hacc, heq⟩ := call_accessed h hp write change rpc
  obtain ⟨ms, hrun, hms⟩ := hacc.run h
  exact ⟨r, s₁, ms, hrun, hms, heq⟩

/-- The caller's change touches no table. -/
theorem RepInv.callerChange (h : RepInv ∅ ctx) (f : Nat) (write : Int32) (change : Page → Page) :
    RepInv ∅ (callerChange ctx f write change) := by
  unfold Paging.callerChange
  split
  · exact h
  · exact h.congr (fun _ => rfl) (fun _ => rfl) rfl rfl rfl rfl h.hand_lt

theorem callerChange_sizes (ctx : DsmContext) (f : Nat) (write : Int32) (change : Page → Page) :
    (callerChange ctx f write change).numPages = ctx.numPages ∧
    (callerChange ctx f write change).numVirtualPages = ctx.numVirtualPages ∧
    (callerChange ctx f write change).sockFd = ctx.sockFd := by
  unfold callerChange
  split <;> exact ⟨rfl, rfl, rfl⟩

@[simp] theorem callerChange_pageTable (ctx : DsmContext) (f : Nat) (write : Int32)
    (change : Page → Page) : (callerChange ctx f write change).pageTable = ctx.pageTable := by
  unfold callerChange
  split <;> rfl

@[simp] theorem callerChange_lastPageId (ctx : DsmContext) (f : Nat) (write : Int32)
    (change : Page → Page) : (callerChange ctx f write change).lastPageId = ctx.lastPageId := by
  unfold callerChange
  split <;> rfl

/-- **One call** returns and keeps the representation invariant and the geometry. -/
theorem Pager.call_inv (h : RepInv ∅ s.ctx) {c : Call} (hc : c.InRange s.ctx.numVirtualPages) :
    ∃ seen s', s.call c = some (seen, s') ∧ RepInv ∅ s'.ctx ∧
      s'.ctx.numPages = s.ctx.numPages ∧ s'.ctx.numVirtualPages = s.ctx.numVirtualPages := by
  cases c with
  | access p write change rpc =>
      obtain ⟨r, s₁, ms, hrun, -, heq⟩ := call_access h hc write change rpc
      obtain ⟨hnp, hnv, -⟩ := hrun.sizes
      have h₁ := h.moves hrun
      refine ⟨_, _, heq, ?_⟩
      cases r with
      | none => exact ⟨h₁, hnp, hnv⟩
      | some f =>
          obtain ⟨k₁, k₂, -⟩ := callerChange_sizes s₁.ctx f write change
          exact ⟨h₁.callerChange f write change, k₁.trans hnp, k₂.trans hnv⟩
  | prefetch startPage count ok =>
      obtain ⟨s', batch, heq, hrun, -⟩ := dsmPrefetchPages_run h hc.1 count ok
      obtain ⟨hnp, hnv, -⟩ := hrun.sizes
      exact ⟨none, s', by rw [Pager.call, heq]; rfl, h.moves hrun, hnp, hnv⟩
  | setSocket fd =>
      exact ⟨none, _, rfl, h.congr (fun _ => rfl) (fun _ => rfl) rfl rfl rfl rfl h.hand_lt, rfl, rfl⟩

theorem Pager.run_cons {s₁ s' : Pager} {c : Call} {calls : List Call} {seen : Seen}
    {rest : List Seen} (hc : s.call c = some (seen, s₁)) (hrest : s₁.run calls = some (rest, s')) :
    s.run (c :: calls) = some (seen :: rest, s') := by
  rw [Pager.run, hc]
  simp [hrest]

/-- **Whole runs** return and keep the representation invariant. -/
theorem Pager.run_inv (calls : List Call) : ∀ {s : Pager}, RepInv ∅ s.ctx →
    (∀ c ∈ calls, c.InRange s.ctx.numVirtualPages) →
    ∃ seen s', s.run calls = some (seen, s') ∧ RepInv ∅ s'.ctx ∧
      s'.ctx.numPages = s.ctx.numPages ∧ s'.ctx.numVirtualPages = s.ctx.numVirtualPages := by
  induction calls with
  | nil => exact fun {s} h _ => ⟨[], s, rfl, h, rfl, rfl⟩
  | cons c calls ih =>
      intro s h hc
      obtain ⟨seen, s₁, heq, h₁, hnp, hnv⟩ := Pager.call_inv h (hc c List.mem_cons_self)
      have hrest : ∀ c ∈ calls, c.InRange s₁.ctx.numVirtualPages := by
        intro c' hc'
        rw [hnv]
        exact hc c' (List.mem_cons_of_mem _ hc')
      obtain ⟨rest, s', heq', h', hnp', hnv'⟩ := ih h₁ hrest
      exact ⟨seen :: rest, s', Pager.run_cons heq heq', h', hnp'.trans hnp, hnv'.trans hnv⟩

/-- **The run rule**: what every call preserves, as the calls are used up, holds at the end. -/
theorem Pager.run_rule (Inv : Pager → List Call → Prop)
    (hcall : ∀ s c calls seen s', Inv s (c :: calls) → s.call c = some (seen, s') → Inv s' calls)
    (calls : List Call) : ∀ {s s' : Pager} {seen : List Seen}, Inv s calls →
      s.run calls = some (seen, s') → Inv s' [] := by
  induction calls with
  | nil =>
      rintro s s' seen h ⟨⟩
      exact h
  | cons c calls ih =>
      intro s s' seen h heq
      simp only [Pager.run, Option.bind_eq_bind, Option.bind_eq_some_iff] at heq
      obtain ⟨⟨seen₁, s₁⟩, hc, ⟨rest, s₂⟩, hrest, heq⟩ := heq
      obtain ⟨-, rfl⟩ := Prod.mk.inj (Option.some.inj heq)
      exact ih (hcall s c calls seen₁ s₁ h hc) hrest

/-! ## Reachable states -/

/-- The calls lead a new context to the state `s`, whatever the RPCs do. There is at least one frame,
because `mmap` refuses a length of zero. -/
structure Pager.ReachedBy (numPages numVirtualPages : Nat) (calls : List Call) (s : Pager) :
    Prop where
  numPages_pos : 1 ≤ numPages
  numPages_lt : numPages < 2 ^ 32
  numVirtualPages_lt : numVirtualPages < 2 ^ 32
  inRange : ∀ c ∈ calls, c.InRange numVirtualPages
  ran : ∃ remote seen,
    Pager.run ⟨dsmCreateContext numPages numVirtualPages, remote⟩ calls = some (seen, s)

/-- Some sequence of calls leads a new context to the state `s`. -/
def Pager.Reachable (numPages numVirtualPages : Nat) (s : Pager) : Prop :=
  ∃ calls, s.ReachedBy numPages numVirtualPages calls

/-- Every reachable state satisfies the representation invariant. -/
theorem Pager.ReachedBy.rep {numPages numVirtualPages : Nat} {calls : List Call}
    (h : s.ReachedBy numPages numVirtualPages calls) :
    RepInv ∅ s.ctx ∧ s.ctx.numPages = numPages ∧ s.ctx.numVirtualPages = numVirtualPages := by
  obtain ⟨hpos, hnp, hnv, hcalls, remote, seen, heq⟩ := h
  obtain ⟨seen', s', heq', h', hn, hv⟩ := Pager.run_inv calls
    (s := ⟨dsmCreateContext numPages numVirtualPages, remote⟩) (RepInv.create hpos hnp hnv) hcalls
  obtain ⟨-, rfl⟩ := Prod.mk.inj (Option.some.inj (heq.symm.trans heq'))
  exact ⟨h', hn, hv⟩

/-- **The pager's tables stay consistent**: from `dsm_create_context` on, every sequence of calls
returns and ends in a consistent state, whatever the RPCs do. -/
theorem pager_consistent {numPages numVirtualPages : Nat} (hpos : 1 ≤ numPages)
    (hnp : numPages < 2 ^ 32) (hnv : numVirtualPages < 2 ^ 32) (remote : Remote)
    (calls : List Call) (hcalls : ∀ c ∈ calls, c.InRange numVirtualPages) :
    ∃ seen s, Pager.run ⟨dsmCreateContext numPages numVirtualPages, remote⟩ calls = some (seen, s) ∧
      Consistent numPages numVirtualPages s.ctx := by
  obtain ⟨seen, s, heq, h, hn, hv⟩ := Pager.run_inv calls
    (s := ⟨dsmCreateContext numPages numVirtualPages, remote⟩) (RepInv.create hpos hnp hnv) hcalls
  refine ⟨seen, s, heq, ?_⟩
  have hcon := h.consistent
  rw [hn, hv] at hcon
  exact hcon

/-- One frame, two pages: the second access evicts the first page, whose writeback fails. -/
theorem pager_consistent_one_frame :
    ∃ seen s, Pager.run ⟨dsmCreateContext 1 2, ⟨fun _ => zeroPage, []⟩⟩
        [.setSocket 3,
         .access 0 1 id ⟨.ok, .ok, true⟩,
         .access 1 0 id ⟨.failed true, .ok, true⟩,
         .prefetch 0 2 false] = some (seen, s) ∧ Consistent 1 2 s.ctx := by
  refine pager_consistent (by decide) (by decide) (by decide) _ _ ?_
  simp [Call.InRange]

end Dsm.Paging
