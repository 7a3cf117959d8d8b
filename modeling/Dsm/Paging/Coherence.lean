import Dsm.Paging.Invariant

/-!
# Owned and foreign pages

Where the truth about a page is, seen from one cache. Of the pages a cache *owns* it holds the latest
content: in the frame if the page is cached, on the server if it is absent, and in both places if it
is cached and clean. So a victim may be dropped when it is clean, and the dirty bit only has to
over-approximate the pages on which cache and server differ. The other pages are *foreign*: the
cache reads them, never changes them and never puts them back, and what it has of them is something
it fetched.

`Shares` says this, and it is checked move by move (`Shares.move`); nothing here looks at the control
flow of `dsm_paging.c`. A cache that owns all pages is the case of a single client; several clients
own disjoint sets of pages.
-/

namespace Dsm.Paging

open DsmContext Dsm.Lib

/-- The cache and the server's `store` together represent `mem` on the owned pages; on foreign pages
the cache is clean and holds what `fetched` allows. -/
structure Shares (own : Nat → Prop) (mem : Nat → Page) (fetched : Nat → Page → Prop)
    (ctx : DsmContext) (store : Nat → Page) : Prop where
  remote : ∀ p f, ctx.Maps p f → (ctx.pageTable p).location = .locRemote
  cached : ∀ p f, ctx.Maps p f → own p → ctx.localMemory f = mem p
  clean : ∀ p f, ctx.Maps p f → own p → (ctx.pageTable p).dirty = 0 → store p = mem p
  absent : ∀ p < ctx.numVirtualPages, (ctx.pageTable p).valid = false → own p → store p = mem p
  foreign : ∀ p f, ctx.Maps p f → ¬ own p →
    (ctx.pageTable p).dirty = 0 ∧ fetched p (ctx.localMemory f)

/-- A move that treats foreign pages as such: none is fetched or hit for writing, and what is fetched
of them is allowed. -/
def Move.Allowed (own : Nat → Prop) (fetched : Nat → Page → Prop) (store : Nat → Page) :
    Move → Prop
  | .fetch p _ write => ¬ own p → writeByte write = 0 ∧ fetched p (store p)
  | .prefetch p _ => ¬ own p → fetched p (store p)
  | .hit p write => ¬ own p → writeByte write = 0
  | _ => True

namespace Shares

variable {own : Nat → Prop} {mem mem' : Nat → Page} {fetched fetched' : Nat → Page → Prop}
  {ctx ctx' : DsmContext} {store store' : Nat → Page} {held : Finset Nat}

/-- Only the contents of mapped frames, the dirty bits and the owned pages on the server matter. -/
theorem congr (h : Shares own mem fetched ctx store)
    (hmaps : ∀ p f, ctx'.Maps p f → ctx.Maps p f ∧ ctx'.localMemory f = ctx.localMemory f ∧
      (ctx'.pageTable p).location = (ctx.pageTable p).location ∧
      ((ctx'.pageTable p).dirty = 0 → (ctx.pageTable p).dirty = 0) ∧
      (¬ own p → (ctx.pageTable p).dirty = 0 → (ctx'.pageTable p).dirty = 0))
    (habsent : ∀ p < ctx'.numVirtualPages, (ctx'.pageTable p).valid = false →
      p < ctx.numVirtualPages ∧ (ctx.pageTable p).valid = false)
    (hstore : ∀ p, own p → store' p = store p) : Shares own mem fetched ctx' store' where
  remote := by
    intro p f hm
    obtain ⟨hm', -, hloc, -⟩ := hmaps p f hm
    rw [hloc]
    exact h.remote p f hm'
  cached := by
    intro p f hm hown
    obtain ⟨hm', hmem, -⟩ := hmaps p f hm
    rw [hmem]
    exact h.cached p f hm' hown
  clean := by
    intro p f hm hown hd
    obtain ⟨hm', -, -, hdirty, -⟩ := hmaps p f hm
    rw [hstore p hown]
    exact h.clean p f hm' hown (hdirty hd)
  absent := by
    intro p hp hv hown
    obtain ⟨hp', hv'⟩ := habsent p hp hv
    rw [hstore p hown]
    exact h.absent p hp' hv' hown
  foreign := by
    intro p f hm hown
    obtain ⟨hm', hmem, -, -, hdirty⟩ := hmaps p f hm
    obtain ⟨hd, hfetched⟩ := h.foreign p f hm' hown
    rw [hmem]
    exact ⟨hdirty hown hd, hfetched⟩

/-- What others do: they change neither the content nor the server's copy of an owned page, and what
was allowed to be fetched stays so. -/
theorem mono (h : Shares own mem fetched ctx store) (hmem : ∀ p, own p → mem' p = mem p)
    (hstore : ∀ p, own p → store' p = store p)
    (hfetched : ∀ p f, ctx.Maps p f → ¬ own p → fetched p (ctx.localMemory f) →
      fetched' p (ctx.localMemory f)) :
    Shares own mem' fetched' ctx store' where
  remote := h.remote
  cached p f hm hown := (h.cached p f hm hown).trans (hmem p hown).symm
  clean p f hm hown hd := by rw [hstore p hown, hmem p hown, h.clean p f hm hown hd]
  absent p hp hv hown := by rw [hstore p hown, hmem p hown, h.absent p hp hv hown]
  foreign p f hm hown :=
    ⟨(h.foreign p f hm hown).1, hfetched p f hm hown (h.foreign p f hm hown).2⟩

/-- A page is installed in a held frame as the server has it. -/
theorem install (hrep : RepInv held ctx) (h : Shares own mem fetched ctx store) {p f : Nat}
    (hf : f ∈ held) (hp : p < ctx.numVirtualPages) (hv : (ctx.pageTable p).valid = false)
    (e : PageTableEntry) (hloc : e.location = .locRemote)
    (hforeign : ¬ own p → e.dirty = 0 ∧ fetched p (store p))
    (hmem : ctx'.localMemory = Function.update ctx.localMemory f (store p))
    (hpt : ctx'.pageTable =
      Function.update ctx.pageTable p { e with frameNumber := f, valid := true })
    (hnv : ctx'.numVirtualPages = ctx.numVirtualPages) : Shares own mem fetched ctx' store := by
  have hnew : own p → store p = mem p := h.absent p hp hv
  -- A mapping of the new page table is the new pair or an old one that avoids the held frame.
  have hframe : ∀ g, ctx'.Maps p g → ctx'.localMemory g = store p := by
    intro g hm
    have hg : f = g := by simpa [Maps, hpt] using hm.2.2
    rw [hmem, ← hg, Function.update_self]
  have hold : ∀ q g, ctx'.Maps q g → q ≠ p →
      ctx.Maps q g ∧ ctx'.localMemory g = ctx.localMemory g ∧
        ctx'.pageTable q = ctx.pageTable q := by
    intro q g hm hq
    have hm' : ctx.Maps q g := by
      simpa [Maps, hpt, hnv, Function.update_of_ne hq] using hm
    have hg : g ≠ f := by
      rintro rfl
      exact hrep.not_holds_of_held hf ((hrep.maps_iff q g).mp hm')
    exact ⟨hm', by rw [hmem, Function.update_of_ne hg], by rw [hpt, Function.update_of_ne hq]⟩
  refine ⟨?_, ?_, ?_, ?_, ?_⟩
  · intro q g hm
    by_cases hq : q = p
    · subst hq
      simpa [hpt] using hloc
    · obtain ⟨hm', -, he⟩ := hold q g hm hq
      rw [he]
      exact h.remote q g hm'
  · intro q g hm hown
    by_cases hq : q = p
    · subst hq
      exact (hframe g hm).trans (hnew hown)
    · obtain ⟨hm', hg, -⟩ := hold q g hm hq
      exact hg.trans (h.cached q g hm' hown)
  · intro q g hm hown hd
    by_cases hq : q = p
    · subst hq
      exact hnew hown
    · obtain ⟨hm', -, he⟩ := hold q g hm hq
      exact h.clean q g hm' hown (he ▸ hd)
  · intro q hq' hv' hown
    by_cases hq : q = p
    · subst hq
      exact hnew hown
    · rw [hpt, Function.update_of_ne hq] at hv'
      exact h.absent q (hnv ▸ hq') hv' hown
  · intro q g hm hown
    by_cases hq : q = p
    · subst hq
      rw [hframe g hm]
      exact ⟨by simpa [hpt] using (hforeign hown).1, (hforeign hown).2⟩
    · obtain ⟨hm', hg, he⟩ := hold q g hm hq
      rw [he, hg]
      exact h.foreign q g hm' hown

/-- What the server has after an eviction: the content of an owned victim, and of all other pages
what it had before. A foreign victim is clean and is not put back. -/
theorem evict_store (hrep : RepInv held ctx) (h : Shares own mem fetched ctx store) {q f : Nat}
    (hq : ctx.Holds f q) (r : Remote) (hr : r.store = store) :
    (ctx.NeedsWriteback q → own q ∧ ctx.localMemory f = mem q) ∧
    (own q → ((Move.evict q f).onRemote ctx r).store q = mem q) ∧
    ∀ p, p ≠ q ∨ ¬ own p → ((Move.evict q f).onRemote ctx r).store p = store p := by
  have hm := (hrep.maps_iff q f).mpr hq
  have hput : ctx.NeedsWriteback q → own q := by
    intro hwb
    by_contra hown
    exact hwb.1 (h.foreign q f hm hown).1
  refine ⟨fun hwb => ⟨hput hwb, h.cached q f hm (hput hwb)⟩, fun hown => ?_, fun p hp => ?_⟩
  · by_cases hwb : ctx.NeedsWriteback q
    · simp [Move.onRemote, if_pos hwb, Remote.dsmRpcPut, h.cached q f hm hown]
    · have hclean : (ctx.pageTable q).dirty = 0 := by
        by_contra hd
        exact hwb ⟨hd, h.remote q f hm⟩
      simp [Move.onRemote, if_neg hwb, hr, h.clean q f hm hown hclean]
  · by_cases hwb : ctx.NeedsWriteback q
    · have hpq : p ≠ q := by
        rcases hp with hp | hp
        · exact hp
        · rintro rfl
          exact hp (hput hwb)
      simp [Move.onRemote, hwb, Remote.dsmRpcPut, Function.update_of_ne hpq, hr]
    · simp [Move.onRemote, hwb, hr]

/-- The victim of the clock leaves its content on the server. -/
theorem evict (hrep : RepInv held ctx) (h : Shares own mem fetched ctx store) {q f : Nat}
    (hq : ctx.Holds f q) (r : Remote) (hr : r.store = store) :
    Shares own mem fetched ((Move.evict q f).onContext ctx store)
      ((Move.evict q f).onRemote ctx r).store := by
  obtain ⟨-, hvictim, hothers⟩ := h.evict_store hrep hq r hr
  have hpt : ∀ p, p ≠ q →
      ((Move.evict q f).onContext ctx store).pageTable p = ctx.pageTable p := by
    intro p hp
    simp [Move.onContext, unmapPage, advanceHand, setFrame, setEntry, hp]
  have hmaps : ∀ p g, ((Move.evict q f).onContext ctx store).Maps p g →
      p ≠ q ∧ ctx.Maps p g := by
    intro p g hpg
    have hp : p ≠ q := by
      rintro rfl
      simpa [Move.onContext, unmapPage, advanceHand, setFrame, setEntry] using hpg.2.1
    refine ⟨hp, hpg.1, ?_, ?_⟩
    · rw [← hpt p hp]
      exact hpg.2.1
    · rw [← hpt p hp]
      exact hpg.2.2
  refine ⟨?_, ?_, ?_, ?_, ?_⟩
  · intro p g hpg
    obtain ⟨hp, hpg'⟩ := hmaps p g hpg
    rw [hpt p hp]
    exact h.remote p g hpg'
  · intro p g hpg
    exact h.cached p g (hmaps p g hpg).2
  · intro p g hpg hown hd
    obtain ⟨hp, hpg'⟩ := hmaps p g hpg
    rw [hpt p hp] at hd
    rw [hothers p (.inl hp)]
    exact h.clean p g hpg' hown hd
  · intro p hp hv hown
    by_cases hpq : p = q
    · subst hpq
      exact hvictim hown
    · rw [hpt p hpq] at hv
      rw [hothers p (.inl hpq)]
      exact h.absent p hp hv hown
  · intro p g hpg hown
    obtain ⟨hp, hpg'⟩ := hmaps p g hpg
    rw [hpt p hp]
    exact h.foreign p g hpg' hown

/-- The clock passes a page. -/
theorem sweep (h : Shares own mem fetched ctx store) (q : Nat) :
    Shares own mem fetched ((Move.sweep q).onContext ctx store) store := by
  have hpt : ∀ p, ((Move.sweep q).onContext ctx store).pageTable p =
      { ctx.pageTable p with
        referenceBit := (((Move.sweep q).onContext ctx store).pageTable p).referenceBit } := by
    intro p
    by_cases hp : p = q
    · subst hp
      simp [Move.onContext, advanceHand, setEntry]
    · simp [Move.onContext, advanceHand, setEntry, hp]
  refine h.congr ?_ ?_ fun _ _ => rfl
  · intro p f hm
    rw [Maps, hpt] at hm
    rw [hpt]
    exact ⟨hm, rfl, rfl, id, fun _ => id⟩
  · intro p hp hv
    rw [hpt] at hv
    exact ⟨hp, hv⟩

/-- An access finds its page; a foreign page is not accessed for writing. -/
theorem hit (h : Shares own mem fetched ctx store) (p : Nat) (write : Int32)
    (hforeign : ¬ own p → writeByte write = 0) :
    Shares own mem fetched ((Move.hit p write).onContext ctx store) store := by
  refine h.congr ?_ ?_ fun _ _ => rfl
  · intro q f hm
    by_cases hq : q = p
    · subst hq
      simp [Move.onContext, accessHit, setEntry, Maps] at hm ⊢
      exact ⟨hm, fun hd _ => hd, fun hown hd => ⟨hd, hforeign hown⟩⟩
    · simpa [Move.onContext, accessHit, setEntry, Maps, hq] using hm
  · intro q hq' hv
    by_cases hq : q = p
    · subst hq
      exact ⟨hq', by simpa [Move.onContext, accessHit, setEntry] using hv⟩
    · exact ⟨hq', by simpa [Move.onContext, accessHit, setEntry, hq] using hv⟩

/-- A PUT of the victim fails. Applied or not, the server's copy of it is not relied upon: the victim
is cached and dirty. -/
theorem putFailed (hrep : RepInv held ctx) (h : Shares own mem fetched ctx store) {q f : Nat}
    (hq : ctx.Holds f q) (hwb : ctx.NeedsWriteback q) (r : Remote) (hr : r.store = store)
    (applied : Bool) :
    Shares own mem fetched ctx ((Move.putFailed q f applied).onRemote ctx r).store ∧
      ∀ p, ¬ own p → ((Move.putFailed q f applied).onRemote ctx r).store p = store p := by
  have hm := (hrep.maps_iff q f).mpr hq
  have hown : own q := by
    by_contra hown
    exact hwb.1 (h.foreign q f hm hown).1
  have hstore : ∀ p, p ≠ q →
      ((Move.putFailed q f applied).onRemote ctx r).store p = store p := by
    intro p hp
    cases applied <;> simp [Move.onRemote, Remote.dsmRpcPut, hp, hr]
  refine ⟨⟨h.remote, h.cached, ?_, ?_, h.foreign⟩, fun p hp => hstore p ?_⟩
  · intro p g hpg hp hd
    have hpq : p ≠ q := by
      rintro rfl
      exact hwb.1 hd
    rw [hstore p hpq]
    exact h.clean p g hpg hp hd
  · intro p hp hv hp'
    have hpq : p ≠ q := by
      rintro rfl
      exact absurd hv hm.not_absent
    rw [hstore p hpq]
    exact h.absent p hp hv hp'
  · rintro rfl
    exact hp hown

/-- **Every move of a connected pager keeps the relation**, with the same memory, and changes no
foreign page on the server. -/
theorem move {w w' : Work} {m : Move} (hrep : RepInv w.held w.pager.ctx)
    (hfd : 0 ≤ w.pager.ctx.sockFd)
    (h : Shares own mem fetched w.pager.ctx w.pager.remote.store)
    (hallowed : m.Allowed own fetched w.pager.remote.store) (hs : MoveStep w m w') :
    Shares own mem fetched w'.pager.ctx w'.pager.remote.store ∧
      ∀ p, ¬ own p → w'.pager.remote.store p = w.pager.remote.store p := by
  obtain ⟨hen, rfl⟩ := hs
  cases m with
  | take f => exact ⟨⟨h.remote, h.cached, h.clean, h.absent, h.foreign⟩, fun _ _ => rfl⟩
  | give f => exact ⟨⟨h.remote, h.cached, h.clean, h.absent, h.foreign⟩, fun _ _ => rfl⟩
  | batch ids ok => exact ⟨⟨h.remote, h.cached, h.clean, h.absent, h.foreign⟩, fun _ _ => rfl⟩
  | remember p => exact ⟨⟨h.remote, h.cached, h.clean, h.absent, h.foreign⟩, fun _ _ => rfl⟩
  | mapLocal p f write => exact absurd hen.1 (by omega)
  | evict q f =>
      obtain ⟨-, -, hothers⟩ := h.evict_store hrep hen.2.1 w.pager.remote rfl
      exact ⟨h.evict hrep hen.2.1 w.pager.remote rfl, fun p hown => hothers p (.inr hown)⟩
  | fetch p f write =>
      obtain ⟨-, hf, hp, hv⟩ := hen
      exact ⟨h.install hrep hf hp hv
        { referenceBit := true, dirty := writeByte write, location := .locRemote } rfl hallowed rfl
        rfl rfl, fun _ _ => rfl⟩
  | prefetch p f =>
      obtain ⟨hf, hp, hv, hloc⟩ := hen
      refine ⟨h.install hrep hf hp hv { w.pager.ctx.pageTable p with referenceBit := false, dirty := 0 }
        hloc (fun hown => ⟨rfl, hallowed hown⟩) rfl rfl rfl, fun _ _ => rfl⟩
  | fetchFailed p f left =>
      obtain ⟨-, hf⟩ := hen
      refine ⟨h.congr ?_ (fun p hp hv => ⟨hp, hv⟩) fun _ _ => rfl, fun _ _ => rfl⟩
      intro q g hm
      have hg : g ≠ f := by
        rintro rfl
        exact hrep.not_holds_of_held hf ((hrep.maps_iff q g).mp hm)
      exact ⟨hm, Function.update_of_ne hg _ _, rfl, id, fun _ => id⟩
  | sweep q => exact ⟨h.sweep q, fun _ _ => rfl⟩
  | hit p write => exact ⟨h.hit p write hallowed, fun _ _ => rfl⟩
  | putFailed q f applied =>
      obtain ⟨-, hq, -, hwb⟩ := hen
      exact h.putFailed hrep hq hwb w.pager.remote rfl applied

theorem moves {w w' : Work} {ms : List Move} (hrun : Moves w ms w')
    (hrep : RepInv w.held w.pager.ctx) (hfd : 0 ≤ w.pager.ctx.sockFd)
    (h : Shares own mem fetched w.pager.ctx w.pager.remote.store)
    (hallowed : ∀ m ∈ ms, m.Allowed own fetched w.pager.remote.store) :
    Shares own mem fetched w'.pager.ctx w'.pager.remote.store ∧
      ∀ p, ¬ own p → w'.pager.remote.store p = w.pager.remote.store p := by
  refine (hrun.invariant_of_labels
    (fun v => RepInv v.held v.pager.ctx ∧ 0 ≤ v.pager.ctx.sockFd ∧
      Shares own mem fetched v.pager.ctx v.pager.remote.store ∧
      ∀ p, ¬ own p → v.pager.remote.store p = w.pager.remote.store p)
    (fun m => m.Allowed own fetched w.pager.remote.store) ?_ hallowed
    ⟨hrep, hfd, h, fun _ _ => rfl⟩).2.2
  rintro v m v' hm ⟨h₁, h₂, h₃, hsame⟩ hs
  -- What may be fetched of foreign pages is the same all along.
  have hm' : m.Allowed own fetched v.pager.remote.store := by
    cases m with
    | fetch p f write => exact fun hown => by rw [hsame p hown]; exact hm hown
    | prefetch p f => exact fun hown => by rw [hsame p hown]; exact hm hown
    | hit p write => exact hm
    | _ => trivial
  obtain ⟨hshares, hkeep⟩ := h₃.move h₁ h₂ hm' hs
  refine ⟨h₁.move hs, ?_, hshares, fun p hown => (hkeep p hown).trans (hsame p hown)⟩
  obtain ⟨-, rfl⟩ := hs
  rw [show ((m.apply v).pager.ctx.sockFd = _) from (Move.sizes _ _ m).2.2.1]
  exact h₂

/-- An eviction sends at most one PUT: that of an owned page, with its content. -/
theorem evicted_remote {s s' : Pager} (hrep : RepInv ∅ s.ctx) (hfd : 0 ≤ s.ctx.sockFd)
    (h : Shares own mem fetched s.ctx s.remote.store) {qs : List Nat} {q f : Nat}
    (hrun : Moves ⟨∅, s⟩ (qs.map .sweep ++ [.evict q f]) ⟨{f}, s'⟩) :
    s'.remote = s.remote ∨ own q ∧ s'.remote = (s.remote.dsmRpcPut q (mem q) .ok).2 := by
  obtain ⟨w, hsweeps, hevict⟩ := hrun.split
  have hsweep : ∀ m ∈ qs.map Move.sweep, ∃ q, m = .sweep q := by
    intro m hm
    obtain ⟨q, -, rfl⟩ := List.mem_map.mp hm
    exact ⟨q, rfl⟩
  have hremote : w.pager.remote = s.remote := by
    refine hsweeps.invariant_of_labels (fun v => v.pager.remote = s.remote)
      (fun m => ∃ q, m = .sweep q) ?_ hsweep rfl
    rintro v _ _ ⟨q, rfl⟩ hv ⟨-, rfl⟩
    exact hv
  have hshares := (h.moves hsweeps hrep hfd fun m hm => by
    obtain ⟨q, rfl⟩ := hsweep m hm
    trivial).1
  have hrep' := hrep.moves hsweeps
  obtain - | ⟨⟨hen, hw⟩, hnil⟩ := hevict
  cases hnil
  have hs' : s'.remote = (Move.evict q f).onRemote w.pager.ctx w.pager.remote :=
    congrArg (fun v : Work => v.pager.remote) hw
  rw [hs', hremote]
  by_cases hwb : w.pager.ctx.NeedsWriteback q
  · obtain ⟨hown, hmem⟩ := (hshares.evict_store hrep' hen.2.1 w.pager.remote rfl).1 hwb
    exact .inr ⟨hown, by simp only [Move.onRemote, if_pos hwb, hmem]⟩
  · exact .inl (by simp only [Move.onRemote, if_neg hwb])

/-- The caller changes an owned page that it was handed for writing. -/
theorem callerChange (hrep : RepInv held ctx) (h : Shares own mem fetched ctx store) {p f : Nat}
    (hm : ctx.Maps p f) (write : Int32) (change : Page → Page)
    (hdirty : write ≠ 0 → own p ∧ (ctx.pageTable p).dirty ≠ 0) :
    Shares own (if write = 0 then mem else Function.update mem p (change (mem p))) fetched
      (Paging.callerChange ctx f write change) store := by
  unfold Paging.callerChange
  split
  · exact h
  · next hw =>
    obtain ⟨hown, hdirty⟩ := hdirty hw
    -- Page `p` is cached and dirty, so only its frame has to hold the new content.
    have hother : ∀ q g, ctx.Maps q g → q ≠ p → g ≠ f := by
      rintro q g hqg hq rfl
      exact hq (hrep.maps_inj hqg hm)
    refine ⟨h.remote, ?_, ?_, ?_, ?_⟩
    · intro q g hqg hq'
      by_cases hq : q = p
      · subst hq
        have hg : g = f := hqg.frame_unique hm
        rw [hg, Function.update_self]
        show Function.update _ f _ f = _
        rw [Function.update_self, h.cached q f hm hown]
      · rw [Function.update_of_ne hq]
        show Function.update _ f _ g = _
        rw [Function.update_of_ne (hother q g hqg hq)]
        exact h.cached q g hqg hq'
    · intro q g hqg hq' hd
      have hq : q ≠ p := by
        rintro rfl
        exact hdirty hd
      rw [Function.update_of_ne hq]
      exact h.clean q g hqg hq' hd
    · intro q hq' hv hq''
      have hq : q ≠ p := by
        rintro rfl
        exact absurd hv hm.not_absent
      rw [Function.update_of_ne hq]
      exact h.absent q hq' hv hq''
    · intro q g hqg hq'
      have hq : q ≠ p := by
        rintro rfl
        exact hq' hown
      have hg : (ctx.setMemory f (change (ctx.localMemory f))).localMemory g = ctx.localMemory g :=
        Function.update_of_ne (hother q g hqg hq) _ _
      rw [hg]
      exact h.foreign q g hqg hq'

end Shares

end Dsm.Paging
