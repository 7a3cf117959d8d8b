import Dsm.Paging.WriteFlag

/-!
# The clock and a stretch of accesses

A stretch of calls goes to a set `seen` of pages. The argument here follows a page that was fetched in
the stretch. Its bit is set, and the hand of `evict_page` has to come by twice before it can go. On the
first way round the hand clears the bits of all stale pages, those nobody asked for in the stretch, and
on the second it gives them up one after the other; so when it stands on the page again, all other
frames have pages of the stretch. Then there is one page too many: as long as the stretch has at most
`num_pages` pages, what was fetched in it stays (`Phase.accessed`).

Prefetching does not spoil this, because it takes free frames only and leaves the bits of its pages
clear. All RPCs succeed here.
-/

namespace Dsm.Paging

open DsmContext Dsm.Lib

variable {ctx ctx' : DsmContext} {held : Finset Nat} {seen seen' : Finset Nat} {got : List Nat}
  {p f x : Nat}

/-! ## The way of the hand -/

/-- How many frames the hand passes before it stands on frame `f`. -/
def DsmContext.ahead (ctx : DsmContext) (f : Nat) : Nat :=
  if ctx.clockHand ≤ f then f - ctx.clockHand else f + ctx.numPages - ctx.clockHand

theorem RepInv.ahead_lt (h : RepInv held ctx) (hf : f < ctx.numPages) :
    ctx.ahead f < ctx.numPages := by
  have := h.hand_lt
  unfold ahead
  split <;> omega

theorem RepInv.hand_advance (h : RepInv held ctx) : ctx.advanceHand.clockHand =
    if ctx.clockHand + 1 = ctx.numPages then 0 else ctx.clockHand + 1 := by
  have hlt := h.hand_lt
  have hnp := h.numPages_lt
  show u32 (ctx.clockHand + 1) % ctx.numPages = _
  rw [u32_of_lt (by omega)]
  split
  · next hend => rw [hend, Nat.mod_self]
  · exact Nat.mod_eq_of_lt (by omega)

/-- The frame the hand has passed is the last it comes to. -/
theorem RepInv.ahead_advance_hand (h : RepInv held ctx) :
    ctx.advanceHand.ahead ctx.clockHand + 1 = ctx.numPages := by
  have hlt := h.hand_lt
  have hnp : ctx.advanceHand.numPages = ctx.numPages := rfl
  unfold ahead
  rw [h.hand_advance, hnp]
  split <;> split <;> omega

theorem RepInv.ahead_advance (h : RepInv held ctx) (hf : f < ctx.numPages)
    (hne : f ≠ ctx.clockHand) : ctx.advanceHand.ahead f + 1 = ctx.ahead f := by
  have hlt := h.hand_lt
  have hnp : ctx.advanceHand.numPages = ctx.numPages := rfl
  unfold ahead
  rw [h.hand_advance, hnp]
  split <;> split <;> split <;> omega

theorem ahead_hand (ctx : DsmContext) : ctx.ahead ctx.clockHand = 0 := by
  simp [ahead]

theorem RepInv.eq_hand (h : RepInv held ctx) (hf : ctx.ahead f = 0) : f = ctx.clockHand := by
  have hlt := h.hand_lt
  unfold ahead at hf
  split at hf <;> omega

/-! ## Pages of the stretch

`seen` are the pages that were asked for in the stretch. -/

/-- A cached page that nobody has asked for. -/
def DsmContext.Stale (ctx : DsmContext) (seen : Finset Nat) (q g : Nat) : Prop :=
  q ∉ seen ∧ ctx.Maps q g

/-- The hand has not come by since the page was fetched. What it has passed meanwhile are stale pages
with their bits cleared. -/
structure Waiting (seen : Finset Nat) (ctx : DsmContext) (p f : Nat) : Prop where
  maps : ctx.Maps p f
  bit : (ctx.pageTable p).referenceBit = true
  stale : ∀ q g, ctx.Stale seen q g → (ctx.pageTable q).referenceBit = true →
    ctx.ahead g ≤ ctx.ahead f

/-- The hand has come by once: no stale page has its bit set, and all of them come first. -/
structure Overtaken (seen : Finset Nat) (ctx : DsmContext) (p f : Nat) : Prop where
  maps : ctx.Maps p f
  stale : ∀ q g, ctx.Stale seen q g →
    (ctx.pageTable q).referenceBit = false ∧ ctx.ahead g < ctx.ahead f

theorem ahead_congr (hhand : ctx'.clockHand = ctx.clockHand) (hnp : ctx'.numPages = ctx.numPages)
    (g : Nat) : ctx'.ahead g = ctx.ahead g := by
  unfold ahead
  rw [hhand, hnp]

theorem Move.maps_of_ne (ctx : DsmContext) (store : Nat → Page) {m : Move} {q : Nat}
    (h : m.page? ≠ some q) (g : Nat) : (m.onContext ctx store).Maps q g ↔ ctx.Maps q g := by
  unfold Maps
  rw [Move.pageTable_of_ne ctx store h, (Move.sizes ctx store m).2.1]

/-- The hand stays where it is, and no stale page gets its bit set. -/
theorem Waiting.keep (h : Waiting seen ctx p f) (hhand : ctx'.clockHand = ctx.clockHand)
    (hnp : ctx'.numPages = ctx.numPages) (hmaps : ctx'.Maps p f)
    (hbit : (ctx'.pageTable p).referenceBit = true)
    (hstale : ∀ q g, ctx'.Stale seen' q g → (ctx'.pageTable q).referenceBit = true →
      ctx.Stale seen q g ∧ (ctx.pageTable q).referenceBit = true) : Waiting seen' ctx' p f := by
  refine ⟨hmaps, hbit, fun q g hq hqbit => ?_⟩
  obtain ⟨hq', hqbit'⟩ := hstale q g hq hqbit
  rw [ahead_congr hhand hnp, ahead_congr hhand hnp]
  exact h.stale q g hq' hqbit'

/-- The hand stays where it is, and no page becomes stale. -/
theorem Overtaken.keep (h : Overtaken seen ctx p f) (hhand : ctx'.clockHand = ctx.clockHand)
    (hnp : ctx'.numPages = ctx.numPages) (hmaps : ctx'.Maps p f)
    (hstale : ∀ q g, ctx'.Stale seen' q g → ctx.Stale seen q g ∧
      (ctx'.pageTable q).referenceBit = (ctx.pageTable q).referenceBit) : Overtaken seen' ctx' p f := by
  refine ⟨hmaps, fun q g hq => ?_⟩
  obtain ⟨hq', hbit⟩ := hstale q g hq
  rw [ahead_congr hhand hnp, ahead_congr hhand hnp, hbit]
  exact h.stale q g hq'

/-- While frames are free the hand stays at frame `0` and the frames are used in their order. -/
structure Filling (seen : Finset Nat) (got : List Nat) (held : Finset Nat) (ctx : DsmContext) :
    Prop where
  rep : RepInv held ctx
  hand : ctx.clockHand = 0
  free : ∃ m, ctx.freeList = List.range' m (ctx.numPages - m)
  asked : ∀ p ∈ got, p ∈ seen
  got : ∀ p ∈ got, ∃ f, Waiting seen ctx p f

/-- No frame is free. -/
structure Full (seen : Finset Nat) (got : List Nat) (held : Finset Nat) (ctx : DsmContext) :
    Prop where
  rep : RepInv held ctx
  free : ctx.freeList = []
  asked : ∀ p ∈ got, p ∈ seen
  got : ∀ p ∈ got, ∃ f, Waiting seen ctx p f ∨ Overtaken seen ctx p f

theorem Filling.full (h : Filling seen got held ctx) (hfree : ctx.freeList = []) :
    Full seen got held ctx := by
  refine ⟨h.rep, hfree, h.asked, fun p hp => ?_⟩
  obtain ⟨f, hf⟩ := h.got p hp
  exact ⟨f, .inl hf⟩

/-- Once more pages are asked for, fewer are stale. -/
theorem Stale.mono (hsub : seen ⊆ seen') {q g : Nat} (h : ctx.Stale seen' q g) : ctx.Stale seen q g :=
  ⟨fun hq => h.1 (hsub hq), h.2⟩

theorem Filling.ask (h : Filling seen got held ctx) (hsub : seen ⊆ seen') :
    Filling seen' got held ctx := by
  refine ⟨h.rep, h.hand, h.free, fun p hp => hsub (h.asked p hp), fun p hp => ?_⟩
  obtain ⟨f, hf⟩ := h.got p hp
  exact ⟨f, hf.keep rfl rfl hf.maps hf.bit fun q g hq hbit => ⟨Stale.mono hsub hq, hbit⟩⟩

theorem Full.ask (h : Full seen got held ctx) (hsub : seen ⊆ seen') : Full seen' got held ctx := by
  refine ⟨h.rep, h.free, fun p hp => hsub (h.asked p hp), fun p hp => ?_⟩
  obtain ⟨f, hf | hf⟩ := h.got p hp
  · exact ⟨f, .inl (hf.keep rfl rfl hf.maps hf.bit fun q g hq hbit => ⟨Stale.mono hsub hq, hbit⟩)⟩
  · exact ⟨f, .inr (hf.keep rfl rfl hf.maps fun q g hq => ⟨Stale.mono hsub hq, rfl⟩)⟩

/-! ## Moves while frames are free -/

section Filling

variable {w w' : Work} {m : Move}

/-- The moves of a prefetch that succeeds, and the last one of an access. -/
def Move.Brings : Move → Prop
  | .take _ => True
  | .batch _ ok => ok = true
  | .prefetch _ _ => True
  | .remember _ => True
  | _ => False

/-- A stale page whose bit is set after such a move was one before. -/
theorem Move.Brings.stale (hm : m.Brings) (ctx : DsmContext) (store : Nat → Page) {q g : Nat}
    (h : (m.onContext ctx store).Stale seen q g)
    (hbit : ((m.onContext ctx store).pageTable q).referenceBit = true) :
    ctx.Stale seen q g ∧ (ctx.pageTable q).referenceBit = true := by
  cases m with
  | prefetch p f =>
      by_cases hq : q = p
      · subst hq
        simp [Move.onContext, mapPage, setFrame, setEntry] at hbit
      · have hne : (Move.prefetch p f).page? ≠ some q := fun heq => hq (Option.some.inj heq).symm
        rw [Move.pageTable_of_ne ctx store hne] at hbit
        exact ⟨⟨h.1, (Move.maps_of_ne ctx store hne g).mp h.2⟩, hbit⟩
  | take | batch | remember => exact ⟨h, hbit⟩
  | _ => exact hm.elim

theorem Filling.move (h : Filling seen got w.held w.pager.ctx) (hm : m.Brings)
    (hs : MoveStep w m w') : Filling seen got w'.held w'.pager.ctx := by
  have hrep := h.rep.move hs
  obtain ⟨hen, rfl⟩ := hs
  have hgot : ∀ p ∈ got, ∃ f,
      Waiting seen (m.onContext w.pager.ctx w.pager.remote.store) p f := by
    intro p hp
    obtain ⟨f, hf⟩ := h.got p hp
    have hne : m.page? ≠ some p := by
      intro heq
      cases m with
      | prefetch q g =>
          obtain rfl := Option.some.inj heq
          exact hf.maps.not_absent hen.2.2.1
      | take | batch | remember => cases heq
      | _ => exact hm
    refine ⟨f, hf.keep ?_ (Move.sizes _ _ m).1 ((Move.maps_of_ne _ _ hne f).mpr hf.maps)
      ((Move.pageTable_of_ne _ _ hne).symm ▸ hf.bit) fun q g hq hbit => hm.stale _ _ hq hbit⟩
    cases m with
    | take | batch | prefetch | remember => rfl
    | _ => exact hm.elim
  obtain ⟨m', hfree⟩ := h.free
  cases m with
  | take f =>
      refine ⟨hrep, h.hand, ⟨m' + 1, ?_⟩, h.asked, hgot⟩
      show w.pager.ctx.freeList.tail = List.range' (m' + 1) (w.pager.ctx.numPages - (m' + 1))
      rw [hfree, List.tail_range', Nat.sub_sub]
  | batch | prefetch | remember => exact ⟨hrep, h.hand, ⟨m', hfree⟩, h.asked, hgot⟩
  | _ => exact hm.elim

theorem Filling.moves {ms : List Move} (h : Filling seen got w.held w.pager.ctx)
    (hrun : Moves w ms w') (hms : ∀ m ∈ ms, m.Brings) : Filling seen got w'.held w'.pager.ctx :=
  hrun.invariant_of_labels (fun w => Filling seen got w.held w.pager.ctx) Move.Brings
    (fun _ _ _ hm hw hs => hw.move hm hs) hms h

end Filling

/-! ## The page that is asked for -/

section Asked

variable {w w' : Work} {write : Int32}

/-- A hit or the fetch of a page that was asked for leaves the stale pages alone. -/
theorem stale_of_asked {m : Move} (hm : m.page? = some x) (hx : x ∈ seen) (ctx : DsmContext)
    (store : Nat → Page) {q g : Nat} (h : (m.onContext ctx store).Stale seen q g) :
    ctx.Stale seen q g ∧ ((m.onContext ctx store).pageTable q).referenceBit =
      (ctx.pageTable q).referenceBit := by
  have hne : m.page? ≠ some q := by
    rw [hm]
    exact fun heq => h.1 (Option.some.inj heq ▸ hx)
  exact ⟨⟨h.1, (Move.maps_of_ne ctx store hne g).mp h.2⟩, by rw [Move.pageTable_of_ne ctx store hne]⟩

/-- The pages fetched before, if such a move keeps them. -/
theorem Waiting.asked {m : Move} (h : Waiting seen ctx p f) (hm : m.page? = some x) (hx : x ∈ seen)
    (store : Nat → Page) (hhand : (m.onContext ctx store).clockHand = ctx.clockHand)
    (hmaps : (m.onContext ctx store).Maps p f)
    (hbit : ((m.onContext ctx store).pageTable p).referenceBit = true) :
    Waiting seen (m.onContext ctx store) p f := by
  refine h.keep hhand (Move.sizes ctx store m).1 hmaps hbit fun q g hq hqbit => ?_
  obtain ⟨hstale, heq⟩ := stale_of_asked hm hx ctx store hq
  exact ⟨hstale, heq ▸ hqbit⟩

theorem Overtaken.asked {m : Move} (h : Overtaken seen ctx p f) (hm : m.page? = some x)
    (hx : x ∈ seen) (store : Nat → Page)
    (hhand : (m.onContext ctx store).clockHand = ctx.clockHand)
    (hmaps : (m.onContext ctx store).Maps p f) : Overtaken seen (m.onContext ctx store) p f :=
  h.keep hhand (Move.sizes ctx store m).1 hmaps fun _ _ hq => stale_of_asked hm hx ctx store hq

/-- After a hit the page has its bit set and is where it was. -/
theorem hit_keeps (q : Nat) (write : Int32) (h : ctx.Maps p f) (store : Nat → Page) :
    ((Move.hit q write).onContext ctx store).Maps p f ∧
      ((ctx.pageTable p).referenceBit = true →
        (((Move.hit q write).onContext ctx store).pageTable p).referenceBit = true) := by
  by_cases hq : p = q
  · subst hq
    simp [Move.onContext, accessHit, setEntry, Maps, h.1, h.2.1, h.2.2]
  · have hne : (Move.hit q write).page? ≠ some p := fun heq => hq (Option.some.inj heq).symm
    exact ⟨(Move.maps_of_ne ctx store hne f).mpr h,
      fun hbit => (Move.pageTable_of_ne ctx store hne).symm ▸ hbit⟩

theorem Filling.hit (h : Filling seen got w.held w.pager.ctx) (hx : x ∈ seen)
    (hs : MoveStep w (.hit x write) w') : Filling seen got w'.held w'.pager.ctx := by
  have hrep := h.rep.move hs
  obtain ⟨-, rfl⟩ := hs
  refine ⟨hrep, h.hand, h.free, h.asked, fun p hp => ?_⟩
  obtain ⟨f, hf⟩ := h.got p hp
  obtain ⟨hmaps, hbit⟩ := hit_keeps x write hf.maps w.pager.remote.store
  exact ⟨f, hf.asked rfl hx _ rfl hmaps (hbit hf.bit)⟩

theorem Full.hit (h : Full seen got w.held w.pager.ctx) (hx : x ∈ seen)
    (hs : MoveStep w (.hit x write) w') : Full seen got w'.held w'.pager.ctx := by
  have hrep := h.rep.move hs
  obtain ⟨-, rfl⟩ := hs
  refine ⟨hrep, h.free, h.asked, fun p hp => ?_⟩
  obtain ⟨f, hf | hf⟩ := h.got p hp
  · obtain ⟨hmaps, hbit⟩ := hit_keeps x write hf.maps w.pager.remote.store
    exact ⟨f, .inl (hf.asked rfl hx _ rfl hmaps (hbit hf.bit))⟩
  · obtain ⟨hmaps, -⟩ := hit_keeps x write hf.maps w.pager.remote.store
    exact ⟨f, .inr (hf.asked rfl hx _ rfl hmaps)⟩

/-- A fetch moves no other page. -/
theorem fetch_keeps (hx : (ctx.pageTable x).valid = false) (g : Nat) (write : Int32)
    (h : ctx.Maps p f) (store : Nat → Page) :
    ((Move.fetch x g write).onContext ctx store).Maps p f ∧
      ((Move.fetch x g write).onContext ctx store).pageTable p = ctx.pageTable p := by
  have hne : (Move.fetch x g write).page? ≠ some p := by
    intro heq
    obtain rfl := Option.some.inj heq
    exact h.not_absent hx
  exact ⟨(Move.maps_of_ne ctx store hne f).mpr h, Move.pageTable_of_ne ctx store hne⟩

/-- The page that was fetched: the hand comes to its frame after all stale pages. -/
theorem Waiting.fetched {g : Nat} (hp : x < ctx.numVirtualPages) (hx : x ∈ seen)
    (store : Nat → Page)
    (hlast : ∀ q h, ctx.Stale seen q h → ctx.ahead h ≤ ctx.ahead g) :
    Waiting seen ((Move.fetch x g write).onContext ctx store) x g := by
  refine ⟨?_, ?_, fun q h hq _ => ?_⟩
  · refine ⟨hp, ?_, ?_⟩ <;> simp [Move.onContext, mapPage, setFrame, setEntry]
  · simp [Move.onContext, mapPage, setFrame, setEntry]
  · exact hlast q h (stale_of_asked (m := .fetch x g write) rfl hx ctx store hq).1

theorem Filling.fetch {g : Nat} (h : Filling seen got w.held w.pager.ctx) (hx : x ∈ seen)
    (hlast : ∀ q h, w.pager.ctx.Stale seen q h → w.pager.ctx.ahead h ≤ w.pager.ctx.ahead g)
    (hs : MoveStep w (.fetch x g write) w') :
    Filling seen (x :: got) w'.held w'.pager.ctx := by
  have hrep := h.rep.move hs
  obtain ⟨hen, rfl⟩ := hs
  refine ⟨hrep, h.hand, h.free, List.forall_mem_cons.mpr ⟨hx, h.asked⟩, fun p hp => ?_⟩
  rcases List.mem_cons.mp hp with rfl | hp
  · exact ⟨g, .fetched hen.2.2.1 hx _ hlast⟩
  · obtain ⟨f, hf⟩ := h.got p hp
    obtain ⟨hmaps, hentry⟩ := fetch_keeps hen.2.2.2 g write hf.maps
      w.pager.remote.store
    exact ⟨f, hf.asked rfl hx _ rfl hmaps (hentry ▸ hf.bit)⟩

theorem Full.fetch {g : Nat} (h : Full seen got w.held w.pager.ctx) (hx : x ∈ seen)
    (hlast : ∀ q h, w.pager.ctx.Stale seen q h → w.pager.ctx.ahead h ≤ w.pager.ctx.ahead g)
    (hs : MoveStep w (.fetch x g write) w') : Full seen (x :: got) w'.held w'.pager.ctx := by
  have hrep := h.rep.move hs
  obtain ⟨hen, rfl⟩ := hs
  refine ⟨hrep, h.free, List.forall_mem_cons.mpr ⟨hx, h.asked⟩, fun p hp => ?_⟩
  rcases List.mem_cons.mp hp with rfl | hp
  · exact ⟨g, .inl (.fetched hen.2.2.1 hx _ hlast)⟩
  · obtain ⟨f, hf | hf⟩ := h.got p hp
    · obtain ⟨hmaps, hentry⟩ := fetch_keeps hen.2.2.2 g write hf.maps
        w.pager.remote.store
      exact ⟨f, .inl (hf.asked rfl hx _ rfl hmaps (hentry ▸ hf.bit))⟩
    · obtain ⟨hmaps, -⟩ := fetch_keeps hen.2.2.2 g write hf.maps
        w.pager.remote.store
      exact ⟨f, .inr (hf.asked rfl hx _ rfl hmaps)⟩

end Asked

/-! ## The hand moves -/

section Hand

variable {w w' : Work} {q : Nat}

/-- The hand moves on from page `q`, and nothing happens to the other pages. -/
structure Passes (q : Nat) (ctx ctx' : DsmContext) : Prop where
  here : ctx.Maps q ctx.clockHand
  hand : ctx'.clockHand = ctx.advanceHand.clockHand
  frames : ctx'.numPages = ctx.numPages
  pages : ctx'.numVirtualPages = ctx.numVirtualPages
  others : ∀ r, r ≠ q → ctx'.pageTable r = ctx.pageTable r

theorem Passes.ahead (h : Passes q ctx ctx') (g : Nat) : ctx'.ahead g = ctx.advanceHand.ahead g :=
  ahead_congr h.hand h.frames g

theorem Passes.maps (h : Passes q ctx ctx') {r g : Nat} (hr : r ≠ q) :
    ctx'.Maps r g ↔ ctx.Maps r g := by
  unfold Maps
  rw [h.others r hr, h.pages]

/-- All other pages come one frame closer. -/
theorem Passes.closer (h : Passes q ctx ctx') (hrep : RepInv held ctx) {r g : Nat}
    (hmaps : ctx.Maps r g) (hr : r ≠ q) : ctx'.ahead g + 1 = ctx.ahead g := by
  rw [h.ahead]
  refine hrep.ahead_advance ((hrep.maps_iff r g).mp hmaps).1 ?_
  rintro rfl
  exact hr (hrep.maps_inj hmaps h.here)

theorem Passes.last (h : Passes q ctx ctx') (hrep : RepInv held ctx) :
    ctx'.ahead ctx.clockHand + 1 = ctx.numPages := by
  rw [h.ahead]
  exact hrep.ahead_advance_hand

theorem Waiting.passed (h : Waiting seen ctx p f) (hpass : Passes q ctx ctx')
    (hrep : RepInv held ctx) (hpq : p ≠ q)
    (hq : ∀ g, ctx'.Stale seen q g → (ctx'.pageTable q).referenceBit = false) :
    Waiting seen ctx' p f := by
  refine ⟨(hpass.maps hpq).mpr h.maps, hpass.others p hpq ▸ h.bit, fun r g hr hbit => ?_⟩
  have hrq : r ≠ q := by
    rintro rfl
    rw [hq g hr] at hbit
    cases hbit
  have hr' := (hpass.maps hrq).mp hr.2
  rw [hpass.others r hrq] at hbit
  have hle := h.stale r g ⟨hr.1, hr'⟩ hbit
  have hp := hpass.closer hrep h.maps hpq
  have hg := hpass.closer hrep hr' hrq
  omega

theorem Overtaken.passed (h : Overtaken seen ctx p f) (hpass : Passes q ctx ctx')
    (hrep : RepInv held ctx) (hpq : p ≠ q) (hq : ∀ g, ¬ ctx'.Stale seen q g) :
    Overtaken seen ctx' p f := by
  refine ⟨(hpass.maps hpq).mpr h.maps, fun r g hr => ?_⟩
  have hrq : r ≠ q := by
    rintro rfl
    exact hq g hr
  have hr' := (hpass.maps hrq).mp hr.2
  obtain ⟨hbit, hlt⟩ := h.stale r g ⟨hr.1, hr'⟩
  have hp := hpass.closer hrep h.maps hpq
  have hg := hpass.closer hrep hr' hrq
  exact ⟨(congrArg _ (hpass.others r hrq)).trans hbit, by omega⟩

/-- The hand was on the page itself. Stale pages with their bits set would have come before it. -/
theorem Overtaken.of_passed (h : Waiting seen ctx p f ∨ Overtaken seen ctx p f)
    (hpass : Passes p ctx ctx') (hrep : RepInv held ctx) (hseen : p ∈ seen) (hmaps : ctx'.Maps p f) :
    Overtaken seen ctx' p f := by
  have hf : f = ctx.clockHand := (h.elim Waiting.maps Overtaken.maps).frame_unique hpass.here
  subst hf
  refine ⟨hmaps, fun r g hr => ?_⟩
  have hrp : r ≠ p := by
    rintro rfl
    exact hr.1 hseen
  have hr' : ctx.Stale seen r g := ⟨hr.1, (hpass.maps hrp).mp hr.2⟩
  have hbit : (ctx.pageTable r).referenceBit = false := by
    rcases h with h | h
    · by_contra hset
      have hle := h.stale r g hr' (Bool.eq_true_of_not_eq_false hset)
      rw [ahead_hand, Nat.le_zero] at hle
      exact hrp (hrep.maps_inj (hrep.eq_hand hle ▸ hr'.2) hpass.here)
    · exact (h.stale r g hr').1
  have hg := hpass.closer hrep hr'.2 hrp
  have hlast := hpass.last hrep
  have hlt := hrep.ahead_lt ((hrep.maps_iff r g).mp hr'.2).1
  exact ⟨(congrArg _ (hpass.others r hrp)).trans hbit, by omega⟩

/-- **The hand passes a page whose bit is set** and clears it. A page of the stretch that was waiting
there is overtaken. -/
theorem Full.sweep (h : Full seen got w.held w.pager.ctx) (hs : MoveStep w (.sweep q) w') :
    Full seen got w'.held w'.pager.ctx := by
  have hrep := h.rep.move hs
  obtain ⟨⟨hholds, hqbit⟩, rfl⟩ := hs
  have hqmaps := (h.rep.maps_iff q _).mpr hholds
  have hpass : Passes q w.pager.ctx ((Move.sweep q).apply w).pager.ctx :=
    ⟨hqmaps, rfl, rfl, rfl, fun r hr => Function.update_of_ne hr _ _⟩
  have hkeeps : ∀ g, ((Move.sweep q).apply w).pager.ctx.Maps q g ↔ w.pager.ctx.Maps q g := fun g => by
    simp [Move.apply, Move.onContext, advanceHand, setEntry, Maps]
  refine ⟨hrep, h.free, h.asked, fun p hp => ?_⟩
  obtain ⟨f, hf⟩ := h.got p hp
  refine ⟨f, ?_⟩
  by_cases hpq : p = q
  · subst hpq
    exact .inr (.of_passed hf hpass h.rep (h.asked p hp)
      ((hkeeps f).mpr (hf.elim Waiting.maps Overtaken.maps)))
  · refine hf.imp (fun hf => hf.passed hpass h.rep hpq fun g _ => ?_)
      fun hf => hf.passed hpass h.rep hpq fun g hq => ?_
    · simp [Move.apply, Move.onContext, advanceHand, setEntry]
    · have hclear := (hf.stale q g ⟨hq.1, (hkeeps g).mp hq.2⟩).1
      rw [hqbit] at hclear
      cases hclear

/-- With all frames in use and no stale page, there are more pages in the stretch than frames. -/
theorem RepInv.seen_of_no_stale (h : RepInv ∅ ctx) (hfree : ctx.freeList = [])
    (hnone : ∀ q g, ¬ ctx.Stale seen q g) (hx : x ∈ seen)
    (habsent : (ctx.pageTable x).valid = false) : ctx.numPages < seen.card := by
  have hmaps : ∀ g < ctx.numPages, ctx.Maps (ctx.frameTable g).pageNumber g := fun g hg =>
    (h.maps_iff _ _).mpr (h.holds_of_full hfree hg)
  have hle : (Finset.range ctx.numPages).card ≤ (seen.erase x).card := by
    refine Finset.card_le_card_of_injOn (fun g => (ctx.frameTable g).pageNumber) ?_ ?_
    · intro g hg
      have hm := hmaps g (Finset.mem_range.mp hg)
      refine Finset.mem_erase.mpr ⟨?_, ?_⟩
      · rintro rfl
        exact hm.not_absent habsent
      · by_contra hq
        exact hnone _ g ⟨hq, hm⟩
    · intro g hg g' hg' heq
      have hm := hmaps g (Finset.mem_range.mp hg)
      have hm' := hmaps g' (Finset.mem_range.mp hg')
      rw [show (ctx.frameTable g).pageNumber = (ctx.frameTable g').pageNumber from heq] at hm
      exact hm.frame_unique hm'
  rw [Finset.card_range, Finset.card_erase_of_mem hx] at hle
  have hpos := Finset.card_pos.mpr ⟨x, hx⟩
  omega

/-- **No page of the stretch goes**, as long as the stretch has no more pages than there are frames. -/
theorem Full.evict (h : Full seen got ∅ w.pager.ctx) (hx : x ∈ seen)
    (habsent : (w.pager.ctx.pageTable x).valid = false)
    (hcard : seen.card ≤ w.pager.ctx.numPages) (hheld : w.held = ∅)
    (hs : MoveStep w (.evict q f) w') :
    Full seen got w'.held w'.pager.ctx ∧
      ∀ g < w'.pager.ctx.numPages, w'.pager.ctx.ahead g ≤ w'.pager.ctx.ahead f := by
  have hrep : RepInv w'.held w'.pager.ctx := (hheld.symm ▸ h.rep : RepInv w.held _).move hs
  obtain ⟨⟨rfl, hholds, hqbit⟩, rfl⟩ := hs
  have hqmaps := (h.rep.maps_iff q _).mpr hholds
  have hpass : Passes q w.pager.ctx ((Move.evict q w.pager.ctx.clockHand).apply w).pager.ctx :=
    ⟨hqmaps, rfl, rfl, rfl, fun r hr => Function.update_of_ne hr _ _⟩
  have hgone : ∀ g, ¬ ((Move.evict q w.pager.ctx.clockHand).apply w).pager.ctx.Stale seen q g := by
    rintro g ⟨-, -, hvalid, -⟩
    simp [Move.apply, Move.onContext, unmapPage, setFrame, setEntry, advanceHand] at hvalid
  refine ⟨⟨hrep, h.free, h.asked, fun p hp => ?_⟩, fun g hg => ?_⟩
  · obtain ⟨f, hf⟩ := h.got p hp
    have hpq : p ≠ q := by
      rintro rfl
      obtain rfl := (hf.elim Waiting.maps Overtaken.maps).frame_unique hqmaps
      rcases hf with hf | hf
      · rw [hf.bit] at hqbit
        cases hqbit
      · -- The second time round, and no stale page is left.
        refine absurd hcard (Nat.not_le_of_lt (h.rep.seen_of_no_stale h.free ?_ hx habsent))
        intro r g hr
        have hless := (hf.stale r g hr).2
        rw [ahead_hand] at hless
        exact Nat.not_lt_zero _ hless
    exact ⟨f, hf.imp (fun hf => hf.passed hpass h.rep hpq fun g hq => (hgone g hq).elim)
      fun hf => hf.passed hpass h.rep hpq hgone⟩
  · have hlt := hrep.ahead_lt hg
    have hlast := hpass.last h.rep
    rw [hpass.frames] at hlt
    omega

end Hand

/-! ## Accesses and prefetches -/

section Calls

variable {s s' : Pager} {batch : List (Nat × Nat)}

/-- Between two calls. -/
def Phase (seen : Finset Nat) (got : List Nat) (ctx : DsmContext) : Prop :=
  Filling seen got ∅ ctx ∨ Full seen got ∅ ctx

theorem Phase.rep (h : Phase seen got ctx) : RepInv ∅ ctx := h.elim Filling.rep Full.rep

theorem Phase.asked (h : Phase seen got ctx) : ∀ p ∈ got, p ∈ seen :=
  h.elim Filling.asked Full.asked

theorem Phase.cached (h : Phase seen got ctx) (hp : p ∈ got) : ∃ f, ctx.Maps p f := by
  rcases h with h | h
  · obtain ⟨f, hf⟩ := h.got p hp
    exact ⟨f, hf.maps⟩
  · obtain ⟨f, hf⟩ := h.got p hp
    exact ⟨f, hf.elim Waiting.maps Overtaken.maps⟩

theorem Phase.ask (h : Phase seen got ctx) (hsub : seen ⊆ seen') : Phase seen' got ctx :=
  h.imp (·.ask hsub) (·.ask hsub)

/-- What was fetched before may be forgotten. -/
theorem Phase.forget (h : Phase seen got ctx) : Phase ∅ [] ctx :=
  h.imp
    (fun h => ⟨h.rep, h.hand, h.free, fun _ hp => absurd hp List.not_mem_nil,
      fun _ hp => absurd hp List.not_mem_nil⟩)
    (fun h => ⟨h.rep, h.free, fun _ hp => absurd hp List.not_mem_nil,
      fun _ hp => absurd hp List.not_mem_nil⟩)

/-- Nothing but the memory, the counters and the last page may change. -/
theorem Phase.congr (h : Phase seen got ctx) (hrep : RepInv ∅ ctx')
    (htable : ctx'.pageTable = ctx.pageTable) (hnp : ctx'.numPages = ctx.numPages)
    (hnv : ctx'.numVirtualPages = ctx.numVirtualPages) (hhand : ctx'.clockHand = ctx.clockHand)
    (hfree : ctx'.freeList = ctx.freeList) : Phase seen got ctx' := by
  have hmaps : ∀ q g, ctx'.Maps q g ↔ ctx.Maps q g := fun q g => by
    unfold Maps
    rw [htable, hnv]
  have hwaiting : ∀ {p f}, Waiting seen ctx p f → Waiting seen ctx' p f := fun h =>
    h.keep hhand hnp ((hmaps _ _).mpr h.maps) (htable ▸ h.bit) fun q g hq hbit =>
      ⟨⟨hq.1, (hmaps q g).mp hq.2⟩, htable ▸ hbit⟩
  refine h.imp (fun h => ⟨hrep, hhand.trans h.hand, ?_, h.asked, fun p hp => ?_⟩)
    fun h => ⟨hrep, hfree.trans h.free, h.asked, fun p hp => ?_⟩
  · rw [hfree, hnp]
    exact h.free
  · obtain ⟨f, hf⟩ := h.got p hp
    exact ⟨f, hwaiting hf⟩
  · obtain ⟨f, hf | hf⟩ := h.got p hp
    · exact ⟨f, .inl (hwaiting hf)⟩
    · refine ⟨f, .inr (hf.keep hhand hnp ((hmaps _ _).mpr hf.maps) fun q g hq => ?_)⟩
      exact ⟨⟨hq.1, (hmaps q g).mp hq.2⟩, by rw [htable]⟩

theorem prefetchMoves_brings (batch : List (Nat × Nat)) :
    ∀ m ∈ prefetchMoves batch true, m.Brings := by
  intro m hm
  unfold prefetchMoves at hm
  rw [List.mem_append] at hm
  rcases hm with hm | hm
  · obtain ⟨x, -, rfl⟩ := List.mem_map.mp hm
    trivial
  · split at hm
    · exact absurd hm List.not_mem_nil
    · rcases List.mem_cons.mp hm with rfl | hm
      · rfl
      · obtain ⟨x, -, rfl⟩ := List.mem_map.mp hm
        trivial

/-- **A prefetch spoils nothing**: it brings its pages in with their bits clear and, once no frame is
free, does nothing at all. -/
theorem Phase.prefetch (h : Phase seen got s.ctx)
    (hrun : Moves ⟨∅, s⟩ (prefetchMoves batch true) ⟨∅, s'⟩) : Phase seen got s'.ctx := by
  rcases h with h | h
  · exact .inl (h.moves (w := ⟨∅, s⟩) hrun (prefetchMoves_brings batch))
  · cases batch with
    | nil =>
        cases hrun
        exact .inr h
    | cons x batch =>
        obtain - | ⟨⟨hen, -⟩, -⟩ := hrun
        have hhead : s.ctx.freeList.head? = some x.2 := hen
        rw [h.free] at hhead
        cases hhead

/-- The end of a served miss. -/
theorem Phase.trailing {last : Nat} {trail : List Move} (h : Phase seen got s.ctx)
    (htrail : Trailing last x true trail)
    (hrun : Moves ⟨∅, s⟩ (trail ++ [.remember x]) ⟨∅, s'⟩) : Phase seen got s'.ctx := by
  have hrep := h.rep.moves hrun
  obtain ⟨⟨held, s₁⟩, htrail', hlast⟩ := hrun.split
  obtain - | ⟨⟨-, heq⟩, hnil⟩ := hlast
  cases hnil
  obtain ⟨rfl, rfl⟩ := Work.mk.inj heq
  have h₁ : Phase seen got s₁.ctx := by
    unfold Trailing at htrail
    split at htrail
    · obtain ⟨batch, rfl⟩ := htrail
      exact h.prefetch htrail'
    · subst htrail
      cases htrail'
      exact h
  exact h₁.congr hrep rfl rfl rfl rfl rfl

/-- The clock turns until it gives up a page. -/
theorem Full.acquire (qs : List Nat) {q f : Nat} {w w' : Work} (h : Full seen got ∅ w.pager.ctx)
    (hx : x ∈ seen) (habsent : (w.pager.ctx.pageTable x).valid = false)
    (hcard : seen.card ≤ w.pager.ctx.numPages) (hheld : w.held = ∅)
    (hrun : Moves w (qs.map .sweep ++ [.evict q f]) w') :
    Full seen got w'.held w'.pager.ctx ∧
      ∀ g < w'.pager.ctx.numPages, w'.pager.ctx.ahead g ≤ w'.pager.ctx.ahead f := by
  induction qs generalizing w with
  | nil =>
      obtain - | ⟨hs, hrest⟩ := hrun
      cases hrest
      exact h.evict hx habsent hcard hheld hs
  | cons r qs ih =>
      obtain - | ⟨hs, hrest⟩ := hrun
      have hsweep := Full.sweep (w := w) (hheld.symm ▸ h) hs
      obtain ⟨-, rfl⟩ := hs
      refine ih (w := (Move.sweep r).apply w) (hheld ▸ hsweep) ?_ hcard hheld hrest
      by_cases hr : x = r
      · subst hr
        simpa [Move.apply, Move.onContext, advanceHand, setEntry] using habsent
      · have hne : (Move.sweep r).page? ≠ some x := fun heq => hr (Option.some.inj heq).symm
        exact (congrArg PageTableEntry.valid (Move.pageTable_of_ne _ w.pager.remote.store
          hne)).trans habsent

/-- A frame is popped: it is the one after all those in use. -/
theorem Filling.popped {f : Nat} {rest : List Nat} (h : Filling seen got ∅ s.ctx)
    (hfl : s.ctx.freeList = f :: rest) :
    Filling seen got {f} { s.ctx with freeList := rest } ∧
      ∀ q g, DsmContext.Stale { s.ctx with freeList := rest } seen q g →
        DsmContext.ahead { s.ctx with freeList := rest } g ≤
          DsmContext.ahead { s.ctx with freeList := rest } f := by
  have hstep : MoveStep ⟨∅, s⟩ (.take f) ⟨{f}, { s.ctx with freeList := rest }, s.remote⟩ := by
    refine ⟨by simp [Move.Enabled, hfl], ?_⟩
    simp [Move.apply, Move.onContext, Move.onRemote, Move.onHeld, hfl]
  refine ⟨Filling.move (w := ⟨∅, s⟩) h (m := .take f) trivial hstep, fun q g hq => ?_⟩
  obtain ⟨m, hm⟩ := h.free
  have hmem : f ∈ s.ctx.freeList := hfl ▸ List.mem_cons_self
  obtain rfl : f = m := by
    rw [hm] at hfl
    cases hlen : s.ctx.numPages - m with
    | zero =>
        rw [hlen] at hfl
        cases hfl
    | succ k =>
        rw [hlen, List.range'_succ] at hfl
        exact (List.cons.inj hfl).1.symm
  have hholds := (h.rep.maps_iff q g).mp hq.2
  have hnot : g ∉ s.ctx.freeList := fun hg => by
    have hfree := ((h.rep.free_iff g).mp (.inr hg)).2
    rw [hholds.2.1] at hfree
    cases hfree
  rw [hm, List.mem_range'_1] at hnot
  have hlt := hholds.1
  have hhand := h.hand
  unfold ahead
  rw [show DsmContext.clockHand { s.ctx with freeList := rest } = 0 from hhand]
  simp only [Nat.zero_le, if_true]
  omega

/-- With a frame in hand: the page is fetched and everything else stays. -/
theorem Phase.framed {t : Pager} {f : Nat} {write : Int32} {rpc : RpcScript} {r : Option Nat}
    {ms : List Move} (h : Filling seen got {f} t.ctx ∨ Full seen got {f} t.ctx) (hx : x ∈ seen)
    (hlast : ∀ q g, t.ctx.Stale seen q g → t.ctx.ahead g ≤ t.ctx.ahead f)
    (hfd : 0 ≤ ctx.sockFd) (hrpc : rpc.Succeeds) (hms : FrameMoves ctx x f write rpc r ms)
    (hrun : Moves ⟨{f}, t⟩ ms ⟨∅, s'⟩) : Phase seen (x :: got) s'.ctx := by
  obtain ⟨-, hget, hbatch⟩ := hrpc
  cases hms with
  | fetchFailed left hfailed =>
      rw [hget] at hfailed
      cases hfailed
  | served trail hneg => omega
  | fetched trail _ _ htrail =>
      obtain - | ⟨hs, hrest⟩ := hrun
      have hfetched := h.imp (fun h => h.fetch (w := ⟨{f}, t⟩) hx hlast hs)
        fun h => h.fetch (w := ⟨{f}, t⟩) hx hlast hs
      obtain ⟨-, rfl⟩ := hs
      have hheld : (Move.fetch x f write).onHeld {f} = ∅ := Finset.erase_singleton f
      rw [Move.apply_eq hheld] at hfetched hrest
      rw [hbatch] at htrail
      exact Phase.trailing hfetched htrail hrest

/-- **An access.** A page that is not cached was not fetched in the stretch either. -/
theorem Phase.accessed {write : Int32} {rpc : RpcScript} {r : Option Nat} (h : Phase seen got s.ctx)
    (hx : x ∈ seen) (hcard : seen.card ≤ s.ctx.numPages) (hfd : 0 ≤ s.ctx.sockFd)
    (hrpc : rpc.Succeeds) (hacc : Accessed s x write rpc r s') :
    (s.ctx.pageTable x).valid = true ∧ Phase seen got s'.ctx ∨
      (s.ctx.pageTable x).valid = false ∧ x ∉ got ∧ Phase seen (x :: got) s'.ctx := by
  have hnew : (s.ctx.pageTable x).valid = false → x ∉ got := fun habsent hmem => by
    obtain ⟨f, hf⟩ := h.cached hmem
    exact hf.not_absent habsent
  cases hacc with
  | hit hmaps =>
      have hs : MoveStep ⟨∅, s⟩ (.hit x write) ⟨∅, _⟩ := ⟨⟨hmaps.1, hmaps.2.1⟩, rfl⟩
      exact .inl ⟨hmaps.2.1, h.imp (fun h => h.hit (w := ⟨∅, s⟩) hx hs)
        fun h => h.hit (w := ⟨∅, s⟩) hx hs⟩
  | @popped g rest _ _ _ habsent hfl hrun hms =>
      refine .inr ⟨habsent, hnew habsent, ?_⟩
      rcases h with h | h
      · obtain ⟨hheld, hlast⟩ := h.popped hfl
        exact .framed (t := ⟨{ s.ctx with freeList := rest }, s.remote⟩) (.inl hheld) hx hlast hfd hrpc
          hms hrun
      · rw [h.free] at hfl
        cases hfl
  | stuck _ _ _ _ hfailed =>
      rw [hrpc.1] at hfailed
      cases hfailed
  | evicted habsent hfl hk _ hrun hms =>
      refine .inr ⟨habsent, hnew habsent, ?_⟩
      have hfull : Full seen got ∅ s.ctx := h.elim (·.full hfl) id
      obtain ⟨hheld, hfar⟩ := hfull.acquire (w := ⟨∅, s⟩) _ hx habsent hcard rfl
        (evict_run hfull.rep hfl hk)
      refine .framed (.inr hheld) hx (fun q g hq => hfar g ?_) hfd hrpc hms hrun
      exact ((hheld.rep.maps_iff q g).mp hq.2).1

end Calls

end Dsm.Paging
