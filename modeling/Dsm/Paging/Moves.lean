import Dsm.Lib.Run
import Dsm.Paging.Basic
import Mathlib.Data.Finset.Basic

/-!
# What a pager operation is made of

Every operation of the pager is a sequence of a dozen elementary moves: a frame leaves the free
list, a page is swept by the clock, a victim is given up, a page is fetched into a held frame, and
so on. Between two moves of one operation a frame may be *held*: off the free list and not yet
occupied. A `Work` state is a pager together with the frames that are held.

The pay-off is that an invariant of the pager is checked against the moves, once, and not against
the control flow of each operation; `Paging/Operations.lean` does the control flow once for all.

`RepInv` is the representation invariant. It ties the page table, the frame table, the free list
and the held frames together, and every move keeps it (`RepInv.move`).
-/

namespace Dsm.Paging

open DsmContext Dsm.Lib

/-- A pager in the middle of an operation. -/
structure Work where
  held : Finset Nat
  pager : Pager

namespace DsmContext

/-- The page table maps page `p` to frame `f`. -/
def Maps (ctx : DsmContext) (p f : Nat) : Prop :=
  p < ctx.numVirtualPages ∧ (ctx.pageTable p).valid = true ∧ (ctx.pageTable p).frameNumber = f

theorem Maps.not_absent {ctx : DsmContext} {p f : Nat} (h : ctx.Maps p f) :
    (ctx.pageTable p).valid ≠ false := by
  rw [h.2.1]
  decide

theorem Maps.frame_unique {ctx : DsmContext} {p f g : Nat} (hf : ctx.Maps p f) (hg : ctx.Maps p g) :
    f = g := hf.2.2.symm.trans hg.2.2

/-- The frame table says that frame `f` holds page `p`. -/
def Holds (ctx : DsmContext) (f p : Nat) : Prop :=
  f < ctx.numPages ∧ (ctx.frameTable f).occupied = true ∧ (ctx.frameTable f).pageNumber = p

/-- Page `p` enters frame `f`: the two table entries an installation writes. -/
def mapPage (ctx : DsmContext) (p f : Nat) (e : PageTableEntry) : DsmContext :=
  (ctx.setEntry p { e with frameNumber := f, valid := true }).setFrame f
    { ctx.frameTable f with pageNumber := p, occupied := true }

/-- Page `p` leaves frame `f`: the two table entries an eviction writes. -/
def unmapPage (ctx : DsmContext) (p f : Nat) : DsmContext :=
  (ctx.setEntry p { ctx.pageTable p with valid := false, dirty := 0 }).setFrame f
    { ctx.frameTable f with occupied := false }

/-- The victim at `p` has to be sent to the server before it is given up. -/
def NeedsWriteback (ctx : DsmContext) (p : Nat) : Prop :=
  (ctx.pageTable p).dirty ≠ 0 ∧ (ctx.pageTable p).location = .locRemote

instance (ctx : DsmContext) (p : Nat) : Decidable (ctx.NeedsWriteback p) :=
  inferInstanceAs (Decidable (_ ∧ _))

end DsmContext

/-! ## The moves

`Enabled` says when a move can happen; `onContext`, `onRemote` and `onHeld` say what it does. -/

inductive Move where
  | take (f : Nat)                             -- `get_free_frame` pops `f`
  | give (f : Nat)                             -- `push_free_frame` returns the held `f`
  | sweep (q : Nat)                            -- the clock passes a page with its bit set
  | putFailed (q f : Nat) (applied : Bool)     -- the writeback of the victim fails
  | evict (q f : Nat)                          -- the victim goes, written back where needed
  | fetch (p f : Nat) (write : Int32)          -- a miss is served by the server
  | fetchFailed (p f : Nat) (left : Page)      -- the fetch of a miss fails
  | mapLocal (p f : Nat) (write : Int32)       -- a miss is served with `sock_fd < 0`
  | batch (ids : List Nat) (ok : Bool)         -- the batched RPC of a prefetch
  | prefetch (p f : Nat)                       -- one page of a successful batch is installed
  | hit (p : Nat) (write : Int32)              -- an access finds its page
  | remember (p : Nat)                         -- `ctx->last_page_id = page_id`

def Move.Enabled (w : Work) : Move → Prop
  | .take f => w.pager.ctx.freeList.head? = some f
  | .give f => f ∈ w.held
  | .sweep q =>
      w.pager.ctx.Holds w.pager.ctx.clockHand q ∧ (w.pager.ctx.pageTable q).referenceBit = true
  | .putFailed q f _ =>
      f = w.pager.ctx.clockHand ∧ w.pager.ctx.Holds f q ∧
        (w.pager.ctx.pageTable q).referenceBit = false ∧ w.pager.ctx.NeedsWriteback q
  | .evict q f =>
      f = w.pager.ctx.clockHand ∧ w.pager.ctx.Holds f q ∧
        (w.pager.ctx.pageTable q).referenceBit = false
  | .fetch p f _ =>
      0 ≤ w.pager.ctx.sockFd ∧ f ∈ w.held ∧ p < w.pager.ctx.numVirtualPages ∧
        (w.pager.ctx.pageTable p).valid = false
  | .fetchFailed _ f _ => 0 ≤ w.pager.ctx.sockFd ∧ f ∈ w.held
  | .mapLocal p f _ =>
      w.pager.ctx.sockFd < 0 ∧ f ∈ w.held ∧ p < w.pager.ctx.numVirtualPages ∧
        (w.pager.ctx.pageTable p).valid = false
  | .batch _ _ => True
  | .prefetch p f =>
      f ∈ w.held ∧ p < w.pager.ctx.numVirtualPages ∧ (w.pager.ctx.pageTable p).valid = false ∧
        (w.pager.ctx.pageTable p).location = .locRemote
  | .hit p _ => p < w.pager.ctx.numVirtualPages ∧ (w.pager.ctx.pageTable p).valid = true
  | .remember _ => True

def Move.onContext (ctx : DsmContext) (store : Nat → Page) : Move → DsmContext
  | .take _ => { ctx with freeList := ctx.freeList.tail }
  | .give f => { ctx with freeList := f :: ctx.freeList }
  | .sweep q =>
      (ctx.setEntry q { ctx.pageTable q with referenceBit := false }).advanceHand
  | .putFailed _ _ _ => ctx
  | .evict q f =>
      { (ctx.unmapPage q f).advanceHand with evictions := u64 (ctx.evictions + 1) }
  | .fetch p f write =>
      { (ctx.setMemory f (store p)).mapPage p f
          { referenceBit := true, dirty := writeByte write, location := .locRemote } with
        remoteFetches := u64 (ctx.remoteFetches + 1) }
  | .fetchFailed _ f left => ctx.setMemory f left
  | .mapLocal p f write =>
      ctx.mapPage p f { referenceBit := true, dirty := writeByte write, location := .locLocal }
  | .batch _ _ => ctx
  | .prefetch p f =>
      { (ctx.setMemory f (store p)).mapPage p f
          { ctx.pageTable p with referenceBit := false, dirty := 0 } with
        remoteFetches := u64 (ctx.remoteFetches + 1) }
  | .hit p write => accessHit ctx p (ctx.pageTable p) write
  | .remember p => { ctx with lastPageId := p }

def Move.onRemote (ctx : DsmContext) (r : Remote) : Move → Remote
  | .putFailed q f applied => (r.dsmRpcPut q (ctx.localMemory f) (.failed applied)).2
  | .evict q f =>
      if ctx.NeedsWriteback q then (r.dsmRpcPut q (ctx.localMemory f) .ok).2 else r
  | .fetch p _ _ => { r with log := .get p true :: r.log }
  | .fetchFailed p _ _ => { r with log := .get p false :: r.log }
  | .batch ids ok => { r with log := .getBatch ids ok :: r.log }
  | _ => r

def Move.onHeld (held : Finset Nat) : Move → Finset Nat
  | .take f => insert f held
  | .give f => held.erase f
  | .evict _ f => insert f held
  | .fetch _ f _ => held.erase f
  | .mapLocal _ f _ => held.erase f
  | .prefetch _ f => held.erase f
  | _ => held

def Move.apply (w : Work) (m : Move) : Work where
  held := m.onHeld w.held
  pager := ⟨m.onContext w.pager.ctx w.pager.remote.store, m.onRemote w.pager.ctx w.pager.remote⟩

def MoveStep (w : Work) (m : Move) (w' : Work) : Prop := m.Enabled w ∧ w' = m.apply w

abbrev Moves : Work → List Move → Work → Prop := Run MoveStep

theorem Move.apply_eq {w : Work} {m : Move} {held : Finset Nat} (h : m.onHeld w.held = held) :
    m.apply w = ⟨held, (m.apply w).pager⟩ := by
  rw [← h]
  rfl

theorem Moves.one {w : Work} {m : Move} (h : m.Enabled w) : Moves w [m] (m.apply w) :=
  Run.single ⟨h, rfl⟩

/-- No move changes the geometry or the socket. -/
theorem Move.sizes (ctx : DsmContext) (store : Nat → Page) (m : Move) :
    (m.onContext ctx store).numPages = ctx.numPages ∧
    (m.onContext ctx store).numVirtualPages = ctx.numVirtualPages ∧
    (m.onContext ctx store).sockFd = ctx.sockFd ∧
    (m.onContext ctx store).prefetchCount = ctx.prefetchCount := by
  cases m <;> exact ⟨rfl, rfl, rfl, rfl⟩

theorem Moves.sizes {w w' : Work} {ms : List Move} (h : Moves w ms w') :
    w'.pager.ctx.numPages = w.pager.ctx.numPages ∧
    w'.pager.ctx.numVirtualPages = w.pager.ctx.numVirtualPages ∧
    w'.pager.ctx.sockFd = w.pager.ctx.sockFd ∧
    w'.pager.ctx.prefetchCount = w.pager.ctx.prefetchCount := by
  induction h with
  | nil _ => exact ⟨rfl, rfl, rfl, rfl⟩
  | cons hstep _ ih =>
      obtain ⟨-, rfl⟩ := hstep
      obtain ⟨h₁, h₂, h₃, h₄⟩ := Move.sizes _ _ _
      obtain ⟨i₁, i₂, i₃, i₄⟩ := ih
      exact ⟨i₁.trans h₁, i₂.trans h₂, i₃.trans h₃, i₄.trans h₄⟩

/-- The page whose table entry the move writes. -/
def Move.page? : Move → Option Nat
  | .sweep q => some q
  | .evict q _ => some q
  | .fetch p _ _ => some p
  | .mapLocal p _ _ => some p
  | .prefetch p _ => some p
  | .hit p _ => some p
  | _ => none

/-- A move leaves the entries of all other pages alone. -/
theorem Move.pageTable_of_ne (ctx : DsmContext) (store : Nat → Page) {m : Move} {q : Nat}
    (h : m.page? ≠ some q) : (m.onContext ctx store).pageTable q = ctx.pageTable q := by
  cases m with
  | take | give | putFailed | fetchFailed | batch | remember => rfl
  | sweep p | evict p f | fetch p f write | mapLocal p f write | prefetch p f | hit p write =>
      exact Function.update_of_ne (fun hq => h (congrArg some hq.symm)) _ _

/-- The server's copy of page `p` changes only when page `p` is put. -/
theorem Move.store_of_ne (ctx : DsmContext) (r : Remote) {m : Move} {p : Nat}
    (hevict : ∀ f, m ≠ .evict p f) (hput : ∀ f applied, m ≠ .putFailed p f applied) :
    (m.onRemote ctx r).store p = r.store p := by
  cases m with
  | evict q f =>
      have hq : p ≠ q := by
        rintro rfl
        exact hevict f rfl
      by_cases hwb : ctx.NeedsWriteback q <;> simp [Move.onRemote, hwb, Remote.dsmRpcPut, hq]
  | putFailed q f applied =>
      have hq : p ≠ q := by
        rintro rfl
        exact hput f applied rfl
      cases applied <;> simp [Move.onRemote, Remote.dsmRpcPut, hq]
  | _ => rfl

/-! ## The representation invariant -/

/-- The tables, the free list and the held frames agree. -/
structure RepInv (held : Finset Nat) (ctx : DsmContext) : Prop where
  numPages_pos : 0 < ctx.numPages
  numPages_lt : ctx.numPages < 2 ^ 32
  numVirtualPages_lt : ctx.numVirtualPages < 2 ^ 32
  hand_lt : ctx.clockHand < ctx.numPages
  nodup : ctx.freeList.Nodup
  held_not_free : ∀ f ∈ held, f ∉ ctx.freeList
  free_iff : ∀ f, f ∈ held ∨ f ∈ ctx.freeList ↔
    f < ctx.numPages ∧ (ctx.frameTable f).occupied = false
  maps_iff : ∀ p f, ctx.Maps p f ↔ ctx.Holds f p

namespace RepInv

variable {held : Finset Nat} {ctx : DsmContext}

theorem lt_of_held (h : RepInv held ctx) {f : Nat} (hf : f ∈ held) : f < ctx.numPages :=
  ((h.free_iff f).mp (.inl hf)).1

theorem lt_of_free (h : RepInv held ctx) {f : Nat} (hf : f ∈ ctx.freeList) : f < ctx.numPages :=
  ((h.free_iff f).mp (.inr hf)).1

/-- A held frame holds no page. -/
theorem not_holds_of_held (h : RepInv held ctx) {f p : Nat} (hf : f ∈ held) : ¬ ctx.Holds f p := by
  rintro ⟨-, hocc, -⟩
  have := ((h.free_iff f).mp (.inl hf)).2
  simp [hocc] at this

/-- No real frame number is the sentinel `DSM_NO_FRAME`. -/
theorem ne_noFrame (h : RepInv held ctx) {f : Nat} (hf : f < ctx.numPages) : f ≠ dsmNoFrame := by
  have := h.numPages_lt
  unfold dsmNoFrame
  omega

/-- The free list has room for a held frame. -/
theorem room_of_held (h : RepInv held ctx) {f : Nat} (hf : f ∈ held) :
    ctx.freeList.length < ctx.numPages := by
  have hnd : (f :: ctx.freeList).Nodup := List.nodup_cons.mpr ⟨h.held_not_free f hf, h.nodup⟩
  have hsub : (f :: ctx.freeList) ⊆ List.range ctx.numPages := by
    intro g hg
    rw [List.mem_range]
    rcases List.mem_cons.mp hg with rfl | hg
    · exact h.lt_of_held hf
    · exact h.lt_of_free hg
  have hlen := (List.subperm_of_subset hnd hsub).length_le
  rw [List.length_range, List.length_cons] at hlen
  omega

/-- The next hand position is a frame again. -/
theorem advance_lt (h : RepInv held ctx) : ctx.advanceHand.clockHand < ctx.numPages :=
  Nat.mod_lt _ h.numPages_pos

/-- Reference bits, dirty bits, contents, counters and the hand are free to change. -/
theorem congr {ctx' : DsmContext} (h : RepInv held ctx)
    (hvalid : ∀ p, (ctx'.pageTable p).valid = (ctx.pageTable p).valid)
    (hframe : ∀ p, (ctx'.pageTable p).frameNumber = (ctx.pageTable p).frameNumber)
    (hft : ctx'.frameTable = ctx.frameTable) (hfl : ctx'.freeList = ctx.freeList)
    (hnp : ctx'.numPages = ctx.numPages) (hnv : ctx'.numVirtualPages = ctx.numVirtualPages)
    (hhand : ctx'.clockHand < ctx.numPages) : RepInv held ctx' where
  numPages_pos := hnp ▸ h.numPages_pos
  numPages_lt := hnp ▸ h.numPages_lt
  numVirtualPages_lt := hnv ▸ h.numVirtualPages_lt
  hand_lt := hnp ▸ hhand
  nodup := hfl ▸ h.nodup
  held_not_free := hfl ▸ h.held_not_free
  free_iff := by rw [hfl, hft, hnp]; exact h.free_iff
  maps_iff := by
    intro p f
    have hmaps : ctx'.Maps p f ↔ ctx.Maps p f := by
      simp only [Maps, hvalid, hframe, hnv]
    have hholds : ctx'.Holds f p ↔ ctx.Holds f p := by
      simp only [Holds, hft, hnp]
    rw [hmaps, hholds]
    exact h.maps_iff p f

theorem take (h : RepInv held ctx) {f : Nat} (hf : ctx.freeList.head? = some f) :
    RepInv (insert f held) { ctx with freeList := ctx.freeList.tail } := by
  obtain ⟨rest, hfl⟩ : ∃ rest, ctx.freeList = f :: rest := List.head?_eq_some_iff.mp hf
  have hnd := h.nodup
  rw [hfl, List.nodup_cons] at hnd
  refine ⟨h.numPages_pos, h.numPages_lt, h.numVirtualPages_lt, h.hand_lt, ?_, ?_, ?_, h.maps_iff⟩
  · simpa [hfl] using hnd.2
  · intro g hg
    simp only [hfl, List.tail_cons]
    rcases Finset.mem_insert.mp hg with rfl | hg
    · exact hnd.1
    · intro hmem
      exact h.held_not_free g hg (by rw [hfl]; exact List.mem_cons_of_mem _ hmem)
  · intro g
    have hg := h.free_iff g
    rw [hfl, List.mem_cons] at hg
    simp only [hfl, List.tail_cons, Finset.mem_insert]
    rw [← hg]
    tauto

theorem give (h : RepInv held ctx) {f : Nat} (hf : f ∈ held) :
    RepInv (held.erase f) { ctx with freeList := f :: ctx.freeList } := by
  refine ⟨h.numPages_pos, h.numPages_lt, h.numVirtualPages_lt, h.hand_lt, ?_, ?_, ?_, h.maps_iff⟩
  · exact List.nodup_cons.mpr ⟨h.held_not_free f hf, h.nodup⟩
  · intro g hg
    obtain ⟨hne, hg⟩ := Finset.mem_erase.mp hg
    rw [List.mem_cons, not_or]
    exact ⟨hne, h.held_not_free g hg⟩
  · intro g
    rw [← h.free_iff g]
    simp only [Finset.mem_erase, List.mem_cons]
    by_cases hgf : g = f
    · simp [hgf, hf]
    · simp [hgf]

/-- Installing an absent page in a held frame. -/
theorem map (h : RepInv held ctx) {p f : Nat} (e : PageTableEntry) (hf : f ∈ held)
    (hp : p < ctx.numVirtualPages) (hinv : (ctx.pageTable p).valid = false) :
    RepInv (held.erase f) (ctx.mapPage p f e) := by
  have hflt := h.lt_of_held hf
  refine ⟨h.numPages_pos, h.numPages_lt, h.numVirtualPages_lt, h.hand_lt, h.nodup, ?_, ?_, ?_⟩
  · intro g hg
    exact h.held_not_free g (Finset.mem_of_mem_erase hg)
  · intro g
    have hg := h.free_iff g
    have hnf := h.held_not_free f hf
    simp only [mapPage, setFrame, setEntry, Function.update_apply, Finset.mem_erase]
    by_cases hgf : g = f
    · subst hgf
      simp [hnf]
    · simp only [hgf, if_false, ne_eq, not_false_eq_true, true_and]
      exact hg
  · intro q g
    have hqg := h.maps_iff q g
    -- The new pair is `(p, f)`; no old pair shares a component with it.
    have hpg : ¬ ctx.Maps p g := fun hm => by simp [hm.2.1] at hinv
    have hqf : ¬ ctx.Holds f q := h.not_holds_of_held hf
    simp only [Maps, Holds, mapPage, setFrame, setEntry, Function.update_apply] at *
    by_cases hqp : q = p <;> by_cases hgf : g = f
    · subst hqp hgf; simp [hp, hflt]
    · subst hqp
      have : ¬ f = g := fun h => hgf h.symm
      simp only [if_true, hgf, if_false, this, and_false, false_iff]
      exact fun hh => hpg (hqg.mpr hh)
    · subst hgf
      have : ¬ p = q := fun h => hqp h.symm
      simp only [if_true, hqp, if_false, this, and_false, iff_false]
      exact fun hm => hqf (hqg.mp hm)
    · simpa only [hqp, hgf, if_false] using hqg

/-- Giving up a mapped page: its frame is held afterwards. -/
theorem unmap (h : RepInv held ctx) {p f : Nat} (hm : ctx.Holds f p) :
    RepInv (insert f held) (ctx.unmapPage p f) := by
  have hmaps := (h.maps_iff p f).mpr hm
  have hfree : ¬ (f ∈ held ∨ f ∈ ctx.freeList) := by
    rw [h.free_iff f]
    rintro ⟨-, hocc⟩
    simp [hm.2.1] at hocc
  refine ⟨h.numPages_pos, h.numPages_lt, h.numVirtualPages_lt, h.hand_lt, h.nodup, ?_, ?_, ?_⟩
  · intro g hg
    rcases Finset.mem_insert.mp hg with rfl | hg
    · exact fun hmem => hfree (.inr hmem)
    · exact h.held_not_free g hg
  · intro g
    have hg := h.free_iff g
    simp only [unmapPage, setFrame, setEntry, Function.update_apply, Finset.mem_insert]
    by_cases hgf : g = f
    · subst hgf
      simp [hm.1]
    · simpa [hgf] using hg
  · intro q g
    have hqg := h.maps_iff q g
    -- Every other pair avoids both `p` and `f`, because the two tables are inverse to each other.
    have hpg : ctx.Maps p g → g = f := fun hm' => by rw [← hm'.2.2, hmaps.2.2]
    have hfq : ctx.Holds f q → q = p := fun hh => by rw [← hh.2.2, hm.2.2]
    simp only [Maps, Holds, unmapPage, setFrame, setEntry, Function.update_apply] at *
    by_cases hqp : q = p <;> by_cases hgf : g = f
    · subst hqp hgf; simp
    · subst hqp
      simp only [if_true, hgf, if_false, Bool.false_eq_true, false_and, and_false, false_iff]
      exact fun hh => hgf (hpg (hqg.mpr hh))
    · subst hgf
      simp only [if_true, hqp, if_false, Bool.false_eq_true, false_and, and_false, iff_false]
      exact fun hh => hqp (hfq (hqg.mp hh))
    · simpa only [hqp, hgf, if_false] using hqg

/-- **Every move keeps the representation invariant.** -/
theorem move {w w' : Work} {m : Move} (h : RepInv w.held w.pager.ctx) (hs : MoveStep w m w') :
    RepInv w'.held w'.pager.ctx := by
  obtain ⟨hen, rfl⟩ := hs
  cases m with
  | take f => exact h.take hen
  | give f => exact h.give hen
  | sweep q =>
      refine h.congr ?_ ?_ rfl rfl rfl rfl h.advance_lt <;>
      · intro p
        simp only [Move.apply, Move.onContext, advanceHand, setEntry, Function.update_apply]
        split <;> simp_all
  | putFailed q f applied => exact h
  | evict q f =>
      obtain ⟨-, hholds, -⟩ := hen
      exact (h.unmap hholds).congr (fun _ => rfl) (fun _ => rfl) rfl rfl rfl rfl h.advance_lt
  | fetch p f write =>
      obtain ⟨-, hf, hp, hinv⟩ := hen
      have hmem : RepInv w.held (w.pager.ctx.setMemory f (w.pager.remote.store p)) :=
        h.congr (fun _ => rfl) (fun _ => rfl) rfl rfl rfl rfl h.hand_lt
      exact (hmem.map _ hf hp hinv).congr (fun _ => rfl) (fun _ => rfl) rfl rfl rfl rfl h.hand_lt
  | fetchFailed p f left =>
      exact h.congr (fun _ => rfl) (fun _ => rfl) rfl rfl rfl rfl h.hand_lt
  | mapLocal p f write =>
      obtain ⟨-, hf, hp, hinv⟩ := hen
      exact h.map _ hf hp hinv
  | batch ids ok => exact h
  | prefetch p f =>
      obtain ⟨hf, hp, hinv, -⟩ := hen
      have hmem : RepInv w.held (w.pager.ctx.setMemory f (w.pager.remote.store p)) :=
        h.congr (fun _ => rfl) (fun _ => rfl) rfl rfl rfl rfl h.hand_lt
      exact (hmem.map _ hf hp hinv).congr (fun _ => rfl) (fun _ => rfl) rfl rfl rfl rfl h.hand_lt
  | hit p write =>
      refine h.congr ?_ ?_ rfl rfl rfl rfl h.hand_lt <;>
      · intro q
        simp only [Move.apply, Move.onContext, accessHit, setEntry, Function.update_apply]
        split <;> simp_all
  | remember p => exact h.congr (fun _ => rfl) (fun _ => rfl) rfl rfl rfl rfl h.hand_lt

theorem moves {w w' : Work} {ms : List Move} (h : RepInv w.held w.pager.ctx)
    (hrun : Moves w ms w') : RepInv w'.held w'.pager.ctx :=
  hrun.invariant (fun w => RepInv w.held w.pager.ctx) (fun _ _ _ hw hs => hw.move hs) h

/-- Nothing outside the virtual space is put on the server. -/
theorem store_outside {w w' : Work} {ms : List Move} (h : RepInv w.held w.pager.ctx)
    (hrun : Moves w ms w') {p : Nat} (hp : w.pager.ctx.numVirtualPages ≤ p) :
    w'.pager.remote.store p = w.pager.remote.store p := by
  refine (hrun.invariant (fun v => RepInv v.held v.pager.ctx ∧
    v.pager.ctx.numVirtualPages ≤ p ∧ v.pager.remote.store p = w.pager.remote.store p) ?_
    ⟨h, hp, rfl⟩).2.2
  rintro v m _ ⟨hrep, hp', hsame⟩ hs
  have hrep' := hrep.move hs
  obtain ⟨hen, rfl⟩ := hs
  refine ⟨hrep', (Move.sizes _ _ m).2.1.trans_le hp', ?_⟩
  -- The page a frame holds is mapped, so it is not `p`.
  have hheld : ∀ {f}, ¬ v.pager.ctx.Holds f p := by
    intro f hf
    have := ((hrep.maps_iff p f).mpr hf).1
    omega
  refine (Move.store_of_ne v.pager.ctx v.pager.remote ?_ ?_).trans hsame
  · rintro f rfl
    exact hheld hen.2.1
  · rintro f applied rfl
    exact hheld hen.2.1

/-- A fresh context satisfies the invariant. -/
theorem create {numPages numVirtualPages : Nat} (hpos : 1 ≤ numPages) (hlt : numPages < 2 ^ 32)
    (hnv : numVirtualPages < 2 ^ 32) : RepInv ∅ (dsmCreateContext numPages numVirtualPages) where
  numPages_pos := hpos
  numPages_lt := hlt
  numVirtualPages_lt := hnv
  hand_lt := hpos
  nodup := List.nodup_range
  held_not_free := by simp
  free_iff := by simp [dsmCreateContext]
  maps_iff := by simp [Maps, Holds, dsmCreateContext]

end RepInv

/-! ## What happens to a cached page

Only two moves touch a cached page: the eviction that gives it up, and a hit, which may set its
dirty bit. -/

/-- Page `q` is still in frame `f`, with the same content, dirty bit and location. -/
structure Kept (q f : Nat) (ctx ctx' : DsmContext) : Prop where
  maps : ctx'.Maps q f
  memory : ctx'.localMemory f = ctx.localMemory f
  dirty : (ctx'.pageTable q).dirty = (ctx.pageTable q).dirty
  location : (ctx'.pageTable q).location = (ctx.pageTable q).location

theorem Kept.refl {ctx : DsmContext} {q f : Nat} (h : ctx.Maps q f) : Kept q f ctx ctx :=
  ⟨h, rfl, rfl, rfl⟩

theorem Kept.trans {ctx ctx' ctx'' : DsmContext} {q f : Nat} (h : Kept q f ctx ctx')
    (h' : Kept q f ctx' ctx'') : Kept q f ctx ctx'' :=
  ⟨h'.maps, h'.memory.trans h.memory, h'.dirty.trans h.dirty, h'.location.trans h.location⟩

/-- The move is neither the eviction of page `q` nor a hit on it. -/
def Move.Spares (q : Nat) : Move → Prop
  | .evict p _ => p ≠ q
  | .hit p _ => p ≠ q
  | _ => True

theorem Kept.move {w w' : Work} {m : Move} {q f : Nat} (hrep : RepInv w.held w.pager.ctx)
    (hq : w.pager.ctx.Maps q f) (hm : m.Spares q) (hs : MoveStep w m w') :
    Kept q f w.pager.ctx w'.pager.ctx := by
  have hsizes := Move.sizes w.pager.ctx w.pager.remote.store m
  -- A move that does not write the entry of `q` keeps it, if it keeps the memory of the frame.
  have keep : m.page? ≠ some q →
      (m.onContext w.pager.ctx w.pager.remote.store).localMemory f = w.pager.ctx.localMemory f →
      Kept q f w.pager.ctx (m.onContext w.pager.ctx w.pager.remote.store) := by
    intro hne hmem
    have he := Move.pageTable_of_ne w.pager.ctx w.pager.remote.store hne
    refine ⟨?_, hmem, by rw [he], by rw [he]⟩
    rw [Maps, he, hsizes.2.1]
    exact hq
  have absent : ∀ {p : Nat}, (w.pager.ctx.pageTable p).valid = false → some p ≠ some q := by
    rintro p hp ⟨⟩
    exact absurd hp hq.not_absent
  have apart : ∀ {g : Nat}, g ∈ w.held → ∀ data,
      Function.update w.pager.ctx.localMemory g data f = w.pager.ctx.localMemory f := by
    intro g hg data
    refine Function.update_of_ne ?_ _ _
    rintro rfl
    exact hrep.not_holds_of_held hg ((hrep.maps_iff _ _).mp hq)
  obtain ⟨hen, rfl⟩ := hs
  cases m with
  | take | give | putFailed | batch | remember => exact keep (by simp [Move.page?]) rfl
  | evict p g => exact keep (fun h => hm (Option.some.inj h)) rfl
  | hit p write => exact keep (fun h => hm (Option.some.inj h)) rfl
  | fetch p g write => exact keep (absent hen.2.2.2) (apart hen.2.1 _)
  | mapLocal p g write => exact keep (absent hen.2.2.2) rfl
  | prefetch p g => exact keep (absent hen.2.2.1) (apart hen.1 _)
  | fetchFailed p g left => exact keep (by simp [Move.page?]) (apart hen.2 _)
  | sweep p =>
      by_cases hp : p = q
      · subst hp
        refine ⟨?_, rfl, ?_, ?_⟩ <;>
          simp [Move.apply, Move.onContext, advanceHand, setEntry, Maps, hq.1, hq.2.1, hq.2.2]
      · exact keep (fun h => hp (Option.some.inj h)) rfl

/-- A run that neither gives up nor hits a cached page keeps it. -/
theorem Kept.moves {w w' : Work} {ms : List Move} {q f : Nat} (hrun : Moves w ms w')
    (hrep : RepInv w.held w.pager.ctx) (hq : w.pager.ctx.Maps q f) (hms : ∀ m ∈ ms, m.Spares q) :
    Kept q f w.pager.ctx w'.pager.ctx := by
  refine (hrun.invariant_of_labels
    (fun v => RepInv v.held v.pager.ctx ∧ Kept q f w.pager.ctx v.pager.ctx) (Move.Spares q) ?_ hms
    ⟨hrep, .refl hq⟩).2
  rintro v m v' hm ⟨hrep', hkept⟩ hs
  exact ⟨hrep'.move hs, hkept.trans (.move hrep' hkept.maps hm hs)⟩

end Dsm.Paging
