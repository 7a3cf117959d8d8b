import Dsm.Paging.Eviction

/-!
# What a client remembers

Two promises of the pager are about the past: a page that was written since it was installed is put
back when it is given up, and a miss that continues a sequential scan prefetches. The pager keeps
three approximations of that past, the dirty bit, the location and `last_page_id`. Here the past
itself is recorded beside the pager (`Observed`), so that the approximations can be compared with it.

* The dirty bit is right (`Observed.Faithful.dirty`). The location is not: it says where a page came
  from, and a page that came before the socket was set is never put back (`victim_sent_iff`).
* `last_page_id` is the page of the latest *miss*, and before the first miss it is a number whose
  successor is page `0` (`sequential_detection_iff`).
-/

namespace Dsm.Paging

open DsmContext Dsm.Lib

variable {s s' : Pager} {numPages numVirtualPages : Nat}

/-! ## The past of a context -/

/-- A pager and what has happened to it. -/
structure Observed where
  pager : Pager
  /-- cached, and accessed with `write = 1` since it was installed -/
  written : Nat → Bool
  /-- the page of the latest access that returned a page -/
  latest : Option Nat
  /-- the page of the latest such access that was a miss -/
  missed : Option Nat

def Call.writes (q : Nat) : Call → Bool
  | .access p write _ _ => p == q && write == 1
  | _ => false

/-- The call `c` has returned `seen` and led to `s'`. A page that is cached before and after the call
was not given up in between: the frame of a victim goes to the page that was asked for. -/
def Observed.next (o : Observed) (c : Call) (seen : Seen) (s' : Pager) : Observed where
  pager := s'
  written q := (s'.ctx.pageTable q).valid &&
    ((o.pager.ctx.pageTable q).valid && o.written q || c.writes q)
  latest :=
    match c, seen with
    | .access p _ _ _, some _ => some p
    | _, _ => o.latest
  missed :=
    match c, seen with
    | .access p _ _ _, some _ => if (o.pager.ctx.pageTable p).valid then o.missed else some p
    | _, _ => o.missed

def Observed.Step (o : Observed) (c : Call) (o' : Observed) : Prop :=
  ∃ seen s', o.pager.call c = some (seen, s') ∧ o' = o.next c seen s'

def Observed.start (numPages numVirtualPages : Nat) (remote : Remote) : Observed where
  pager := ⟨dsmCreateContext numPages numVirtualPages, remote⟩
  written := fun _ => false
  latest := none
  missed := none

/-- The calls lead a new context to `o`. -/
structure Observed.ReachedBy (numPages numVirtualPages : Nat) (calls : List Call) (o : Observed) :
    Prop where
  numPages_pos : 1 ≤ numPages
  numPages_lt : numPages < 2 ^ 32
  numVirtualPages_lt : numVirtualPages < 2 ^ 32
  inRange : ∀ c ∈ calls, c.InRange numVirtualPages
  ran : ∃ remote, Run Observed.Step (Observed.start numPages numVirtualPages remote) calls o

/-! ## The pager's view of the past -/

/-- The tables against the past: a written page is dirty, and `last_page_id` is the latest miss. -/
structure Observed.Faithful (n : Nat) (o : Observed) : Prop where
  rep : RepInv ∅ o.pager.ctx
  size : o.pager.ctx.numVirtualPages = n
  dirty : ∀ q < n, (o.pager.ctx.pageTable q).valid = true → o.written q = true →
    (o.pager.ctx.pageTable q).dirty ≠ 0
  last : o.pager.ctx.lastPageId = o.missed.getD dsmNoPage
  missed_lt : ∀ x, o.missed = some x → x < n

/-- `last_page_id` after an access: the page of a served miss, and otherwise what it was. -/
theorem Accessed.lastPageId (h : RepInv ∅ s.ctx) {p : Nat} {write : Int32} {rpc : RpcScript}
    {r : Option Nat} (hacc : Accessed s p write rpc r s') :
    s'.ctx.lastPageId =
      if r.isSome ∧ (s.ctx.pageTable p).valid = false then p else s.ctx.lastPageId := by
  -- A served miss ends with `ctx->last_page_id = page_id`.
  have served : ∀ {w : Work} {f g : Nat} {ms : List Move}, Moves w ms ⟨∅, s'⟩ →
      FrameMoves s.ctx p g write rpc (some f) ms → s'.ctx.lastPageId = p := by
    intro w f g ms hrun hms
    have hend : ∃ init, ms = init ++ [.remember p] := by
      cases hms with
      | fetched trail _ _ _ => exact ⟨.fetch p f write :: trail, rfl⟩
      | served trail _ _ => exact ⟨.mapLocal p f write :: trail, rfl⟩
    obtain ⟨init, rfl⟩ := hend
    obtain ⟨w', -, hlast⟩ := hrun.split
    obtain - | ⟨⟨-, hs'⟩, hnil⟩ := hlast
    cases hnil
    exact congrArg (fun w : Work => w.pager.ctx.lastPageId) hs'
  cases r with
  | none => exact (hacc.failed h).2.2.1.trans (if_neg (by simp)).symm
  | some f =>
      cases hacc with
      | hit hmaps => simp [accessHit, setEntry, hmaps.2.1]
      | popped hv _ hrun hms => exact (served hrun hms).trans (if_pos ⟨rfl, hv⟩).symm
      | evicted hv _ _ _ hrun hms => exact (served hrun hms).trans (if_pos ⟨rfl, hv⟩).symm

/-- An access keeps the dirty bit of every page it does not give up; a flag of `1` sets that of the
page it returns. -/
theorem Accessed.dirty (h : RepInv ∅ s.ctx) {p : Nat} (hp : p < s.ctx.numVirtualPages)
    {write : Int32} {rpc : RpcScript} {r : Option Nat} (hacc : Accessed s p write rpc r s') {q : Nat}
    (hlt : q < s.ctx.numVirtualPages) (hv' : (s'.ctx.pageTable q).valid = true)
    (hq : (s.ctx.pageTable q).valid = true ∧ (s.ctx.pageTable q).dirty ≠ 0 ∨ p = q ∧ write = 1) :
    (s'.ctx.pageTable q).dirty ≠ 0 := by
  obtain ⟨ms, hrun, hms⟩ := hacc.run h
  -- The page that was asked for with `write = 1`.
  have asked : p = q → write = 1 → (s'.ctx.pageTable q).dirty ≠ 0 := by
    rintro rfl rfl
    cases r with
    | none =>
        obtain ⟨he, hv, -⟩ := hacc.failed h
        rw [he, hv] at hv'
        cases hv'
    | some f => exact (hms.returns hp hrun).2 (by decide)
  rcases hq with ⟨hv, hd⟩ | ⟨hpq, hw⟩
  · by_cases hpq : p = q
    · subst hpq
      cases hacc with
      | hit hmaps =>
          simp only [accessHit, setEntry, Function.update_self]
          intro hzero
          exact hd (by simpa using (UInt8.or_eq_zero_iff.mp hzero).1)
      | popped hinv | stuck hinv | evicted hinv => exact absurd (hv.symm.trans hinv) (by decide)
    · obtain ⟨given, hkept, hgiven⟩ := hacc.others h
      have hmaps : s.ctx.Maps q (s.ctx.pageTable q).frameNumber := ⟨hlt, hv, rfl⟩
      by_cases hg : given = some q
      · have habs := (hgiven q _ hmaps hg).1.absent
        rw [habs] at hv'
        cases hv'
      · rw [(hkept q _ hmaps (Ne.symm hpq) hg).dirty]
        exact hd
  · exact asked hpq hw

/-- **One call** keeps the tables faithful to the past. -/
theorem Observed.Faithful.step {n : Nat} {o o' : Observed} {c : Call} (h : o.Faithful n)
    (hc : c.InRange n) (hs : o.Step c o') : o'.Faithful n := by
  obtain ⟨seen, s', heq, rfl⟩ := hs
  obtain ⟨hrep, hsize, hdirty, hlast, hmissed⟩ := h
  have hc' : c.InRange o.pager.ctx.numVirtualPages := hsize.symm ▸ hc
  obtain ⟨seen', s'', heq', hrep', -, hnv⟩ := Pager.call_inv hrep hc'
  obtain ⟨-, rfl⟩ := Prod.mk.inj (Option.some.inj (heq.symm.trans heq'))
  cases c with
  | setSocket fd =>
      obtain ⟨rfl, rfl⟩ := Prod.mk.inj (Option.some.inj heq)
      refine ⟨hrep', hnv.trans hsize, fun q hq hv hw => hdirty q hq hv ?_, hlast, hmissed⟩
      simp only [Observed.next, Call.writes, Bool.or_false, Bool.and_eq_true] at hw
      exact hw.2.2
  | prefetch startPage count ok =>
      obtain ⟨s₁, batch, hpre, hrun, -⟩ := dsmPrefetchPages_run hrep hc'.1 count ok
      rw [Pager.call, hpre] at heq
      obtain ⟨rfl, rfl⟩ := Prod.mk.inj (Option.some.inj heq)
      have hms := isPrefetching_prefetchMoves batch ok
      refine ⟨hrep', hnv.trans hsize, fun q hq hv hw => ?_,
        (prefetching_lastPageId hrun hms).trans hlast, hmissed⟩
      simp only [Observed.next, Call.writes, Bool.or_false, Bool.and_eq_true] at hw
      have he : s₁.ctx.pageTable q = o.pager.ctx.pageTable q :=
        prefetching_keep hrun hms hw.2.1 rfl
      show (s₁.ctx.pageTable q).dirty ≠ 0
      rw [he]
      exact hdirty q hq hw.2.1 hw.2.2
  | access p write change rpc =>
      have hp : p < o.pager.ctx.numVirtualPages := hc'
      obtain ⟨r, s₁, hacc, hcall⟩ := call_accessed hrep hp write change rpc
      obtain ⟨rfl, rfl⟩ := Prod.mk.inj (Option.some.inj (hcall.symm.trans heq))
      have hlast' := hacc.lastPageId hrep
      -- The caller's change touches neither the page table nor `last_page_id`.
      have htable : ∀ q < n, (s₁.ctx.pageTable q).valid = true →
          ((o.pager.ctx.pageTable q).valid && o.written q || (p == q && write == 1)) = true →
          (s₁.ctx.pageTable q).dirty ≠ 0 := by
        intro q hq hv hw
        refine hacc.dirty hrep hp (hsize.symm ▸ hq) hv ?_
        simp only [Bool.or_eq_true, Bool.and_eq_true, beq_iff_eq] at hw
        exact hw.imp_left fun h => ⟨h.1, hdirty q hq h.1 h.2⟩
      cases r with
      | none =>
          rw [if_neg (by simp)] at hlast'
          refine ⟨hrep', hnv.trans hsize, fun q hq hv hw => htable q hq hv ?_,
            hlast'.trans hlast, hmissed⟩
          simp only [Observed.next, Bool.and_eq_true] at hw
          exact hw.2
      | some f =>
          refine ⟨hrep', hnv.trans hsize, fun q hq hv hw => ?_, ?_, ?_⟩
          · simp only [Observed.next, callerChange_pageTable, Bool.and_eq_true] at hv hw ⊢
            exact htable q hq hv hw.2
          · show (callerChange s₁.ctx f write change).lastPageId = _
            rw [callerChange_lastPageId, hlast']
            cases hv : (o.pager.ctx.pageTable p).valid <;> simp [Observed.next, hv, hlast]
          · intro x hx
            cases hv : (o.pager.ctx.pageTable p).valid with
            | true => exact hmissed x (by simpa [Observed.next, hv] using hx)
            | false =>
                obtain rfl : p = x := by simpa [Observed.next, hv] using hx
                exact hc

theorem Observed.ReachedBy.faithful {calls : List Call} {o : Observed}
    (h : o.ReachedBy numPages numVirtualPages calls) : o.Faithful numVirtualPages := by
  obtain ⟨remote, hrun⟩ := h.ran
  refine hrun.invariant_of_labels (Observed.Faithful numVirtualPages)
    (Call.InRange numVirtualPages) (fun _ _ _ hc hf hs => hf.step hc hs) h.inRange ?_
  refine ⟨RepInv.create h.numPages_pos h.numPages_lt h.numVirtualPages_lt, rfl, ?_, rfl, ?_⟩
  · intro q _ _ hw
    cases hw
  · intro x hx
    cases hx

/-! ## Written pages and their eviction -/

/-- An access that gives up page `q` has sent it if and only if it was dirty and remote. -/
theorem GivenUp.sent_iff {q f : Nat} (h : GivenUp q f s s') :
    (∃ later, s'.remote.log = later ++ .put q (s.ctx.localMemory f) true :: s.remote.log) ↔
      s.ctx.NeedsWriteback q := by
  obtain ⟨later, hlater, hlog⟩ := h.log
  constructor
  · rintro ⟨later', hlog'⟩
    by_contra hwb
    rw [if_neg hwb, hlog'] at hlog
    -- Everything newer than the old log would have to contain the PUT.
    have hput : later = later' ++ [.put q (s.ctx.localMemory f) true] := by
      have happ : later ++ s.remote.log =
          (later' ++ [.put q (s.ctx.localMemory f) true]) ++ s.remote.log := by
        rw [← hlog, List.append_assoc]
        rfl
      exact List.append_cancel_right happ
    have := hlater (.put q (s.ctx.localMemory f) true) (by rw [hput]; simp)
    cases this
  · intro hwb
    rw [if_pos hwb] at hlog
    exact ⟨later, hlog⟩

/-- **Which written pages are sent when they are given up.** Whatever the order of the calls that led
here, a page that was accessed with `write = 1` since it was installed, and that an access gives up,
has been put on the server in that access if and only if it was installed as a remote page, that is,
while the socket was set. -/
theorem victim_sent_iff {calls : List Call} {o : Observed}
    (ho : o.ReachedBy numPages numVirtualPages calls) {p : Nat} (hp : p < numVirtualPages)
    (write : Int32) (rpc : RpcScript) {q f : Nat} (hq : o.pager.ctx.Maps q f)
    (hw : o.written q = true) :
    ∃ r s', dsmAccessPage o.pager p write rpc = some (r, s') ∧ ((s'.ctx.pageTable q).valid = false →
      ((∃ later, s'.remote.log =
          later ++ .put q (o.pager.ctx.localMemory f) true :: o.pager.remote.log) ↔
        (o.pager.ctx.pageTable q).location = .locRemote)) := by
  obtain ⟨hrep, rfl, hdirty, -, -⟩ := ho.faithful
  obtain ⟨r, s', heq, hacc⟩ := dsmAccessPage_accessed hrep hp write rpc
  refine ⟨r, s', heq, fun hgone => ?_⟩
  have hd := hdirty q hq.1 hq.2.1 hw
  obtain ⟨given, hkept, hgiven⟩ := hacc.others hrep
  have hqp : q ≠ p := by
    rintro rfl
    cases hacc with
    | hit _ => simp [accessHit, setEntry, hq.2.1] at hgone
    | popped hinv | stuck hinv | evicted hinv => exact absurd hinv hq.not_absent
  have hg : given = some q := by
    by_contra hg
    have hv := (hkept q f hq hqp hg).maps.2.1
    rw [hgone] at hv
    cases hv
  rw [(hgiven q f hq hg).1.sent_iff]
  exact and_iff_right hd

/-- One frame: page `0` was written over the connection and is sent when page `1` needs its frame. -/
theorem victim_sent_connected : ∃ (o : Observed) (s' : Pager), o.ReachedBy 1 2
      [.setSocket 3, .access 0 1 (fun _ => Page.fill 7) ⟨.ok, .ok, true⟩] ∧
    dsmAccessPage o.pager 1 0 ⟨.ok, .ok, true⟩ = some (some 0, s') ∧
    (s'.ctx.pageTable 0).valid = false ∧
    ∃ later, s'.remote.log =
      later ++ .put 0 (o.pager.ctx.localMemory 0) true :: o.pager.remote.log := by
  have hreach : ∃ o : Observed, o.ReachedBy 1 2
        [.setSocket 3, .access 0 1 (fun _ => Page.fill 7) ⟨.ok, .ok, true⟩] ∧
      o.pager.ctx.Maps 0 0 ∧ o.written 0 = true ∧
      (o.pager.ctx.pageTable 0).location = .locRemote ∧
      (dsmAccessPage o.pager 1 0 ⟨.ok, .ok, true⟩).map
        (fun r => (r.1, (r.2.ctx.pageTable 0).valid)) = some (some 0, false) :=
    ⟨_, ⟨by decide, by decide, by decide, by simp [Call.InRange], ⟨fun _ => zeroPage, []⟩,
      .cons ⟨_, _, rfl, rfl⟩ (.cons ⟨_, _, rfl, rfl⟩ (.nil _))⟩, ⟨by decide, rfl, rfl⟩, rfl, rfl, rfl⟩
  obtain ⟨o, ho, hmaps, hw, hloc, hresult⟩ := hreach
  obtain ⟨r, s', heq, hsent⟩ := victim_sent_iff ho (show 1 < 2 by decide) 0 ⟨.ok, .ok, true⟩ hmaps hw
  rw [heq, Option.map_some, Option.some.injEq, Prod.mk.injEq] at hresult
  obtain ⟨rfl, hgone⟩ := hresult
  exact ⟨o, s', ho, heq, hgone, (hsent hgone).mpr hloc⟩

/-- **A written page that is dropped.** Page `0` is written, then the socket is set, then page `1` needs
the frame. All RPCs succeed, and the only one sent is the GET of page `1`. -/
theorem local_victim_dropped : ∃ (o : Observed) (s' : Pager), o.ReachedBy 1 2
      [.access 0 1 (fun _ => Page.fill 7) ⟨.ok, .ok, true⟩, .setSocket 3] ∧
    0 ≤ o.pager.ctx.sockFd ∧ o.pager.ctx.Maps 0 0 ∧ o.written 0 = true ∧
    o.pager.ctx.localMemory 0 = Page.fill 7 ∧
    dsmAccessPage o.pager 1 0 ⟨.ok, .ok, true⟩ = some (some 0, s') ∧
    (s'.ctx.pageTable 0).valid = false ∧ s'.remote.log = [.get 1 true] ∧
    s'.remote.store 0 = zeroPage :=
  ⟨_, _, ⟨by decide, by decide, by decide, by simp [Call.InRange], ⟨fun _ => zeroPage, []⟩,
    .cons ⟨_, _, rfl, rfl⟩ (.cons ⟨_, _, rfl, rfl⟩ (.nil _))⟩, by decide, ⟨by decide, rfl, rfl⟩, rfl,
    rfl, rfl, rfl, rfl, rfl⟩

/-! ## Sequential detection -/

/-- `is_sequential` in `dsm_access_page_slow`: a served miss on page `p` is followed by a prefetch. -/
def Pager.IsSequential (s : Pager) (p : Nat) : Prop := p = u32 (s.ctx.lastPageId + 1)

instance (s : Pager) (p : Nat) : Decidable (s.IsSequential p) := inferInstanceAs (Decidable (_ = _))

/-- A miss on page `p` was served: the page is installed, then the next pages are prefetched if the
miss is sequential, then the page is remembered. -/
def ServedMiss (s : Pager) (p f : Nat) (rpc : RpcScript) (s' : Pager) : Prop :=
  ∃ s₁ s₂ : Pager, s₁.ctx.Maps p f ∧ s₁.ctx.prefetchCount = s.ctx.prefetchCount ∧
    (if s.IsSequential p then dsmPrefetchPages s₁ (u32 (p + 1)) s₁.ctx.prefetchCount rpc.batch
      else some s₁) = some s₂ ∧
    s' = { s₂ with ctx := { s₂.ctx with lastPageId := p } }

/-- From the table updates on. -/
theorem accessFinish_served {p f g : Nat} {write : Int32} {fetched : Bool} {rpc : RpcScript}
    {ctx' : DsmContext} (hinst : accessInstall s.ctx p g write fetched = some ctx')
    (hmaps : ctx'.Maps p g) (hlast : ctx'.lastPageId = s.ctx.lastPageId)
    (hcount : ctx'.prefetchCount = s.ctx.prefetchCount)
    (heq : accessFinish s p g write fetched rpc = some (some f, s')) :
    f = g ∧ ServedMiss s p f rpc s' := by
  rw [accessFinish, hinst] at heq
  simp only [Option.bind_eq_bind, Option.bind_some, hlast] at heq
  split at heq
  · next hseq =>
    obtain ⟨s₂, hpre, heq⟩ := Option.bind_eq_some_iff.mp heq
    obtain ⟨hf, rfl⟩ := Prod.mk.inj (Option.some.inj heq)
    obtain rfl := Option.some.inj hf
    exact ⟨rfl, ⟨ctx', s.remote⟩, s₂, hmaps, hcount, (if_pos hseq).trans hpre, rfl⟩
  · next hseq =>
    obtain ⟨hf, rfl⟩ := Prod.mk.inj (Option.some.inj heq)
    obtain rfl := Option.some.inj hf
    exact ⟨rfl, ⟨ctx', s.remote⟩, _, hmaps, hcount, if_neg hseq, rfl⟩

/-- From the frame on. -/
theorem accessWithFrame_served {p f g : Nat} (h : RepInv {g} s.ctx) (hp : p < s.ctx.numVirtualPages)
    {write : Int32} {rpc : RpcScript} (heq : accessWithFrame s p g write rpc = some (some f, s')) :
    ServedMiss s p f rpc s' := by
  have hg : g ∈ ({g} : Finset Nat) := Finset.mem_singleton_self g
  have hmaps : ∀ (ctx : DsmContext) (e : PageTableEntry),
      ctx.numVirtualPages = s.ctx.numVirtualPages → (ctx.mapPage p g e).Maps p g := by
    intro ctx e hnv
    refine ⟨hnv.symm ▸ hp, ?_, ?_⟩ <;> simp [mapPage, setFrame, setEntry]
  unfold accessWithFrame at heq
  by_cases hsock : 0 ≤ s.ctx.sockFd
  · rw [if_pos hsock] at heq
    cases hget : rpc.get with
    | ok =>
        rw [hget] at heq
        have hmem : RepInv {g} { s.ctx.setMemory g (s.remote.store p) with
            remoteFetches := u64 (s.ctx.remoteFetches + 1) } :=
          h.congr (fun _ => rfl) (fun _ => rfl) rfl rfl rfl rfl h.hand_lt
        exact (accessFinish_served (s := ⟨{ s.ctx.setMemory g (s.remote.store p) with
            remoteFetches := u64 (s.ctx.remoteFetches + 1) }, _⟩)
          (accessInstall_eq hmem hg hp write true) (hmaps _ _ rfl) rfl rfl heq).2
    | failed left =>
        rw [hget] at heq
        simp only [Remote.dsmRpcGet, Bool.false_eq_true, if_false, Option.bind_eq_bind,
          Option.bind_eq_some_iff] at heq
        obtain ⟨_, -, heq⟩ := heq
        cases (Prod.mk.inj (Option.some.inj heq)).1
  · rw [if_neg hsock] at heq
    exact (accessFinish_served (accessInstall_eq h hg hp write false) (hmaps _ _ rfl) rfl rfl heq).2

/-- A served miss, however it came by its frame. -/
theorem dsmAccessPage_served (h : RepInv ∅ s.ctx) {p f : Nat} (hp : p < s.ctx.numVirtualPages)
    (hv : (s.ctx.pageTable p).valid = false) {write : Int32} {rpc : RpcScript}
    (heq : dsmAccessPage s p write rpc = some (some f, s')) : ServedMiss s p f rpc s' := by
  cases hfl : s.ctx.freeList with
  | cons g rest =>
      rw [dsmAccessPage_popped h write rpc hp hv hfl] at heq
      exact accessWithFrame_served (s := ⟨{ s.ctx with freeList := rest }, s.remote⟩)
        (popped_rep h hfl) hp heq
  | nil =>
      obtain ⟨k, hk⟩ := s.ctx.exists_stopsAt
      by_cases hput : s.ctx.NeedsWriteback (s.ctx.clockPage k) → rpc.put = .ok
      · obtain ⟨h₁, hp₁, -⟩ := evictedAt_ready h hfl hk hp hv
        rw [dsmAccessPage_evicted h write rpc hp hv hfl hk hput] at heq
        exact accessWithFrame_served h₁ hp₁ heq
      · rw [Classical.not_imp] at hput
        obtain ⟨hwb, hne⟩ := hput
        cases hout : rpc.put with
        | ok => exact absurd hout hne
        | failed applied =>
            rw [dsmAccessPage_stuck h write rpc hp hv hfl hk hwb hout] at heq
            cases (Prod.mk.inj (Option.some.inj heq)).1

/-- When the code takes a miss for sequential: the latest miss was on the page before, or there was none
yet and the page is page `0`, the successor of `DSM_NO_PAGE`. -/
theorem Observed.Faithful.isSequential_iff {n : Nat} {o : Observed} (h : o.Faithful n) {q : Nat} :
    o.pager.IsSequential q ↔
      (∃ x, o.missed = some x ∧ q = x + 1) ∨ (q = 0 ∧ o.missed = none) := by
  rw [Pager.IsSequential, h.last]
  cases hm : o.missed with
  | none =>
      have hwrap : u32 (dsmNoPage + 1) = 0 := by decide
      simp [hwrap]
  | some x =>
      have hx := h.missed_lt x hm
      have hn := h.rep.numVirtualPages_lt
      have hsucc : u32 (x + 1) = x + 1 := u32_of_lt (by have := h.size; omega)
      simp [hsucc]

end Dsm.Paging
