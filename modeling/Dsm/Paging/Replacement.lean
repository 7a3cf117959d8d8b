import Dsm.Lib.Caching
import Dsm.Paging.Stretch

/-!
# How good the clock is

The clock of `evict_page` knows one bit a page. It is conservative all the same: in a stretch of calls
whose accesses go to at most `num_pages` pages, no page is fetched twice by an access
(`clock_conservative`), so over whole runs the accesses fetch at most `num_pages` times as often as any
policy with the same number of frames has to, even one that knows the future (`clock_competitive`).
-/

namespace Dsm.Paging

open DsmContext Dsm.Lib

variable {ctx : DsmContext} {seen : Finset Nat} {got : List Nat} {x : Nat}

/-! ## What the accesses fetch -/

section Gets

variable {s s' : Pager} {numPages numVirtualPages : Nat}

/-- The page of a GET. -/
def RpcEvent.getId : RpcEvent → Option Nat
  | .get pageId _ => some pageId
  | _ => none

/-- The pages that were asked for with a GET, newest first. -/
def Remote.gets (r : Remote) : List Nat := r.log.filterMap RpcEvent.getId

def Move.gets : Move → List Nat
  | .fetch p _ _ => [p]
  | .fetchFailed p _ _ => [p]
  | _ => []

theorem Move.gets_onRemote (ctx : DsmContext) (r : Remote) (m : Move) :
    (m.onRemote ctx r).gets = m.gets ++ r.gets := by
  cases m with
  | evict q f =>
      rw [Move.onRemote]
      split <;> rfl
  | putFailed q f applied => cases applied <;> rfl
  | _ => rfl

theorem Moves.gets_of_none {w w' : Work} {ms : List Move} (hrun : Moves w ms w')
    (hms : ∀ m ∈ ms, m.gets = []) : w'.pager.remote.gets = w.pager.remote.gets := by
  refine hrun.invariant_of_labels (fun v => v.pager.remote.gets = w.pager.remote.gets)
    (fun m => m.gets = []) ?_ hms rfl
  rintro v m v' hm hv ⟨-, rfl⟩
  show (m.onRemote _ _).gets = _
  rw [Move.gets_onRemote, hm, hv, List.nil_append]

theorem Trailing.gets {last : Nat} {trail : List Move} (h : Trailing last x true trail) :
    ∀ m ∈ trail ++ [Move.remember x], m.gets = [] := by
  have hbrings : ∀ m ∈ trail ++ [Move.remember x], m.Brings := by
    intro m hm
    rcases List.mem_append.mp hm with hm | hm
    · unfold Trailing at h
      split at h
      · obtain ⟨batch, rfl⟩ := h
        exact prefetchMoves_brings batch m hm
      · subst h
        exact absurd hm List.not_mem_nil
    · rw [List.mem_singleton.mp hm]
      trivial
  intro m hm
  have := hbrings m hm
  cases m with
  | fetch | fetchFailed => exact this.elim
  | _ => rfl

theorem FrameMoves.gets {f : Nat} {write : Int32} {rpc : RpcScript} {r : Option Nat} {ms : List Move}
    {w : Work} (hms : FrameMoves ctx x f write rpc r ms) (hfd : 0 ≤ ctx.sockFd)
    (hrpc : rpc.Succeeds) (hrun : Moves w ms ⟨∅, s'⟩) :
    s'.remote.gets = x :: w.pager.remote.gets := by
  obtain ⟨-, hget, hbatch⟩ := hrpc
  cases hms with
  | fetchFailed left hfailed =>
      rw [hget] at hfailed
      cases hfailed
  | served trail hneg => omega
  | fetched trail _ _ htrail =>
      obtain - | ⟨⟨-, rfl⟩, hrest⟩ := hrun
      rw [hbatch] at htrail
      exact (Moves.gets_of_none hrest htrail.gets).trans (Move.gets_onRemote _ _ _)

/-- What a call asks the cache for, and whether the page has to be fetched. -/
def Pager.serves (s : Pager) : Call → Served Nat
  | .access pageId _ _ _ => [(pageId, !(s.ctx.pageTable pageId).valid)]
  | _ => []

/-- An access fetches its page if that is not cached, and no other page. -/
theorem Accessed.gets {write : Int32} {rpc : RpcScript} {r : Option Nat} (hrep : RepInv ∅ s.ctx)
    (hfd : 0 ≤ s.ctx.sockFd) (hrpc : rpc.Succeeds) (hacc : Accessed s x write rpc r s') :
    s'.remote.gets =
      (Served.missed [(x, !(s.ctx.pageTable x).valid)]).reverse ++ s.remote.gets := by
  cases hacc with
  | hit hmaps => simp [hmaps.2.1, Served.missed]
  | popped habsent hfl hrun hms => simpa [habsent, Served.missed] using hms.gets hfd hrpc hrun
  | stuck _ _ _ _ hfailed =>
      rw [hrpc.1] at hfailed
      cases hfailed
  | evicted habsent hfl hk _ hrun hms =>
      have hclock := Moves.gets_of_none (evict_run hrep hfl hk) fun m hm => by
        rcases List.mem_append.mp hm with hm | hm
        · obtain ⟨q, -, rfl⟩ := List.mem_map.mp hm
          rfl
        · rw [List.mem_singleton.mp hm]
          rfl
      have hframe := hms.gets hfd hrpc hrun
      rw [hclock] at hframe
      simpa [habsent, Served.missed] using hframe

/-! ## Calls and runs -/

/-- A call in range whose RPCs succeed, and that leaves the socket alone. -/
def Call.Succeeds (numVirtualPages : Nat) : Call → Prop
  | .access pageId _ _ rpc => pageId < numVirtualPages ∧ rpc.Succeeds
  | .prefetch startPage count ok => startPage < 2 ^ 32 ∧ count < 2 ^ 8 ∧ ok = true
  | .setSocket _ => False

theorem Call.Succeeds.inRange {numVirtualPages : Nat} {c : Call} (h : c.Succeeds numVirtualPages) :
    c.InRange numVirtualPages := by
  cases c with
  | access => exact h.1
  | prefetch => exact ⟨h.1, h.2.1⟩
  | setSocket => exact h.elim

theorem callerChange_clock (ctx : DsmContext) (f : Nat) (write : Int32) (change : Page → Page) :
    (callerChange ctx f write change).clockHand = ctx.clockHand ∧
    (callerChange ctx f write change).freeList = ctx.freeList := by
  unfold callerChange
  split <;> exact ⟨rfl, rfl⟩

/-- In a stretch of calls: `seen` was asked for, `got` was fetched. -/
structure Stretch (numPages numVirtualPages : Nat) (seen : Finset Nat) (got : List Nat) (s : Pager) :
    Prop where
  conn : s.Connected numPages numVirtualPages
  phase : Phase seen got s.ctx
  nodup : got.Nodup

/-- **One call of a stretch.** -/
theorem Stretch.call {c : Call} {res : Seen} (h : Stretch numPages numVirtualPages seen got s)
    (hc : c.Succeeds numVirtualPages) (heq : s.call c = some (res, s'))
    (hcard : (seen ∪ Served.pages (s.serves c)).card ≤ numPages) :
    Stretch numPages numVirtualPages (seen ∪ Served.pages (s.serves c))
        ((Served.missed (s.serves c)).reverse ++ got) s' ∧
      s'.remote.gets = (Served.missed (s.serves c)).reverse ++ s.remote.gets := by
  cases c with
  | setSocket fd => exact hc.elim
  | prefetch startPage count ok =>
      obtain ⟨hstart, -, rfl⟩ := hc
      obtain ⟨s₁, batch, hpre, hrun, -⟩ := dsmPrefetchPages_run h.conn.rep hstart count true
      rw [Pager.call, hpre] at heq
      obtain ⟨-, rfl⟩ := Prod.mk.inj (Option.some.inj heq)
      refine ⟨⟨h.conn.moves hrun, ?_, h.nodup⟩, ?_⟩
      · exact (h.phase.prefetch hrun).ask Finset.subset_union_left
      · refine Moves.gets_of_none hrun fun m hm => ?_
        have := prefetchMoves_brings batch m hm
        cases m with
        | fetch | fetchFailed => exact this.elim
        | _ => rfl
  | access x write change rpc =>
      obtain ⟨hx, hrpc⟩ := hc
      obtain ⟨r, s₁, hacc, hcall⟩ := call_accessed h.conn.rep (h.conn.pages.symm ▸ hx) write change rpc
      obtain ⟨f, rfl⟩ := hacc.isSome hrpc
      obtain ⟨-, rfl⟩ := Prod.mk.inj (Option.some.inj (hcall.symm.trans heq))
      obtain ⟨ms, hrun, -⟩ := hacc.run h.conn.rep
      have hconn := h.conn.moves hrun
      have hmem : x ∈ seen ∪ Served.pages (s.serves (.access x write change rpc)) := by
        simp [Pager.serves, Served.pages]
      have hphase := (h.phase.ask Finset.subset_union_left).accessed hmem
        (h.conn.frames.symm ▸ hcard) h.conn.socket hrpc hacc
      have hrep := hconn.rep.callerChange f write change
      obtain ⟨hnp, hnv, -⟩ := callerChange_sizes s₁.ctx f write change
      have hkeep : ∀ {got}, Phase (seen ∪ Served.pages (s.serves (.access x write change rpc))) got
          s₁.ctx → Phase _ got (callerChange s₁.ctx f write change) := fun hphase =>
        hphase.congr hrep (callerChange_pageTable ..) hnp hnv (callerChange_clock ..).1
          (callerChange_clock ..).2
      have hgets := hacc.gets h.conn.rep h.conn.socket hrpc
      refine ⟨⟨hconn.callerChange f write change, ?_, ?_⟩, hgets⟩
      · rcases hphase with ⟨hv, hphase⟩ | ⟨hv, -, hphase⟩
        · simpa [Pager.serves, Served.missed, hv] using hkeep hphase
        · simpa [Pager.serves, Served.missed, hv] using hkeep hphase
      · rcases hphase with ⟨hv, -⟩ | ⟨hv, hnew, -⟩
        · simpa [Pager.serves, Served.missed, hv] using h.nodup
        · simpa [Pager.serves, Served.missed, hv] using ⟨hnew, h.nodup⟩

/-- The requests of a run, in their order. -/
def Pager.served (s : Pager) : List Call → Served Nat
  | [] => []
  | c :: calls => s.serves c ++
      match s.call c with
      | none => []
      | some (_, s') => s'.served calls

theorem Pager.served_cons {c : Call} {res : Seen} (heq : s.call c = some (res, s'))
    (calls : List Call) : s.served (c :: calls) = s.serves c ++ s'.served calls := by
  rw [Pager.served, heq]

theorem Pager.run_cons_inv {c : Call} {calls : List Call} {res : List Seen}
    (h : s.run (c :: calls) = some (res, s')) :
    ∃ r s₁ rest, s.call c = some (r, s₁) ∧ s₁.run calls = some (rest, s') ∧ res = r :: rest := by
  simp only [Pager.run, Option.bind_eq_bind, Option.bind_eq_some_iff] at h
  obtain ⟨⟨r, s₁⟩, hc, ⟨rest, s₂⟩, hrest, heq⟩ := h
  obtain ⟨rfl, rfl⟩ := Prod.mk.inj (Option.some.inj heq)
  exact ⟨r, s₁, rest, hc, hrest, rfl⟩

/-- **A whole stretch.** -/
theorem Stretch.run {calls : List Call} : ∀ {s : Pager} {seen : Finset Nat} {got : List Nat}
    {res : List Seen}, Stretch numPages numVirtualPages seen got s →
    (∀ c ∈ calls, c.Succeeds numVirtualPages) → s.run calls = some (res, s') →
    (seen ∪ Served.pages (s.served calls)).card ≤ numPages →
    Stretch numPages numVirtualPages (seen ∪ Served.pages (s.served calls))
        ((Served.missed (s.served calls)).reverse ++ got) s' ∧
      s'.remote.gets = (Served.missed (s.served calls)).reverse ++ s.remote.gets := by
  induction calls with
  | nil =>
      rintro s seen got res h - ⟨⟩ -
      exact ⟨⟨h.conn, h.phase.ask Finset.subset_union_left, h.nodup⟩, rfl⟩
  | cons c calls ih =>
      intro s seen got res h hcalls heq hcard
      obtain ⟨r, s₁, rest, hcall, hrest, rfl⟩ := Pager.run_cons_inv heq
      rw [Pager.served_cons hcall, Served.pages_append, ← Finset.union_assoc] at hcard ⊢
      obtain ⟨h₁, hgets₁⟩ := h.call (hcalls c List.mem_cons_self) hcall
        ((Finset.card_le_card Finset.subset_union_left).trans hcard)
      obtain ⟨h', hgets⟩ := ih h₁ (fun c hc => hcalls c (List.mem_cons_of_mem _ hc)) hrest hcard
      rw [Served.missed_append, List.reverse_append, List.append_assoc, List.append_assoc,
        ← hgets₁]
      exact ⟨h', hgets⟩

theorem Pager.card_serves_le (s : Pager) (c : Call) : (∅ ∪ Served.pages (s.serves c)).card ≤ 1 := by
  rw [Finset.empty_union]
  cases c <;> exact Nat.le_of_ble_eq_true rfl

theorem Stretch.restart (h : Stretch numPages numVirtualPages seen got s) :
    Stretch numPages numVirtualPages ∅ [] s :=
  ⟨h.conn, h.phase.forget, List.nodup_nil⟩

/-- A stretch can begin after any calls, and the accesses of these have fetched what they missed. -/
theorem Stretch.after {calls : List Call} (hpos : 1 ≤ numPages) : ∀ {s : Pager} {res : List Seen},
    Stretch numPages numVirtualPages ∅ [] s → (∀ c ∈ calls, c.Succeeds numVirtualPages) →
    s.run calls = some (res, s') → Stretch numPages numVirtualPages ∅ [] s' ∧
      s'.remote.gets = (Served.missed (s.served calls)).reverse ++ s.remote.gets := by
  induction calls with
  | nil =>
      rintro s res h - ⟨⟩
      exact ⟨h, rfl⟩
  | cons c calls ih =>
      intro s res h hcalls heq
      obtain ⟨r, s₁, rest, hcall, hrest, rfl⟩ := Pager.run_cons_inv heq
      obtain ⟨h₁, hgets₁⟩ := h.call (hcalls c List.mem_cons_self) hcall
        ((s.card_serves_le c).trans hpos)
      obtain ⟨h', hgets⟩ := ih h₁.restart (fun c hc => hcalls c (List.mem_cons_of_mem _ hc)) hrest
      rw [Pager.served_cons hcall, Served.missed_append, List.reverse_append, List.append_assoc,
        ← hgets₁]
      exact ⟨h', hgets⟩

/-- A context that was just created and connected. -/
theorem Stretch.fresh (hpos : 1 ≤ numPages) (hnp : numPages < 2 ^ 32)
    (hnv : numVirtualPages < 2 ^ 32) {fd : Int} (hfd : 0 ≤ fd) (remote : Remote) :
    Stretch numPages numVirtualPages ∅ []
      ⟨dsmContextSetSocket (dsmCreateContext numPages numVirtualPages) fd, remote⟩ := by
  have hrep := RepInv.connect hpos hnp hnv fd
  refine ⟨⟨hrep, hfd, rfl, rfl⟩, .inl ⟨hrep, rfl, ⟨0, ?_⟩, ?_, ?_⟩, List.nodup_nil⟩
  · exact List.range_eq_range'
  · exact fun _ hp => absurd hp List.not_mem_nil
  · exact fun _ hp => absurd hp List.not_mem_nil

/-- The pages the calls access, in their order. -/
def accessedPages (calls : List Call) : List Nat :=
  calls.filterMap fun
    | .access pageId _ _ _ => some pageId
    | _ => none

theorem Pager.served_pages {calls : List Call} : ∀ {s : Pager} {res : List Seen},
    s.run calls = some (res, s') → (s.served calls).map Prod.fst = accessedPages calls := by
  induction calls with
  | nil => exact fun _ => rfl
  | cons c calls ih =>
      intro s res heq
      obtain ⟨r, s₁, rest, hcall, hrest, rfl⟩ := Pager.run_cons_inv heq
      rw [Pager.served_cons hcall, List.map_append, ih hrest]
      cases c <;> rfl

/-- Where the requests of a run are cut, its calls can be cut. -/
theorem Pager.served_split {calls : List Call} : ∀ {s : Pager} {res : List Seen}
    {as bs : Served Nat}, s.run calls = some (res, s') → s.served calls = as ++ bs →
    ∃ first second s₁ res₁ res₂, calls = first ++ second ∧ s.run first = some (res₁, s₁) ∧
      s₁.run second = some (res₂, s') ∧ s.served first = as ∧ s₁.served second = bs := by
  induction calls with
  | nil =>
      rintro s res as bs ⟨⟩ hsplit
      obtain ⟨rfl, rfl⟩ := List.nil_eq_append_iff.mp hsplit
      exact ⟨[], [], s', [], [], rfl, rfl, rfl, rfl, rfl⟩
  | cons c calls ih =>
      intro s res as bs heq hsplit
      obtain ⟨r, s₁, rest, hcall, hrest, rfl⟩ := Pager.run_cons_inv heq
      have hserved := Pager.served_cons hcall
      -- The cut comes after the request of the first call.
      have hlater : ∀ as', s₁.served calls = as' ++ bs → s.serves c ++ as' = as →
          ∃ first second s₂ res₁ res₂, c :: calls = first ++ second ∧
            s.run first = some (res₁, s₂) ∧ s₂.run second = some (res₂, s') ∧
            s.served first = as ∧ s₂.served second = bs := by
        intro as' hcut has
        obtain ⟨first, second, s₂, res₁, res₂, rfl, hfirst, hsecond, hserved₁, hserved₂⟩ :=
          ih hrest hcut
        refine ⟨c :: first, second, s₂, r :: res₁, res₂, rfl, Pager.run_cons hcall hfirst, hsecond,
          ?_, hserved₂⟩
        rw [hserved, hserved₁, has]
      rw [hserved] at hsplit
      cases c with
      | access p write change rpc =>
          cases as with
          | nil =>
              exact ⟨[], _, s, [], _, rfl, rfl, heq, rfl, (hserved calls).trans hsplit⟩
          | cons a as =>
              obtain ⟨rfl, hcut⟩ := List.cons.inj hsplit
              exact hlater as hcut rfl
      | prefetch | setSocket => exact hlater as hsplit rfl

/-- In a stretch of requests for at most `num_pages` pages, each is a fault at most once. -/
theorem Stretch.conservative {calls : List Call} {res : List Seen} (hpos : 1 ≤ numPages)
    (h : Stretch numPages numVirtualPages ∅ [] s) (hcalls : ∀ c ∈ calls, c.Succeeds numVirtualPages)
    (hrun : s.run calls = some (res, s')) : Conservative numPages (s.served calls) := by
  rintro stretch ⟨as, bs, hcut⟩ hcard
  obtain ⟨first, others, s₁, _, _, rfl, hfirst, hothers, -, hserved⟩ :=
    Pager.served_split hrun (hcut.symm.trans (List.append_assoc as stretch bs))
  obtain ⟨second, _, s₂, _, _, rfl, hsecond, -, rfl, -⟩ := Pager.served_split hothers hserved
  obtain ⟨h₁, -⟩ := h.after hpos (fun c hc => hcalls c (by simp [hc])) hfirst
  rw [← Finset.empty_union (Served.pages _)] at hcard
  obtain ⟨h₂, -⟩ := h₁.run (fun c hc => hcalls c (by simp [hc])) hsecond hcard
  have hnodup := h₂.nodup
  have hsub := h₂.phase.asked
  rw [List.append_nil] at hnodup hsub
  calc Served.faults (s₁.served second)
      = (Served.missed (s₁.served second)).reverse.length := by
        rw [List.length_reverse, Served.length_missed]
    _ = (Served.missed (s₁.served second)).reverse.toFinset.card :=
        (List.toFinset_card_of_nodup hnodup).symm
    _ ≤ (∅ ∪ Served.pages (s₁.served second)).card :=
        Finset.card_le_card fun p hp => hsub p (List.mem_toFinset.mp hp)
    _ ≤ numPages := hcard

end Gets

/-! ## The two results -/

section Results

variable {numPages numVirtualPages : Nat}

/-- **The clock is conservative.** Any calls, then a stretch of calls whose accesses go to at most
`num_pages` pages: whatever was cached and wherever the hand was, in the stretch no page is fetched
twice, and only pages that it accesses are. -/
theorem clock_conservative (hpos : 1 ≤ numPages) (hnp : numPages < 2 ^ 32)
    (hnv : numVirtualPages < 2 ^ 32) {fd : Int} (hfd : 0 ≤ fd) (store : Nat → Page)
    (before stretch : List Call) (hbefore : ∀ c ∈ before, c.Succeeds numVirtualPages)
    (hstretch : ∀ c ∈ stretch, c.Succeeds numVirtualPages)
    (hfits : (accessedPages stretch).toFinset.card ≤ numPages) :
    ∃ res s res' s' fetched,
      Pager.run ⟨dsmContextSetSocket (dsmCreateContext numPages numVirtualPages) fd, ⟨store, []⟩⟩
        before = some (res, s) ∧
      s.run stretch = some (res', s') ∧ s'.remote.gets = fetched ++ s.remote.gets ∧
      fetched.Nodup ∧ fetched ⊆ accessedPages stretch := by
  have hfresh := Stretch.fresh hpos hnp hnv hfd ⟨store, []⟩
  obtain ⟨res, s, hrun, -⟩ := Pager.run_inv before hfresh.conn.rep
    fun c hc => (hbefore c hc).inRange
  obtain ⟨h, -⟩ := hfresh.after hpos hbefore hrun
  obtain ⟨res', s', hrun', -⟩ := Pager.run_inv stretch h.conn.rep fun c hc => by
    rw [h.conn.pages]
    exact (hstretch c hc).inRange
  have hpages : ∅ ∪ Served.pages (s.served stretch) = (accessedPages stretch).toFinset := by
    rw [Finset.empty_union, Served.pages, Pager.served_pages hrun']
  obtain ⟨h', hgets⟩ := h.run hstretch hrun' (hpages ▸ hfits)
  have hnodup := h'.nodup
  have hsub := h'.phase.asked
  rw [List.append_nil] at hnodup hsub
  refine ⟨res, s, res', s', _, hrun, hrun', hgets, hnodup, fun p hp => ?_⟩
  exact List.mem_toFinset.mp (hpages ▸ hsub p hp)

/-- Two frames: the page the hand finds first goes for the first page of the stretch, and then the
stretch has its two pages. -/
theorem clock_conservative_two_frames : ∃ res s res' s' fetched,
    Pager.run ⟨dsmContextSetSocket (dsmCreateContext 2 4) 5, ⟨fun _ => zeroPage, []⟩⟩
        [.access 0 1 id ⟨.ok, .ok, true⟩, .access 1 0 id ⟨.ok, .ok, true⟩] = some (res, s) ∧
      s.run [.access 2 0 id ⟨.ok, .ok, true⟩, .access 1 0 id ⟨.ok, .ok, true⟩, .prefetch 3 1 true,
        .access 2 0 id ⟨.ok, .ok, true⟩, .access 1 1 id ⟨.ok, .ok, true⟩] = some (res', s') ∧
      s'.remote.gets = fetched ++ s.remote.gets ∧ fetched.Nodup ∧ fetched ⊆ [2, 1, 2, 1] := by
  refine clock_conservative (by decide) (by decide) (by decide) (by decide) _ _ _ ?_ ?_ ?_
  · simp [Call.Succeeds, RpcScript.Succeeds]
  · simp [Call.Succeeds, RpcScript.Succeeds]
  · decide

/-- **The clock is competitive.** Over a whole run the accesses fetch at most `num_pages` times as many
pages as any policy must that serves the same accesses from `num_pages` frames. -/
theorem clock_competitive (hpos : 1 ≤ numPages) (hnp : numPages < 2 ^ 32)
    (hnv : numVirtualPages < 2 ^ 32) {fd : Int} (hfd : 0 ≤ fd) (store : Nat → Page)
    (calls : List Call) (hcalls : ∀ c ∈ calls, c.Succeeds numVirtualPages) {faults : Nat}
    (hserves : Serves numPages ∅ (accessedPages calls) faults) :
    ∃ res s,
      Pager.run ⟨dsmContextSetSocket (dsmCreateContext numPages numVirtualPages) fd, ⟨store, []⟩⟩
        calls = some (res, s) ∧ s.remote.gets.length ≤ numPages * faults := by
  have hfresh := Stretch.fresh hpos hnp hnv hfd ⟨store, []⟩
  obtain ⟨res, s, hrun, -⟩ := Pager.run_inv calls hfresh.conn.rep fun c hc => (hcalls c hc).inRange
  obtain ⟨-, hgets⟩ := hfresh.after hpos hcalls hrun
  refine ⟨res, s, hrun, ?_⟩
  have hle := (hfresh.conservative hpos hcalls hrun).competitive hpos
    ((Pager.served_pages hrun).symm ▸ hserves)
  rw [hgets, List.length_append, List.length_reverse, Served.length_missed]
  exact hle

/-- One frame: everybody fetches three times. -/
theorem clock_competitive_one_frame : ∃ res s,
    Pager.run ⟨dsmContextSetSocket (dsmCreateContext 1 3) 5, ⟨fun _ => zeroPage, []⟩⟩
        [.access 0 0 id ⟨.ok, .ok, true⟩, .prefetch 0 3 true, .access 2 1 id ⟨.ok, .ok, true⟩,
          .access 2 0 id ⟨.ok, .ok, true⟩, .access 0 0 id ⟨.ok, .ok, true⟩] = some (res, s) ∧
      s.remote.gets.length ≤ 1 * 3 := by
  refine clock_competitive (by decide) (by decide) (by decide) (by decide) _ _ ?_ ?_
  · simp [Call.Succeeds, RpcScript.Succeeds]
  · show Serves 1 ∅ [0, 2, 2, 0] 3
    have h₀ := Finset.mem_singleton_self 0
    have h₂ := Finset.mem_singleton_self 2
    exact .fault (by decide) h₀ (by decide) (by decide) (.fault (by decide) h₂ (by decide) (by decide)
      (.hit h₂ h₂ (by decide) (.fault (by decide) h₀ (by decide) (by decide) (.nil _))))

end Results

end Dsm.Paging
