import Dsm.Paging.Transparency
import Dsm.Server.Handler

/-!
# Several clients, one server

Each client runs `dsm_paging.c` over its own context; the server handles one page request at a time.
Calls of different clients overlap, so a call is cut here at its requests: a client takes a *turn*,
in which the server handles at most one request of this client, and between two turns the other
clients take any number of theirs. An access that misses is a turn up to its GET (with the PUT of an
eviction, if there is one), the turn of the GET, and then, if it prefetches, a turn for each GET of
the batch and one that installs the pages. All RPCs succeed.

The turns are made of the same pieces as the calls of `Paging/Basic.lean`, and taken one right after
the other they are those calls (`turns_access`, `turns_prefetch`). The trace of a run records what
the server handled and what the callers saw and wrote.
-/

namespace Dsm.Paging

open DsmContext Dsm.Lib

/-- An access under way: the arguments, and the frame the page will be in. -/
structure Access where
  pageId : Nat
  frame : Nat
  write : Int32
  change : Page → Page

/-- Where a client is. In a prefetch, `got` are the pages of the batch that the server has sent and
`todo` those it has not handled yet; `next` is the access that prefetches at its end. -/
inductive Doing
  | idle
  | fetching (a : Access)
  | prefetching (got : List ((Nat × Nat) × Page)) (todo : List (Nat × Nat)) (next : Option Access)

structure Client where
  ctx : DsmContext
  doing : Doing

/-- What happens at the server (`put`, `get`) and between a client and its caller. -/
inductive Event (κ : Type)
  | put (client : κ) (pageId : Nat) (data : Page)
  | get (client : κ) (pageId : Nat) (data : Page)
  | read (client : κ) (pageId : Nat) (data : Page)
  | write (client : κ) (pageId : Nat) (data : Page)

inductive Turn
  | access (pageId : Nat) (write : Int32) (change : Page → Page)
  | prefetch (startPage count : Nat)
  | get
  | batchGet
  | commit

variable {κ : Type}

/-! ## The turns of one client -/

/-- The call returns the page: the caller reads it, and changes it if it asked for writing. -/
def handOver (k : κ) (ctx : DsmContext) (a : Access) : Client × List (Event κ) :=
  (⟨callerChange ctx a.frame a.write a.change, .idle⟩,
    .read k a.pageId (ctx.localMemory a.frame) ::
      if a.write = 0 then [] else [.write k a.pageId (a.change (ctx.localMemory a.frame))])

/-- The end of a prefetch, and of the access that made it. -/
def finish (k : κ) (ctx : DsmContext) : Option Access → Client × List (Event κ)
  | none => (⟨ctx, .idle⟩, [])
  | some a => handOver k { ctx with lastPageId := a.pageId } a

/-- The PUTs among the requests of a turn. -/
def putEvents (k : κ) (log : List RpcEvent) : List (Event κ) :=
  log.reverse.filterMap fun
    | .put pageId data _ => some (.put k pageId data)
    | _ => none

/-- `dsm_access_page` up to its GET. -/
def beginAccess (k : κ) (ctx : DsmContext) (store : Nat → Page) (pageId : Nat) (write : Int32)
    (change : Page → Page) : Option (Client × (Nat → Page) × List (Event κ)) := do
  let entry ← ctx.entryAt pageId
  if entry.valid then
    let frame ← (ctx.frameAt entry.frameNumber).map fun _ => entry.frameNumber
    let (c, events) := handOver k (accessHit ctx pageId entry write) ⟨pageId, frame, write, change⟩
    return (c, store, events)
  else
    let (frame, ctx) := ctx.getFreeFrame
    if frame = dsmNoFrame then
      let (frame, s) ← evictPage (ctx.numPages + 1) ⟨ctx, ⟨store, []⟩⟩ .ok
      let doing := if frame = dsmNoFrame then .idle else .fetching ⟨pageId, frame, write, change⟩
      return (⟨s.ctx, doing⟩, s.remote.store, putEvents k s.remote.log)
    else
      return (⟨ctx, .fetching ⟨pageId, frame, write, change⟩⟩, store, [])

/-- `dsm_prefetch_pages` up to its requests. -/
def beginPrefetch (k : κ) (ctx : DsmContext) (startPage count : Nat) (next : Option Access) :
    Option (Client × List (Event κ)) := do
  let (batch, ctx) ← prefetchCollect startPage count 0 ctx []
  if batch.isEmpty then
    return finish k ctx next
  else
    return (⟨ctx, .prefetching [] batch next⟩, [])

/-- The GET of an access and what follows it. -/
def fetchPage (k : κ) (ctx : DsmContext) (store : Nat → Page) (a : Access) :
    Option (Client × List (Event κ)) := do
  let ctx := ctx.setMemory a.frame (store a.pageId)
  let ctx := { ctx with remoteFetches := u64 (ctx.remoteFetches + 1) }
  let ctx ← accessInstall ctx a.pageId a.frame a.write true
  let (c, events) ← if a.pageId = u32 (ctx.lastPageId + 1) then
      beginPrefetch k ctx (u32 (a.pageId + 1)) ctx.prefetchCount (some a)
    else some (finish k ctx (some a))
  return (c, .get k a.pageId (store a.pageId) :: events)

/-- One turn: the client and the server's pages afterwards, and what happened. -/
def Client.turn (k : κ) (c : Client) (store : Nat → Page) :
    Turn → Option (Client × (Nat → Page) × List (Event κ))
  | .access pageId write change =>
      match c.doing with
      | .idle => beginAccess k c.ctx store pageId write change
      | _ => none
  | .prefetch startPage count =>
      match c.doing with
      | .idle => (beginPrefetch k c.ctx startPage count none).map fun (c, events) =>
          (c, store, events)
      | _ => none
  | .get =>
      match c.doing with
      | .fetching a => (fetchPage k c.ctx store a).map fun (c, events) => (c, store, events)
      | _ => none
  | .batchGet =>
      match c.doing with
      | .prefetching got ((p, f) :: todo) next =>
          some (⟨c.ctx, .prefetching (got ++ [((p, f), store p)]) todo next⟩, store,
            [.get k p (store p)])
      | _ => none
  | .commit =>
      match c.doing with
      | .prefetching got [] next =>
          (prefetchCommit (got.map Prod.fst) (got.map Prod.snd) c.ctx).map fun ctx =>
            let (c, events) := finish k ctx next
            (c, store, events)
      | _ => none

/-- Turns of one client with no other client in between. -/
def Client.turns (k : κ) : Client → (Nat → Page) → List Turn →
    Option (Client × (Nat → Page) × List (Event κ))
  | c, store, [] => some (c, store, [])
  | c, store, t :: ts => do
    let (c, store, events) ← c.turn k store t
    let (c, store, rest) ← Client.turns k c store ts
    return (c, store, events ++ rest)

/-! ## Turns taken one right after the other -/

theorem turns_cons (k : κ) {c c' c'' : Client} {store store' store'' : Nat → Page} {t : Turn}
    {ts : List Turn} {events events' : List (Event κ)}
    (h : c.turn k store t = some (c', store', events))
    (h' : Client.turns k c' store' ts = some (c'', store'', events')) :
    Client.turns k c store (t :: ts) = some (c'', store'', events ++ events') := by
  simp [Client.turns, h, h']

theorem turns_append (k : κ) {c' c'' : Client} {store' store'' : Nat → Page} {us : List Turn}
    {events' : List (Event κ)} (h' : Client.turns k c' store' us = some (c'', store'', events'))
    (ts : List Turn) : ∀ {c : Client} {store : Nat → Page} {events : List (Event κ)},
      Client.turns k c store ts = some (c', store', events) →
      Client.turns k c store (ts ++ us) = some (c'', store'', events ++ events') := by
  induction ts with
  | nil =>
      intro c store events h
      simp only [Client.turns, Option.some.injEq, Prod.mk.injEq] at h
      obtain ⟨rfl, rfl, rfl⟩ := h
      exact h'
  | cons t ts ih =>
      intro c store events h
      simp only [Client.turns, Option.bind_eq_bind, Option.bind_eq_some_iff] at h
      obtain ⟨⟨c₁, store₁, events₁⟩, hturn, ⟨c₂, store₂, rest⟩, hturns, heq⟩ := h
      simp only [Option.pure_def, Option.some.injEq, Prod.mk.injEq] at heq
      obtain ⟨rfl, rfl, rfl⟩ := heq
      rw [List.append_assoc]
      exact turns_cons k hturn (ih hturns)

/-- The batch is the server's content, if nobody interferes. -/
theorem turns_batch (k : κ) (ctx : DsmContext) (store : Nat → Page) (next : Option Access)
    (todo : List (Nat × Nat)) : ∀ got : List ((Nat × Nat) × Page),
      Client.turns k ⟨ctx, .prefetching got todo next⟩ store (.replicate todo.length .batchGet) =
        some (⟨ctx, .prefetching (got ++ todo.map fun x => (x, store x.1)) [] next⟩, store,
          todo.map fun x => .get k x.1 (store x.1)) := by
  induction todo with
  | nil => simp [Client.turns]
  | cons x todo ih =>
      intro got
      have hrest := ih (got ++ [(x, store x.1)])
      rw [List.append_assoc] at hrest
      have hget : (⟨ctx, .prefetching got (x :: todo) next⟩ : Client).turn k store .batchGet =
          some (⟨ctx, .prefetching (got ++ [(x, store x.1)]) todo next⟩, store,
            [.get k x.1 (store x.1)]) := rfl
      exact turns_cons k hget hrest

/-- `dsm_prefetch_pages`, alone or at the end of an access. -/
theorem beginPrefetch_turns (k : κ) {ctx : DsmContext} {r : Remote} {startPage count : Nat}
    {s' : Pager} (h : dsmPrefetchPages ⟨ctx, r⟩ startPage count true = some s')
    (next : Option Access) :
    s'.remote.store = r.store ∧ ∃ c events ts events',
      beginPrefetch k ctx startPage count next = some (c, events) ∧
      Client.turns k c r.store ts = some ((finish k s'.ctx next).1, r.store, events') ∧
      (finish k s'.ctx next).2 <:+ events ++ events' := by
  simp only [dsmPrefetchPages, Option.bind_eq_bind, Option.bind_eq_some_iff] at h
  obtain ⟨⟨batch, ctx'⟩, hcollect, h⟩ := h
  cases batch with
  | nil =>
      obtain rfl := Option.some.inj h
      refine ⟨rfl, (finish k ctx' next).1, (finish k ctx' next).2, [], [], ?_, rfl, ?_⟩
      · rw [beginPrefetch, hcollect]
        rfl
      · rw [List.append_nil]
  | cons x batch =>
      simp only [List.isEmpty_cons, Bool.false_eq_true, if_false, Remote.dsmRpcGetBatch, if_true,
        Option.bind_eq_some_iff] at h
      obtain ⟨ctx'', hcommit, hs'⟩ := h
      obtain rfl := Option.some.inj hs'
      have hturn : Client.turns k
          ⟨ctx', .prefetching ((x :: batch).map fun y => (y, r.store y.1)) [] next⟩ r.store [.commit] =
          some ((finish k ctx'' next).1, r.store, (finish k ctx'' next).2) := by
        have hfst : ((x :: batch).map fun y => (y, r.store y.1)).map Prod.fst = x :: batch := by
          rw [List.map_map]
          exact List.map_id _
        have hsnd : ((x :: batch).map fun y => (y, r.store y.1)).map Prod.snd =
            ((x :: batch).map Prod.fst).map r.store := by
          rw [List.map_map, List.map_map]
          rfl
        simp only [Client.turns, Client.turn, hfst, hsnd, hcommit]
        simp
      refine ⟨rfl, ⟨ctx', .prefetching [] (x :: batch) next⟩, [],
        .replicate (x :: batch).length .batchGet ++ [.commit], _,
        by rw [beginPrefetch, hcollect]; rfl,
        turns_append k hturn _ (turns_batch k ctx' r.store next (x :: batch) []), ?_⟩
      rw [List.nil_append]
      exact List.suffix_append _ _

/-- **A prefetch** with no other client in between. -/
theorem turns_prefetch (k : κ) {ctx : DsmContext} {r : Remote} {startPage count : Nat} {s' : Pager}
    (h : dsmPrefetchPages ⟨ctx, r⟩ startPage count true = some s') :
    ∃ ts events, Client.turns k ⟨ctx, .idle⟩ r.store (.prefetch startPage count :: ts) =
      some (⟨s'.ctx, .idle⟩, s'.remote.store, events) := by
  obtain ⟨hstore, c, events, ts, events', hbegin, hrest, -⟩ := beginPrefetch_turns k h none
  refine ⟨ts, events ++ events', ?_⟩
  rw [hstore]
  refine turns_cons k ?_ hrest
  simp [Client.turn, hbegin]

/-- The part of an access from its GET on. -/
theorem accessWithFrame_turns (k : κ) {s s' : Pager} {p f : Nat} {write : Int32} {r : Option Nat}
    (hfd : 0 ≤ s.ctx.sockFd)
    (h : accessWithFrame s p f write ⟨.ok, .ok, true⟩ = some (r, s')) (change : Page → Page) :
    r = some f ∧ ∃ ts events,
      Client.turns k ⟨s.ctx, .fetching ⟨p, f, write, change⟩⟩ s.remote.store (.get :: ts) =
        some (⟨callerChange s'.ctx f write change, .idle⟩, s'.remote.store, events) ∧
      .read k p (s'.ctx.localMemory f) ∈ events := by
  rw [accessWithFrame, if_pos hfd] at h
  simp only [Remote.dsmRpcGet, if_true, accessFinish, Option.bind_eq_bind,
    Option.bind_eq_some_iff] at h
  obtain ⟨ctx₁, hinstall, h⟩ := h
  have hread : ∀ ctx : DsmContext,
      .read k p (ctx.localMemory f) ∈ (finish k ctx (some ⟨p, f, write, change⟩)).2 :=
    fun _ => List.mem_cons_self
  split at h
  · next hseq =>
    obtain ⟨s₂, hprefetch, heq⟩ := Option.bind_eq_some_iff.mp h
    obtain ⟨rfl, rfl⟩ := Prod.mk.inj (Option.some.inj heq)
    obtain ⟨hstore, c, events, ts, events', hbegin, hrest, hsuffix⟩ :=
      beginPrefetch_turns k hprefetch (some ⟨p, f, write, change⟩)
    have hturn : (⟨s.ctx, .fetching ⟨p, f, write, change⟩⟩ : Client).turn k s.remote.store .get =
        some (c, s.remote.store, .get k p (s.remote.store p) :: events) := by
      simp only [Client.turn, fetchPage, Option.bind_eq_bind, hinstall, Option.bind_some,
        if_pos hseq, hbegin]
      rfl
    refine ⟨rfl, ts, .get k p (s.remote.store p) :: events ++ events', ?_,
      List.mem_cons_of_mem _ (hsuffix.subset (hread _))⟩
    rw [hstore]
    exact turns_cons k hturn hrest
  · next hseq =>
    obtain ⟨rfl, rfl⟩ := Prod.mk.inj (Option.some.inj h)
    have hturn : (⟨s.ctx, .fetching ⟨p, f, write, change⟩⟩ : Client).turn k s.remote.store .get =
        some ((finish k ctx₁ (some ⟨p, f, write, change⟩)).1, s.remote.store,
          .get k p (s.remote.store p) :: (finish k ctx₁ (some ⟨p, f, write, change⟩)).2) := by
      simp only [Client.turn, fetchPage, Option.bind_eq_bind, hinstall, Option.bind_some,
        if_neg hseq]
      rfl
    exact ⟨rfl, [], _, turns_cons k hturn rfl,
      List.mem_append_left _ (List.mem_cons_of_mem _ (hread _))⟩

/-- An access that hits is one turn. -/
theorem beginAccess_hit (k : κ) {ctx : DsmContext} {p : Nat} (hp : p < ctx.numVirtualPages)
    (hv : (ctx.pageTable p).valid = true) (hlt : (ctx.pageTable p).frameNumber < ctx.numPages)
    (store : Nat → Page) (write : Int32) (change : Page → Page) :
    beginAccess k ctx store p write change =
      some ((handOver k (accessHit ctx p (ctx.pageTable p) write)
        ⟨p, (ctx.pageTable p).frameNumber, write, change⟩).1, store,
        (handOver k (accessHit ctx p (ctx.pageTable p) write)
          ⟨p, (ctx.pageTable p).frameNumber, write, change⟩).2) := by
  simp [beginAccess, entryAt_of_lt hp, hv, frameAt_of_lt hlt]

/-- An access that found no free frame begins with an eviction. -/
theorem beginAccess_evict (k : κ) {ctx : DsmContext} {p : Nat} (hp : p < ctx.numVirtualPages)
    (hv : (ctx.pageTable p).valid = false) (hfl : ctx.freeList = []) {store : Nat → Page} {f : Nat}
    {s : Pager} (hevict : evictPage (ctx.numPages + 1) ⟨ctx, ⟨store, []⟩⟩ .ok = some (f, s))
    (write : Int32) (change : Page → Page) :
    beginAccess k ctx store p write change =
      some (⟨s.ctx, if f = dsmNoFrame then .idle else .fetching ⟨p, f, write, change⟩⟩,
        s.remote.store, putEvents k s.remote.log) := by
  simp [beginAccess, entryAt_of_lt hp, hv, getFreeFrame, hfl, hevict]

/-- An access that takes a free frame goes on with its GET. -/
theorem beginAccess_take (k : κ) {ctx : DsmContext} {p : Nat} (hp : p < ctx.numVirtualPages)
    (hv : (ctx.pageTable p).valid = false) {f : Nat} {rest : List Nat}
    (hfl : ctx.freeList = f :: rest) (hf : f ≠ dsmNoFrame) (store : Nat → Page) (write : Int32)
    (change : Page → Page) :
    beginAccess k ctx store p write change =
      some (⟨{ ctx with freeList := rest }, .fetching ⟨p, f, write, change⟩⟩, store, []) := by
  simp [beginAccess, entryAt_of_lt hp, hv, getFreeFrame, hfl, hf]

/-- However a miss found its frame, it goes on with its GET. -/
theorem turns_with_frame (k : κ) {c : Client} {store : Nat → Page} {t : Turn} {v s₂ : Pager}
    {p f : Nat} {write : Int32} {change : Page → Page} {r : Option Nat} {seen : Seen} {s' : Pager}
    {before : List (Event κ)} (hfd : 0 ≤ v.ctx.sockFd)
    (hwith : accessWithFrame v p f write ⟨.ok, .ok, true⟩ = some (r, s₂))
    (hturn : c.turn k store t =
      some (⟨v.ctx, .fetching ⟨p, f, write, change⟩⟩, v.remote.store, before))
    (hreturn : ∀ frame, r = some frame → seen = some (s₂.ctx.localMemory frame) ∧
      s' = { s₂ with ctx := callerChange s₂.ctx frame write change }) :
    ∃ ts events, Client.turns k c store (t :: ts) =
        some (⟨s'.ctx, .idle⟩, s'.remote.store, events) ∧
      ∀ data, seen = some data → .read k p data ∈ events := by
  obtain ⟨rfl, ts, events, hrest, hread⟩ := accessWithFrame_turns k hfd hwith change
  obtain ⟨rfl, rfl⟩ := hreturn f rfl
  refine ⟨_, _, turns_cons k hturn hrest, ?_⟩
  rintro data ⟨⟩
  exact List.mem_append_right _ hread

/-- **An access** with no other client in between. -/
theorem turns_access (k : κ) {ctx : DsmContext} (hrep : RepInv ∅ ctx) (hfd : 0 ≤ ctx.sockFd)
    {store : Nat → Page} {p : Nat} (hp : p < ctx.numVirtualPages) {write : Int32}
    {change : Page → Page} {seen : Seen} {s' : Pager}
    (h : Pager.call ⟨ctx, ⟨store, []⟩⟩ (.access p write change ⟨.ok, .ok, true⟩) =
      some (seen, s')) :
    ∃ ts events, Client.turns k ⟨ctx, .idle⟩ store (.access p write change :: ts) =
        some (⟨s'.ctx, .idle⟩, s'.remote.store, events) ∧
      ∀ data, seen = some data → .read k p data ∈ events := by
  simp only [Pager.call, Option.bind_eq_bind, Option.bind_eq_some_iff] at h
  obtain ⟨⟨r, s₂⟩, haccess, h⟩ := h
  rw [dsmAccessPage, entryAt_of_lt hp] at haccess
  simp only [Option.bind_eq_bind, Option.bind_some] at haccess
  cases hv : (ctx.pageTable p).valid with
  | true =>
      have hlt := ((hrep.maps_iff _ _).mp ⟨hp, hv, rfl⟩).1
      simp only [hv, if_true, frameAt_of_lt hlt, Option.map_some, Option.bind_some] at haccess
      obtain ⟨rfl, rfl⟩ := Prod.mk.inj (Option.some.inj haccess)
      obtain ⟨rfl, rfl⟩ := Prod.mk.inj (Option.some.inj h)
      refine ⟨[], _, turns_cons k (beginAccess_hit k hp hv hlt store write change) rfl, ?_⟩
      rintro data ⟨⟩
      exact List.mem_append_left _ List.mem_cons_self
  | false =>
      simp only [hv, Bool.false_eq_true, if_false, dsmAccessPageSlow] at haccess
      have hreturn : ∀ frame, r = some frame → seen = some (s₂.ctx.localMemory frame) ∧
          s' = { s₂ with ctx := callerChange s₂.ctx frame write change } := by
        rintro frame rfl
        obtain ⟨rfl, rfl⟩ := Prod.mk.inj (Option.some.inj h)
        exact ⟨rfl, rfl⟩
      cases hfl : ctx.freeList with
      | nil =>
          simp only [getFreeFrame, hfl, if_true, Option.bind_eq_bind, Option.bind_eq_some_iff]
            at haccess
          obtain ⟨⟨f, s₁⟩, hevict, haccess⟩ := haccess
          have hturn : (⟨ctx, .idle⟩ : Client).turn k store (.access p write change) = _ :=
            beginAccess_evict k hp hv hfl hevict write change
          by_cases hf : f = dsmNoFrame
          · rw [if_pos hf] at haccess hturn
            obtain ⟨rfl, rfl⟩ := Prod.mk.inj (Option.some.inj haccess)
            obtain ⟨rfl, rfl⟩ := Prod.mk.inj (Option.some.inj h)
            refine ⟨[], _, turns_cons k hturn rfl, ?_⟩
            rintro data ⟨⟩
          · rw [if_neg hf] at haccess hturn
            have hfd₁ : s₁.ctx.sockFd = ctx.sockFd := by
              obtain ⟨r', s₁', heq, hev⟩ := evictPage_evicted (s := ⟨ctx, ⟨store, []⟩⟩) hrep hfl .ok
              obtain ⟨rfl, rfl⟩ := Prod.mk.inj (Option.some.inj (heq.symm.trans hevict))
              cases hev with
              | victim _ hrun => exact hrun.sizes.2.2.1
              | failed _ _ hrun => exact hrun.sizes.2.2.1
            exact turns_with_frame k (hfd₁ ▸ hfd) haccess hturn hreturn
      | cons f rest =>
          have hf : f ≠ dsmNoFrame :=
            hrep.ne_noFrame (hrep.lt_of_free (by rw [hfl]; exact List.mem_cons_self))
          simp only [getFreeFrame, hfl, if_neg hf] at haccess
          exact turns_with_frame (v := ⟨{ ctx with freeList := rest }, ⟨store, []⟩⟩) k hfd haccess
            (beginAccess_take k hp hv hfl hf store write change) hreturn

/-! ## All clients -/

structure Sharing (κ : Type) where
  clients : κ → Client
  store : Nat → Page
  trace : List (Event κ)

/-- The sizes of a client's cache and of its virtual space, and its socket. -/
structure Geometry where
  numPages : Nat
  numVirtualPages : Nat
  sockFd : Int

def Geometry.connect (g : Geometry) : DsmContext :=
  dsmContextSetSocket (dsmCreateContext g.numPages g.numVirtualPages) g.sockFd

structure Geometry.Valid (g : Geometry) : Prop where
  numPages_pos : 1 ≤ g.numPages
  numPages_lt : g.numPages < 2 ^ 32
  numVirtualPages_lt : g.numVirtualPages < 2 ^ 32
  sockFd_nonneg : 0 ≤ g.sockFd

/-- All clients connected, nothing cached, the server with its initial `content`. -/
def Sharing.start (geometry : κ → Geometry) (content : Nat → Page) : Sharing κ :=
  ⟨fun k => ⟨(geometry k).connect, .idle⟩, content, []⟩

variable [DecidableEq κ]

def Sharing.step (s : Sharing κ) (e : κ × Turn) : Option (Sharing κ) := do
  let (c, store, events) ← (s.clients e.1).turn e.1 s.store e.2
  return ⟨Function.update s.clients e.1 c, store, s.trace ++ events⟩

def SharingStep (s : Sharing κ) (e : κ × Turn) (s' : Sharing κ) : Prop := s.step e = some s'

abbrev SharingRun : Sharing κ → List (κ × Turn) → Sharing κ → Prop := Run SharingStep

/-! ## The server

`store` is what a server without peers answers with: its storage, and zeros past the end. -/

omit [DecidableEq κ]

/-- The pages as the handler of a standalone server answers a GET of them. -/
def serverContent (s : Server.PageServer) (pageId : Nat) : Page :=
  if s.Serves (UInt32.ofNat pageId) then s.storage (UInt32.ofNat pageId) else zeroPage

/-- A GET is answered with the content, and a PUT that is stored changes the content of its page
only. A PUT that is not stored ends the connection, so its RPC fails. -/
theorem serverContent_spec {s : Server.PageServer} (hs : s.cluster = none) {p : Nat}
    (hp : p < 2 ^ 32) :
    (s.dispatch (.get (UInt32.ofNat p)) = .page (serverContent s p) ∨
      s.dispatch (.get (UInt32.ofNat p)) = .zero ∧ serverContent s p = zeroPage) ∧
    ∀ data, s.dispatch (.put (UInt32.ofNat p) data) = .leave ∨
      s.dispatch (.put (UInt32.ofNat p) data) = .store (UInt32.ofNat p) data ∧
        ∀ q < 2 ^ 32, serverContent (s.put (UInt32.ofNat p) data) q =
          Function.update (serverContent s) p data q := by
  have hserves : ∀ q data, (s.put (UInt32.ofNat p) data).Serves q ↔ s.Serves q :=
    fun _ _ => Iff.rfl
  by_cases h : s.Serves (UInt32.ofNat p)
  · refine ⟨.inl ?_, fun data => .inr ⟨?_, fun q hq => ?_⟩⟩
    · rw [Server.PageServer.dispatch_of_serves h, serverContent, if_pos h]
      rfl
    · rw [Server.PageServer.dispatch_of_serves h]
      rfl
    · unfold serverContent
      by_cases hqp : q = p
      · subst hqp
        rw [if_pos ((hserves _ _).mpr h), Function.update_self]
        exact Function.update_self ..
      · have hne : UInt32.ofNat q ≠ UInt32.ofNat p := by
          intro heq
          have := congrArg UInt32.toNat heq
          rw [UInt32.toNat_ofNat_of_lt' hq, UInt32.toNat_ofNat_of_lt' hp] at this
          exact hqp this
        rw [Function.update_of_ne hqp]
        simp only [hserves]
        split
        · exact Function.update_of_ne hne ..
        · rfl
  · have hlocal : ¬ (s.isLocal (UInt32.ofNat p) = true ∧ UInt32.ofNat p < s.storagePages) := h
    refine ⟨.inr ⟨?_, if_neg h⟩, fun data => .inl ?_⟩
    · simp only [Server.PageServer.dispatch, if_neg hlocal, hs]
      rfl
    · simp only [Server.PageServer.dispatch, if_neg hlocal, hs]
      rfl

end Dsm.Paging
