import Dsm.Paging.Partition
import Dsm.Rpc.Atomic

/-!
# Page caches over the wire

Each client runs `dsm_paging.c` over its own connection to the threads of `Rpc/Threads.lean`: a turn of
the pager ends where it issues an RPC, the RPC goes through the loops of system calls and the handler
thread byte by byte, and the pager goes on with the bytes it got. Nothing is atomic but single bytes.

The turns are those of `Paging/Clients.lean`. What a turn does depends on the server only through the
page it fetches (`turn_same`), so a client can be followed on its own, with a private server that has
its own pages as it put them and shows, of the others, whatever arrived.
-/

namespace Dsm.Paging

open DsmContext Dsm.Lib Dsm.Server
open Dsm.Rpc (Threads ThreadsStep ThreadsRun RpcCall Bytes pageOfBytes Action Conn Returned shownPage
  serveAll)

/-! ## A turn and the server -/

section Turns

variable {κ κ' : Type}

def Event.relabel (k' : κ') : Event κ → Event κ'
  | .put _ p data => .put k' p data
  | .get _ p data => .get k' p data
  | .read _ p data => .read k' p data
  | .write _ p data => .write k' p data

theorem handOver_relabel (k : κ) (k' : κ') (ctx : DsmContext) (a : Access) :
    handOver k' ctx a = ((handOver k ctx a).1, (handOver k ctx a).2.map (Event.relabel k')) := by
  unfold handOver
  by_cases hw : a.write = 0
  · simp [hw, Event.relabel]
  · simp [hw, Event.relabel]

theorem finish_relabel (k : κ) (k' : κ') (ctx : DsmContext) (next : Option Access) :
    finish k' ctx next = ((finish k ctx next).1, (finish k ctx next).2.map (Event.relabel k')) := by
  cases next with
  | none => rfl
  | some a => exact handOver_relabel k k' _ a

theorem putEvents_relabel (k : κ) (k' : κ') (log : List RpcEvent) :
    putEvents k' log = (putEvents k log).map (Event.relabel k') := by
  unfold putEvents
  rw [List.map_filterMap]
  refine List.filterMap_congr fun e _ => ?_
  cases e <;> rfl

theorem beginPrefetch_relabel (k : κ) (k' : κ') (ctx : DsmContext) (startPage count : Nat)
    (next : Option Access) : beginPrefetch k' ctx startPage count next =
      (beginPrefetch k ctx startPage count next).map fun r =>
        (r.1, r.2.map (Event.relabel k')) := by
  unfold beginPrefetch
  cases prefetchCollect startPage count 0 ctx [] with
  | none => rfl
  | some r =>
      obtain ⟨batch, ctx'⟩ := r
      cases batch with
      | nil => exact congrArg some (finish_relabel k k' ctx' next)
      | cons x batch => rfl

/-- An eviction sends the same whatever the server has. -/
theorem evictPage_same (store store' : Nat → Page) (fuel : Nat) (ctx : DsmContext)
    (log : List RpcEvent) :
    (evictPage fuel ⟨ctx, ⟨store', log⟩⟩ .ok).map (fun r => (r.1, r.2.ctx, r.2.remote.log)) =
      (evictPage fuel ⟨ctx, ⟨store, log⟩⟩ .ok).map fun r => (r.1, r.2.ctx, r.2.remote.log) := by
  induction fuel generalizing ctx with
  | zero => rfl
  | succ fuel ih =>
      simp only [evictPage, Option.bind_eq_bind]
      cases ctx.frameAt ctx.clockHand with
      | none => rfl
      | some frame =>
          simp only [Option.bind_some]
          split
          · cases ctx.entryAt frame.pageNumber with
            | none => rfl
            | some page =>
                simp only [Option.bind_some]
                split
                · exact ih _
                · simp only [evictVictim, Remote.dsmRpcPut, if_true]
                  split <;> simp [Option.map_map, Function.comp_def]
          · exact ih _

/-- The servers agree on the page the turn fetches. -/
def Turn.Agree (store store' : Nat → Page) : Doing → Turn → Prop
  | .fetching a, .get => store' a.pageId = store a.pageId
  | .prefetching _ (x :: _) _, .batchGet => store' x.1 = store x.1
  | _, _ => True

/-- **What a turn depends on.** -/
theorem turn_same (k : κ) (k' : κ') {store store' : Nat → Page} {c : Client} {t : Turn}
    (h : t.Agree store store' c.doing) :
    (c.turn k' store' t).map (fun r => (r.1, r.2.2)) =
      (c.turn k store t).map fun r => (r.1, r.2.2.map (Event.relabel k')) := by
  obtain ⟨ctx, doing⟩ := c
  cases t with
  | access p write change =>
      cases doing with
      | idle =>
          simp only [Client.turn, beginAccess, Option.bind_eq_bind]
          cases ctx.entryAt p with
          | none => rfl
          | some entry =>
              simp only [Option.bind_some]
              split
              · cases ctx.frameAt entry.frameNumber with
                | none => rfl
                | some frame =>
                    simp only [Option.map_some, Option.bind_some]
                    rw [handOver_relabel k k']
                    rfl
              · split
                · have hevict := evictPage_same store store' (ctx.getFreeFrame.2.numPages + 1)
                    ctx.getFreeFrame.2 []
                  generalize evictPage _ ⟨ctx.getFreeFrame.2, ⟨store, []⟩⟩ .ok = r at hevict ⊢
                  generalize evictPage _ ⟨ctx.getFreeFrame.2, ⟨store', []⟩⟩ .ok = r' at hevict ⊢
                  cases r with
                  | none =>
                      cases r' with
                      | none => rfl
                      | some r' => cases hevict
                  | some r =>
                      cases r' with
                      | none => cases hevict
                      | some r' =>
                          obtain ⟨f, s⟩ := r
                          obtain ⟨f', s'⟩ := r'
                          simp only [Option.map_some, Option.some.injEq, Prod.mk.injEq] at hevict
                          obtain ⟨rfl, hctx, hlog⟩ := hevict
                          simp only [Option.bind_some, hctx, hlog]
                          rw [putEvents_relabel k k']
                          rfl
                · rfl
      | _ => rfl
  | prefetch startPage count =>
      cases doing with
      | idle =>
          simp only [Client.turn]
          rw [beginPrefetch_relabel k k']
          simp [Option.map_map, Function.comp_def]
      | _ => rfl
  | get =>
      cases doing with
      | fetching a =>
          replace h : store' a.pageId = store a.pageId := h
          simp only [Client.turn, fetchPage, h, Option.bind_eq_bind]
          generalize accessInstall _ a.pageId a.frame a.write true = r
          cases r with
          | none => rfl
          | some ctx' =>
              simp only [Option.bind_some]
              split
              · rw [beginPrefetch_relabel k k']
                cases beginPrefetch k ctx' _ _ (some a) with
                | none => rfl
                | some r => rfl
              · rw [finish_relabel k k']
                rfl
      | _ => rfl
  | batchGet =>
      cases doing with
      | prefetching got todo next =>
          cases todo with
          | nil => rfl
          | cons x todo =>
              replace h : store' x.1 = store x.1 := h
              simp only [Client.turn, h]
              rfl
      | _ => rfl
  | commit =>
      cases doing with
      | prefetching got todo next =>
          cases todo with
          | nil =>
              simp only [Client.turn]
              cases prefetchCommit (got.map Prod.fst) (got.map Prod.snd) ctx with
              | none => rfl
              | some ctx' =>
                  simp only [Option.map_some]
                  rw [finish_relabel k k']
          | cons x todo => rfl
      | _ => rfl

/-! ### The PUT of a turn -/

/-- An eviction sends at most one page, one of the virtual space. -/
theorem evictPage_log (fuel : Nat) {s s' : Pager} {f : Nat}
    (h : evictPage fuel s .ok = some (f, s')) :
    s'.remote.log = s.remote.log ∨
      ∃ q data, q < s.ctx.numVirtualPages ∧ s'.remote.log = .put q data true :: s.remote.log := by
  induction fuel generalizing s with
  | zero => cases h
  | succ fuel ih =>
      simp only [evictPage, Option.bind_eq_bind, Option.bind_eq_some_iff] at h
      obtain ⟨frame, -, h⟩ := h
      split at h
      · obtain ⟨page, hpage, h⟩ := Option.bind_eq_some_iff.mp h
        have hlt : frame.pageNumber < s.ctx.numVirtualPages := by
          by_contra hge
          simp [entryAt, hge] at hpage
        split at h
        · have hrest := ih h
          exact hrest
        · simp only [evictVictim, Remote.dsmRpcPut, if_true] at h
          split at h
          · obtain ⟨r, -, heq⟩ := Option.map_eq_some_iff.mp h
            obtain ⟨rfl, rfl⟩ := Prod.mk.inj heq
            exact .inr ⟨frame.pageNumber, _, hlt, rfl⟩
          · obtain ⟨r, -, heq⟩ := Option.map_eq_some_iff.mp h
            obtain ⟨rfl, rfl⟩ := Prod.mk.inj heq
            exact .inl rfl
      · have hrest := ih h
        exact hrest

def Event.isPut : Event κ → Bool
  | .put _ _ _ => true
  | _ => false

theorem filterMap_putOf {events : List (Event κ)} (h : ∀ e ∈ events, e.isPut = false) (p : Nat) :
    events.filterMap (Event.putOf p) = [] := by
  refine List.filterMap_eq_nil_iff.mpr fun e he => ?_
  have hput := h e he
  cases e with
  | put k q data => cases hput
  | _ => rfl

theorem handOver_isPut (k : κ) (ctx : DsmContext) (a : Access) :
    ∀ e ∈ (handOver k ctx a).2, e.isPut = false := by
  intro e he
  unfold handOver at he
  by_cases hw : a.write = 0
  · rw [if_pos hw] at he
    obtain rfl := List.mem_singleton.mp he
    rfl
  · rw [if_neg hw] at he
    rcases List.mem_cons.mp he with rfl | he
    · rfl
    · obtain rfl := List.mem_singleton.mp he
      rfl

theorem finish_isPut (k : κ) (ctx : DsmContext) (next : Option Access) :
    ∀ e ∈ (finish k ctx next).2, e.isPut = false := by
  cases next with
  | none => exact fun e he => absurd he List.not_mem_nil
  | some a => exact handOver_isPut k _ a

theorem beginPrefetch_isPut (k : κ) {ctx : DsmContext} {startPage count : Nat} {next : Option Access}
    {r : Client × List (Event κ)} (h : beginPrefetch k ctx startPage count next = some r) :
    ∀ e ∈ r.2, e.isPut = false := by
  simp only [beginPrefetch, Option.bind_eq_bind, Option.bind_eq_some_iff] at h
  obtain ⟨⟨batch, ctx'⟩, -, h⟩ := h
  cases batch with
  | nil =>
      obtain rfl := Option.some.inj h
      exact finish_isPut k ctx' next
  | cons x batch =>
      obtain rfl := Option.some.inj h
      exact fun e he => absurd he List.not_mem_nil

/-- The caller calls `dsm_access_page` or `dsm_prefetch_pages`. -/
def Turn.IsCall : Turn → Prop
  | .access _ _ _ => True
  | .prefetch _ _ => True
  | _ => False

/-- The turn that begins an access sends at most one page, and then nothing else happens in it; the
other turns send none. -/
theorem turn_puts (k : κ) {c c' : Client} {store store' : Nat → Page} {t : Turn}
    {events : List (Event κ)} (h : c.turn k store t = some (c', store', events)) :
    (∀ e ∈ events, e.isPut = false) ∨
      t.IsCall ∧ ∃ q data, q < c.ctx.numVirtualPages ∧ events = [.put k q data] := by
  obtain ⟨ctx, doing⟩ := c
  cases t with
  | access p write change =>
      cases doing with
      | idle =>
          simp only [Client.turn, beginAccess, Option.bind_eq_bind, Option.bind_eq_some_iff] at h
          obtain ⟨entry, -, h⟩ := h
          split at h
          · obtain ⟨frame, -, h⟩ := Option.bind_eq_some_iff.mp h
            obtain ⟨-, -, rfl⟩ := Option.some.inj h |> fun h => (Prod.mk.inj h).imp id Prod.mk.inj
            exact .inl (handOver_isPut k _ _)
          · split at h
            · obtain ⟨⟨f, s⟩, hevict, h⟩ := Option.bind_eq_some_iff.mp h
              obtain ⟨-, -, rfl⟩ := Option.some.inj h |> fun h => (Prod.mk.inj h).imp id Prod.mk.inj
              have hnv : ctx.getFreeFrame.2.numVirtualPages = ctx.numVirtualPages := by
                unfold getFreeFrame
                split <;> rfl
              rcases evictPage_log _ hevict with hlog | ⟨q, data, hq, hlog⟩
              · rw [hlog]
                exact .inl fun e he => absurd he List.not_mem_nil
              · rw [hlog]
                exact .inr ⟨trivial, q, data, hnv ▸ hq, rfl⟩
            · obtain ⟨-, -, rfl⟩ := Option.some.inj h |> fun h => (Prod.mk.inj h).imp id Prod.mk.inj
              exact .inl fun e he => absurd he List.not_mem_nil
      | _ => cases h
  | prefetch startPage count =>
      cases doing with
      | idle =>
          obtain ⟨r, hr, heq⟩ := Option.map_eq_some_iff.mp h
          obtain ⟨-, -, rfl⟩ := (Prod.mk.inj heq).imp id Prod.mk.inj
          exact .inl (beginPrefetch_isPut k hr)
      | _ => cases h
  | get =>
      cases doing with
      | fetching a =>
          obtain ⟨r, hr, heq⟩ := Option.map_eq_some_iff.mp h
          obtain ⟨-, -, rfl⟩ := (Prod.mk.inj heq).imp id Prod.mk.inj
          simp only [fetchPage, Option.bind_eq_bind, Option.bind_eq_some_iff] at hr
          obtain ⟨ctx', -, hr⟩ := hr
          refine .inl fun e he => ?_
          split at hr
          · obtain ⟨r', hr', heq'⟩ := Option.bind_eq_some_iff.mp hr
            obtain rfl := Option.some.inj heq'
            rcases List.mem_cons.mp he with rfl | he
            · rfl
            · exact beginPrefetch_isPut k hr' e he
          · obtain rfl := Option.some.inj hr
            rcases List.mem_cons.mp he with rfl | he
            · rfl
            · exact finish_isPut k _ _ e he
      | _ => cases h
  | batchGet =>
      cases doing with
      | prefetching got todo next =>
          cases todo with
          | nil => cases h
          | cons x todo =>
              obtain ⟨-, -, rfl⟩ := Option.some.inj h |> fun h => (Prod.mk.inj h).imp id Prod.mk.inj
              refine .inl fun e he => ?_
              obtain rfl := List.mem_singleton.mp he
              rfl
      | _ => cases h
  | commit =>
      cases doing with
      | prefetching got todo next =>
          cases todo with
          | nil =>
              obtain ⟨ctx', -, heq⟩ := Option.map_eq_some_iff.mp h
              obtain ⟨-, -, rfl⟩ := (Prod.mk.inj heq).imp id Prod.mk.inj
              exact .inl (finish_isPut k _ _)
          | cons x todo => cases h
      | _ => cases h

end Turns

/-! ## The system -/

/-- The server's threads with the clients' connections, the pagers of the clients, and what the
callers of all clients did and what was fetched and sent, in order. -/
structure Wired (ι : Type) where
  threads : Threads ι
  clients : ι → Client
  trace : List (Event ι)

def Wired.start {ι : Type} (geometry : ι → Geometry) (server : PageServer) : Wired ι :=
  ⟨Threads.start server, fun i => ⟨(geometry i).connect, .idle⟩, []⟩

section System

variable {κ : Type}

/-- The RPC a client that is not idle goes on with. -/
def Doing.request : Doing → Option RpcCall
  | .fetching a => some (.get (UInt32.ofNat a.pageId))
  | .prefetching [] todo _ => some (.getBatch (todo.map fun x => UInt32.ofNat x.1))
  | _ => none

/-- The PUT that a turn stops at, if there is one. -/
def putCall (events : List (Event κ)) : Option RpcCall :=
  events.findSome? fun
    | .put _ p data => some (.put (UInt32.ofNat p) data)
    | _ => none

/-- The pages of a batch, one after the other, and their installation. -/
def Client.takeBatch (k : κ) : Client → List Page → Option (Client × List (Event κ))
  | c, [] => (c.turn k (fun _ => zeroPage) .commit).map fun r => (r.1, r.2.2)
  | c, page :: pages => do
    let (c, _, events) ← c.turn k (fun _ => page) .batchGet
    let (c, rest) ← Client.takeBatch k c pages
    return (c, events ++ rest)

/-- The client with the buffers of a call that returned. -/
def Client.resume (k : κ) (c : Client) : RpcCall → List Bytes → Option (Client × List (Event κ))
  | .put _ _, _ => some (c, [])
  | .get _, bufs =>
      (c.turn k (fun _ => pageOfBytes (bufs.headD [])) .get).map fun r => (r.1, r.2.2)
  | .getBatch _, bufs => c.takeBatch k (bufs.map pageOfBytes)

/-- A system call of either end, or a byte of `memcpy`. -/
def Action.IsIo : Action → Prop
  | .begin _ => False
  | .finish => False
  | _ => True

inductive WiredLabel
  | call (t : Turn)
  | request
  | io (a : Action)
  | resume

variable {ι : Type} [DecidableEq ι]

inductive WiredStep : Wired ι → ι × WiredLabel → Wired ι → Prop
  /-- A call by the caller that needs no PUT. -/
  | call {s : Wired ι} {i : ι} {t : Turn} {c : Client} {store : Nat → Page}
      {events : List (Event ι)} : (s.threads.conns i).active = none → t.IsCall →
      (s.clients i).turn i (fun _ => zeroPage) t = some (c, store, events) → putCall events = none →
      WiredStep s (i, .call t)
        { s with clients := Function.update s.clients i c, trace := s.trace ++ events }
  /-- A call that stops at the PUT of an eviction. -/
  | callPut {s : Wired ι} {i : ι} {t : Turn} {c : Client} {store : Nat → Page}
      {events : List (Event ι)} {put : RpcCall} {threads : Threads ι} : t.IsCall →
      (s.clients i).turn i (fun _ => zeroPage) t = some (c, store, events) →
      putCall events = some put → ThreadsStep s.threads (i, .begin put) threads →
      WiredStep s (i, .call t)
        ⟨threads, Function.update s.clients i c, s.trace ++ events⟩
  | request {s : Wired ι} {i : ι} {call : RpcCall} {threads : Threads ι} :
      (s.clients i).doing.request = some call → ThreadsStep s.threads (i, .begin call) threads →
      WiredStep s (i, .request) { s with threads := threads }
  | io {s : Wired ι} {i : ι} {a : Action} {threads : Threads ι} : Action.IsIo a →
      ThreadsStep s.threads (i, a) threads → WiredStep s (i, .io a) { s with threads := threads }
  | resume {s : Wired ι} {i : ι} {a : Rpc.Active} {c : Client} {events : List (Event ι)}
      {threads : Threads ι} : (s.threads.conns i).active = some a →
      ThreadsStep s.threads (i, .finish) threads →
      (s.clients i).resume i a.call a.bufs = some (c, events) →
      WiredStep s (i, .resume)
        ⟨threads, Function.update s.clients i c, s.trace ++ events⟩

abbrev WiredRun : Wired ι → List (ι × WiredLabel) → Wired ι → Prop := Run WiredStep

end System

end Dsm.Paging
