import Dsm.Machine

/-!
# The client's pager (`dsm_paging.c`)

A context caches `num_virtual_pages` pages of a server in `num_pages` local frames. Three tables
and a stack describe the cache: the page table (page to frame), the frame table (frame to page),
the frame contents and the free list; a clock hand sweeps the frames when one has to be given up.

Every array access of the source goes through `entryAt`, `frameAt` or `pushFreeFrame`, which answer
`none` when the index lies outside the array. So `none` is undefined behaviour of the C code (or,
in `evictPage`, a sweep that has not stopped yet), and a theorem that an operation returns `some`
says that no index ever leaves its array and that the sweep stops.

The RPCs are the environment. Each call of the API comes with an `RpcScript`: what happens to the
writeback, to the fetch and to the batched prefetch, should the call issue them.
-/

namespace Dsm.Paging

-- `DSM_NO_FRAME`, `DSM_NO_PAGE` and `DSM_PREFETCH_MAX`.
def dsmNoFrame : Nat := 2 ^ 32 - 1
def dsmNoPage : Nat := 2 ^ 32 - 1
def dsmPrefetchMax : Nat := 8

inductive PageLocation where
  | locLocal
  | locRemote
  deriving DecidableEq, Repr

/-- `page_table_entry_t`. The default is what `calloc` hands out. -/
structure PageTableEntry where
  frameNumber : Nat := 0
  valid : Bool := false
  referenceBit : Bool := false
  dirty : UInt8 := 0
  location : PageLocation := .locLocal
  deriving DecidableEq, Repr

structure FrameEntry where
  pageNumber : Nat := 0
  occupied : Bool := false
  deriving DecidableEq, Repr

/-- `dsm_context_t`. The free list is the stack `free_list[0 .. free_list_top)`, top first, so
`free_list_top` is its length; frame contents are addressed by frame, as `frame_to_ptr` does. -/
structure DsmContext where
  sockFd : Int
  localMemory : Nat → Page
  pageTable : Nat → PageTableEntry
  frameTable : Nat → FrameEntry
  freeList : List Nat
  clockHand : Nat
  numPages : Nat
  numVirtualPages : Nat
  lastPageId : Nat
  prefetchCount : Nat
  localHits : Nat
  remoteFetches : Nat
  evictions : Nat

/-! ## The server, seen from one client -/

/-- How a `dsm_rpc_put` ends. A failed one may have reached the server or not. -/
inductive PutOutcome where
  | ok
  | failed (applied : Bool)
  deriving DecidableEq, Repr

/-- How a `dsm_rpc_get` ends. A failed one leaves anything in its target buffer. -/
inductive GetOutcome where
  | ok
  | failed (left : Page)

/-- The outcomes of the RPCs one API call may issue. -/
structure RpcScript where
  put : PutOutcome
  get : GetOutcome
  batch : Bool

inductive RpcEvent where
  | put (pageId : Nat) (data : Page) (ok : Bool)
  | get (pageId : Nat) (ok : Bool)
  | getBatch (ids : List Nat) (ok : Bool)

/-- The server's pages and the RPCs issued so far, newest first. -/
structure Remote where
  store : Nat → Page
  log : List RpcEvent

def Remote.dsmRpcPut (r : Remote) (pageId : Nat) (data : Page) : PutOutcome → Bool × Remote
  | .ok => (true, ⟨Function.update r.store pageId data, .put pageId data true :: r.log⟩)
  | .failed applied =>
      (false, ⟨if applied then Function.update r.store pageId data else r.store,
        .put pageId data false :: r.log⟩)

/-- `dsm_rpc_get`: the success flag and what the target buffer holds afterwards. -/
def Remote.dsmRpcGet (r : Remote) (pageId : Nat) : GetOutcome → Bool × Page × Remote
  | .ok => (true, r.store pageId, { r with log := .get pageId true :: r.log })
  | .failed left => (false, left, { r with log := .get pageId false :: r.log })

/-- `dsm_rpc_get_batch`: on failure the stack buffer is never read. -/
def Remote.dsmRpcGetBatch (r : Remote) (ids : List Nat) (ok : Bool) : Option (List Page) × Remote :=
  (if ok then some (ids.map r.store) else none, { r with log := .getBatch ids ok :: r.log })

structure Pager where
  ctx : DsmContext
  remote : Remote

namespace DsmContext

/-! ## Array accesses

`entryAt` and `frameAt` are `&ctx->page_table[p]` and `&ctx->frame_table[f]`; the setters are the
stores through such pointers, and `setMemory` fills the frame at `frame_to_ptr(ctx, f)`. -/

def entryAt (ctx : DsmContext) (p : Nat) : Option PageTableEntry :=
  if p < ctx.numVirtualPages then some (ctx.pageTable p) else none

def frameAt (ctx : DsmContext) (f : Nat) : Option FrameEntry :=
  if f < ctx.numPages then some (ctx.frameTable f) else none

def setEntry (ctx : DsmContext) (p : Nat) (e : PageTableEntry) : DsmContext :=
  { ctx with pageTable := Function.update ctx.pageTable p e }

def setFrame (ctx : DsmContext) (f : Nat) (e : FrameEntry) : DsmContext :=
  { ctx with frameTable := Function.update ctx.frameTable f e }

def setMemory (ctx : DsmContext) (f : Nat) (data : Page) : DsmContext :=
  { ctx with localMemory := Function.update ctx.localMemory f data }

def getFreeFrame (ctx : DsmContext) : Nat × DsmContext :=
  match ctx.freeList with
  | f :: rest => (f, { ctx with freeList := rest })
  | [] => (dsmNoFrame, ctx)

/-- `push_free_frame`: the array has room for `num_pages` entries. -/
def pushFreeFrame (ctx : DsmContext) (frame : Nat) : Option DsmContext :=
  if ctx.freeList.length < ctx.numPages then
    some { ctx with freeList := frame :: ctx.freeList }
  else none

def advanceHand (ctx : DsmContext) : DsmContext :=
  { ctx with clockHand := u32 (ctx.clockHand + 1) % ctx.numPages }

end DsmContext

open DsmContext

/-! ## Eviction -/

/-- The end of `evict_page`, once the victim needs no writeback any more. -/
def dropVictim (ctx : DsmContext) (pageNumber victim : Nat) : Option (Nat × DsmContext) := do
  let page ← ctx.entryAt pageNumber
  let frame ← ctx.frameAt victim
  let ctx := ctx.setEntry pageNumber { page with valid := false, dirty := 0 }
  let ctx := ctx.setFrame victim { frame with occupied := false }
  let ctx := { ctx.advanceHand with evictions := u64 (ctx.evictions + 1) }
  let ctx ← ctx.pushFreeFrame victim
  return ctx.getFreeFrame

/-- The branch of `evict_page` taken at a frame whose page has its reference bit clear. -/
def evictVictim (s : Pager) (pageNumber : Nat) (page : PageTableEntry) (out : PutOutcome) :
    Option (Nat × Pager) :=
  let victim := s.ctx.clockHand
  if page.dirty ≠ 0 ∧ page.location = .locRemote then
    let (ok, remote) := s.remote.dsmRpcPut pageNumber (s.ctx.localMemory victim) out
    if ok then
      (dropVictim s.ctx pageNumber victim).map fun (f, ctx) => (f, ⟨ctx, remote⟩)
    else
      some (dsmNoFrame, { s with remote })
  else
    (dropVictim s.ctx pageNumber victim).map fun (f, ctx) => (f, { s with ctx })

/-- `evict_page`. The source loops forever (`for (;;)`); the fuel bounds the frames examined. -/
def evictPage : Nat → Pager → PutOutcome → Option (Nat × Pager)
  | 0, _, _ => none
  | fuel + 1, s, out => do
    let frame ← s.ctx.frameAt s.ctx.clockHand
    if frame.occupied then
      let page ← s.ctx.entryAt frame.pageNumber
      if page.referenceBit then
        let ctx := s.ctx.setEntry frame.pageNumber { page with referenceBit := false }
        evictPage fuel { s with ctx := ctx.advanceHand } out
      else
        evictVictim s frame.pageNumber page out
    else
      evictPage fuel { s with ctx := s.ctx.advanceHand } out

/-! ## Prefetching

`dsm_prefetch_pages` has three loops: one collects absent pages and free frames, one returns the
frames when the batched RPC fails, one installs the pages when it succeeds. -/

/-- The first loop of `dsm_prefetch_pages`: `left` iterations remain of the `count` ones, `i` is
the loop counter (it stays below `count ≤ 255`, so the `uint8_t` never wraps) and `batch` holds
`page_ids` and `frames`. -/
def prefetchCollect (startPage : Nat) :
    (left i : Nat) → DsmContext → List (Nat × Nat) → Option (List (Nat × Nat) × DsmContext)
  | 0, _, ctx, batch => some (batch, ctx)
  | left + 1, i, ctx, batch =>
    if batch.length < dsmPrefetchMax then
      let pageId := u32 (startPage + i)
      if ctx.numVirtualPages ≤ pageId then
        some (batch, ctx)
      else do
        let entry ← ctx.entryAt pageId
        if entry.valid ∨ entry.location ≠ .locRemote then
          prefetchCollect startPage left (i + 1) ctx batch
        else
          let (frame, ctx) := ctx.getFreeFrame
          if frame = dsmNoFrame then
            some (batch, ctx)
          else
            prefetchCollect startPage left (i + 1) ctx (batch ++ [(pageId, frame)])
    else
      some (batch, ctx)

def prefetchRollback : List (Nat × Nat) → DsmContext → Option DsmContext
  | [], ctx => some ctx
  | (_, frame) :: rest, ctx => do
    let ctx ← ctx.pushFreeFrame frame
    prefetchRollback rest ctx

def prefetchInstall (ctx : DsmContext) (pageId frame : Nat) (data : Page) : Option DsmContext := do
  let entry ← ctx.entryAt pageId
  let frameEntry ← ctx.frameAt frame
  let ctx := ctx.setMemory frame data
  let ctx := ctx.setEntry pageId
    { entry with frameNumber := frame, valid := true, referenceBit := false, dirty := 0 }
  let ctx := ctx.setFrame frame { frameEntry with pageNumber := pageId, occupied := true }
  return { ctx with remoteFetches := u64 (ctx.remoteFetches + 1) }

def prefetchCommit : List (Nat × Nat) → List Page → DsmContext → Option DsmContext
  | (pageId, frame) :: rest, data :: bufs, ctx => do
    let ctx ← prefetchInstall ctx pageId frame data
    prefetchCommit rest bufs ctx
  | _, _, ctx => some ctx

def dsmPrefetchPages (s : Pager) (startPage count : Nat) (ok : Bool) : Option Pager := do
  let (batch, ctx) ← prefetchCollect startPage count 0 s.ctx []
  if batch.isEmpty then
    return { s with ctx }
  else
    match s.remote.dsmRpcGetBatch (batch.map Prod.fst) ok with
    | (none, remote) =>
        let ctx ← prefetchRollback batch ctx
        return ⟨ctx, remote⟩
    | (some bufs, remote) =>
        let ctx ← prefetchCommit batch bufs ctx
        return ⟨ctx, remote⟩

/-! ## Access -/

/-- `(uint8_t)write`. -/
def writeByte (write : Int32) : UInt8 := write.toUInt32.toUInt8

/-- The table updates of `dsm_access_page_slow` after the fetch. -/
def accessInstall (ctx : DsmContext) (pageId frame : Nat) (write : Int32) (fetched : Bool) :
    Option DsmContext := do
  let _ ← ctx.entryAt pageId
  let frameEntry ← ctx.frameAt frame
  let ctx := ctx.setEntry pageId
    { frameNumber := frame, valid := true, referenceBit := true, dirty := writeByte write,
      location := if fetched then .locRemote else .locLocal }
  return ctx.setFrame frame { frameEntry with pageNumber := pageId, occupied := true }

/-- `dsm_access_page_slow` from the table updates on. -/
def accessFinish (s : Pager) (pageId frame : Nat) (write : Int32) (fetched : Bool)
    (rpc : RpcScript) : Option (Option Nat × Pager) := do
  let ctx ← accessInstall s.ctx pageId frame write fetched
  let s := { s with ctx }
  let s ← if pageId = u32 (s.ctx.lastPageId + 1) then
      dsmPrefetchPages s (u32 (pageId + 1)) s.ctx.prefetchCount rpc.batch
    else some s
  return (some frame, { s with ctx := { s.ctx with lastPageId := pageId } })

/-- `dsm_access_page_slow` once it has a frame. -/
def accessWithFrame (s : Pager) (pageId frame : Nat) (write : Int32) (rpc : RpcScript) :
    Option (Option Nat × Pager) :=
  if 0 ≤ s.ctx.sockFd then
    let (ok, buf, remote) := s.remote.dsmRpcGet pageId rpc.get
    let ctx := s.ctx.setMemory frame buf
    if ok then
      accessFinish ⟨{ ctx with remoteFetches := u64 (ctx.remoteFetches + 1) }, remote⟩ pageId frame
        write true rpc
    else do
      let ctx ← ctx.pushFreeFrame frame
      return (none, ⟨ctx, remote⟩)
  else
    accessFinish s pageId frame write false rpc

/-- `dsm_access_page_slow`: the answer is the frame the returned pointer stands for, or `none`
for `NULL`. -/
def dsmAccessPageSlow (s : Pager) (pageId : Nat) (write : Int32) (rpc : RpcScript) :
    Option (Option Nat × Pager) := do
  let (frame, ctx) := s.ctx.getFreeFrame
  if frame = dsmNoFrame then
    let (frame, s) ← evictPage (ctx.numPages + 1) { s with ctx } rpc.put
    if frame = dsmNoFrame then
      return (none, s)
    else
      accessWithFrame s pageId frame write rpc
  else
    accessWithFrame { s with ctx } pageId frame write rpc

/-- The hit path of `dsm_access_page` (and of its inline copy `dsm_access_page_fast`). -/
def accessHit (ctx : DsmContext) (pageId : Nat) (entry : PageTableEntry) (write : Int32) :
    DsmContext :=
  { ctx.setEntry pageId
      { entry with referenceBit := true, dirty := entry.dirty ||| writeByte write } with
    localHits := u64 (ctx.localHits + 1) }

def dsmAccessPage (s : Pager) (pageId : Nat) (write : Int32) (rpc : RpcScript) :
    Option (Option Nat × Pager) := do
  let entry ← s.ctx.entryAt pageId
  if entry.valid then
    let frame ← (s.ctx.frameAt entry.frameNumber).map fun _ => entry.frameNumber
    return (some frame, { s with ctx := accessHit s.ctx pageId entry write })
  else
    dsmAccessPageSlow s pageId write rpc

/-- `dsm_access_page_fast`: the copy of the hit path in the header, for hot loops. -/
def dsmAccessPageFast (s : Pager) (pageId : Nat) (write : Int32) (rpc : RpcScript) :
    Option (Option Nat × Pager) := do
  let entry ← s.ctx.entryAt pageId
  if entry.valid then
    let ctx := { s.ctx with localHits := u64 (s.ctx.localHits + 1) }
    let ctx := ctx.setEntry pageId
      { entry with referenceBit := true, dirty := entry.dirty ||| writeByte write }
    let frame ← (ctx.frameAt entry.frameNumber).map fun _ => entry.frameNumber
    return (some frame, { s with ctx })
  else
    dsmAccessPageSlow s pageId write rpc

/-- The two copies of the hit path agree. -/
theorem dsmAccessPageFast_eq : dsmAccessPageFast = dsmAccessPage := rfl

/-! ## Setting up -/

def dsmContextSetSocket (ctx : DsmContext) (fd : Int) : DsmContext := { ctx with sockFd := fd }

/-- `dsm_create_context`, when its allocations succeed. `free_list[i] = num_pages - 1 - i`, so the
top of the stack is frame `0`. -/
def dsmCreateContext (numPages numVirtualPages : Nat) : DsmContext where
  sockFd := -1
  localMemory := fun _ => zeroPage
  pageTable := fun _ => {}
  frameTable := fun _ => {}
  freeList := List.range numPages
  clockHand := 0
  numPages := numPages
  numVirtualPages := numVirtualPages
  lastPageId := dsmNoPage
  prefetchCount := 4
  localHits := 0
  remoteFetches := 0
  evictions := 0

/-! ## Whole runs -/

/-- One call of the API by the program that owns the context. An access with a non-zero flag that
returns a page is followed by the caller's own change of that page. -/
inductive Call where
  | access (pageId : Nat) (write : Int32) (change : Page → Page) (rpc : RpcScript)
  | prefetch (startPage count : Nat) (ok : Bool)
  | setSocket (fd : Int)

/-- The calls the source is written for: page ids inside the virtual space, a 32-bit start page
and an 8-bit count. -/
def Call.InRange (numVirtualPages : Nat) : Call → Prop
  | .access pageId _ _ _ => pageId < numVirtualPages
  | .prefetch startPage count _ => startPage < 2 ^ 32 ∧ count < 2 ^ 8
  | .setSocket _ => True

/-- The bytes an access returned, as the caller finds them; `none` for `NULL` and for calls that
return nothing. -/
abbrev Seen := Option Page

/-- The caller's own stores through the returned pointer. -/
def callerChange (ctx : DsmContext) (frame : Nat) (write : Int32) (change : Page → Page) :
    DsmContext :=
  if write = 0 then ctx else ctx.setMemory frame (change (ctx.localMemory frame))

def Pager.call (s : Pager) : Call → Option (Seen × Pager)
  | .access pageId write change rpc => do
    let (frame?, s) ← dsmAccessPage s pageId write rpc
    match frame? with
    | none => return (none, s)
    | some frame =>
        return (some (s.ctx.localMemory frame),
          { s with ctx := callerChange s.ctx frame write change })
  | .prefetch startPage count ok => do
    let s ← dsmPrefetchPages s startPage count ok
    return (none, s)
  | .setSocket fd => some (none, { s with ctx := dsmContextSetSocket s.ctx fd })

def Pager.run (s : Pager) : List Call → Option (List Seen × Pager)
  | [] => some ([], s)
  | c :: cs => do
    let (seen, s) ← s.call c
    let (rest, s) ← s.run cs
    return (seen :: rest, s)

end Dsm.Paging
