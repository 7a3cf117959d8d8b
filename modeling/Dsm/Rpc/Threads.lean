import Dsm.Lib.WriteLog
import Dsm.Rpc.InStep
import Mathlib.Data.Fintype.Basic

/-!
# Handler threads over one storage (`handle_client_thread`)

Every client has its own connection and its own handler thread, and all threads work on `g_storage`
without a lock. A GET is sent straight out of the storage: each `send` reads the bytes it takes, so a
page may change while it is on its way. A PUT is received into the thread's own buffer and then copied
into the storage, byte by byte and in any order. Between any two of these steps the other threads and
the clients take any number of theirs. The server has no peers.

The log has every byte written to the storage. Its length is the time: a call that returned is kept
with the times at which it began and ended.
-/

def Dsm.Page.byte (page : Dsm.Page) (j : Fin Dsm.pageSize) : UInt8 := page[j]

namespace Dsm.Server

/-- A byte of the storage: its page and its offset in it. -/
abbrev Cell := UInt32 × Fin pageSize

def PageServer.bytes (s : PageServer) (c : Cell) : UInt8 := (s.storage c.1).byte c.2

def PageServer.write (s : PageServer) (w : Cell × UInt8) : PageServer :=
  { s with
    storage := Function.update s.storage w.1.1 ((s.storage w.1.1).set w.1.2 w.2 w.1.2.isLt) }

theorem PageServer.bytes_write (s : PageServer) (w : Cell × UInt8) :
    (s.write w).bytes = Function.update s.bytes w.1 w.2 := by
  obtain ⟨⟨p, i⟩, b⟩ := w
  funext ⟨q, j⟩
  by_cases hq : q = p
  · subst hq
    by_cases hj : j = i
    · subst hj
      simp [PageServer.bytes, Page.byte, PageServer.write]
    · have hne : i.val ≠ j.val := fun h => hj (Fin.ext h.symm)
      have hcell : (q, j) ≠ (q, i) := fun h => hj (Prod.mk.inj h).2
      rw [Function.update_of_ne hcell]
      simp [PageServer.bytes, Page.byte, PageServer.write, hne]
  · have hcell : (q, j) ≠ (p, i) := fun h => hq (Prod.mk.inj h).1
    rw [Function.update_of_ne hcell]
    simp [PageServer.bytes, Page.byte, PageServer.write, Function.update_of_ne hq]

end Dsm.Server

namespace Dsm.Rpc

open Dsm.Server Dsm.Lib

/-- Where a handler thread is in its loop. `todo` are the offsets `memcpy` has not copied yet, `sent`
the bytes of a page that are already out. -/
inductive Thread
  | header (got : Bytes)
  | body (pageId : UInt32) (got : Bytes)
  | copying (pageId : UInt32) (data : Page) (todo : Finset (Fin pageSize))
  | sending (pageId : UInt32) (sent : Nat)
  | reply (rest : Bytes)
  | left

/-- The thread once a request is complete. -/
def Thread.decode (s : PageServer) (req : Request) : Thread :=
  match s.dispatch req with
  | .page _ => .sending req.pageId 0
  | .store pageId data => .copying pageId data Finset.univ
  | .zero => .reply zeroPage.toList
  | .ignore => .header []
  | .leave => .left
  | .forward => .left

/-- What the next `recv` of the thread is asked for. -/
def Thread.needs : Thread → Nat
  | .header got => headerSize - got.length
  | .body _ got => pageSize - got.length
  | _ => 0

def Thread.receive (s : PageServer) (bytes : Bytes) : Thread → Thread
  | .header got =>
      let got := got ++ bytes
      if got.length < headerSize then .header got
      else if headerOp got = opGetPage then decode s (.get (headerPageId got))
      else if headerOp got = opPutPage then .body (headerPageId got) []
      else decode s (.other (headerOp got) (headerPageId got))
  | .body pageId got =>
      let got := got ++ bytes
      if got.length < pageSize then .body pageId got
      else decode s (.put pageId (pageOfBytes got))
  | t => t

/-- After one byte of `memcpy`. -/
def Thread.copied (pageId : UInt32) (data : Page) (todo : Finset (Fin pageSize)) : Thread :=
  if todo.Nonempty then .copying pageId data todo else .reply (dsmRpcMakeHeader opAck pageId)

/-- A call that returned, with what it filled its buffers with and the times of its begin and end. -/
structure Returned where
  call : RpcCall
  bufs : List Bytes
  since : Nat
  till : Nat

/-- One client, its connection and its thread. -/
structure Conn where
  active : Option Active
  toServer : Bytes
  toClient : Bytes
  thread : Thread
  since : Nat
  returned : List Returned

def Conn.fresh : Conn := ⟨none, [], [], .header [], 0, []⟩

/-- What happens on one connection: the client enters and leaves its calls, a system call of either
end moves some bytes, the thread copies one byte. -/
inductive Action
  | begin (call : RpcCall)
  | finish
  | clientSend (k : Nat)
  | clientRecv (k : Nat)
  | threadRecv (k : Nat)
  | copy (offset : Fin pageSize)
  | sendPage (k : Nat)
  | sendReply (k : Nat)
  | eintr

/-- One step of a connection at time `now`, with what it writes to the storage. -/
inductive ConnStep (s : PageServer) (now : Nat) :
    Conn → Action → Conn → List (Cell × UInt8) → Prop
  | begin {c : Conn} (call : RpcCall) : c.active = none →
      ConnStep s now c (.begin call)
        { c with active := some ⟨call, call.program, [], []⟩, since := now } []
  | finish {c : Conn} {a : Active} : c.active = some a → a.io = [] →
      ConnStep s now c .finish
        { c with active := none, returned := c.returned ++ [⟨a.call, a.bufs, c.since, now⟩] } []
  | clientSend {c : Conn} {a : Active} {k : Nat} : c.active = some a →
      0 < k → k ≤ a.pending.length →
      ConnStep s now c (.clientSend k)
        { c with active := some (a.sent k), toServer := c.toServer ++ a.pending.take k } []
  | clientRecv {c : Conn} {a : Active} {k : Nat} : c.active = some a →
      0 < k → k ≤ a.needs → k ≤ c.toClient.length →
      ConnStep s now c (.clientRecv k)
        { c with active := some (a.receive (c.toClient.take k)), toClient := c.toClient.drop k } []
  | threadRecv {c : Conn} {k : Nat} : 0 < k → k ≤ c.thread.needs → k ≤ c.toServer.length →
      ConnStep s now c (.threadRecv k)
        { c with
          toServer := c.toServer.drop k
          thread := c.thread.receive s (c.toServer.take k) } []
  | copy {c : Conn} {pageId : UInt32} {data : Page} {todo : Finset (Fin pageSize)}
      {offset : Fin pageSize} : c.thread = .copying pageId data todo → offset ∈ todo →
      ConnStep s now c (.copy offset)
        { c with thread := .copied pageId data (todo.erase offset) }
        [((pageId, offset), data.byte offset)]
  | sendPage {c : Conn} {pageId : UInt32} {sent k : Nat} : c.thread = .sending pageId sent →
      0 < k → sent + k ≤ pageSize →
      ConnStep s now c (.sendPage k)
        { c with
          toClient := c.toClient ++ ((s.storage pageId).toList.drop sent).take k
          thread := if sent + k < pageSize then .sending pageId (sent + k) else .header [] } []
  | sendReply {c : Conn} {rest : Bytes} {k : Nat} : c.thread = .reply rest →
      0 < k → k ≤ rest.length →
      ConnStep s now c (.sendReply k)
        { c with
          toClient := c.toClient ++ rest.take k
          thread := if k < rest.length then .reply (rest.drop k) else .header [] } []
  | eintr (c : Conn) : ConnStep s now c .eintr c []

theorem ConnStep.of_begin {s : PageServer} {now : Nat} {c c' : Conn} {call : RpcCall}
    {written : List (Cell × UInt8)} (h : ConnStep s now c (.begin call) c' written) :
    c.active = none := by
  cases h with
  | begin _ hidle => exact hidle

theorem ConnStep.of_finish {s : PageServer} {now : Nat} {c c' : Conn}
    {written : List (Cell × UInt8)} (h : ConnStep s now c .finish c' written) :
    ∃ a, c.active = some a ∧ a.io = [] ∧ c'.active = none ∧
      c'.returned = c.returned ++ [⟨a.call, a.bufs, c.since, now⟩] := by
  cases h with
  | finish hactive hio => exact ⟨_, hactive, hio, rfl, rfl⟩

/-- The server with its clients, and the log of the storage. -/
structure Threads (ι : Type) where
  server : PageServer
  conns : ι → Conn
  log : List (Cell × UInt8)

variable {ι : Type}

def Threads.start (server : PageServer) : Threads ι := ⟨server, fun _ => .fresh, []⟩

variable [DecidableEq ι]

inductive ThreadsStep : Threads ι → ι × Action → Threads ι → Prop
  | on {s : Threads ι} (i : ι) {a : Action} {c : Conn} {written : List (Cell × UInt8)} :
      ConnStep s.server s.log.length (s.conns i) a c written →
      ThreadsStep s (i, a)
        ⟨written.foldl PageServer.write s.server, Function.update s.conns i c, s.log ++ written⟩

/-- A step concerns one connection. -/
theorem ThreadsStep.conn {s s' : Threads ι} {i : ι} {a : Action} (h : ThreadsStep s (i, a) s') :
    (∃ written, ConnStep s.server s.log.length (s.conns i) a (s'.conns i) written) ∧
      ∀ j, j ≠ i → s'.conns j = s.conns j := by
  cases h with
  | @on _ _ c written hconn =>
      refine ⟨⟨written, ?_⟩, fun j hj => Function.update_of_ne hj ..⟩
      dsimp only
      rw [Function.update_self]
      exact hconn

abbrev ThreadsRun : Threads ι → List (ι × Action) → Threads ι → Prop := Run ThreadsStep

end Dsm.Rpc
