import Dsm.Lib.Run
import Dsm.Rpc.Wire

/-!
# One client and one handler on a connection (`dsm_common.c`, `dsm_server.c`)

Both ends work through loops of system calls, each of which moves some of the bytes that were asked
for or is interrupted and repeated. A run is any interleaving of such calls over the two byte
streams of the connection, so every fragmentation is a run. The client makes a list of RPCs, one
after the other; the handler reads a header, for a PUT the page, does what the server does with the
request, and writes the reply.
-/

namespace Dsm.Rpc

open Dsm.Server Dsm.Lib

/-! ## The client's side -/

/-- A loop of system calls: `dsm_send_full` with what is left to send, `dsm_sendv` with its copy of
the vector, `dsm_recv_full` for so many bytes. -/
inductive Io
  | sendFull (rest : Bytes)
  | sendv (iov : List Bytes)
  | recvFull (len : Nat)

/-- The bytes a loop has still to send. -/
def Io.pending : Io → Bytes
  | .sendFull rest => rest
  | .sendv iov => iov.flatten
  | .recvFull _ => []

/-- The inner loop of `dsm_sendv`, after `writev` has taken `written` bytes. -/
def advanceIov : List Bytes → Nat → List Bytes
  | [], _ => []
  | v :: iov, written =>
      if written = 0 then v :: iov
      else if v.length ≤ written then advanceIov iov (written - v.length)
      else v.drop written :: iov

/-- What is left of a loop after a `send` or `writev` that took `k` bytes: the loop, or nothing. -/
def Io.sent (k : Nat) : Io → List Io
  | .sendFull rest => if k < rest.length then [.sendFull (rest.drop k)] else []
  | .sendv iov =>
      match advanceIov iov k with
      | [] => []
      | v :: iov' => [.sendv (v :: iov')]
  | .recvFull len => [.recvFull len]

inductive RpcCall
  | get (pageId : UInt32)
  | getBatch (ids : List UInt32)
  | put (pageId : UInt32) (data : Page)

/-- The loops that `dsm_rpc_get`, `dsm_rpc_get_batch` and `dsm_rpc_put` go through, in order. -/
def RpcCall.program : RpcCall → List Io
  | .get pageId => [.sendFull (dsmRpcMakeHeader opGetPage pageId), .recvFull pageSize]
  | .getBatch ids =>
      (ids.map fun id => .sendFull (dsmRpcMakeHeader opGetPage id)) ++
        ids.map fun _ => .recvFull pageSize
  | .put pageId data =>
      [.sendv [dsmRpcMakeHeader opPutPage pageId, data.toList], .recvFull headerSize]

/-- The requests a call puts on the stream. -/
def RpcCall.requests : RpcCall → List Request
  | .get pageId => [.get pageId]
  | .getBatch ids => ids.map .get
  | .put pageId data => [.put pageId data]

/-- Whether the call returns 0, from the buffers its receive loops filled. -/
def RpcCall.succeeds : RpcCall → List Bytes → Bool
  | .put _ _, bufs => headerOp (bufs.headD []) = opAck
  | _, _ => true

/-- A call in progress: the loops to go, what the receive loop at their head has got so far, and the
buffers filled before. -/
structure Active where
  call : RpcCall
  io : List Io
  got : Bytes
  bufs : List Bytes

/-- The client: calls to make, the one in progress, and those that returned, with their buffers. -/
structure Client where
  todo : List RpcCall
  active : Option Active
  returned : List (RpcCall × List Bytes)

/-- What the next `send` or `writev` is asked to send. -/
def Active.pending (a : Active) : Bytes :=
  match a.io with
  | io :: _ => io.pending
  | [] => []

/-- After a `send` or `writev` that took `k` bytes. -/
def Active.sent (a : Active) (k : Nat) : Active :=
  match a.io with
  | io :: rest => { a with io := io.sent k ++ rest }
  | [] => a

/-- What the next `recv` is asked for. -/
def Active.needs (a : Active) : Nat :=
  match a.io with
  | .recvFull len :: _ => len - a.got.length
  | _ => 0

def Active.receive (a : Active) (bytes : Bytes) : Active :=
  match a.io with
  | .recvFull len :: io =>
      if (a.got ++ bytes).length < len then { a with got := a.got ++ bytes }
      else { a with io := io, got := [], bufs := a.bufs ++ [a.got ++ bytes] }
  | _ => a

/-! ## The handler's side -/

/-- Where the handler is in its loop. -/
inductive Handler
  | header (got : Bytes)
  | body (pageId : UInt32) (got : Bytes)
  | reply (rest : Bytes)
  | left

def Handler.needs : Handler → Nat
  | .header got => headerSize - got.length
  | .body _ got => pageSize - got.length
  | _ => 0

def Handler.pending : Handler → Bytes
  | .reply rest => rest
  | _ => []

/-- The connection with both ends; `decoded` is the history of requests the handler has read. -/
structure Link where
  client : Client
  toServer : Bytes
  toClient : Bytes
  handler : Handler
  server : PageServer
  decoded : List Request

/-- The handler once a request is complete. -/
def Link.handle (l : Link) (req : Request) : Link :=
  let l := { l with decoded := l.decoded ++ [req] }
  match answer l.server req with
  | some (server, []) => { l with server := server, handler := .header [] }
  | some (server, reply) => { l with server := server, handler := .reply reply }
  | none => { l with handler := .left }

def Link.serverReceive (l : Link) (bytes : Bytes) : Link :=
  match l.handler with
  | .header got =>
      let got := got ++ bytes
      if got.length < headerSize then { l with handler := .header got }
      else if headerOp got = opGetPage then l.handle (.get (headerPageId got))
      else if headerOp got = opPutPage then { l with handler := .body (headerPageId got) [] }
      else l.handle (.other (headerOp got) (headerPageId got))
  | .body pageId got =>
      let got := got ++ bytes
      if got.length < pageSize then { l with handler := .body pageId got }
      else l.handle (.put pageId (pageOfBytes got))
  | _ => l

/-- After a `recv` of the handler that took `k` bytes. -/
def Link.serverTake (l : Link) (k : Nat) : Link :=
  Link.serverReceive { l with toServer := l.toServer.drop k } (l.toServer.take k)

def Link.serverSent (l : Link) (k : Nat) : Link :=
  { l with
    handler := if k < l.handler.pending.length then .reply (l.handler.pending.drop k)
      else .header [] }

/-! ## Runs -/

/-- What moves: a system call of either end with the number of bytes it moved, or with `EINTR`; and
the client entering and leaving its calls. -/
inductive Syscall
  | begin
  | finish
  | clientSend (k : Nat)
  | clientRecv (k : Nat)
  | serverSend (k : Nat)
  | serverRecv (k : Nat)
  | eintr

def Syscall.moves : Syscall → Bool
  | .eintr => false
  | _ => true

def Link.setActive (l : Link) (active : Option Active) : Link :=
  { l with client := { l.client with active := active } }

inductive LinkStep : Link → Syscall → Link → Prop
  | begin {l : Link} {call : RpcCall} {todo : List RpcCall} :
      l.client.active = none → l.client.todo = call :: todo →
      LinkStep l .begin { l with client :=
        { l.client with todo := todo, active := some ⟨call, call.program, [], []⟩ } }
  | finish {l : Link} {a : Active} : l.client.active = some a → a.io = [] →
      LinkStep l .finish { l with client :=
        { l.client with active := none, returned := l.client.returned ++ [(a.call, a.bufs)] } }
  | clientSend {l : Link} {a : Active} {k : Nat} : l.client.active = some a →
      0 < k → k ≤ a.pending.length →
      LinkStep l (.clientSend k)
        { l.setActive (some (a.sent k)) with toServer := l.toServer ++ a.pending.take k }
  | clientRecv {l : Link} {a : Active} {k : Nat} : l.client.active = some a →
      0 < k → k ≤ a.needs → k ≤ l.toClient.length →
      LinkStep l (.clientRecv k)
        { l.setActive (some (a.receive (l.toClient.take k))) with toClient := l.toClient.drop k }
  | serverSend {l : Link} {k : Nat} : 0 < k → k ≤ l.handler.pending.length →
      LinkStep l (.serverSend k)
        { l.serverSent k with toClient := l.toClient ++ l.handler.pending.take k }
  | serverRecv {l : Link} {k : Nat} : 0 < k → k ≤ l.handler.needs → k ≤ l.toServer.length →
      LinkStep l (.serverRecv k) (l.serverTake k)
  | eintr (l : Link) : LinkStep l .eintr l

abbrev LinkRun : Link → List Syscall → Link → Prop := Run LinkStep

/-- A fresh connection to a server, and a client with calls to make. -/
def Link.start (server : PageServer) (calls : List RpcCall) : Link where
  client := ⟨calls, none, []⟩
  toServer := []
  toClient := []
  handler := .header []
  server := server
  decoded := []

/-! ## The vectored send -/

theorem flatten_advanceIov (iov : List Bytes) (k : Nat) :
    (advanceIov iov k).flatten = iov.flatten.drop k := by
  induction iov generalizing k with
  | nil => simp [advanceIov]
  | cons v iov ih =>
      rw [advanceIov, List.flatten_cons]
      split
      · next hk => rw [hk, List.drop_zero, List.flatten_cons]
      · split
        · next hv => rw [ih, List.drop_append, List.drop_eq_nil_of_le hv, List.nil_append]
        · next hv =>
          rw [List.flatten_cons, List.drop_append_of_le_length (by omega)]

theorem advanceIov_ne_nil {iov : List Bytes} (h : ∀ v ∈ iov, v ≠ []) (k : Nat) :
    ∀ v ∈ advanceIov iov k, v ≠ [] := by
  induction iov generalizing k with
  | nil => exact fun v hv => absurd hv List.not_mem_nil
  | cons v iov ih =>
      have htail : ∀ u ∈ iov, u ≠ [] := fun u hu => h u (List.mem_cons_of_mem _ hu)
      rw [advanceIov]
      split
      · exact h
      · split
        · exact ih htail _
        · next hk hv =>
          intro u hu
          rcases List.mem_cons.mp hu with rfl | hu
          · intro hnil
            have := List.drop_eq_nil_iff.mp hnil
            omega
          · exact htail u hu

end Dsm.Rpc
