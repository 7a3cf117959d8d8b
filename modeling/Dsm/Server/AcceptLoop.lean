import Dsm.Lib.Run
import Dsm.Server.Handler

/-!
# The accept loop and its handlers (`main` and `handle_client_thread` in `dsm_server.c`)

`main` accepts, starts one handler thread for each client, and is the only one that closes a
client's descriptor: on its own error paths, when it reaps ended threads because the slot table is
full, and at the end. A handler that leaves its loop just returns. Its descriptor stays open, and
its client hears nothing, until `main` comes by.

The threads interleave at the granularity of system calls. What a call returns is part of the label
of a step, so a step is a partial function of state and label. Descriptors are numbered by the
accepts; the kernel reuses a number only after its close.
-/

namespace Dsm.Server

open Dsm.Lib

/-! ## State -/

-- `MAX_CLIENTS`.
def maxClients : Nat := 256

/-- A client's descriptor in the server process. -/
inductive Descriptor
  | opened
  | shutDown
  | closed
  deriving DecidableEq

-- `shutdown` fails on a closed descriptor.
def Descriptor.shutdown : Descriptor → Descriptor
  | .opened => .shutDown
  | fd => fd

/-- A handler is about to test `running`, or past the test and in its request; or it has left its
loop, and then been joined. -/
inductive ThreadStatus
  | testing
  | serving
  | left
  | joined
  deriving DecidableEq

def ThreadStatus.inLoop : ThreadStatus → Bool
  | .testing => true
  | .serving => true
  | _ => false

/-- A handler thread, with the `fd` of its `client_thread_arg_t`. -/
structure ClientThread where
  fd : Nat
  status : ThreadStatus
  deriving DecidableEq

/-- `client_slot_t`. -/
structure ClientSlot where
  tid : Nat
  fd : Nat
  deriving DecidableEq

/-- Where `main` is, with its locals `client_fd`, `i` and `kept`. -/
inductive MainAt
  | testing
  | accepting
  | allocating (clientFd : Nat)
  | reaping (clientFd i kept : Nat)
  | growing (clientFd : Nat)
  | creating (clientFd : Nat)
  | shuttingDown (i : Nat)
  | joining (i : Nat)
  | returned
  deriving DecidableEq

/-- The accepted descriptor that `main` has not yet passed on or closed. -/
def MainAt.clientFd : MainAt → Option Nat
  | .allocating fd => some fd
  | .reaping fd _ _ => some fd
  | .growing fd => some fd
  | .creating fd => some fd
  | _ => none

/-- The process. `slots` is the memory of the table, of which `slotCount` entries are in use; a
descriptor is its place in `fds`, a thread id its place in `threads`. -/
structure AcceptLoop where
  running : Bool
  main : MainAt
  slots : Nat → ClientSlot
  slotCount : Nat
  slotCap : Nat
  fds : List Descriptor
  threads : List ClientThread
  server : PageServer

def AcceptLoop.start (server : PageServer) : AcceptLoop :=
  ⟨true, .testing, fun _ => ⟨0, 0⟩, 0, maxClients, [], [], server⟩

/-! ## A handler's turn -/

/-- One pass over the handler's loop, in two halves: the test of `running`; and the receive, with
the results of the forward and of the send if the request comes to them. -/
inductive HandlerTurn
  | test
  | recvFailed
  | request (req : Request) (forwarded sent : Bool)

/-- Whether the handler goes on after a request: every `break` of the loop body. -/
def PageServer.goesOn (s : PageServer) (req : Request) (forwarded sent : Bool) : Bool :=
  match s.dispatch req with
  | .page _ => sent
  | .store _ _ => sent
  | .zero => sent
  | .ignore => true
  | .leave => false
  | .forward =>
      match req with
      | .put _ _ => forwarded && sent
      | _ => sent

/-- The `memcpy` into storage precedes the send of the ACK. -/
def PageServer.afterRequest (s : PageServer) (req : Request) : PageServer :=
  match s.dispatch req with
  | .store pageId data => s.put pageId data
  | _ => s

/-- Whether the handler is still in its loop after the turn. -/
def AcceptLoop.goesOn (s : AcceptLoop) : HandlerTurn → Bool
  | .test => s.running
  | .recvFailed => false
  | .request req forwarded sent => s.server.goesOn req forwarded sent

/-- A turn a thread of this status can take, and the status it goes on with. -/
def ThreadStatus.turn : ThreadStatus → HandlerTurn → Option ThreadStatus
  | .testing, .test => some .serving
  | .serving, .recvFailed => some .testing
  | .serving, .request _ _ _ => some .testing
  | _, _ => none

def AcceptLoop.handlerStep (s : AcceptLoop) (tid : Nat) (turn : HandlerTurn) : Option AcceptLoop := do
  let t ← s.threads[tid]?
  let status ← t.status.turn turn
  some { s with
    threads := s.threads.set tid ⟨t.fd, if s.goesOn turn then status else .left⟩
    server :=
      match turn with
      | .request req _ _ => s.server.afterRequest req
      | _ => s.server }

/-! ## The main thread -/

/-- What `main` does next, with the result of the call. -/
inductive MainCall
  | test
  | accept
  | acceptInterrupted
  | acceptFailed
  | malloc (ok : Bool)
  | tryjoin (ended : Bool)
  | reaped
  | realloc (ok : Bool)
  | create (ok : Bool)
  | shutdown
  | join

/-- `close(client_fd)` and `continue`. -/
def AcceptLoop.giveUp (s : AcceptLoop) (clientFd : Nat) : AcceptLoop :=
  { s with main := .testing, fds := s.fds.set clientFd .closed }

/-- A successful join of the slot's thread, which must have left its loop, and the `close` of the
slot's descriptor. -/
def AcceptLoop.joinSlot (s : AcceptLoop) (slot : ClientSlot) : Option AcceptLoop :=
  match s.threads[slot.tid]? with
  | some ⟨fd, .left⟩ =>
      some { s with
        threads := s.threads.set slot.tid ⟨fd, .joined⟩
        fds := s.fds.set slot.fd .closed }
  | _ => none

/-- One iteration of the reaping loop. A thread on its way from its loop to its end is not yet there
for `pthread_tryjoin_np`. -/
def AcceptLoop.reapSlot (s : AcceptLoop) (clientFd i kept : Nat) (ended : Bool) : Option AcceptLoop :=
  if i < s.slotCount then
    if ended then
      (s.joinSlot (s.slots i)).map fun s' => { s' with main := .reaping clientFd (i + 1) kept }
    else
      some { s with
        main := .reaping clientFd (i + 1) (kept + 1)
        slots := Function.update s.slots kept (s.slots i) }
  else none

/-- `pthread_create` has started a thread: its slot is written. -/
def AcceptLoop.created (s : AcceptLoop) (clientFd : Nat) : AcceptLoop :=
  { s with
    main := .testing
    threads := s.threads ++ [⟨clientFd, .testing⟩]
    slots := Function.update s.slots s.slotCount ⟨s.threads.length, clientFd⟩
    slotCount := s.slotCount + 1 }

def AcceptLoop.mainStep (s : AcceptLoop) (call : MainCall) : Option AcceptLoop :=
  match s.main, call with
  | .testing, .test => some { s with main := if s.running then .accepting else .shuttingDown 0 }
  | .accepting, .accept =>
      some { s with main := .allocating s.fds.length, fds := s.fds ++ [.opened] }
  | .accepting, .acceptInterrupted => some { s with main := .testing }
  | .accepting, .acceptFailed => some { s with main := .shuttingDown 0 }
  | .allocating fd, .malloc true =>
      some { s with main := if s.slotCount = s.slotCap then .reaping fd 0 0 else .creating fd }
  | .allocating fd, .malloc false => some (s.giveUp fd)
  | .reaping fd i kept, .tryjoin ended => s.reapSlot fd i kept ended
  | .reaping fd i kept, .reaped =>
      if i < s.slotCount then none
      else some { s with
        slotCount := kept
        main := if kept = s.slotCap then .growing fd else .creating fd }
  | .growing fd, .realloc true => some { s with main := .creating fd, slotCap := 2 * s.slotCap }
  | .growing fd, .realloc false => some (s.giveUp fd)
  | .creating fd, .create true => some (s.created fd)
  | .creating fd, .create false => some (s.giveUp fd)
  | .shuttingDown i, .shutdown =>
      if i < s.slotCount then
        some { s with
          main := .shuttingDown (i + 1)
          fds := s.fds.modify (s.slots i).fd Descriptor.shutdown }
      else some { s with main := .joining 0 }
  | .joining i, .join =>
      if i < s.slotCount then
        (s.joinSlot (s.slots i)).map fun s' => { s' with main := .joining (i + 1) }
      else some { s with main := .returned }
  | _, _ => none

/-! ## The process -/

inductive LoopEvent
  | signal
  | main (call : MainCall)
  | handler (tid : Nat) (turn : HandlerTurn)

def AcceptLoop.step (s : AcceptLoop) : LoopEvent → Option AcceptLoop
  | .signal => some { s with running := false }
  | .main call => s.mainStep call
  | .handler tid turn => s.handlerStep tid turn

def LoopStep (s : AcceptLoop) (event : LoopEvent) (s' : AcceptLoop) : Prop :=
  s.step event = some s'

abbrev LoopRun := Run LoopStep

end Dsm.Server
