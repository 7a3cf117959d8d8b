import Dsm.Lib.Messages
import Dsm.Rpc.Connection

/-!
# The two ends stay in step

Two equations hold in every state of a connection, however the streams are cut. Upwards: what the
handler has of its current request, what is in the stream and what the client has still to send are,
one after the other, the requests not yet decoded. Downwards: what the client has received, what is
in the stream and what the handler has still to send are the replies to the requests decoded. Every
system call keeps both and brings the calls nearer to their end.
-/

namespace Dsm.Rpc

open Dsm.Server Dsm.Lib

/-! ## The client's calls -/

/-- A loop that sends, and is not done. -/
def Io.Sends : Io → Prop
  | .sendFull rest => rest ≠ []
  | .sendv iov => iov ≠ [] ∧ ∀ v ∈ iov, v ≠ []
  | .recvFull _ => False

/-- A call in progress first sends all its requests and then receives, into buffers of the sizes of
the replies. -/
structure Active.Shape (a : Active) (sends : List Io) (lens : List Nat) : Prop where
  io : a.io = sends ++ lens.map Io.recvFull
  sending : ∀ io ∈ sends, io.Sends
  sizes : a.call.requests.map replySize = a.bufs.map List.length ++ lens
  fresh : sends ≠ [] → a.got = []
  pos : ∀ n ∈ lens, 0 < n
  room : ∀ n rest, lens = n :: rest → a.got.length < n
  done : lens = [] → a.got = []

def Active.toSend (a : Active) : Bytes := a.io.flatMap Io.pending

def Active.received (a : Active) : Bytes := a.bufs.flatten ++ a.got

theorem flatMap_pending_recv (lens : List Nat) :
    (lens.map Io.recvFull).flatMap Io.pending = [] := by
  induction lens with
  | nil => rfl
  | cons n lens ih =>
      rw [List.map_cons, List.flatMap_cons, ih]
      rfl

/-- What a call puts on the stream is its requests. -/
theorem program_toSend (call : RpcCall) :
    call.program.flatMap Io.pending = call.requests.flatMap requestBytes := by
  cases call with
  | get pageId => rfl
  | getBatch ids =>
      have hrecv := flatMap_pending_recv (ids.map fun _ => pageSize)
      rw [List.map_map] at hrecv
      show ((ids.map fun id => Io.sendFull (dsmRpcMakeHeader opGetPage id)) ++
        ids.map fun _ => Io.recvFull pageSize).flatMap Io.pending = _
      rw [List.flatMap_append, List.flatMap_map]
      show _ ++ (ids.map (Io.recvFull ∘ fun _ => pageSize)).flatMap Io.pending = _
      rw [hrecv, List.append_nil, RpcCall.requests, List.flatMap_map]
      rfl
  | put pageId data =>
      simp [RpcCall.program, RpcCall.requests, Io.pending, requestBytes]

theorem program_shape (call : RpcCall) :
    ∃ sends lens, Active.Shape ⟨call, call.program, [], []⟩ sends lens := by
  cases call with
  | get pageId =>
      refine ⟨[.sendFull (dsmRpcMakeHeader opGetPage pageId)], [pageSize], rfl, ?_, rfl,
        fun _ => rfl, ?_, ?_, fun _ => rfl⟩
      · intro io hio
        obtain rfl := List.mem_singleton.mp hio
        exact List.cons_ne_nil _ _
      · intro n hn
        obtain rfl := List.mem_singleton.mp hn
        exact Nat.succ_pos _
      · intro n rest hn
        cases hn
        exact Nat.succ_pos _
  | getBatch ids =>
      refine ⟨ids.map fun id => .sendFull (dsmRpcMakeHeader opGetPage id),
        ids.map fun _ => pageSize, ?_, ?_, ?_, fun _ => rfl, ?_, ?_, fun _ => rfl⟩
      · rw [List.map_map]
        rfl
      · intro io hio
        obtain ⟨id, -, rfl⟩ := List.mem_map.mp hio
        exact List.cons_ne_nil _ _
      · show (ids.map Request.get).map replySize = _
        rw [List.map_map]
        rfl
      · intro n hn
        obtain ⟨_, -, rfl⟩ := List.mem_map.mp hn
        exact Nat.succ_pos _
      · intro n rest hn
        have hmem : n ∈ ids.map fun _ => pageSize := by rw [hn]; exact List.mem_cons_self
        obtain ⟨_, -, rfl⟩ := List.mem_map.mp hmem
        exact Nat.succ_pos _
  | put pageId data =>
      refine ⟨[.sendv [dsmRpcMakeHeader opPutPage pageId, data.toList]], [headerSize], rfl, ?_, rfl,
        fun _ => rfl, ?_, ?_, fun _ => rfl⟩
      · intro io hio
        obtain rfl := List.mem_singleton.mp hio
        refine ⟨List.cons_ne_nil _ _, ?_⟩
        intro v hv
        have hdata : data.toList ≠ [] := by
          intro hnil
          have := congrArg List.length hnil
          rw [length_page_toList] at this
          cases this
        rcases List.mem_cons.mp hv with rfl | hv
        · exact List.cons_ne_nil _ _
        · obtain rfl := List.mem_singleton.mp hv
          exact hdata
      · intro n hn
        obtain rfl := List.mem_singleton.mp hn
        exact Nat.succ_pos _
      · intro n rest hn
        cases hn
        exact Nat.succ_pos _

/-- One `send` or `writev`: what was taken and what is left make up what was pending. -/
theorem Io.Sends.sent {io : Io} (h : io.Sends) (k : Nat) :
    (∀ io' ∈ io.sent k, io'.Sends) ∧
      io.pending.take k ++ (io.sent k).flatMap Io.pending = io.pending := by
  cases io with
  | recvFull len => exact h.elim
  | sendFull rest =>
      by_cases hlt : k < rest.length
      · have hrest : rest.drop k ≠ [] := by
          rw [Ne, List.drop_eq_nil_iff]
          omega
        rw [Io.sent, if_pos hlt]
        refine ⟨fun io' hio' => ?_, ?_⟩
        · obtain rfl := List.mem_singleton.mp hio'
          exact hrest
        · show rest.take k ++ (rest.drop k ++ []) = rest
          rw [List.append_nil, List.take_append_drop]
      · rw [Io.sent, if_neg hlt]
        refine ⟨fun io' hio' => absurd hio' List.not_mem_nil, ?_⟩
        show rest.take k ++ [] = rest
        rw [List.append_nil, List.take_of_length_le (by omega)]
  | sendv iov =>
      obtain ⟨-, hne⟩ := h
      have hflat := flatten_advanceIov iov k
      have hadv := advanceIov_ne_nil hne k
      cases hiov : advanceIov iov k with
      | nil =>
          have hsent : (Io.sendv iov).sent k = [] := by simp only [Io.sent, hiov]
          rw [hsent]
          refine ⟨fun io' hio' => absurd hio' List.not_mem_nil, ?_⟩
          rw [hiov] at hflat
          show iov.flatten.take k ++ [] = iov.flatten
          rw [List.append_nil, List.take_of_length_le (List.drop_eq_nil_iff.mp hflat.symm)]
      | cons v iov' =>
          rw [hiov] at hflat hadv
          have hsent : (Io.sendv iov).sent k = [.sendv (v :: iov')] := by simp only [Io.sent, hiov]
          rw [hsent]
          refine ⟨fun io' hio' => ?_, ?_⟩
          · obtain rfl := List.mem_singleton.mp hio'
            exact ⟨List.cons_ne_nil _ _, hadv⟩
          · show iov.flatten.take k ++ ((v :: iov').flatten ++ []) = iov.flatten
            rw [List.append_nil, hflat, List.take_append_drop]

/-- A call that sends is at one of its requests, a call that receives has sent them all. -/
theorem Active.Shape.pending_cons {a : Active} {sends : List Io} {lens : List Nat}
    (h : a.Shape sends lens) (hpos : 0 < a.pending.length) :
    ∃ io rest, sends = io :: rest ∧ a.io = io :: (rest ++ lens.map Io.recvFull) := by
  cases sends with
  | cons io rest => exact ⟨io, rest, rfl, h.io⟩
  | nil =>
      have hio := h.io
      rw [List.nil_append] at hio
      unfold Active.pending at hpos
      rw [hio] at hpos
      cases lens with
      | nil => exact absurd hpos (Nat.lt_irrefl 0)
      | cons n lens => exact absurd hpos (Nat.lt_irrefl 0)

theorem Active.Shape.sent {a : Active} {sends : List Io} {lens : List Nat} (h : a.Shape sends lens)
    {k : Nat} (hk : 0 < k) (hle : k ≤ a.pending.length) :
    (∃ sends', (a.sent k).Shape sends' lens) ∧ (a.sent k).call = a.call ∧
      (a.sent k).received = a.received ∧ a.pending.take k ++ (a.sent k).toSend = a.toSend := by
  obtain ⟨io, rest, rfl, hio⟩ := h.pending_cons (by omega)
  obtain ⟨hsending, hbytes⟩ := (h.sending io List.mem_cons_self).sent k
  have hgot : a.got = [] := h.fresh (List.cons_ne_nil _ _)
  have hsent : a.sent k = { a with io := io.sent k ++ (rest ++ lens.map Io.recvFull) } := by
    unfold Active.sent
    rw [hio]
  have hpending : a.pending = io.pending := by
    unfold Active.pending
    rw [hio]
  rw [hsent, hpending]
  refine ⟨⟨io.sent k ++ rest, ?_, ?_, h.sizes, fun _ => hgot, h.pos, h.room, h.done⟩, rfl, rfl, ?_⟩
  · exact (List.append_assoc _ _ _).symm
  · intro io' hio'
    rcases List.mem_append.mp hio' with hio' | hio'
    · exact hsending io' hio'
    · exact h.sending io' (List.mem_cons_of_mem _ hio')
  · show io.pending.take k ++ (io.sent k ++ (rest ++ lens.map Io.recvFull)).flatMap Io.pending =
      a.io.flatMap Io.pending
    rw [hio, List.flatMap_append, ← List.append_assoc, hbytes, List.flatMap_cons]

theorem Active.Shape.needs_cons {a : Active} {sends : List Io} {lens : List Nat}
    (h : a.Shape sends lens) (hpos : 0 < a.needs) :
    ∃ n rest, sends = [] ∧ lens = n :: rest ∧ a.io = .recvFull n :: rest.map Io.recvFull := by
  have hio := h.io
  cases sends with
  | cons io sends =>
      -- The loop at the head sends.
      have hsends := h.sending io List.mem_cons_self
      unfold Active.needs at hpos
      rw [hio] at hpos
      cases io with
      | recvFull len => exact hsends.elim
      | sendFull rest => exact absurd hpos (Nat.lt_irrefl 0)
      | sendv iov => exact absurd hpos (Nat.lt_irrefl 0)
  | nil =>
      cases lens with
      | nil =>
          unfold Active.needs at hpos
          rw [hio] at hpos
          exact absurd hpos (Nat.lt_irrefl 0)
      | cons n lens => exact ⟨n, lens, rfl, rfl, hio⟩

/-- One `recv` of the client. -/
theorem Active.Shape.receive {a : Active} {sends : List Io} {lens : List Nat}
    (h : a.Shape sends lens) {bytes : Bytes} (hpos : 0 < bytes.length)
    (hle : bytes.length ≤ a.needs) :
    (∃ lens', (a.receive bytes).Shape [] lens') ∧ (a.receive bytes).call = a.call ∧
      (a.receive bytes).received = a.received ++ bytes ∧
      a.toSend = [] ∧ (a.receive bytes).toSend = [] := by
  obtain ⟨n, rest, rfl, rfl, hio⟩ := h.needs_cons (by omega)
  have hgot := h.room n rest rfl
  have hneeds : a.needs = n - a.got.length := by
    unfold Active.needs
    rw [hio]
  have hlen : (a.got ++ bytes).length = a.got.length + bytes.length := List.length_append
  have hsend : a.toSend = [] := by
    unfold Active.toSend
    rw [hio]
    exact flatMap_pending_recv (n :: rest)
  by_cases hlt : (a.got ++ bytes).length < n
  · have hrecv : a.receive bytes = { a with got := a.got ++ bytes } := by
      unfold Active.receive
      rw [hio]
      exact if_pos hlt
    rw [hrecv]
    refine ⟨⟨n :: rest, h.io, h.sending, h.sizes, fun hc => absurd rfl hc, h.pos, ?_,
      fun hc => nomatch hc⟩, rfl, ?_, hsend, hsend⟩
    · intro m rest' hm
      cases hm
      exact hlt
    · exact (List.append_assoc _ _ _).symm
  · have hrecv : a.receive bytes =
        { a with io := rest.map Io.recvFull, got := [], bufs := a.bufs ++ [a.got ++ bytes] } := by
      unfold Active.receive
      rw [hio]
      exact if_neg hlt
    have hfull : (a.got ++ bytes).length = n := by omega
    rw [hrecv]
    refine ⟨⟨rest, rfl, h.sending, ?_, fun hc => absurd rfl hc, ?_, ?_, fun _ => rfl⟩, rfl, ?_,
      hsend, flatMap_pending_recv rest⟩
    · show a.call.requests.map replySize = (a.bufs ++ [a.got ++ bytes]).map List.length ++ rest
      rw [h.sizes, List.map_append, List.append_assoc]
      show a.bufs.map List.length ++ n :: rest =
        a.bufs.map List.length ++ ((a.got ++ bytes).length :: rest)
      rw [hfull]
    · exact fun m hm => h.pos m (List.mem_cons_of_mem _ hm)
    · intro m rest' hm
      exact h.pos m (List.mem_cons_of_mem _ (hm ▸ List.mem_cons_self))
    · show (a.bufs ++ [a.got ++ bytes]).flatten ++ [] = (a.bufs.flatten ++ a.got) ++ bytes
      simp

/-! ## The two equations -/

def Client.calls (c : Client) : List RpcCall :=
  c.returned.map Prod.fst ++ (c.active.toList.map Active.call ++ c.todo)

def Client.toSend (c : Client) : Bytes :=
  c.active.toList.flatMap Active.toSend ++ (c.todo.flatMap RpcCall.requests).flatMap requestBytes

def Client.received (c : Client) : Bytes :=
  c.returned.flatMap (fun r => r.2.flatten) ++ c.active.toList.flatMap Active.received

/-- What the handler has of the request it is reading. -/
def Handler.got : Handler → Bytes
  | .header got => got
  | .body pageId got => dsmRpcMakeHeader opPutPage pageId ++ got
  | _ => []

/-- The handler's position against the requests still to be decoded. -/
def Handler.InStep (undecoded : List Request) : Handler → Prop
  | .header got => got.length < headerSize
  | .body pageId got => got.length < pageSize ∧ ∃ data rest, undecoded = .put pageId data :: rest
  | .reply rest => rest ≠ []
  | .left => False

/-- **The invariant of a connection.** -/
structure Framed (s : PageServer) (calls : List RpcCall) (undecoded : List Request) (l : Link) :
    Prop where
  order : l.client.calls = calls
  shape : ∀ a, l.client.active = some a → ∃ sends lens, a.Shape sends lens
  returned : ∀ r ∈ l.client.returned, r.2.map List.length = r.1.requests.map replySize
  sequence : l.decoded ++ undecoded = calls.flatMap RpcCall.requests
  up : undecoded.flatMap requestBytes = l.handler.got ++ l.toServer ++ l.client.toSend
  server : l.server = serveAll s l.decoded
  down : l.client.received ++ l.toClient ++ l.handler.pending = replies s l.decoded
  handler : l.handler.InStep undecoded

/-- The bytes that have still to move, each counted once per stream end, and the calls to make. -/
def Link.work (undecoded : List Request) (l : Link) : Nat :=
  2 * l.client.toSend.length + l.toServer.length +
    2 * ((undecoded.map replySize).sum + l.handler.pending.length) + l.toClient.length +
    2 * l.client.todo.length + l.client.active.toList.length

/-- A standalone server with room for every page the calls ask for. -/
structure Served (s : PageServer) (calls : List RpcCall) : Prop where
  standalone : s.cluster = none
  room : ∀ call ∈ calls, ∀ req ∈ call.requests, req.pageId < s.storagePages

theorem RpcCall.known {call : RpcCall} {req : Request} (h : req ∈ call.requests) : req.Known := by
  cases call with
  | get pageId =>
      obtain rfl := List.mem_singleton.mp h
      trivial
  | getBatch ids =>
      obtain ⟨id, -, rfl⟩ := List.mem_map.mp h
      trivial
  | put pageId data =>
      obtain rfl := List.mem_singleton.mp h
      trivial

theorem Framed.start (s : PageServer) (calls : List RpcCall) :
    Framed s calls (calls.flatMap RpcCall.requests) (Link.start s calls) where
  order := rfl
  shape := fun _ h => nomatch h
  returned := fun _ h => absurd h List.not_mem_nil
  sequence := rfl
  up := rfl
  server := rfl
  down := rfl
  handler := Nat.succ_pos _

section Steps

variable {s : PageServer} {calls : List RpcCall} {undecoded : List Request} {l : Link}

/-! ## The client's steps -/

/-- A step of the client, which may move bytes out of it or into it. -/
theorem Framed.client (h : Framed s calls undecoded l) {c : Client} {toServer toClient : Bytes}
    (horder : c.calls = l.client.calls)
    (hshape : ∀ a, c.active = some a → ∃ sends lens, a.Shape sends lens)
    (hreturned : ∀ r ∈ c.returned, r.2.map List.length = r.1.requests.map replySize)
    (hup : toServer ++ c.toSend = l.toServer ++ l.client.toSend)
    (hdown : c.received ++ toClient = l.client.received ++ l.toClient) :
    Framed s calls undecoded { l with client := c, toServer := toServer, toClient := toClient } where
  order := horder.trans h.order
  shape := hshape
  returned := hreturned
  sequence := h.sequence
  up := by
    rw [h.up, List.append_assoc, ← hup, ← List.append_assoc]
  server := h.server
  down := by
    rw [← h.down]
    exact congrArg (· ++ l.handler.pending) hdown
  handler := h.handler

-- The views of a client inside and outside a call.
theorem Client.views_some {c : Client} {a : Active} (h : c.active = some a) :
    c.calls = c.returned.map Prod.fst ++ a.call :: c.todo ∧
      c.toSend = a.toSend ++ (c.todo.flatMap RpcCall.requests).flatMap requestBytes ∧
      c.received = c.returned.flatMap (fun r => r.2.flatten) ++ a.received := by
  simp [Client.calls, Client.toSend, Client.received, h]

theorem Client.views_none {c : Client} (h : c.active = none) :
    c.calls = c.returned.map Prod.fst ++ c.todo ∧
      c.toSend = (c.todo.flatMap RpcCall.requests).flatMap requestBytes ∧
      c.received = c.returned.flatMap (fun r => r.2.flatten) := by
  simp [Client.calls, Client.toSend, Client.received, h]

theorem Framed.begin (h : Framed s calls undecoded l) {call : RpcCall} {todo : List RpcCall}
    (hactive : l.client.active = none) (htodo : l.client.todo = call :: todo) :
    let l' := { l with client :=
      { l.client with todo := todo, active := some ⟨call, call.program, [], []⟩ } }
    Framed s calls undecoded l' ∧ l'.work undecoded < l.work undecoded := by
  intro l'
  obtain ⟨hcalls, hsend, hrecv⟩ := Client.views_none hactive
  obtain ⟨hcalls', hsend', hrecv'⟩ := Client.views_some (show l'.client.active = some _ from rfl)
  have hsame : l'.client.toSend = l.client.toSend := by
    rw [hsend', hsend, htodo, List.flatMap_cons, List.flatMap_append]
    exact congrArg (· ++ _) (program_toSend call)
  refine ⟨h.client (c := l'.client) ?_ ?_ h.returned (congrArg (l.toServer ++ ·) hsame) ?_, ?_⟩
  · rw [hcalls', hcalls, htodo]
  · intro a ha
    obtain rfl := Option.some.inj ha
    exact program_shape call
  · rw [hrecv', hrecv]
    exact congrArg (· ++ _) (List.append_nil _)
  · have hlen : l.client.todo.length = todo.length + 1 := by rw [htodo]; rfl
    simp only [Link.work, hsame, hlen, hactive, Option.toList_none, List.length_nil]
    show _ + 2 * todo.length + 1 < _
    simp only [l']
    omega

theorem Framed.finish (h : Framed s calls undecoded l) {a : Active}
    (hactive : l.client.active = some a) (hio : a.io = []) :
    let l' := { l with client :=
      { l.client with active := none, returned := l.client.returned ++ [(a.call, a.bufs)] } }
    Framed s calls undecoded l' ∧ l'.work undecoded < l.work undecoded := by
  intro l'
  obtain ⟨sends, lens, hshape⟩ := h.shape a hactive
  -- With no loop left all buffers are full.
  obtain ⟨rfl, hlens⟩ : sends = [] ∧ lens.map Io.recvFull = [] :=
    List.append_eq_nil_iff.mp (hshape.io.symm.trans hio)
  obtain rfl : lens = [] := List.map_eq_nil_iff.mp hlens
  have hgot : a.got = [] := hshape.done rfl
  obtain ⟨hcalls, hsend, hrecv⟩ := Client.views_some hactive
  obtain ⟨hcalls', hsend', hrecv'⟩ := Client.views_none (show l'.client.active = none from rfl)
  have hsame : l'.client.toSend = l.client.toSend := by
    rw [hsend', hsend, Active.toSend, hio]
    rfl
  refine ⟨h.client (c := l'.client) ?_ (fun _ hc => nomatch hc) ?_ (congrArg (l.toServer ++ ·) hsame) ?_, ?_⟩
  · rw [hcalls', hcalls]
    show (l.client.returned ++ [(a.call, a.bufs)]).map Prod.fst ++ l.client.todo = _
    simp
  · intro r hr
    rcases List.mem_append.mp hr with hr | hr
    · exact h.returned r hr
    · obtain rfl := List.mem_singleton.mp hr
      exact (hshape.sizes.trans (List.append_nil _)).symm
  · rw [hrecv', hrecv]
    show (l.client.returned ++ [(a.call, a.bufs)]).flatMap (fun r => r.2.flatten) ++ l.toClient = _
    simp [Active.received, hgot]
  · simp only [Link.work, hsame, hactive, Option.toList_some, List.length_singleton]
    show _ + 2 * l.client.todo.length + 0 < _
    simp only [l']
    omega

theorem Framed.clientSend (h : Framed s calls undecoded l) {a : Active} {k : Nat}
    (hactive : l.client.active = some a) (hk : 0 < k) (hle : k ≤ a.pending.length) :
    let l' := { l.setActive (some (a.sent k)) with toServer := l.toServer ++ a.pending.take k }
    Framed s calls undecoded l' ∧ l'.work undecoded < l.work undecoded := by
  intro l'
  obtain ⟨sends, lens, hshape⟩ := h.shape a hactive
  obtain ⟨⟨sends', hshape'⟩, hcall, hreceived, hbytes⟩ := hshape.sent hk hle
  obtain ⟨hcalls, hsend, hrecv⟩ := Client.views_some hactive
  obtain ⟨hcalls', hsend', hrecv'⟩ :=
    Client.views_some (show l'.client.active = some (a.sent k) from rfl)
  have hmoved : a.pending.take k ++ l'.client.toSend = l.client.toSend := by
    rw [hsend', hsend, ← List.append_assoc, hbytes]
    rfl
  refine ⟨h.client (c := l'.client) ?_ ?_ h.returned ?_ ?_, ?_⟩
  · rw [hcalls', hcalls, hcall]
    rfl
  · intro b hb
    obtain rfl := Option.some.inj hb
    exact ⟨sends', lens, hshape'⟩
  · rw [List.append_assoc, hmoved]
  · rw [hrecv', hrecv, hreceived]
    rfl
  · have hlen := congrArg List.length hmoved
    rw [List.length_append, List.length_take] at hlen
    simp only [Link.work, hactive]
    show 2 * l'.client.toSend.length + (l.toServer ++ a.pending.take k).length + _ + _ +
      2 * l.client.todo.length + 1 < _
    simp only [List.length_append, List.length_take, Option.toList_some, List.length_singleton]
    show _ + 2 * (_ + l.handler.pending.length) + l.toClient.length + _ + _ < _
    omega

theorem Framed.clientRecv (h : Framed s calls undecoded l) {a : Active} {k : Nat}
    (hactive : l.client.active = some a) (hk : 0 < k) (hneeds : k ≤ a.needs)
    (hle : k ≤ l.toClient.length) :
    let l' :=
      { l.setActive (some (a.receive (l.toClient.take k))) with toClient := l.toClient.drop k }
    Framed s calls undecoded l' ∧ l'.work undecoded < l.work undecoded := by
  intro l'
  have hlen : (l.toClient.take k).length = k := List.length_take_of_le hle
  obtain ⟨sends, lens, hshape⟩ := h.shape a hactive
  obtain ⟨⟨lens', hshape'⟩, hcall, hreceived, hnone, hnone'⟩ :=
    hshape.receive (by omega) (hlen.le.trans hneeds)
  obtain ⟨hcalls, hsend, hrecv⟩ := Client.views_some hactive
  obtain ⟨hcalls', hsend', hrecv'⟩ := Client.views_some
    (show l'.client.active = some (a.receive (l.toClient.take k)) from rfl)
  have hsame : l'.client.toSend = l.client.toSend := by
    rw [hsend', hsend, hnone, hnone']
    rfl
  refine ⟨h.client (c := l'.client) ?_ ?_ h.returned (congrArg (l.toServer ++ ·) hsame) ?_, ?_⟩
  · rw [hcalls', hcalls, hcall]
    rfl
  · intro b hb
    obtain rfl := Option.some.inj hb
    exact ⟨[], lens', hshape'⟩
  · rw [hrecv', hrecv, hreceived]
    show (l.client.returned.flatMap _ ++ (a.received ++ l.toClient.take k)) ++ l.toClient.drop k = _
    simp only [List.append_assoc, List.take_append_drop]
  · simp only [Link.work, hsame, hactive]
    show _ + 2 * (_ + l.handler.pending.length) + (l.toClient.drop k).length +
      2 * l.client.todo.length + 1 < _
    simp only [List.length_drop, Option.toList_some, List.length_singleton]
    show 2 * _ + l.toServer.length + _ + _ + _ + _ < _
    omega

/-! ## The handler's steps -/

theorem Framed.serverSend (h : Framed s calls undecoded l) {k : Nat} (hk : 0 < k)
    (hle : k ≤ l.handler.pending.length) :
    let l' := { l.serverSent k with toClient := l.toClient ++ l.handler.pending.take k }
    Framed s calls undecoded l' ∧ l'.work undecoded < l.work undecoded := by
  intro l'
  obtain ⟨rest, hrest⟩ : ∃ rest, l.handler = .reply rest := by
    cases hl : l.handler with
    | reply rest => exact ⟨rest, rfl⟩
    | _ =>
        rw [hl] at hle
        exact absurd hle (by simp [Handler.pending]; omega)
  have hpending : l.handler.pending = rest := by rw [hrest]; rfl
  have hhandler : l'.handler = if k < rest.length then .reply (rest.drop k) else .header [] := by
    show (if k < l.handler.pending.length then Handler.reply (l.handler.pending.drop k)
      else .header []) = _
    rw [hpending]
  have hleft : l'.handler.pending = rest.drop k := by
    rw [hhandler]
    split
    · rfl
    · next hlt => exact (List.drop_eq_nil_of_le (by omega)).symm
  have hgot : l'.handler.got = l.handler.got := by
    rw [hhandler, hrest]
    split <;> rfl
  refine ⟨⟨h.order, h.shape, h.returned, h.sequence, ?_, h.server, ?_, ?_⟩, ?_⟩
  · rw [hgot]
    exact h.up
  · refine Eq.trans ?_ h.down
    rw [hleft]
    show l.client.received ++ (l.toClient ++ l.handler.pending.take k) ++ rest.drop k = _
    rw [hpending]
    simp only [List.append_assoc, List.take_append_drop]
  · rw [hhandler]
    split
    · next hlt =>
      show rest.drop k ≠ []
      rw [Ne, List.drop_eq_nil_iff]
      omega
    · exact Nat.succ_pos _
  · rw [hpending] at hle
    simp only [Link.work, hleft, hpending]
    show 2 * l.client.toSend.length + l.toServer.length + 2 * (_ + (rest.drop k).length) +
      (l.toClient ++ l.handler.pending.take k).length + 2 * l.client.todo.length +
      l.client.active.toList.length < _
    simp only [List.length_append, List.length_take, List.length_drop, hpending]
    omega

/-- What the handler does with a request the server has room for. -/
theorem Link.handle_eq {req : Request} (hknown : req.Known) (hserves : l.server.Serves req.pageId) :
    l.handle req = { l with
      decoded := l.decoded ++ [req]
      server := serveRequest l.server req
      handler := .reply (replyBytes l.server req) } := by
  have hreply : replyBytes l.server req ≠ [] := by
    intro hnil
    have := length_replyBytes l.server req
    rw [hnil] at this
    exact absurd this (Nat.ne_of_lt (replySize_pos hknown))
  unfold Link.handle
  dsimp only
  rw [answer_of_serves hserves]
  cases hbytes : replyBytes l.server req with
  | nil => exact absurd hbytes hreply
  | cons b reply => rfl

/-- The server has room for whatever is still to be decoded. -/
theorem Framed.serves {req : Request} {rest : List Request} (h : Framed s calls (req :: rest) l)
    (hserved : Served s calls) : req.Known ∧ l.server.Serves req.pageId := by
  have hmem : req ∈ calls.flatMap RpcCall.requests := by
    rw [← h.sequence]
    exact List.mem_append_right _ List.mem_cons_self
  obtain ⟨call, hcall, hreq⟩ := List.mem_flatMap.mp hmem
  obtain ⟨hpages, hcluster⟩ := serveAll_storagePages s l.decoded
  refine ⟨RpcCall.known hreq, ?_, ?_⟩
  · unfold PageServer.isLocal
    rw [h.server, hcluster, hserved.standalone]
  · rw [h.server, hpages]
    exact hserved.room call hcall req hreq

/-- A complete request: it moves from the requests to come to the ones decoded, and its reply from
the replies to come to what the handler has to send. -/
theorem Framed.handle {req : Request} {rest : List Request} (h : Framed s calls (req :: rest) l)
    (hserved : Served s calls) (hpending : l.handler.pending = []) {toServer : Bytes}
    (hup : rest.flatMap requestBytes = toServer ++ l.client.toSend) :
    Framed s calls rest (Link.handle { l with toServer := toServer } req) ∧
      (Link.handle { l with toServer := toServer } req).work rest + l.toServer.length =
        l.work (req :: rest) + toServer.length := by
  obtain ⟨hknown, hserves⟩ := h.serves hserved
  have hreply := length_replyBytes l.server req
  have hpos := replySize_pos hknown
  rw [Link.handle_eq (l := { l with toServer := toServer }) hknown hserves]
  refine ⟨⟨h.order, h.shape, h.returned, ?_, hup, ?_, ?_, ?_⟩, ?_⟩
  · exact (List.append_assoc _ _ _).trans h.sequence
  · show serveRequest l.server req = serveAll s (l.decoded ++ [req])
    rw [serveAll_append, ← h.server]
    rfl
  · have hdown := h.down
    rw [hpending, List.append_nil] at hdown
    show l.client.received ++ l.toClient ++ replyBytes l.server req = replies s (l.decoded ++ [req])
    rw [hdown, replies_append, ← h.server]
    exact congrArg (replies s l.decoded ++ ·) (List.append_nil _).symm
  · intro hnil
    rw [hnil] at hreply
    exact absurd hreply (Nat.ne_of_lt hpos)
  · simp only [Link.work, hpending, List.map_cons, List.sum_cons, List.length_nil]
    show 2 * l.client.toSend.length + toServer.length +
      2 * (_ + (replyBytes l.server req).length) + l.toClient.length + 2 * l.client.todo.length +
      l.client.active.toList.length + _ = _
    rw [hreply]
    omega

/-- A `recv` of the handler that does not complete what it reads. -/
theorem Framed.recvMore (h : Framed s calls undecoded l) (handler : Handler) {k : Nat}
    (hgot : handler.got = l.handler.got ++ l.toServer.take k)
    (hpending : handler.pending = l.handler.pending) (hstep : handler.InStep undecoded)
    (hk : 0 < k) (hle : k ≤ l.toServer.length) :
    let l' := { l with toServer := l.toServer.drop k, handler := handler }
    Framed s calls undecoded l' ∧ l'.work undecoded < l.work undecoded := by
  intro l'
  refine ⟨⟨h.order, h.shape, h.returned, h.sequence, ?_, h.server, ?_, hstep⟩, ?_⟩
  · show _ = handler.got ++ l.toServer.drop k ++ l.client.toSend
    rw [h.up, hgot, List.append_assoc l.handler.got (l.toServer.take k), List.take_append_drop]
  · show _ ++ handler.pending = _
    rw [hpending]
    exact h.down
  · simp only [Link.work]
    show _ + (l.toServer.drop k).length + 2 * (_ + handler.pending.length) + l.toClient.length +
      2 * l.client.todo.length + l.client.active.toList.length < _
    rw [hpending, List.length_drop]
    show 2 * l.client.toSend.length + _ + _ + _ + _ + _ < _
    omega

theorem Framed.recvHeader (h : Framed s calls undecoded l) (hserved : Served s calls) {got : Bytes}
    {k : Nat} (hheader : l.handler = .header got) (hk : 0 < k) (hle : k ≤ l.toServer.length)
    (hfull : (got ++ l.toServer.take k).length = headerSize) :
    ∃ undecoded', Framed s calls undecoded' (l.serverTake k) ∧
      (l.serverTake k).work undecoded' < l.work undecoded := by
  have hup : undecoded.flatMap requestBytes =
      (got ++ l.toServer.take k) ++ (l.toServer.drop k ++ l.client.toSend) := by
    rw [h.up, hheader, ← List.append_assoc, List.append_assoc got, List.take_append_drop]
    rfl
  have hreceive : l.serverTake k =
      if headerOp (got ++ l.toServer.take k) = opGetPage then
        Link.handle { l with toServer := l.toServer.drop k }
          (.get (headerPageId (got ++ l.toServer.take k)))
      else if headerOp (got ++ l.toServer.take k) = opPutPage then
        { l with
          toServer := l.toServer.drop k
          handler := .body (headerPageId (got ++ l.toServer.take k)) [] }
      else Link.handle { l with toServer := l.toServer.drop k }
        (.other (headerOp (got ++ l.toServer.take k)) (headerPageId (got ++ l.toServer.take k))) := by
    unfold Link.serverTake Link.serverReceive
    simp only [hheader]
    rw [if_neg (by omega)]
  cases undecoded with
  | nil =>
      -- Eight bytes cannot have come out of no request.
      have := congrArg List.length hup
      rw [List.length_append, hfull] at this
      exact absurd this (by simp [headerSize]; omega)
  | cons req rest =>
      cases req with
      | other op pageId => exact (h.serves hserved).1.elim
      | get pageId =>
          obtain ⟨hhead, htail⟩ := List.append_inj
            (show dsmRpcMakeHeader opGetPage pageId ++ rest.flatMap requestBytes = _ from hup)
            hfull.symm
          rw [← hhead, headerOp_make, headerPageId_make, if_pos rfl] at hreceive
          rw [hreceive]
          obtain ⟨hframed, hwork⟩ := h.handle hserved (by rw [hheader]; rfl) htail
          refine ⟨rest, hframed, ?_⟩
          rw [List.length_drop] at hwork
          omega
      | put pageId data =>
          obtain ⟨hhead, -⟩ := List.append_inj
            (show dsmRpcMakeHeader opPutPage pageId ++ (data.toList ++ rest.flatMap requestBytes) = _
              from (List.append_assoc _ _ _).symm.trans hup) hfull.symm
          rw [← hhead, headerOp_make, headerPageId_make, if_neg (by decide), if_pos rfl] at hreceive
          rw [hreceive]
          refine ⟨_, h.recvMore (.body pageId []) ?_ ?_ ?_ hk hle⟩
          · rw [hheader]
            exact (List.append_nil _).trans hhead
          · rw [hheader]
            rfl
          · exact ⟨Nat.succ_pos _, data, rest, rfl⟩

theorem Framed.recvBody (h : Framed s calls undecoded l) (hserved : Served s calls)
    {pageId : UInt32} {got : Bytes} {k : Nat} (hbody : l.handler = .body pageId got)
    (hk : 0 < k) (hle : k ≤ l.toServer.length)
    (hfull : (got ++ l.toServer.take k).length = pageSize) :
    ∃ undecoded', Framed s calls undecoded' (l.serverTake k) ∧
      (l.serverTake k).work undecoded' < l.work undecoded := by
  have hstep := h.handler
  rw [hbody] at hstep
  obtain ⟨-, data, rest, rfl⟩ := hstep
  have hup : (dsmRpcMakeHeader opPutPage pageId ++ data.toList) ++ rest.flatMap requestBytes =
      (dsmRpcMakeHeader opPutPage pageId ++ got) ++ l.toServer ++ l.client.toSend := by
    have := h.up
    rw [hbody] at this
    exact this
  have hrest : data.toList ++ rest.flatMap requestBytes =
      (got ++ l.toServer.take k) ++ (l.toServer.drop k ++ l.client.toSend) := by
    rw [← List.append_assoc (got ++ _), List.append_assoc got, List.take_append_drop]
    simp only [List.append_assoc] at hup ⊢
    exact List.append_cancel_left hup
  obtain ⟨hdata, htail⟩ := List.append_inj hrest (by rw [hfull]; exact length_page_toList data)
  have hreceive : l.serverTake k =
      Link.handle { l with toServer := l.toServer.drop k } (.put pageId data) := by
    unfold Link.serverTake Link.serverReceive
    simp only [hbody]
    rw [if_neg (by omega), ← hdata, pageOfBytes_toList]
  rw [hreceive]
  obtain ⟨hframed, hwork⟩ := h.handle hserved (by rw [hbody]; rfl) htail
  refine ⟨rest, hframed, ?_⟩
  rw [List.length_drop] at hwork
  omega

theorem Framed.serverRecv (h : Framed s calls undecoded l) (hserved : Served s calls) {k : Nat}
    (hk : 0 < k) (hneeds : k ≤ l.handler.needs) (hle : k ≤ l.toServer.length) :
    ∃ undecoded', Framed s calls undecoded' (l.serverTake k) ∧
      (l.serverTake k).work undecoded' < l.work undecoded := by
  have htake : (l.toServer.take k).length = k := List.length_take_of_le hle
  have hstep := h.handler
  cases hl : l.handler with
  | header got =>
      rw [hl] at hneeds
      have hlen : (got ++ l.toServer.take k).length = got.length + k := by
        rw [List.length_append, htake]
      by_cases hlt : (got ++ l.toServer.take k).length < headerSize
      · have hreceive : l.serverTake k = { l with
              toServer := l.toServer.drop k
              handler := .header (got ++ l.toServer.take k) } := by
          unfold Link.serverTake Link.serverReceive
          simp only [hl]
          rw [if_pos hlt]
        rw [hreceive]
        exact ⟨_, h.recvMore _ (by rw [hl]; rfl) (by rw [hl]; rfl) hlt hk hle⟩
      · refine h.recvHeader hserved hl hk hle ?_
        have : k ≤ headerSize - got.length := hneeds
        omega
  | body pageId got =>
      rw [hl] at hneeds hstep
      have hlen : (got ++ l.toServer.take k).length = got.length + k := by
        rw [List.length_append, htake]
      by_cases hlt : (got ++ l.toServer.take k).length < pageSize
      · have hreceive : l.serverTake k = { l with
              toServer := l.toServer.drop k
              handler := .body pageId (got ++ l.toServer.take k) } := by
          unfold Link.serverTake Link.serverReceive
          simp only [hl]
          rw [if_pos hlt]
        rw [hreceive]
        refine ⟨_, h.recvMore _ ?_ (by rw [hl]; rfl) ⟨hlt, hstep.2⟩ hk hle⟩
        rw [hl]
        exact (List.append_assoc _ _ _).symm
      · refine h.recvBody hserved hl hk hle ?_
        have : k ≤ pageSize - got.length := hneeds
        omega
  | reply rest =>
      rw [hl] at hneeds
      exact absurd hneeds (Nat.not_le_of_lt hk)
  | left =>
      rw [hl] at hneeds
      exact absurd hneeds (Nat.not_le_of_lt hk)

end Steps

end Dsm.Rpc
