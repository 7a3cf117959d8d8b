import Dsm.Rpc.InStep

/-!
# RPC framing

From the two equations of a connection, sizes do the rest: between two calls of the client nothing
is left anywhere, and a client that waits can always be served. So every call returns, with exactly
the replies to its own requests, and a batch of GETs is the GETs one after the other.
-/

namespace Dsm.Rpc

open Dsm.Server Dsm.Lib

section Runs

variable {s : PageServer} {calls : List RpcCall} {undecoded : List Request} {l : Link}

/-! ## Runs -/

theorem Framed.step (h : Framed s calls undecoded l) (hserved : Served s calls) {sys : Syscall}
    {l' : Link} (hstep : LinkStep l sys l') :
    ∃ undecoded', Framed s calls undecoded' l' ∧
      l'.work undecoded' + (if sys.moves then 1 else 0) ≤ l.work undecoded := by
  cases hstep with
  | begin hactive htodo => exact ⟨undecoded, h.begin hactive htodo⟩
  | finish hactive hio => exact ⟨undecoded, h.finish hactive hio⟩
  | clientSend hactive hk hle => exact ⟨undecoded, h.clientSend hactive hk hle⟩
  | clientRecv hactive hk hneeds hle => exact ⟨undecoded, h.clientRecv hactive hk hneeds hle⟩
  | serverSend hk hle => exact ⟨undecoded, h.serverSend hk hle⟩
  | serverRecv hk hneeds hle => exact h.serverRecv hserved hk hneeds hle
  | eintr => exact ⟨undecoded, h, le_rfl⟩

theorem Framed.run (hserved : Served s calls) {sys : List Syscall} {l' : Link}
    (hrun : LinkRun l sys l') (h : Framed s calls undecoded l) :
    ∃ undecoded', Framed s calls undecoded' l' ∧
      l'.work undecoded' + sys.countP Syscall.moves ≤ l.work undecoded := by
  induction hrun generalizing undecoded with
  | nil l => exact ⟨undecoded, h, le_rfl⟩
  | @cons l₁ l₂ l₃ a as hstep _ ih =>
      obtain ⟨mid, hmid, hwork⟩ := h.step hserved hstep
      obtain ⟨last, hlast, hwork'⟩ := ih hmid
      refine ⟨last, hlast, ?_⟩
      rw [List.countP_cons]
      omega

/-! ## Between calls -/

theorem length_returned {returned : List (RpcCall × List Bytes)}
    (h : ∀ r ∈ returned, r.2.map List.length = r.1.requests.map replySize) :
    (returned.flatMap fun r => r.2.flatten).length =
      (((returned.map Prod.fst).flatMap RpcCall.requests).map replySize).sum := by
  induction returned with
  | nil => rfl
  | cons r returned ih =>
      rw [List.flatMap_cons, List.length_append, List.length_flatten, h r List.mem_cons_self,
        ih fun r hr => h r (List.mem_cons_of_mem _ hr), List.map_cons, List.flatMap_cons,
        List.map_append, List.sum_append]

/-- Whole requests lie between the client, once it has sent those of the calls up to `written`, and
the handler. -/
theorem Framed.between (h : Framed s calls undecoded l) {written unwritten : List RpcCall}
    (hcalls : calls = written ++ unwritten)
    (hsend : l.client.toSend = (unwritten.flatMap RpcCall.requests).flatMap requestBytes) :
    ∃ ms, undecoded = ms ++ unwritten.flatMap RpcCall.requests ∧
      l.handler.got ++ l.toServer = ms.flatMap requestBytes ∧
      l.decoded ++ ms = written.flatMap RpcCall.requests := by
  have hseq := h.sequence
  rw [hcalls, List.flatMap_append] at hseq
  have hup := h.up
  rw [hsend] at hup
  obtain ⟨ms, rfl, hbetween⟩ := resync requestBytes_ne_nil hseq hup
  refine ⟨ms, rfl, hbetween, ?_⟩
  rw [← List.append_assoc] at hseq
  exact List.append_cancel_right hseq

/-- **Nothing is left over between calls.** -/
theorem Framed.idle (h : Framed s calls undecoded l) (hactive : l.client.active = none) :
    l.toServer = [] ∧ l.toClient = [] ∧ l.handler = .header [] ∧
      l.decoded = (l.client.returned.map Prod.fst).flatMap RpcCall.requests ∧
      (l.client.returned.flatMap fun r => r.2.flatten) = replies s l.decoded := by
  obtain ⟨hcalls, hsend, hrecv⟩ := Client.views_none hactive
  obtain ⟨ms, rfl, hbetween, hdecoded⟩ := h.between (h.order.symm.trans hcalls) hsend
  -- The replies received are as long as the replies to all requests sent, so none is under way.
  have hdown := congrArg List.length h.down
  rw [hrecv, List.length_append, List.length_append, length_replies,
    length_returned h.returned, ← hdecoded, List.map_append, List.sum_append] at hdown
  have hms : ms = [] := by
    refine eq_nil_of_sum_map_eq_zero replySize (fun m hm => ?_) (by omega)
    have hmem : m ∈ calls.flatMap RpcCall.requests := by
      rw [← h.sequence]
      exact List.mem_append_right _ (List.mem_append_left _ hm)
    obtain ⟨call, -, hreq⟩ := List.mem_flatMap.mp hmem
    exact replySize_pos (RpcCall.known hreq)
  subst hms
  obtain ⟨hgot, htoServer⟩ := List.append_eq_nil_iff.mp hbetween
  have htoClient : l.toClient = [] := List.eq_nil_of_length_eq_zero (by omega)
  have hpending : l.handler.pending = [] := List.eq_nil_of_length_eq_zero (by omega)
  refine ⟨htoServer, htoClient, ?_, (List.append_nil _).symm.trans hdecoded, ?_⟩
  · have hstep := h.handler
    cases hl : l.handler with
    | header got =>
        rw [hl] at hgot
        exact congrArg Handler.header hgot
    | body pageId got =>
        rw [hl] at hgot
        exact absurd (List.append_eq_nil_iff.mp hgot).1 (List.cons_ne_nil _ _)
    | reply rest =>
        rw [hl] at hstep hpending
        exact absurd hpending hstep
    | left =>
        rw [hl] at hstep
        exact hstep.elim
  · rw [← h.down, hrecv, htoClient, hpending, List.append_nil, List.append_nil]

/-! ## A client that waits is served -/

theorem headerSize_le_length (req : Request) : headerSize ≤ (requestBytes req).length := by
  cases req with
  | get pageId => exact le_rfl
  | put pageId data =>
      rw [requestBytes, List.length_append, length_dsmRpcMakeHeader]
      exact Nat.le_add_right _ _
  | other op pageId => exact le_rfl

/-- With the streams empty and the handler waiting, every request sent has been answered. -/
theorem Framed.not_stuck (h : Framed s calls undecoded l) {a : Active} {n : Nat} {lens : List Nat}
    (hactive : l.client.active = some a) (hshape : a.Shape [] (n :: lens))
    (htoClient : l.toClient = []) (htoServer : l.toServer = [])
    (hpending : l.handler.pending = []) : False := by
  obtain ⟨hcalls, hsend, hrecv⟩ := Client.views_some hactive
  have hnone : a.toSend = [] := by
    unfold Active.toSend
    rw [hshape.io]
    exact flatMap_pending_recv (n :: lens)
  rw [hnone, List.nil_append] at hsend
  have hsplit : calls = (l.client.returned.map Prod.fst ++ [a.call]) ++ l.client.todo := by
    rw [← h.order, hcalls, List.append_assoc]
    rfl
  obtain ⟨ms, rfl, hbetween, hdecoded⟩ := h.between hsplit hsend
  rw [htoServer, List.append_nil] at hbetween
  -- What the handler has is less than one request, so it has nothing.
  have hms : ms = [] := by
    cases ms with
    | nil => rfl
    | cons m ms =>
        exfalso
        have hlen := congrArg List.length hbetween
        rw [List.flatMap_cons, List.length_append] at hlen
        have hm := headerSize_le_length m
        have hstep := h.handler
        cases hl : l.handler with
        | header got =>
            rw [hl] at hlen hstep
            have : got.length < headerSize := hstep
            have : (Handler.header got).got.length = got.length := rfl
            omega
        | body pageId got =>
            rw [hl] at hlen hstep
            obtain ⟨hgot, data, rest, hput⟩ := hstep
            obtain rfl : m = .put pageId data := (List.cons.inj hput).1
            simp only [Handler.got, requestBytes, List.length_append, length_dsmRpcMakeHeader,
              length_page_toList] at hlen
            omega
        | reply rest =>
            rw [hl] at hlen
            have : (Handler.reply rest).got.length = 0 := rfl
            have : 0 < headerSize := Nat.succ_pos _
            omega
        | left =>
            rw [hl] at hstep
            exact hstep
  subst hms
  rw [List.append_nil, List.flatMap_append] at hdecoded
  have hdown := congrArg List.length h.down
  rw [htoClient, hpending, List.append_nil, List.append_nil, length_replies, hdecoded, hrecv,
    List.length_append, length_returned h.returned, List.map_append, List.sum_append] at hdown
  have hsizes := congrArg List.sum hshape.sizes
  rw [List.sum_append, List.sum_cons] at hsizes
  have hreceived : a.received.length = (a.bufs.map List.length).sum + a.got.length := by
    rw [Active.received, List.length_append, List.length_flatten]
  have hroom := hshape.room n lens rfl
  simp only [List.flatMap_cons, List.flatMap_nil, List.append_nil] at hdown
  omega

/-- A handler with nothing to send reads. -/
theorem Framed.handler_needs (h : Framed s calls undecoded l) (hpending : l.handler.pending = []) :
    0 < l.handler.needs := by
  have hstep := h.handler
  cases hl : l.handler with
  | header got =>
      rw [hl] at hstep
      exact Nat.sub_pos_of_lt hstep
  | body pageId got =>
      rw [hl] at hstep
      exact Nat.sub_pos_of_lt hstep.1
  | reply rest =>
      rw [hl] at hstep hpending
      exact absurd hpending hstep
  | left =>
      rw [hl] at hstep
      exact hstep.elim

/-- **Progress.** Until all calls have returned, some system call can move a byte. -/
theorem Framed.progress (h : Framed s calls undecoded l)
    (hunfinished : l.client.active ≠ none ∨ l.client.todo ≠ []) :
    ∃ sys, sys.moves = true ∧ ∃ l', LinkStep l sys l' := by
  cases hactive : l.client.active with
  | none =>
      cases htodo : l.client.todo with
      | nil => exact absurd hunfinished (by simp [hactive, htodo])
      | cons call todo => exact ⟨.begin, rfl, _, .begin hactive htodo⟩
  | some a =>
      obtain ⟨sends, lens, hshape⟩ := h.shape a hactive
      cases sends with
      | cons io sends =>
          have hpending : a.pending = io.pending := by
            unfold Active.pending
            rw [hshape.io]
            rfl
          have hpos : 0 < io.pending.length := by
            have hio := hshape.sending io List.mem_cons_self
            rw [List.length_pos_iff]
            cases io with
            | sendFull rest => exact hio
            | sendv iov =>
                obtain ⟨hne, hall⟩ := hio
                cases iov with
                | nil => exact absurd rfl hne
                | cons v iov =>
                    exact fun hnil => hall v List.mem_cons_self (List.append_eq_nil_iff.mp hnil).1
            | recvFull len => exact hio.elim
          exact ⟨.clientSend 1, rfl, _, .clientSend hactive Nat.one_pos (by rw [hpending]; exact hpos)⟩
      | nil =>
          cases lens with
          | nil => exact ⟨.finish, rfl, _, .finish hactive hshape.io⟩
          | cons n lens =>
              have hneeds : 0 < a.needs := by
                unfold Active.needs
                rw [hshape.io]
                exact Nat.sub_pos_of_lt (hshape.room n lens rfl)
              by_cases htoClient : l.toClient = []
              · -- The client waits: the handler has a reply to send, or a request to read.
                by_cases hpending : l.handler.pending = []
                · by_cases htoServer : l.toServer = []
                  · exact (h.not_stuck hactive hshape htoClient htoServer hpending).elim
                  · exact ⟨.serverRecv 1, rfl, _, .serverRecv Nat.one_pos
                      (h.handler_needs hpending) (List.length_pos_iff.mpr htoServer)⟩
                · exact ⟨.serverSend 1, rfl, _, .serverSend Nat.one_pos
                    (List.length_pos_iff.mpr hpending)⟩
              · exact ⟨.clientRecv 1, rfl, _, .clientRecv hactive Nat.one_pos hneeds
                  (List.length_pos_iff.mpr htoClient)⟩

end Runs

/-! ## What the calls return -/

/-- The buffers of a call against a server that handles it at once. -/
def RpcCall.expected (s : PageServer) : RpcCall → List Bytes
  | .get pageId => [(s.storage pageId).toList]
  | .getBatch ids => ids.map fun id => (s.storage id).toList
  | .put pageId _ => [dsmRpcMakeHeader opAck pageId]

/-- The buffers of a sequence of calls, each as of its position. -/
def expectedAll : PageServer → List RpcCall → List (List Bytes)
  | _, [] => []
  | s, call :: calls => call.expected s :: expectedAll (serveAll s call.requests) calls

theorem serveAll_gets (s : PageServer) (ids : List UInt32) : serveAll s (ids.map .get) = s := by
  induction ids with
  | nil => rfl
  | cons id ids ih => exact ih

theorem replies_gets (s : PageServer) (ids : List UInt32) :
    replies s (ids.map .get) = (ids.map fun id => (s.storage id).toList).flatten := by
  induction ids with
  | nil => rfl
  | cons id ids ih => exact congrArg ((s.storage id).toList ++ ·) ih

theorem RpcCall.flatten_expected (s : PageServer) (call : RpcCall) :
    (call.expected s).flatten = replies s call.requests := by
  cases call with
  | get pageId => rfl
  | getBatch ids => exact (replies_gets s ids).symm
  | put pageId data => rfl

theorem RpcCall.sizes_expected (s : PageServer) (call : RpcCall) :
    (call.expected s).map List.length = call.requests.map replySize := by
  cases call with
  | get pageId => exact congrArg (fun n => [n]) (length_page_toList _)
  | getBatch ids =>
      simp only [RpcCall.expected, RpcCall.requests, List.map_map]
      exact List.map_congr_left fun id _ => length_page_toList _
  | put pageId data => rfl

theorem RpcCall.succeeds_expected (s : PageServer) (call : RpcCall) :
    call.succeeds (call.expected s) = true := by
  cases call with
  | get pageId => rfl
  | getBatch ids => rfl
  | put pageId data => rfl

/-- Buffers of the right sizes that hold the right bytes one after the other are the right ones. -/
theorem returned_eq_expected {s : PageServer} {returned : List (RpcCall × List Bytes)}
    (hsizes : ∀ r ∈ returned, r.2.map List.length = r.1.requests.map replySize)
    (h : (returned.flatMap fun r => r.2.flatten) =
      replies s ((returned.map Prod.fst).flatMap RpcCall.requests)) :
    returned.map Prod.snd = expectedAll s (returned.map Prod.fst) := by
  induction returned generalizing s with
  | nil => rfl
  | cons r returned ih =>
      obtain ⟨call, bufs⟩ := r
      rw [List.flatMap_cons, List.map_cons, List.flatMap_cons, replies_append,
        ← RpcCall.flatten_expected] at h
      have hlens : bufs.map List.length = (call.expected s).map List.length :=
        (hsizes _ List.mem_cons_self).trans (RpcCall.sizes_expected s call).symm
      obtain ⟨hhead, htail⟩ := List.append_inj h (by rw [List.length_flatten, List.length_flatten, hlens])
      have hbufs : bufs = call.expected s := List.eq_iff_flatten_eq.mpr ⟨hhead, hlens⟩
      rw [List.map_cons, List.map_cons, expectedAll,
        ih (fun r hr => hsizes r (List.mem_cons_of_mem _ hr)) htail]
      exact congrArg (· :: _) hbufs

theorem expectedAll_append (s : PageServer) (a b : List RpcCall) :
    expectedAll s (a ++ b) =
      expectedAll s a ++ expectedAll (serveAll s (a.flatMap RpcCall.requests)) b := by
  induction a generalizing s with
  | nil => rfl
  | cons call a ih =>
      rw [List.cons_append, expectedAll, ih, expectedAll, List.flatMap_cons, serveAll_append]
      rfl

/-- A batch yields what the GETs of its ids yield, one after the other. -/
theorem flatten_expectedAll_batch (s : PageServer) (pre post : List RpcCall) (ids : List UInt32) :
    (expectedAll s (pre ++ .getBatch ids :: post)).flatten =
      (expectedAll s (pre ++ (ids.map .get ++ post))).flatten := by
  have hgets : ∀ t : PageServer, (expectedAll t (ids.map .get ++ post)).flatten =
      (ids.map fun id => (t.storage id).toList) ++ (expectedAll t post).flatten := by
    intro t
    induction ids with
    | nil => rfl
    | cons id ids ih => exact congrArg ((t.storage id).toList :: ·) ih
  rw [expectedAll_append, expectedAll_append, List.flatten_append, List.flatten_append, hgets]
  show _ ++ (_ ++ (expectedAll (serveAll _ (ids.map .get)) post).flatten) = _
  rw [serveAll_gets]
  rfl

/-- All calls have returned. -/
def Link.Finished (l : Link) : Prop := l.client.active = none ∧ l.client.todo = []

theorem succeeds_of_expected {s : PageServer} {returned : List (RpcCall × List Bytes)}
    (h : returned.map Prod.snd = expectedAll s (returned.map Prod.fst)) :
    ∀ r ∈ returned, r.1.succeeds r.2 = true := by
  induction returned generalizing s with
  | nil => exact fun r hr => absurd hr List.not_mem_nil
  | cons r returned ih =>
      obtain ⟨hhead, htail⟩ := List.cons.inj h
      intro q hq
      rcases List.mem_cons.mp hq with rfl | hq
      · rw [hhead]
        exact RpcCall.succeeds_expected s _
      · exact ih htail q hq

theorem Framed.idle_returned {s : PageServer} {calls : List RpcCall} {undecoded : List Request}
    {l : Link} (h : Framed s calls undecoded l) (hactive : l.client.active = none) :
    l.client.returned.map Prod.snd = expectedAll s (l.client.returned.map Prod.fst) := by
  obtain ⟨-, -, -, hdecoded, hbytes⟩ := h.idle hactive
  rw [hdecoded] at hbytes
  exact returned_eq_expected h.returned hbytes

theorem Served.batch {s : PageServer} {pre post : List RpcCall} {ids : List UInt32}
    (h : Served s (pre ++ .getBatch ids :: post)) : Served s (pre ++ (ids.map .get ++ post)) where
  standalone := h.standalone
  room := by
    intro call hcall req hreq
    rcases List.mem_append.mp hcall with hpre | hcall
    · exact h.room call (List.mem_append_left _ hpre) req hreq
    · rcases List.mem_append.mp hcall with hget | hpost
      · obtain ⟨id, hid, rfl⟩ := List.mem_map.mp hget
        obtain rfl := List.mem_singleton.mp hreq
        exact h.room (.getBatch ids) (List.mem_append_right _ List.mem_cons_self) _
          (List.mem_map.mpr ⟨id, hid, rfl⟩)
      · exact h.room call (List.mem_append_right _ (List.mem_cons_of_mem _ hpost)) req hreq

/-- A client that is done holds the buffers of all its calls. -/
theorem LinkRun.finished {s : PageServer} {calls : List RpcCall} (hserved : Served s calls)
    {sys : List Syscall} {l : Link} (hrun : LinkRun (Link.start s calls) sys l)
    (hfinished : l.Finished) :
    l.client.returned.flatMap Prod.snd = (expectedAll s calls).flatten := by
  obtain ⟨hactive, htodo⟩ := hfinished
  obtain ⟨undecoded, h, -⟩ := Framed.run hserved hrun (Framed.start s calls)
  have horder : l.client.returned.map Prod.fst = calls := by
    rw [← h.order, (Client.views_none hactive).1, htodo, List.append_nil]
  have hreturned := h.idle_returned hactive
  rw [horder] at hreturned
  rw [List.flatMap_def, hreturned]

/-- A server of one page. -/
def onePage : PageServer := ⟨none, 1, fun _ => Page.fill 7⟩

theorem onePage_served : Served onePage [.get 0] where
  standalone := rfl
  room := by
    intro call hcall req hreq
    obtain rfl := List.mem_singleton.mp hcall
    obtain rfl := List.mem_singleton.mp hreq
    decide

end Dsm.Rpc
