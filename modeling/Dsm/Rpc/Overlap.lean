import Dsm.Rpc.Threads

/-!
# Calls that overlap

With no lock on the storage a page is not read or written at one moment, but each of its bytes is.
Every byte of a reply to a GET is what the storage had there at some time between the begin and the
end of the call, and a PUT that returned has written each byte of its page in between
(`Returned.Ok`). On its own connection a call sees nothing of the others: its requests are answered
in order, each with as many bytes as it is due.
-/

namespace Dsm.Rpc

open Dsm.Server Dsm.Lib

/-! ## What an answer says -/

/-- The byte a GET shows after the writes of a log: the storage, and zeros past its end. -/
def shownAt (v : PageServer) (log : List (Cell × UInt8)) (c : Cell) : UInt8 :=
  if v.Serves c.1 then replay v.bytes log c else 0

/-- The log has byte `j` of `data` for page `p`, written between two times. -/
def Written (log : List (Cell × UInt8)) (since till : Nat) (p : UInt32) (data : Page)
    (j : Fin pageSize) : Prop :=
  ∃ t, since ≤ t ∧ t < till ∧ log[t]? = some ((p, j), data.byte j)

/-- What the bytes sent for a request say about the storage between two times. -/
def Answered (v : PageServer) (log : List (Cell × UInt8)) (since till : Nat) :
    Request → Bytes → Prop
  | .get p, bytes => ∀ (j : Fin pageSize) (b : UInt8), bytes[j.val]? = some b →
      ∃ t, since ≤ t ∧ t ≤ till ∧ b = shownAt v (log.take t) (p, j)
  | .put p data, bytes => bytes <+: dsmRpcMakeHeader opAck p ∧
      (bytes ≠ [] → v.Serves p ∧ ∀ j, Written log since till p data j)
  | .other _ _, _ => False

section Answers

variable {v : PageServer} {log : List (Cell × UInt8)} {since till : Nat}

theorem Written.mono {p : UInt32} {data : Page} {j : Fin pageSize}
    (h : Written log since till p data j) (ws : List (Cell × UInt8)) {till' : Nat}
    (hle : till ≤ till') : Written (log ++ ws) since till' p data j := by
  obtain ⟨t, hsince, htill, ht⟩ := h
  have hlt : t < log.length := List.getElem?_eq_some_iff.mp ht |>.1
  exact ⟨t, hsince, htill.trans_le hle, (List.getElem?_append_left hlt).trans ht⟩

/-- What was said stays true when more is written. -/
theorem Answered.mono {req : Request} {bytes : Bytes} (h : Answered v log since till req bytes)
    (hlog : till ≤ log.length) (ws : List (Cell × UInt8)) {till' : Nat} (hle : till ≤ till') :
    Answered v (log ++ ws) since till' req bytes := by
  cases req with
  | get p =>
      intro j b hb
      obtain ⟨t, hsince, htill, rfl⟩ := h j b hb
      refine ⟨t, hsince, htill.trans hle, ?_⟩
      rw [List.take_append_of_le_length (htill.trans hlog)]
  | put p data =>
      exact ⟨h.1, fun hne => ⟨(h.2 hne).1, fun j => ((h.2 hne).2 j).mono ws hle⟩⟩
  | other op p => exact h

theorem Answered.left {req : Request} {bytes rest : Bytes}
    (h : Answered v log since till req (bytes ++ rest)) : Answered v log since till req bytes := by
  cases req with
  | get p =>
      intro j b hb
      have hlt : j.val < bytes.length := List.getElem?_eq_some_iff.mp hb |>.1
      exact h j b ((List.getElem?_append_left hlt).trans hb)
  | put p data =>
      refine ⟨(List.prefix_append bytes rest).trans h.1, fun hne => h.2 fun hnil => hne ?_⟩
      exact (List.append_eq_nil_iff.mp hnil).1
  | other op p => exact h

theorem answered_nil {req : Request} (hknown : req.Known) : Answered v log since till req [] := by
  cases req with
  | get p => exact fun j b hb => nomatch hb
  | put p data => exact ⟨List.nil_prefix, fun hne => absurd rfl hne⟩
  | other op p => exact hknown

end Answers

/-! ## The thread and its request -/

/-- What the thread has of the request it is reading. -/
def Thread.got : Thread → Bytes
  | .header got => got
  | .body pageId got => dsmRpcMakeHeader opPutPage pageId ++ got
  | _ => []

/-- The thread reads a request, the next of those still to be decoded. -/
def Thread.Reading (undecoded : List Request) : Thread → Prop
  | .header got => got.length < headerSize
  | .body pageId got => got.length < pageSize ∧ ∃ data rest, undecoded = .put pageId data :: rest
  | _ => False

/-- The thread is busy with `req` and has sent `bytes` of the reply, or has left its loop over it. -/
def Thread.Serving (v : PageServer) (log : List (Cell × UInt8)) (since : Nat) (req : Request)
    (bytes : Bytes) : Thread → Prop
  | .copying pageId data todo => req = .put pageId data ∧ bytes = [] ∧ todo.Nonempty ∧
      v.Serves pageId ∧ ∀ j, j ∉ todo → Written log since log.length pageId data j
  | .sending pageId sent => req = .get pageId ∧ bytes.length = sent ∧ sent < pageSize ∧
      v.Serves pageId
  | .reply rest => rest ≠ [] ∧ (bytes ++ rest).length = replySize req ∧
      Answered v log since log.length req (bytes ++ rest)
  | .left => bytes = [] ∧ ∃ pageId data, req = .put pageId data ∧ ¬ v.Serves pageId
  | _ => False

section Serving

variable {v : PageServer} {log : List (Cell × UInt8)} {since : Nat} {req : Request} {bytes : Bytes}
  {t : Thread}

theorem Thread.Serving.lt (h : t.Serving v log since req bytes) : bytes.length < replySize req := by
  cases t with
  | header got => exact h.elim
  | body pageId got => exact h.elim
  | copying pageId data todo =>
      obtain ⟨rfl, rfl, -⟩ := h
      exact Nat.succ_pos _
  | sending pageId sent =>
      obtain ⟨rfl, rfl, hlt, -⟩ := h
      exact hlt
  | reply rest =>
      obtain ⟨hne, hlen, -⟩ := h
      have := List.length_pos_iff.mpr hne
      rw [List.length_append] at hlen
      omega
  | left =>
      obtain ⟨rfl, pageId, data, rfl, -⟩ := h
      exact Nat.succ_pos _

theorem Thread.Serving.got (h : t.Serving v log since req bytes) : t.got = [] ∧ t.needs = 0 := by
  cases t with
  | header got => exact h.elim
  | body pageId got => exact h.elim
  | _ => exact ⟨rfl, rfl⟩

theorem Thread.Serving.mono (h : t.Serving v log since req bytes) (ws : List (Cell × UInt8)) :
    t.Serving v (log ++ ws) since req bytes := by
  have hle : log.length ≤ (log ++ ws).length := by rw [List.length_append]; exact Nat.le_add_right _ _
  cases t with
  | copying pageId data todo =>
      obtain ⟨hreq, hbytes, htodo, hserves, hwritten⟩ := h
      exact ⟨hreq, hbytes, htodo, hserves, fun j hj => (hwritten j hj).mono ws hle⟩
  | reply rest =>
      obtain ⟨hne, hlen, hanswered⟩ := h
      exact ⟨hne, hlen, hanswered.mono le_rfl ws hle⟩
  | _ => exact h

/-- A server of the same size as `v`, like it without peers, with the bytes of the log. -/
structure Holds (v : PageServer) (log : List (Cell × UInt8)) (s : PageServer) : Prop where
  standalone : v.cluster = none
  cluster : s.cluster = v.cluster
  storagePages : s.storagePages = v.storagePages
  bytes : s.bytes = replay v.bytes log

theorem Holds.serves {s : PageServer} (h : Holds v log s) (p : UInt32) :
    s.Serves p ↔ v.Serves p := by
  unfold PageServer.Serves PageServer.isLocal
  rw [h.cluster, h.storagePages]

/-- A complete request: the thread begins to serve it. -/
theorem Thread.serving_decode {s : PageServer} (h : Holds v log s) (hsince : since ≤ log.length)
    (hknown : req.Known) : (Thread.decode s req).Serving v log since req [] := by
  have hnone : s.cluster.isSome = false := by rw [h.cluster, h.standalone]; rfl
  by_cases hserves : s.Serves req.pageId
  · have hserves' := (h.serves _).mp hserves
    unfold Thread.decode
    rw [PageServer.dispatch_of_serves hserves]
    cases req with
    | get p => exact ⟨rfl, rfl, Nat.succ_pos _, hserves'⟩
    | put p data =>
        exact ⟨rfl, rfl, ⟨⟨0, Nat.succ_pos _⟩, Finset.mem_univ _⟩, hserves',
          fun j hj => absurd (Finset.mem_univ j) hj⟩
    | other op p => exact hknown.elim
  · have hserves' : ¬ v.Serves req.pageId := fun hv => hserves ((h.serves _).mpr hv)
    cases req with
    | get p =>
        have hdispatch : s.dispatch (.get p) = .zero :=
          (if_neg hserves).trans (if_neg (by rw [hnone]; exact Bool.false_ne_true))
        unfold Thread.decode
        rw [hdispatch]
        refine ⟨fun hnil => ?_, length_page_toList _, fun j b hb => ⟨since, le_rfl, hsince, ?_⟩⟩
        · have := congrArg List.length hnil
          rw [length_page_toList] at this
          cases this
        · have hzero : (zeroPage.toList)[j.val]? = some 0 := by simp [zeroPage, Page.fill]
          exact (Option.some.inj (hb.symm.trans hzero)).trans (if_neg hserves').symm
    | put p data =>
        have hdispatch : s.dispatch (.put p data) = .leave :=
          (if_neg hserves).trans (if_neg (by rw [hnone]; exact Bool.false_ne_true))
        unfold Thread.decode
        rw [hdispatch]
        exact ⟨rfl, p, data, rfl, hserves'⟩
    | other op p => exact hknown.elim

end Serving

/-! ## One connection -/

/-- Every answer has all the bytes it is due. -/
def Full (answers : List (Request × Bytes)) : Prop := ∀ x ∈ answers, x.2.length = replySize x.1

/-- A call in progress: `answers` are its requests decoded so far with the bytes sent for them. -/
structure Conn.InCall (v : PageServer) (log : List (Cell × UInt8)) (c : Conn) (a : Active)
    (answers : List (Request × Bytes)) (undecoded : List Request) : Prop where
  shape : ∃ sends lens, a.Shape sends lens
  sequence : answers.map Prod.fst ++ undecoded = a.call.requests
  up : undecoded.flatMap requestBytes = c.thread.got ++ c.toServer ++ a.toSend
  down : a.received ++ c.toClient = answers.flatMap Prod.snd
  answered : ∀ x ∈ answers, Answered v log c.since log.length x.1 x.2
  thread : c.thread.Reading undecoded ∧ Full answers ∨
    ∃ pre req bytes, answers = pre ++ [(req, bytes)] ∧ Full pre ∧
      c.thread.Serving v log c.since req bytes

/-- A call that returned: each of its buffers is the answer to one of its requests, in order. -/
structure Returned.Ok (v : PageServer) (log : List (Cell × UInt8)) (r : Returned) : Prop where
  since_le : r.since ≤ r.till
  till_le : r.till ≤ log.length
  answered : List.Forall₂ (fun req buf => buf.length = replySize req ∧
    Answered v log r.since r.till req buf) r.call.requests r.bufs

/-- **The invariant of a connection.** -/
structure Conn.Ok (v : PageServer) (log : List (Cell × UInt8)) (c : Conn) : Prop where
  since_le : c.since ≤ log.length
  idle : c.active = none → c.toServer = [] ∧ c.toClient = [] ∧ c.thread = .header []
  call : ∀ a, c.active = some a → ∃ answers undecoded, c.InCall v log a answers undecoded
  returned : ∀ r ∈ c.returned, r.Ok v log
  ordered : c.returned.Pairwise fun r r' => r.till ≤ r'.since
  before : c.active ≠ none → ∀ r ∈ c.returned, r.till ≤ c.since

theorem Conn.Ok.fresh (v : PageServer) : Conn.fresh.Ok v [] where
  since_le := le_rfl
  idle := fun _ => ⟨rfl, rfl, rfl⟩
  call := fun _ h => nomatch h
  returned := fun _ h => absurd h List.not_mem_nil
  ordered := .nil
  before := fun h => absurd rfl h

section Steps

variable {v s : PageServer} {log : List (Cell × UInt8)} {c : Conn} {a : Active}
  {answers : List (Request × Bytes)} {undecoded : List Request}

theorem Returned.Ok.mono {r : Returned} (h : r.Ok v log) (ws : List (Cell × UInt8)) :
    r.Ok v (log ++ ws) where
  since_le := h.since_le
  till_le := h.till_le.trans (by rw [List.length_append]; exact Nat.le_add_right _ _)
  answered := h.answered.imp fun _ _ hx => ⟨hx.1, hx.2.mono h.till_le ws le_rfl⟩

theorem Conn.InCall.mono (h : c.InCall v log a answers undecoded) (ws : List (Cell × UInt8)) :
    c.InCall v (log ++ ws) a answers undecoded where
  shape := h.shape
  sequence := h.sequence
  up := h.up
  down := h.down
  answered := fun x hx => (h.answered x hx).mono le_rfl ws
    (by rw [List.length_append]; exact Nat.le_add_right _ _)
  thread := by
    rcases h.thread with hread | ⟨pre, req, bytes, heq, hfull, hserving⟩
    · exact .inl hread
    · exact .inr ⟨pre, req, bytes, heq, hfull, hserving.mono ws⟩

/-- **What the other threads write** leaves a connection in order. -/
theorem Conn.Ok.mono (h : c.Ok v log) (ws : List (Cell × UInt8)) : c.Ok v (log ++ ws) where
  since_le := h.since_le.trans (by rw [List.length_append]; exact Nat.le_add_right _ _)
  idle := h.idle
  call := fun a ha => by
    obtain ⟨answers, undecoded, hcall⟩ := h.call a ha
    exact ⟨answers, undecoded, hcall.mono ws⟩
  returned := fun r hr => (h.returned r hr).mono ws
  ordered := h.ordered
  before := h.before

/-! ### Entering and leaving a call -/

theorem Conn.Ok.begin (h : c.Ok v log) (hactive : c.active = none) (call : RpcCall) :
    Conn.Ok v log { c with active := some ⟨call, call.program, [], []⟩, since := log.length } where
  since_le := le_rfl
  idle := fun hnone => nomatch hnone
  call := by
    intro a ha
    obtain rfl := Option.some.inj ha
    obtain ⟨hup, hdown, hthread⟩ := h.idle hactive
    refine ⟨[], call.requests, program_shape call, rfl, ?_, ?_, fun x hx => absurd hx List.not_mem_nil,
      .inl ⟨?_, fun x hx => absurd hx List.not_mem_nil⟩⟩
    · show _ = c.thread.got ++ c.toServer ++ Active.toSend _
      rw [hup, hthread]
      exact (program_toSend call).symm
    · show _ ++ c.toClient = _
      rw [hdown]
      rfl
    · show c.thread.Reading _
      rw [hthread]
      exact Nat.succ_pos _
  returned := h.returned
  ordered := h.ordered
  before := fun _ r hr => (h.returned r hr).till_le

theorem length_of_full (h : Full answers) :
    (answers.flatMap Prod.snd).length = ((answers.map Prod.fst).map replySize).sum := by
  induction answers with
  | nil => rfl
  | cons x answers ih =>
      rw [List.flatMap_cons, List.length_append, h x List.mem_cons_self,
        ih fun y hy => h y (List.mem_cons_of_mem _ hy)]
      rfl

/-- A call whose loops are done: nothing is left on the connection, and the buffers are the
answers. -/
theorem Conn.InCall.done (h : c.InCall v log a answers undecoded) (hio : a.io = []) :
    c.toServer = [] ∧ c.toClient = [] ∧ c.thread = .header [] ∧
      answers.map Prod.fst = a.call.requests ∧ answers.map Prod.snd = a.bufs ∧ Full answers := by
  obtain ⟨sends, lens, hshape⟩ := h.shape
  obtain ⟨rfl, hlens⟩ : sends = [] ∧ lens.map Io.recvFull = [] :=
    List.append_eq_nil_iff.mp (hshape.io.symm.trans hio)
  obtain rfl : lens = [] := List.map_eq_nil_iff.mp hlens
  have hsizes : a.call.requests.map replySize = a.bufs.map List.length :=
    hshape.sizes.trans (List.append_nil _)
  have hsend : a.toSend = [] := by rw [Active.toSend, hio]; rfl
  have hreceived : a.received = a.bufs.flatten := by
    rw [Active.received, hshape.done rfl, List.append_nil]
  -- The client has as many bytes as all its requests are due, so none is undecoded or unanswered.
  have hdown := congrArg List.length h.down
  have hall := congrArg (fun rs => (rs.map replySize).sum) h.sequence
  simp only [List.map_append, List.sum_append] at hall
  rw [hreceived, List.length_append, List.length_flatten, ← hsizes, ← hall] at hdown
  rcases h.thread with ⟨hread, hfull⟩ | ⟨pre, req, bytes, rfl, hfull, hserving⟩
  · rw [length_of_full hfull] at hdown
    have hundecoded : undecoded = [] := by
      refine eq_nil_of_sum_map_eq_zero replySize (fun req hreq => replySize_pos ?_) (by omega)
      exact RpcCall.known (h.sequence ▸ List.mem_append_right _ hreq)
    have htoClient : c.toClient = [] := List.eq_nil_of_length_eq_zero (by omega)
    have hup := h.up
    rw [hundecoded, hsend, List.append_nil] at hup
    obtain ⟨hgot, htoServer⟩ := List.append_eq_nil_iff.mp hup.symm
    have hseq := h.sequence
    rw [hundecoded, List.append_nil] at hseq
    refine ⟨htoServer, htoClient, ?_, hseq, ?_, hfull⟩
    · cases ht : c.thread with
      | header got =>
          rw [ht] at hgot
          exact congrArg Thread.header hgot
      | body pageId got =>
          rw [ht] at hgot
          exact absurd (List.append_eq_nil_iff.mp hgot).1 (List.cons_ne_nil _ _)
      | _ =>
          rw [ht] at hread
          exact hread.elim
    · refine List.eq_iff_flatten_eq.mpr ⟨?_, ?_⟩
      · rw [← hreceived, ← List.flatMap_def, ← h.down, htoClient, List.append_nil]
      · rw [← hsizes, ← hseq, List.map_map, List.map_map]
        exact List.map_congr_left fun x hx => hfull x hx
  · have hlt := hserving.lt
    rw [List.flatMap_append, List.length_append, length_of_full hfull] at hdown
    simp only [List.map_append, List.sum_append, List.map_cons, List.map_nil, List.sum_cons,
      List.sum_nil, List.flatMap_cons, List.flatMap_nil, List.append_nil] at hdown
    omega

theorem Conn.Ok.finish (h : c.Ok v log) (hactive : c.active = some a) (hio : a.io = []) :
    Conn.Ok v log { c with
      active := none, returned := c.returned ++ [⟨a.call, a.bufs, c.since, log.length⟩] } := by
  obtain ⟨answers, undecoded, hcall⟩ := h.call a hactive
  obtain ⟨hup, hdown, hthread, hreqs, hbufs, hfull⟩ := hcall.done hio
  have hne : c.active ≠ none := by rw [hactive]; exact Option.some_ne_none a
  refine ⟨h.since_le, fun _ => ⟨hup, hdown, hthread⟩, (fun _ hc => nomatch hc), fun r hr => ?_, ?_,
    fun hc => absurd rfl hc⟩
  · rcases List.mem_append.mp hr with hr | hr
    · exact h.returned r hr
    · obtain rfl := List.mem_singleton.mp hr
      refine ⟨h.since_le, le_rfl, ?_⟩
      show List.Forall₂ _ a.call.requests a.bufs
      rw [← hreqs, ← hbufs, List.forall₂_map_left_iff, List.forall₂_map_right_iff,
        List.forall₂_same]
      exact fun x hx => ⟨hfull x hx, hcall.answered x hx⟩
  · refine List.pairwise_append.mpr ⟨h.ordered, List.pairwise_singleton _ _, fun r hr r' hr' => ?_⟩
    obtain rfl := List.mem_singleton.mp hr'
    exact h.before hne r hr

/-! ### The steps of a call -/

/-- A step inside a call keeps the invariant if it keeps what is said of the call. -/
theorem Conn.Ok.inside (h : c.Ok v log) (hactive : c.active ≠ none) {c' : Conn} {a' : Active}
    (hactive' : c'.active = some a') (hsince : c'.since = c.since)
    (hreturned : c'.returned = c.returned)
    (hcall : ∃ answers undecoded, c'.InCall v log a' answers undecoded) : c'.Ok v log where
  since_le := hsince ▸ h.since_le
  idle := fun hnone => by rw [hactive'] at hnone; cases hnone
  call := fun b hb => by
    obtain rfl := Option.some.inj (hactive'.symm.trans hb)
    exact hcall
  returned := hreturned ▸ h.returned
  ordered := hreturned ▸ h.ordered
  before := fun _ => by rw [hreturned, hsince]; exact h.before hactive

theorem Conn.InCall.clientSend (h : c.InCall v log a answers undecoded) {k : Nat} (hk : 0 < k)
    (hle : k ≤ a.pending.length) :
    Conn.InCall v log
      { c with active := some (a.sent k), toServer := c.toServer ++ a.pending.take k }
      (a.sent k) answers undecoded := by
  obtain ⟨sends, lens, hshape⟩ := h.shape
  obtain ⟨⟨sends', hshape'⟩, hcall, hreceived, hbytes⟩ := hshape.sent hk hle
  refine ⟨⟨sends', lens, hshape'⟩, hcall ▸ h.sequence, ?_, hreceived ▸ h.down, h.answered, h.thread⟩
  show _ = c.thread.got ++ (c.toServer ++ a.pending.take k) ++ (a.sent k).toSend
  rw [h.up, ← hbytes]
  simp only [List.append_assoc]

theorem Conn.InCall.clientRecv (h : c.InCall v log a answers undecoded) {k : Nat} (hk : 0 < k)
    (hneeds : k ≤ a.needs) (hle : k ≤ c.toClient.length) :
    Conn.InCall v log
      { c with active := some (a.receive (c.toClient.take k)), toClient := c.toClient.drop k }
      (a.receive (c.toClient.take k)) answers undecoded := by
  have hlen : (c.toClient.take k).length = k := List.length_take_of_le hle
  obtain ⟨sends, lens, hshape⟩ := h.shape
  obtain ⟨⟨lens', hshape'⟩, hcall, hreceived, hnone, hnone'⟩ :=
    hshape.receive (by omega) (hlen.le.trans hneeds)
  refine ⟨⟨[], lens', hshape'⟩, hcall ▸ h.sequence, ?_, ?_, h.answered, h.thread⟩
  · show _ = c.thread.got ++ c.toServer ++ _
    rw [hnone', ← hnone]
    exact h.up
  · show (a.receive _).received ++ c.toClient.drop k = _
    rw [hreceived, List.append_assoc, List.take_append_drop]
    exact h.down

/-- The thread has read a request and begins to serve it. -/
theorem Conn.InCall.decode {req : Request} {rest : List Request}
    (h : c.InCall v log a answers (req :: rest)) (hsince : c.since ≤ log.length)
    (hserver : Holds v log s) (hfull : Full answers) {toServer : Bytes}
    (hup : rest.flatMap requestBytes = toServer ++ a.toSend) :
    Conn.InCall v log { c with toServer := toServer, thread := Thread.decode s req } a
      (answers ++ [(req, [])]) rest := by
  have hknown : req.Known :=
    RpcCall.known (h.sequence ▸ List.mem_append_right _ List.mem_cons_self)
  have hserving := Thread.serving_decode hserver hsince hknown
  refine ⟨h.shape, ?_, ?_, ?_, fun x hx => ?_, .inr ⟨answers, req, [], rfl, hfull, hserving⟩⟩
  · rw [List.map_append, List.append_assoc]
    exact h.sequence
  · show _ = (Thread.decode s req).got ++ toServer ++ a.toSend
    rw [hserving.got.1]
    exact hup
  · rw [List.flatMap_append]
    exact h.down.trans (List.append_nil _).symm
  · rcases List.mem_append.mp hx with hx | hx
    · exact h.answered x hx
    · obtain rfl := List.mem_singleton.mp hx
      exact answered_nil hknown

/-- A `recv` of the thread that does not complete what it reads. -/
theorem Conn.InCall.recvMore (h : c.InCall v log a answers undecoded) (hfull : Full answers)
    {t : Thread} {k : Nat} (hgot : t.got = c.thread.got ++ c.toServer.take k)
    (hread : t.Reading undecoded) :
    Conn.InCall v log { c with toServer := c.toServer.drop k, thread := t } a answers undecoded := by
  refine ⟨h.shape, h.sequence, ?_, h.down, h.answered, .inl ⟨hread, hfull⟩⟩
  show _ = t.got ++ c.toServer.drop k ++ a.toSend
  rw [hgot, List.append_assoc c.thread.got, List.take_append_drop]
  exact h.up

theorem Conn.InCall.recvHeader (h : c.InCall v log a answers undecoded)
    (hsince : c.since ≤ log.length) (hserver : Holds v log s) (hfull : Full answers) {got : Bytes}
    {k : Nat} (hthread : c.thread = .header got)
    (hlen : (got ++ c.toServer.take k).length = headerSize) :
    ∃ answers undecoded, Conn.InCall v log
      { c with
        toServer := c.toServer.drop k
        thread := c.thread.receive s (c.toServer.take k) } a answers undecoded := by
  have hup : undecoded.flatMap requestBytes =
      (got ++ c.toServer.take k) ++ (c.toServer.drop k ++ a.toSend) := by
    rw [h.up, hthread, ← List.append_assoc, List.append_assoc got, List.take_append_drop]
    rfl
  have hreceive : c.thread.receive s (c.toServer.take k) =
      if headerOp (got ++ c.toServer.take k) = opGetPage then
        .decode s (.get (headerPageId (got ++ c.toServer.take k)))
      else if headerOp (got ++ c.toServer.take k) = opPutPage then
        .body (headerPageId (got ++ c.toServer.take k)) []
      else .decode s (.other (headerOp (got ++ c.toServer.take k))
        (headerPageId (got ++ c.toServer.take k))) := by
    rw [hthread, Thread.receive]
    exact if_neg (by omega)
  cases undecoded with
  | nil =>
      have := congrArg List.length hup
      rw [List.length_append, hlen] at this
      exact absurd this (by simp [headerSize]; omega)
  | cons req rest =>
      cases req with
      | other op pageId =>
          have hknown : (Request.other op pageId).Known :=
            RpcCall.known (h.sequence ▸ List.mem_append_right _ List.mem_cons_self)
          exact hknown.elim
      | get pageId =>
          obtain ⟨hhead, htail⟩ := List.append_inj
            (show dsmRpcMakeHeader opGetPage pageId ++ rest.flatMap requestBytes = _ from hup)
            hlen.symm
          rw [← hhead, headerOp_make, headerPageId_make, if_pos rfl] at hreceive
          rw [hreceive]
          exact ⟨_, rest, h.decode hsince hserver hfull htail⟩
      | put pageId data =>
          obtain ⟨hhead, -⟩ := List.append_inj
            (show dsmRpcMakeHeader opPutPage pageId ++ (data.toList ++ rest.flatMap requestBytes) = _
              from (List.append_assoc _ _ _).symm.trans hup) hlen.symm
          rw [← hhead, headerOp_make, headerPageId_make, if_neg (by decide), if_pos rfl] at hreceive
          rw [hreceive]
          refine ⟨_, _, h.recvMore hfull ?_ ⟨Nat.succ_pos _, data, rest, rfl⟩⟩
          rw [hthread]
          exact (List.append_nil _).trans hhead

theorem Conn.InCall.recvBody (h : c.InCall v log a answers undecoded)
    (hsince : c.since ≤ log.length) (hserver : Holds v log s) (hfull : Full answers)
    {pageId : UInt32} {got : Bytes} {k : Nat} (hthread : c.thread = .body pageId got)
    (hread : c.thread.Reading undecoded) (hlen : (got ++ c.toServer.take k).length = pageSize) :
    ∃ answers undecoded, Conn.InCall v log
      { c with
        toServer := c.toServer.drop k
        thread := c.thread.receive s (c.toServer.take k) } a answers undecoded := by
  rw [hthread] at hread
  obtain ⟨-, data, rest, rfl⟩ := hread
  have hup : (dsmRpcMakeHeader opPutPage pageId ++ data.toList) ++ rest.flatMap requestBytes =
      (dsmRpcMakeHeader opPutPage pageId ++ got) ++ c.toServer ++ a.toSend := by
    have := h.up
    rw [hthread] at this
    exact this
  have hrest : data.toList ++ rest.flatMap requestBytes =
      (got ++ c.toServer.take k) ++ (c.toServer.drop k ++ a.toSend) := by
    rw [← List.append_assoc (got ++ _), List.append_assoc got, List.take_append_drop]
    simp only [List.append_assoc] at hup ⊢
    exact List.append_cancel_left hup
  obtain ⟨hdata, htail⟩ := List.append_inj hrest (by rw [hlen]; exact length_page_toList data)
  have hreceive : c.thread.receive s (c.toServer.take k) = .decode s (.put pageId data) := by
    rw [hthread, Thread.receive]
    refine (if_neg (by omega)).trans ?_
    rw [← hdata, pageOfBytes_toList]
  rw [hreceive]
  exact ⟨_, rest, h.decode hsince hserver hfull htail⟩

theorem Conn.InCall.threadRecv (h : c.InCall v log a answers undecoded)
    (hsince : c.since ≤ log.length) (hserver : Holds v log s) {k : Nat} (hk : 0 < k)
    (hneeds : k ≤ c.thread.needs) (hle : k ≤ c.toServer.length) :
    ∃ answers undecoded, Conn.InCall v log
      { c with
        toServer := c.toServer.drop k
        thread := c.thread.receive s (c.toServer.take k) } a answers undecoded := by
  rcases h.thread with ⟨hread, hfull⟩ | ⟨pre, req, bytes, -, -, hserving⟩
  · cases ht : c.thread with
    | header got =>
        rw [ht] at hneeds
        have hlen : (got ++ c.toServer.take k).length = got.length + k := by
          rw [List.length_append, List.length_take_of_le hle]
        have hneeds' : k ≤ headerSize - got.length := hneeds
        by_cases hlt : (got ++ c.toServer.take k).length < headerSize
        · rw [Thread.receive, if_pos hlt]
          exact ⟨_, _, h.recvMore hfull (by rw [ht]; rfl) hlt⟩
        · rw [← ht]
          exact h.recvHeader hsince hserver hfull ht (by omega)
    | body pageId got =>
        have hneeds' : k ≤ pageSize - got.length := by rw [ht] at hneeds; exact hneeds
        have hlen : (got ++ c.toServer.take k).length = got.length + k := by
          rw [List.length_append, List.length_take_of_le hle]
        by_cases hlt : (got ++ c.toServer.take k).length < pageSize
        · rw [ht] at hread
          rw [Thread.receive, if_pos hlt]
          refine ⟨_, _, h.recvMore hfull ?_ ⟨hlt, hread.2⟩⟩
          rw [ht]
          exact (List.append_assoc _ _ _).symm
        · rw [← ht]
          exact h.recvBody hsince hserver hfull ht hread (by omega)
    | _ =>
        rw [ht] at hread
        exact hread.elim
  · rw [hserving.got.2] at hneeds
    omega

/-- The thread that serves a request sends some more of the reply. -/
theorem Conn.InCall.send {pre : List (Request × Bytes)} {req : Request} {bytes more : Bytes}
    (h : c.InCall v log a (pre ++ [(req, bytes)]) undecoded) (hfull : Full pre)
    (hserving : c.thread.Serving v log c.since req bytes)
    (hanswered : Answered v log c.since log.length req (bytes ++ more)) {t : Thread}
    (ht : t.Serving v log c.since req (bytes ++ more) ∨
      t = .header [] ∧ (bytes ++ more).length = replySize req) :
    Conn.InCall v log { c with toClient := c.toClient ++ more, thread := t } a
      (pre ++ [(req, bytes ++ more)]) undecoded := by
  have hgot : t.got = c.thread.got := by
    rw [hserving.got.1]
    rcases ht with ht | ⟨rfl, -⟩
    · exact ht.got.1
    · rfl
  refine ⟨h.shape, ?_, ?_, ?_, fun x hx => ?_, ?_⟩
  · rw [← h.sequence]
    simp
  · show _ = t.got ++ c.toServer ++ a.toSend
    rw [hgot]
    exact h.up
  · have hdown := h.down
    show a.received ++ (c.toClient ++ more) = _
    rw [← List.append_assoc, hdown]
    simp
  · rcases List.mem_append.mp hx with hx | hx
    · exact h.answered x (List.mem_append_left _ hx)
    · obtain rfl := List.mem_singleton.mp hx
      exact hanswered
  · rcases ht with ht | ⟨rfl, hlen⟩
    · exact .inr ⟨pre, req, bytes ++ more, rfl, hfull, ht⟩
    · refine .inl ⟨Nat.succ_pos _, fun x hx => ?_⟩
      rcases List.mem_append.mp hx with hx | hx
      · exact hfull x hx
      · obtain rfl := List.mem_singleton.mp hx
        exact hlen

theorem Conn.InCall.serving (h : c.InCall v log a answers undecoded)
    (hthread : ∀ undecoded, ¬ c.thread.Reading undecoded) :
    ∃ pre req bytes, answers = pre ++ [(req, bytes)] ∧ Full pre ∧
      c.thread.Serving v log c.since req bytes :=
  h.thread.resolve_left fun hread => hthread _ hread.1

/-- A `send` out of the storage: the bytes are those it has now. -/
theorem Conn.InCall.sendPage (h : c.InCall v log a answers undecoded)
    (hsince : c.since ≤ log.length) (hserver : Holds v log s) {pageId : UInt32} {sent k : Nat}
    (hthread : c.thread = .sending pageId sent) (hle : sent + k ≤ pageSize) :
    ∃ answers undecoded, Conn.InCall v log
      { c with
        toClient := c.toClient ++ ((s.storage pageId).toList.drop sent).take k
        thread := if sent + k < pageSize then .sending pageId (sent + k) else .header [] }
      a answers undecoded := by
  obtain ⟨pre, req, bytes, rfl, hfull, hserving⟩ := h.serving (by rw [hthread]; exact fun _ h => h)
  have hserving' := hserving
  rw [hthread] at hserving'
  obtain ⟨rfl, hbytes, hlt, hserves⟩ := hserving'
  have hlen : (bytes ++ ((s.storage pageId).toList.drop sent).take k).length = sent + k := by
    rw [List.length_append, List.length_take, List.length_drop, length_page_toList, hbytes]
    omega
  refine ⟨_, _, h.send hfull hserving ?_ ?_⟩
  · intro j b hb
    by_cases hj : j.val < bytes.length
    · rw [List.getElem?_append_left hj] at hb
      exact h.answered _ (List.mem_append_right _ (List.mem_singleton_self _)) j b hb
    · refine ⟨log.length, hsince, le_rfl, ?_⟩
      have hjk : j.val < sent + k := by
        have := (List.getElem?_eq_some_iff.mp hb).1
        omega
      rw [List.getElem?_append_right (by omega), List.getElem?_take_of_lt (by omega),
        List.getElem?_drop, hbytes, Nat.add_sub_cancel' (by omega)] at hb
      rw [List.take_length, shownAt, if_pos hserves, ← hserver.bytes]
      simpa [PageServer.bytes, Page.byte] using hb.symm
  · split
    · next hmore => exact .inl ⟨rfl, hlen, hmore, hserves⟩
    · next hmore => exact .inr ⟨rfl, hlen.trans (by show _ = pageSize; omega)⟩

theorem Conn.InCall.sendReply (h : c.InCall v log a answers undecoded) {rest : Bytes} {k : Nat}
    (hthread : c.thread = .reply rest) :
    ∃ answers undecoded, Conn.InCall v log
      { c with
        toClient := c.toClient ++ rest.take k
        thread := if k < rest.length then .reply (rest.drop k) else .header [] }
      a answers undecoded := by
  obtain ⟨pre, req, bytes, rfl, hfull, hserving⟩ := h.serving (by rw [hthread]; exact fun _ h => h)
  have hserving' := hserving
  rw [hthread] at hserving'
  obtain ⟨hne, hlen, hanswered⟩ := hserving'
  have hsplit : bytes ++ rest.take k ++ rest.drop k = bytes ++ rest := by
    rw [List.append_assoc, List.take_append_drop]
  have hmore : Answered v log c.since log.length req (bytes ++ rest.take k) := by
    rw [← hsplit] at hanswered
    exact hanswered.left
  refine ⟨_, _, h.send hfull hserving hmore ?_⟩
  split
  · refine .inl ⟨?_, ?_, ?_⟩
    · rw [Ne, List.drop_eq_nil_iff]
      omega
    · rw [hsplit]
      exact hlen
    · rw [hsplit]
      exact hanswered
  · rw [List.take_of_length_le (by omega)]
    exact .inr ⟨rfl, hlen⟩

/-- One byte of `memcpy`; the last one is followed by the reply. -/
theorem Conn.InCall.copy (h : c.InCall v log a answers undecoded) (hsince : c.since ≤ log.length)
    {pageId : UInt32} {data : Page} {todo : Finset (Fin pageSize)} {offset : Fin pageSize}
    (hthread : c.thread = .copying pageId data todo) :
    ∃ answers undecoded, Conn.InCall v (log ++ [((pageId, offset), data.byte offset)])
      { c with thread := .copied pageId data (todo.erase offset) } a answers undecoded := by
  obtain ⟨pre, req, bytes, rfl, hfull, hserving⟩ := h.serving (by rw [hthread]; exact fun _ h => h)
  have hmono := h.mono [((pageId, offset), data.byte offset)]
  have hserving' := hserving
  rw [hthread] at hserving'
  obtain ⟨rfl, rfl, -, hserves, hwritten⟩ := hserving'
  have hnow : ∀ j, j ∉ todo.erase offset →
      Written (log ++ [((pageId, offset), data.byte offset)]) c.since
        (log ++ [((pageId, offset), data.byte offset)]).length pageId data j := by
    intro j hj
    by_cases hjo : j = offset
    · subst hjo
      exact ⟨log.length, hsince, by simp, by simp⟩
    · refine (hwritten j fun htodo => hj (Finset.mem_erase.mpr ⟨hjo, htodo⟩)).mono _ ?_
      rw [List.length_append]
      exact Nat.le_add_right _ _
  have hcopied : (Thread.copied pageId data (todo.erase offset)).Serving v
      (log ++ [((pageId, offset), data.byte offset)]) c.since (.put pageId data) [] := by
    unfold Thread.copied
    split
    · next htodo => exact ⟨rfl, rfl, htodo, hserves, hnow⟩
    · next htodo =>
      rw [Finset.not_nonempty_iff_eq_empty] at htodo
      refine ⟨List.cons_ne_nil _ _, rfl, List.prefix_rfl, fun _ => ⟨hserves, fun j => hnow j ?_⟩⟩
      rw [htodo]
      exact Finset.notMem_empty j
  refine ⟨_, _, hmono.shape, hmono.sequence, ?_, hmono.down, hmono.answered,
    .inr ⟨pre, _, [], rfl, hfull, hcopied⟩⟩
  show _ = (Thread.copied pageId data (todo.erase offset)).got ++ c.toServer ++ a.toSend
  rw [hcopied.got.1, ← hserving.got.1]
  exact h.up

end Steps

end Dsm.Rpc
