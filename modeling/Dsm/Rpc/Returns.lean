import Dsm.Rpc.Atomic
import Mathlib.Data.Fintype.Card

/-!
# Every call returns

The handler threads share the storage but nothing else: no lock, no queue, no condition. So a call
needs only its own connection to make progress. Until it has returned its connection can take a step
that moves a byte, whatever the other clients do, and each such step takes it nearer to its end
(`rpc_returns`). The exception is a PUT of a page past the storage, which the thread leaves without an
answer.
-/

namespace Dsm.Rpc

open Dsm.Server Dsm.Lib

/-! ## The work left on a connection -/

/-- The bytes that a call has the thread copy. -/
def RpcCall.copies : RpcCall → Nat
  | .put _ _ => pageSize
  | _ => 0

def RpcCall.replyBytes (call : RpcCall) : Nat := (call.requests.map replySize).sum

/-- What the thread has still to copy, before and during the copy; `due` bytes are left to reply. -/
def Thread.toCopy (call : RpcCall) (due : Nat) : Thread → Nat
  | .copying _ _ todo => todo.card
  | .header _ | .body _ _ => if due = 0 then 0 else call.copies
  | _ => 0

/-- The bytes of the replies that the thread has not sent yet. -/
def Conn.due (c : Conn) (a : Active) : Nat :=
  a.call.replyBytes - (a.received.length + c.toClient.length)

/-- An upper bound on the steps to the end of the call: a byte of a request is sent and received, a
byte of a page is copied, a byte of a reply is sent and received, and the call returns. -/
def Conn.work (c : Conn) : Nat :=
  match c.active with
  | none => 0
  | some a => 2 * a.toSend.length + c.toServer.length + c.thread.toCopy a.call (c.due a) +
      2 * c.due a + c.toClient.length + 1

/-- The work of a whole call. -/
def RpcCall.work (call : RpcCall) : Nat :=
  2 * (call.requests.flatMap requestBytes).length + call.copies + 2 * call.replyBytes + 1

theorem RpcCall.work_put (p : UInt32) (data : Page) :
    (RpcCall.put p data).work = 3 * pageSize + 4 * headerSize + 1 := by
  have hbytes : ((RpcCall.put p data).requests.flatMap requestBytes).length =
      headerSize + pageSize := by
    rw [RpcCall.requests, List.flatMap_singleton, requestBytes, List.length_append,
      length_dsmRpcMakeHeader, length_page_toList]
  rw [RpcCall.work, hbytes]
  rfl

theorem Conn.work_of_active {c : Conn} {a : Active} (h : c.active = some a) :
    c.work = 2 * a.toSend.length + c.toServer.length + c.thread.toCopy a.call (c.due a) +
      2 * c.due a + c.toClient.length + 1 := by
  rw [Conn.work, h]

section InCall

variable {v : PageServer} {log : List (Cell × UInt8)} {c : Conn} {a : Active}
  {answers : List (Request × Bytes)} {undecoded : List Request}

/-- The bytes sent for the requests are at most those due. -/
theorem Conn.InCall.received_le (h : c.InCall v log a answers undecoded) :
    a.received.length + c.toClient.length ≤ a.call.replyBytes := by
  have hdown := congrArg List.length h.down
  rw [List.length_append] at hdown
  rw [hdown, RpcCall.replyBytes, ← h.sequence, List.map_append, List.sum_append]
  rcases h.thread with ⟨-, hfull⟩ | ⟨pre, req, bytes, rfl, hfull, hserving⟩
  · rw [length_of_full hfull]
    exact Nat.le_add_right _ _
  · have hlt := hserving.lt
    rw [List.flatMap_append, List.length_append, length_of_full hfull]
    simp
    omega

/-- A thread that is busy with a request owes the rest of its reply and the replies of the requests
it has not decoded. -/
theorem Conn.InCall.due_serving {pre : List (Request × Bytes)} {req : Request} {bytes : Bytes}
    (h : c.InCall v log a (pre ++ [(req, bytes)]) undecoded) (hfull : Full pre)
    (hlt : bytes.length < replySize req) :
    c.due a = replySize req - bytes.length + (undecoded.map replySize).sum := by
  have hdown := congrArg List.length h.down
  rw [List.length_append, List.flatMap_append, List.length_append, length_of_full hfull] at hdown
  rw [Conn.due, hdown, RpcCall.replyBytes, ← h.sequence]
  simp
  omega

/-- A thread that reads owes the replies of the requests it has not decoded. -/
theorem Conn.InCall.due_reading (h : c.InCall v log a answers undecoded) (hfull : Full answers) :
    c.due a = (undecoded.map replySize).sum := by
  have hdown := congrArg List.length h.down
  rw [List.length_append, length_of_full hfull] at hdown
  rw [Conn.due, hdown, RpcCall.replyBytes, ← h.sequence]
  simp

theorem Conn.InCall.put_serving {pre : List (Request × Bytes)} {req : Request} {bytes : Bytes}
    (h : c.InCall v log a (pre ++ [(req, bytes)]) undecoded) {p : UInt32} {data : Page}
    (hcall : a.call = .put p data) : pre = [] ∧ req = .put p data ∧ undecoded = [] := by
  have hseq := h.sequence
  rw [hcall] at hseq
  cases pre with
  | nil =>
      obtain ⟨rfl, hnil⟩ := List.cons.inj hseq
      exact ⟨rfl, rfl, hnil⟩
  | cons x pre =>
      have hlen := congrArg List.length hseq
      simp [RpcCall.requests] at hlen

theorem Conn.InCall.mem_requests {pre : List (Request × Bytes)} {req : Request} {bytes : Bytes}
    (h : c.InCall v log a (pre ++ [(req, bytes)]) undecoded) : req ∈ a.call.requests := by
  rw [← h.sequence]
  simp

/-- Only a PUT copies. -/
theorem Conn.InCall.toCopy_le (h : c.InCall v log a answers undecoded) (due : Nat) :
    c.thread.toCopy a.call due ≤ a.call.copies := by
  cases hthread : c.thread with
  | copying p data todo =>
      obtain ⟨pre, req, bytes, rfl, -, hserving⟩ :=
        h.serving (by rw [hthread]; exact fun _ h => h)
      rw [hthread] at hserving
      obtain ⟨rfl, -⟩ := hserving
      rw [RpcCall.eq_put_of_mem h.mem_requests]
      exact (Finset.card_le_univ todo).trans_eq (Fintype.card_fin _)
  | header | body =>
      simp only [Thread.toCopy]
      split <;> omega
  | _ => exact Nat.zero_le _

/-- While the thread has bytes of a request to read, all of the copy is still to come. -/
theorem Conn.InCall.toCopy_reading (h : c.InCall v log a answers undecoded)
    (hneeds : 0 < c.thread.needs) (hup : 0 < c.toServer.length) :
    c.thread.toCopy a.call (c.due a) = a.call.copies := by
  rcases h.thread with ⟨hread, hfull⟩ | ⟨pre, req, bytes, -, -, hserving⟩
  · have hdue : c.due a ≠ 0 := by
      rw [h.due_reading hfull]
      intro hzero
      have hnil : undecoded = [] :=
        eq_nil_of_sum_map_eq_zero replySize (fun req hreq => replySize_pos
          (RpcCall.known (h.sequence ▸ List.mem_append_right _ hreq))) hzero
      have hbytes := congrArg List.length h.up
      rw [hnil] at hbytes
      simp at hbytes
      omega
    cases hthread : c.thread with
    | header | body => exact if_neg hdue
    | _ =>
        rw [hthread] at hread
        exact hread.elim
  · rw [hserving.got.2] at hneeds
    omega

/-- The thread sends out of the storage only for a GET. -/
theorem Conn.InCall.copies_of_get (h : c.InCall v log a answers undecoded) {p : UInt32} {sent : Nat}
    (hthread : c.thread = .sending p sent) : a.call.copies = 0 := by
  obtain ⟨pre, req, bytes, rfl, -, hserving⟩ := h.serving (by rw [hthread]; exact fun _ h => h)
  rw [hthread] at hserving
  obtain ⟨rfl, -⟩ := hserving
  have hmem := h.mem_requests
  cases hcall : a.call with
  | put q data =>
      rw [hcall] at hmem
      cases List.mem_singleton.mp hmem
  | _ => rfl

/-- After a reply there is nothing to copy. -/
theorem Conn.InCall.toCopy_replied (h : c.InCall v log a answers undecoded) {rest : Bytes} {k : Nat}
    (hthread : c.thread = .reply rest) (hle : k ≤ rest.length) :
    Thread.toCopy a.call (a.call.replyBytes - (a.received.length + (c.toClient.length + k)))
      (if k < rest.length then .reply (rest.drop k) else .header []) = 0 := by
  obtain ⟨pre, req, bytes, rfl, hfull, hserving⟩ := h.serving (by rw [hthread]; exact fun _ h => h)
  have hlt := hserving.lt
  rw [hthread] at hserving
  obtain ⟨-, hlen, -⟩ := hserving
  split
  · rfl
  · simp only [Thread.toCopy]
    split
    · rfl
    · next hdue =>
      cases hcall : a.call with
      | put p data =>
          obtain ⟨rfl, rfl, rfl⟩ := h.put_serving hcall
          have hsize := h.due_serving hfull hlt
          rw [List.length_append] at hlen
          simp only [Conn.due, List.map_nil, List.sum_nil] at hsize
          omega
      | _ => rfl

theorem Conn.InCall.work_le (h : c.InCall v log a answers undecoded) (hactive : c.active = some a) :
    c.work ≤ a.call.work := by
  have hup := congrArg List.length h.up
  have hall : (a.call.requests.flatMap requestBytes).length =
      ((answers.map Prod.fst).flatMap requestBytes).length +
        (undecoded.flatMap requestBytes).length := by
    rw [← h.sequence, List.flatMap_append, List.length_append]
  have hdue : c.due a + c.toClient.length ≤ a.call.replyBytes := by
    have := h.received_le
    unfold Conn.due
    omega
  have hcopy := h.toCopy_le (c.due a)
  rw [Conn.work_of_active hactive, RpcCall.work]
  simp only [List.length_append] at hup
  omega

end InCall

/-! ## One step -/

/-- A system call that moves bytes, a byte of the copy, the begin or the end of a call. -/
def Action.moves : Action → Bool
  | .eintr => false
  | _ => true

/-- **One step** of a connection in a call takes it nearer to its end. -/
theorem Conn.Ok.work_lt {v s : PageServer} {log ws : List (Cell × UInt8)} {c c' : Conn}
    {act : Action} (hserver : Holds v log s) (h : c.Ok v log) (hactive : c.active ≠ none)
    (hmoves : act.moves = true) (hstep : ConnStep s log.length c act c' ws) :
    c'.work < c.work := by
  have hok' := h.step hserver hstep
  cases hstep with
  | begin call hnone => exact absurd hnone hactive
  | finish hsome hio =>
      rw [Conn.work_of_active hsome]
      exact Nat.succ_pos _
  | @clientSend a k hsome hk hle =>
      obtain ⟨answers, undecoded, hcall⟩ := h.call a hsome
      obtain ⟨sends, lens, hshape⟩ := hcall.shape
      obtain ⟨-, hsame, hreceived, hbytes⟩ := hshape.sent hk hle
      have hlen := congrArg List.length hbytes
      rw [List.length_append, List.length_take_of_le hle] at hlen
      rw [Conn.work_of_active hsome, Conn.work_of_active rfl]
      simp only [Conn.due, hsame, hreceived, List.length_append, List.length_take_of_le hle]
      omega
  | @clientRecv a k hsome hk hneeds hle =>
      obtain ⟨answers, undecoded, hcall⟩ := h.call a hsome
      obtain ⟨sends, lens, hshape⟩ := hcall.shape
      have hlen : (c.toClient.take k).length = k := List.length_take_of_le hle
      obtain ⟨-, hsame, hreceived, hnone, hnone'⟩ :=
        hshape.receive (by omega) (hlen.le.trans hneeds)
      have hdue : Conn.due { c with
          active := some (a.receive (c.toClient.take k)), toClient := c.toClient.drop k }
          (a.receive (c.toClient.take k)) = c.due a := by
        simp only [Conn.due, hsame, hreceived, List.length_append, hlen, List.length_drop]
        omega
      rw [Conn.work_of_active hsome, Conn.work_of_active rfl, hdue, hsame, hnone, hnone']
      simp only [List.length_drop]
      omega
  | @threadRecv k hk hneeds hle =>
      obtain ⟨a, hsome⟩ := Option.ne_none_iff_exists'.mp hactive
      obtain ⟨answers, undecoded, hcall⟩ := h.call a hsome
      obtain ⟨answers', undecoded', hcall'⟩ := hok'.call a hsome
      have hcopy : c.thread.toCopy a.call (c.due a) = a.call.copies :=
        hcall.toCopy_reading (hk.trans_le hneeds) (hk.trans_le hle)
      have hcopy' := hcall'.toCopy_le (c.due a)
      refine lt_of_eq_of_lt (Conn.work_of_active hsome) ?_
      rw [Conn.work_of_active hsome, hcopy]
      simp only [Conn.due, List.length_drop] at hcopy' ⊢
      omega
  | @copy pageId data todo offset hthread hoffset =>
      obtain ⟨a, hsome⟩ := Option.ne_none_iff_exists'.mp hactive
      have hcard := Finset.card_erase_of_mem hoffset
      have hpos := Finset.card_pos.mpr ⟨offset, hoffset⟩
      have hcopied : (Thread.copied pageId data (todo.erase offset)).toCopy a.call (c.due a) <
          todo.card := by
        unfold Thread.copied
        split
        · simp only [Thread.toCopy]
          omega
        · exact hpos
      have hcopy : Thread.toCopy a.call (c.due a) (.copying pageId data todo) = todo.card := rfl
      refine lt_of_eq_of_lt (Conn.work_of_active hsome) ?_
      rw [Conn.work_of_active hsome, hthread, hcopy]
      simp only [Conn.due] at hcopied ⊢
      omega
  | @sendPage pageId sent k hthread hk hle =>
      obtain ⟨a, hsome⟩ := Option.ne_none_iff_exists'.mp hactive
      obtain ⟨answers, undecoded, hcall⟩ := h.call a hsome
      obtain ⟨answers', undecoded', hcall'⟩ := hok'.call a hsome
      have hlen : (((s.storage pageId).toList.drop sent).take k).length = k := by
        rw [List.length_take, List.length_drop, length_page_toList]
        omega
      have hle' := hcall'.received_le
      have hcopies : a.call.copies = 0 := hcall.copies_of_get hthread
      have hcopy' := hcall'.toCopy_le
      refine lt_of_eq_of_lt (Conn.work_of_active hsome) ?_
      rw [Conn.work_of_active hsome]
      simp only [Conn.due, List.length_append, hlen] at hle' hcopy' ⊢
      have := hcopy' (a.call.replyBytes - (a.received.length + (c.toClient.length + k)))
      omega
  | @sendReply rest k hthread hk hle =>
      obtain ⟨a, hsome⟩ := Option.ne_none_iff_exists'.mp hactive
      obtain ⟨answers, undecoded, hcall⟩ := h.call a hsome
      obtain ⟨answers', undecoded', hcall'⟩ := hok'.call a hsome
      have hlen : (rest.take k).length = k := List.length_take_of_le hle
      have hle' := hcall'.received_le
      have hcopy' := hcall.toCopy_replied hthread hle
      refine lt_of_eq_of_lt (Conn.work_of_active hsome) ?_
      rw [Conn.work_of_active hsome]
      simp only [Conn.due, List.length_append, hlen] at hle' hcopy' ⊢
      omega
  | eintr => cases hmoves

/-! ## Progress -/

/-- A client that waits for bytes that are not there yet: its thread has something to do. -/
theorem Conn.InCall.thread_moves {v s : PageServer} {log : List (Cell × UInt8)} {c : Conn}
    {a : Active} {answers : List (Request × Bytes)} {undecoded : List Request}
    (h : c.InCall v log a answers undecoded)
    (hputs : ∀ p data, a.call = .put p data → v.Serves p) (hsent : a.toSend = [])
    (hwaits : a.received.length < a.call.replyBytes) (hdown : c.toClient = []) :
    ∃ act c' ws, act.moves = true ∧ ConnStep s log.length c act c' ws := by
  rcases h.thread with ⟨hread, hfull⟩ | ⟨pre, req, bytes, rfl, hfull, hserving⟩
  · have hdue := h.due_reading hfull
    have hne : undecoded ≠ [] := by
      rintro rfl
      rw [Conn.due, hdown] at hdue
      simp at hdue
      omega
    obtain ⟨req, rest, rfl⟩ := List.exists_cons_of_ne_nil hne
    have hup := congrArg List.length h.up
    rw [hsent, List.append_nil, List.flatMap_cons, List.length_append, List.length_append] at hup
    have hheader := headerSize_le_length req
    cases hthread : c.thread with
    | header got =>
        rw [hthread] at hread hup
        have hlt : got.length < headerSize := hread
        have hgot : (Thread.header got).got.length = got.length := rfl
        have hneeds : 0 < c.thread.needs := by
          rw [hthread]
          exact Nat.sub_pos_of_lt hlt
        exact ⟨.threadRecv 1, _, _, rfl, .threadRecv Nat.one_pos hneeds (by omega)⟩
    | body pageId got =>
        rw [hthread] at hread hup
        obtain ⟨hlt, data, rest', heq⟩ := hread
        obtain ⟨rfl, rfl⟩ := List.cons.inj heq
        have hgot : (Thread.body pageId got).got.length = headerSize + got.length := by
          simp [Thread.got]
        have hrequest : (requestBytes (.put pageId data)).length = headerSize + pageSize := by
          simp [requestBytes]
        have hneeds : 0 < c.thread.needs := by
          rw [hthread]
          exact Nat.sub_pos_of_lt hlt
        exact ⟨.threadRecv 1, _, _, rfl, .threadRecv Nat.one_pos hneeds (by omega)⟩
    | _ =>
        rw [hthread] at hread
        exact hread.elim
  · cases hthread : c.thread with
    | header | body =>
        rw [hthread] at hserving
        exact hserving.elim
    | copying pageId data todo =>
        rw [hthread] at hserving
        obtain ⟨-, -, ⟨offset, hoffset⟩, -⟩ := hserving
        exact ⟨.copy offset, _, _, rfl, .copy hthread hoffset⟩
    | sending pageId sent =>
        rw [hthread] at hserving
        obtain ⟨-, -, hlt, -⟩ := hserving
        exact ⟨.sendPage 1, _, _, rfl, .sendPage hthread Nat.one_pos hlt⟩
    | reply rest =>
        rw [hthread] at hserving
        exact ⟨.sendReply 1, _, _, rfl,
          .sendReply hthread Nat.one_pos (List.length_pos_iff.mpr hserving.1)⟩
    | left =>
        rw [hthread] at hserving
        obtain ⟨-, p, data, rfl, hserves⟩ := hserving
        exact absurd (hputs p data (RpcCall.eq_put_of_mem h.mem_requests)) hserves

theorem Io.Sends.pending_pos {io : Io} (h : io.Sends) : 0 < io.pending.length := by
  rw [List.length_pos_iff]
  cases io with
  | sendFull rest => exact h
  | sendv iov =>
      obtain ⟨hne, hall⟩ := h
      obtain ⟨v, iov, rfl⟩ := List.exists_cons_of_ne_nil hne
      exact fun hnil => hall v List.mem_cons_self (List.append_eq_nil_iff.mp hnil).1
  | recvFull len => exact h.elim

/-- **Progress.** A connection in a call can always take a step that moves something. -/
theorem Conn.Ok.moves {v s : PageServer} {log : List (Cell × UInt8)} {c : Conn} {a : Active}
    (h : c.Ok v log) (hactive : c.active = some a)
    (hputs : ∀ p data, a.call = .put p data → v.Serves p) :
    ∃ act c' ws, act.moves = true ∧ ConnStep s log.length c act c' ws := by
  obtain ⟨answers, undecoded, hcall⟩ := h.call a hactive
  obtain ⟨sends, lens, hshape⟩ := hcall.shape
  cases sends with
  | cons io sends =>
      have hpending : a.pending = io.pending := by
        unfold Active.pending
        rw [hshape.io]
        rfl
      have hpos := Io.Sends.pending_pos (hshape.sending io List.mem_cons_self)
      exact ⟨.clientSend 1, _, _, rfl,
        .clientSend hactive Nat.one_pos (by rw [hpending]; exact hpos)⟩
  | nil =>
      cases lens with
      | nil => exact ⟨.finish, _, _, rfl, .finish hactive hshape.io⟩
      | cons n lens =>
          have hroom := hshape.room n lens rfl
          have hneeds : 0 < a.needs := by
            unfold Active.needs
            rw [hshape.io]
            exact Nat.sub_pos_of_lt hroom
          by_cases hdown : c.toClient = []
          · have hsent : a.toSend = [] := by
              unfold Active.toSend
              rw [hshape.io]
              exact flatMap_pending_recv (n :: lens)
            refine hcall.thread_moves hputs hsent ?_ hdown
            rw [RpcCall.replyBytes, hshape.sizes, Active.received]
            simp
            omega
          · exact ⟨.clientRecv 1, _, _, rfl,
              .clientRecv hactive Nat.one_pos hneeds (List.length_pos_iff.mpr hdown)⟩

/-! ## Any interleaving -/

theorem ConnStep.stays_active {s : PageServer} {now : Nat} {c c' : Conn} {act : Action}
    {ws : List (Cell × UInt8)} (hstep : ConnStep s now c act c' ws) (h : c.active ≠ none)
    (hfinish : act ≠ .finish) : c'.active ≠ none := by
  cases hstep with
  | finish => exact absurd rfl hfinish
  | begin | clientSend | clientRecv => exact Option.some_ne_none _
  | _ => exact h

section Runs

variable {ι : Type} [DecidableEq ι] {v : PageServer} {s s' : Threads ι} {i : ι}

/-- The steps of client `i` and its thread that move something. -/
def movesOf (i : ι) (es : List (ι × Action)) : Nat :=
  es.countP fun e => decide (e.1 = i) && e.2.moves

theorem movesOf_cons (i : ι) (e : ι × Action) (es : List (ι × Action)) :
    movesOf i (e :: es) = (if e.1 = i ∧ e.2.moves = true then 1 else 0) + movesOf i es := by
  rw [movesOf, List.countP_cons, Nat.add_comm]
  simp [movesOf]

/-- Up to the end of a call every step of its connection takes from the work left. -/
theorem ThreadsRun.work_le {es : List (ι × Action)} (hrun : ThreadsRun s es s') :
    s.Ok v → (s.conns i).active ≠ none → (i, .finish) ∉ es →
      (s'.conns i).active ≠ none ∧ (s'.conns i).work + movesOf i es ≤ (s.conns i).work := by
  induction hrun with
  | nil s => exact fun _ hactive _ => ⟨hactive, le_rfl⟩
  | @cons s₁ s₂ s₃ e es hstep _ ih =>
      intro hok hactive hfinish
      obtain ⟨j, act⟩ := e
      obtain ⟨⟨ws, hconn⟩, hothers⟩ := hstep.conn
      have hrest : (i, .finish) ∉ es := fun hmem => hfinish (List.mem_cons_of_mem _ hmem)
      rw [movesOf_cons]
      by_cases hj : j = i
      · subst hj
        have hne : act ≠ .finish := fun heq => hfinish (heq ▸ List.mem_cons_self)
        obtain ⟨hactive', hle⟩ := ih (hok.step hstep) (hconn.stays_active hactive hne) hrest
        refine ⟨hactive', ?_⟩
        cases hmoves : act.moves with
        | true =>
            have hlt := (hok.conns j).work_lt hok.server hactive hmoves hconn
            simp
            omega
        | false =>
            have hsame : s₂.conns j = s₁.conns j := by
              cases act with
              | eintr =>
                  generalize s₂.conns j = c at hconn
                  cases hconn
                  rfl
              | _ => cases hmoves
            rw [hsame] at hle
            simpa using hle
      · rw [hothers i (Ne.symm hj)] at ih
        obtain ⟨hactive', hle⟩ := ih (hok.step hstep) hactive hrest
        exact ⟨hactive', by simpa [hj] using hle⟩

end Runs

end Dsm.Rpc
