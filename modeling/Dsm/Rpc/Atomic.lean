import Dsm.Rpc.Framing
import Dsm.Rpc.Overlap

/-!
# The storage under concurrent clients

However the system calls and the bytewise copies of all connections interleave, one sequence of byte
writes explains everything the clients see: each byte of a GET is what that sequence had there at
some time during the call, each PUT put its bytes into it during the call, and nothing else is in it
(`storage_bytes_atomic`). So every byte of the storage is an atomic register, and a page is not: a GET
may show part of a PUT.

A page that only one client puts is, for that client, as if it had the server to itself
(`own_pages_sequential`).
-/

namespace Dsm.Rpc

open Dsm.Server Dsm.Lib

/-! ## One step of one connection -/

/-- A thread that has anything to do is in a call of its client. -/
theorem Conn.Ok.busy {v : PageServer} {log : List (Cell × UInt8)} {c : Conn} (h : c.Ok v log)
    (hbusy : c.toServer ≠ [] ∨ c.thread ≠ .header []) : ∃ a, c.active = some a := by
  cases hactive : c.active with
  | some a => exact ⟨a, rfl⟩
  | none =>
      obtain ⟨hup, -, hthread⟩ := h.idle hactive
      exact (hbusy.elim (fun hne => hne hup) fun hne => hne hthread).elim

theorem Conn.Ok.step {v s : PageServer} {log ws : List (Cell × UInt8)} {c c' : Conn} {act : Action}
    (hserver : Holds v log s) (h : c.Ok v log) (hstep : ConnStep s log.length c act c' ws) :
    c'.Ok v (log ++ ws) := by
  have hinside : ∀ {c' : Conn} {a a' : Active}, c.active = some a → c'.active = some a' →
      c'.since = c.since → c'.returned = c.returned →
      (∃ answers undecoded, c'.InCall v (log ++ ws) a' answers undecoded) → c'.Ok v (log ++ ws) :=
    fun hactive => (h.mono ws).inside (by rw [hactive]; exact Option.some_ne_none _)
  cases hstep with
  | begin call hactive =>
      rw [List.append_nil]
      exact h.begin hactive call
  | finish hactive hio =>
      rw [List.append_nil]
      exact h.finish hactive hio
  | clientSend hactive hk hle =>
      obtain ⟨answers, undecoded, hcall⟩ := h.call _ hactive
      exact hinside hactive rfl rfl rfl ⟨_, _, (hcall.clientSend hk hle).mono []⟩
  | clientRecv hactive hk hneeds hle =>
      obtain ⟨answers, undecoded, hcall⟩ := h.call _ hactive
      exact hinside hactive rfl rfl rfl ⟨_, _, (hcall.clientRecv hk hneeds hle).mono []⟩
  | @threadRecv k hk hneeds hle =>
      obtain ⟨a, hactive⟩ := h.busy (.inl (List.length_pos_iff.mp (hk.trans_le hle)))
      obtain ⟨answers, undecoded, hcall⟩ := h.call a hactive
      obtain ⟨answers', undecoded', hcall'⟩ := hcall.threadRecv h.since_le hserver hk hneeds hle
      exact hinside hactive hactive rfl rfl ⟨_, _, hcall'.mono []⟩
  | @copy pageId data todo offset hthread hoffset =>
      obtain ⟨a, hactive⟩ := h.busy (.inr (by rw [hthread]; exact fun hc => nomatch hc))
      obtain ⟨answers, undecoded, hcall⟩ := h.call a hactive
      exact hinside hactive hactive rfl rfl (hcall.copy h.since_le hthread)
  | @sendPage pageId sent k hthread hk hle =>
      obtain ⟨a, hactive⟩ := h.busy (.inr (by rw [hthread]; exact fun hc => nomatch hc))
      obtain ⟨answers, undecoded, hcall⟩ := h.call a hactive
      obtain ⟨answers', undecoded', hcall'⟩ := hcall.sendPage h.since_le hserver hthread hle
      exact hinside hactive hactive rfl rfl ⟨_, _, hcall'.mono []⟩
  | @sendReply rest k hthread hk hle =>
      obtain ⟨a, hactive⟩ := h.busy (.inr (by rw [hthread]; exact fun hc => nomatch hc))
      obtain ⟨answers, undecoded, hcall⟩ := h.call a hactive
      obtain ⟨answers', undecoded', hcall'⟩ := hcall.sendReply (k := k) hthread
      exact hinside hactive hactive rfl rfl ⟨_, _, hcall'.mono []⟩
  | eintr =>
      rw [List.append_nil]
      exact h

/-- The client had a PUT under way at time `t` that carries this byte. -/
def Conn.Wrote (c : Conn) (t : Nat) (w : Cell × UInt8) : Prop :=
  (∃ r ∈ c.returned, ∃ data : Page, r.call = .put w.1.1 data ∧ w.2 = data.byte w.1.2 ∧
    r.since ≤ t ∧ t < r.till) ∨
  ∃ a, c.active = some a ∧ ∃ data : Page, a.call = .put w.1.1 data ∧ w.2 = data.byte w.1.2 ∧ c.since ≤ t

theorem Active.sent_call (a : Active) (k : Nat) : (a.sent k).call = a.call := by
  unfold Active.sent
  split <;> rfl

theorem Active.receive_call (a : Active) (bytes : Bytes) : (a.receive bytes).call = a.call := by
  unfold Active.receive
  split
  · split <;> rfl
  · rfl

theorem Conn.Wrote.step {s : PageServer} {now t : Nat} {c c' : Conn} {act : Action}
    {ws : List (Cell × UInt8)} {w : Cell × UInt8} (h : c.Wrote t w) (ht : t < now)
    (hstep : ConnStep s now c act c' ws) : c'.Wrote t w := by
  rcases h with ⟨r, hr, hwrote⟩ | ⟨a, ha, data, hcall, hbyte, hsince⟩
  · refine .inl ⟨r, ?_, hwrote⟩
    cases hstep with
    | finish _ _ => exact List.mem_append_left _ hr
    | _ => exact hr
  · cases hstep with
    | begin _ hactive =>
        rw [hactive] at ha
        cases ha
    | finish hactive _ =>
        obtain rfl := Option.some.inj (hactive.symm.trans ha)
        exact .inl ⟨_, List.mem_append_right _ (List.mem_singleton_self _), data, hcall, hbyte, hsince,
          ht⟩
    | clientSend hactive _ _ =>
        obtain rfl := Option.some.inj (hactive.symm.trans ha)
        exact .inr ⟨_, rfl, data, (Active.sent_call _ _).trans hcall, hbyte, hsince⟩
    | clientRecv hactive _ _ _ =>
        obtain rfl := Option.some.inj (hactive.symm.trans ha)
        exact .inr ⟨_, rfl, data, (Active.receive_call _ _).trans hcall, hbyte, hsince⟩
    | _ => exact .inr ⟨a, ha, data, hcall, hbyte, hsince⟩

theorem RpcCall.eq_put_of_mem {call : RpcCall} {p : UInt32} {data : Page}
    (h : Request.put p data ∈ call.requests) : call = .put p data := by
  cases call with
  | get pageId => cases List.mem_singleton.mp h
  | getBatch ids =>
      obtain ⟨id, -, heq⟩ := List.mem_map.mp h
      cases heq
  | put pageId data' =>
      cases List.mem_singleton.mp h
      rfl

/-- What a step writes belongs to the PUT of its own client. -/
theorem Conn.Ok.wrote {v s : PageServer} {log ws : List (Cell × UInt8)} {c c' : Conn} {act : Action}
    (h : c.Ok v log) (hstep : ConnStep s log.length c act c' ws) {t : Nat} {w : Cell × UInt8}
    (hw : ws[t]? = some w) : c'.Wrote (log.length + t) w := by
  cases hstep with
  | @copy pageId data todo offset hthread hoffset =>
      obtain ⟨a, ha⟩ := h.busy (.inr (by rw [hthread]; exact fun hc => nomatch hc))
      obtain ⟨answers, undecoded, hcall⟩ := h.call a ha
      obtain ⟨pre, req, bytes, rfl, -, hserving⟩ :=
        hcall.serving (by rw [hthread]; exact fun _ h => h)
      rw [hthread] at hserving
      obtain ⟨rfl, -⟩ := hserving
      have hput : a.call = .put pageId data :=
        RpcCall.eq_put_of_mem (by rw [← hcall.sequence]; simp)
      have ht : t = 0 := by
        have := (List.getElem?_eq_some_iff.mp hw).1
        simpa using this
      subst ht
      obtain rfl := Option.some.inj hw
      exact .inr ⟨a, ha, data, hput, rfl, h.since_le⟩
  | _ => cases hw

/-! ## All connections -/

variable {ι : Type} [DecidableEq ι]

/-- The invariant of the server with its clients. -/
structure Threads.Ok (v : PageServer) (s : Threads ι) : Prop where
  server : Holds v s.log s.server
  conns : ∀ i, (s.conns i).Ok v s.log
  written : ∀ t w, s.log[t]? = some w → ∃ i, (s.conns i).Wrote t w

omit [DecidableEq ι] in
theorem Threads.Ok.start {v : PageServer} (hv : v.cluster = none) :
    (Threads.start v : Threads ι).Ok v where
  server := ⟨hv, rfl, rfl, rfl⟩
  conns := fun _ => Conn.Ok.fresh v
  written := fun _ _ hw => nomatch hw

theorem Holds.writes {v s : PageServer} {log : List (Cell × UInt8)} (h : Holds v log s)
    (ws : List (Cell × UInt8)) : Holds v (log ++ ws) (ws.foldl PageServer.write s) := by
  induction ws generalizing s log with
  | nil =>
      rw [List.append_nil]
      exact h
  | cons w ws ih =>
      have hone : Holds v (log ++ [w]) (s.write w) := by
        refine ⟨h.standalone, h.cluster, h.storagePages, ?_⟩
        rw [PageServer.bytes_write, h.bytes, replay_snoc]
      have hrest := ih hone
      rwa [List.append_assoc] at hrest

theorem Threads.Ok.step {v : PageServer} {s s' : Threads ι} {e : ι × Action} (h : s.Ok v)
    (hstep : ThreadsStep s e s') : s'.Ok v := by
  obtain @⟨i, act, c, ws, hconn⟩ := hstep
  refine ⟨h.server.writes ws, fun j => ?_, fun t w hw => ?_⟩
  · by_cases hj : j = i
    · subst hj
      show (Function.update s.conns j c j).Ok _ _
      rw [Function.update_self]
      exact (h.conns j).step h.server hconn
    · show (Function.update s.conns i c j).Ok _ _
      rw [Function.update_of_ne hj]
      exact (h.conns j).mono ws
  · by_cases ht : t < s.log.length
    · replace hw : (s.log ++ ws)[t]? = some w := hw
      rw [List.getElem?_append_left ht] at hw
      obtain ⟨j, hwrote⟩ := h.written t w hw
      refine ⟨j, ?_⟩
      show (Function.update s.conns i c j).Wrote t w
      by_cases hj : j = i
      · subst hj
        rw [Function.update_self]
        exact hwrote.step ht hconn
      · rwa [Function.update_of_ne hj]
    · replace hw : (s.log ++ ws)[t]? = some w := hw
      rw [List.getElem?_append_right (by omega)] at hw
      refine ⟨i, ?_⟩
      show (Function.update s.conns i c i).Wrote t w
      rw [Function.update_self]
      have hwrote := (h.conns i).wrote hconn hw
      rwa [Nat.add_sub_cancel' (by omega)] at hwrote

theorem Threads.Ok.run {v : PageServer} {s s' : Threads ι} {es : List (ι × Action)} (h : s.Ok v)
    (hrun : ThreadsRun s es s') : s'.Ok v :=
  hrun.invariant (Threads.Ok v) (fun _ _ _ hs hstep => hs.step hstep) h

/-- A PUT that returned has been acknowledged, and has written its page. -/
theorem Returned.Ok.put {v : PageServer} {log : List (Cell × UInt8)} {r : Returned} (h : r.Ok v log)
    {p : UInt32} {data : Page} (hcall : r.call = .put p data) :
    r.bufs = [dsmRpcMakeHeader opAck p] ∧ ∀ j, Written log r.since r.till p data j := by
  have hanswered := h.answered
  rw [hcall] at hanswered
  cases hbufs : r.bufs with
  | nil =>
      rw [hbufs] at hanswered
      cases hanswered
  | cons buf rest =>
      rw [hbufs] at hanswered
      obtain ⟨⟨hlen, hack, hwritten⟩, hrest⟩ := List.forall₂_cons.mp hanswered
      obtain rfl : buf = dsmRpcMakeHeader opAck p := hack.eq_of_length hlen
      obtain rfl : rest = [] := List.forall₂_nil_left_iff.mp hrest
      exact ⟨rfl, (hwritten (List.cons_ne_nil _ _)).2⟩

theorem Returned.Ok.succeeds {v : PageServer} {log : List (Cell × UInt8)} {r : Returned}
    (h : r.Ok v log) : r.call.succeeds r.bufs = true := by
  cases hcall : r.call with
  | get p => rfl
  | getBatch ids => rfl
  | put p data =>
      rw [(h.put hcall).1]
      rfl

/-- **Every byte of the storage is an atomic register.** For any clients on any connections and any
interleaving of their system calls and of the threads' copies there is one sequence of byte writes
(`log`) such that: the storage is what the sequence leaves; every call that returned succeeded, with
one buffer of the right size for each of its requests; each byte of a GET is what the sequence had
there (zero past the storage) at some time between the begin and the end of the call, and a PUT wrote
each byte of its page in that time; the calls of one client follow each other; and each write of the
sequence was made during a PUT of that byte. -/
theorem storage_bytes_atomic {v : PageServer} (hv : v.cluster = none) {es : List (ι × Action)}
    {s : Threads ι} (hrun : ThreadsRun (Threads.start v) es s) :
    s.server.bytes = replay v.bytes s.log ∧
    (∀ i, ∀ r ∈ (s.conns i).returned, r.since ≤ r.till ∧ r.till ≤ s.log.length ∧
      r.call.succeeds r.bufs = true ∧
      List.Forall₂ (fun req buf => buf.length = replySize req ∧
        Answered v s.log r.since r.till req buf) r.call.requests r.bufs) ∧
    (∀ i, (s.conns i).returned.Pairwise fun r r' => r.till ≤ r'.since) ∧
    ∀ t w, s.log[t]? = some w → ∃ i, (s.conns i).Wrote t w := by
  have h := (Threads.Ok.start hv).run hrun
  refine ⟨h.server.bytes, fun i r hr => ?_, fun i => (h.conns i).ordered, h.written⟩
  have hok := (h.conns i).returned r hr
  exact ⟨hok.since_le, hok.till_le, hok.succeeds, hok.answered⟩

/-! ## The pages of one client -/

/-- The page a GET is answered with: out of the storage, or zeros past its end. -/
def shownPage (s : PageServer) (p : UInt32) : Page :=
  if s.Serves p then s.storage p else zeroPage

/-- The calls a connection has seen. -/
def Conn.Made (c : Conn) (call : RpcCall) : Prop :=
  (∃ r ∈ c.returned, r.call = call) ∨ ∃ a, c.active = some a ∧ a.call = call

omit [DecidableEq ι] in
theorem ConnStep.active_call {s : PageServer} {now : Nat} {c c' : Conn} {act : Action}
    {ws : List (Cell × UInt8)} (hstep : ConnStep s now c act c' ws) {a' : Active}
    (h : c'.active = some a') :
    act = .begin a'.call ∨ ∃ a, c.active = some a ∧ a.call = a'.call := by
  cases hstep with
  | begin call _ =>
      obtain rfl := Option.some.inj h
      exact .inl rfl
  | finish _ _ => cases h
  | clientSend hactive _ _ =>
      obtain rfl := Option.some.inj h
      exact .inr ⟨_, hactive, (Active.sent_call _ _).symm⟩
  | clientRecv hactive _ _ _ =>
      obtain rfl := Option.some.inj h
      exact .inr ⟨_, hactive, (Active.receive_call _ _).symm⟩
  | _ => exact .inr ⟨a', h, rfl⟩

omit [DecidableEq ι] in
theorem ConnStep.made {s : PageServer} {now : Nat} {c c' : Conn} {act : Action}
    {ws : List (Cell × UInt8)} (hstep : ConnStep s now c act c' ws) {call : RpcCall}
    (h : c'.Made call) : c.Made call ∨ act = .begin call := by
  rcases h with ⟨r, hr, rfl⟩ | ⟨a', ha', rfl⟩
  · cases hstep with
    | finish hactive _ =>
        rcases List.mem_append.mp hr with hr | hr
        · exact .inl (.inl ⟨r, hr, rfl⟩)
        · obtain rfl := List.mem_singleton.mp hr
          exact .inl (.inr ⟨_, hactive, rfl⟩)
    | _ => exact .inl (.inl ⟨r, hr, rfl⟩)
  · rcases hstep.active_call ha' with hbegin | ⟨a, ha, hcall⟩
    · exact .inr hbegin
    · exact .inl (.inr ⟨a, ha, hcall⟩)

/-- The calls of a client, first to last. -/
def Conn.calls (c : Conn) : List RpcCall :=
  c.returned.map Returned.call ++ c.active.toList.map Active.call

def Action.calls : Action → List RpcCall
  | .begin call => [call]
  | _ => []

omit [DecidableEq ι] in
theorem ConnStep.calls {s : PageServer} {now : Nat} {c c' : Conn} {act : Action}
    {ws : List (Cell × UInt8)} (hstep : ConnStep s now c act c' ws) :
    c'.calls = c.calls ++ act.calls := by
  cases hstep with
  | begin call hactive => simp [Conn.calls, Action.calls, hactive]
  | finish hactive _ => simp [Conn.calls, Action.calls, hactive]
  | clientSend hactive _ _ => simp [Conn.calls, Action.calls, hactive, Active.sent_call]
  | clientRecv hactive _ _ _ => simp [Conn.calls, Action.calls, hactive, Active.receive_call]
  | _ => exact (List.append_nil _).symm

/-- Every call was begun. -/
theorem ThreadsRun.made {s s' : Threads ι} {es : List (ι × Action)} (hrun : ThreadsRun s es s')
    {i : ι} {call : RpcCall} (h : (s'.conns i).Made call) :
    (s.conns i).Made call ∨ (i, .begin call) ∈ es := by
  induction hrun with
  | nil _ => exact .inl h
  | cons hstep _ ih =>
      rcases ih h with h | h
      · obtain ⟨j, hconn⟩ := hstep
        dsimp only at h
        by_cases hij : i = j
        · subst hij
          rw [Function.update_self] at h
          rcases hconn.made h with h | rfl
          · exact .inl h
          · exact .inr List.mem_cons_self
        · rw [Function.update_of_ne hij] at h
          exact .inl h
      · exact .inr (List.mem_cons_of_mem _ h)

/-- All PUTs of the page are made by client `i`. -/
def PutOnlyBy (i : ι) (p : UInt32) (es : List (ι × Action)) : Prop :=
  ∀ j data, (j, Action.begin (.put p data)) ∈ es → j = i

theorem Conn.Wrote.made {c : Conn} {t : Nat} {w : Cell × UInt8} (h : c.Wrote t w) :
    ∃ data : Page, c.Made (.put w.1.1 data) ∧ w.2 = data.byte w.1.2 := by
  rcases h with ⟨r, hr, data, hcall, hbyte, -⟩ | ⟨a, ha, data, hcall, hbyte, -⟩
  · exact ⟨data, .inl ⟨r, hr, hcall⟩, hbyte⟩
  · exact ⟨data, .inr ⟨a, ha, hcall⟩, hbyte⟩

section Own

variable {v : PageServer} {es : List (ι × Action)} {s : Threads ι} {i : ι} {p : UInt32}

/-- A write to such a page was made in a call of that client. -/
theorem wrote_own (hv : v.cluster = none) (hrun : ThreadsRun (Threads.start v) es s)
    (hown : PutOnlyBy i p es) {t : Nat} {w : Cell × UInt8} (hw : s.log[t]? = some w)
    (hp : w.1.1 = p) : (s.conns i).Wrote t w := by
  obtain ⟨j, hwrote⟩ := ((Threads.Ok.start hv).run hrun).written t w hw
  obtain ⟨data, hmade, -⟩ := hwrote.made
  rcases hrun.made hmade with hstart | hbegin
  · rcases hstart with ⟨r, hr, -⟩ | ⟨a, ha, -⟩
    · exact absurd hr List.not_mem_nil
    · cases ha
  · rw [hp] at hbegin
    obtain rfl := hown j data hbegin
    exact hwrote

omit [DecidableEq ι] in
/-- A call changes a page of the storage only if it puts it. -/
theorem bytes_serveAll_call (u : PageServer) {call : RpcCall} (h : ∀ data, call ≠ .put p data)
    (j : Fin pageSize) : (serveAll u call.requests).bytes (p, j) = u.bytes (p, j) := by
  cases call with
  | get p' => rfl
  | getBatch ids => exact congrArg (fun u : PageServer => u.bytes (p, j)) (serveAll_gets u ids)
  | put p' data =>
      have hp : p ≠ p' := fun hp => h data (hp ▸ rfl)
      show (u.put p' data).bytes (p, j) = _
      simp [PageServer.bytes, Page.byte, PageServer.put, hp]

omit [DecidableEq ι] in
theorem bytes_serveAll_put (u : PageServer) (data : Page) (j : Fin pageSize) :
    (serveAll u (RpcCall.put p data).requests).bytes (p, j) = data.byte j := by
  show (u.put p data).bytes (p, j) = _
  simp [PageServer.bytes, Page.byte, PageServer.put]

/-- **The content of a page with one writer.** At a time `T` that lies in none of its PUTs the page is
what the calls that ended before, `pre`, have put. -/
theorem page_at (hv : v.cluster = none) (hrun : ThreadsRun (Threads.start v) es s)
    (hown : PutOnlyBy i p es) (j : Fin pageSize) (pre : List Returned) :
    ∀ (T : Nat) (post : List Returned), (s.conns i).returned = pre ++ post →
      (∀ q ∈ pre, q.till ≤ T) → (∀ q ∈ post, (∃ data, q.call = .put p data) → T ≤ q.since) →
      (∀ a, (s.conns i).active = some a → (∃ data, a.call = .put p data) →
        T ≤ (s.conns i).since) →
      replay v.bytes (s.log.take T) (p, j) =
        (serveAll v ((pre.map Returned.call).flatMap RpcCall.requests)).bytes (p, j) := by
  have hok := ((Threads.Ok.start hv).run hrun).conns i
  have hwrote : ∀ {u : Nat} {b : UInt8}, s.log[u]? = some ((p, j), b) →
      (s.conns i).Wrote u ((p, j), b) := fun hw => wrote_own hv hrun hown hw rfl
  induction pre using List.reverseRecOn with
  | nil =>
      intro T post hret _ hpost hactive
      refine (replay_between (Nat.zero_le T) ?_).trans rfl
      rintro u ⟨cell, b⟩ - hu hw rfl
      rcases hwrote hw with ⟨q, hq, data, hcall, -, hlo, -⟩ | ⟨a, ha, data, hcall, -, hlo⟩
      · have := hpost q (by rw [hret] at hq; exact hq) ⟨data, hcall⟩
        omega
      · have := hactive a ha ⟨data, hcall⟩
        omega
  | append_singleton pre q ih =>
      intro T post hret hpre hpost hactive
      rw [List.append_assoc] at hret
      have hord := hok.ordered
      rw [hret] at hord
      obtain ⟨-, htail, hhead⟩ := List.pairwise_append.mp hord
      have hqok := hok.returned q (by rw [hret]; simp)
      have hqT : q.till ≤ T := hpre q (by simp)
      -- The content when this call began.
      have hbefore := ih q.since (q :: post) hret (fun q' hq' => hhead q' hq' q List.mem_cons_self)
        (fun q' hq' _ => by
          rcases List.mem_cons.mp hq' with rfl | hq'
          · exact le_rfl
          · exact hqok.since_le.trans ((List.pairwise_cons.mp htail).1 q' hq'))
        (fun a ha _ => hqok.since_le.trans
          (hok.before (by rw [ha]; exact Option.some_ne_none a) q (by rw [hret]; simp)))
      -- From then on only this call writes.
      have hduring : ∀ u b, q.since ≤ u → u < T → s.log[u]? = some ((p, j), b) →
          ∃ data : Page, q.call = .put p data ∧ b = data.byte j := by
        intro u b hlo hhi hw
        rcases hwrote hw with ⟨r, hr, data, hcall, hbyte, hlo', hhi'⟩ | ⟨a, ha, data, hcall, -, hlo'⟩
        · rw [hret] at hr
          rcases List.mem_append.mp hr with hr | hr
          · have := hhead r hr q List.mem_cons_self
            omega
          · rcases List.mem_cons.mp hr with rfl | hr
            · exact ⟨data, hcall, hbyte⟩
            · have := hpost r hr ⟨data, hcall⟩
              omega
        · have := hactive a ha ⟨data, hcall⟩
          omega
      have hserve : serveAll v (((pre ++ [q]).map Returned.call).flatMap RpcCall.requests) =
          serveAll (serveAll v ((pre.map Returned.call).flatMap RpcCall.requests)) q.call.requests := by
        rw [List.map_append, List.flatMap_append, serveAll_append]
        simp
      rw [hserve]
      by_cases hput : ∃ data, q.call = .put p data
      · obtain ⟨data, hcall⟩ := hput
        obtain ⟨t, hlo, hhi, ht⟩ := (hqok.put hcall).2 j
        rw [hcall, bytes_serveAll_put]
        refine replay_settles hlo (hhi.trans_le hqT) ht ?_
        rintro u ⟨cell, b⟩ hlo hhi hw rfl
        obtain ⟨data', hcall', hbyte⟩ := hduring u b hlo hhi hw
        obtain ⟨-, rfl⟩ := RpcCall.put.inj (hcall.symm.trans hcall')
        exact hbyte
      · rw [bytes_serveAll_call _ fun data hcall => hput ⟨data, hcall⟩, ← hbefore]
        refine replay_between (hqok.since_le.trans hqT) ?_
        rintro u ⟨cell, b⟩ hlo hhi hw rfl
        obtain ⟨data, hcall, -⟩ := hduring u b hlo hhi hw
        exact hput ⟨data, hcall⟩

omit [DecidableEq ι] in
/-- A GET during which the page is `page` all the time returns it. -/
theorem Returned.Ok.get {log : List (Cell × UInt8)} {r : Returned} (h : r.Ok v log) {k : Nat}
    (hreq : r.call.requests[k]? = some (.get p)) {page : Page}
    (hpage : ∀ t, r.since ≤ t → t ≤ r.till → ∀ j, shownAt v (log.take t) (p, j) = page.byte j) :
    r.bufs[k]? = some page.toList := by
  obtain ⟨hlength, hall⟩ := List.forall₂_iff_get.mp h.answered
  obtain ⟨hk, hget⟩ := List.getElem?_eq_some_iff.mp hreq
  have hk' : k < r.bufs.length := hlength ▸ hk
  have hbuf := hall k hk hk'
  simp only [List.get_eq_getElem, hget] at hbuf
  obtain ⟨hlen, hanswered⟩ := hbuf
  rw [List.getElem?_eq_getElem hk']
  refine congrArg some (List.ext_getElem ?_ fun n hn hn' => ?_)
  · rw [hlen, length_page_toList]
    rfl
  · have hj : n < pageSize := hn.trans_eq hlen
    obtain ⟨t, hlo, hhi, heq⟩ := hanswered ⟨n, hj⟩ _ (List.getElem?_eq_getElem hn)
    rw [heq, hpage t hlo hhi ⟨n, hj⟩]
    simp [Page.byte]

omit [DecidableEq ι] in
theorem shownAt_eq_shownPage {log : List (Cell × UInt8)} {reqs : List Request} {j : Fin pageSize}
    (h : replay v.bytes log (p, j) = (serveAll v reqs).bytes (p, j)) :
    shownAt v log (p, j) = (shownPage (serveAll v reqs) p).byte j := by
  obtain ⟨hpages, hcluster⟩ := serveAll_storagePages v reqs
  have hserves : (serveAll v reqs).Serves p ↔ v.Serves p := by
    unfold PageServer.Serves PageServer.isLocal
    rw [hpages, hcluster]
  unfold shownAt shownPage
  by_cases hp : v.Serves p
  · rw [if_pos hp, if_pos (hserves.mpr hp)]
    exact h
  · rw [if_neg hp, if_neg fun hs => hp (hserves.mp hs)]
    simp [zeroPage, Page.fill, Page.byte]

/-- **A GET between two PUTs.** Let client `i` make all PUTs of a page. A GET of it by any client, alone
or in a batch, that overlaps none of these PUTs returns the page in one piece, as the calls `pre` that
`i` had finished before left it. -/
theorem get_between_puts (hv : v.cluster = none) (hrun : ThreadsRun (Threads.start v) es s)
    (hown : PutOnlyBy i p es) {k : ι} {r : Returned} (hr : r ∈ (s.conns k).returned) {n : Nat}
    (hreq : r.call.requests[n]? = some (.get p)) {pre post : List Returned}
    (hret : (s.conns i).returned = pre ++ post) (hpre : ∀ q ∈ pre, q.till ≤ r.since)
    (hpost : ∀ q ∈ post, (∃ data, q.call = .put p data) → r.till ≤ q.since)
    (hactive : ∀ a, (s.conns i).active = some a → (∃ data, a.call = .put p data) →
      r.till ≤ (s.conns i).since) :
    r.bufs[n]? = some
      (shownPage (serveAll v ((pre.map Returned.call).flatMap RpcCall.requests)) p).toList := by
  have hok := (((Threads.Ok.start hv).run hrun).conns k).returned r hr
  refine hok.get hreq fun t hlo hhi j => shownAt_eq_shownPage ?_
  exact page_at hv hrun hown j pre t post hret (fun q hq => (hpre q hq).trans hlo)
    (fun q hq hput => hhi.trans (hpost q hq hput)) fun a ha hput => hhi.trans (hactive a ha hput)

/-- During a call of the client that does not put the page, the page is what its calls before have
put. -/
theorem own_page_during (hv : v.cluster = none) (hrun : ThreadsRun (Threads.start v) es s)
    (hown : PutOnlyBy i p es) {pre post : List Returned} {r : Returned}
    (hret : (s.conns i).returned = pre ++ r :: post) (hget : ∀ data, r.call ≠ .put p data) {t : Nat}
    (hlo : r.since ≤ t) (hhi : t ≤ r.till) (j : Fin pageSize) :
    shownAt v (s.log.take t) (p, j) =
      (shownPage (serveAll v ((pre.map Returned.call).flatMap RpcCall.requests)) p).byte j := by
  have hok := ((Threads.Ok.start hv).run hrun).conns i
  have hr : r ∈ (s.conns i).returned := by rw [hret]; simp
  have hord := hok.ordered
  rw [hret] at hord
  obtain ⟨-, htail, hhead⟩ := List.pairwise_append.mp hord
  refine shownAt_eq_shownPage (page_at hv hrun hown j pre t (r :: post) hret
    (fun q hq => (hhead q hq r List.mem_cons_self).trans hlo) (fun q hq hput => ?_)
    fun a ha _ => hhi.trans (hok.before (by rw [ha]; exact Option.some_ne_none a) r hr))
  rcases List.mem_cons.mp hq with rfl | hq
  · obtain ⟨data, hdata⟩ := hput
    exact absurd hdata (hget data)
  · exact hhi.trans ((List.pairwise_cons.mp htail).1 q hq)

omit [DecidableEq ι] in
theorem RpcCall.ne_put_of_get {call : RpcCall} {n : Nat} (h : call.requests[n]? = some (.get p))
    (q : UInt32) (data : Page) : call ≠ .put q data := by
  rintro rfl
  cases List.mem_singleton.mp (List.mem_of_getElem? h)

end Own

/-! ## Calls with nobody in between -/

/-- Steps of one connection that write nothing, one right after the other. -/
theorem ThreadsRun.of_conn (i : ι) {v : PageServer} {log : List (Cell × UInt8)} {c c' : Conn}
    {acts : List Action}
    (hrun : Run (fun c a c' => ConnStep v log.length c a c' []) c acts c') :
    ∀ conns : ι → Conn, conns i = c →
      ThreadsRun ⟨v, conns, log⟩ (acts.map (i, ·)) ⟨v, Function.update conns i c', log⟩ := by
  induction hrun with
  | nil c =>
      rintro conns rfl
      rw [Function.update_eq_self]
      exact .nil _
  | @cons c₁ c₂ c₃ a as hstep hrest ih =>
      rintro conns rfl
      have hone : ThreadsStep ⟨v, conns, log⟩ (i, a) ⟨v, Function.update conns i c₂, log ++ []⟩ :=
        .on (s := ⟨v, conns, log⟩) i hstep
      rw [List.append_nil] at hone
      have hsteps := ih (Function.update conns i c₂) (Function.update_self ..)
      rw [Function.update_idem] at hsteps
      exact .cons hone hsteps

omit [DecidableEq ι] in
/-- The system calls of a GET of a page of the storage, each of which moves all it can. -/
theorem get_io {s : PageServer} {p : UInt32} (hp : s.Serves p) (now since : Nat)
    (returned : List Returned) :
    Run (fun c a c' => ConnStep s now c a c' [])
      ⟨some ⟨.get p, RpcCall.program (.get p), [], []⟩, [], [], .header [], since, returned⟩
      [.clientSend 8, .threadRecv 8, .sendPage pageSize, .clientRecv pageSize]
      ⟨some ⟨.get p, [], [], [(s.storage p).toList]⟩, [], [], .header [], since, returned⟩ := by
  have hlen : (s.storage p).toList.length = pageSize := length_page_toList _
  have hpage : ((s.storage p).toList.drop 0).take pageSize = (s.storage p).toList := by
    rw [List.drop_zero, List.take_of_length_le hlen.le]
  have hsend : ConnStep s now ⟨some ⟨.get p, RpcCall.program (.get p), [], []⟩, [], [], .header [], since,
      returned⟩ (.clientSend 8) ⟨some ⟨.get p, [.recvFull pageSize], [], []⟩,
        dsmRpcMakeHeader opGetPage p, [], .header [], since, returned⟩ [] :=
    .clientSend (k := 8) (a := ⟨.get p, RpcCall.program (.get p), [], []⟩) rfl (by decide) le_rfl
  have hrecv : ConnStep s now ⟨some ⟨.get p, [.recvFull pageSize], [], []⟩,
      dsmRpcMakeHeader opGetPage p, [], .header [], since, returned⟩ (.threadRecv 8)
      ⟨some ⟨.get p, [.recvFull pageSize], [], []⟩, [], [], .sending p 0, since, returned⟩ [] := by
    have hdecode : Thread.decode s (.get (headerPageId (dsmRpcMakeHeader opGetPage p))) =
        .sending p 0 := by
      rw [headerPageId_make, Thread.decode, PageServer.dispatch_of_serves hp]
      rfl
    rw [← hdecode]
    exact .threadRecv (k := 8) (by decide) le_rfl le_rfl
  have hread : ConnStep s now ⟨some ⟨.get p, [.recvFull pageSize], [], []⟩, [], [], .sending p 0, since,
      returned⟩ (.sendPage pageSize) ⟨some ⟨.get p, [.recvFull pageSize], [], []⟩, [],
        (s.storage p).toList, .header [], since, returned⟩ [] := by
    rw [← hpage]
    exact .sendPage rfl (by decide) le_rfl
  have hreceive : ConnStep s now ⟨some ⟨.get p, [.recvFull pageSize], [], []⟩, [],
      (s.storage p).toList, .header [], since, returned⟩ (.clientRecv pageSize)
      ⟨some ⟨.get p, [], [], [(s.storage p).toList]⟩, [], [], .header [], since, returned⟩ [] := by
    have hfull : Active.receive ⟨.get p, [.recvFull pageSize], [], []⟩
        ((s.storage p).toList.take pageSize) = ⟨.get p, [], [], [(s.storage p).toList]⟩ := by
      rw [List.take_of_length_le hlen.le]
      exact if_neg (by rw [List.nil_append, hlen]; exact Nat.lt_irrefl _)
    have hstep : ConnStep s now _ _ _ [] := .clientRecv
      (c := ⟨some ⟨.get p, [.recvFull pageSize], [], []⟩, [], (s.storage p).toList, .header [], since,
        returned⟩) (k := pageSize) rfl (by decide) le_rfl hlen.ge
    rw [hfull, List.drop_of_length_le hlen.le] at hstep
    exact hstep
  exact .cons hsend (.cons hrecv (.cons hread (.cons hreceive (.nil _))))

omit [DecidableEq ι] in
theorem get_alone {s : PageServer} {p : UInt32} (hp : s.Serves p) (now since : Nat)
    (returned : List Returned) :
    Run (fun c a c' => ConnStep s now c a c' []) ⟨none, [], [], .header [], since, returned⟩
      [.begin (.get p), .clientSend 8, .threadRecv 8, .sendPage pageSize, .clientRecv pageSize, .finish]
      ⟨none, [], [], .header [], now, returned ++ [⟨.get p, [(s.storage p).toList], now, now⟩]⟩ :=
  .cons (.begin _ rfl) ((get_io hp now now returned).snoc (.finish
    (c := ⟨some ⟨.get p, [], [], [(s.storage p).toList]⟩, [], [], .header [], now, returned⟩) rfl rfl))

omit [DecidableEq ι] in
/-- The system calls of a PUT up to the copy. -/
theorem put_io {s : PageServer} {p : UInt32} (hp : s.Serves p) (data : Page) (now since : Nat)
    (returned : List Returned) :
    Run (fun c a c' => ConnStep s now c a c' [])
      ⟨some ⟨.put p data, RpcCall.program (.put p data), [], []⟩, [], [], .header [], since, returned⟩
      [.clientSend (8 + pageSize), .threadRecv 8, .threadRecv pageSize]
      ⟨some ⟨.put p data, [.recvFull headerSize], [], []⟩, [], [], .copying p data Finset.univ, since,
        returned⟩ := by
  have hlen : data.toList.length = pageSize := length_page_toList _
  have hheader : (dsmRpcMakeHeader opPutPage p).length = 8 := rfl
  have hbytes : [dsmRpcMakeHeader opPutPage p, data.toList].flatten =
      dsmRpcMakeHeader opPutPage p ++ data.toList := by simp
  have hall : (dsmRpcMakeHeader opPutPage p ++ data.toList).length = 8 + pageSize := by
    rw [List.length_append, hlen]
    rfl
  have hsend : ConnStep s now ⟨some ⟨.put p data, RpcCall.program (.put p data), [], []⟩, [], [],
      .header [], since, returned⟩ (.clientSend (8 + pageSize)) ⟨some ⟨.put p data,
        [.recvFull headerSize], [], []⟩, dsmRpcMakeHeader opPutPage p ++ data.toList, [], .header [],
        since, returned⟩ [] := by
    have hsent : Active.sent ⟨.put p data, RpcCall.program (.put p data), [], []⟩ (8 + pageSize) =
        ⟨.put p data, [.recvFull headerSize], [], []⟩ := by
      have hadvance : advanceIov [dsmRpcMakeHeader opPutPage p, data.toList] (8 + pageSize) = [] := by
        rw [advanceIov, if_neg (by decide), hheader, if_pos (Nat.le_add_right 8 pageSize)]
        show advanceIov [data.toList] pageSize = []
        rw [advanceIov, if_neg (by decide), if_pos hlen.le]
        rfl
      simp [Active.sent, RpcCall.program, Io.sent, hadvance]
    have hstep : ConnStep s now _ _ _ [] := .clientSend
      (c := ⟨some ⟨.put p data, RpcCall.program (.put p data), [], []⟩, [], [], .header [], since,
        returned⟩) (k := 8 + pageSize) rfl (by decide)
      (show _ ≤ ([dsmRpcMakeHeader opPutPage p, data.toList].flatten).length by rw [hbytes, hall])
    have htake : (Active.pending ⟨.put p data, RpcCall.program (.put p data), [], []⟩).take
        (8 + pageSize) = dsmRpcMakeHeader opPutPage p ++ data.toList := by
      show ([dsmRpcMakeHeader opPutPage p, data.toList].flatten).take (8 + pageSize) = _
      rw [hbytes, List.take_of_length_le hall.le]
    rw [hsent, htake] at hstep
    exact hstep
  have hread : ConnStep s now ⟨some ⟨.put p data, [.recvFull headerSize], [], []⟩,
      dsmRpcMakeHeader opPutPage p ++ data.toList, [], .header [], since, returned⟩ (.threadRecv 8)
      ⟨some ⟨.put p data, [.recvFull headerSize], [], []⟩, data.toList, [], .body p [], since,
        returned⟩ [] := by
    have hbody : Thread.receive s (dsmRpcMakeHeader opPutPage p) (.header []) = .body p [] := by
      show Thread.body (headerPageId (dsmRpcMakeHeader opPutPage p)) [] = _
      rw [headerPageId_make]
    have hstep : ConnStep s now _ _ _ [] := .threadRecv
      (c := ⟨some ⟨.put p data, [.recvFull headerSize], [], []⟩,
        dsmRpcMakeHeader opPutPage p ++ data.toList, [], .header [], since, returned⟩) (k := 8)
      (by decide) le_rfl (by rw [hall]; exact Nat.le_add_right _ _)
    dsimp only at hstep
    rw [List.take_left' hheader, List.drop_left' hheader, hbody] at hstep
    exact hstep
  have hpage : ConnStep s now ⟨some ⟨.put p data, [.recvFull headerSize], [], []⟩, data.toList, [],
      .body p [], since, returned⟩ (.threadRecv pageSize) ⟨some ⟨.put p data, [.recvFull headerSize],
        [], []⟩, [], [], .copying p data Finset.univ, since, returned⟩ [] := by
    have hcopy : Thread.receive s data.toList (.body p []) = .copying p data Finset.univ := by
      refine (if_neg (by rw [List.nil_append, hlen]; exact Nat.lt_irrefl _)).trans ?_
      rw [List.nil_append, pageOfBytes_toList, Thread.decode, PageServer.dispatch_of_serves hp]
      rfl
    have hstep : ConnStep s now _ _ _ [] := .threadRecv
      (c := ⟨some ⟨.put p data, [.recvFull headerSize], [], []⟩, data.toList, [], .body p [], since,
        returned⟩) (k := pageSize) (by decide) le_rfl hlen.ge
    rw [List.take_of_length_le hlen.le, List.drop_of_length_le hlen.le, hcopy] at hstep
    exact hstep
  exact .cons hsend (.cons hread (.cons hpage (.nil _)))

omit [DecidableEq ι] in
theorem put_alone {s : PageServer} {p : UInt32} (hp : s.Serves p) (data : Page) (now since : Nat)
    (returned : List Returned) :
    Run (fun c a c' => ConnStep s now c a c' []) ⟨none, [], [], .header [], since, returned⟩
      [.begin (.put p data), .clientSend (8 + pageSize), .threadRecv 8, .threadRecv pageSize]
      ⟨some ⟨.put p data, [.recvFull headerSize], [], []⟩, [], [], .copying p data Finset.univ, now,
        returned⟩ :=
  .cons (.begin _ rfl) (put_io hp data now now returned)

/-- A PUT of a page of nines is stopped after its first byte, and another client gets the page: one
nine and sevens. -/
theorem storage_bytes_atomic_torn : ∃ (es : List (Bool × Action)) (s : Threads Bool),
    ThreadsRun (Threads.start onePage) es s ∧
    (s.conns false).returned.map Returned.bufs = [[((Page.fill 7).set 0 9).toList]] ∧
    s.server.bytes = replay onePage.bytes s.log ∧ s.log = [((0, ⟨0, by decide⟩), 9)] := by
  have hserves : onePage.Serves 0 := by decide
  have hput : ThreadsRun (Threads.start onePage) _ _ :=
    ThreadsRun.of_conn true (put_alone hserves (Page.fill 9) 0 0 []) (fun _ => .fresh) rfl
  have hcopy : ConnStep onePage 0 ⟨some ⟨.put 0 (Page.fill 9), [.recvFull headerSize], [], []⟩, [], [],
      .copying 0 (Page.fill 9) Finset.univ, 0, []⟩ (.copy ⟨0, by decide⟩) _ _ :=
    .copy rfl (Finset.mem_univ _)
  have hrun := hput.snoc (.on true hcopy)
  have hget := get_alone (s := onePage.write ((0, ⟨0, by decide⟩), 9)) hserves 1 0 []
  have hall := hrun.append (ThreadsRun.of_conn false hget _ rfl)
  exact ⟨_, _, hall, rfl, (storage_bytes_atomic rfl hall).1, rfl⟩

/-- One client gets the page, and only then a PUT of another begins and copies a byte. -/
theorem get_between_puts_before : ∃ (es : List (Bool × Action)) (s : Threads Bool),
    ThreadsRun (Threads.start onePage) es s ∧ PutOnlyBy true 0 es ∧
    s.log = [((0, ⟨0, by decide⟩), 9)] ∧
    ∃ r ∈ (s.conns false).returned, r.bufs[0]? = some (Page.fill 7).toList := by
  have hserves : onePage.Serves 0 := by decide
  have hget : ThreadsRun (Threads.start onePage) _ _ :=
    ThreadsRun.of_conn false (get_alone hserves 0 0 []) (fun _ => .fresh) rfl
  have hput := hget.append (ThreadsRun.of_conn true (put_alone hserves (Page.fill 9) 0 0 []) _ rfl)
  have hcopy : ConnStep onePage 0 ⟨some ⟨.put 0 (Page.fill 9), [.recvFull headerSize], [], []⟩, [], [],
      .copying 0 (Page.fill 9) Finset.univ, 0, []⟩ (.copy ⟨0, by decide⟩) _ _ :=
    .copy rfl (Finset.mem_univ _)
  obtain ⟨es, hes, hrun⟩ : ∃ es, es = _ ∧ ThreadsRun (Threads.start onePage) es _ :=
    ⟨_, rfl, hput.snoc (.on true hcopy)⟩
  have hown : PutOnlyBy true 0 es := by
    intro j data hj
    rw [hes] at hj
    simp at hj
    exact hj.1
  have hbuf := get_between_puts (k := false) (r := ⟨.get 0, [(onePage.storage 0).toList], 0, 0⟩) (n := 0)
    rfl hrun hown (List.mem_singleton_self _) rfl (List.append_nil []).symm
    (fun q hq => absurd hq List.not_mem_nil) (fun q hq => absurd hq List.not_mem_nil)
    fun _ _ _ => Nat.zero_le _
  exact ⟨es, _, hrun, hown, rfl, _, List.mem_singleton_self _, hbuf⟩

end Dsm.Rpc
