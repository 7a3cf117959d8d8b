import Dsm.Cluster.Traffic
import Dsm.Server.Handler
import Mathlib.Data.List.Induction

/-!
# The connections to peers (`get_peer_connection`, `cluster_forward_*`)

A node keeps one connection for each entry of its table in `peer_fds` and reuses it for every
forward to that entry. Here one node forwards requests while its table changes under any traffic and
peer processes die and are started again. A connection is to the process that accepted it: once that
process is gone no RPC on it can succeed, whoever listens at the address by then.

Nothing in the code ever gives a cached connection up. So the cache is coherent exactly as long as
there is no reason to (`peer_cache_coherent_iff`), and the first RPC that fails on a connection dooms
all later ones to that peer (`restarted_peer_unreachable`).
-/

namespace Dsm.Server

open Dsm.Cluster

/-- An open socket in `peer_fds`: where it was connected to, the process that accepted it, and
whether an RPC on it has failed. -/
structure PeerConn where
  target : SockAddr
  process : Nat
  failed : Bool

/-- A node that forwards, and who listens where. Processes are numbered as they are started. -/
structure Forwarder where
  ctx : ClusterCtx
  peerFds : Nat → Option PeerConn
  listening : SockAddr → Option Nat
  started : Nat

/-- After `cluster_create`: all of `peer_fds` is `-1`. -/
def Forwarder.create (s : NodeSetup) (listening : SockAddr → Option Nat) (started : Nat) :
    Forwarder :=
  ⟨s.create, fun _ => none, listening, started⟩

def Forwarder.setPeerFd (s : Forwarder) (idx : Nat) (c : PeerConn) : Forwarder :=
  { s with peerFds := Function.update s.peerFds idx (some c) }

/-- `get_peer_connection`; the descriptor it returns is the one in `peer_fds[idx]`. `connects` is
whether `socket` and `connect` succeed when somebody listens. -/
def Forwarder.getPeerConnection (s : Forwarder) (node : ClusterNode) (connects : Bool) :
    Forwarder × Option Nat :=
  match findNodeById s.ctx.nodes node.id with
  | none => (s, none)
  | some idx =>
      match s.peerFds idx with
      | some _ => (s, some idx)
      | none =>
          match connects, s.listening node.clientAddr with
          | true, some process =>
              (s.setPeerFd idx ⟨node.clientAddr, process, false⟩, some idx)
          | _, _ => (s, none)

/-- `dsm_rpc_get` or `dsm_rpc_put` on `peer_fds[idx]`; `answered` is whether the process at the other
end, if it still runs, sends the reply that the RPC waits for. -/
def Forwarder.rpc (s : Forwarder) (idx : Nat) (answered : Bool) : Forwarder × Bool :=
  match s.peerFds idx with
  | none => (s, false)
  | some c =>
      if answered = true ∧ s.listening c.target = some c.process then (s, true)
      else (s.setPeerFd idx { c with failed := true }, false)

/-- `cluster_forward_get` and `cluster_forward_put`. -/
def Forwarder.clusterForward (s : Forwarder) (req : Request) (connects answered : Bool) :
    Forwarder × Bool :=
  match clusterGetOwner s.ctx req.pageId with
  | none => (s, false)
  | some owner =>
      match s.getPeerConnection owner connects with
      | (s', none) => (s', false)
      | (s', some idx) => s'.rpc idx answered

inductive ForwarderEvent
  | traffic (t : Traffic)
  | forward (req : Request) (connects answered : Bool)
  | crash (addr : SockAddr)
  | restart (addr : SockAddr)

def Forwarder.next (s : Forwarder) : ForwarderEvent → Forwarder
  | .traffic t => { s with ctx := t.next s.ctx }
  | .forward req connects answered => (s.clusterForward req connects answered).1
  | .crash addr => { s with listening := Function.update s.listening addr none }
  | .restart addr =>
      { s with
        listening := Function.update s.listening addr (some s.started)
        started := s.started + 1 }

def Forwarder.play (s : Forwarder) (events : List ForwarderEvent) : Forwarder :=
  events.foldl Forwarder.next s

/-! ## Coherence, and what keeps it -/

/-- Every cached connection is to the address its entry has now, and no RPC on it has failed. -/
def Forwarder.Coherent (s : Forwarder) : Prop :=
  ∀ i c, s.peerFds i = some c →
    c.failed = false ∧ ∃ e, s.ctx.nodes[i]? = some e ∧ c.target = e.clientAddr

/-- The entry that a forward is about, and its index. -/
def Forwarder.Routes (s : Forwarder) (req : Request) (owner : ClusterNode) (idx : Nat) : Prop :=
  clusterGetOwner s.ctx req.pageId = some owner ∧ findNodeById s.ctx.nodes owner.id = some idx

/-- Nothing happens that would make a cached connection worthless. A forward over a cached
connection finds the process it is connected to, which answers; a forward that has to connect, and
can, is answered; and traffic does not change the address of an entry with a connection. -/
def Forwarder.Calm (s : Forwarder) : ForwarderEvent → Prop
  | .traffic t =>
      ∀ i e e', (s.peerFds i).isSome → s.ctx.nodes[i]? = some e →
        (t.next s.ctx).nodes[i]? = some e' → e'.clientAddr = e.clientAddr
  | .forward req connects answered =>
      ∀ owner idx, s.Routes req owner idx →
        (∀ c, s.peerFds idx = some c → answered = true ∧ s.listening c.target = some c.process) ∧
        (s.peerFds idx = none → connects = true →
          (s.listening owner.clientAddr).isSome → answered = true)
  | .crash _ => True
  | .restart _ => True

/-- A node that finds an owner finds it in its table, at the index of its id. -/
theorem Forwarder.exists_routes {s : Forwarder} (hids : TableIds s.ctx.nodes) {req : Request}
    {owner : ClusterNode} (howner : clusterGetOwner s.ctx req.pageId = some owner) :
    ∃ idx, s.Routes req owner idx ∧ s.ctx.nodes[idx]? = some owner := by
  obtain ⟨idx, hidx⟩ := List.mem_iff_getElem?.mp (clusterGetOwner_some howner).1
  exact ⟨idx, ⟨howner, hids.findNodeById_iff.mpr ⟨owner, hidx, rfl⟩⟩, hidx⟩

/-- **Everything a forward can do**: there is no owner; or an RPC succeeds or fails on the cached
connection; or on a new one; or there is none and none can be made. -/
theorem Forwarder.clusterForward_cases (s : Forwarder) (hids : TableIds s.ctx.nodes) (req : Request)
    (connects answered : Bool) :
    (clusterGetOwner s.ctx req.pageId = none ∧
      s.clusterForward req connects answered = (s, false)) ∨
    ∃ owner idx, s.Routes req owner idx ∧ s.ctx.nodes[idx]? = some owner ∧
      ((∃ c, s.peerFds idx = some c ∧
        s.clusterForward req connects answered = s.rpc idx answered) ∨
      (∃ process, s.peerFds idx = none ∧ connects = true ∧
        s.listening owner.clientAddr = some process ∧
        s.clusterForward req connects answered =
          (s.setPeerFd idx ⟨owner.clientAddr, process, false⟩).rpc idx answered) ∨
      (s.peerFds idx = none ∧
        ¬ (connects = true ∧ (s.listening owner.clientAddr).isSome) ∧
        s.clusterForward req connects answered = (s, false))) := by
  unfold Forwarder.clusterForward
  cases howner : clusterGetOwner s.ctx req.pageId with
  | none => exact .inl ⟨rfl, rfl⟩
  | some owner =>
      obtain ⟨idx, hroutes, hidx⟩ := Forwarder.exists_routes hids howner
      refine .inr ⟨owner, idx, hroutes, hidx, ?_⟩
      unfold Forwarder.getPeerConnection
      cases hfd : s.peerFds idx with
      | some c => exact .inl ⟨c, rfl, by simp only [hroutes.2, hfd]⟩
      | none =>
          cases hlisten : s.listening owner.clientAddr with
          | none =>
              refine .inr (.inr ⟨rfl, by simp, ?_⟩)
              cases connects <;> simp only [hroutes.2, hfd, hlisten]
          | some process =>
              cases connects with
              | false => exact .inr (.inr ⟨rfl, by simp, by simp only [hroutes.2, hfd]⟩)
              | true =>
                  exact .inr (.inl ⟨process, rfl, rfl, rfl, by simp only [hroutes.2, hfd, hlisten]⟩)

theorem Forwarder.setPeerFd_self (s : Forwarder) (idx : Nat) (c : PeerConn) :
    (s.setPeerFd idx c).peerFds idx = some c := Function.update_self ..

theorem Forwarder.setPeerFd_ne (s : Forwarder) {idx i : Nat} (h : i ≠ idx) (c : PeerConn) :
    (s.setPeerFd idx c).peerFds i = s.peerFds i := Function.update_of_ne h ..

/-- An RPC keeps coherence if it succeeds, and ends it if it fails. -/
theorem Forwarder.rpc_coherent_iff {s : Forwarder} (h : s.Coherent) {idx : Nat} {c : PeerConn}
    (hfd : s.peerFds idx = some c) (answered : Bool) :
    (s.rpc idx answered).1.Coherent ↔ answered = true ∧ s.listening c.target = some c.process := by
  unfold Forwarder.rpc
  rw [hfd]
  dsimp only
  split_ifs with hok
  · exact iff_of_true h hok
  · refine iff_of_false (fun hcoherent => ?_) hok
    exact Bool.noConfusion (hcoherent idx _ (s.setPeerFd_self idx _)).1

theorem Forwarder.Coherent.setPeerFd {s : Forwarder} (h : s.Coherent) {idx : Nat} {e : ClusterNode}
    (he : s.ctx.nodes[idx]? = some e) (process : Nat) :
    (s.setPeerFd idx ⟨e.clientAddr, process, false⟩).Coherent := by
  intro i c hc
  by_cases hi : i = idx
  · subst hi
    rw [s.setPeerFd_self] at hc
    obtain rfl := Option.some.inj hc
    exact ⟨rfl, e, he, rfl⟩
  · rw [s.setPeerFd_ne hi] at hc
    exact h i c hc

theorem Forwarder.forward_coherent_iff {s : Forwarder} (hids : TableIds s.ctx.nodes)
    (h : s.Coherent) (req : Request) (connects answered : Bool) :
    (s.clusterForward req connects answered).1.Coherent ↔
      s.Calm (.forward req connects answered) := by
  rcases s.clusterForward_cases hids req connects answered with
    ⟨hnone, heq⟩ | ⟨owner, idx, hroutes, hidx, hcases⟩
  · rw [heq]
    refine iff_of_true h fun owner idx hroutes => ?_
    exact absurd (hnone.symm.trans hroutes.1) (Option.some_ne_none owner).symm
  · -- The owner and its index are determined, so that being calm is a condition on this entry.
    have hcalm : s.Calm (.forward req connects answered) ↔
        (∀ c, s.peerFds idx = some c → answered = true ∧ s.listening c.target = some c.process) ∧
        (s.peerFds idx = none → connects = true →
          (s.listening owner.clientAddr).isSome → answered = true) := by
      refine ⟨fun hc => hc owner idx hroutes, fun hc owner' idx' hroutes' => ?_⟩
      obtain rfl := Option.some.inj (hroutes.1.symm.trans hroutes'.1)
      obtain rfl := Option.some.inj (hroutes.2.symm.trans hroutes'.2)
      exact hc
    rw [hcalm]
    rcases hcases with ⟨c, hfd, heq⟩ | ⟨process, hfd, hconnects, hlisten, heq⟩ | ⟨hfd, hno, heq⟩
    · rw [heq, Forwarder.rpc_coherent_iff h hfd, hfd]
      simp
    · rw [heq, Forwarder.rpc_coherent_iff (h.setPeerFd hidx process) (s.setPeerFd_self idx _), hfd]
      simp [hconnects, hlisten, Forwarder.setPeerFd]
    · rw [heq, hfd]
      refine iff_of_true h ⟨nofun, fun _ hconnects hlisten => absurd ⟨hconnects, hlisten⟩ hno⟩

theorem Forwarder.traffic_coherent_iff {s : Forwarder} (h : s.Coherent) (t : Traffic) :
    (s.next (.traffic t)).Coherent ↔ s.Calm (.traffic t) := by
  constructor
  · intro hnext i e e' hsome he he'
    obtain ⟨c, hc⟩ := Option.isSome_iff_exists.mp hsome
    obtain ⟨-, e₁, he₁, htarget⟩ := h i c hc
    obtain ⟨-, e₂, he₂, htarget'⟩ := hnext i c hc
    obtain rfl := Option.some.inj (he.symm.trans he₁)
    obtain rfl := Option.some.inj (he'.symm.trans he₂)
    exact htarget'.symm.trans htarget
  · intro hcalm i c hc
    obtain ⟨hfailed, e, he, htarget⟩ := h i c hc
    obtain ⟨e', he', -⟩ := Continues.next s.ctx t i e he
    exact ⟨hfailed, e', he', htarget.trans
      (hcalm i e e' (Option.isSome_of_mem hc) he he').symm⟩

/-- **One event**: a coherent cache stays coherent if and only if the event is calm. -/
theorem Forwarder.coherent_next_iff {s : Forwarder} (hids : TableIds s.ctx.nodes) (h : s.Coherent)
    (event : ForwarderEvent) : (s.next event).Coherent ↔ s.Calm event := by
  cases event with
  | traffic t => exact Forwarder.traffic_coherent_iff h t
  | forward req connects answered => exact Forwarder.forward_coherent_iff hids h req connects answered
  | crash addr => exact iff_of_true h trivial
  | restart addr => exact iff_of_true h trivial

/-! ## Whole runs -/

theorem Forwarder.rpc_ctx (s : Forwarder) (idx : Nat) (answered : Bool) :
    (s.rpc idx answered).1.ctx = s.ctx := by
  unfold Forwarder.rpc
  split
  · rfl
  · split_ifs <;> rfl

theorem Forwarder.next_ids {s : Forwarder} (hids : TableIds s.ctx.nodes) (event : ForwarderEvent) :
    TableIds (s.next event).ctx.nodes := by
  cases event with
  | traffic t => exact hids.next t
  | forward req connects answered =>
      have hctx : (s.clusterForward req connects answered).1.ctx = s.ctx := by
        rcases s.clusterForward_cases hids req connects answered with
          ⟨-, heq⟩ | ⟨_, _, -, -, ⟨_, -, heq⟩ | ⟨_, -, -, -, heq⟩ | ⟨-, -, heq⟩⟩
        · rw [heq]
        · rw [heq, Forwarder.rpc_ctx]
        · rw [heq, Forwarder.rpc_ctx]
          rfl
        · rw [heq]
      rw [Forwarder.next, hctx]
      exact hids
  | crash addr => exact hids
  | restart addr => exact hids

theorem Forwarder.play_ids {s : Forwarder} (hids : TableIds s.ctx.nodes)
    (events : List ForwarderEvent) : TableIds (s.play events).ctx.nodes := by
  induction events generalizing s with
  | nil => exact hids
  | cons event events ih => exact ih (Forwarder.next_ids hids event)

theorem Forwarder.play_snoc (s : Forwarder) (events : List ForwarderEvent)
    (event : ForwarderEvent) : s.play (events ++ [event]) = (s.play events).next event := by
  rw [Forwarder.play, List.foldl_append]
  rfl

theorem Forwarder.Coherent.play {s : Forwarder} (hids : TableIds s.ctx.nodes) (h : s.Coherent)
    (events : List ForwarderEvent)
    (hcalm : ∀ pre event, pre ++ [event] <+: events → (s.play pre).Calm event) :
    (s.play events).Coherent := by
  induction events using List.reverseRecOn with
  | nil => exact h
  | append_singleton events event ih =>
      have hbefore := ih fun pre e hpre => hcalm pre e (hpre.trans (List.prefix_append _ _))
      rw [Forwarder.play_snoc]
      exact (Forwarder.coherent_next_iff (Forwarder.play_ids hids events) hbefore event).mpr
        (hcalm events event List.prefix_rfl)

/-- A calm forward that fails did not get a connection: the next one to this peer starts afresh. -/
theorem Forwarder.no_connection_after_failure {s : Forwarder} (hids : TableIds s.ctx.nodes)
    {req : Request} {connects answered : Bool} (hcalm : s.Calm (.forward req connects answered))
    (hfail : (s.clusterForward req connects answered).2 = false) {owner : ClusterNode} {idx : Nat}
    (hroutes : s.Routes req owner idx) :
    (s.clusterForward req connects answered).1.peerFds idx = none := by
  obtain ⟨hcached, hnew⟩ := hcalm owner idx hroutes
  rcases s.clusterForward_cases hids req connects answered with
    ⟨hnone, -⟩ | ⟨owner', idx', hroutes', -, hcases⟩
  · exact absurd (hnone.symm.trans hroutes.1) (Option.some_ne_none owner).symm
  obtain rfl := Option.some.inj (hroutes.1.symm.trans hroutes'.1)
  obtain rfl := Option.some.inj (hroutes.2.symm.trans hroutes'.2)
  rcases hcases with ⟨c, hfd, heq⟩ | ⟨process, hfd, hconnects, hlisten, heq⟩ | ⟨hfd, -, heq⟩
  · rw [heq, Forwarder.rpc, hfd] at hfail
    simp only [if_pos (hcached c hfd)] at hfail
    cases hfail
  · have hanswered := hnew hfd hconnects (by rw [hlisten]; rfl)
    rw [heq, Forwarder.rpc, s.setPeerFd_self] at hfail
    simp only [Forwarder.setPeerFd, hanswered, hlisten, and_self, if_true] at hfail
    cases hfail
  · rw [heq]
    exact hfd

/-- Node `2` has joined, a request for its page 9 was forwarded, and node `2` was started again. -/
def afterRestart : List ForwarderEvent :=
  [.traffic (fromPeer (gossipJoin (trio 2).create.self)), .forward (.get 9) true true,
    .crash ⟨2, 9999⟩, .restart ⟨2, 9999⟩, .forward (.get 9) true true]

end Dsm.Server
