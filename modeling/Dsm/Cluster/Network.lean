import Dsm.Cluster.Membership
import Dsm.Lib.Run

/-!
# The gossiping cluster

Nodes that run the membership code, each with the two threads `cluster_start` creates, and the
datagrams they have sent. A datagram stays in the pool once it is there and any node may receive it
at any time, any number of times or never, with whatever source address the network shows: loss,
duplication, delay and reordering are all runs of this system.

The gossip thread handles one message under the lock and then, for a PING or a JOIN, answers under
the lock taken anew. The heartbeat thread samples the clock, ages the table under the lock with that
sample, and then pings. Each thread reads a clock that does not go back; how the readings of the two
interleave is left open.
-/

namespace Dsm.Cluster

open Dsm.Lib (Run)

/-- Where the heartbeat thread is in the body of `heartbeat_loop`. -/
inductive Heartbeat
  | asleep
  | sampled (now : Nat)
  | aged (now : Nat)

/-- A node: its context and its two threads. `reply` is the PONG the gossip thread still owes. -/
structure NodeProc where
  ctx : ClusterCtx
  gossipClock : Nat
  reply : Option SockAddr
  heartbeatClock : Nat
  heartbeat : Heartbeat
  lastGossip : Nat

structure Datagram where
  dest : SockAddr
  msg : GossipMsg
  deriving DecidableEq

/-- A step of one node. The times of a delivery are the clock readings of its merges; `now` is the
one sample a round of the heartbeat works with. -/
inductive Act
  | join (seed : SockAddr)
  | deliver (d : Datagram) (source : SockAddr) (times : Nat → Nat)
  | reply
  | sample (now : Nat)
  | age (now : Nat)
  | gossip (now : Nat)

/-! ## One node -/

def Act.Enabled (sent : List Datagram) (proc : NodeProc) : Act → Prop
  | .join _ => True
  | .deliver d _ times =>
      d ∈ sent ∧ proc.reply = none ∧ Monotone times ∧ proc.gossipClock ≤ times 0 ∧
        ∀ k, times k < 2 ^ 64
  | .reply => proc.reply ≠ none
  | .sample now => proc.heartbeat = .asleep ∧ proc.heartbeatClock ≤ now ∧ now < 2 ^ 64
  | .age now => proc.heartbeat = .sampled now
  | .gossip now => proc.heartbeat = .aged now

/-- A delivery whose merges all read the clock as `now`. -/
theorem Act.enabled_deliver {sent : List Datagram} {proc : NodeProc} {d : Datagram}
    (source : SockAddr) (now : Nat) (hd : d ∈ sent) (hreply : proc.reply = none)
    (hclock : proc.gossipClock ≤ now) (hnow : now < 2 ^ 64) :
    (Act.deliver d source fun _ => now).Enabled sent proc :=
  ⟨hd, hreply, monotone_const, hclock, fun _ => hnow⟩

/-- Whether `heartbeat_loop` pings in this round. -/
def NodeProc.gossips (proc : NodeProc) (now : Nat) : Bool :=
  proc.ctx.cfg.gossipMs.toNat ≤ u64Sub now proc.lastGossip

def Act.next (proc : NodeProc) : Act → NodeProc
  | .join _ => proc
  | .deliver d source times =>
      { proc with
        ctx := handleGossipMsg proc.ctx d.msg source times
        gossipClock := times d.msg.nodes.length
        reply := if d.msg.wantsPong then some source else none }
  | .reply => { proc with reply := none }
  | .sample now => { proc with heartbeatClock := now, heartbeat := .sampled now }
  | .age now => { proc with ctx := heartbeatAge proc.ctx now, heartbeat := .aged now }
  | .gossip now =>
      { proc with
        heartbeat := .asleep
        lastGossip := if proc.gossips now then now else proc.lastGossip }

def Act.emits (proc : NodeProc) : Act → List Datagram
  | .join seed => [⟨seed, gossipJoin proc.ctx.self⟩]
  | .deliver _ _ _ => []
  | .reply => proc.reply.toList.map fun dest => ⟨dest, handleGossipReply proc.ctx⟩
  | .sample _ => []
  | .age _ => []
  | .gossip now =>
      if proc.gossips now then
        (pingTargets proc.ctx).map fun dest => ⟨dest, gossipPing proc.ctx.self⟩
      else []

/-! ## The network -/

structure Net (ι : Type*) where
  node : ι → NodeProc
  sent : List Datagram

/-- What `main` hands to `cluster_create` on one machine, and what that reads from the system. -/
structure NodeSetup where
  cfg : ClusterConfig
  localAddr : UInt32
  clientPort : UInt16
  random : NodeId
  createdAt : Nat

variable {ι : Type*}

def NodeSetup.create (s : NodeSetup) : ClusterCtx :=
  clusterCreate s.cfg s.localAddr s.clientPort s.random s.createdAt

def NodeSetup.id (s : NodeSetup) : NodeId := s.create.self.id

def NodeSetup.Owns (s : NodeSetup) (pageId : UInt32) : Prop :=
  s.cfg.pageRangeStart ≤ pageId ∧ pageId < s.cfg.pageRangeEnd

instance (s : NodeSetup) (pageId : UInt32) : Decidable (s.Owns pageId) :=
  inferInstanceAs (Decidable (_ ∧ _))

def NodeSetup.boot (s : NodeSetup) : NodeProc where
  ctx := s.create
  gossipClock := s.createdAt
  reply := none
  heartbeatClock := s.createdAt
  heartbeat := .asleep
  lastGossip := 0

/-- All nodes created, no datagram sent yet. -/
def Net.boot (setup : ι → NodeSetup) : Net ι where
  node i := (setup i).boot
  sent := []

variable [DecidableEq ι]

def Net.act (net : Net ι) (i : ι) (a : Act) : Net ι where
  node := Function.update net.node i (a.next (net.node i))
  sent := net.sent ++ a.emits (net.node i)

def NetStep (net : Net ι) (e : ι × Act) (net' : Net ι) : Prop :=
  e.2.Enabled net.sent (net.node e.1) ∧ net' = net.act e.1 e.2

abbrev NetRun : Net ι → List (ι × Act) → Net ι → Prop := Run NetStep

/-- The state after a list of steps. -/
def Net.play (net : Net ι) (es : List (ι × Act)) : Net ι := es.foldl (fun n e => n.act e.1 e.2) net

/-! ## What a step keeps -/

/-- No step touches what a node was configured with. -/
theorem Act.next_config (proc : NodeProc) (a : Act) :
    (a.next proc).ctx.self = proc.ctx.self ∧ (a.next proc).ctx.cfg = proc.ctx.cfg ∧
      (a.next proc).ctx.selfIdx = proc.ctx.selfIdx := by
  cases a <;> exact ⟨rfl, rfl, rfl⟩

/-- **Everything a step does to a table**: nothing, one message merged in, or one aging pass. -/
theorem Act.next_nodes {sent : List Datagram} {proc : NodeProc} {a : Act}
    (h : a.Enabled sent proc) :
    (a.next proc).ctx.nodes = proc.ctx.nodes ∨
    (∃ d source times, a = .deliver d source times ∧ d ∈ sent ∧
      (a.next proc).ctx.nodes = mergeAll proc.ctx.nodes (d.msg.entries source) times) ∨
    (∃ now, a = .age now ∧ proc.heartbeat = .sampled now ∧
      (a.next proc).ctx.nodes = (heartbeatAge proc.ctx now).nodes) := by
  cases a with
  | deliver d source times => exact .inr (.inl ⟨d, source, times, rfl, h.1, rfl⟩)
  | age now => exact .inr (.inr ⟨now, rfl, h, rfl⟩)
  | _ => exact .inl rfl

/-- An id once stored keeps its index. -/
theorem Act.next_keeps_id {sent : List Datagram} {proc : NodeProc} {a : Act}
    (h : a.Enabled sent proc) {k : Nat} {e : ClusterNode} (he : proc.ctx.nodes[k]? = some e) :
    ∃ e', (a.next proc).ctx.nodes[k]? = some e' ∧ e'.id = e.id := by
  rcases Act.next_nodes h with hn | ⟨d, source, times, -, -, hn⟩ | ⟨now, -, -, hn⟩
  · exact ⟨e, by rw [hn, he], rfl⟩
  · rw [hn]
    refine mergeAll_keeps (fun e' => e'.id = e.id) _ ?_ _ _ he rfl
    intro old node now _ hold _
    rw [refreshNode_id, hold]
  · rw [hn, getElem?_heartbeatAge, he]
    refine ⟨_, rfl, ?_⟩
    show (if k = proc.ctx.selfIdx then e else ageNode proc.ctx.cfg.timeoutMs.toNat now e).id = e.id
    split
    · rfl
    · exact (ageNode_keeps _ _ e).1

/-- Everything a node sends describes itself in the header and lists entries of its own table, or
itself, in the body. -/
theorem Act.emits_entries {proc : NodeProc} {a : Act} {d : Datagram} (h : d ∈ a.emits proc) :
    ∃ type, d.msg.hdr = fillHeader type proc.ctx.self ∧
      ∀ e ∈ d.msg.nodes, ∃ n, (n = proc.ctx.self ∨ n ∈ proc.ctx.nodes) ∧
        e = clusterNodeToGossip n := by
  cases a with
  | join seed =>
      obtain rfl := List.mem_singleton.mp h
      refine ⟨gossipTypeJoin, rfl, fun e he => ⟨_, .inl rfl, ?_⟩⟩
      exact List.mem_singleton.mp he
  | reply =>
      obtain ⟨dest, -, rfl⟩ := List.mem_map.mp h
      refine ⟨gossipTypePong, rfl, fun e he => ?_⟩
      obtain ⟨n, hn, rfl⟩ := List.mem_map.mp he
      exact ⟨n, .inr (List.mem_of_mem_take hn), rfl⟩
  | gossip =>
      simp only [Act.emits] at h
      split at h
      · obtain ⟨dest, -, rfl⟩ := List.mem_map.mp h
        exact ⟨gossipTypePing, rfl, fun e he => absurd he List.not_mem_nil⟩
      · exact absurd h List.not_mem_nil
  | deliver | sample | age => exact absurd h List.not_mem_nil

theorem Net.act_node_self (net : Net ι) (i : ι) (a : Act) :
    (net.act i a).node i = a.next (net.node i) := Function.update_self ..

theorem Net.act_node_ne (net : Net ι) {i j : ι} (h : j ≠ i) (a : Act) :
    (net.act i a).node j = net.node j := Function.update_of_ne h ..

/-- A fact about single nodes holds after a step if it holds of the node that moved. -/
theorem Net.forall_node_act {net : Net ι} {i : ι} {a : Act} {P : ι → NodeProc → Prop}
    (h : ∀ j, P j (net.node j)) (hi : P i (a.next (net.node i))) :
    ∀ j, P j ((net.act i a).node j) := by
  intro j
  by_cases hj : j = i
  · subst hj
    rwa [net.act_node_self]
  · rw [net.act_node_ne hj]
    exact h j

theorem NetRun.config {setup : ι → NodeSetup} {es : List (ι × Act)} {net : Net ι}
    (h : NetRun (Net.boot setup) es net) (i : ι) :
    (net.node i).ctx.self = (setup i).create.self ∧ (net.node i).ctx.cfg = (setup i).cfg ∧
      (net.node i).ctx.selfIdx = 0 := by
  refine Run.invariant (fun net : Net ι => ∀ i, (net.node i).ctx.self = (setup i).create.self ∧
    (net.node i).ctx.cfg = (setup i).cfg ∧ (net.node i).ctx.selfIdx = 0) ?_ h
    (fun i => ⟨rfl, rfl, rfl⟩) i
  rintro net ⟨i, a⟩ _ hnet ⟨-, rfl⟩
  refine Net.forall_node_act (P := fun j proc => proc.ctx.self = (setup j).create.self ∧
    proc.ctx.cfg = (setup j).cfg ∧ proc.ctx.selfIdx = 0) hnet ?_
  obtain ⟨hself, hcfg, hidx⟩ := Act.next_config (net.node i) a
  rw [hself, hcfg, hidx]
  exact hnet i

/-! ## Invariants of single entries -/

/-- A property of entries that merging, aging and travelling in a message cannot break. -/
structure Spreads (P : ClusterNode → Prop) : Prop where
  refresh : ∀ old node now, P old → P node → old.id = node.id → P (refreshNode old node now)
  stamp : ∀ node now, P node → P { node with lastSeen := now }
  age : ∀ timeoutMs now node, P node → P (ageNode timeoutMs now node)
  header : ∀ node type source, P node → P (senderNode ⟨fillHeader type node, []⟩ source)
  body : ∀ node, P node → P (gossipNodeToCluster (clusterNodeToGossip node))

/-- Every entry of every table and every entry of every message sent. -/
def Net.Everywhere (net : Net ι) (P : ClusterNode → Prop) : Prop :=
  (∀ i, ∀ e ∈ (net.node i).ctx.nodes, P e) ∧
    ∀ d ∈ net.sent, ∀ source, ∀ e ∈ d.msg.entries source, P e

theorem Spreads.act {P : ClusterNode → Prop} (hP : Spreads P) {net : Net ι} {i : ι} {a : Act}
    (hself : P (net.node i).ctx.self) (ha : a.Enabled net.sent (net.node i))
    (h : net.Everywhere P) : (net.act i a).Everywhere P := by
  obtain ⟨htables, hsent⟩ := h
  refine ⟨Net.forall_node_act (P := fun _ proc => ∀ e ∈ proc.ctx.nodes, P e) htables ?_, ?_⟩
  · intro e he
    rcases Act.next_nodes ha with hn | ⟨d, source, times, -, hd, hn⟩ | ⟨now, -, -, hn⟩
    · rw [hn] at he
      exact htables i e he
    · rw [hn] at he
      have hmsg := hsent d hd source
      refine mergeAll_forall P _ _ times ?_ ?_ (htables i) e he
      · exact fun old node k hm _ hold => hP.refresh old node (times k) hold (hmsg node hm)
      · exact fun node k hm _ => hP.stamp node (times k) (hmsg node hm)
    · rw [hn] at he
      obtain ⟨k, hk⟩ := List.mem_iff_getElem?.mp he
      rw [getElem?_heartbeatAge] at hk
      obtain ⟨n, hn', rfl⟩ := Option.map_eq_some_iff.mp hk
      have hPn := htables i n (List.mem_of_getElem? hn')
      split
      · exact hPn
      · exact hP.age _ _ _ hPn
  · intro d hd source e he
    rcases List.mem_append.mp hd with hd | hd
    · exact hsent d hd source e he
    · obtain ⟨type, hhdr, hbody⟩ := Act.emits_entries hd
      rcases List.mem_cons.mp he with rfl | he
      · have := hP.header _ type source hself
        simpa [senderNode, hhdr] using this
      · obtain ⟨g, hg, rfl⟩ := List.mem_map.mp he
        obtain ⟨n, hn, rfl⟩ := hbody g hg
        refine hP.body n ?_
        rcases hn with rfl | hn
        · exact hself
        · exact htables i n hn

/-- **The rule for entries**: what holds of every node's own entry and spreads holds of every entry
anywhere in every run. -/
theorem Spreads.run {P : ClusterNode → Prop} (hP : Spreads P) {setup : ι → NodeSetup}
    (hself : ∀ i, P (setup i).create.self) {es : List (ι × Act)} {net : Net ι}
    (h : NetRun (Net.boot setup) es net) : net.Everywhere P := by
  refine (Run.invariant (fun net : Net ι => net.Everywhere P ∧ ∀ i, P (net.node i).ctx.self)
    ?_ h ⟨⟨?_, ?_⟩, hself⟩).1
  · rintro net ⟨i, a⟩ _ ⟨hnet, hselfs⟩ ⟨ha, rfl⟩
    refine ⟨hP.act (hselfs i) ha hnet, ?_⟩
    refine Net.forall_node_act (P := fun _ proc => P proc.ctx.self) hselfs ?_
    rw [(Act.next_config (net.node i) a).1]
    exact hselfs i
  · intro i e he
    obtain rfl := List.mem_singleton.mp he
    exact hself i
  · intro d hd
    exact absurd hd List.not_mem_nil

end Dsm.Cluster
