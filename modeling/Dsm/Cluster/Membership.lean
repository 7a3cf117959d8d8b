import Dsm.Machine
import Mathlib.Data.List.Basic

/-!
# Membership: the table, the messages, the clock (`dsm_cluster.c`, `dsm_gossip.c`)

Each server keeps a table of the nodes it knows. Entries arrive in gossip messages, as the sender of
the message or as one of up to sixteen entries in its body, and are merged under an incarnation
rule; a heartbeat ages the entries that have not been refreshed. Page ownership is read off this
table.

States and message types are bytes that come off the wire unchecked, so they stay `UInt8` with
named values. Times are milliseconds of `dsm_now_ms`; the subtraction in the aging loop is the
unsigned 64-bit one of the source. Entry `0` of the table is the node itself.
-/

namespace Dsm.Cluster

-- `CLUSTER_MAX_NODES`, `GOSSIP_MSG_MAX_NODES`, `GOSSIP_FANOUT` and `NODE_ID_LEN`.
def clusterMaxNodes : Nat := 64
def gossipMsgMaxNodes : Nat := 16
def gossipFanout : Nat := 3
def nodeIdLen : Nat := 16

-- `node_state_t`.
def nodeStateAlive : UInt8 := 1
def nodeStateSuspect : UInt8 := 2
def nodeStateDead : UInt8 := 3

-- `gossip_msg_type_t`.
def gossipTypePing : UInt8 := 1
def gossipTypePong : UInt8 := 2
def gossipTypeJoin : UInt8 := 3

abbrev NodeId := Vector UInt8 nodeIdLen

/-- `cluster_node_t`. -/
structure ClusterNode where
  id : NodeId
  addr : UInt32
  clientPort : UInt16
  clusterPort : UInt16
  rangeStart : UInt32
  rangeEnd : UInt32
  lastSeen : Nat
  incarnation : UInt32
  state : UInt8
  deriving DecidableEq

/-- The part of `cluster_config_t` that decides anything. -/
structure ClusterConfig where
  nodeId : Option (List UInt8)
  clusterPort : UInt16
  gossipMs : UInt32
  timeoutMs : UInt32
  pageRangeStart : UInt32
  pageRangeEnd : UInt32

/-- `struct cluster_ctx` without its sockets; `nodes` is `state.nodes[0 .. node_count)`. -/
structure ClusterCtx where
  cfg : ClusterConfig
  nodes : List ClusterNode
  selfIdx : Nat
  self : ClusterNode

/-- The address part of a `struct sockaddr_in`, in host byte order. -/
structure SockAddr where
  addr : UInt32
  port : UInt16
  deriving DecidableEq

/-! ## Messages -/

/-- `gossip_header_t`. The magic and the node count belong to the wire format. -/
structure GossipHeader where
  type : UInt8
  senderClientPort : UInt16
  senderId : NodeId
  senderIncarnation : UInt32
  senderRangeStart : UInt32
  senderRangeEnd : UInt32
  deriving DecidableEq

structure GossipNodeInfo where
  id : NodeId
  addr : UInt32
  clientPort : UInt16
  clusterPort : UInt16
  rangeStart : UInt32
  rangeEnd : UInt32
  incarnation : UInt32
  state : UInt8
  deriving DecidableEq

structure GossipMsg where
  hdr : GossipHeader
  nodes : List GossipNodeInfo
  deriving DecidableEq

def clusterNodeToGossip (cn : ClusterNode) : GossipNodeInfo where
  id := cn.id
  addr := cn.addr
  clientPort := cn.clientPort
  clusterPort := cn.clusterPort
  rangeStart := cn.rangeStart
  rangeEnd := cn.rangeEnd
  incarnation := cn.incarnation
  state := cn.state

def gossipNodeToCluster (gn : GossipNodeInfo) : ClusterNode where
  id := gn.id
  addr := gn.addr
  clientPort := gn.clientPort
  clusterPort := gn.clusterPort
  rangeStart := gn.rangeStart
  rangeEnd := gn.rangeEnd
  lastSeen := 0
  incarnation := gn.incarnation
  state := gn.state

def fillHeader (type : UInt8) (self : ClusterNode) : GossipHeader where
  type := type
  senderClientPort := self.clientPort
  senderId := self.id
  senderIncarnation := self.incarnation
  senderRangeStart := self.rangeStart
  senderRangeEnd := self.rangeEnd

-- The messages that `gossip_send_ping`, `gossip_send_pong` and `gossip_send_join` put together.
def gossipPing (self : ClusterNode) : GossipMsg := ⟨fillHeader gossipTypePing self, []⟩

def gossipPong (self : ClusterNode) (nodes : List ClusterNode) : GossipMsg :=
  ⟨fillHeader gossipTypePong self, (nodes.take gossipMsgMaxNodes).map clusterNodeToGossip⟩

def gossipJoin (self : ClusterNode) : GossipMsg :=
  ⟨fillHeader gossipTypeJoin self, [clusterNodeToGossip self]⟩

/-! ## Merging -/

def findNodeById (nodes : List ClusterNode) (id : NodeId) : Option Nat :=
  nodes.findIdx? fun n => n.id = id

/-- What `merge_node` does to an entry it finds. -/
def refreshNode (existing node : ClusterNode) (now : Nat) : ClusterNode :=
  if existing.incarnation < node.incarnation then
    { existing with
      addr := node.addr
      clientPort := node.clientPort
      clusterPort := node.clusterPort
      rangeStart := node.rangeStart
      rangeEnd := node.rangeEnd
      incarnation := node.incarnation
      state := node.state
      lastSeen := now }
  else if node.incarnation = existing.incarnation then
    { existing with
      lastSeen := now
      state := if node.state = nodeStateAlive then nodeStateAlive else existing.state }
  else
    existing

def mergeNode (nodes : List ClusterNode) (node : ClusterNode) (now : Nat) : List ClusterNode :=
  match findNodeById nodes node.id with
  | some idx => nodes.modify idx fun existing => refreshNode existing node now
  | none =>
      if nodes.length < clusterMaxNodes then nodes ++ [{ node with lastSeen := now }] else nodes

/-- The merges of one message; the `k`-th of them reads the clock as `clock k`. -/
def mergeAll : List ClusterNode → List ClusterNode → (Nat → Nat) → List ClusterNode
  | nodes, [], _ => nodes
  | nodes, n :: rest, clock => mergeAll (mergeNode nodes n (clock 0)) rest fun k => clock (k + 1)

/-- The entry a message stands for by its header. -/
def senderNode (msg : GossipMsg) (source : SockAddr) : ClusterNode where
  id := msg.hdr.senderId
  addr := source.addr
  clientPort := msg.hdr.senderClientPort
  clusterPort := source.port
  rangeStart := msg.hdr.senderRangeStart
  rangeEnd := msg.hdr.senderRangeEnd
  lastSeen := 0
  incarnation := msg.hdr.senderIncarnation
  state := nodeStateAlive

/-- All the entries of a message, the header's first. -/
def GossipMsg.entries (msg : GossipMsg) (source : SockAddr) : List ClusterNode :=
  senderNode msg source :: msg.nodes.map gossipNodeToCluster

-- `handle_gossip_msg` holds the lock for writing while it merges, drops it, and takes it again for
-- reading to answer a PING or a JOIN: three definitions, so that a heartbeat can come in between.
def handleGossipMsg (ctx : ClusterCtx) (msg : GossipMsg) (source : SockAddr) (clock : Nat → Nat) :
    ClusterCtx :=
  { ctx with nodes := mergeAll ctx.nodes (msg.entries source) clock }

def GossipMsg.wantsPong (msg : GossipMsg) : Bool :=
  msg.hdr.type = gossipTypePing ∨ msg.hdr.type = gossipTypeJoin

def handleGossipReply (ctx : ClusterCtx) : GossipMsg := gossipPong ctx.self ctx.nodes

/-! ## The heartbeat -/

/-- The body of the aging loop of `heartbeat_loop`. -/
def ageNode (timeoutMs now : Nat) (n : ClusterNode) : ClusterNode :=
  let elapsed := u64Sub now n.lastSeen
  if n.state = nodeStateAlive ∧ timeoutMs / 2 < elapsed then
    { n with state := nodeStateSuspect }
  else if n.state = nodeStateSuspect ∧ timeoutMs < elapsed then
    { n with state := nodeStateDead }
  else
    n

def heartbeatAge (ctx : ClusterCtx) (now : Nat) : ClusterCtx :=
  { ctx with
    nodes := ctx.nodes.mapIdx fun i n =>
      if i = ctx.selfIdx then n else ageNode ctx.cfg.timeoutMs.toNat now n }

/-- Whom `heartbeat_loop` pings: the first few peers that are not dead. -/
def pingTargets (ctx : ClusterCtx) : List SockAddr :=
  ((ctx.nodes.zipIdx.filter fun (n, i) => i ≠ ctx.selfIdx ∧ n.state ≠ nodeStateDead).take
    gossipFanout).map fun (n, _) => ⟨n.addr, n.clusterPort⟩

/-! ## Setting up and looking up -/

/-- The id `cluster_create` makes of `DSM_NODE_ID`: its first bytes, padded with zeros. -/
def idOfName (name : List UInt8) : NodeId := Vector.ofFn fun i => name.getD i 0

/-- `cluster_create`; `random` is what `generate_node_id` would produce. -/
def clusterCreate (cfg : ClusterConfig) (localAddr : UInt32) (clientPort : UInt16)
    (random : NodeId) (now : Nat) : ClusterCtx :=
  let self : ClusterNode :=
    { id := (cfg.nodeId.map idOfName).getD random
      addr := localAddr
      clientPort := clientPort
      clusterPort := cfg.clusterPort
      rangeStart := cfg.pageRangeStart
      rangeEnd := cfg.pageRangeEnd
      lastSeen := now
      incarnation := 1
      state := nodeStateAlive }
  { cfg, nodes := [self], selfIdx := 0, self }

/-- Where a node takes requests, according to an entry. -/
def ClusterNode.clientAddr (n : ClusterNode) : SockAddr := ⟨n.addr, n.clientPort⟩

def ClusterNode.Owns (n : ClusterNode) (pageId : UInt32) : Prop :=
  n.rangeStart ≤ pageId ∧ pageId < n.rangeEnd

instance (n : ClusterNode) (pageId : UInt32) : Decidable (n.Owns pageId) :=
  inferInstanceAs (Decidable (_ ∧ _))

def clusterGetOwner (ctx : ClusterCtx) (pageId : UInt32) : Option ClusterNode :=
  ctx.nodes.find? fun n => n.state ≠ nodeStateDead ∧ n.Owns pageId

def clusterIsLocal (ctx : ClusterCtx) (pageId : UInt32) : Bool := ctx.self.Owns pageId

/-! ## What merging and aging can do -/

theorem refreshNode_id (existing node : ClusterNode) (now : Nat) :
    (refreshNode existing node now).id = existing.id := by
  unfold refreshNode
  split
  · rfl
  · split <;> rfl

theorem findNodeById_some {nodes : List ClusterNode} {id : NodeId} {idx : Nat}
    (h : findNodeById nodes id = some idx) : ∃ n, nodes[idx]? = some n ∧ n.id = id := by
  obtain ⟨hlt, hid, -⟩ := List.findIdx?_eq_some_iff_getElem.mp h
  exact ⟨nodes[idx], List.getElem?_eq_getElem hlt, by simpa using hid⟩

theorem findNodeById_none {nodes : List ClusterNode} {id : NodeId}
    (h : findNodeById nodes id = none) : ∀ n ∈ nodes, n.id ≠ id := by
  intro n hn hid
  have := List.findIdx?_eq_none_iff.mp h n hn
  simp [hid] at this

theorem findNodeById_of_absent {nodes : List ClusterNode} {id : NodeId}
    (h : ∀ n ∈ nodes, n.id ≠ id) : findNodeById nodes id = none :=
  List.findIdx?_eq_none_iff.mpr fun n hn => by simpa using h n hn

theorem findNodeById_of_mem {nodes : List ClusterNode} {n : ClusterNode} (h : n ∈ nodes) :
    ∃ idx, findNodeById nodes n.id = some idx := by
  cases hfind : findNodeById nodes n.id with
  | none => exact absurd rfl (findNodeById_none hfind n h)
  | some idx => exact ⟨idx, rfl⟩

/-- **Everything a merge can do**, position by position: an entry stays, or the first entry with the
merged id is refreshed, or a new entry is appended. -/
theorem getElem?_mergeNode {nodes : List ClusterNode} {node e : ClusterNode} {now i : Nat}
    (h : (mergeNode nodes node now)[i]? = some e) :
    nodes[i]? = some e ∨
    (∃ old, nodes[i]? = some old ∧ old.id = node.id ∧ e = refreshNode old node now) ∨
    (i = nodes.length ∧ e = { node with lastSeen := now } ∧ ∀ n ∈ nodes, n.id ≠ node.id) := by
  unfold mergeNode at h
  split at h
  · next idx hfind =>
    obtain ⟨old, hold, hid⟩ := findNodeById_some hfind
    by_cases hidx : idx = i
    · subst hidx
      rw [List.getElem?_modify_eq, hold] at h
      exact .inr (.inl ⟨old, hold, hid, (Option.some.inj h).symm⟩)
    · rw [List.getElem?_modify_ne _ _ hidx] at h
      exact .inl h
  · next hfind =>
    split at h
    · by_cases hi : i < nodes.length
      · rw [List.getElem?_append_left hi] at h
        exact .inl h
      · rw [List.getElem?_append_right (by omega)] at h
        obtain ⟨hi', he⟩ := List.getElem?_eq_some_iff.mp h
        have hlen : i - nodes.length < 1 := by simpa using hi'
        refine .inr (.inr ⟨by omega, ?_, findNodeById_none hfind⟩)
        have hz : i - nodes.length = 0 := by omega
        simpa [hz] using h.symm
    · exact .inl h

/-- An id once stored keeps its index. -/
theorem mergeNode_keeps_id {nodes : List ClusterNode} (node : ClusterNode) (now : Nat) {i : Nat}
    {e : ClusterNode} (h : nodes[i]? = some e) :
    ∃ e', (mergeNode nodes node now)[i]? = some e' ∧ e'.id = e.id := by
  have hi := (List.getElem?_eq_some_iff.mp h).1
  unfold mergeNode
  split
  · next idx hfind =>
    by_cases hidx : idx = i
    · subst hidx
      exact ⟨_, by rw [List.getElem?_modify_eq, h]; rfl, refreshNode_id e node now⟩
    · exact ⟨e, by rw [List.getElem?_modify_ne _ _ hidx]; exact h, rfl⟩
  · split
    · exact ⟨e, by rw [List.getElem?_append_left hi]; exact h, rfl⟩
    · exact ⟨e, h, rfl⟩

/-- A merge that names somebody else leaves an entry alone. -/
theorem mergeNode_keeps {nodes : List ClusterNode} {node : ClusterNode} (now : Nat) {i : Nat}
    {e : ClusterNode} (h : nodes[i]? = some e) (hid : e.id ≠ node.id) :
    (mergeNode nodes node now)[i]? = some e := by
  obtain ⟨e', he', -⟩ := mergeNode_keeps_id node now h
  rcases getElem?_mergeNode he' with h' | ⟨old, hold, hold', -⟩ | ⟨hlen, -⟩
  · rw [he', ← h', h]
  · rw [h] at hold
    cases hold
    exact absurd hold' hid
  · have := (List.getElem?_eq_some_iff.mp h).1
    omega

/-- The rule for a property of single entries under the merges of one message. -/
theorem mergeAll_forall (P : ClusterNode → Prop) (merged : List ClusterNode) :
    ∀ (nodes : List ClusterNode) (clock : Nat → Nat),
      (∀ old node k, node ∈ merged → k < merged.length → P old → old.id = node.id →
        P (refreshNode old node (clock k))) →
      (∀ node k, node ∈ merged → k < merged.length → P { node with lastSeen := clock k }) →
      (∀ e ∈ nodes, P e) → ∀ e ∈ mergeAll nodes merged clock, P e := by
  induction merged with
  | nil => exact fun _ _ _ _ h => h
  | cons n rest ih =>
      intro nodes clock hrefresh hnew h
      have hstep : ∀ e ∈ mergeNode nodes n (clock 0), P e := by
        intro e he
        obtain ⟨i, hi⟩ := List.mem_iff_getElem?.mp he
        rcases getElem?_mergeNode hi with h' | ⟨old, hold, hid, rfl⟩ | ⟨-, rfl, -⟩
        · exact h e (List.mem_of_getElem? h')
        · exact hrefresh old n 0 List.mem_cons_self (Nat.succ_pos _)
            (h old (List.mem_of_getElem? hold)) hid
        · exact hnew n 0 List.mem_cons_self (Nat.succ_pos _)
      refine ih _ (fun k => clock (k + 1)) ?_ ?_ hstep
      · intro old node k hm hk
        exact hrefresh old node (k + 1) (List.mem_cons_of_mem _ hm) (Nat.succ_lt_succ hk)
      · intro node k hm hk
        exact hnew node (k + 1) (List.mem_cons_of_mem _ hm) (Nat.succ_lt_succ hk)

/-- An entry keeps its index, and any property that refreshing preserves. -/
theorem mergeAll_keeps (Q : ClusterNode → Prop) (merged : List ClusterNode)
    (hrefresh : ∀ old node now, node ∈ merged → Q old → old.id = node.id →
      Q (refreshNode old node now)) :
    ∀ (nodes : List ClusterNode) (clock : Nat → Nat) {i : Nat} {e : ClusterNode},
      nodes[i]? = some e → Q e → ∃ e', (mergeAll nodes merged clock)[i]? = some e' ∧ Q e' := by
  induction merged with
  | nil => exact fun _ _ {_ e} h hQ => ⟨e, h, hQ⟩
  | cons n rest ih =>
      intro nodes clock i e h hQ
      obtain ⟨e₁, h₁, hid⟩ := mergeNode_keeps_id n (clock 0) h
      have hQ₁ : Q e₁ := by
        by_cases hne : e.id = n.id
        · rcases getElem?_mergeNode h₁ with h' | ⟨old, hold, -, rfl⟩ | ⟨hlen, -⟩
          · rw [h] at h'
            exact Option.some.inj h' ▸ hQ
          · rw [h] at hold
            obtain rfl := Option.some.inj hold
            exact hrefresh _ n _ List.mem_cons_self hQ hne
          · have := (List.getElem?_eq_some_iff.mp h).1
            omega
        · have := mergeNode_keeps (clock 0) h hne
          rw [h₁] at this
          exact Option.some.inj this ▸ hQ
      exact ih (fun old node now hm => hrefresh old node now (List.mem_cons_of_mem _ hm)) _
        (fun k => clock (k + 1)) h₁ hQ₁

theorem ageNode_cases (timeoutMs now : Nat) (n : ClusterNode) :
    ∃ state, ageNode timeoutMs now n = { n with state } ∧
      (state = n.state ∨ state = nodeStateSuspect ∨ state = nodeStateDead) := by
  unfold ageNode
  dsimp only
  split
  · exact ⟨_, rfl, .inr (.inl rfl)⟩
  · split
    · exact ⟨_, rfl, .inr (.inr rfl)⟩
    · exact ⟨_, rfl, .inl rfl⟩

theorem ageNode_keeps (timeoutMs now : Nat) (n : ClusterNode) :
    (ageNode timeoutMs now n).id = n.id ∧ (ageNode timeoutMs now n).lastSeen = n.lastSeen := by
  obtain ⟨state, hage, -⟩ := ageNode_cases timeoutMs now n
  rw [hage]
  exact ⟨rfl, rfl⟩

theorem getElem?_heartbeatAge (ctx : ClusterCtx) (now i : Nat) :
    (heartbeatAge ctx now).nodes[i]? = ctx.nodes[i]?.map fun n =>
      if i = ctx.selfIdx then n else ageNode ctx.cfg.timeoutMs.toNat now n := by
  simp [heartbeatAge, List.getElem?_mapIdx]

end Dsm.Cluster
