import Dsm.Cluster.Merging
import Dsm.Cluster.Restart
import Dsm.Lib.Hearsay

/-!
# How word gets round

A node learns of others from the headers and the bodies of the datagrams it handles. PING and JOIN
tell only of their sender; a PONG tells of the first sixteen entries of the answering node's table. As
long as no more than sixteen nodes take part a PONG has the whole table, so every exchange of a request
and its PONG hands on all that the answering node knows. What everybody has heard of after some rounds
of such exchanges depends on who asks whom (`gossip_converges`).

Ids are only ever added at the end of a table, which is why nothing learned is lost and why what has
been told once can be told again.
-/

namespace Dsm.Cluster

open Dsm.Lib (Run Hearsay heardOf)

/-! ## Ids are only added -/

/-- The ids of a node's table, in order. -/
def NodeProc.known (proc : NodeProc) : List NodeId := proc.ctx.nodes.map ClusterNode.id

theorem mergeNode_adds (nodes : List ClusterNode) (node : ClusterNode) (now : Nat) :
    nodes.map ClusterNode.id <+: (mergeNode nodes node now).map ClusterNode.id := by
  rcases mergeNode_ids nodes node now with h | ⟨h, -⟩
  · rw [h]
  · rw [h]
    exact List.prefix_append _ _

theorem mergeAll_adds (merged : List ClusterNode) : ∀ (nodes : List ClusterNode) (clock : Nat → Nat),
    nodes.map ClusterNode.id <+: (mergeAll nodes merged clock).map ClusterNode.id := by
  induction merged with
  | nil => exact fun _ _ => List.prefix_rfl
  | cons n rest ih => exact fun nodes clock => (mergeNode_adds nodes n _).trans (ih _ _)

theorem heartbeatAge_ids (ctx : ClusterCtx) (now : Nat) :
    (heartbeatAge ctx now).nodes.map ClusterNode.id = ctx.nodes.map ClusterNode.id := by
  refine List.ext_getElem? fun i => ?_
  rw [List.getElem?_map, List.getElem?_map, getElem?_heartbeatAge, Option.map_map]
  congr 1
  funext e
  simp only [Function.comp_apply]
  split
  · rfl
  · exact (ageNode_keeps _ _ e).1

theorem Act.known_next (proc : NodeProc) (a : Act) : proc.known <+: (a.next proc).known := by
  cases a with
  | deliver d source times => exact mergeAll_adds _ _ _
  | age now => rw [NodeProc.known, NodeProc.known, Act.next, heartbeatAge_ids]
  | _ => exact List.prefix_rfl

section Runs

variable {ι : Type*} [DecidableEq ι] {setup : ι → NodeSetup} {net net' : Net ι}
  {es : List (ι × Act)}

theorem Net.act_known (net : Net ι) (i : ι) (a : Act) (k : ι) :
    (net.node k).known <+: ((net.act i a).node k).known := by
  by_cases hk : k = i
  · subst hk
    rw [net.act_node_self]
    exact Act.known_next _ a
  · rw [net.act_node_ne hk]

theorem NetRun.known (h : NetRun net es net') (i : ι) :
    (net.node i).known <+: (net'.node i).known := by
  induction h with
  | nil _ => exact List.prefix_rfl
  | cons hstep _ ih =>
      obtain ⟨-, rfl⟩ := hstep
      exact (Net.act_known _ _ _ i).trans ih

theorem NetRun.play (h : NetRun net es net') : net' = net.play es := by
  induction h with
  | nil _ => rfl
  | cons hstep _ ih =>
      obtain ⟨-, rfl⟩ := hstep
      exact ih

theorem Net.play_append (net : Net ι) (es es' : List (ι × Act)) :
    net.play (es ++ es') = (net.play es).play es' := List.foldl_append

theorem Act.tableIds_next {proc : NodeProc} (h : TableIds proc.ctx.nodes) (a : Act) :
    TableIds (a.next proc).ctx.nodes := by
  cases a with
  | deliver d source times => exact TableIds.mergeAll _ times h
  | age now => exact h.age now
  | _ => exact h

theorem NetRun.tableIds (h : NetRun (Net.boot setup) es net) (i : ι) :
    TableIds (net.node i).ctx.nodes := by
  refine Run.invariant (fun net : Net ι => ∀ i, TableIds (net.node i).ctx.nodes) ?_ h
    (fun i => TableIds.create (setup i)) i
  rintro net ⟨i, a⟩ _ hnet ⟨-, rfl⟩
  exact Net.forall_node_act (P := fun _ proc => TableIds proc.ctx.nodes) hnet
    (Act.tableIds_next (hnet i) a)

/-! ## The nodes that take part -/

/-- The ids of some of the nodes. -/
def idsOf (setup : ι → NodeSetup) (members : Finset ι) : Finset NodeId :=
  members.image fun x => (setup x).id

/-- Only the members are spoken of, as long as only members act. -/
structure Among (setup : ι → NodeSetup) (members : Finset ι) (net : Net ι) : Prop where
  table : ∀ i ∈ members, ∀ e ∈ (net.node i).ctx.nodes, e.id ∈ idsOf setup members
  sent : ∀ d ∈ net.sent, ∀ source, ∀ e ∈ d.msg.entries source, e.id ∈ idsOf setup members

omit [DecidableEq ι] in
theorem Among.boot (setup : ι → NodeSetup) (members : Finset ι) :
    Among setup members (Net.boot setup) where
  table := by
    intro i hi e he
    obtain rfl := List.mem_singleton.mp he
    exact Finset.mem_image_of_mem _ hi
  sent := fun d hd => absurd hd List.not_mem_nil

variable {members : Finset ι}

theorem Among.act (h : Among setup members net) {i : ι} {a : Act} (hi : i ∈ members)
    (ha : a.Enabled net.sent (net.node i)) (hself : (net.node i).ctx.self.id = (setup i).id) :
    Among setup members (net.act i a) where
  table := by
    refine Net.forall_node_act (P := fun k proc => k ∈ members → ∀ e ∈ proc.ctx.nodes,
      e.id ∈ idsOf setup members) h.table fun _ e he => ?_
    rcases Act.next_nodes ha with hn | ⟨d, source, times, -, hd, hn⟩ | ⟨now, -, -, hn⟩
    · rw [hn] at he
      exact h.table i hi e he
    · rw [hn] at he
      refine mergeAll_forall (fun e => e.id ∈ idsOf setup members) _ _ times ?_ ?_ (h.table i hi) e he
      · intro old node k _ _ hold _
        rw [refreshNode_id]
        exact hold
      · exact fun node _ hm _ => h.sent d hd source node hm
    · have hid : e.id ∈ (heartbeatAge (net.node i).ctx now).nodes.map ClusterNode.id :=
        List.mem_map_of_mem (hn ▸ he)
      rw [heartbeatAge_ids] at hid
      obtain ⟨old, hold, hid⟩ := List.mem_map.mp hid
      exact hid ▸ h.table i hi old hold
  sent := by
    intro d hd source e he
    rcases List.mem_append.mp hd with hd | hd
    · exact h.sent d hd source e he
    · have hown : (net.node i).ctx.self.id ∈ idsOf setup members := by
        rw [hself]
        exact Finset.mem_image_of_mem _ hi
      obtain ⟨type, hhdr, hbody⟩ := Act.emits_entries hd
      rcases List.mem_cons.mp he with rfl | he
      · rw [senderNode, hhdr]
        exact hown
      · obtain ⟨g, hg, rfl⟩ := List.mem_map.mp he
        obtain ⟨n, hn, rfl⟩ := hbody g hg
        rcases hn with rfl | hn
        · exact hown
        · exact h.table i hi n hn

/-- The states that the members reach on their own. -/
def Reached (setup : ι → NodeSetup) (members : Finset ι) (net : Net ι) : Prop :=
  ∃ es, NetRun (Net.boot setup) es net ∧ ∀ e ∈ es, e.1 ∈ members

theorem Reached.boot (setup : ι → NodeSetup) (members : Finset ι) :
    Reached setup members (Net.boot setup) :=
  ⟨[], .nil _, fun _ he => absurd he List.not_mem_nil⟩

theorem Reached.run (h : Reached setup members net) (hrun : NetRun net es net')
    (hes : ∀ e ∈ es, e.1 ∈ members) : Reached setup members net' := by
  obtain ⟨before, hbefore, hmembers⟩ := h
  refine ⟨before ++ es, hbefore.append hrun, fun e he => ?_⟩
  rcases List.mem_append.mp he with he | he
  · exact hmembers e he
  · exact hes e he

theorem Reached.among (h : Reached setup members net) : Among setup members net := by
  obtain ⟨es, hrun, hes⟩ := h
  have hconfigured : ∀ i, (net.node i).ctx.self.id = (setup i).id := fun i => by
    rw [(NetRun.config hrun i).1]
    rfl
  refine (Run.invariant_of_labels (fun net : Net ι => Among setup members net ∧
    ∀ i, (net.node i).ctx.self.id = (setup i).id) (fun e => e.1 ∈ members) ?_ hrun hes
    ⟨.boot setup members, fun _ => rfl⟩).1
  rintro net ⟨i, a⟩ _ hi ⟨hnet, hself⟩ ⟨ha, rfl⟩
  refine ⟨hnet.act hi ha (hself i), ?_⟩
  refine Net.forall_node_act (P := fun k proc => proc.ctx.self.id = (setup k).id) hself ?_
  rw [(Act.next_config (net.node i) a).1]
  exact hself i

theorem Reached.tableIds (h : Reached setup members net) (i : ι) : TableIds (net.node i).ctx.nodes :=
  NetRun.tableIds h.choose_spec.1 i

/-- Few members make short tables. -/
theorem Reached.length_le (h : Reached setup members net) {i : ι} (hi : i ∈ members) :
    (net.node i).ctx.nodes.length ≤ members.card := by
  have hsub : ((net.node i).ctx.nodes.map ClusterNode.id).toFinset ⊆ idsOf setup members := by
    intro id hid
    obtain ⟨e, he, rfl⟩ := List.mem_map.mp (List.mem_toFinset.mp hid)
    exact h.among.table i hi e he
  calc (net.node i).ctx.nodes.length
      = ((net.node i).ctx.nodes.map ClusterNode.id).toFinset.card := by
        rw [List.toFinset_card_of_nodup (h.tableIds i).distinct, List.length_map]
    _ ≤ (idsOf setup members).card := Finset.card_le_card hsub
    _ ≤ members.card := Finset.card_image_le

/-! ## What a delivery teaches -/

/-- Where all ids fit, none that is merged is turned away. -/
theorem mergeAll_learns {ids : Finset NodeId} (hids : ids.card ≤ clusterMaxNodes)
    (merged : List ClusterNode) (hmerged : ∀ e ∈ merged, e.id ∈ ids) :
    ∀ (nodes : List ClusterNode) (clock : Nat → Nat), TableIds nodes → (∀ e ∈ nodes, e.id ∈ ids) →
      ∀ e ∈ merged, e.id ∈ (mergeAll nodes merged clock).map ClusterNode.id := by
  induction merged with
  | nil => exact fun _ _ _ _ e he => absurd he List.not_mem_nil
  | cons n rest ih =>
      intro nodes clock h hnodes e he
      have hn := hmerged n List.mem_cons_self
      have hnodes' : ∀ e ∈ mergeNode nodes n (clock 0), e.id ∈ ids := by
        intro e he
        obtain ⟨i, hi⟩ := List.mem_iff_getElem?.mp he
        rcases getElem?_mergeNode hi with hold | ⟨old, hold, -, rfl⟩ | ⟨-, rfl, -⟩
        · exact hnodes e (List.mem_of_getElem? hold)
        · rw [refreshNode_id]
          exact hnodes old (List.mem_of_getElem? hold)
        · exact hn
      rcases List.mem_cons.mp he with rfl | he
      · refine (mergeAll_adds rest _ _).subset ?_
        by_cases hknown : e.id ∈ nodes.map ClusterNode.id
        · exact (mergeNode_adds nodes e _).subset hknown
        · have hnone : entryOf nodes e.id = none :=
            h.entryOf_none_iff.mpr fun old hold hid => hknown (List.mem_map.mpr ⟨old, hold, hid⟩)
          have hroom := h.room hids hnodes hn hnone
          obtain ⟨new, hnew, hid⟩ := (mergeNode_learns e (clock 0) hroom).1
          exact List.mem_map.mpr ⟨new, hnew, hid⟩
      · exact ih (fun e he => hmerged e (List.mem_cons_of_mem _ he)) _ _ (h.mergeNode n _) hnodes' e he

/-- **A delivery is taken in**, and nothing of it is forgotten. -/
theorem Reached.learns (h : Reached setup members net) (hsize : members.card ≤ clusterMaxNodes)
    (hrun : NetRun net es net') (hes : ∀ e ∈ es, e.1 ∈ members) {i : ι} {d : Datagram}
    {source : SockAddr} {times : Nat → Nat} (hd : (i, .deliver d source times) ∈ es) :
    ∀ e ∈ d.msg.entries source, e.id ∈ (net'.node i).known := by
  intro e he
  obtain ⟨before, after, rfl⟩ := List.append_of_mem hd
  obtain ⟨mid, hbefore, hrest⟩ := hrun.split
  have hmid := h.run hbefore fun e he => hes e (List.mem_append_left _ he)
  have hi : i ∈ members := hes _ hd
  cases hrest with
  | cons hstep hafter =>
      obtain ⟨hdeliver, rfl⟩ := hstep
      refine (NetRun.known hafter i).subset ?_
      rw [mid.act_node_self]
      exact mergeAll_learns ((Finset.card_image_le).trans hsize) _
        (hmid.among.sent d hdeliver.1 source) _ times (hmid.tableIds i) (hmid.among.table i hi) e he

/-- In the run, a datagram that `j` sends by an action `a` gets to `i`. -/
def Reaches (net : Net ι) (es : List (ι × Act)) (j : ι) (a : Act) (i : ι) : Prop :=
  ∃ before d after source times, es = before ++ (j, a) :: after ∧
    d ∈ a.emits ((net.play before).node j) ∧ (i, .deliver d source times) ∈ after

theorem Reached.sender {i : ι} (h : Reached setup members net) {a : Act} {d : Datagram}
    (hd : d ∈ a.emits (net.node i)) : d.msg.hdr.senderId = (setup i).id := by
  obtain ⟨es, hrun, -⟩ := h
  obtain ⟨type, hhdr, -⟩ := Act.emits_entries hd
  rw [hhdr, (NetRun.config hrun i).1]
  rfl

/-- A PONG has all the ids of a table that is short enough. -/
theorem reply_tells {proc : NodeProc} (hlen : proc.ctx.nodes.length ≤ gossipMsgMaxNodes) {d : Datagram}
    (hd : d ∈ Act.reply.emits proc) {id : NodeId} (hid : id ∈ proc.known) (source : SockAddr) :
    ∃ e ∈ d.msg.entries source, e.id = id := by
  obtain ⟨dest, -, rfl⟩ := List.mem_map.mp hd
  obtain ⟨n, hn, rfl⟩ := List.mem_map.mp hid
  refine ⟨gossipNodeToCluster (clusterNodeToGossip n), List.mem_cons_of_mem _ ?_, rfl⟩
  refine List.mem_map_of_mem (List.mem_map_of_mem ?_)
  rwa [List.take_of_length_le hlen]

section Reaching

variable (h : Reached setup members net) (hrun : NetRun net es net') (hes : ∀ e ∈ es, e.1 ∈ members)

include h hrun hes

/-- Whoever a datagram gets to knows its sender from then on. -/
theorem Reached.introduced (hsize : members.card ≤ clusterMaxNodes) {i j : ι} {a : Act}
    (hreach : Reaches net es j a i) : (setup j).id ∈ (net'.node i).known := by
  obtain ⟨before, d, after, source, times, rfl, hd, hdeliver⟩ := hreach
  obtain ⟨mid, hbefore, -⟩ := hrun.split
  have hmid := h.run hbefore fun e he => hes e (List.mem_append_left _ he)
  rw [← NetRun.play hbefore] at hd
  rw [← hmid.sender hd]
  exact h.learns hsize hrun hes (List.mem_append_right _ (List.mem_cons_of_mem _ hdeliver)) _
    List.mem_cons_self

/-- Whoever a PONG gets to knows all that its sender knew. -/
theorem Reached.told (hsize : members.card ≤ gossipMsgMaxNodes) {i j : ι}
    (hreach : Reaches net es j .reply i) : (net.node j).known ⊆ (net'.node i).known := by
  intro id hid
  obtain ⟨before, d, after, source, times, rfl, hd, hdeliver⟩ := hreach
  obtain ⟨mid, hbefore, -⟩ := hrun.split
  have hmid := h.run hbefore fun e he => hes e (List.mem_append_left _ he)
  have hj : j ∈ members := hes (j, .reply) (List.mem_append_right _ List.mem_cons_self)
  rw [← NetRun.play hbefore] at hd
  obtain ⟨e, he, rfl⟩ := reply_tells ((hmid.length_le hj).trans hsize) hd
    ((NetRun.known hbefore j).subset hid) source
  exact h.learns (hsize.trans (by decide)) hrun hes
    (List.mem_append_right _ (List.mem_cons_of_mem _ hdeliver)) e he

end Reaching

/-! ## Rounds -/

/-- A round in which the members exchange messages: whenever `i` asks `j`, a datagram of `i` gets to `j`
and a PONG that `j` sends gets to `i`. Whatever else the members do, and in which order, is open. -/
def Round (members : Finset ι) (asks : ι → ι → Prop) (net : Net ι) (es : List (ι × Act))
    (net' : Net ι) : Prop :=
  NetRun net es net' ∧ (∀ e ∈ es, e.1 ∈ members) ∧
    ∀ i j, asks i j → (∃ a, Reaches net es i a j) ∧ Reaches net es j .reply i

theorem hearsay (setup : ι → NodeSetup) {members : Finset ι} (hsize : members.card ≤ gossipMsgMaxNodes)
    (asks : ι → ι → Prop) : Hearsay (Round members asks) (Reached setup members)
      (fun net i => {id | id ∈ (net.node i).known}) (fun i => (setup i).id) asks where
  inv := fun h hround => h.run hround.1 hround.2.1
  keeps := fun _ hround i => (NetRun.known hround.1 i).subset
  asked := by
    intro net net' es i j h hround hasks
    obtain ⟨a, hreach⟩ := (hround.2.2 i j hasks).1
    exact h.introduced hround.1 hround.2.1 (hsize.trans (by decide)) hreach
  told := fun h hround hasks => h.told hround.1 hround.2.1 hsize (hround.2.2 _ _ hasks).2

theorem Reached.rounds {asks : ι → ι → Prop} {rounds : List (List (ι × Act))}
    (h : Reached setup members net) (hrun : Run (Round members asks) net rounds net') :
    Reached setup members net' :=
  hrun.invariant (Reached setup members) (fun _ _ _ hs hround => hs.run hround.1 hround.2.1) h

omit [DecidableEq ι] in
/-- With disjoint ranges and distinct ids the entry of a node is the owner of its pages, unless it is
taken for dead. -/
theorem SoundTables.owner_eq (h : SoundTables setup net)
    (hdisjoint : ∀ i j pageId, (setup i).Owns pageId → (setup j).Owns pageId → i = j) {i j : ι}
    (hids : TableIds (net.node i).ctx.nodes) {e : ClusterNode} (he : e ∈ (net.node i).ctx.nodes)
    (hdesc : (setup j).Describes e) (hlive : e.state ≠ nodeStateDead) {pageId : UInt32}
    (howns : (setup j).Owns pageId) : clusterGetOwner (net.node i).ctx pageId = some e := by
  obtain ⟨n, hn⟩ := exists_clusterGetOwner he hlive ((hdesc.owns_iff pageId).mpr howns)
  obtain ⟨x, hx, hxowns⟩ := h.owner hn
  obtain rfl := hdisjoint x j pageId hxowns howns
  have hentry := hids.entryOf_iff.mpr ⟨he, hdesc.id⟩
  rw [hids.entryOf_iff.mpr ⟨(clusterGetOwner_some hn).1, hx.id⟩] at hentry
  rw [hn, hentry]

/-- **Gossip converges.** Up to sixteen nodes, with distinct ids and disjoint ranges, take part. After
some rounds every node has an entry for each node it can have heard of, with that node's configured range
and port, and unless it takes the node for dead it finds this entry as the owner of the node's pages. -/
theorem gossip_converges (setup : ι → NodeSetup) (hid : ∀ i j, (setup i).id = (setup j).id → i = j)
    (hdisjoint : ∀ i j pageId, (setup i).Owns pageId → (setup j).Owns pageId → i = j)
    {members : Finset ι} (hsize : members.card ≤ gossipMsgMaxNodes) {asks : ι → ι → Prop}
    {rounds : List (List (ι × Act))} {net : Net ι}
    (h : Run (Round members asks) (Net.boot setup) rounds net) {i j : ι}
    (hheard : j ∈ heardOf asks rounds.length i) :
    ∃ e ∈ (net.node i).ctx.nodes, (setup j).Describes e ∧
      (e.state ≠ nodeStateDead → ∀ pageId, (setup j).Owns pageId →
        clusterGetOwner (net.node i).ctx pageId = some e) := by
  have hboot := Reached.boot setup members
  have hknown := (hearsay setup hsize asks).run hboot (fun i => List.mem_singleton_self _)
    rounds.length rfl h hheard
  obtain ⟨es, hrun, -⟩ := hboot.rounds h
  have hsound := NetRun.soundTables hrun
  obtain ⟨e, he, heid⟩ := List.mem_map.mp hknown
  obtain ⟨x, hx⟩ := hsound.entry i e he
  obtain rfl := hid x j (hx.id.symm.trans heid)
  refine ⟨e, he, hx, fun hlive pageId howns => ?_⟩
  exact hsound.owner_eq hdisjoint (NetRun.tableIds hrun i) he hx hlive howns

/-! ## Rounds that happen

Nothing stands in the way of an exchange between nodes that are not busy with one, so there are rounds for
any choice of who asks whom. -/

/-- Where the other nodes reach a node. -/
def NodeSetup.address (s : NodeSetup) : SockAddr := ⟨s.localAddr, s.cfg.clusterPort⟩

/-- No node owes a PONG, and no gossip clock is past `now`. -/
def Quiet (net : Net ι) (now : Nat) : Prop :=
  ∀ i, (net.node i).reply = none ∧ (net.node i).gossipClock ≤ now

/-- A JOIN that node `i` sends and node `j` handles. -/
def asking (setup : ι → NodeSetup) (now : Nat) (i j : ι) : List (ι × Act) :=
  [(i, .join (setup j).address),
    (j, .deliver ⟨(setup j).address, gossipJoin (setup i).create.self⟩ (setup i).address fun _ => now)]

/-- The PONG that `j` answers with. -/
def answering (setup : ι → NodeSetup) (net : Net ι) (now : Nat) (i j : ι) : List (ι × Act) :=
  [(j, .reply), (i, .deliver ⟨(setup i).address, handleGossipReply (net.node j).ctx⟩ (setup j).address
    fun _ => now)]

def exchange (setup : ι → NodeSetup) (net : Net ι) (now : Nat) (i j : ι) : List (ι × Act) :=
  asking setup now i j ++ answering setup (net.play (asking setup now i j)) now i j

theorem Quiet.of_act {now : Nat} {k : ι} {a : Act}
    (h : ∀ i, i ≠ k → (net.node i).reply = none ∧ (net.node i).gossipClock ≤ now)
    (hk : (a.next (net.node k)).reply = none ∧ (a.next (net.node k)).gossipClock ≤ now) :
    Quiet (net.act k a) now := by
  intro i
  by_cases hi : i = k
  · subst hi
    rwa [net.act_node_self]
  · rw [net.act_node_ne hi]
    exact h i hi

/-- After the request only the node that was asked has moved, and it owes a PONG. -/
theorem asking_node (setup : ι → NodeSetup) (net : Net ι) (now : Nat) (i j : ι) :
    ((net.play (asking setup now i j)).node j).reply = some (setup i).address ∧
    ((net.play (asking setup now i j)).node j).gossipClock = now ∧
    ∀ k, k ≠ j → (net.play (asking setup now i j)).node k = net.node k := by
  have hj := Net.act_node_self (net.act i (.join (setup j).address)) j
    (.deliver ⟨(setup j).address, gossipJoin (setup i).create.self⟩ (setup i).address fun _ => now)
  refine ⟨congrArg NodeProc.reply hj, congrArg NodeProc.gossipClock hj, fun k hk => ?_⟩
  refine (Net.act_node_ne _ hk _).trans ?_
  by_cases hki : k = i
  · subst hki
    exact Net.act_node_self _ k _
  · exact Net.act_node_ne _ hki _

theorem exchange_reaches (now : Nat) {i : ι} (j : ι)
    (hself : (net.node i).ctx.self = (setup i).create.self) :
    (∃ a, Reaches net (exchange setup net now i j) i a j) ∧
    Reaches net (exchange setup net now i j) j .reply i := by
  constructor
  · refine ⟨_, [], _, _, _, _, rfl, ?_, List.mem_cons_self⟩
    rw [← hself]
    exact List.mem_singleton_self _
  · refine ⟨asking setup now i j, _, _, _, _, rfl, ?_, List.mem_singleton_self _⟩
    rw [Act.emits, (asking_node setup net now i j).1]
    exact List.mem_singleton_self _

section Exchange

variable {now : Nat} {i j : ι} (hnow : now < 2 ^ 64) (hij : i ≠ j) (hquiet : Quiet net now)
  (hself : (net.node i).ctx.self = (setup i).create.self)

include hnow hij hquiet hself

theorem asking_run : NetRun net (asking setup now i j) (net.play (asking setup now i j)) := by
  have hsent : ⟨(setup j).address, gossipJoin (setup i).create.self⟩ ∈
      (net.act i (.join (setup j).address)).sent := by
    rw [← hself]
    exact List.mem_append_right _ (List.mem_singleton_self _)
  refine .cons ⟨trivial, rfl⟩ (.cons ⟨Act.enabled_deliver _ _ hsent ?_ ?_ hnow, rfl⟩ (.nil _))
  · rw [net.act_node_ne (Ne.symm hij)]
    exact (hquiet j).1
  · rw [net.act_node_ne (Ne.symm hij)]
    exact (hquiet j).2

theorem exchange_run : NetRun net (exchange setup net now i j) (net.play (exchange setup net now i j)) ∧
    Quiet (net.play (exchange setup net now i j)) now := by
  have hasking := asking_run hnow hij hquiet hself
  obtain ⟨hreply, hclock, hothers⟩ := asking_node setup net now i j
  rw [exchange, Net.play_append]
  generalize net.play (asking setup now i j) = mid at hasking hreply hclock hothers ⊢
  have hsent : ⟨(setup i).address, handleGossipReply (mid.node j).ctx⟩ ∈ (mid.act j .reply).sent := by
    refine List.mem_append_right _ ?_
    rw [Act.emits, hreply]
    exact List.mem_singleton_self _
  have hmid : Quiet (mid.act j .reply) now := by
    refine Quiet.of_act (fun k hk => hothers k hk ▸ hquiet k) ⟨rfl, ?_⟩
    exact hclock.le
  constructor
  · refine hasking.append (.cons ⟨?_, rfl⟩ (.cons ⟨Act.enabled_deliver _ _ hsent ?_ ?_ hnow, rfl⟩
      (.nil _)))
    · show (mid.node j).reply ≠ none
      rw [hreply]
      exact Option.some_ne_none _
    · exact (hmid i).1
    · exact (hmid i).2
  · exact Quiet.of_act (fun k _ => hmid k) ⟨rfl, Nat.le_refl now⟩

end Exchange

theorem Reaches.append {i j : ι} {a : Act} (h : Reaches net es j a i) (more : List (ι × Act)) :
    Reaches net (es ++ more) j a i := by
  obtain ⟨before, d, after, source, times, rfl, hd, hdeliver⟩ := h
  exact ⟨before, d, after ++ more, source, times, by rw [List.append_assoc, List.cons_append], hd,
    List.mem_append_left _ hdeliver⟩

theorem Reaches.after {i j : ι} {a : Act} {pre : List (ι × Act)} (h : Reaches (net.play pre) es j a i) :
    Reaches net (pre ++ es) j a i := by
  obtain ⟨before, d, after, source, times, rfl, hd, hdeliver⟩ := h
  refine ⟨pre ++ before, d, after, source, times, (List.append_assoc ..).symm, ?_, hdeliver⟩
  rwa [Net.play_append]

/-- One exchange after the other. -/
def exchanges (setup : ι → NodeSetup) (now : Nat) : Net ι → List (ι × ι) → List (ι × Act)
  | _, [] => []
  | net, (i, j) :: rest =>
      exchange setup net now i j ++
        exchanges setup now (net.play (exchange setup net now i j)) rest

theorem exchange_members (setup : ι → NodeSetup) (net : Net ι) (now : Nat) {i j : ι} (hi : i ∈ members) (hj : j ∈ members) :
    ∀ e ∈ exchange setup net now i j, e.1 ∈ members := by
  simp [exchange, asking, answering, hi, hj]

theorem exchanges_round {now : Nat} (hnow : now < 2 ^ 64) {pairs : List (ι × ι)} :
    ∀ {net : Net ι}, Reached setup members net → Quiet net now →
      (∀ p ∈ pairs, p.1 ≠ p.2 ∧ p.1 ∈ members ∧ p.2 ∈ members) →
      Round members (fun i j => (i, j) ∈ pairs) net (exchanges setup now net pairs)
        (net.play (exchanges setup now net pairs)) ∧
      Quiet (net.play (exchanges setup now net pairs)) now := by
  induction pairs with
  | nil =>
      intro net _ hquiet _
      exact ⟨⟨.nil _, fun _ he => absurd he List.not_mem_nil, fun _ _ h => absurd h List.not_mem_nil⟩,
        hquiet⟩
  | cons p rest ih =>
      intro net hreached hquiet hpairs
      obtain ⟨i, j⟩ := p
      obtain ⟨hij, hi, hj⟩ := hpairs _ List.mem_cons_self
      obtain ⟨es, hboot, -⟩ := id hreached
      have hself := (NetRun.config hboot i).1
      obtain ⟨hfirst, hquiet'⟩ := exchange_run hnow hij hquiet hself
      have hmembers := exchange_members setup net now hi hj
      obtain ⟨⟨hrun, hes, hasks⟩, hend⟩ := ih (hreached.run hfirst hmembers) hquiet'
        fun p hp => hpairs p (List.mem_cons_of_mem _ hp)
      rw [exchanges, Net.play_append]
      refine ⟨⟨hfirst.append hrun, fun e he => ?_, fun i' j' h => ?_⟩, hend⟩
      · rcases List.mem_append.mp he with he | he
        · exact hmembers e he
        · exact hes e he
      · rcases List.mem_cons.mp h with heq | h
        · obtain ⟨rfl, rfl⟩ := Prod.mk.inj heq
          obtain ⟨⟨a, hask⟩, hanswer⟩ := exchange_reaches now j' hself
          exact ⟨⟨a, hask.append _⟩, hanswer.append _⟩
        · obtain ⟨⟨a, hask⟩, hanswer⟩ := hasks i' j' h
          exact ⟨⟨a, hask.after⟩, hanswer.after⟩

/-- **Rounds can happen**, any number of them, whoever asks whom. -/
theorem rounds_exist {now : Nat} (hnow : now < 2 ^ 64) (pairs : List (ι × ι))
    (hpairs : ∀ p ∈ pairs, p.1 ≠ p.2 ∧ p.1 ∈ members ∧ p.2 ∈ members)
    (hreached : Reached setup members net) (hquiet : Quiet net now) (n : Nat) :
    ∃ rounds net', rounds.length = n ∧ Run (Round members fun i j => (i, j) ∈ pairs) net rounds net' ∧
      Quiet net' now := by
  induction n with
  | zero => exact ⟨[], net, rfl, .nil _, hquiet⟩
  | succ n ih =>
      obtain ⟨rounds, mid, hlen, hrun, hmid⟩ := ih
      obtain ⟨hround, hend⟩ := exchanges_round hnow (hreached.rounds hrun) hmid hpairs
      exact ⟨rounds ++ [_], _, by rw [List.length_append, hlen]; rfl, hrun.snoc hround, hend⟩

end Runs

/-- Nodes `1` and `2` ask node `0`. After two rounds node `2` finds the pages of node `1`. -/
theorem gossip_converges_trio : ∃ rounds net,
    Run (Round {0, 1, 2} fun i j => (i, j) ∈ [((1 : Fin 3), (0 : Fin 3)), (2, 0)]) (Net.boot trio)
      rounds net ∧ rounds.length = 2 ∧ ∃ e ∈ (net.node 2).ctx.nodes, (trio 1).Describes e := by
  have hnow : 100 < 2 ^ 64 := by decide
  obtain ⟨rounds, net, hlen, hrun, -⟩ := rounds_exist hnow [((1 : Fin 3), (0 : Fin 3)), (2, 0)]
    (by decide) (Reached.boot trio {0, 1, 2}) (fun _ => ⟨rfl, Nat.le_refl _⟩) 2
  have hheard : (1 : Fin 3) ∈ heardOf (fun i j => (i, j) ∈ [((1 : Fin 3), (0 : Fin 3)), (2, 0)])
      rounds.length 2 := by
    rw [hlen]
    exact .inr (.inr ⟨0, by decide, .inr (.inl (by decide))⟩)
  obtain ⟨e, he, hdesc, -⟩ := gossip_converges trio trio_id trio_disjoint (by decide) hrun hheard
  exact ⟨rounds, net, hrun, hlen, e, he, hdesc⟩

end Dsm.Cluster
