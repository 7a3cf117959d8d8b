import Dsm.Cluster.FailureDetector
import Dsm.Cluster.Gossip

/-!
# One node under any traffic

The cluster port takes datagrams from anybody. Here a node is created and then only two things
happen to its table: a datagram of any bytes arrives, with any source address and any readings of
the clock, or the heartbeat ticks with any sample. What `gossip_parse` accepts is handled.

No traffic can break the table itself: ids stay distinct and keep their positions, entry `0` stays
the node's own, incarnations only grow (`membership_table_invariant`). The states are another
matter. The byte an entry brings is stored as it is, and an entry in a state the heartbeat does not
know is never aged (`unknown_state_never_ages`); with valid states only, every peer that nobody
mentions any more is aged out (`known_states_and_silence`).
-/

namespace Dsm.Cluster

/-- The message that a datagram holds. `recvfrom` cuts the datagram at the size of the buffer, and
an empty one is not looked at. -/
def received (datagram : Bytes) : Option GossipMsg :=
  let buf := datagram.take gossipMsgSize
  if 0 < buf.length then (gossipParse buf).join.map PackedMsg.toMsg else none

/-- The body of `gossip_loop`, up to the answer. -/
def gossipRecv (ctx : ClusterCtx) (datagram : Bytes) (source : SockAddr) (clock : Nat → Nat) :
    ClusterCtx :=
  match received datagram with
  | some msg => handleGossipMsg ctx msg source clock
  | none => ctx

inductive Traffic
  | datagram (bytes : Bytes) (source : SockAddr) (times : Nat → Nat)
  | tick (now : UInt64)

def Traffic.next (ctx : ClusterCtx) : Traffic → ClusterCtx
  | .datagram bytes source times => gossipRecv ctx bytes source times
  | .tick now => heartbeatAge ctx now.toNat

/-- The node after some traffic. -/
def ClusterCtx.after (ctx : ClusterCtx) (traffic : List Traffic) : ClusterCtx :=
  traffic.foldl Traffic.next ctx

theorem ClusterCtx.after_append (ctx : ClusterCtx) (pre post : List Traffic) :
    ctx.after (pre ++ post) = (ctx.after pre).after post := List.foldl_append

theorem Traffic.next_config (ctx : ClusterCtx) (t : Traffic) :
    (t.next ctx).self = ctx.self ∧ (t.next ctx).cfg = ctx.cfg ∧
      (t.next ctx).selfIdx = ctx.selfIdx := by
  cases t with
  | datagram bytes source times =>
      cases hmsg : received bytes <;> simp [Traffic.next, gossipRecv, hmsg, handleGossipMsg]
  | tick now => exact ⟨rfl, rfl, rfl⟩

/-- **Everything traffic does to a table**: nothing, one message merged in, or one aging pass. -/
theorem Traffic.next_nodes (ctx : ClusterCtx) (t : Traffic) :
    (t.next ctx).nodes = ctx.nodes ∨
    (∃ bytes source times msg, t = .datagram bytes source times ∧ received bytes = some msg ∧
      (t.next ctx).nodes = mergeAll ctx.nodes (msg.entries source) times) ∨
    (∃ now, t = .tick now ∧ (t.next ctx).nodes = (heartbeatAge ctx now.toNat).nodes) := by
  cases t with
  | datagram bytes source times =>
      cases hmsg : received bytes with
      | none => exact .inl (by simp [Traffic.next, gossipRecv, hmsg])
      | some msg =>
          refine .inr (.inl ⟨bytes, source, times, msg, rfl, hmsg, ?_⟩)
          simp [Traffic.next, gossipRecv, hmsg, handleGossipMsg]
  | tick now => exact .inr (.inr ⟨now, rfl, rfl⟩)

/-- The datagrams that nodes send are among the traffic: a message of the membership model arrives
as itself. -/
theorem received_sendMsg {msg : GossipMsg} (h : msg.nodes.length ≤ gossipMsgMaxNodes) :
    received (sendMsg msg.pack) = some msg := by
  have hwell := GossipMsg.pack_wellFormed h
  have hlen := length_sendMsg hwell
  have hfits : (sendMsg msg.pack).length ≤ gossipMsgSize := by
    have : msg.pack.nodes.length ≤ 16 := hwell.fits
    show (sendMsg msg.pack).length ≤ 36 + 16 * 40
    omega
  unfold received
  rw [List.take_of_length_le hfits, if_pos (by omega), GossipMsg.parse_pack h]
  exact congrArg some msg.toMsg_pack

/-! ## Ids keep their positions -/

/-- Every entry stays where it is, under its id, with no smaller incarnation. -/
def Continues (nodes nodes' : List ClusterNode) : Prop :=
  ∀ (i : Nat) (e : ClusterNode), nodes[i]? = some e →
    ∃ e', nodes'[i]? = some e' ∧ e'.id = e.id ∧ e.incarnation ≤ e'.incarnation

theorem refreshNode_incarnation (old node : ClusterNode) (now : Nat) :
    old.incarnation ≤ (refreshNode old node now).incarnation := by
  unfold refreshNode
  split
  · next h => exact UInt32.le_of_lt h
  · split <;> exact UInt32.le_refl _

namespace Continues

variable {nodes nodes' nodes'' : List ClusterNode}

theorem refl (nodes : List ClusterNode) : Continues nodes nodes :=
  fun _ e h => ⟨e, h, rfl, UInt32.le_refl _⟩

theorem trans (h₁ : Continues nodes nodes') (h₂ : Continues nodes' nodes'') :
    Continues nodes nodes'' := by
  intro i e he
  obtain ⟨e', he', hid', hinc'⟩ := h₁ i e he
  obtain ⟨e'', he'', hid'', hinc''⟩ := h₂ i e' he'
  exact ⟨e'', he'', hid''.trans hid', UInt32.le_trans hinc' hinc''⟩

theorem merged (nodes merged : List ClusterNode) (clock : Nat → Nat) :
    Continues nodes (mergeAll nodes merged clock) := by
  intro i e he
  refine mergeAll_keeps (fun e' => e'.id = e.id ∧ e.incarnation ≤ e'.incarnation) merged ?_ nodes
    clock he ⟨rfl, UInt32.le_refl _⟩
  rintro old node now - ⟨hid, hinc⟩ -
  exact ⟨(refreshNode_id old node now).trans hid,
    UInt32.le_trans hinc (refreshNode_incarnation old node now)⟩

theorem aged (ctx : ClusterCtx) (now : Nat) :
    Continues ctx.nodes (heartbeatAge ctx now).nodes := by
  intro i e he
  rw [getElem?_heartbeatAge, he, Option.map_some]
  refine ⟨_, rfl, ?_⟩
  split
  · exact ⟨rfl, UInt32.le_refl _⟩
  · obtain ⟨state, hage, -⟩ := ageNode_cases ctx.cfg.timeoutMs.toNat now e
    rw [hage]
    exact ⟨rfl, UInt32.le_refl _⟩

theorem next (ctx : ClusterCtx) (t : Traffic) : Continues ctx.nodes (t.next ctx).nodes := by
  rcases t.next_nodes ctx with h | ⟨-, source, times, msg, -, -, h⟩ | ⟨now, -, h⟩
  · rw [h]
    exact refl _
  · rw [h]
    exact merged _ _ _
  · rw [h]
    exact aged _ _

theorem after (ctx : ClusterCtx) (traffic : List Traffic) :
    Continues ctx.nodes (ctx.after traffic).nodes := by
  induction traffic generalizing ctx with
  | nil => exact refl _
  | cons t traffic ih => exact (next ctx t).trans (ih (t.next ctx))

theorem length_le (h : Continues nodes nodes') : nodes.length ≤ nodes'.length := by
  by_contra hlt
  obtain ⟨e', he', -⟩ := h _ _ (List.getElem?_eq_getElem (Nat.lt_of_not_le hlt))
  exact absurd (List.getElem?_eq_some_iff.mp he').1 (Nat.lt_irrefl _)

end Continues

/-! ## Distinct ids -/

/-- A merge leaves the ids alone or appends one that was not there, if there is room. -/
theorem mergeNode_ids (nodes : List ClusterNode) (node : ClusterNode) (now : Nat) :
    (mergeNode nodes node now).map ClusterNode.id = nodes.map ClusterNode.id ∨
    (mergeNode nodes node now).map ClusterNode.id = nodes.map ClusterNode.id ++ [node.id] ∧
      node.id ∉ nodes.map ClusterNode.id ∧ nodes.length < clusterMaxNodes := by
  unfold mergeNode
  split
  · left
    apply List.ext_getElem?
    intro i
    rw [List.getElem?_map, List.getElem?_map, List.getElem?_modify, Option.map_eq_map,
      Option.map_map]
    congr 1
    funext e
    simp only [Function.comp_apply]
    split
    · exact refreshNode_id e node now
    · rfl
  · next hfind =>
    split
    · next hroom =>
      refine .inr ⟨by rw [List.map_append, List.map_singleton], fun hmem => ?_, hroom⟩
      obtain ⟨n, hn, hid⟩ := List.mem_map.mp hmem
      exact findNodeById_none hfind n hn hid
    · exact .inl rfl

/-- Distinct ids, and no more of them than fit. -/
structure TableIds (nodes : List ClusterNode) : Prop where
  distinct : (nodes.map ClusterNode.id).Nodup
  fits : nodes.length ≤ clusterMaxNodes

namespace TableIds

variable {nodes : List ClusterNode}

theorem of_ids_eq {nodes' : List ClusterNode} (h : TableIds nodes)
    (hids : nodes'.map ClusterNode.id = nodes.map ClusterNode.id) : TableIds nodes' := by
  have hlen := congrArg List.length hids
  rw [List.length_map, List.length_map] at hlen
  exact ⟨hids ▸ h.distinct, hlen ▸ h.fits⟩

theorem mergeNode (h : TableIds nodes) (node : ClusterNode) (now : Nat) :
    TableIds (mergeNode nodes node now) := by
  rcases mergeNode_ids nodes node now with hids | ⟨hids, hnew, hroom⟩
  · exact h.of_ids_eq hids
  · refine ⟨?_, ?_⟩
    · rw [hids, List.nodup_append]
      refine ⟨h.distinct, List.nodup_singleton _, fun a ha b hb hab => ?_⟩
      rw [hab, List.mem_singleton.mp hb] at ha
      exact hnew ha
    · have hlen := congrArg List.length hids
      rw [List.length_map, List.length_append, List.length_map, List.length_singleton] at hlen
      rw [hlen]
      exact hroom

theorem mergeAll (merged : List ClusterNode) :
    ∀ {nodes : List ClusterNode} (clock : Nat → Nat), TableIds nodes →
      TableIds (mergeAll nodes merged clock) := by
  induction merged with
  | nil => exact fun _ h => h
  | cons n rest ih => exact fun clock h => ih (fun k => clock (k + 1)) (h.mergeNode n (clock 0))

theorem age {ctx : ClusterCtx} (h : TableIds ctx.nodes) (now : Nat) :
    TableIds (heartbeatAge ctx now).nodes := by
  refine h.of_ids_eq (List.ext_getElem? fun i => ?_)
  rw [List.getElem?_map, List.getElem?_map, getElem?_heartbeatAge, Option.map_map]
  congr 1
  funext e
  simp only [Function.comp_apply]
  split
  · rfl
  · exact (ageNode_keeps _ _ e).1

theorem next {ctx : ClusterCtx} (h : TableIds ctx.nodes) (t : Traffic) :
    TableIds (t.next ctx).nodes := by
  rcases t.next_nodes ctx with heq | ⟨-, source, times, msg, -, -, heq⟩ | ⟨now, -, heq⟩
  · exact heq ▸ h
  · exact heq ▸ mergeAll _ times h
  · exact heq ▸ h.age now.toNat

theorem create (s : NodeSetup) : TableIds s.create.nodes :=
  ⟨List.nodup_singleton _, Nat.succ_le_succ (Nat.zero_le _)⟩

theorem after {ctx : ClusterCtx} (h : TableIds ctx.nodes) (traffic : List Traffic) :
    TableIds (ctx.after traffic).nodes := by
  induction traffic generalizing ctx with
  | nil => exact h
  | cons t traffic ih => exact ih (h.next t)

theorem index_unique (h : TableIds nodes) {i j : Nat} {e e' : ClusterNode}
    (hi : nodes[i]? = some e) (hj : nodes[j]? = some e') (hid : e.id = e'.id) : i = j := by
  have hlt : i < (nodes.map ClusterNode.id).length := by
    rw [List.length_map]
    exact (List.getElem?_eq_some_iff.mp hi).1
  refine (List.getElem?_inj hlt h.distinct).mp ?_
  rw [List.getElem?_map, List.getElem?_map, hi, hj, Option.map_some, Option.map_some, hid]

/-- Where ids are distinct, `find_node_by_id` finds the entry with the id. -/
theorem findNodeById_iff (h : TableIds nodes) {id : NodeId} {i : Nat} :
    findNodeById nodes id = some i ↔ ∃ e, nodes[i]? = some e ∧ e.id = id := by
  constructor
  · exact findNodeById_some
  · rintro ⟨e, he, rfl⟩
    obtain ⟨j, hfind⟩ := findNodeById_of_mem (List.mem_of_getElem? he)
    obtain ⟨e', he', hid⟩ := findNodeById_some hfind
    rw [hfind, h.index_unique he' he hid]

end TableIds

/-! ## The table under any traffic -/

/-- What always holds of a table. -/
structure ClusterCtx.TableInvariant (ctx : ClusterCtx) (own : NodeId) : Prop where
  distinct : (ctx.nodes.map ClusterNode.id).Nodup
  nonempty : 1 ≤ ctx.nodes.length
  fits : ctx.nodes.length ≤ clusterMaxNodes
  selfIdx : ctx.selfIdx = 0
  self : ∃ e, ctx.nodes[0]? = some e ∧ e.id = own

/-- What holds between a table and any later one. -/
structure ClusterCtx.Grows (ctx later : ClusterCtx) : Prop where
  count : ctx.nodes.length ≤ later.nodes.length
  index : ∀ id i, findNodeById ctx.nodes id = some i → findNodeById later.nodes id = some i
  incarnation : ∀ e ∈ ctx.nodes, ∀ e' ∈ later.nodes, e'.id = e.id → e.incarnation ≤ e'.incarnation

theorem Continues.grows {ctx later : ClusterCtx} (h : Continues ctx.nodes later.nodes)
    (hids : TableIds later.nodes) : ctx.Grows later where
  count := h.length_le
  index := by
    intro id i hfind
    obtain ⟨e, he, hid⟩ := findNodeById_some hfind
    obtain ⟨e', he', hid', -⟩ := h i e he
    exact hids.findNodeById_iff.mpr ⟨e', he', hid'.trans hid⟩
  incarnation := by
    intro e he e' he' hid
    obtain ⟨i, hi⟩ := List.mem_iff_getElem?.mp he
    obtain ⟨j, hj⟩ := List.mem_iff_getElem?.mp he'
    obtain ⟨e'', hi'', hid'', hinc⟩ := h i e hi
    obtain rfl := hids.index_unique hi'' hj (hid''.trans hid.symm)
    rw [hi''] at hj
    obtain rfl := Option.some.inj hj
    exact hinc

theorem ClusterCtx.after_config (ctx : ClusterCtx) (traffic : List Traffic) :
    (ctx.after traffic).cfg = ctx.cfg ∧ (ctx.after traffic).selfIdx = ctx.selfIdx := by
  induction traffic generalizing ctx with
  | nil => exact ⟨rfl, rfl⟩
  | cons t traffic ih =>
      obtain ⟨-, hcfg, hidx⟩ := t.next_config ctx
      obtain ⟨hcfg', hidx'⟩ := ih (t.next ctx)
      exact ⟨hcfg'.trans hcfg, hidx'.trans hidx⟩

theorem NodeSetup.tableInvariant (s : NodeSetup) (traffic : List Traffic) :
    (s.create.after traffic).TableInvariant s.id := by
  have hids := (TableIds.create s).after traffic
  have hfirst := Continues.after s.create traffic
  refine ⟨hids.distinct, hfirst.length_le, hids.fits, (s.create.after_config traffic).2, ?_⟩
  obtain ⟨e, he, hid, -⟩ := hfirst 0 s.create.self rfl
  exact ⟨e, he, hid⟩

/-- **The table under any traffic.** Whatever bytes arrive and however the clock is read: ids are
pairwise distinct, at least the node itself and at most 64, entry `0` is the node's own; and from
one moment to any later one no entry is lost, no id moves and no incarnation drops. -/
theorem membership_table_invariant (s : NodeSetup) (pre post : List Traffic) :
    (s.create.after pre).TableInvariant s.id ∧
      (s.create.after pre).Grows ((s.create.after pre).after post) :=
  ⟨s.tableInvariant pre,
    (Continues.after _ post).grows (((TableIds.create s).after pre).after post)⟩

/-! ## States -/

/-- Every entry the datagram brings is ALIVE, SUSPECT or DEAD. -/
def Traffic.ValidStates : Traffic → Prop
  | .datagram bytes _ _ =>
      ∀ msg, received bytes = some msg → ∀ n ∈ msg.nodes, (gossipNodeToCluster n).KnownState
  | .tick _ => True

/-- The datagram was sent by node `x` or lists it. -/
def Traffic.Mentions (x : NodeId) : Traffic → Prop
  | .datagram bytes _ _ =>
      ∃ msg, received bytes = some msg ∧ (msg.hdr.senderId = x ∨ ∃ n ∈ msg.nodes, n.id = x)
  | .tick _ => False

def Traffic.tickAfter (deadline : Nat) : Traffic → Bool
  | .datagram _ _ _ => false
  | .tick now => deadline < now.toNat

theorem knownState_next {ctx : ClusterCtx} {t : Traffic} (ht : t.ValidStates)
    (h : ∀ e ∈ ctx.nodes, e.KnownState) : ∀ e ∈ (t.next ctx).nodes, e.KnownState := by
  rcases t.next_nodes ctx with heq | ⟨bytes, source, times, msg, rfl, hmsg, heq⟩ | ⟨now, rfl, heq⟩
  · rwa [heq]
  · have hentries : ∀ m ∈ msg.entries source, m.KnownState := by
      intro m hm
      rcases List.mem_cons.mp hm with rfl | hm
      · exact .inl rfl
      · obtain ⟨n, hn, rfl⟩ := List.mem_map.mp hm
        exact ht msg hmsg n hn
    rw [heq]
    exact mergeAll_forall ClusterNode.KnownState _ _ times
      (fun old node k hm _ hold _ => hold.refresh (hentries node hm) _)
      (fun node k hm _ => hentries node hm) h
  · rw [heq]
    intro e he
    obtain ⟨n, i, hn, rfl⟩ := mem_heartbeatAge he
    have hknown := h n (List.mem_of_getElem? hn)
    split
    · exact hknown
    · exact hknown.age _ _

theorem knownState_after {ctx : ClusterCtx} (h : ∀ e ∈ ctx.nodes, e.KnownState)
    (traffic : List Traffic) (hvalid : ∀ t ∈ traffic, t.ValidStates) :
    ∀ e ∈ (ctx.after traffic).nodes, e.KnownState := by
  induction traffic generalizing ctx with
  | nil => exact h
  | cons t traffic ih =>
      exact ih (knownState_next (hvalid t List.mem_cons_self) h)
        fun t ht => hvalid t (List.mem_cons_of_mem _ ht)

/-- One event that does not mention `x`: its entry only gets older. -/
theorem Silenced.next {ctx : ClusterCtx} {x : NodeId} {deadline ticks : Nat} {t : Traffic}
    (h : Silenced x deadline ticks ctx.nodes) (hknown : ∀ e ∈ ctx.nodes, e.KnownState)
    (hself : ∀ e, ctx.nodes[ctx.selfIdx]? = some e → e.id ≠ x) (ht : ¬ t.Mentions x) :
    Silenced x deadline
      (ticks + if t.tickAfter (deadline + ctx.cfg.timeoutMs.toNat) then 1 else 0)
      (t.next ctx).nodes := by
  cases t with
  | datagram bytes source times =>
      rcases (Traffic.datagram bytes source times).next_nodes ctx with
        heq | ⟨_, _, _, msg, ⟨⟩, hmsg, heq⟩ | ⟨_, ⟨⟩, _⟩
      · rwa [heq]
      · have hothers : ∀ m ∈ msg.entries source, m.id ≠ x := by
          intro m hm hid
          rcases List.mem_cons.mp hm with rfl | hm
          · exact ht ⟨msg, hmsg, .inl hid⟩
          · obtain ⟨n, hn, rfl⟩ := List.mem_map.mp hm
            exact ht ⟨msg, hmsg, .inr ⟨n, hn, hid⟩⟩
        rw [heq]
        exact ⟨fun e he hid => h.stamp e (mergeAll_without hothers _ _ he hid) hid,
          fun e he hid => h.rank e (mergeAll_without hothers _ _ he hid) hid⟩
  | tick now =>
      have haged := h.age hknown hself now.toNat_lt
      by_cases hlate : deadline + ctx.cfg.timeoutMs.toNat < now.toNat
      · simpa [Traffic.tickAfter, Traffic.next, hlate] using haged
      · simpa [Traffic.tickAfter, Traffic.next, hlate] using haged

theorem NodeSetup.self_ne (s : NodeSetup) (traffic : List Traffic) {x : NodeId} (hx : x ≠ s.id)
    {e : ClusterNode}
    (he : (s.create.after traffic).nodes[(s.create.after traffic).selfIdx]? = some e) :
    e.id ≠ x := by
  have hinv := s.tableInvariant traffic
  obtain ⟨e₀, he₀, hid⟩ := hinv.self
  rw [hinv.selfIdx, he₀] at he
  rw [← Option.some.inj he, hid]
  exact hx.symm

theorem NodeSetup.knownState (s : NodeSetup) (traffic : List Traffic)
    (hvalid : ∀ t ∈ traffic, t.ValidStates) :
    ∀ e ∈ (s.create.after traffic).nodes, e.KnownState := by
  refine knownState_after (fun e he => ?_) traffic hvalid
  obtain rfl := List.mem_singleton.mp he
  exact .inl rfl

theorem Silenced.after {s : NodeSetup} {x : NodeId} (hx : x ≠ s.id) {deadline : Nat}
    (post : List Traffic) : ∀ (pre : List Traffic) {ticks : Nat},
      (∀ t ∈ pre ++ post, t.ValidStates) → (∀ t ∈ post, ¬ t.Mentions x) →
      Silenced x deadline ticks (s.create.after pre).nodes →
      Silenced x deadline
        (ticks + post.countP (Traffic.tickAfter (deadline + s.cfg.timeoutMs.toNat)))
        (s.create.after (pre ++ post)).nodes := by
  induction post with
  | nil =>
      intro pre ticks _ _ h
      rwa [List.append_nil]
  | cons t post ih =>
      intro pre ticks hvalid hmention h
      have hknown := s.knownState pre fun t ht => hvalid t (List.mem_append_left _ ht)
      have hnext := h.next hknown (fun e => s.self_ne pre hx) (hmention t List.mem_cons_self)
      rw [(s.create.after_config pre).1] at hnext
      have hstep : t.next (s.create.after pre) = s.create.after (pre ++ [t]) :=
        (s.create.after_append pre [t]).symm
      rw [hstep] at hnext
      rw [List.countP_cons, Nat.add_comm (List.countP _ _), ← Nat.add_assoc,
        List.append_cons]
      exact ih (pre ++ [t]) (by simpa using hvalid)
        (fun t ht => hmention t (List.mem_cons_of_mem _ ht)) hnext

/-- **Known states and silence.** As long as no accepted datagram brings a state other than the
three, all entries are in one of the three. And then a peer that is not mentioned any more, and was
last heard of at `stamp` or before, is DEAD after two ticks past `stamp` and the timeout, and is
nobody's owner. -/
theorem known_states_and_silence (s : NodeSetup) (pre post : List Traffic)
    (hvalid : ∀ t ∈ pre ++ post, t.ValidStates) :
    (∀ e ∈ (s.create.after (pre ++ post)).nodes, e.KnownState) ∧
    ∀ x stamp, x ≠ s.id → (∀ e ∈ (s.create.after pre).nodes, e.id = x → e.lastSeen ≤ stamp) →
      (∀ t ∈ post, ¬ t.Mentions x) →
      2 ≤ post.countP (Traffic.tickAfter (stamp + s.cfg.timeoutMs.toNat)) →
      ∀ e ∈ (s.create.after (pre ++ post)).nodes, e.id = x →
        e.state = nodeStateDead ∧
          ∀ pageId, clusterGetOwner (s.create.after (pre ++ post)) pageId ≠ some e := by
  have hknown := s.knownState (pre ++ post) hvalid
  refine ⟨hknown, fun x stamp hx hstamp hmention hticks e he hid => ?_⟩
  have hstart : Silenced x stamp 0 (s.create.after pre).nodes :=
    .start hstamp (s.knownState pre fun t ht => hvalid t (List.mem_append_left _ ht))
  have hdead := (Silenced.after hx post pre hvalid hmention hstart).dead (by omega) (hknown e he)
    he hid
  refine ⟨hdead, fun pageId howner => ?_⟩
  exact (clusterGetOwner_some howner).2.1 hdead

/-! ## A node with one peer -/

/-- A message as it arrives from node `2` of the trio at moment 110. -/
def fromPeer (msg : GossipMsg) : Traffic :=
  .datagram (sendMsg msg.pack) (trioAddr 2) fun _ => 110

theorem fromPeer_next {msg : GossipMsg} (h : msg.nodes.length ≤ gossipMsgMaxNodes)
    (ctx : ClusterCtx) :
    (fromPeer msg).next ctx = handleGossipMsg ctx msg (trioAddr 2) fun _ => 110 := by
  simp only [fromPeer, Traffic.next, gossipRecv, received_sendMsg h]

theorem known_states_and_silence_joined :
    ∃ e ∈ ((trio 0).create.after ([fromPeer (gossipJoin (trio 2).create.self)] ++
      [.tick 1300, .tick 1550])).nodes, e.id = (trio 2).id ∧ e.state = nodeStateDead := by
  have hjoin : (gossipJoin (trio 2).create.self).nodes.length ≤ gossipMsgMaxNodes := by
    decide +kernel
  have hpre : (trio 0).create.after [fromPeer (gossipJoin (trio 2).create.self)] =
      handleGossipMsg (trio 0).create (gossipJoin (trio 2).create.self) (trioAddr 2) fun _ => 110 :=
    fromPeer_next hjoin _
  have hin : ∃ e ∈ ((trio 0).create.after ([fromPeer (gossipJoin (trio 2).create.self)] ++
      [.tick 1300, .tick 1550])).nodes, e.id = (trio 2).id := by
    rw [ClusterCtx.after_append, hpre]
    decide +kernel
  obtain ⟨e, he, hid⟩ := hin
  refine ⟨e, he, hid, ((known_states_and_silence (trio 0) _ _ ?_).2 (trio 2).id 110
    (by decide +kernel) ?_ ?_ (by decide +kernel) e he hid).1⟩
  · have hmsg : (fromPeer (gossipJoin (trio 2).create.self)).ValidStates := by
      intro msg hmsg
      rw [received_sendMsg hjoin] at hmsg
      obtain rfl := Option.some.inj hmsg
      intro n hn
      obtain rfl := List.mem_singleton.mp hn
      exact .inl rfl
    simpa [Traffic.ValidStates] using hmsg
  · rw [hpre]
    decide +kernel
  · simp [Traffic.Mentions]

/-- A newer incarnation of the trio's node `2`, in a state that does not exist. -/
def strayMsg : GossipMsg :=
  ⟨fillHeader gossipTypePing (trio 2).create.self,
    [{ clusterNodeToGossip (trio 2).create.self with incarnation := 2, state := 7 }]⟩

def strayEntry : ClusterNode :=
  { (trio 2).create.self with lastSeen := 110, incarnation := 2, state := 7 }

theorem ageNode_of_unknown {n : ClusterNode} (h : ¬ n.KnownState) (timeoutMs now : Nat) :
    ageNode timeoutMs now n = n := by
  unfold ageNode
  dsimp only
  rw [if_neg fun halive => h (.inl halive.1), if_neg fun hsuspect => h (.inr (.inl hsuspect.1))]

/-- Node `0` with the stray entry in its table. -/
def strayCtx : ClusterCtx :=
  { (trio 0).create with nodes := [(trio 0).create.self, strayEntry] }

theorem strayEntry_unknown : ¬ strayEntry.KnownState := by
  unfold ClusterNode.KnownState
  decide

theorem strayCtx_received : (trio 0).create.after [fromPeer strayMsg] = strayCtx := by
  have hnodes : (handleGossipMsg (trio 0).create strayMsg (trioAddr 2) fun _ => 110).nodes =
      strayCtx.nodes := by decide +kernel
  show (fromPeer strayMsg).next (trio 0).create = _
  rw [fromPeer_next (by decide), strayCtx]
  exact congrArg (fun nodes => { (trio 0).create with nodes }) hnodes

-- The node itself is not aged and the entry cannot be.
theorem strayCtx_tick (now : Nat) : heartbeatAge strayCtx now = strayCtx := by
  have hage := ageNode_of_unknown strayEntry_unknown strayCtx.cfg.timeoutMs.toNat now
  exact congrArg (fun e => { (trio 0).create with nodes := [(trio 0).create.self, e] }) hage

theorem strayCtx_ticks (ticks : List UInt64) : strayCtx.after (ticks.map .tick) = strayCtx := by
  induction ticks with
  | nil => rfl
  | cons now ticks ih =>
      rw [List.map_cons, ClusterCtx.after, List.foldl_cons, Traffic.next, strayCtx_tick]
      exact ih

/-- **A state that never ages.** One datagram of 76 bytes puts an entry in state 7 into the table of
node `0`. However often and however late the heartbeat ticks from then on, the entry stays as it is
and is returned as the owner of its pages. -/
theorem unknown_state_never_ages :
    strayEntry ∈ ((trio 0).create.after [fromPeer strayMsg]).nodes ∧ ¬ strayEntry.KnownState ∧
    strayEntry.id ≠ (trio 0).id ∧
    ∀ ticks : List UInt64, clusterGetOwner
      (((trio 0).create.after [fromPeer strayMsg]).after (ticks.map .tick)) 9 =
        some strayEntry := by
  rw [strayCtx_received]
  refine ⟨List.mem_cons_of_mem _ List.mem_cons_self, strayEntry_unknown, by decide +kernel, ?_⟩
  intro ticks
  rw [strayCtx_ticks]
  decide +kernel

end Dsm.Cluster
