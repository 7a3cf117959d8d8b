import Dsm.Cluster.Merging

/-!
# Who gets into the table

A node that sends its first datagram is to be in the receiver's table afterwards, ALIVE, with its port
and range. The header's entry is merged first, so this can fail in two ways only. There may be no
room: entries of dead nodes are never removed, and after 64 ids every further one is turned away
without a word (`newcomer_turned_away`). Or the datagram's own list has a newer incarnation of the
sender that says something else. `newcomer_admitted_iff` says exactly when a newcomer is admitted.
-/

namespace Dsm.Cluster

variable {listed nodes : List ClusterNode} {sender n f : ClusterNode}

/-! ## An entry and the list that follows it -/

/-- Among the listed entries, the first one of the highest incarnation of the sender's id, where that
is higher than the sender's own. -/
structure Overrides (listed : List ClusterNode) (sender n : ClusterNode) : Prop where
  id : n.id = sender.id
  newer : sender.incarnation < n.incarnation
  first : ∃ pre post, listed = pre ++ n :: post ∧
    (∀ m ∈ pre, m.id = sender.id → m.incarnation < n.incarnation) ∧
    ∀ m ∈ post, m.id = sender.id → m.incarnation ≤ n.incarnation

namespace Overrides

theorem mem (h : Overrides listed sender n) : n ∈ listed := by
  obtain ⟨pre, post, rfl, -, -⟩ := h.first
  exact List.mem_append_right _ List.mem_cons_self

theorem le (h : Overrides listed sender n) : ∀ m ∈ listed, m.id = sender.id →
    m.incarnation ≤ n.incarnation := by
  obtain ⟨pre, post, rfl, hpre, hpost⟩ := h.first
  intro m hm hid
  rcases List.mem_append.mp hm with hm | hm
  · exact UInt32.le_of_lt (hpre m hm hid)
  · rcases List.mem_cons.mp hm with rfl | hm
    · exact UInt32.le_refl _
    · exact hpost m hm hid

/-- Of two such entries neither comes before the other. -/
theorem unique {n' : ClusterNode} (h : Overrides listed sender n)
    (h' : Overrides listed sender n') : n = n' := by
  have hle := h'.le n h.mem h.id
  have hle' := h.le n' h'.mem h'.id
  obtain ⟨pre, post, heq, hpre, -⟩ := h.first
  obtain ⟨pre', post', heq', hpre', -⟩ := h'.first
  rcases List.append_eq_append_iff.mp (heq.symm.trans heq') with ⟨c, hc, hc'⟩ | ⟨c, hc, hc'⟩
  · cases c with
    | nil => exact (List.cons.inj hc').1
    | cons a c =>
        obtain ⟨rfl, -⟩ := List.cons.inj hc'
        have hmem : n ∈ pre' := hc ▸ List.mem_append_right _ List.mem_cons_self
        exact absurd (hpre' n hmem h.id) (UInt32.not_lt.mpr hle')
  · cases c with
    | nil => exact (List.cons.inj hc').1.symm
    | cons a c =>
        obtain ⟨rfl, -⟩ := List.cons.inj hc'
        have hmem : n' ∈ pre := hc ▸ List.mem_append_right _ List.mem_cons_self
        exact absurd (hpre n' hmem h'.id) (UInt32.not_lt.mpr hle)

theorem snoc_of_le (h : Overrides listed sender n) {m : ClusterNode}
    (hm : m.id = sender.id → m.incarnation ≤ n.incarnation) :
    Overrides (listed ++ [m]) sender n := by
  obtain ⟨pre, post, rfl, hpre, hpost⟩ := h.first
  refine ⟨h.id, h.newer, pre, post ++ [m], by simp, hpre, fun k hk => ?_⟩
  rcases List.mem_append.mp hk with hk | hk
  · exact hpost k hk
  · rw [List.mem_singleton.mp hk]
    exact hm

theorem snoc_of_gt (hid : n.id = sender.id) (hnewer : sender.incarnation < n.incarnation)
    (h : ∀ m ∈ listed, m.id = sender.id → m.incarnation < n.incarnation) :
    Overrides (listed ++ [n]) sender n :=
  ⟨hid, hnewer, listed, [], rfl, h, by simp⟩

end Overrides

/-- Somebody lists the id in this incarnation as ALIVE. -/
def ListedAlive (listed : List ClusterNode) (id : NodeId) (incarnation : UInt32) : Prop :=
  ∃ m ∈ listed, m.id = id ∧ m.incarnation = incarnation ∧ m.state = nodeStateAlive

theorem listedAlive_snoc {id : NodeId} {incarnation : UInt32} (m : ClusterNode) :
    ListedAlive (listed ++ [m]) id incarnation ↔ ListedAlive listed id incarnation ∨
      m.id = id ∧ m.incarnation = incarnation ∧ m.state = nodeStateAlive := by
  simp [ListedAlive, List.mem_append, or_and_right, exists_or]

/-- What the listed entries have made of the entry that came in by the header. -/
inductive Standing (listed : List ClusterNode) (sender f : ClusterNode) : Prop
  | own (data : f.data = sender.data) (alive : f.state = nodeStateAlive)
      (le : ∀ m ∈ listed, m.id = sender.id → m.incarnation ≤ sender.incarnation)
  | overridden (n : ClusterNode) (h : Overrides listed sender n) (data : f.data = n.data)
      (alive : f.state = nodeStateAlive ↔ ListedAlive listed sender.id n.incarnation)

theorem refreshNode_of_lt {existing node : ClusterNode} (h : existing.incarnation < node.incarnation)
    (now : Nat) : (refreshNode existing node now).data = node.data ∧
      (refreshNode existing node now).state = node.state := by
  unfold refreshNode
  rw [if_pos h]
  exact ⟨rfl, rfl⟩

theorem refreshNode_of_gt {existing node : ClusterNode} (h : node.incarnation < existing.incarnation)
    (now : Nat) : refreshNode existing node now = existing := by
  unfold refreshNode
  rw [if_neg (UInt32.lt_asymm h), if_neg (UInt32.ne_of_lt h)]

theorem incarnation_eq (h : f.data = n.data) : f.incarnation = n.incarnation :=
  congrArg NodeData.incarnation h

namespace Standing

/-- No listed entry is newer than what the table has. -/
theorem listed_le (h : Standing listed sender f) : ∀ m ∈ listed, m.id = sender.id →
    m.incarnation ≤ f.incarnation := by
  cases h with
  | own data _ le =>
      have hinc := incarnation_eq data
      rwa [hinc]
  | overridden n hn data _ =>
      have hinc := incarnation_eq data
      rw [hinc]
      exact hn.le

theorem sender_le (h : Standing listed sender f) : sender.incarnation ≤ f.incarnation := by
  cases h with
  | own data _ _ =>
      have hinc := incarnation_eq data
      rw [hinc]
      exact UInt32.le_refl _
  | overridden n hn data _ =>
      have hinc := incarnation_eq data
      rw [hinc]
      exact UInt32.le_of_lt hn.newer

/-- An entry that is not newer, and does not speak of this id and incarnation, changes nothing. -/
theorem skip (h : Standing listed sender f) {m : ClusterNode}
    (hm : m.id = sender.id → m.incarnation < f.incarnation) :
    Standing (listed ++ [m]) sender f := by
  cases h with
  | own data alive le =>
      have hinc := incarnation_eq data
      refine .own data alive fun k hk hid => ?_
      rcases List.mem_append.mp hk with hk | hk
      · exact le k hk hid
      · obtain rfl := List.mem_singleton.mp hk
        exact hinc ▸ UInt32.le_of_lt (hm hid)
  | overridden n hn data alive =>
      have hinc := incarnation_eq data
      rw [hinc] at hm
      refine .overridden n (hn.snoc_of_le fun hid => UInt32.le_of_lt (hm hid)) data ?_
      rw [alive, listedAlive_snoc, or_iff_left]
      rintro ⟨hid, heq, -⟩
      exact absurd (hm hid) (heq ▸ UInt32.lt_irrefl _)

/-- **One more listed entry.** -/
theorem next (h : Standing listed sender f) {m : ClusterNode} (hid : m.id = sender.id) (now : Nat) :
    Standing (listed ++ [m]) sender (refreshNode f m now) := by
  rcases Nat.lt_trichotomy f.incarnation.toNat m.incarnation.toNat with hlt | heq | hgt
  · have hlt : f.incarnation < m.incarnation := UInt32.lt_iff_toNat_lt.mpr hlt
    obtain ⟨hdata, hstate⟩ := refreshNode_of_lt hlt now
    have hall : ∀ k ∈ listed, k.id = sender.id → k.incarnation < m.incarnation :=
      fun k hk hkid => UInt32.lt_of_le_of_lt (h.listed_le k hk hkid) hlt
    refine .overridden m (.snoc_of_gt hid (UInt32.lt_of_le_of_lt h.sender_le hlt) hall) hdata ?_
    rw [hstate, listedAlive_snoc]
    constructor
    · exact fun halive => .inr ⟨hid, rfl, halive⟩
    · rintro (⟨k, hk, hkid, heq, -⟩ | ⟨-, -, halive⟩)
      · exact absurd (hall k hk hkid) (heq ▸ UInt32.lt_irrefl _)
      · exact halive
  · have heq : f.incarnation = m.incarnation := UInt32.toNat_inj.mp heq
    rw [refreshNode_of_eq heq.symm]
    cases h with
    | own data alive le =>
        refine .own data (by simp [alive]) fun k hk hkid => ?_
        rcases List.mem_append.mp hk with hk | hk
        · exact le k hk hkid
        · obtain rfl := List.mem_singleton.mp hk
          have hinc := incarnation_eq data
          rw [← heq, hinc]
          exact UInt32.le_refl _
    | overridden n hn data alive =>
        have hinc := incarnation_eq data
        have hmn : m.incarnation = n.incarnation := heq.symm.trans hinc
        refine .overridden n (hn.snoc_of_le fun _ => hmn ▸ UInt32.le_refl _) data ?_
        rw [listedAlive_snoc, ← alive]
        by_cases hm : m.state = nodeStateAlive
        · simp [hm, hid, hmn]
        · simp [hm]
  · have hgt : m.incarnation < f.incarnation := UInt32.lt_iff_toNat_lt.mpr hgt
    rw [refreshNode_of_gt hgt]
    exact h.skip fun _ => hgt

/-- **The whole list.** -/
theorem merged (rest : List ClusterNode) : ∀ {listed nodes : List ClusterNode} {f : ClusterNode}
    (clock : Nat → Nat), TableIds nodes → entryOf nodes sender.id = some f →
      Standing listed sender f →
      ∃ f', entryOf (mergeAll nodes rest clock) sender.id = some f' ∧
        Standing (listed ++ rest) sender f' := by
  induction rest with
  | nil =>
      intro listed nodes f _ _ hf h
      exact ⟨f, hf, by rwa [List.append_nil]⟩
  | cons m rest ih =>
      intro listed nodes f clock hids hf h
      rw [List.append_cons]
      by_cases hid : m.id = sender.id
      · rw [← hid] at hf
        have hf' := entryOf_mergeNode_of_some hids (clock 0) hf
        rw [hid] at hf'
        exact ih _ (hids.mergeNode m _) hf' (h.next hid _)
      · have hf' := entryOf_mergeNode_of_ne hids (clock 0) (Ne.symm hid)
        exact ih _ (hids.mergeNode m _) (hf'.trans hf) (h.skip fun heq => absurd heq hid)

end Standing

/-! ## Newcomers -/

/-- What the entry says in the end is what the header said, unless the list contradicts it. -/
theorem Standing.agrees_iff {msg : GossipMsg} {source : SockAddr}
    (h : Standing listed (senderNode msg source) f) :
    (f.state = nodeStateAlive ∧ f.clientPort = msg.hdr.senderClientPort ∧
      f.rangeStart = msg.hdr.senderRangeStart ∧ f.rangeEnd = msg.hdr.senderRangeEnd) ↔
    ∀ n, Overrides listed (senderNode msg source) n →
      n.clientPort = msg.hdr.senderClientPort ∧ n.rangeStart = msg.hdr.senderRangeStart ∧
      n.rangeEnd = msg.hdr.senderRangeEnd ∧ ListedAlive listed msg.hdr.senderId n.incarnation := by
  cases h with
  | own data alive le =>
      refine iff_of_true ?_ fun n hn => ?_
      · exact ⟨alive, congrArg NodeData.clientPort data, congrArg NodeData.rangeStart data,
          congrArg NodeData.rangeEnd data⟩
      · exact absurd hn.newer (UInt32.not_lt.mpr (le n hn.mem hn.id))
  | overridden n hn data alive =>
      have hport : f.clientPort = n.clientPort := congrArg NodeData.clientPort data
      have hstart : f.rangeStart = n.rangeStart := congrArg NodeData.rangeStart data
      have hend : f.rangeEnd = n.rangeEnd := congrArg NodeData.rangeEnd data
      rw [alive, hport, hstart, hend]
      constructor
      · rintro ⟨halive, hport, hstart, hend⟩ n' hn'
        obtain rfl := hn.unique hn'
        exact ⟨hport, hstart, hend, halive⟩
      · intro hall
        obtain ⟨hport, hstart, hend, halive⟩ := hall n hn
        exact ⟨halive, hport, hstart, hend⟩

/-- The sender of the message is in the table, ALIVE, with its client port and range. -/
def Admitted (msg : GossipMsg) (nodes : List ClusterNode) : Prop :=
  ∃ e ∈ nodes, e.id = msg.hdr.senderId ∧ e.state = nodeStateAlive ∧
    e.clientPort = msg.hdr.senderClientPort ∧ e.rangeStart = msg.hdr.senderRangeStart ∧
    e.rangeEnd = msg.hdr.senderRangeEnd

instance (msg : GossipMsg) (nodes : List ClusterNode) : Decidable (Admitted msg nodes) :=
  inferInstanceAs (Decidable (∃ e ∈ nodes, _))

/-- A full table takes no new id. -/
theorem mergeAll_full (merged : List ClusterNode) : ∀ {nodes : List ClusterNode} (clock : Nat → Nat),
    ¬ nodes.length < clusterMaxNodes →
    (mergeAll nodes merged clock).map ClusterNode.id = nodes.map ClusterNode.id := by
  induction merged with
  | nil => exact fun _ _ => rfl
  | cons m rest ih =>
      intro nodes clock hfull
      have hids : (mergeNode nodes m (clock 0)).map ClusterNode.id = nodes.map ClusterNode.id :=
        (mergeNode_ids nodes m (clock 0)).resolve_right fun hnew => hfull hnew.2.2
      have hlen : (mergeNode nodes m (clock 0)).length = nodes.length := by
        simpa using congrArg List.length hids
      exact (ih _ (hlen ▸ hfull)).trans hids

/-- **When a newcomer is admitted.** In every reachable table, whatever the datagram: a sender that is
not in the table yet is admitted if and only if the table has fewer than 64 entries, dead ones
counted, and the list of the datagram does not contradict its header, that is, the first listed entry
of the highest incarnation of the sender, if that is above the header's, has the same client port and
range, and some listed entry of this incarnation is ALIVE. -/
theorem newcomer_admitted_iff (s : NodeSetup) (traffic : List Traffic) {bytes : Bytes}
    {msg : GossipMsg} (hmsg : received bytes = some msg)
    (hnew : ∀ e ∈ (s.create.after traffic).nodes, e.id ≠ msg.hdr.senderId) (source : SockAddr)
    (times : Nat → Nat) :
    Admitted msg (gossipRecv (s.create.after traffic) bytes source times).nodes ↔
      (s.create.after traffic).nodes.length < clusterMaxNodes ∧
      ∀ n, Overrides (msg.nodes.map gossipNodeToCluster) (senderNode msg source) n →
        n.clientPort = msg.hdr.senderClientPort ∧ n.rangeStart = msg.hdr.senderRangeStart ∧
        n.rangeEnd = msg.hdr.senderRangeEnd ∧
        ListedAlive (msg.nodes.map gossipNodeToCluster) msg.hdr.senderId n.incarnation := by
  have hids := (TableIds.create s).after traffic
  have hnodes : (gossipRecv (s.create.after traffic) bytes source times).nodes =
      mergeAll (s.create.after traffic).nodes (msg.entries source) times := by
    simp only [gossipRecv, hmsg, handleGossipMsg]
  rw [hnodes]
  by_cases hroom : (s.create.after traffic).nodes.length < clusterMaxNodes
  · -- The header's entry is appended, then the list is merged.
    have hfirst := entryOf_mergeNode_of_none hids (times 0)
      (show entryOf _ (senderNode msg source).id = none from hids.entryOf_none_iff.mpr hnew) hroom
    have hstart : Standing [] (senderNode msg source)
        { senderNode msg source with lastSeen := times 0 } := .own rfl rfl (by simp)
    obtain ⟨f, hf, hstanding⟩ := hstart.merged (msg.nodes.map gossipNodeToCluster)
      (fun k => times (k + 1)) (hids.mergeNode _ _) hfirst
    rw [List.nil_append] at hstanding
    have hids' := TableIds.mergeAll (msg.entries source) times hids
    rw [← hstanding.agrees_iff, and_iff_right hroom]
    constructor
    · rintro ⟨e, he, hid, hagrees⟩
      have he' := hids'.entryOf_iff.mpr ⟨he, hid⟩
      obtain rfl := Option.some.inj (hf.symm.trans he')
      exact hagrees
    · intro hagrees
      obtain ⟨hmem, hid⟩ := hids'.entryOf_iff.mp hf
      exact ⟨f, hmem, hid, hagrees⟩
  · have hsame := mergeAll_full (msg.entries source) times hroom
    refine iff_of_false ?_ fun h => hroom h.1
    rintro ⟨e, he, hid, -⟩
    have hmem : e.id ∈ (s.create.after traffic).nodes.map ClusterNode.id :=
      hsame ▸ List.mem_map_of_mem he
    obtain ⟨e', he', hid'⟩ := List.mem_map.mp hmem
    exact hnew e' he' (hid'.trans hid)

theorem newcomer_admitted_trio :
    Admitted (gossipJoin (trio 2).create.self) (gossipRecv ((trio 0).create.after [])
      (sendMsg (gossipJoin (trio 2).create.self).pack) (trioAddr 2) fun _ => 110).nodes := by
  have hmsg : received (sendMsg (gossipJoin (trio 2).create.self).pack) =
      some (gossipJoin (trio 2).create.self) := received_sendMsg (by decide)
  refine (newcomer_admitted_iff (trio 0) [] hmsg (by decide +kernel) _ _).mpr
    ⟨by decide +kernel, fun n hn => ?_⟩
  obtain rfl := List.mem_singleton.mp hn.mem
  exact absurd hn.newer (by decide +kernel)

/-! ## A long history -/

theorem mergeNode_eq_self {e node : ClusterNode} {i now : Nat}
    (hfind : findNodeById nodes node.id = some i) (he : nodes[i]? = some e)
    (hsame : refreshNode e node now = e) : mergeNode nodes node now = nodes := by
  simp only [mergeNode, hfind]
  apply List.ext_getElem?
  intro j
  rw [List.getElem?_modify]
  by_cases hj : i = j
  · subst hj
    simp [he, hsame]
  · simp [hj]

/-- A JOIN from a new node, where there is room, appends the node: the header brings the entry, and
the listed one confirms it. -/
theorem handleGossipMsg_join {ctx : ClusterCtx} {self : ClusterNode} {source : SockAddr}
    (hsource : source = ⟨self.addr, self.clusterPort⟩) (halive : self.state = nodeStateAlive)
    (hnew : ∀ e ∈ ctx.nodes, e.id ≠ self.id) (hroom : ctx.nodes.length < clusterMaxNodes)
    (now : Nat) :
    handleGossipMsg ctx (gossipJoin self) source (fun _ => now) =
      { ctx with nodes := ctx.nodes ++ [{ self with lastSeen := now }] } := by
  subst hsource
  have habsent := findNodeById_of_absent hnew
  have hheader : mergeNode ctx.nodes
      (senderNode (gossipJoin self) ⟨self.addr, self.clusterPort⟩) now =
        ctx.nodes ++ [{ self with lastSeen := now }] := by
    simp only [mergeNode, senderNode, gossipJoin, fillHeader, habsent, if_pos hroom, halive]
  have hfind : findNodeById (ctx.nodes ++ [{ self with lastSeen := now }]) self.id =
      some ctx.nodes.length := by
    rw [findNodeById] at habsent ⊢
    simp [List.findIdx?_append, habsent]
  have hlisted : mergeNode (ctx.nodes ++ [{ self with lastSeen := now }])
      (gossipNodeToCluster (clusterNodeToGossip self)) now =
        ctx.nodes ++ [{ self with lastSeen := now }] := by
    refine mergeNode_eq_self hfind (List.getElem?_concat_length) ?_
    unfold refreshNode
    simp [gossipNodeToCluster, clusterNodeToGossip, halive]
  show { ctx with nodes := mergeNode (mergeNode ctx.nodes _ now) _ now } = _
  rw [hheader, hlisted]

/-- A node that comes and goes. -/
def visitor (i : Nat) : NodeSetup :=
  { trio 0 with
    cfg := { (trio 0).cfg with nodeId := some [i.toUInt8] }
    localAddr := i.toUInt32 }

theorem visitor_id_injective {i j : Nat} (hi : i < 256) (hj : j < 256)
    (h : (visitor i).id = (visitor j).id) : i = j := by
  have hfirst : ∀ k, (visitor k).id[0] = k.toUInt8 := by
    intro k
    simp [NodeSetup.id, NodeSetup.create, clusterCreate, visitor, idOfName]
  have hbyte : i.toUInt8 = j.toUInt8 := by rw [← hfirst i, ← hfirst j, h]
  simpa [Nat.mod_eq_of_lt hi, Nat.mod_eq_of_lt hj] using congrArg UInt8.toNat hbyte

def visitorJoin (i : Nat) : Bytes := sendMsg (gossipJoin (visitor i).create.self).pack

theorem received_visitorJoin (i : Nat) :
    received (visitorJoin i) = some (gossipJoin (visitor i).create.self) :=
  received_sendMsg (show 1 ≤ gossipMsgMaxNodes by decide)

/-- The JOINs of some visitors. -/
def visits (is : List Nat) : List Traffic :=
  is.map fun i => .datagram (visitorJoin i) ⟨i.toUInt32, 10999⟩ fun _ => 110

/-- What the table has of a visitor after its JOIN. -/
def visitorEntry (i : Nat) : ClusterNode := { (visitor i).create.self with lastSeen := 110 }

theorem after_visits (is : List Nat) {ctx : ClusterCtx}
    (hdistinct : ((ctx.nodes ++ is.map visitorEntry).map ClusterNode.id).Nodup)
    (hroom : ctx.nodes.length + is.length ≤ clusterMaxNodes) :
    ctx.after (visits is) = { ctx with nodes := ctx.nodes ++ is.map visitorEntry } := by
  induction is generalizing ctx with
  | nil => simp [visits, ClusterCtx.after]
  | cons i is ih =>
      rw [List.length_cons] at hroom
      have hnew : ∀ e ∈ ctx.nodes, e.id ≠ (visitor i).id := by
        intro e he
        rw [List.map_append, List.nodup_append] at hdistinct
        exact hdistinct.2.2 _ (List.mem_map_of_mem he) _ List.mem_cons_self
      have hnext : Traffic.next ctx (.datagram (visitorJoin i) ⟨i.toUInt32, 10999⟩ fun _ => 110) =
          { ctx with nodes := ctx.nodes ++ [visitorEntry i] } := by
        simp only [Traffic.next, gossipRecv, received_visitorJoin]
        exact handleGossipMsg_join rfl rfl hnew (by omega) 110
      have hlist : ctx.nodes ++ (i :: is).map visitorEntry =
          ctx.nodes ++ [visitorEntry i] ++ is.map visitorEntry := by simp
      rw [hlist] at hdistinct ⊢
      have hroom' : (ctx.nodes ++ [visitorEntry i]).length + is.length ≤ clusterMaxNodes := by
        rw [List.length_append, List.length_singleton]
        omega
      rw [visits, List.map_cons, ClusterCtx.after, List.foldl_cons, hnext]
      exact @ih { ctx with nodes := ctx.nodes ++ [visitorEntry i] } hdistinct hroom'

/-- Node `0` after the visits of 63 nodes and two ticks of the heartbeat. -/
def crowded : ClusterCtx :=
  (visitor 0).create.after (visits (List.range' 1 63) ++ [.tick 1300, .tick 1550])

theorem crowded_eq : crowded = heartbeatAge (heartbeatAge
    { (visitor 0).create with
      nodes := (visitor 0).create.nodes ++ (List.range' 1 63).map visitorEntry } 1300) 1550 := by
  have hids : (((visitor 0).create.nodes ++ (List.range' 1 63).map visitorEntry).map
      ClusterNode.id) = (List.range 64).map fun i => (visitor i).id := rfl
  have hdistinct : ((List.range 64).map fun i => (visitor i).id).Nodup := by
    refine List.Nodup.map_on (fun i hi j hj h => ?_) List.nodup_range
    rw [List.mem_range] at hi hj
    exact visitor_id_injective (by omega) (by omega) h
  rw [crowded, ClusterCtx.after_append, after_visits _ (hids ▸ hdistinct) (by decide)]
  rfl

/-- **Newcomers that are turned away.** 63 nodes join node `0` and are gone; after two ticks all of them
are DEAD, and the node itself is the only one in its table that is not. The next node that joins is
not admitted. Nor is one that finds room, but whose first datagram lists it in a newer incarnation
and another state. -/
theorem newcomer_turned_away :
    ((∃ traffic, crowded = (visitor 0).create.after traffic) ∧
      crowded.nodes.countP (fun e => e.state ≠ nodeStateDead) = 1 ∧
      (∀ e ∈ crowded.nodes, e.id ≠ (visitor 64).id) ∧
      received (visitorJoin 64) = some (gossipJoin (visitor 64).create.self) ∧
      ¬ Admitted (gossipJoin (visitor 64).create.self)
        (gossipRecv crowded (visitorJoin 64) ⟨64, 10999⟩ fun _ => 1600).nodes) ∧
    ((trio 0).create.nodes.length = 1 ∧
      (∀ e ∈ (trio 0).create.nodes, e.id ≠ strayMsg.hdr.senderId) ∧
      ¬ Admitted strayMsg ((trio 0).create.after [fromPeer strayMsg]).nodes) := by
  constructor
  · refine ⟨⟨_, rfl⟩, ?_⟩
    rw [crowded_eq]
    simp only [gossipRecv, received_visitorJoin, true_and]
    decide +kernel
  · rw [strayCtx_received]
    decide +kernel

end Dsm.Cluster
