import Dsm.Cluster.Ownership

/-!
# A node that comes back

The processes of a run need not have different ids: a node that is stopped and started again under
its `DSM_NODE_ID` is two processes with one id, the first of which no longer moves. `merge_node`
replaces an entry only for a higher incarnation, and `cluster_create` gives every process
incarnation 1. So what a table says about an id, the liveness apart, is what it was told first: the
address, port and range of a process that may be long gone.
-/

namespace Dsm.Cluster

open Dsm.Lib (Run)

/-- The entry without what liveness is about. -/
def ClusterNode.identity (e : ClusterNode) : ClusterNode := { e with lastSeen := 0, state := 0 }

theorem ClusterNode.id_of_identity {e e' : ClusterNode} (h : e'.identity = e.identity) :
    e'.id = e.id := by
  have hid : e'.identity.id = e.identity.id := by rw [h]
  exact hid

theorem identity_refreshNode {old node : ClusterNode} (h : node.incarnation = old.incarnation)
    (now : Nat) : (refreshNode old node now).identity = old.identity := by
  rw [refreshNode_of_eq h]
  rfl

theorem identity_ageNode (timeoutMs now : Nat) (e : ClusterNode) :
    (ageNode timeoutMs now e).identity = e.identity := by
  obtain ⟨state, hage, -⟩ := ageNode_cases timeoutMs now e
  rw [hage]
  rfl

/-- Between processes of this code all incarnations are 1. -/
theorem mergeNode_incarnation {nodes : List ClusterNode} {node : ClusterNode} (now : Nat)
    (hnodes : ∀ e ∈ nodes, e.incarnation = 1) (hnode : node.incarnation = 1) :
    ∀ e ∈ mergeNode nodes node now, e.incarnation = 1 := by
  intro e he
  obtain ⟨i, hi⟩ := List.mem_iff_getElem?.mp he
  rcases getElem?_mergeNode hi with hold | ⟨old, hold, -, rfl⟩ | ⟨-, rfl, -⟩
  · exact hnodes e (List.mem_of_getElem? hold)
  · have hold' := hnodes old (List.mem_of_getElem? hold)
    rw [refreshNode_of_eq (hnode.trans hold'.symm)]
    exact hold'
  · exact hnode

/-! ## What a table says about an id -/

/-- The two tables say the same about `x`, and they do say something. -/
structure SameView (x : NodeId) (nodes nodes' : List ClusterNode) : Prop where
  present : ∃ e ∈ nodes, e.id = x
  back : ∀ e' ∈ nodes', e'.id = x → ∃ e ∈ nodes, e'.identity = e.identity
  forth : ∀ e ∈ nodes, e.id = x → ∃ e' ∈ nodes', e'.identity = e.identity

namespace SameView

variable {x : NodeId} {nodes nodes' nodes'' : List ClusterNode}

theorem refl (h : ∃ e ∈ nodes, e.id = x) : SameView x nodes nodes :=
  ⟨h, fun e he _ => ⟨e, he, rfl⟩, fun e he _ => ⟨e, he, rfl⟩⟩

theorem present' (h : SameView x nodes nodes') : ∃ e ∈ nodes', e.id = x := by
  obtain ⟨e, he, hid⟩ := h.present
  obtain ⟨e', he', heq⟩ := h.forth e he hid
  exact ⟨e', he', (ClusterNode.id_of_identity heq).trans hid⟩

theorem trans (h₁ : SameView x nodes nodes') (h₂ : SameView x nodes' nodes'') :
    SameView x nodes nodes'' := by
  refine ⟨h₁.present, ?_, ?_⟩
  · intro e'' he'' hid
    obtain ⟨e', he', heq'⟩ := h₂.back e'' he'' hid
    obtain ⟨e, he, heq⟩ := h₁.back e' he' ((ClusterNode.id_of_identity heq').symm.trans hid)
    exact ⟨e, he, heq'.trans heq⟩
  · intro e he hid
    obtain ⟨e', he', heq⟩ := h₁.forth e he hid
    obtain ⟨e'', he'', heq'⟩ := h₂.forth e' he' ((ClusterNode.id_of_identity heq).trans hid)
    exact ⟨e'', he'', heq'.trans heq⟩

/-- Merging entries of the incarnation that is stored everywhere. -/
theorem mergeNode (h : ∃ e ∈ nodes, e.id = x) {node : ClusterNode} (now : Nat)
    (hinc : ∀ e ∈ nodes, node.incarnation = e.incarnation) :
    SameView x nodes (mergeNode nodes node now) := by
  refine ⟨h, ?_, ?_⟩
  · intro e' he' hid
    obtain ⟨i, hi⟩ := List.mem_iff_getElem?.mp he'
    rcases getElem?_mergeNode hi with hold | ⟨old, hold, -, rfl⟩ | ⟨-, rfl, hnew⟩
    · exact ⟨e', List.mem_of_getElem? hold, rfl⟩
    · have hmem := List.mem_of_getElem? hold
      exact ⟨old, hmem, identity_refreshNode (hinc old hmem) now⟩
    · -- The table already has an entry for `x`, so the appended one has another id.
      obtain ⟨e, he, hex⟩ := h
      exact absurd (hex.trans hid.symm) (hnew e he)
  · intro e he hid
    obtain ⟨i, hi⟩ := List.mem_iff_getElem?.mp he
    obtain ⟨e', he', -⟩ := mergeNode_keeps_id node now hi
    refine ⟨e', List.mem_of_getElem? he', ?_⟩
    rcases getElem?_mergeNode he' with hold | ⟨old, hold, -, rfl⟩ | ⟨hlen, -, -⟩
    · rw [hi] at hold
      rw [Option.some.inj hold]
    · rw [hi] at hold
      obtain rfl := Option.some.inj hold
      exact identity_refreshNode (hinc e he) now
    · have := (List.getElem?_eq_some_iff.mp hi).1
      omega

theorem mergeAll (merged : List ClusterNode) : ∀ {nodes : List ClusterNode} (clock : Nat → Nat),
    (∃ e ∈ nodes, e.id = x) → (∀ e ∈ nodes, e.incarnation = 1) →
    (∀ m ∈ merged, m.incarnation = 1) → SameView x nodes (mergeAll nodes merged clock) := by
  induction merged with
  | nil => exact fun _ h _ _ => refl h
  | cons m rest ih =>
      intro nodes clock h hnodes hmerged
      have hm := hmerged m List.mem_cons_self
      have hfirst : SameView x nodes (Cluster.mergeNode nodes m (clock 0)) :=
        mergeNode h (clock 0) fun e he => hm.trans (hnodes e he).symm
      exact hfirst.trans (ih _ hfirst.present' (mergeNode_incarnation _ hnodes hm) fun m' hm' =>
        hmerged m' (List.mem_cons_of_mem _ hm'))

theorem age (ctx : ClusterCtx) (now : Nat) (h : ∃ e ∈ ctx.nodes, e.id = x) :
    SameView x ctx.nodes (heartbeatAge ctx now).nodes := by
  have haged : ∀ (i : Nat) (e : ClusterNode),
      (if i = ctx.selfIdx then e else ageNode ctx.cfg.timeoutMs.toNat now e).identity =
        e.identity := by
    intro i e
    split
    · rfl
    · exact identity_ageNode _ _ e
  refine ⟨h, ?_, ?_⟩
  · intro e' he' _
    obtain ⟨i, hi⟩ := List.mem_iff_getElem?.mp he'
    rw [getElem?_heartbeatAge] at hi
    obtain ⟨e, he, rfl⟩ := Option.map_eq_some_iff.mp hi
    exact ⟨e, List.mem_of_getElem? he, haged i e⟩
  · intro e he _
    obtain ⟨i, hi⟩ := List.mem_iff_getElem?.mp he
    refine ⟨_, List.mem_of_getElem? (i := i) ?_, haged i e⟩
    rw [getElem?_heartbeatAge, hi]
    rfl

end SameView

/-! ## Whole runs -/

variable {ι : Type*} {setup : ι → NodeSetup} [DecidableEq ι]

theorem NetRun.incarnation {es : List (ι × Act)} {net : Net ι}
    (h : NetRun (Net.boot setup) es net) : net.Everywhere fun e => e.incarnation = 1 := by
  obtain ⟨htables, hsent⟩ := NetRun.configured h
  refine ⟨fun i e he => ?_, fun d hd source e he => ?_⟩
  · obtain ⟨x, hx⟩ := htables i e he
    exact hx.incarnation
  · obtain ⟨x, hx⟩ := hsent d hd source e he
    exact hx.incarnation

/-- Once a node has an entry for `x`, no step of the network changes what the entry says. -/
theorem SameView.netStep {pre : List (ι × Act)} {net net' : Net ι} {e : ι × Act}
    (hpre : NetRun (Net.boot setup) pre net) (hstep : NetStep net e net') (a : ι) {x : NodeId}
    (h : ∃ n ∈ (net.node a).ctx.nodes, n.id = x) :
    SameView x (net.node a).ctx.nodes (net'.node a).ctx.nodes := by
  obtain ⟨i, act⟩ := e
  obtain ⟨hact, rfl⟩ := hstep
  by_cases hi : a = i
  · subst hi
    rw [Net.act_node_self]
    obtain ⟨htables, hsent⟩ := NetRun.incarnation hpre
    rcases Act.next_nodes hact with hn | ⟨d, source, times, -, hd, hn⟩ | ⟨now, -, -, hn⟩
    · rw [hn]
      exact SameView.refl h
    · rw [hn]
      exact SameView.mergeAll _ times h (htables a) (hsent d hd source)
    · rw [hn]
      exact SameView.age _ now h
  · rw [Net.act_node_ne _ hi]
    exact SameView.refl h

theorem SameView.netRun {es : List (ι × Act)} {net net' : Net ι} (hrun : NetRun net es net')
    (a : ι) {x : NodeId} : ∀ {pre : List (ι × Act)}, NetRun (Net.boot setup) pre net →
      (∃ n ∈ (net.node a).ctx.nodes, n.id = x) →
      SameView x (net.node a).ctx.nodes (net'.node a).ctx.nodes := by
  induction hrun with
  | nil _ => exact fun _ h => SameView.refl h
  | cons hstep _ ih =>
      intro pre hpre h
      have hfirst := SameView.netStep hpre hstep a h
      exact hfirst.trans (ih (hpre.snoc hstep) hfirst.present')

/-! ## Learning about the current process -/

/-- The entry carries the address, client port and range of this process. -/
def NodeSetup.Current (s : NodeSetup) (e : ClusterNode) : Prop :=
  e.addr = s.localAddr ∧ e.clientPort = s.clientPort ∧ e.rangeStart = s.cfg.pageRangeStart ∧
    e.rangeEnd = s.cfg.pageRangeEnd

instance (s : NodeSetup) (e : ClusterNode) : Decidable (s.Current e) :=
  inferInstanceAs (Decidable (_ ∧ _))

/-- What the table says about a process's id is right. -/
def NodeSetup.KnownBy (s : NodeSetup) (nodes : List ClusterNode) : Prop :=
  ∀ e ∈ nodes, e.id = s.id → s.Current e

instance (s : NodeSetup) (nodes : List ClusterNode) : Decidable (s.KnownBy nodes) :=
  inferInstanceAs (Decidable (∀ e ∈ nodes, e.id = s.id → s.Current e))

theorem NodeSetup.current_congr {s : NodeSetup} {e e' : ClusterNode}
    (h : e'.identity = e.identity) : s.Current e' ↔ s.Current e := by
  have hcurrent : ∀ n : ClusterNode, s.Current n ↔ s.Current n.identity := fun _ => Iff.rfl
  rw [hcurrent e', hcurrent e, h]

theorem SameView.knownBy_iff {s : NodeSetup} {nodes nodes' : List ClusterNode}
    (h : SameView s.id nodes nodes') : s.KnownBy nodes' ↔ s.KnownBy nodes := by
  constructor
  · intro hknown e he hid
    obtain ⟨e', he', heq⟩ := h.forth e he hid
    exact (NodeSetup.current_congr heq).mp
      (hknown e' he' ((ClusterNode.id_of_identity heq).trans hid))
  · intro hknown e' he' hid
    obtain ⟨e, he, heq⟩ := h.back e' he' hid
    exact (NodeSetup.current_congr heq).mpr
      (hknown e he ((ClusterNode.id_of_identity heq).symm.trans hid))

/-- The entry in the header of what a process sends, as it arrives from the process's address. -/
theorem NodeSetup.current_sender {s : NodeSetup} {type : UInt8} {msg : GossipMsg}
    {source : SockAddr} (hmsg : msg.hdr = fillHeader type s.create.self)
    (hsource : source.addr = s.localAddr) :
    (senderNode msg source).id = s.id ∧ s.Current (senderNode msg source) := by
  unfold NodeSetup.Current senderNode
  rw [hmsg]
  exact ⟨rfl, hsource, rfl, rfl, rfl⟩

/-- The header of a datagram is merged first. A table with room then has an entry for the sender's
id, which is the sender's own unless there was one before. -/
theorem mergeNode_learns {nodes : List ClusterNode} (node : ClusterNode) (now : Nat)
    (hroom : nodes.length < clusterMaxNodes) :
    (∃ e ∈ mergeNode nodes node now, e.id = node.id) ∧
      ((∀ e ∈ nodes, e.id ≠ node.id) →
        ∀ e ∈ mergeNode nodes node now, e.id = node.id → e.identity = node.identity) := by
  constructor
  · cases hfind : findNodeById nodes node.id with
    | none =>
        refine ⟨{ node with lastSeen := now }, ?_, rfl⟩
        simp only [mergeNode, hfind, if_pos hroom]
        exact List.mem_append_right _ (List.mem_singleton_self _)
    | some idx =>
        obtain ⟨old, hold, hid⟩ := findNodeById_some hfind
        obtain ⟨e, he, heid⟩ := mergeNode_keeps_id node now hold
        exact ⟨e, List.mem_of_getElem? he, heid.trans hid⟩
  · intro habsent e he hid
    obtain ⟨i, hi⟩ := List.mem_iff_getElem?.mp he
    rcases getElem?_mergeNode hi with hold | ⟨old, hold, hold', -⟩ | ⟨-, rfl, -⟩
    · exact absurd hid (habsent e (List.mem_of_getElem? hold))
    · exact absurd hold' (habsent old (List.mem_of_getElem? hold))
    · rfl

/-- **When a restarted node is relearned.** Process `x` sends a datagram; node `a`, whose table is
not full, handles it as it comes from `x`'s address. From then on, for as long as the run goes on,
`a` has an entry for the id of `x`; and it carries the address, port and range of `x` exactly if `a`
had nothing else under that id before it handled the datagram. -/
theorem restarted_relearned_iff (setup : ι → NodeSetup) (a x : ι)
    {pre mid post : List (ι × Act)} {net₀ net₁ net₂ net₃ net : Net ι} {act : Act} {d : Datagram}
    {source : SockAddr} {times : Nat → Nat} (hpre : NetRun (Net.boot setup) pre net₀)
    (hsend : NetStep net₀ (x, act) net₁) (hd : d ∈ act.emits (net₀.node x))
    (hmid : NetRun net₁ mid net₂) (hdeliver : NetStep net₂ (a, .deliver d source times) net₃)
    (hsource : source.addr = (setup x).localAddr)
    (hroom : (net₂.node a).ctx.nodes.length < clusterMaxNodes) (hpost : NetRun net₃ post net) :
    (∃ e ∈ (net.node a).ctx.nodes, e.id = (setup x).id) ∧
      ((setup x).KnownBy (net.node a).ctx.nodes ↔ (setup x).KnownBy (net₂.node a).ctx.nodes) := by
  have hrun₂ : NetRun (Net.boot setup) (pre ++ [(x, act)] ++ mid) net₂ :=
    (hpre.snoc hsend).append hmid
  -- The datagram's header describes `x`.
  obtain ⟨type, hhdr, -⟩ := Act.emits_entries hd
  rw [(NetRun.config hpre x).1] at hhdr
  obtain ⟨hid, hcurrent⟩ := NodeSetup.current_sender hhdr hsource
  by_cases hbefore : ∃ e ∈ (net₂.node a).ctx.nodes, e.id = (setup x).id
  · have hview := (SameView.netStep hrun₂ hdeliver a hbefore)
    have hview' := hview.trans (SameView.netRun hpost a (hrun₂.snoc hdeliver) hview.present')
    exact ⟨hview'.present', hview'.knownBy_iff⟩
  · -- The header makes a new entry; nothing after it changes what the entry says.
    have habsent : ∀ e ∈ (net₂.node a).ctx.nodes, e.id ≠ (senderNode d.msg source).id :=
      fun e he heq => hbefore ⟨e, he, heq.trans hid⟩
    obtain ⟨htables, hmsgs⟩ := NetRun.incarnation hrun₂
    have hentries := hmsgs d hdeliver.1.1 source
    obtain ⟨hpresent, hfresh⟩ := mergeNode_learns (senderNode d.msg source) (times 0) hroom
    rw [hid] at hpresent
    have hbody : SameView (setup x).id
        (mergeNode (net₂.node a).ctx.nodes (senderNode d.msg source) (times 0))
        (net₃.node a).ctx.nodes := by
      rw [hdeliver.2, Net.act_node_self]
      exact SameView.mergeAll _ (fun k => times (k + 1)) hpresent
        (mergeNode_incarnation _ (htables a) (hentries _ List.mem_cons_self))
        fun m hm => hentries m (List.mem_cons_of_mem _ hm)
    have hview := hbody.trans (SameView.netRun hpost a (hrun₂.snoc hdeliver) hbody.present')
    refine ⟨hview.present', iff_of_true (hview.knownBy_iff.mpr ?_) ?_⟩
    · intro e he heid
      have hidentity := hfresh habsent e he (heid.trans hid.symm)
      exact (NodeSetup.current_congr hidentity).mpr hcurrent
    · exact fun e he heid => absurd ⟨e, he, heid⟩ hbefore

/-! ## A node and the two lives of its peer -/

/-- Processes `1` and `2` have the same id, but not the same address or range. -/
def reborn (i : Fin 3) : NodeSetup :=
  { trio i with cfg := { (trio i).cfg with nodeId := some [if i = 0 then 0 else 1] } }

/-- Process `i` joins through node `0`, which handles the JOIN at moment `now`. -/
def joins (i : Fin 3) (now : Nat) : List (Fin 3 × Act) :=
  [(i, .join (trioAddr 0)),
    (0, .deliver ⟨trioAddr 0, gossipJoin (reborn i).create.self⟩ (trioAddr i) fun _ => now)]

def firstLife : List (Fin 3 × Act) := joins 1 110 ++ [(0, .reply)]

theorem firstLife_run :
    NetRun (Net.boot reborn) firstLife ((Net.boot reborn).play firstLife) := by
  refine .cons ⟨trivial, rfl⟩ (.cons ⟨Act.enabled_deliver _ _ ?_ rfl ?_ ?_, rfl⟩
    (.cons ⟨Option.some_ne_none (trioAddr 1), rfl⟩ (.nil _)))
  all_goals decide

theorem restarted_relearned_iff_unknown : ∃ net, NetRun (Net.boot reborn) (joins 2 120) net ∧
    ((net.node 0).ctx.nodes.any fun e => e.id = (reborn 2).id) ∧
      (reborn 2).KnownBy (net.node 0).ctx.nodes := by
  have hsend : NetStep (Net.boot reborn) (2, .join (trioAddr 0))
      ((Net.boot reborn).play [(2, .join (trioAddr 0))]) := ⟨trivial, rfl⟩
  have hdeliver : NetStep ((Net.boot reborn).play [(2, .join (trioAddr 0))])
      (0, .deliver ⟨trioAddr 0, gossipJoin (reborn 2).create.self⟩ (trioAddr 2) fun _ => 120)
      ((Net.boot reborn).play (joins 2 120)) := by
    refine ⟨Act.enabled_deliver _ _ ?_ rfl ?_ ?_, rfl⟩
    all_goals decide
  obtain ⟨⟨e, he, hid⟩, hknown⟩ := restarted_relearned_iff reborn 0 2 (.nil _) hsend
    (List.mem_singleton_self _) (.nil _) hdeliver rfl (by decide) (.nil _)
  refine ⟨_, .cons hsend (.cons hdeliver (.nil _)), ?_, hknown.mpr (by decide +kernel)⟩
  exact List.any_eq_true.mpr ⟨e, he, decide_eq_true hid⟩

/-- **A restart that goes unnoticed.** Process `1` has joined and stopped. Process `2`, the same node
at another address and with another range, joins; node `0` goes on with the entry of process `1`. -/
theorem restart_unnoticed : ∃ net net', NetRun (Net.boot reborn) firstLife net ∧
    NetRun net (joins 2 120) net' ∧ (reborn 1).id = (reborn 2).id ∧
    (net.node 0).ctx.nodes.length < clusterMaxNodes ∧
    ∃ e ∈ (net'.node 0).ctx.nodes, e.id = (reborn 2).id ∧ (reborn 1).Current e ∧
      ¬ (reborn 2).Current e := by
  refine ⟨_, ((Net.boot reborn).play firstLife).play (joins 2 120), firstLife_run, ?_, rfl, ?_, ?_⟩
  · refine .cons ⟨trivial, rfl⟩ (.cons ⟨Act.enabled_deliver _ _ ?_ rfl ?_ ?_, rfl⟩ (.nil _))
    all_goals decide +kernel
  · decide +kernel
  · decide +kernel

end Dsm.Cluster
