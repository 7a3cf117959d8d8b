import Dsm.Cluster.Network
import Mathlib.Algebra.GroupWithZero.Nat

/-!
# Ownership agreement

A node's range, client port and incarnation are fixed when it is created and never change, so every
entry that names a node, in any table or message, carries that node's configured values: the
property spreads. With disjoint ranges a page has then one possible owner, whatever table it is
looked up in. A node finds itself for its own pages because the entry at index `0` is never aged and
an entry of the same incarnation cannot take its ALIVE away.
-/

namespace Dsm.Cluster

open Dsm.Lib (Run)

/-- The entry carries the configured values of this node. -/
structure NodeSetup.Describes (s : NodeSetup) (e : ClusterNode) : Prop where
  id : e.id = s.id
  rangeStart : e.rangeStart = s.cfg.pageRangeStart
  rangeEnd : e.rangeEnd = s.cfg.pageRangeEnd
  clientPort : e.clientPort = s.clientPort
  incarnation : e.incarnation = 1

variable {ι : Type*} {setup : ι → NodeSetup}

def Configured (setup : ι → NodeSetup) (e : ClusterNode) : Prop := ∃ x, (setup x).Describes e

theorem NodeSetup.describes_self (s : NodeSetup) : s.Describes s.create.self :=
  ⟨rfl, rfl, rfl, rfl, rfl⟩

theorem NodeSetup.Describes.owns_iff {s : NodeSetup} {e : ClusterNode} (h : s.Describes e)
    (pageId : UInt32) : e.Owns pageId ↔ s.Owns pageId := by
  unfold ClusterNode.Owns NodeSetup.Owns
  rw [h.rangeStart, h.rangeEnd]

/-- Between entries of one incarnation a refresh only touches the stamp and the state. -/
theorem refreshNode_of_eq {existing node : ClusterNode} (h : node.incarnation = existing.incarnation)
    (now : Nat) : refreshNode existing node now = { existing with
      lastSeen := now
      state := if node.state = nodeStateAlive then nodeStateAlive else existing.state } := by
  unfold refreshNode
  rw [if_neg (by rw [h]; exact UInt32.lt_irrefl _), if_pos h]

-- None of the five values is touched by a merge, a stamp or an aging pass.
theorem NodeSetup.Describes.refresh {s : NodeSetup} {old node : ClusterNode} (h : s.Describes old)
    (hinc : node.incarnation = 1) (now : Nat) : s.Describes (refreshNode old node now) := by
  rw [refreshNode_of_eq (hinc.trans h.incarnation.symm)]
  exact ⟨h.id, h.rangeStart, h.rangeEnd, h.clientPort, h.incarnation⟩

theorem NodeSetup.Describes.age {s : NodeSetup} {node : ClusterNode} (h : s.Describes node)
    (timeoutMs now : Nat) : s.Describes (ageNode timeoutMs now node) := by
  obtain ⟨state, hage, -⟩ := ageNode_cases timeoutMs now node
  rw [hage]
  exact ⟨h.id, h.rangeStart, h.rangeEnd, h.clientPort, h.incarnation⟩

theorem Configured.spreads (setup : ι → NodeSetup) : Spreads (Configured setup) where
  refresh := fun _ _ now ⟨x, hx⟩ ⟨_, hy⟩ _ => ⟨x, hx.refresh hy.incarnation now⟩
  stamp := fun _ _ ⟨x, hx⟩ => ⟨x, hx.id, hx.rangeStart, hx.rangeEnd, hx.clientPort, hx.incarnation⟩
  age := fun timeoutMs now _ ⟨x, hx⟩ => ⟨x, hx.age timeoutMs now⟩
  header := fun _ _ _ ⟨x, hx⟩ =>
    ⟨x, hx.id, hx.rangeStart, hx.rangeEnd, hx.clientPort, hx.incarnation⟩
  body := fun _ ⟨x, hx⟩ => ⟨x, hx.id, hx.rangeStart, hx.rangeEnd, hx.clientPort, hx.incarnation⟩

/-- The entry at index `0`: the node itself, alive. -/
def NodeSetup.SelfEntry (s : NodeSetup) (e : ClusterNode) : Prop :=
  s.Describes e ∧ e.state = nodeStateAlive

theorem Act.next_selfEntry {s : NodeSetup} {net : Net ι} {i : ι} {a : Act} {e : ClusterNode}
    (ha : a.Enabled net.sent (net.node i)) (hconf : net.Everywhere (Configured setup))
    (hidx : (net.node i).ctx.selfIdx = 0) (he : (net.node i).ctx.nodes[0]? = some e)
    (hs : s.SelfEntry e) :
    ∃ e', (a.next (net.node i)).ctx.nodes[0]? = some e' ∧ s.SelfEntry e' := by
  rcases Act.next_nodes ha with hn | ⟨d, source, times, -, hd, hn⟩ | ⟨now, -, -, hn⟩
  · exact ⟨e, by rw [hn, he], hs⟩
  · rw [hn]
    refine mergeAll_keeps s.SelfEntry _ ?_ _ _ he hs
    rintro old node now hm ⟨hold, hstate⟩ -
    obtain ⟨x, hx⟩ := hconf.2 d hd source node hm
    refine ⟨hold.refresh hx.incarnation now, ?_⟩
    rw [refreshNode_of_eq (hx.incarnation.trans hold.incarnation.symm)]
    show (if node.state = nodeStateAlive then nodeStateAlive else old.state) = nodeStateAlive
    rw [hstate, ite_self]
  · refine ⟨e, ?_, hs⟩
    rw [hn, getElem?_heartbeatAge, he, hidx]
    rfl

variable {net : Net ι}

section Runs

variable [DecidableEq ι] {es : List (ι × Act)}

/-- **Configured values everywhere**: every entry of every table and message of a run describes the
node it names. -/
theorem NetRun.configured (h : NetRun (Net.boot setup) es net) :
    net.Everywhere (Configured setup) :=
  (Configured.spreads setup).run (fun i => ⟨i, (setup i).describes_self⟩) h

theorem NetRun.selfEntry (h : NetRun (Net.boot setup) es net) (i : ι) :
    ∃ e, (net.node i).ctx.nodes[0]? = some e ∧ (setup i).SelfEntry e := by
  refine Run.invariant_from (fun net : Net ι => ∀ i, ∃ e, (net.node i).ctx.nodes[0]? = some e ∧
    (setup i).SelfEntry e) ?_ h (fun i => ⟨_, rfl, (setup i).describes_self, rfl⟩) i
  rintro pre net ⟨i, a⟩ _ hpre hnet ⟨ha, rfl⟩
  refine Net.forall_node_act (P := fun j proc => ∃ e, proc.ctx.nodes[0]? = some e ∧
    (setup j).SelfEntry e) hnet ?_
  obtain ⟨e, he, hs⟩ := hnet i
  exact Act.next_selfEntry ha (NetRun.configured hpre) (NetRun.config hpre i).2.2 he hs

end Runs

/-! ## Looking up -/

theorem clusterGetOwner_some {ctx : ClusterCtx} {pageId : UInt32} {n : ClusterNode}
    (h : clusterGetOwner ctx pageId = some n) :
    n ∈ ctx.nodes ∧ n.state ≠ nodeStateDead ∧ n.Owns pageId :=
  ⟨List.mem_of_find?_eq_some h, by simpa using List.find?_some h⟩

theorem exists_clusterGetOwner {ctx : ClusterCtx} {pageId : UInt32} {e : ClusterNode}
    (he : e ∈ ctx.nodes) (halive : e.state ≠ nodeStateDead) (howns : e.Owns pageId) :
    ∃ n, clusterGetOwner ctx pageId = some n := by
  rw [← Option.isSome_iff_exists]
  unfold clusterGetOwner
  rw [List.find?_isSome]
  exact ⟨e, he, by simp [halive, howns]⟩

/-- What looking up needs of a membership state: configured entries, and each node itself, alive, at
index `0` of its table. -/
structure SoundTables (setup : ι → NodeSetup) (net : Net ι) : Prop where
  self : ∀ i, (net.node i).ctx.self = (setup i).create.self
  cfg : ∀ i, (net.node i).ctx.cfg = (setup i).cfg
  entry : ∀ i, ∀ e ∈ (net.node i).ctx.nodes, Configured setup e
  first : ∀ i, ∃ e, (net.node i).ctx.nodes[0]? = some e ∧ (setup i).SelfEntry e

theorem NetRun.soundTables [DecidableEq ι] {es : List (ι × Act)}
    (h : NetRun (Net.boot setup) es net) : SoundTables setup net where
  self := fun i => (NetRun.config h i).1
  cfg := fun i => (NetRun.config h i).2.1
  entry := (NetRun.configured h).1
  first := NetRun.selfEntry h

namespace SoundTables

variable (h : SoundTables setup net)

include h

/-- The owner a node finds is the configured one. -/
theorem owner {i : ι} {pageId : UInt32} {n : ClusterNode}
    (hn : clusterGetOwner (net.node i).ctx pageId = some n) :
    ∃ x, (setup x).Describes n ∧ (setup x).Owns pageId := by
  obtain ⟨hmem, -, howns⟩ := clusterGetOwner_some hn
  obtain ⟨x, hx⟩ := h.entry i n hmem
  exact ⟨x, hx, (hx.owns_iff pageId).mp howns⟩

theorem isLocal_iff (i : ι) (pageId : UInt32) :
    clusterIsLocal (net.node i).ctx pageId = true ↔ (setup i).Owns pageId := by
  unfold clusterIsLocal
  rw [h.self i, decide_eq_true_iff]
  exact (setup i).describes_self.owns_iff pageId

/-- A node never loses sight of its own pages. -/
theorem owner_of_owns {i : ι} {pageId : UInt32} (howns : (setup i).Owns pageId) :
    ∃ n, clusterGetOwner (net.node i).ctx pageId = some n := by
  obtain ⟨e, he, hdesc, halive⟩ := h.first i
  refine exists_clusterGetOwner (List.mem_of_getElem? he) ?_ ((hdesc.owns_iff pageId).mpr howns)
  rw [halive]
  decide

end SoundTables

variable [DecidableEq ι]

/-- **Ownership agreement.** Whatever is sent, lost, duplicated, delayed or aged: every entry and
every message that names node `x` carries what `x` was configured with, so two nodes that find an
owner of a page find the same one, the configured one, and a node takes a page for local exactly
when it finds itself. -/
theorem ownership_agreement (setup : ι → NodeSetup)
    (hid : ∀ i j, (setup i).id = (setup j).id → i = j)
    (hdisjoint : ∀ i j pageId, (setup i).Owns pageId → (setup j).Owns pageId → i = j)
    {es : List (ι × Act)} {net : Net ι} (h : NetRun (Net.boot setup) es net) :
    (∀ i, ∀ e ∈ (net.node i).ctx.nodes, ∀ x, e.id = (setup x).id → (setup x).Describes e) ∧
    (∀ d ∈ net.sent, ∀ source, ∀ e ∈ d.msg.entries source, ∀ x, e.id = (setup x).id →
      (setup x).Describes e) ∧
    (∀ pageId i j m n, clusterGetOwner (net.node i).ctx pageId = some m →
      clusterGetOwner (net.node j).ctx pageId = some n →
      m.id = n.id ∧ ∃ x, m.id = (setup x).id ∧ (setup x).Owns pageId) ∧
    (∀ pageId i, clusterIsLocal (net.node i).ctx pageId = true ↔
      ∃ n, clusterGetOwner (net.node i).ctx pageId = some n ∧ n.id = (setup i).id) := by
  have hnamed : ∀ e, Configured setup e → ∀ x, e.id = (setup x).id → (setup x).Describes e := by
    rintro e ⟨y, hy⟩ x hx
    obtain rfl := hid y x (hy.id.symm.trans hx)
    exact hy
  obtain ⟨htables, hsent⟩ := NetRun.configured h
  have hsound := NetRun.soundTables h
  refine ⟨fun i e he => hnamed e (htables i e he),
    fun d hd source e he => hnamed e (hsent d hd source e he), ?_, ?_⟩
  · intro pageId i j m n hm hn
    obtain ⟨x, hx, hxowns⟩ := hsound.owner hm
    obtain ⟨y, hy, hyowns⟩ := hsound.owner hn
    obtain rfl := hdisjoint x y pageId hxowns hyowns
    exact ⟨hx.id.trans hy.id.symm, x, hx.id, hxowns⟩
  · intro pageId i
    rw [hsound.isLocal_iff]
    constructor
    · intro howns
      obtain ⟨n, hn⟩ := hsound.owner_of_owns howns
      obtain ⟨x, hx, hxowns⟩ := hsound.owner hn
      obtain rfl := hdisjoint x i pageId hxowns howns
      exact ⟨n, hn, hx.id⟩
    · rintro ⟨n, hn, hnid⟩
      obtain ⟨x, hx, hxowns⟩ := hsound.owner hn
      obtain rfl := hid x i (hx.id.symm.trans hnid)
      exact hxowns

/-! ## A cluster of three -/

instance trio_neZero : NeZero 3 := ⟨by decide⟩

/-- Three nodes of four pages each, with a timeout of one second. -/
def trio (i : Fin 3) : NodeSetup where
  cfg :=
    { nodeId := some [i.val.toUInt8]
      clusterPort := 10999
      gossipMs := 500
      timeoutMs := 1000
      pageRangeStart := (4 * i.val).toUInt32
      pageRangeEnd := (4 * i.val + 4).toUInt32 }
  localAddr := i.val.toUInt32
  clientPort := 9999
  random := Vector.replicate _ 0
  createdAt := 100

def trioAddr (i : Fin 3) : SockAddr := ⟨i.val.toUInt32, 10999⟩

theorem trio_id : ∀ i j, (trio i).id = (trio j).id → i = j := by decide +kernel

theorem trio_disjoint (i j : Fin 3) (pageId : UInt32) (hi : (trio i).Owns pageId)
    (hj : (trio j).Owns pageId) : i = j := by
  simp only [NodeSetup.Owns, trio, UInt32.le_iff_toNat_le, UInt32.lt_iff_toNat_lt,
    Nat.toUInt32_eq, UInt32.toNat_ofNat'] at hi hj
  omega

/-- Node `2` joins through node `0`. -/
def joinedTrio : Net (Fin 3) :=
  ((Net.boot trio).act 2 (.join (trioAddr 0))).act 0
    (.deliver ⟨trioAddr 0, gossipJoin (trio 2).create.self⟩ (trioAddr 2) fun _ => 110)

theorem joinedTrio_run : NetRun (Net.boot trio)
    [(2, .join (trioAddr 0)),
      (0, .deliver ⟨trioAddr 0, gossipJoin (trio 2).create.self⟩ (trioAddr 2) fun _ => 110)]
    joinedTrio := by
  refine .cons ⟨trivial, rfl⟩ (.cons ⟨⟨List.mem_cons_self, rfl, monotone_const, ?_⟩, rfl⟩ (.nil _))
  exact ⟨by decide, fun _ => (by decide : 110 < 2 ^ 64)⟩

theorem ownership_agreement_joined :
    ∃ n, clusterGetOwner (joinedTrio.node 0).ctx 9 = some n ∧ (trio 2).Describes n := by
  have hsome : ((clusterGetOwner (joinedTrio.node 0).ctx 9).map (·.id)) = some (trio 2).id := by
    decide +kernel
  obtain ⟨n, hn, hnid⟩ := Option.map_eq_some_iff.mp hsome
  refine ⟨n, hn, ?_⟩
  exact (ownership_agreement trio trio_id trio_disjoint joinedTrio_run).1 0 n
    (clusterGetOwner_some hn).1 2 hnid

end Dsm.Cluster
