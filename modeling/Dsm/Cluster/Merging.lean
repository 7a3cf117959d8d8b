import Dsm.Cluster.Traffic
import Dsm.Lib.Versioned
import Mathlib.Data.Finset.Card

/-!
# The order of merges does not matter

News of a node reaches a table along many ways, late, twice, out of order. `merge_node` overwrites an
entry only with a higher incarnation, and then with all of it: address, ports, range. So what a table
says of an id, apart from the state and the stamp, is a record of the highest incarnation that ever
arrived; it depends on the set of the entries that were merged and on nothing else
(`merge_order_independent`).

The merge of one entry is the rule of `Dsm.Lib.Versioned` on the map from ids to data
(`dataOf_mergeNode`), as long as the table has room.
-/

namespace Dsm.Cluster

open Dsm.Lib

variable {nodes : List ClusterNode} {node e : ClusterNode} {id : NodeId}

/-! ## The entry of an id -/

/-- The entry that `find_node_by_id` finds. -/
def entryOf (nodes : List ClusterNode) (id : NodeId) : Option ClusterNode :=
  (findNodeById nodes id).bind fun i => nodes[i]?

theorem TableIds.entryOf_iff (h : TableIds nodes) :
    entryOf nodes id = some e ↔ e ∈ nodes ∧ e.id = id := by
  rw [entryOf, Option.bind_eq_some_iff]
  constructor
  · rintro ⟨i, hfind, he⟩
    obtain ⟨e', he', hid⟩ := findNodeById_some hfind
    rw [he] at he'
    obtain rfl := Option.some.inj he'
    exact ⟨List.mem_of_getElem? he, hid⟩
  · rintro ⟨he, hid⟩
    obtain ⟨i, hi⟩ := List.mem_iff_getElem?.mp he
    exact ⟨i, h.findNodeById_iff.mpr ⟨e, hi, hid⟩, hi⟩

theorem TableIds.entryOf_none_iff (h : TableIds nodes) :
    entryOf nodes id = none ↔ ∀ e ∈ nodes, e.id ≠ id := by
  rw [Option.eq_none_iff_forall_ne_some]
  constructor
  · exact fun hnone e he hid => hnone e (h.entryOf_iff.mpr ⟨he, hid⟩)
  · exact fun hnone e he => hnone e (h.entryOf_iff.mp he).1 (h.entryOf_iff.mp he).2

section Merge

variable (h : TableIds nodes) (now : Nat)

include h

/-- A merge leaves the entries of the other ids alone. -/
theorem entryOf_mergeNode_of_ne (hid : id ≠ node.id) :
    entryOf (mergeNode nodes node now) id = entryOf nodes id := by
  ext e
  rw [(h.mergeNode node now).entryOf_iff, h.entryOf_iff]
  constructor
  · rintro ⟨he, rfl⟩
    obtain ⟨i, hi⟩ := List.mem_iff_getElem?.mp he
    rcases getElem?_mergeNode hi with hold | ⟨old, -, hold, rfl⟩ | ⟨-, rfl, -⟩
    · exact ⟨List.mem_of_getElem? hold, rfl⟩
    · exact absurd ((refreshNode_id old node now).trans hold) hid
    · exact absurd rfl hid
  · rintro ⟨he, rfl⟩
    obtain ⟨i, hi⟩ := List.mem_iff_getElem?.mp he
    exact ⟨List.mem_of_getElem? (mergeNode_keeps now hi hid), rfl⟩

theorem entryOf_mergeNode_of_some (he : entryOf nodes node.id = some e) :
    entryOf (mergeNode nodes node now) node.id = some (refreshNode e node now) := by
  obtain ⟨i, hfind, hi⟩ := Option.bind_eq_some_iff.mp he
  have hid := (h.entryOf_iff.mp he).2
  refine (h.mergeNode node now).entryOf_iff.mpr ⟨?_, (refreshNode_id e node now).trans hid⟩
  refine List.mem_of_getElem? (i := i) ?_
  simp only [mergeNode, hfind]
  rw [List.getElem?_modify_eq, hi]
  rfl

theorem entryOf_mergeNode_of_none (he : entryOf nodes node.id = none)
    (hroom : nodes.length < clusterMaxNodes) :
    entryOf (mergeNode nodes node now) node.id = some { node with lastSeen := now } := by
  have hfind := findNodeById_of_absent (h.entryOf_none_iff.mp he)
  refine (h.mergeNode node now).entryOf_iff.mpr ⟨?_, rfl⟩
  simp only [mergeNode, hfind, if_pos hroom]
  exact List.mem_append_right _ List.mem_cons_self

end Merge

/-! ## What a table says of an id -/

/-- What an entry says, apart from the state and the stamp. -/
structure NodeData where
  incarnation : UInt32
  addr : UInt32
  clientPort : UInt16
  clusterPort : UInt16
  rangeStart : UInt32
  rangeEnd : UInt32
  deriving DecidableEq

def ClusterNode.data (n : ClusterNode) : NodeData where
  incarnation := n.incarnation
  addr := n.addr
  clientPort := n.clientPort
  clusterPort := n.clusterPort
  rangeStart := n.rangeStart
  rangeEnd := n.rangeEnd

def NodeData.version (d : NodeData) : Nat := d.incarnation.toNat

def dataOf (nodes : List ClusterNode) (id : NodeId) : Option NodeData :=
  (entryOf nodes id).map ClusterNode.data

/-- The record that an entry is. -/
def ClusterNode.record (n : ClusterNode) : NodeId × NodeData := (n.id, n.data)

/-- A newer entry brings all of its data, and any other none of it. -/
theorem refreshNode_data (old node : ClusterNode) (now : Nat) :
    (refreshNode old node now).data =
      if old.data.version < node.data.version then node.data else old.data := by
  have hversion : old.data.version < node.data.version ↔ old.incarnation < node.incarnation :=
    UInt32.lt_iff_toNat_lt.symm
  unfold refreshNode
  simp only [hversion]
  split
  · rfl
  · split <;> rfl

/-- **One merge**, with room in the table, is the rule for one versioned record. -/
theorem dataOf_mergeNode (h : TableIds nodes) (node : ClusterNode) (now : Nat)
    (hroom : entryOf nodes node.id = none → nodes.length < clusterMaxNodes) :
    dataOf (mergeNode nodes node now) =
      Versioned.record NodeData.version (dataOf nodes) node.record := by
  funext id
  by_cases hid : id = node.id
  · subst hid
    rw [Versioned.record, ClusterNode.record, Function.update_self, dataOf, dataOf]
    cases he : entryOf nodes node.id with
    | none =>
        rw [entryOf_mergeNode_of_none h now he (hroom he)]
        rfl
    | some old =>
        rw [entryOf_mergeNode_of_some h now he, Option.map_some, refreshNode_data]
        rfl
  · rw [Versioned.record, ClusterNode.record, Function.update_of_ne hid, dataOf,
      entryOf_mergeNode_of_ne h now hid, dataOf]

/-- Ids that fit leave room for the one that is not in the table yet. -/
theorem TableIds.room (h : TableIds nodes) {ids : Finset NodeId} (hids : ids.card ≤ clusterMaxNodes)
    (hnodes : ∀ e ∈ nodes, e.id ∈ ids) (hid : id ∈ ids) (hnone : entryOf nodes id = none) :
    nodes.length < clusterMaxNodes := by
  have hnew : id ∉ (nodes.map ClusterNode.id).toFinset := by
    intro hmem
    obtain ⟨e, he, heid⟩ := List.mem_map.mp (List.mem_toFinset.mp hmem)
    exact h.entryOf_none_iff.mp hnone e he heid
  have hsub : insert id (nodes.map ClusterNode.id).toFinset ⊆ ids := by
    refine Finset.insert_subset hid fun x hx => ?_
    obtain ⟨e, he, rfl⟩ := List.mem_map.mp (List.mem_toFinset.mp hx)
    exact hnodes e he
  have hcard := Finset.card_le_card hsub
  rw [Finset.card_insert_of_notMem hnew, List.toFinset_card_of_nodup h.distinct,
    List.length_map] at hcard
  omega

/-- **A whole sequence of merges.** -/
theorem dataOf_mergeAll {ids : Finset NodeId} (hids : ids.card ≤ clusterMaxNodes)
    (merged : List ClusterNode) (hmerged : ∀ e ∈ merged, e.id ∈ ids) :
    ∀ (nodes : List ClusterNode) (clock : Nat → Nat), TableIds nodes → (∀ e ∈ nodes, e.id ∈ ids) →
      dataOf (mergeAll nodes merged clock) =
        (merged.map ClusterNode.record).foldl (Versioned.record NodeData.version)
          (dataOf nodes) := by
  induction merged with
  | nil => exact fun _ _ _ _ => rfl
  | cons n rest ih =>
      intro nodes clock h hnodes
      have hn := hmerged n List.mem_cons_self
      have hnodes' : ∀ e ∈ mergeNode nodes n (clock 0), e.id ∈ ids := by
        intro e he
        obtain ⟨i, hi⟩ := List.mem_iff_getElem?.mp he
        rcases getElem?_mergeNode hi with hold | ⟨old, hold, -, rfl⟩ | ⟨-, rfl, -⟩
        · exact hnodes e (List.mem_of_getElem? hold)
        · rw [refreshNode_id]
          exact hnodes old (List.mem_of_getElem? hold)
        · exact hn
      rw [List.map_cons, List.foldl_cons,
        ← dataOf_mergeNode h n (clock 0) fun hnone => h.room hids hnodes hn hnone]
      exact ih (fun e he => hmerged e (List.mem_cons_of_mem _ he)) _ _ (h.mergeNode n _) hnodes'

/-- A table with distinct ids holds its own entries. -/
theorem TableIds.holds (h : TableIds nodes) :
    Versioned.Holds NodeData.version {r | r ∈ nodes.map ClusterNode.record} (dataOf nodes) where
  newest := by
    intro id d hd
    obtain ⟨e, he, rfl⟩ := Option.map_eq_some_iff.mp hd
    obtain ⟨hmem, rfl⟩ := h.entryOf_iff.mp he
    refine ⟨List.mem_map.mpr ⟨e, hmem, rfl⟩, fun d' hd' => ?_⟩
    obtain ⟨e', hmem', heq⟩ := List.mem_map.mp hd'
    obtain ⟨hid, rfl⟩ := Prod.mk.inj heq
    have he' := h.entryOf_iff.mpr ⟨hmem', hid⟩
    rw [he] at he'
    rw [Option.some.inj he']
  known := by
    intro id d hd hnone
    obtain ⟨e, hmem, heq⟩ := List.mem_map.mp hd
    obtain ⟨rfl, -⟩ := Prod.mk.inj heq
    exact h.entryOf_none_iff.mp (Option.map_eq_none_iff.mp hnone) e hmem rfl

/-! ## Any order -/

section Any

variable {merged merged' : List ClusterNode}

theorem tableIds_of_fits (hdistinct : (nodes.map ClusterNode.id).Nodup)
    (hfits : ((nodes ++ merged).map ClusterNode.id).toFinset.card ≤ clusterMaxNodes) :
    TableIds nodes := by
  refine ⟨hdistinct, ?_⟩
  rw [← List.length_map ClusterNode.id, ← List.toFinset_card_of_nodup hdistinct]
  refine (Finset.card_le_card fun id hid => ?_).trans hfits
  rw [List.mem_toFinset] at hid ⊢
  rw [List.map_append]
  exact List.mem_append_left _ hid

/-- Whatever the order, the table holds its first entries and all that were merged. -/
theorem holds_mergeAll (h : TableIds nodes)
    (hfits : ((nodes ++ merged).map ClusterNode.id).toFinset.card ≤ clusterMaxNodes)
    (hsame : ∀ e, e ∈ merged' ↔ e ∈ merged) (clock : Nat → Nat) :
    Versioned.Holds NodeData.version {r | r ∈ (nodes ++ merged).map ClusterNode.record}
      (dataOf (mergeAll nodes merged' clock)) := by
  have hmem : ∀ e ∈ nodes ++ merged, e.id ∈ ((nodes ++ merged).map ClusterNode.id).toFinset :=
    fun e he => List.mem_toFinset.mpr (List.mem_map_of_mem he)
  rw [dataOf_mergeAll hfits merged'
    (fun e he => hmem e (List.mem_append_right _ ((hsame e).mp he))) nodes clock h
    fun e he => hmem e (List.mem_append_left _ he)]
  have hset : {r | r ∈ (nodes ++ merged).map ClusterNode.record} =
      {r | r ∈ nodes.map ClusterNode.record} ∪ {r | r ∈ merged'.map ClusterNode.record} := by
    ext r
    simp only [Set.mem_ofPred_eq, Set.mem_union, List.map_append, List.mem_append, List.mem_map,
      hsame]
  rw [hset]
  exact h.holds.foldl _

theorem consistent_of_agree (hagree : ∀ e ∈ nodes, ∀ e' ∈ nodes, e.id = e'.id →
    e.incarnation = e'.incarnation → e.data = e'.data) :
    Versioned.Consistent NodeData.version {r | r ∈ nodes.map ClusterNode.record} := by
  intro id d d' hd hd' hversion
  obtain ⟨e, he, heq⟩ := List.mem_map.mp hd
  obtain ⟨e', he', heq'⟩ := List.mem_map.mp hd'
  obtain ⟨rfl, rfl⟩ := Prod.mk.inj heq
  obtain ⟨hid, rfl⟩ := Prod.mk.inj heq'
  exact hagree e he e' he' hid.symm (UInt32.toNat_inj.mp hversion)

theorem newest_iff {d : NodeData} :
    Versioned.Newest NodeData.version {r | r ∈ nodes.map ClusterNode.record} id d ↔
      ∃ e ∈ nodes, e.id = id ∧ e.data = d ∧
        ∀ e' ∈ nodes, e'.id = id → e'.incarnation ≤ e.incarnation := by
  constructor
  · rintro ⟨hd, hnewest⟩
    obtain ⟨e, he, heq⟩ := List.mem_map.mp hd
    obtain ⟨rfl, rfl⟩ := Prod.mk.inj heq
    refine ⟨e, he, rfl, rfl, fun e' he' hid => UInt32.le_iff_toNat_le.mpr ?_⟩
    exact hnewest e'.data (List.mem_map.mpr ⟨e', he', by rw [ClusterNode.record, hid]⟩)
  · rintro ⟨e, he, rfl, rfl, hnewest⟩
    refine ⟨List.mem_map.mpr ⟨e, he, rfl⟩, fun d' hd' => ?_⟩
    obtain ⟨e', he', heq⟩ := List.mem_map.mp hd'
    obtain ⟨hid, rfl⟩ := Prod.mk.inj heq
    exact UInt32.le_iff_toNat_le.mp (hnewest e' he' hid)

end Any

/-- **The order of merges does not matter.** A table begins with the node's own entry and some others,
under distinct ids; entries are merged into it at any moments. If entries of one id and incarnation
agree, those of the table included, and there are no more ids in all than a table can hold, then any
other sequence of the same entries, in any order and with any of them repeated, gives the same data
for every id: those of the highest incarnation that there was of it. -/
theorem merge_order_independent {own : ClusterNode} {known merged merged' : List ClusterNode}
    (hdistinct : ((own :: known).map ClusterNode.id).Nodup)
    (hagree : ∀ e ∈ own :: known ++ merged, ∀ e' ∈ own :: known ++ merged, e.id = e'.id →
      e.incarnation = e'.incarnation → e.data = e'.data)
    (hfits : ((own :: known ++ merged).map ClusterNode.id).toFinset.card ≤ clusterMaxNodes)
    (hsame : ∀ e, e ∈ merged' ↔ e ∈ merged) (clock clock' : Nat → Nat) :
    dataOf (mergeAll (own :: known) merged' clock') = dataOf (mergeAll (own :: known) merged clock) ∧
    ∀ id d, dataOf (mergeAll (own :: known) merged clock) id = some d ↔
      ∃ e ∈ own :: known ++ merged, e.id = id ∧ e.data = d ∧
        ∀ e' ∈ own :: known ++ merged, e'.id = id → e'.incarnation ≤ e.incarnation := by
  have hids := tableIds_of_fits hdistinct hfits
  have hconsistent := consistent_of_agree hagree
  have hheld := holds_mergeAll hids hfits (fun _ => Iff.rfl) clock
  have hheld' := holds_mergeAll hids hfits hsame clock'
  refine ⟨hheld'.unique hheld hconsistent, fun id d => ?_⟩
  rw [hheld.eq_some_iff hconsistent]
  exact newest_iff

/-- Node `2` of the trio, restarted with another port and range. -/
def trioRestarted : ClusterNode :=
  { (trio 2).create.self with incarnation := 2, clientPort := 9, rangeEnd := 1 }

theorem merge_order_independent_restart :
    dataOf (mergeAll [(trio 0).create.self]
        [trioRestarted, (trio 2).create.self, trioRestarted] fun _ => 0) =
      dataOf (mergeAll [(trio 0).create.self] [(trio 2).create.self, trioRestarted]
        fun k => 10 * k) ∧
    dataOf (mergeAll [(trio 0).create.self] [(trio 2).create.self, trioRestarted] fun k => 10 * k)
      (trio 2).id = some trioRestarted.data := by
  have hdistinct : (([(trio 0).create.self] : List ClusterNode).map ClusterNode.id).Nodup :=
    List.nodup_singleton _
  have hsame : ∀ e, e ∈ [trioRestarted, (trio 2).create.self, trioRestarted] ↔
      e ∈ [(trio 2).create.self, trioRestarted] := by
    intro e
    simp only [List.mem_cons, List.not_mem_nil, or_false]
    grind
  have hmerge := merge_order_independent hdistinct (by decide +kernel) (by decide +kernel) hsame
    (fun k => 10 * k) fun _ => 0
  exact ⟨hmerge.1, (hmerge.2 _ _).mpr ⟨trioRestarted, by simp, rfl, rfl, by decide +kernel⟩⟩

end Dsm.Cluster
