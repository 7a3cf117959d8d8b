import Dsm.Cluster.Ownership
import Dsm.Server.Handler

/-!
# Forwarding between the servers of a cluster

Every node has a membership table, a storage and a row of cached peer connections, one per index of
its table. A request that a node does not serve itself goes to the owner the node looks up and is
handled there by the same code, which may forward it again. The range decides what is local, the
storage size what is served: an owner whose storage is smaller than its range finds itself in its
own table and forwards to itself.
-/

namespace Dsm.Server

open Dsm.Cluster Dsm.Lib

/-- The cluster. `peerFds i k` is where `peer_fds[k]` of node `i` leads; `applied` is the history of
all pages written into any storage, oldest first. -/
structure World (ι : Type*) where
  net : Net ι
  pages : ι → UInt32
  storage : ι → UInt32 → Page
  peerFds : ι → Nat → Option ι
  applied : List (ι × UInt32 × Page)

variable {ι : Type*}

def World.boot (setup : ι → NodeSetup) (pages : ι → UInt32) : World ι where
  net := Net.boot setup
  pages := pages
  storage := fun _ _ => zeroPage
  peerFds := fun _ _ => none
  applied := []

/-- Node `i` as its handlers see it; `main` starts the cluster if the range has an end. -/
def World.server (w : World ι) (i : ι) : PageServer where
  cluster := if 0 < (w.net.node i).ctx.cfg.pageRangeEnd then some (w.net.node i).ctx else none
  storagePages := w.pages i
  storage := w.storage i

/-! ## Where a request can go -/

variable {setup : ι → NodeSetup} {w : World ι}

theorem NodeSetup.rangeEnd_pos {s : NodeSetup} {pageId : UInt32} (h : s.Owns pageId) :
    0 < s.cfg.pageRangeEnd :=
  UInt32.lt_of_le_of_lt UInt32.zero_le h.2

theorem World.server_cluster (h : SoundTables setup w.net) {i : ι}
    (hi : 0 < (setup i).cfg.pageRangeEnd) : (w.server i).cluster = some (w.net.node i).ctx := by
  unfold World.server
  rw [h.cfg i]
  exact if_pos hi

/-- A clustered node serves the pages of its range that its storage has room for. -/
theorem World.serves_iff (h : SoundTables setup w.net) {i : ι}
    (hi : 0 < (setup i).cfg.pageRangeEnd) (pageId : UInt32) :
    (w.server i).Serves pageId ↔ (setup i).Owns pageId ∧ pageId < w.pages i := by
  unfold PageServer.Serves PageServer.isLocal
  rw [World.server_cluster h hi, ← h.isLocal_iff i pageId]
  rfl

/-- Node `i` forwards the request, and the owner it looks up is node `j`. -/
def World.ForwardsTo (setup : ι → NodeSetup) (w : World ι) (req : Request) (i j : ι) : Prop :=
  (w.server i).dispatch req = .forward ∧
    ∃ n, clusterGetOwner (w.net.node i).ctx req.pageId = some n ∧ n.id = (setup j).id

/-- Where the request ends, whichever node it arrives at: after one hop at most, never at the node
that forwarded it, and at the owner with its storage or with an end of the connection. -/
structure EndsAtOwner (setup : ι → NodeSetup) (w : World ι) (req : Request) : Prop where
  oneHop : ∀ i j k, w.ForwardsTo setup req i j → ¬ w.ForwardsTo setup req j k
  notSelf : ∀ i, ¬ w.ForwardsTo setup req i i
  owner : ∀ x, (setup x).Owns req.pageId →
    (w.server x).dispatch req = (w.server x).serve req ∨ (w.server x).dispatch req = .leave

/-- Whoever is forwarded to owns the page. -/
theorem World.ForwardsTo.owns (h : SoundTables setup w.net)
    (hid : ∀ i j, (setup i).id = (setup j).id → i = j) {req : Request} {i j : ι}
    (hij : w.ForwardsTo setup req i j) : (setup j).Owns req.pageId := by
  obtain ⟨-, n, hn, hnid⟩ := hij
  obtain ⟨x, hx, howns⟩ := h.owner hn
  obtain rfl := hid x j (hx.id.symm.trans hnid)
  exact howns

/-- An owner whose storage is too small forwards to itself. -/
theorem World.forwardsTo_self (h : SoundTables setup w.net)
    (hdisjoint : ∀ i j pageId, (setup i).Owns pageId → (setup j).Owns pageId → i = j)
    {req : Request} (hknown : req.Known) {x : ι} (howns : (setup x).Owns req.pageId)
    (hpages : ¬ req.pageId < w.pages x) : w.ForwardsTo setup req x x := by
  have hend := NodeSetup.rangeEnd_pos howns
  constructor
  · refine PageServer.dispatch_forward ?_ hknown ?_
    · rw [World.server_cluster h hend]
      rfl
    · rw [World.serves_iff h hend]
      exact fun hs => hpages hs.2
  · obtain ⟨n, hn⟩ := h.owner_of_owns howns
    obtain ⟨y, hy, hyowns⟩ := h.owner hn
    obtain rfl := hdisjoint y x _ hyowns howns
    exact ⟨n, hn, hy.id⟩

/-- **Forwarding ends at the owner exactly when the owner has room.** In any sound membership state,
a GET or PUT of a page ends at its owner from every node if and only if the node whose range
contains the page has it inside its storage. -/
theorem ends_at_owner_iff (setup : ι → NodeSetup) (w : World ι) (h : SoundTables setup w.net)
    (hid : ∀ i j, (setup i).id = (setup j).id → i = j)
    (hdisjoint : ∀ i j pageId, (setup i).Owns pageId → (setup j).Owns pageId → i = j)
    (req : Request) (hknown : req.Known) :
    EndsAtOwner setup w req ↔ ∀ x, (setup x).Owns req.pageId → req.pageId < w.pages x := by
  constructor
  · intro hends x howns
    by_contra hpages
    exact hends.notSelf x (World.forwardsTo_self h hdisjoint hknown howns hpages)
  · intro hroom
    have hserves : ∀ x, (setup x).Owns req.pageId → (w.server x).Serves req.pageId := fun x howns =>
      (World.serves_iff h (NodeSetup.rangeEnd_pos howns) _).mpr ⟨howns, hroom x howns⟩
    have hstays : ∀ x, (setup x).Owns req.pageId → ∀ k, ¬ w.ForwardsTo setup req x k :=
      fun x howns k hk => (PageServer.dispatch_eq_forward hk.1).2.2 (hserves x howns)
    refine ⟨fun i j k hij => hstays j (hij.owns h hid) k, fun i hii => ?_, fun x howns => ?_⟩
    · exact hstays i (hii.owns h hid) i hii
    · exact .inl (PageServer.dispatch_of_serves (hserves x howns))

/-! ## The shipped compose file -/

/-- The three nodes of `docker-compose.yaml`, which give themselves random ids. -/
def compose (i : Fin 3) : NodeSetup where
  cfg :=
    { nodeId := none
      clusterPort := 10999
      gossipMs := 500
      timeoutMs := 3000
      pageRangeStart := (1024 * i.val).toUInt32
      pageRangeEnd := (1024 * i.val + 1024).toUInt32 }
  localAddr := i.val.toUInt32
  clientPort := 9999
  random := Vector.replicate _ i.val.toUInt8
  createdAt := 100

/-- They just started, each with `DSM_NUM_VIRTUAL_PAGES=1024`. -/
def composeWorld : World (Fin 3) := World.boot compose fun _ => 1024

theorem compose_id : ∀ i j, (compose i).id = (compose j).id → i = j := by decide +kernel

theorem compose_disjoint (i j : Fin 3) (pageId : UInt32) (hi : (compose i).Owns pageId)
    (hj : (compose j).Owns pageId) : i = j := by
  simp only [NodeSetup.Owns, compose, UInt32.le_iff_toNat_le, UInt32.lt_iff_toNat_lt,
    Nat.toUInt32_eq, UInt32.toNat_ofNat'] at hi hj
  omega

theorem composeWorld_sound : SoundTables compose composeWorld.net :=
  Dsm.Cluster.NetRun.soundTables (.nil (Net.boot compose))

/-- The second node forwards a GET of its first page to itself. -/
theorem compose_forwards_to_itself :
    SoundTables compose composeWorld.net ∧ (compose 1).Owns 1024 ∧
      composeWorld.ForwardsTo compose (.get 1024) 1 1 ∧
      ¬ EndsAtOwner compose composeWorld (.get 1024) := by
  have hself : composeWorld.ForwardsTo compose (.get 1024) 1 1 :=
    World.forwardsTo_self composeWorld_sound compose_disjoint
      (show Request.Known (.get 1024) from trivial) (by decide) (by decide)
  exact ⟨composeWorld_sound, by decide, hself, fun h => h.notSelf 1 hself⟩

theorem ends_at_owner_iff_compose : EndsAtOwner compose composeWorld (.get 7) := by
  refine (ends_at_owner_iff compose composeWorld composeWorld_sound compose_id compose_disjoint
    (.get 7) trivial).mpr ?_
  intro x _
  show (7 : UInt32) < 1024
  decide

end Dsm.Server
