import Dsm.Server.Requests

/-!
# The cluster as one page store

With every range inside its node's storage, the cluster behaves as one flat store: a PUT that is
acknowledged has changed the page at its configured owner and nothing else, and a GET that is served
or forwarded successfully returns what the flat store holds. What breaks the picture is the error
path of a GET: when the owner is not found, not connected to or does not answer, the client gets a
zero page, which is right only by accident.
-/

namespace Dsm.Server

open Dsm.Cluster Dsm.Lib

variable {ι : Type*} [DecidableEq ι] {setup : ι → NodeSetup} {reach : SockAddr → Option ι}
  {pages : ι → UInt32} {w : World ι}

section Requests

variable (hclustered : ∀ i, 0 < (setup i).cfg.pageRangeEnd)
  (hid : ∀ i j, (setup i).id = (setup j).id → i = j)
  (hdisjoint : ∀ i j pageId, (setup i).Owns pageId → (setup j).Owns pageId → i = j)

include hclustered in
theorem WorldInv.forwards (h : WorldInv setup pages w) (i : ι) (req : Request)
    (hknown : req.Known) (hserves : ¬ (w.server i).Serves req.pageId) :
    (w.server i).dispatch req = .forward := by
  refine PageServer.dispatch_forward ?_ hknown hserves
  rw [World.server_cluster h.sound (hclustered i)]
  rfl

include hclustered in
/-- An owner with room answers by itself, whatever hops are left. -/
theorem WorldInv.request_owner (h : WorldInv setup pages w) {x : ι} (req : Request)
    (howns : (setup x).Owns req.pageId) (hpages : req.pageId < pages x)
    (reach : SockAddr → Option ι) (fates : List HopFate) :
    World.request reach fates w x req = w.perform x req :=
  World.request_of_serves reach fates ((h.serves_iff hclustered x _).mpr ⟨howns, hpages⟩)

include hclustered hid in
/-- **A request against owners with room**: it ends nowhere, or it is performed once, at the owner,
and the answer is the owner's, a relay of it, or a failure. -/
theorem WorldInv.request_cases (h : WorldInv setup pages w) (hrec : Recorded setup reach w.net)
    (hroom : ∀ x pageId, (setup x).Owns pageId → pageId < pages x) (fates : List HopFate) (i : ι)
    (req : Request) (hknown : req.Known) :
    ∃ w', (∃ peers, w' = { w with peerFds := peers }) ∧
      (((World.request reach fates w i req).1 = w' ∧
          ((World.request reach fates w i req).2 = req.forwardFailed ∨
            (World.request reach fates w i req).2 = .never)) ∨
        ∃ x, (setup x).Owns req.pageId ∧
          (World.request reach fates w i req).1 = (w'.perform x req).1 ∧
          ((World.request reach fates w i req).2 = (w'.perform x req).2 ∨
            (World.request reach fates w i req).2 = req.forwardFailed ∨
            (World.request reach fates w i req).2 = req.relay (w'.perform x req).2)) := by
  by_cases hserves : (w.server i).Serves req.pageId
  · have howns := ((h.serves_iff hclustered i _).mp hserves).1
    rw [World.request_of_serves reach fates hserves]
    exact ⟨w, ⟨w.peerFds, rfl⟩, .inr ⟨i, howns, rfl, .inl rfl⟩⟩
  · have hforward := h.forwards hclustered i req hknown hserves
    cases fates with
    | nil =>
        have heq : World.request reach [] w i req = (w, .never) := by
          rw [World.request, World.serveHere_eq_none hforward]
          rfl
        rw [heq]
        exact ⟨w, ⟨w.peerFds, rfl⟩, .inl ⟨rfl, .inr rfl⟩⟩
    | cons fate rest =>
        obtain ⟨w', hinv, hpeers, hcases⟩ := h.request_hop hid hrec fate rest hforward
        refine ⟨w', hpeers, ?_⟩
        rcases hcases with ⟨-, heq⟩ | ⟨x, howns, -, hrpc⟩
        · rw [heq]
          exact .inl ⟨rfl, .inl rfl⟩
        · have hx := hinv.request_owner hclustered req howns (hroom x _ howns) reach rest
          rcases hrpc with ⟨-, heq⟩ | ⟨-, heq⟩
          · rw [heq, hx]
            exact .inr ⟨x, howns, rfl, .inr (.inl rfl)⟩
          · rw [heq, hx]
            exact .inr ⟨x, howns, rfl, .inr (.inr rfl)⟩

end Requests

/-- **The cluster refines one flat page store.** In every state reached by gossip and by requests
through any nodes: an acknowledged PUT has changed its page in the configured owner's storage and
nothing else; a GET served or forwarded successfully returns the flat store's page, which is the
data of the latest PUT applied to it; and every PUT ever applied was applied at the owner. -/
theorem cluster_refines_flat_store (setup : ι → NodeSetup) (pages : ι → UInt32)
    (reach : SockAddr → Option ι) (hclustered : ∀ i, 0 < (setup i).cfg.pageRangeEnd)
    (hid : ∀ i j, (setup i).id = (setup j).id → i = j)
    (hdisjoint : ∀ i j pageId, (setup i).Owns pageId → (setup j).Owns pageId → i = j)
    (hroom : ∀ x pageId, (setup x).Owns pageId → pageId < pages x)
    {es : List (WorldEvent ι)} {w : World ι}
    (hrun : WorldRun setup reach (World.boot setup pages) es w)
    (hrec : Recorded setup reach w.net) (i : ι) (fates : List HopFate) :
    (∀ pageId data q, (World.request reach fates w i (.put pageId data)).2 = .ack q →
      ∃ x, (setup x).Owns pageId ∧
        (World.request reach fates w i (.put pageId data)).1.storage =
          Function.update w.storage x (Function.update (w.storage x) pageId data) ∧
        (World.request reach fates w i (.put pageId data)).1.applied =
          w.applied ++ [(x, pageId, data)]) ∧
    (∀ pageId data, (World.request reach fates w i (.get pageId)).2 = .stored data ∨
        (World.request reach fates w i (.get pageId)).2 = .relayed data →
      data = flat w.applied pageId ∧
        (World.request reach fates w i (.get pageId)).1.storage = w.storage) ∧
    (∀ x pageId data, (x, pageId, data) ∈ w.applied → (setup x).Owns pageId) := by
  have hinv := WorldRun.inv hclustered hid hdisjoint hrun
  refine ⟨?_, ?_, fun x pageId data hmem => (hinv.applied x pageId data hmem).1⟩
  · intro pageId data q hack
    obtain ⟨w', ⟨peers, rfl⟩, ⟨-, hfail⟩ | ⟨x, howns, heq, -⟩⟩ :=
      hinv.request_cases hclustered hid hrec hroom fates i (.put pageId data) trivial
    · rw [hack] at hfail
      rcases hfail with hfail | hfail <;> cases hfail
    · refine ⟨x, howns, ?_, ?_⟩ <;> rw [heq] <;> rfl
  · intro pageId data hget
    obtain ⟨w', ⟨peers, rfl⟩, ⟨-, hfail⟩ | ⟨x, howns, heq, hans⟩⟩ :=
      hinv.request_cases hclustered hid hrec hroom fates i (.get pageId) trivial
    · exfalso
      rcases hget with hget | hget <;> rw [hget] at hfail <;> rcases hfail with hfail | hfail <;>
        cases hfail
    · refine ⟨?_, by rw [heq]; rfl⟩
      rw [← hinv.storage x pageId howns]
      rcases hget with hget | hget <;> rw [hget] at hans <;>
        rcases hans with hans | hans | hans <;> cases hans <;> rfl

/-- Twelve pages of storage everywhere, so that every range fits. -/
def trioWorld : World (Fin 3) := World.boot trio fun _ => 12

/-- Addresses lead where they say. -/
def trioReach (a : SockAddr) : Option (Fin 3) :=
  if h : a.addr.toNat < 3 then some ⟨a.addr.toNat, h⟩ else none

def trioHop : HopFate := ⟨true, .ok⟩

theorem trio_clustered : ∀ i, 0 < (trio i).cfg.pageRangeEnd := by decide

theorem trio_room (x : Fin 3) (pageId : UInt32) (h : (trio x).Owns pageId) : pageId < 12 := by
  simp only [NodeSetup.Owns, trio, UInt32.lt_iff_toNat_lt, Nat.toUInt32_eq,
    UInt32.toNat_ofNat'] at h ⊢
  have := x.isLt
  have h12 : (12 : UInt32).toNat = 12 := rfl
  omega

theorem trio_recorded : Recorded trio trioReach trioWorld.net := by
  unfold Recorded
  decide +kernel

theorem joinedTrio_recorded : Recorded trio trioReach joinedTrio := by
  unfold Recorded
  decide +kernel

/-- Node `2` has joined through node `0`. -/
def joinedWorld : World (Fin 3) := { trioWorld with net := joinedTrio }

theorem joinedWorld_run : ∃ es, WorldRun trio trioReach trioWorld es joinedWorld :=
  ⟨_, WorldRun.gossip trio trioReach trioWorld joinedTrio_run⟩

theorem cluster_refines_flat_store_forwarded : ∃ x, (trio x).Owns 9 ∧
    (World.request trioReach [trioHop] joinedWorld 0 (.put 9 (Page.fill 7))).1.storage =
      Function.update joinedWorld.storage x
        (Function.update (joinedWorld.storage x) 9 (Page.fill 7)) := by
  obtain ⟨es, hrun⟩ := joinedWorld_run
  have hack : (World.request trioReach [trioHop] joinedWorld 0 (.put 9 (Page.fill 7))).2 =
    .ack 9 := rfl
  obtain ⟨x, howns, hstorage, -⟩ := (cluster_refines_flat_store trio (fun _ => 12) trioReach
    trio_clustered trio_id trio_disjoint trio_room hrun joinedTrio_recorded 0 [trioHop]).1 9
    (Page.fill 7) 9 hack
  exact ⟨x, howns, hstorage⟩

/-- Node `2` has stored its own page `9`. -/
def writtenWorld : World (Fin 3) :=
  (World.request trioReach [] trioWorld 2 (.put 9 (Page.fill 7))).1

theorem writtenWorld_run : WorldRun trio trioReach trioWorld
    [.request 2 (.put 9 (Page.fill 7)) []] writtenWorld :=
  .single ⟨trio_recorded, rfl⟩

end Dsm.Server
