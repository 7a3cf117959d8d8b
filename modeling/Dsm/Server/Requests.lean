import Dsm.Server.Forwarding

/-!
# Requests from hop to hop

A request arrives at a node and is served there or sent on over a cached or new connection to the
owner, where the same code handles it. What the network does to each hop, and to whom an address
leads, is given from outside.
-/

namespace Dsm.Server

open Dsm.Cluster Dsm.Lib

/-- The three ways a forwarded RPC goes: it fails before the peer has the request, after the peer
has handled it, or not at all. -/
inductive RpcFate
  | sendFails
  | replyLost
  | ok
  deriving DecidableEq

/-- What happens to one hop. `connects` only matters if there is no connection yet. -/
structure HopFate where
  connects : Bool
  rpc : RpcFate

variable {ι : Type*}

variable [DecidableEq ι]

def World.store (w : World ι) (i : ι) (pageId : UInt32) (data : Page) : World ι :=
  { w with
    storage := Function.update w.storage i (Function.update (w.storage i) pageId data)
    applied := w.applied ++ [(i, pageId, data)] }

def World.cache (w : World ι) (i : ι) (idx : Nat) (peer : ι) : World ι :=
  { w with peerFds := Function.update w.peerFds i (Function.update (w.peerFds i) idx (some peer)) }

/-- `get_peer_connection`; `reach` says who listens at an address. -/
def World.getPeerConnection (reach : SockAddr → Option ι) (w : World ι) (i : ι)
    (node : ClusterNode) (connects : Bool) : World ι × Option ι :=
  match findNodeById (w.net.node i).ctx.nodes node.id with
  | none => (w, none)
  | some idx =>
      match w.peerFds i idx with
      | some peer => (w, some peer)
      | none =>
          match connects, reach ⟨node.addr, node.clientPort⟩ with
          | true, some peer => (w.cache i idx peer, some peer)
          | _, _ => (w, none)

/-- The first half of `cluster_forward_get` and `cluster_forward_put`: whom to ask. -/
def World.route (reach : SockAddr → Option ι) (w : World ι) (i : ι) (pageId : UInt32)
    (connects : Bool) : World ι × Option ι :=
  match clusterGetOwner (w.net.node i).ctx pageId with
  | none => (w, none)
  | some owner => w.getPeerConnection reach i owner connects

/-- What a node does about a request without asking anybody; `none` means it forwards. -/
def World.serveHere (w : World ι) (i : ι) (req : Request) : Option (World ι × Answer) :=
  match (w.server i).dispatch req with
  | .page data => some (w, .stored data)
  | .store pageId data => some (w.store i pageId data, .ack pageId)
  | .zero => some (w, .zero)
  | .leave => some (w, .closed)
  | .ignore => some (w, .silent)
  | .forward => none

/-- A request at node `i`, with the fates of its hops. When they run out while the request is still
being forwarded, nobody has been answered. -/
def World.request (reach : SockAddr → Option ι) :
    List HopFate → World ι → ι → Request → World ι × Answer
  | [], w, i, req => (w.serveHere i req).getD (w, .never)
  | fate :: rest, w, i, req =>
      match w.serveHere i req with
      | some done => done
      | none =>
          match w.route reach i req.pageId fate.connects with
          | (w', none) => (w', req.forwardFailed)
          | (w', some peer) =>
              match fate.rpc with
              | .sendFails => (w', req.forwardFailed)
              | .replyLost => ((World.request reach rest w' peer req).1, req.forwardFailed)
              | .ok =>
                  let r := World.request reach rest w' peer req
                  (r.1, req.relay r.2)

/-! ## Serving without a hop -/

/-- What a node does with a request it serves itself. -/
def World.perform (w : World ι) (i : ι) : Request → World ι × Answer
  | .get pageId => (w, .stored (w.storage i pageId))
  | .put pageId data => (w.store i pageId data, .ack pageId)
  | .other _ _ => (w, .silent)

theorem World.serveHere_of_serves {w : World ι} {i : ι} {req : Request}
    (h : (w.server i).Serves req.pageId) : w.serveHere i req = some (w.perform i req) := by
  unfold World.serveHere
  rw [PageServer.dispatch_of_serves h]
  cases req <;> rfl

theorem World.serveHere_eq_none {w : World ι} {i : ι} {req : Request}
    (h : (w.server i).dispatch req = .forward) : w.serveHere i req = none := by
  unfold World.serveHere
  rw [h]

/-- The hops left do not matter where the page is served. -/
theorem World.request_of_serves (reach : SockAddr → Option ι) (fates : List HopFate) {w : World ι}
    {i : ι} {req : Request} (h : (w.server i).Serves req.pageId) :
    World.request reach fates w i req = w.perform i req := by
  cases fates with
  | nil =>
      unfold World.request
      rw [World.serveHere_of_serves h]
      rfl
  | cons fate rest =>
      unfold World.request
      rw [World.serveHere_of_serves h]

/-! ## Runs of the cluster -/

/-- What happens to a cluster: a membership step, or a request at some node. -/
inductive WorldEvent (ι : Type*)
  | gossip (e : ι × Act)
  | request (i : ι) (req : Request) (fates : List HopFate)

/-- The address and client port recorded for a node id lead to that node. -/
def Recorded (setup : ι → NodeSetup) (reach : SockAddr → Option ι) (net : Net ι) : Prop :=
  ∀ i, ∀ e ∈ (net.node i).ctx.nodes, ∀ x, e.id = (setup x).id →
    reach ⟨e.addr, e.clientPort⟩ = some x

/-- Requests are made one at a time, in membership states whose records are right. -/
def WorldStep (setup : ι → NodeSetup) (reach : SockAddr → Option ι) (w : World ι) :
    WorldEvent ι → World ι → Prop
  | .gossip e, w' => NetStep w.net e w'.net ∧ w' = { w with net := w'.net }
  | .request i req fates, w' =>
      Recorded setup reach w.net ∧ w' = (World.request reach fates w i req).1

abbrev WorldRun (setup : ι → NodeSetup) (reach : SockAddr → Option ι) :
    World ι → List (WorldEvent ι) → World ι → Prop := Run (WorldStep setup reach)

/-- The membership code runs whether or not there are requests. -/
theorem WorldRun.gossip (setup : ι → NodeSetup) (reach : SockAddr → Option ι) (w : World ι)
    {es : List (ι × Act)} {net net' : Net ι} (h : NetRun net es net') :
    WorldRun setup reach { w with net := net } (es.map .gossip) { w with net := net' } := by
  induction h with
  | nil _ => exact .nil _
  | cons hstep _ ih => exact .cons ⟨hstep, rfl⟩ ih

/-! ## The flat store -/

/-- One memory for the whole cluster, after the given writes. -/
def flat (applied : List (ι × UInt32 × Page)) : UInt32 → Page :=
  applied.foldl (fun m e => Function.update m e.2.1 e.2.2) fun _ => zeroPage

omit [DecidableEq ι] in
theorem flat_append (applied : List (ι × UInt32 × Page)) (x : ι) (pageId : UInt32) (data : Page) :
    flat (applied ++ [(x, pageId, data)]) = Function.update (flat applied) pageId data := by
  simp [flat]

/-- **The cluster against the flat store**: membership as reached by gossip, every owner's storage
equal to the flat store on its range, writes at owners only, and every cached connection at the
index of the peer it leads to. -/
structure WorldInv (setup : ι → NodeSetup) (pages : ι → UInt32) (w : World ι) : Prop where
  net : ∃ es, NetRun (Net.boot setup) es w.net
  size : w.pages = pages
  storage : ∀ x pageId, (setup x).Owns pageId → w.storage x pageId = flat w.applied pageId
  applied : ∀ x pageId data, (x, pageId, data) ∈ w.applied →
    (setup x).Owns pageId ∧ pageId < pages x
  peers : ∀ i idx y, w.peerFds i idx = some y →
    ∃ e, (w.net.node i).ctx.nodes[idx]? = some e ∧ e.id = (setup y).id

variable {setup : ι → NodeSetup} {reach : SockAddr → Option ι} {pages : ι → UInt32} {w : World ι}

theorem WorldInv.boot (setup : ι → NodeSetup) (pages : ι → UInt32) :
    WorldInv setup pages (World.boot setup pages) where
  net := ⟨[], .nil _⟩
  size := rfl
  storage := fun _ _ _ => rfl
  applied := fun _ _ _ h => absurd h List.not_mem_nil
  peers := fun _ _ _ h => nomatch h

theorem WorldInv.sound (h : WorldInv setup pages w) : SoundTables setup w.net := by
  obtain ⟨es, hrun⟩ := h.net
  exact Dsm.Cluster.NetRun.soundTables hrun

theorem WorldInv.gossip (h : WorldInv setup pages w) {e : ι × Act} {net' : Net ι}
    (hstep : NetStep w.net e net') : WorldInv setup pages { w with net := net' } where
  net := by
    obtain ⟨es, hrun⟩ := h.net
    exact ⟨_, hrun.snoc hstep⟩
  size := h.size
  storage := h.storage
  applied := h.applied
  peers := by
    obtain ⟨i, a⟩ := e
    obtain ⟨ha, rfl⟩ := hstep
    intro j idx y hy
    obtain ⟨e, he, hid⟩ := h.peers j idx y hy
    by_cases hj : j = i
    · subst hj
      obtain ⟨e', he', hid'⟩ := Act.next_keeps_id ha he
      refine ⟨e', ?_, hid'.trans hid⟩
      show ((w.net.act j a).node j).ctx.nodes[idx]? = some e'
      rw [Net.act_node_self]
      exact he'
    · refine ⟨e, ?_, hid⟩
      show ((w.net.act i a).node j).ctx.nodes[idx]? = some e
      rw [Net.act_node_ne _ hj]
      exact he

/-- A write at the owner, inside its storage, is a write to the flat store. -/
theorem WorldInv.store (h : WorldInv setup pages w)
    (hdisjoint : ∀ i j pageId, (setup i).Owns pageId → (setup j).Owns pageId → i = j) {x : ι}
    {pageId : UInt32} (howns : (setup x).Owns pageId) (hpages : pageId < pages x) (data : Page) :
    WorldInv setup pages (w.store x pageId data) where
  net := h.net
  size := h.size
  storage := by
    intro y q hy
    show Function.update w.storage x (Function.update (w.storage x) pageId data) y q =
      flat (w.applied ++ [(x, pageId, data)]) q
    rw [flat_append]
    by_cases hq : q = pageId
    · subst hq
      obtain rfl := hdisjoint y x q hy howns
      rw [Function.update_self, Function.update_self, Function.update_self]
    · rw [Function.update_of_ne hq, ← h.storage y q hy]
      by_cases hyx : y = x
      · subst hyx
        rw [Function.update_self, Function.update_of_ne hq]
      · rw [Function.update_of_ne hyx]
  applied := by
    intro y q d hmem
    rcases List.mem_append.mp hmem with hmem | hmem
    · exact h.applied y q d hmem
    · obtain ⟨rfl, rfl, rfl⟩ : y = x ∧ q = pageId ∧ d = data := by simpa using hmem
      exact ⟨howns, hpages⟩
  peers := h.peers

theorem WorldInv.cache (h : WorldInv setup pages w) {i : ι} {idx : Nat} {y : ι}
    (hy : ∃ e, (w.net.node i).ctx.nodes[idx]? = some e ∧ e.id = (setup y).id) :
    WorldInv setup pages (w.cache i idx y) where
  net := h.net
  size := h.size
  storage := h.storage
  applied := h.applied
  peers := by
    intro j k z hz
    change Function.update w.peerFds i (Function.update (w.peerFds i) idx (some y)) j k = some z at hz
    by_cases hj : j = i
    · subst hj
      rw [Function.update_self] at hz
      by_cases hk : k = idx
      · subst hk
        rw [Function.update_self] at hz
        obtain rfl := Option.some.inj hz
        exact hy
      · rw [Function.update_of_ne hk] at hz
        exact h.peers j k z hz
    · rw [Function.update_of_ne hj] at hz
      exact h.peers j k z hz

/-! ## Finding the owner -/

/-- Node `i` finds an owner of the page and has, or gets, a connection to it. -/
def World.HasRoute (w : World ι) (i : ι) (pageId : UInt32) (connects : Bool) : Prop :=
  ∃ n, clusterGetOwner (w.net.node i).ctx pageId = some n ∧
    (connects = true ∨
      ∃ idx y, findNodeById (w.net.node i).ctx.nodes n.id = some idx ∧ w.peerFds i idx = some y)

/-- **Where a forward goes.** If it goes anywhere it goes to the configured owner, and it leaves at
most a cached connection behind. -/
theorem World.route_spec (h : WorldInv setup pages w) (hrec : Recorded setup reach w.net)
    (hid : ∀ i j, (setup i).id = (setup j).id → i = j) (i : ι) (pageId : UInt32)
    (connects : Bool) :
    ∃ peers, (w.route reach i pageId connects).1 = { w with peerFds := peers } ∧
      WorldInv setup pages { w with peerFds := peers } ∧
      (((w.route reach i pageId connects).2 = none ∧ ¬ w.HasRoute i pageId connects) ∨
        ∃ x, (w.route reach i pageId connects).2 = some x ∧ w.HasRoute i pageId connects ∧
          (setup x).Owns pageId) := by
  unfold World.route
  cases hn : clusterGetOwner (w.net.node i).ctx pageId with
  | none =>
      refine ⟨w.peerFds, rfl, h, .inl ⟨rfl, ?_⟩⟩
      rintro ⟨n, hn', -⟩
      rw [hn] at hn'
      cases hn'
  | some n =>
      obtain ⟨x, hx, howns⟩ := h.sound.owner hn
      have hmem := (clusterGetOwner_some hn).1
      obtain ⟨idx, hidx⟩ := findNodeById_of_mem hmem
      obtain ⟨e, he, heid⟩ := findNodeById_some hidx
      dsimp only
      unfold World.getPeerConnection
      rw [hidx]
      dsimp only
      cases hpeer : w.peerFds i idx with
      | some y =>
          -- A cached connection sits at the index of the peer it was opened to.
          obtain ⟨e', he', hey⟩ := h.peers i idx y hpeer
          rw [he] at he'
          obtain rfl := Option.some.inj he'
          obtain rfl := hid x y (hx.id.symm.trans (heid.symm.trans hey))
          exact ⟨w.peerFds, rfl, h, .inr ⟨x, rfl, ⟨n, hn, .inr ⟨idx, x, hidx, hpeer⟩⟩, howns⟩⟩
      | none =>
          have hreach := hrec i n hmem x hx.id
          cases connects with
          | true =>
              rw [hreach]
              have hcached := h.cache (i := i) (y := x) ⟨e, he, heid.trans hx.id⟩
              exact ⟨_, rfl, hcached, .inr ⟨x, rfl, ⟨n, hn, .inl rfl⟩, howns⟩⟩
          | false =>
              refine ⟨w.peerFds, rfl, h, .inl ⟨rfl, ?_⟩⟩
              rintro ⟨n', hn', hc | ⟨idx', y, hidx', hpeer'⟩⟩
              · cases hc
              · rw [hn] at hn'
                obtain rfl := Option.some.inj hn'
                rw [hidx] at hidx'
                obtain rfl := Option.some.inj hidx'
                rw [hpeer] at hpeer'
                cases hpeer'

/-! ## A request in a run -/

section Requests

variable (hclustered : ∀ i, 0 < (setup i).cfg.pageRangeEnd)
  (hid : ∀ i j, (setup i).id = (setup j).id → i = j)
  (hdisjoint : ∀ i j pageId, (setup i).Owns pageId → (setup j).Owns pageId → i = j)

include hclustered in
theorem WorldInv.serves_iff (h : WorldInv setup pages w) (i : ι) (pageId : UInt32) :
    (w.server i).Serves pageId ↔ (setup i).Owns pageId ∧ pageId < pages i := by
  rw [World.serves_iff h.sound (hclustered i), h.size]

include hclustered hdisjoint in
theorem WorldInv.serveHere (h : WorldInv setup pages w) {i : ι} {req : Request}
    {done : World ι × Answer} (hdone : w.serveHere i req = some done) :
    WorldInv setup pages done.1 := by
  unfold World.serveHere at hdone
  split at hdone
  case h_2 pageId data hd =>
    obtain ⟨-, hserves⟩ := PageServer.dispatch_eq_store hd
    obtain ⟨howns, hpages⟩ := (h.serves_iff hclustered i pageId).mp hserves
    obtain rfl := Option.some.inj hdone
    exact h.store hdisjoint howns hpages data
  case h_6 => cases hdone
  all_goals
    obtain rfl := Option.some.inj hdone
    exact h

/-- One hop, spelt out: the outcomes of the lookup, the connection and the RPC. -/
theorem World.request_cons (reach : SockAddr → Option ι) (fate : HopFate) (rest : List HopFate)
    (w : World ι) {i : ι} {req : Request} (hforward : (w.server i).dispatch req = .forward) :
    World.request reach (fate :: rest) w i req =
      match w.route reach i req.pageId fate.connects, fate.rpc with
      | (w', none), _ => (w', req.forwardFailed)
      | (w', some _), .sendFails => (w', req.forwardFailed)
      | (w', some peer), .replyLost => ((World.request reach rest w' peer req).1, req.forwardFailed)
      | (w', some peer), .ok =>
          ((World.request reach rest w' peer req).1,
            req.relay (World.request reach rest w' peer req).2) := by
  rw [World.request, World.serveHere_eq_none hforward]
  rcases w.route reach i req.pageId fate.connects with ⟨w', _ | peer⟩
  · rfl
  · cases fate.rpc <;> rfl

include hid in
/-- **One hop of a request in a run**: it fails before it reaches anybody, or it is handled by the
owner, and then fails or is answered with what the owner said. -/
theorem WorldInv.request_hop (h : WorldInv setup pages w) (hrec : Recorded setup reach w.net)
    (fate : HopFate) (rest : List HopFate) {i : ι} {req : Request}
    (hforward : (w.server i).dispatch req = .forward) :
    ∃ w', WorldInv setup pages w' ∧ (∃ peers, w' = { w with peerFds := peers }) ∧
      ((¬ (w.HasRoute i req.pageId fate.connects ∧ fate.rpc ≠ .sendFails) ∧
          World.request reach (fate :: rest) w i req = (w', req.forwardFailed)) ∨
        ∃ x, (setup x).Owns req.pageId ∧ w.HasRoute i req.pageId fate.connects ∧
          ((fate.rpc = .replyLost ∧ World.request reach (fate :: rest) w i req =
              ((World.request reach rest w' x req).1, req.forwardFailed)) ∨
            (fate.rpc = .ok ∧ World.request reach (fate :: rest) w i req =
              ((World.request reach rest w' x req).1,
                req.relay (World.request reach rest w' x req).2)))) := by
  obtain ⟨peers, hw', hinv, hroute⟩ := World.route_spec h hrec hid i req.pageId fate.connects
  refine ⟨_, hinv, ⟨peers, rfl⟩, ?_⟩
  rw [World.request_cons reach fate rest w hforward, ← hw']
  generalize w.route reach i req.pageId fate.connects = routed at hroute
  obtain ⟨w', r⟩ := routed
  rcases hroute with ⟨rfl, hno⟩ | ⟨x, rfl, hhas, howns⟩
  · exact .inl ⟨fun hc => hno hc.1, rfl⟩
  · cases hrpc : fate.rpc with
    | sendFails => exact .inl ⟨fun hc => hc.2 rfl, rfl⟩
    | replyLost => exact .inr ⟨x, howns, hhas, .inl ⟨rfl, rfl⟩⟩
    | ok => exact .inr ⟨x, howns, hhas, .inr ⟨rfl, rfl⟩⟩

include hclustered hid hdisjoint in
theorem WorldInv.request (hrec : Recorded setup reach w.net) (fates : List HopFate) (i : ι)
    (req : Request) (h : WorldInv setup pages w) :
    WorldInv setup pages (World.request reach fates w i req).1 := by
  induction fates generalizing w i with
  | nil =>
      unfold World.request
      cases hhere : w.serveHere i req with
      | none => exact h
      | some done => exact h.serveHere hclustered hdisjoint hhere
  | cons fate rest ih =>
      cases hhere : w.serveHere i req with
      | some done =>
          unfold World.request
          rw [hhere]
          exact h.serveHere hclustered hdisjoint hhere
      | none =>
          have hforward : (w.server i).dispatch req = .forward := by
            unfold World.serveHere at hhere
            split at hhere
            case h_6 hd => exact hd
            all_goals cases hhere
          obtain ⟨w', hinv, ⟨peers, rfl⟩, hcases⟩ :=
            h.request_hop hid hrec fate rest hforward
          rcases hcases with ⟨-, heq⟩ | ⟨x, -, -, ⟨-, heq⟩ | ⟨-, heq⟩⟩
          · rw [heq]
            exact hinv
          · rw [heq]
            exact ih (w := { w with peerFds := peers }) hrec x hinv
          · rw [heq]
            exact ih (w := { w with peerFds := peers }) hrec x hinv

include hclustered hid hdisjoint in
theorem WorldRun.inv {es : List (WorldEvent ι)}
    (hrun : WorldRun setup reach (World.boot setup pages) es w) : WorldInv setup pages w := by
  refine Run.invariant (WorldInv setup pages) ?_ hrun (WorldInv.boot setup pages)
  intro w ev w' h hstep
  cases ev with
  | gossip e =>
      obtain ⟨hnet, heq⟩ := hstep
      rw [heq]
      exact h.gossip hnet
  | request i req fates =>
      obtain ⟨hrec, rfl⟩ := hstep
      exact h.request hclustered hid hdisjoint hrec fates i req

end Requests

end Dsm.Server
