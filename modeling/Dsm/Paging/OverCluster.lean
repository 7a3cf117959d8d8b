import Dsm.Paging.Wired
import Dsm.Server.Store

/-!
# Page caches over the cluster

Clients run `dsm_paging.c`, each connected to some node of a cluster; a request that a node does not
serve itself is forwarded, while the nodes gossip and age their tables. To the clients the cluster is
one server: `clustered_partitioned_writes_safe` carries what is known about one server over to any
number of clients behind any nodes.

Two things are assumed of the surroundings. Datagrams show the address of who sent them, so that
addresses in the tables lead to the nodes they name (`Leading`); and no GET ends on the error path,
where the handler makes up a zero page and the client cannot tell.
-/

namespace Dsm.Server

open Dsm.Cluster Dsm.Lib

/-! ## Addresses that lead somewhere -/

section Addresses

variable {ι : Type*} {setup : ι → NodeSetup} {reach : SockAddr → Option ι} {net : Net ι}

/-- Whoever listens at the address of an entry is the node it names. -/
def Leads (setup : ι → NodeSetup) (reach : SockAddr → Option ι) (e : ClusterNode) : Prop :=
  ∀ x, e.id = (setup x).id → reach e.clientAddr = some x

/-- A datagram is shown with an address of its sender. -/
def Genuine (setup : ι → NodeSetup) (reach : SockAddr → Option ι) : Act → Prop
  | .deliver d source _ => Leads setup reach (senderNode d.msg source)
  | _ => True

theorem Leads.refresh {old node : ClusterNode} (hold : Leads setup reach old)
    (hnode : Leads setup reach node) (hid : old.id = node.id) (now : Nat) :
    Leads setup reach (refreshNode old node now) := by
  unfold refreshNode
  split
  · exact fun x hx => hnode x (hid.symm.trans hx)
  · split
    · exact hold
    · exact hold

structure Leading (setup : ι → NodeSetup) (reach : SockAddr → Option ι) (net : Net ι) : Prop where
  self : ∀ i, Leads setup reach (net.node i).ctx.self
  tables : ∀ i, ∀ e ∈ (net.node i).ctx.nodes, Leads setup reach e
  sent : ∀ d ∈ net.sent, ∀ g ∈ d.msg.nodes, Leads setup reach (gossipNodeToCluster g)

theorem Leading.boot (hid : ∀ i j, (setup i).id = (setup j).id → i = j)
    (haddr : ∀ i, reach ⟨(setup i).localAddr, (setup i).clientPort⟩ = some i) :
    Leading setup reach (Net.boot setup) := by
  have hself : ∀ i, Leads setup reach (setup i).create.self := by
    intro i x hx
    obtain rfl := hid i x hx
    exact haddr i
  refine ⟨hself, fun i e he => ?_, fun d hd => absurd hd List.not_mem_nil⟩
  obtain rfl := List.mem_singleton.mp he
  exact hself i

theorem Leading.recorded (h : Leading setup reach net) : Recorded setup reach net :=
  fun i e he x hx => h.tables i e he x hx

theorem Leading.act [DecidableEq ι] (h : Leading setup reach net) {i : ι} {a : Act}
    (ha : a.Enabled net.sent (net.node i)) (hgenuine : Genuine setup reach a) :
    Leading setup reach (net.act i a) where
  self := by
    refine Net.forall_node_act (P := fun _ proc => Leads setup reach proc.ctx.self) h.self ?_
    rw [(Act.next_config (net.node i) a).1]
    exact h.self i
  tables := by
    refine Net.forall_node_act (P := fun _ proc => ∀ e ∈ proc.ctx.nodes, Leads setup reach e)
      h.tables fun e he => ?_
    rcases Act.next_nodes ha with hn | ⟨d, source, times, rfl, hd, hn⟩ | ⟨now, -, -, hn⟩
    · rw [hn] at he
      exact h.tables i e he
    · rw [hn] at he
      have hentries : ∀ n ∈ d.msg.entries source, Leads setup reach n := by
        intro n hmem
        rcases List.mem_cons.mp hmem with rfl | hmem
        · exact hgenuine
        · obtain ⟨g, hg, rfl⟩ := List.mem_map.mp hmem
          exact h.sent d hd g hg
      refine mergeAll_forall (Leads setup reach) _ _ times ?_ ?_ (h.tables i) e he
      · exact fun old node k hm _ hold hid => hold.refresh (hentries node hm) hid (times k)
      · exact fun node k hm _ => hentries node hm
    · rw [hn] at he
      obtain ⟨k, hk⟩ := List.mem_iff_getElem?.mp he
      rw [getElem?_heartbeatAge] at hk
      obtain ⟨n, hn', rfl⟩ := Option.map_eq_some_iff.mp hk
      have hlead := h.tables i n (List.mem_of_getElem? hn')
      split
      · exact hlead
      · obtain ⟨state, hage, -⟩ := ageNode_cases (net.node i).ctx.cfg.timeoutMs.toNat now n
        rw [hage]
        exact hlead
  sent := by
    intro d hd g hg
    rcases List.mem_append.mp hd with hd | hd
    · exact h.sent d hd g hg
    · obtain ⟨type, -, hbody⟩ := Act.emits_entries hd
      obtain ⟨n, hn, rfl⟩ := hbody g hg
      rcases hn with rfl | hn
      · exact h.self i
      · exact h.tables i n hn

end Addresses

/-! ## Requests that succeed -/

section Requests

variable {ι : Type*} [DecidableEq ι] {setup : ι → NodeSetup} {reach : SockAddr → Option ι}
  {pages : ι → UInt32} {w w' : World ι} {i : ι} {fates : List HopFate} {pageId : UInt32}
  (hclustered : ∀ i, 0 < (setup i).cfg.pageRangeEnd)
  (hid : ∀ i j, (setup i).id = (setup j).id → i = j)
  (hroom : ∀ x pageId, (setup x).Owns pageId → pageId < pages x)

include hclustered hid hroom

/-- A GET that does not end on the error path brings the page of the flat store. -/
theorem WorldInv.got (h : WorldInv setup pages w) (hrec : Recorded setup reach w.net)
    {answer : Answer} (hreq : World.request reach fates w i (.get pageId) = (w', answer))
    {page : Page} (hpage : answer.page? = some page) (hzero : answer ≠ .zero) :
    page = flat w.applied pageId ∧ w'.applied = w.applied ∧ w'.net = w.net := by
  obtain ⟨v, ⟨peers, rfl⟩, hcases⟩ := h.request_cases hclustered hid hrec hroom fates i
    (.get pageId) trivial
  rw [hreq] at hcases
  rcases hcases with ⟨-, hfail⟩ | ⟨x, howns, rfl, hans⟩
  · rcases hfail with rfl | rfl
    · exact absurd rfl hzero
    · cases hpage
  · refine ⟨?_, rfl, rfl⟩
    rw [← h.storage x pageId howns]
    rcases hans with rfl | rfl | rfl
    · exact (Option.some.inj hpage).symm
    · exact absurd rfl hzero
    · exact (Option.some.inj hpage).symm

/-- A PUT that is acknowledged is applied once. -/
theorem WorldInv.acked (h : WorldInv setup pages w) (hrec : Recorded setup reach w.net) {data : Page}
    {q : UInt32} (hreq : World.request reach fates w i (.put pageId data) = (w', .ack q)) :
    flat w'.applied = Function.update (flat w.applied) pageId data ∧ w'.net = w.net := by
  obtain ⟨v, ⟨peers, rfl⟩, hcases⟩ := h.request_cases hclustered hid hrec hroom fates i
    (.put pageId data) trivial
  rw [hreq] at hcases
  rcases hcases with ⟨-, hfail⟩ | ⟨x, -, rfl, -⟩
  · rcases hfail with hfail | hfail
    · cases hfail
    · cases hfail
  · exact ⟨flat_append w.applied x pageId data, rfl⟩

end Requests

end Dsm.Server

namespace Dsm.Paging

open DsmContext Dsm.Lib Dsm.Server Dsm.Cluster

/-! ## The system -/

/-- The clients, the cluster, and what the clients did and what was fetched and sent, in order. -/
structure Clustered (κ ι : Type) where
  clients : κ → Client
  world : World ι
  trace : List (Event κ)

variable {κ ι : Type}

def Clustered.start (geometry : κ → Geometry) (setup : ι → NodeSetup) (pages : ι → UInt32) :
    Clustered κ ι :=
  ⟨fun k => ⟨(geometry k).connect, .idle⟩, World.boot setup pages, []⟩

/-- The page that a turn asks the server for. -/
def Turn.fetches : Doing → Turn → Option Nat
  | .fetching a, .get => some a.pageId
  | .prefetching _ (x :: _) _, .batchGet => some x.1
  | _, _ => none

/-- What happens: a node gossips, or a client takes a turn, with no request, with a GET or with the
PUT of an eviction. -/
inductive ClusteredLabel (κ ι : Type)
  | gossip (e : ι × Act)
  | quiet (k : κ) (t : Turn)
  | fetch (k : κ) (t : Turn) (fates : List HopFate) (answer : Answer)
  | put (k : κ) (t : Turn) (fates : List HopFate)

variable [DecidableEq κ] [DecidableEq ι]

/-- Client `k` is connected to node `entry k`. -/
inductive ClusteredStep (reach : SockAddr → Option ι) (entry : κ → ι) :
    Clustered κ ι → ClusteredLabel κ ι → Clustered κ ι → Prop
  | gossip {s : Clustered κ ι} {e : ι × Act} {net : Net ι} : NetStep s.world.net e net →
      ClusteredStep reach entry s (.gossip e) { s with world := { s.world with net := net } }
  | quiet {s : Clustered κ ι} {k : κ} {t : Turn} {c : Client} {store : Nat → Page}
      {events : List (Event κ)} : t.fetches (s.clients k).doing = none →
      (s.clients k).turn k (fun _ => zeroPage) t = some (c, store, events) →
      (∀ e ∈ events, e.isPut = false) →
      ClusteredStep reach entry s (.quiet k t)
        { s with clients := Function.update s.clients k c, trace := s.trace ++ events }
  | fetch {s : Clustered κ ι} {k : κ} {t : Turn} {c : Client} {store : Nat → Page}
      {events : List (Event κ)} {p : Nat} {fates : List HopFate} {world : World ι} {answer : Answer}
      {page : Page} : t.fetches (s.clients k).doing = some p →
      World.request reach fates s.world (entry k) (.get (UInt32.ofNat p)) = (world, answer) →
      answer.page? = some page →
      (s.clients k).turn k (fun _ => page) t = some (c, store, events) →
      ClusteredStep reach entry s (.fetch k t fates answer)
        ⟨Function.update s.clients k c, world, s.trace ++ events⟩
  | put {s : Clustered κ ι} {k : κ} {t : Turn} {c : Client} {store : Nat → Page} {q : Nat}
      {data : Page} {fates : List HopFate} {world : World ι} {acked : UInt32} :
      (s.clients k).turn k (fun _ => zeroPage) t = some (c, store, [.put k q data]) →
      World.request reach fates s.world (entry k) (.put (UInt32.ofNat q) data) =
        (world, .ack acked) →
      ClusteredStep reach entry s (.put k t fates)
        ⟨Function.update s.clients k c, world, s.trace ++ [.put k q data]⟩

abbrev ClusteredRun (reach : SockAddr → Option ι) (entry : κ → ι) :
    Clustered κ ι → List (ClusteredLabel κ ι) → Clustered κ ι → Prop := Run (ClusteredStep reach entry)

/-- What the callers and the surroundings keep to: arguments that make sense, writes to own pages
only, genuine source addresses, and no GET on the error path. -/
def ClusteredLabel.Fair (setup : ι → NodeSetup) (reach : SockAddr → Option ι)
    (geometry : κ → Geometry) (writer : Nat → Option κ) : ClusteredLabel κ ι → Prop
  | .gossip e => Genuine setup reach e.2
  | .quiet k t => t.Plain (geometry k).numVirtualPages ∧ t.WritesOwn writer k
  | .fetch k t _ answer =>
      (t.Plain (geometry k).numVirtualPages ∧ t.WritesOwn writer k) ∧ answer ≠ .zero
  | .put k t _ => t.Plain (geometry k).numVirtualPages ∧ t.WritesOwn writer k

/-! ## One server -/

section OneServer

variable {writer : Nat → Option κ} {content : Nat → Page} {geometry : κ → Geometry}

omit [DecidableEq κ] [DecidableEq ι] in
theorem Turn.agree_of_fetches {t : Turn} {doing : Doing} {store store' : Nat → Page}
    (h : ∀ p, t.fetches doing = some p → store' p = store p) : t.Agree store store' doing := by
  unfold Turn.Agree
  split
  · exact h _ rfl
  · exact h _ rfl
  · trivial

omit [DecidableEq κ] [DecidableEq ι] in
/-- A call asks for nothing before its own turn is over. -/
theorem Turn.IsCall.fetches {t : Turn} (h : t.IsCall) (doing : Doing) : t.fetches doing = none := by
  unfold Turn.fetches
  split
  · exact h.elim
  · exact h.elim
  · rfl

omit [DecidableEq ι] in
theorem Client.Ok.fetches_lt {k : κ} {n : Nat} {trace : List (Event κ)} {store : Nat → Page}
    {c : Client} (h : c.Ok writer content k n trace store) {t : Turn} {p : Nat}
    (hp : t.fetches c.doing = some p) : p < n := by
  obtain ⟨ctx, doing⟩ := c
  rw [← h.size]
  cases doing with
  | idle => cases hp
  | fetching a =>
      cases t with
      | get =>
          obtain rfl := Option.some.inj hp
          exact h.doing.1
      | _ => cases hp
  | prefetching got todo next =>
      cases t with
      | batchGet =>
          cases todo with
          | nil => cases hp
          | cons x todo =>
              obtain rfl := Option.some.inj hp
              obtain ⟨⟨lo, hi, hcol⟩, -, -⟩ := h.doing
              exact (hcol.absent x (by simp)).2.2.1
      | _ => cases todo <;> cases hp

omit [DecidableEq κ] [DecidableEq ι] in
theorem relabel_self {k : κ} {events : List (Event κ)} (h : ∀ e ∈ events, e.client = k) :
    events.map (Event.relabel k) = events := by
  refine (List.map_congr_left fun e he => ?_).trans (List.map_id events)
  obtain rfl := h e he
  cases e <;> rfl

omit [DecidableEq ι] in
/-- **A turn with any server that has the page it asks for** is a turn with the one server. -/
theorem Sharing.Ok.turn_with {s : Sharing κ} (h : s.Ok writer content geometry) {k : κ} {t : Turn}
    (hplain : t.Plain (geometry k).numVirtualPages) (hown : t.WritesOwn writer k)
    {store : Nat → Page} (hagree : t.Agree s.store store (s.clients k).doing) {c : Client}
    {store' : Nat → Page} {events : List (Event κ)}
    (hturn : (s.clients k).turn k store t = some (c, store', events)) :
    ∃ after : Nat → Page,
      Sharing.Ok writer content geometry
        ⟨Function.update s.clients k c, after, s.trace ++ events⟩ ∧
      ∀ p, after p = ((events.filterMap (Event.putOf p)).getLast?).getD (s.store p) := by
  have hfits := Turn.fits_of_turn hturn
  obtain ⟨c', after, events', hturn', hok⟩ := (h.clients_ok k).turn h.recorded hfits hplain hown
  have hsame := turn_same k k hagree
  rw [hturn, hturn', Option.map_some, Option.map_some, relabel_self hok.by_client] at hsame
  obtain ⟨rfl, rfl⟩ := Prod.mk.inj (Option.some.inj hsame)
  obtain ⟨s', hstep, hok'⟩ := h.step hfits hplain hown
  simp only [SharingStep, Sharing.step, hturn', Option.bind_eq_bind, Option.bind_some,
    Option.pure_def, Option.some.injEq] at hstep
  subst hstep
  exact ⟨after, hok', h.recorded.store_ok.after hok'.recorded.store_ok⟩

end OneServer

/-! ## The cluster is one server -/

section Refinement

variable {setup : ι → NodeSetup} {reach : SockAddr → Option ι} {pages : ι → UInt32}
  {geometry : κ → Geometry} {writer : Nat → Option κ} {entry : κ → ι} {s s' : Clustered κ ι}

/-- The clients with one server that has what the cluster has. -/
structure Clustered.Ok (setup : ι → NodeSetup) (reach : SockAddr → Option ι) (pages : ι → UInt32)
    (geometry : κ → Geometry) (writer : Nat → Option κ) (s : Clustered κ ι) : Prop where
  world : WorldInv setup pages s.world
  leading : Leading setup reach s.world.net
  sharing : ∃ store : Nat → Page,
    Sharing.Ok writer (fun _ => zeroPage) geometry ⟨s.clients, store, s.trace⟩ ∧
      ∀ p < 2 ^ 32, store p = flat s.world.applied (UInt32.ofNat p)

theorem Clustered.Ok.gossip (h : s.Ok setup reach pages geometry writer) {e : ι × Act} {net : Net ι}
    (hstep : NetStep s.world.net e net) (hgenuine : Genuine setup reach e.2) :
    Clustered.Ok setup reach pages geometry writer
      { s with world := { s.world with net := net } } where
  world := h.world.gossip hstep
  leading := by
    obtain ⟨ha, rfl⟩ := hstep
    exact h.leading.act ha hgenuine
  sharing := h.sharing

/-- A turn without a request. -/
theorem Clustered.Ok.quiet (h : s.Ok setup reach pages geometry writer) {k : κ} {t : Turn}
    (hplain : t.Plain (geometry k).numVirtualPages) (hown : t.WritesOwn writer k) {c : Client}
    {store : Nat → Page} {events : List (Event κ)} (hquiet : t.fetches (s.clients k).doing = none)
    (hturn : (s.clients k).turn k (fun _ => zeroPage) t = some (c, store, events))
    (hputs : ∀ e ∈ events, e.isPut = false) :
    Clustered.Ok setup reach pages geometry writer
      { s with clients := Function.update s.clients k c, trace := s.trace ++ events } where
  world := h.world
  leading := h.leading
  sharing := by
    obtain ⟨σ, hok, hflat⟩ := h.sharing
    have hagree : t.Agree σ (fun _ => zeroPage) (s.clients k).doing :=
      Turn.agree_of_fetches fun p hp => nomatch hquiet.symm.trans hp
    obtain ⟨after, hok', hafter⟩ := hok.turn_with hplain hown hagree hturn
    refine ⟨after, hok', fun p hp => ?_⟩
    rw [hafter p, filterMap_putOf hputs]
    exact hflat p hp

section Requests

variable (hclustered : ∀ i, 0 < (setup i).cfg.pageRangeEnd)
  (hid : ∀ i j, (setup i).id = (setup j).id → i = j)
  (hdisjoint : ∀ i j pageId, (setup i).Owns pageId → (setup j).Owns pageId → i = j)
  (hroom : ∀ x pageId, (setup x).Owns pageId → pageId < pages x)
  (hvalid : ∀ k, (geometry k).Valid)

include hclustered hid hdisjoint hroom hvalid

/-- A turn with a GET, served or forwarded: the page that arrives is the one server's. -/
theorem Clustered.Ok.fetch (h : s.Ok setup reach pages geometry writer) {k : κ} {t : Turn}
    (hplain : t.Plain (geometry k).numVirtualPages) (hown : t.WritesOwn writer k) {c : Client}
    {store : Nat → Page} {events : List (Event κ)} {p : Nat} {fates : List HopFate}
    {world : World ι} {answer : Answer} {page : Page} (hzero : answer ≠ .zero)
    (hfetch : t.fetches (s.clients k).doing = some p)
    (hreq : World.request reach fates s.world (entry k) (.get (UInt32.ofNat p)) = (world, answer))
    (hpage : answer.page? = some page)
    (hturn : (s.clients k).turn k (fun _ => page) t = some (c, store, events)) :
    Clustered.Ok setup reach pages geometry writer
      ⟨Function.update s.clients k c, world, s.trace ++ events⟩ := by
  have hrec := h.leading.recorded
  obtain ⟨hdata, happlied, hnet⟩ := h.world.got hclustered hid hroom hrec hreq hpage hzero
  have hworld := h.world.request hclustered hid hdisjoint hrec fates (entry k)
    (.get (UInt32.ofNat p))
  rw [hreq] at hworld
  refine ⟨hworld, hnet ▸ h.leading, ?_⟩
  obtain ⟨σ, hok, hflat⟩ := h.sharing
  have hp : p < 2 ^ 32 := ((hok.clients_ok k).fetches_lt hfetch).trans (hvalid k).numVirtualPages_lt
  have hagree : t.Agree σ (fun _ => page) (s.clients k).doing := by
    refine Turn.agree_of_fetches fun q hq => ?_
    obtain rfl := Option.some.inj (hfetch.symm.trans hq)
    exact hdata.trans (hflat p hp).symm
  obtain ⟨after, hok', hafter⟩ := hok.turn_with hplain hown hagree hturn
  refine ⟨after, hok', fun q hq => ?_⟩
  -- A turn that fetches is no call, so it sends nothing.
  have hputs : ∀ e ∈ events, e.isPut = false := by
    refine (turn_puts k hturn).resolve_right fun hcall => ?_
    cases hfetch.symm.trans (hcall.1.fetches _)
  show after q = flat world.applied (UInt32.ofNat q)
  rw [hafter q, filterMap_putOf hputs, happlied]
  exact hflat q hq

/-- A turn with the PUT of an eviction: it is applied once, at the owner. -/
theorem Clustered.Ok.put (h : s.Ok setup reach pages geometry writer) {k : κ} {t : Turn}
    (hplain : t.Plain (geometry k).numVirtualPages) (hown : t.WritesOwn writer k) {c : Client}
    {store : Nat → Page} {q : Nat} {data : Page} {fates : List HopFate} {world : World ι}
    {acked : UInt32}
    (hturn : (s.clients k).turn k (fun _ => zeroPage) t = some (c, store, [.put k q data]))
    (hreq : World.request reach fates s.world (entry k) (.put (UInt32.ofNat q) data) =
      (world, .ack acked)) :
    Clustered.Ok setup reach pages geometry writer
      ⟨Function.update s.clients k c, world, s.trace ++ [.put k q data]⟩ := by
  have hrec := h.leading.recorded
  obtain ⟨happlied, hnet⟩ := h.world.acked hclustered hid hroom hrec hreq
  have hworld := h.world.request hclustered hid hdisjoint hrec fates (entry k)
    (.put (UInt32.ofNat q) data)
  rw [hreq] at hworld
  refine ⟨hworld, hnet ▸ h.leading, ?_⟩
  obtain ⟨σ, hok, hflat⟩ := h.sharing
  obtain ⟨hcall, hq⟩ : t.IsCall ∧ q < (s.clients k).ctx.numVirtualPages := by
    rcases turn_puts k hturn with hputs | ⟨hcall, q', data', hlt, heq⟩
    · cases hputs _ (List.mem_singleton_self _)
    · cases heq
      exact ⟨hcall, hlt⟩
  rw [(hok.clients_ok k).size] at hq
  have hq' := hq.trans (hvalid k).numVirtualPages_lt
  have hagree : t.Agree σ (fun _ => zeroPage) (s.clients k).doing := by
    refine Turn.agree_of_fetches fun p hp => ?_
    cases hp.symm.trans (hcall.fetches _)
  obtain ⟨after, hok', hafter⟩ := hok.turn_with hplain hown hagree hturn
  refine ⟨after, hok', fun p hp => ?_⟩
  show after p = flat world.applied (UInt32.ofNat p)
  rw [hafter p, happlied]
  by_cases hpq : q = p
  · subst hpq
    rw [Function.update_self]
    simp [Event.putOf]
  · have hne : UInt32.ofNat p ≠ UInt32.ofNat q := by
      intro heq
      have hnat := congrArg UInt32.toNat heq
      rw [UInt32.toNat_ofNat_of_lt' hp, UInt32.toNat_ofNat_of_lt' hq'] at hnat
      exact hpq hnat.symm
    rw [Function.update_of_ne hne, ← hflat p hp]
    simp [Event.putOf, hpq]

theorem Clustered.Ok.step (h : s.Ok setup reach pages geometry writer) {e : ClusteredLabel κ ι}
    (hfair : e.Fair setup reach geometry writer) (hstep : ClusteredStep reach entry s e s') :
    s'.Ok setup reach pages geometry writer := by
  cases hstep with
  | gossip hnet => exact h.gossip hnet hfair
  | quiet hquiet hturn hputs => exact h.quiet hfair.1 hfair.2 hquiet hturn hputs
  | fetch hfetch hreq hpage hturn =>
      exact h.fetch hclustered hid hdisjoint hroom hvalid hfair.1.1 hfair.1.2 hfair.2 hfetch hreq
        hpage hturn
  | put hturn hreq =>
      exact h.put hclustered hid hdisjoint hroom hvalid hfair.1 hfair.2 hturn hreq

end Requests

end Refinement

/-- Node `2` joins node `0`. Client `true`, at node `0`, writes page `9` of node `2` through a cache
of one frame and loses it to page `0`; client `false`, at node `2`, then reads page `9`. -/
def acrossTrio : List (ClusteredLabel Bool (Fin 3)) :=
  [.gossip (2, .join (trioAddr 0)),
    .gossip (0, .deliver ⟨trioAddr 0, gossipJoin (trio 2).create.self⟩ (trioAddr 2) fun _ => 110),
    .quiet true (.access 9 1 fun _ => Page.fill 7), .fetch true .get [trioHop] (.relayed zeroPage),
    .put true (.access 0 0 id) [trioHop], .fetch true .get [] (.stored zeroPage),
    .quiet false (.access 9 0 id), .fetch false .get [] (.stored (Page.fill 7))]

def trioEntry (k : Bool) : Fin 3 := if k then 0 else 2

theorem acrossTrio_run : ∃ s : Clustered Bool (Fin 3),
    ClusteredRun trioReach trioEntry (Clustered.start (fun _ => ⟨1, 12, 3⟩) trio fun _ => 12)
      acrossTrio s ∧
    s.trace.getLast? = some (.read false 9 (Page.fill 7)) := by
  refine ⟨_, .cons (.gossip ⟨trivial, rfl⟩) (.cons (.gossip ⟨?_, rfl⟩)
    (.cons (.quiet rfl rfl fun _ he => nomatch he) (.cons (.fetch rfl rfl rfl rfl)
    (.cons (.put rfl rfl) (.cons (.fetch rfl rfl rfl rfl)
    (.cons (.quiet rfl rfl fun _ he => nomatch he) (.cons (.fetch rfl rfl rfl rfl) (.nil _)))))))), ?_⟩
  · exact Act.enabled_deliver _ _ List.mem_cons_self rfl (by decide) (by decide)
  · rfl

theorem acrossTrio_fair : ∀ e ∈ acrossTrio,
    e.Fair trio trioReach (fun _ => ⟨1, 12, 3⟩) fun _ => some true := by
  have hjoin : Leads trio trioReach (senderNode (gossipJoin (trio 2).create.self) (trioAddr 2)) := by
    intro x hx
    obtain rfl := trio_id 2 x hx
    rfl
  simp [acrossTrio, ClusteredLabel.Fair, Genuine, hjoin, Turn.Plain, Turn.WritesOwn]

end Dsm.Paging
