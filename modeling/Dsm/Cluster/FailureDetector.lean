import Dsm.Cluster.Ownership

/-!
# Failure detection by silence

A node stamps a peer's entry when the peer speaks, and also when anybody mentions the peer: a PONG
or JOIN entry of the same incarnation refreshes the stamp, and revives the entry if it says ALIVE.
Two nodes that keep mentioning a crashed third to each other keep it alive. What is proved here is
the detection that remains: without a mention, two ticks past the timeout take a silent peer to
DEAD, because a tick never lowers the rank ALIVE, SUSPECT, DEAD, and a late tick raises it.
-/

namespace Dsm.Cluster

open Dsm.Lib (Run)

/-! ## States and stamps -/

/-- One of the three states the code knows; `state.toNat` is then its rank. -/
def ClusterNode.KnownState (e : ClusterNode) : Prop :=
  e.state = nodeStateAlive ∨ e.state = nodeStateSuspect ∨ e.state = nodeStateDead

theorem ClusterNode.KnownState.refresh {old node : ClusterNode} (hold : old.KnownState)
    (hnode : node.KnownState) (now : Nat) : (refreshNode old node now).KnownState := by
  unfold refreshNode
  split
  · exact hnode
  · split
    · by_cases halive : node.state = nodeStateAlive
      · exact .inl (if_pos halive)
      · have : (if node.state = nodeStateAlive then nodeStateAlive else old.state) = old.state :=
          if_neg halive
        unfold KnownState
        rw [this]
        exact hold
    · exact hold

theorem ClusterNode.KnownState.age {node : ClusterNode} (h : node.KnownState) (timeoutMs now : Nat) :
    (ageNode timeoutMs now node).KnownState := by
  obtain ⟨state, hage, hstate⟩ := ageNode_cases timeoutMs now node
  rw [hage]
  rcases hstate with rfl | rfl | rfl
  · exact h
  · exact .inr (.inl rfl)
  · exact .inr (.inr rfl)

theorem knownState_spreads : Spreads ClusterNode.KnownState where
  refresh := fun _ _ now hold hnode _ => hold.refresh hnode now
  stamp := fun _ _ h => h
  age := fun timeoutMs now _ h => h.age timeoutMs now
  header := fun _ _ _ _ => .inl rfl
  body := fun _ h => h

/-- A tick never lowers the rank of an entry. -/
theorem ageNode_rank (timeoutMs now : Nat) (n : ClusterNode) :
    n.state.toNat ≤ (ageNode timeoutMs now n).state.toNat := by
  unfold ageNode
  dsimp only
  split
  · next halive =>
    show n.state.toNat ≤ nodeStateSuspect.toNat
    rw [halive.1]
    decide
  · split
    · next hsuspect =>
      show n.state.toNat ≤ nodeStateDead.toNat
      rw [hsuspect.1]
      decide
    · exact le_rfl

/-- A tick past the timeout raises it, up to DEAD. -/
theorem ageNode_rank_late {n : ClusterNode} (h : n.KnownState) {timeoutMs now : Nat}
    (hlate : n.lastSeen + timeoutMs < now) (hnow : now < 2 ^ 64) :
    min 3 (n.state.toNat + 1) ≤ (ageNode timeoutMs now n).state.toNat := by
  have helapsed : u64Sub now n.lastSeen = now - n.lastSeen := u64Sub_of_le hnow (by omega)
  have hlate' : timeoutMs < now - n.lastSeen := by omega
  unfold ageNode
  dsimp only
  rw [helapsed]
  rcases h with h | h | h
  · rw [if_pos ⟨h, by omega⟩]
    show min 3 (n.state.toNat + 1) ≤ nodeStateSuspect.toNat
    rw [h]
    decide
  · rw [if_neg (by simp [h, nodeStateSuspect, nodeStateAlive]), if_pos ⟨h, hlate'⟩]
    show min 3 (n.state.toNat + 1) ≤ nodeStateDead.toNat
    exact Nat.min_le_left _ _
  · rw [if_neg (by simp [h, nodeStateDead, nodeStateAlive]),
      if_neg (by simp [h, nodeStateDead, nodeStateSuspect]), h]
    decide

/-! ## Silence -/

variable {ι : Type*}

/-- The step is not the arrival at `a` of a datagram sent by `x`. -/
def NotSentBy (a : ι) (x : NodeId) (e : ι × Act) : Prop :=
  ∀ d source times, e = (a, .deliver d source times) → d.msg.hdr.senderId ≠ x

/-- The step is not the arrival at `a` of a datagram that lists `x` among its node entries. -/
def NotMentioned (a : ι) (x : NodeId) (e : ι × Act) : Prop :=
  ∀ d source times, e = (a, .deliver d source times) → ∀ n ∈ d.msg.nodes, n.id ≠ x

variable [DecidableEq ι]

/-- The step is a heartbeat tick of `a` whose sampled time is past `deadline`. -/
def isLateTick (a : ι) (deadline : Nat) : ι × Act → Bool
  | (i, .age now) => i = a ∧ deadline < now
  | _ => false

/-- What `ticks` late ticks have achieved in a table: the entry of `x` is old and its rank high. -/
structure Silenced (x : NodeId) (t ticks : Nat) (nodes : List ClusterNode) : Prop where
  stamp : ∀ e ∈ nodes, e.id = x → e.lastSeen ≤ t
  rank : ∀ e ∈ nodes, e.id = x → min 3 (ticks + 1) ≤ e.state.toNat

/-! ## What a node keeps about its clocks -/

/-- Stamps come from the gossip thread's clock, and a sample fits in 64 bits. -/
structure NodeProc.Timed (proc : NodeProc) : Prop where
  stamp : ∀ e ∈ proc.ctx.nodes, e.lastSeen ≤ proc.gossipClock
  sample : ∀ now, proc.heartbeat = .sampled now → now < 2 ^ 64

theorem refreshNode_lastSeen (old node : ClusterNode) (now : Nat) :
    (refreshNode old node now).lastSeen = now ∨
      (refreshNode old node now).lastSeen = old.lastSeen := by
  unfold refreshNode
  split
  · exact .inl rfl
  · split
    · exact .inl rfl
    · exact .inr rfl

omit [DecidableEq ι] in
theorem mem_heartbeatAge {ctx : ClusterCtx} {now : Nat} {e : ClusterNode}
    (h : e ∈ (heartbeatAge ctx now).nodes) : ∃ n i, ctx.nodes[i]? = some n ∧
      e = if i = ctx.selfIdx then n else ageNode ctx.cfg.timeoutMs.toNat now n := by
  obtain ⟨i, hi⟩ := List.mem_iff_getElem?.mp h
  rw [getElem?_heartbeatAge] at hi
  obtain ⟨n, hn, rfl⟩ := Option.map_eq_some_iff.mp hi
  exact ⟨n, i, hn, rfl⟩

/-- The merges of a message stamp no later than they read the clock. -/
theorem mergeAll_stamps {msg : GossipMsg} {source : SockAddr} {nodes : List ClusterNode}
    {times : Nat → Nat} {t : Nat} (hreading : ∀ k ≤ msg.nodes.length, times k ≤ t)
    (h : ∀ e ∈ nodes, e.lastSeen ≤ t) :
    ∀ e ∈ mergeAll nodes (msg.entries source) times, e.lastSeen ≤ t := by
  have hreading' : ∀ k, k < (msg.entries source).length → times k ≤ t := by
    intro k hk
    refine hreading k (Nat.le_of_lt_succ ?_)
    simpa [GossipMsg.entries] using hk
  refine mergeAll_forall (fun e => e.lastSeen ≤ t) _ _ times ?_ ?_ h
  · intro old node k _ hk hold _
    rcases refreshNode_lastSeen old node (times k) with hr | hr
    · rw [hr]
      exact hreading' k hk
    · rw [hr]
      exact hold
  · exact fun node k _ hk => hreading' k hk

/-- Aging leaves the stamps alone. -/
theorem heartbeatAge_stamps {ctx : ClusterCtx} {t : Nat} (h : ∀ e ∈ ctx.nodes, e.lastSeen ≤ t)
    (now : Nat) : ∀ e ∈ (heartbeatAge ctx now).nodes, e.lastSeen ≤ t := by
  intro e he
  obtain ⟨n, i, hn, rfl⟩ := mem_heartbeatAge he
  have hstamp := h n (List.mem_of_getElem? hn)
  split
  · exact hstamp
  · rw [(ageNode_keeps _ _ n).2]
    exact hstamp

theorem NodeProc.Timed.next {sent : List Datagram} {proc : NodeProc} {a : Act}
    (h : proc.Timed) (ha : a.Enabled sent proc) : (a.next proc).Timed := by
  cases a with
  | join | reply => exact ⟨h.stamp, h.sample⟩
  | sample now =>
      refine ⟨h.stamp, fun now' hnow' => ?_⟩
      cases hnow'
      exact ha.2.2
  | gossip now => exact ⟨h.stamp, fun _ hnow => nomatch hnow⟩
  | age now => exact ⟨heartbeatAge_stamps h.stamp now, fun _ hnow => nomatch hnow⟩
  | deliver d source times =>
      obtain ⟨-, -, hmono, hstart, -⟩ := ha
      have hclock : proc.gossipClock ≤ times d.msg.nodes.length := hstart.trans (hmono (Nat.zero_le _))
      exact ⟨mergeAll_stamps (fun k hk => hmono hk) fun e he => (h.stamp e he).trans hclock, h.sample⟩

theorem NetRun.timed {setup : ι → NodeSetup} {es : List (ι × Act)} {net : Net ι}
    (h : NetRun (Net.boot setup) es net) (i : ι) : (net.node i).Timed := by
  refine Run.invariant (fun net : Net ι => ∀ i, (net.node i).Timed) ?_ h (fun i => ⟨?_, ?_⟩) i
  · rintro net ⟨i, a⟩ _ hnet ⟨ha, rfl⟩
    exact Net.forall_node_act (P := fun _ proc => proc.Timed) hnet ((hnet i).next ha)
  · intro e he
    obtain rfl := List.mem_singleton.mp he
    exact le_rfl
  · exact fun _ hnow => nomatch hnow

/-! ## The detection that remains -/

theorem mergeAll_without {x : NodeId} {merged : List ClusterNode} (hx : ∀ m ∈ merged, m.id ≠ x)
    (nodes : List ClusterNode) (clock : Nat → Nat) {e : ClusterNode}
    (he : e ∈ mergeAll nodes merged clock) (hid : e.id = x) : e ∈ nodes := by
  refine mergeAll_forall (fun e => e.id = x → e ∈ nodes) merged nodes clock ?_ ?_
    (fun e he _ => he) e he hid
  · intro old node k hm _ _ holdid hid
    rw [refreshNode_id, holdid] at hid
    exact absurd hid (hx node hm)
  · intro node k hm _ hid
    exact absurd hid (hx node hm)

theorem Silenced.start {x : NodeId} {t : Nat} {nodes : List ClusterNode}
    (hstamp : ∀ e ∈ nodes, e.id = x → e.lastSeen ≤ t) (hknown : ∀ e ∈ nodes, e.KnownState) :
    Silenced x t 0 nodes := by
  refine ⟨hstamp, fun e he _ => ?_⟩
  rcases hknown e he with h | h | h <;> rw [h] <;> decide

theorem Silenced.dead {x : NodeId} {t ticks : Nat} {nodes : List ClusterNode}
    (h : Silenced x t ticks nodes) (hticks : 2 ≤ ticks) {e : ClusterNode} (hknown : e.KnownState)
    (he : e ∈ nodes) (hid : e.id = x) : e.state = nodeStateDead := by
  have hrank := h.rank e he hid
  rcases hknown with hstate | hstate | hstate
  · rw [hstate] at hrank
    have : nodeStateAlive.toNat = 1 := rfl
    omega
  · rw [hstate] at hrank
    have : nodeStateSuspect.toNat = 2 := rfl
    omega
  · exact hstate

/-- One aging pass: old entries stay old, no rank drops, and past the deadline every rank rises. -/
theorem Silenced.age {ctx : ClusterCtx} {x : NodeId} {t ticks now : Nat}
    (h : Silenced x t ticks ctx.nodes) (hknown : ∀ e ∈ ctx.nodes, e.KnownState)
    (hself : ∀ e, ctx.nodes[ctx.selfIdx]? = some e → e.id ≠ x) (hnow : now < 2 ^ 64) :
    Silenced x t (if t + ctx.cfg.timeoutMs.toNat < now then ticks + 1 else ticks)
      (heartbeatAge ctx now).nodes := by
  have hentry : ∀ e ∈ (heartbeatAge ctx now).nodes, e.id = x →
      ∃ n ∈ ctx.nodes, n.id = x ∧ e = ageNode ctx.cfg.timeoutMs.toNat now n := by
    intro e he hid
    obtain ⟨n, i, hn, rfl⟩ := mem_heartbeatAge he
    split at hid
    · next hi => exact absurd hid (hself n (hi ▸ hn))
    · next hi =>
      rw [(ageNode_keeps _ _ n).1] at hid
      exact ⟨n, List.mem_of_getElem? hn, hid, if_neg hi⟩
  refine ⟨fun e he hid => ?_, fun e he hid => ?_⟩
  · obtain ⟨n, hn, hnid, rfl⟩ := hentry e he hid
    rw [(ageNode_keeps _ _ n).2]
    exact h.stamp n hn hnid
  · obtain ⟨n, hn, hnid, rfl⟩ := hentry e he hid
    have hrank := h.rank n hn hnid
    have hstamp := h.stamp n hn hnid
    split
    · next hlate =>
      have hlate' : n.lastSeen + ctx.cfg.timeoutMs.toNat < now := by omega
      have := ageNode_rank_late (hknown n hn) hlate' hnow
      omega
    · exact hrank.trans (ageNode_rank _ _ n)

/-- One step of the network in which nobody speaks for `x` at node `a`. -/
theorem Silenced.step {setup : ι → NodeSetup} {pre : List (ι × Act)} {net net' : Net ι} {a : ι}
    {e : ι × Act} {x : NodeId} {t ticks : Nat} (hpre : NetRun (Net.boot setup) pre net)
    (hstep : NetStep net e net') (hx : x ≠ (setup a).id) (hsent : NotSentBy a x e)
    (hmention : NotMentioned a x e) (h : Silenced x t ticks (net.node a).ctx.nodes) :
    Silenced x t
      (ticks + if isLateTick a (t + (setup a).cfg.timeoutMs.toNat) e then 1 else 0)
      (net'.node a).ctx.nodes := by
  obtain ⟨i, act⟩ := e
  obtain ⟨hact, rfl⟩ := hstep
  by_cases hi : i = a
  · subst hi
    rw [Net.act_node_self]
    cases act with
    | deliver d source times =>
        have hothers : ∀ m ∈ d.msg.entries source, m.id ≠ x := by
          intro m hm
          rcases List.mem_cons.mp hm with rfl | hm
          · exact hsent d source times rfl
          · obtain ⟨g, hg, rfl⟩ := List.mem_map.mp hm
            exact hmention d source times rfl g hg
        exact ⟨fun e he hid => h.stamp e (mergeAll_without hothers _ _ he hid) hid,
          fun e he hid => h.rank e (mergeAll_without hothers _ _ he hid) hid⟩
    | age now =>
        obtain ⟨-, hcfg, hidx⟩ := NetRun.config hpre i
        obtain ⟨e₀, he₀, hdesc, -⟩ := NetRun.selfEntry hpre i
        have hself : ∀ e, (net.node i).ctx.nodes[(net.node i).ctx.selfIdx]? = some e →
            e.id ≠ x := by
          intro e he
          rw [hidx, he₀] at he
          obtain rfl := Option.some.inj he
          rw [hdesc.id]
          exact hx.symm
        have hknown := (knownState_spreads.run (fun i => .inl rfl) hpre).1 i
        have haged := h.age hknown hself ((NetRun.timed hpre i).sample now hact)
        rw [hcfg] at haged
        show Silenced x t _ (heartbeatAge (net.node i).ctx now).nodes
        by_cases hlate : t + (setup i).cfg.timeoutMs.toNat < now
        · simpa [isLateTick, hlate] using haged
        · simpa [isLateTick, hlate] using haged
    | _ => exact h
  · rw [Net.act_node_ne _ (Ne.symm hi)]
    have : isLateTick a (t + (setup a).cfg.timeoutMs.toNat) (i, act) = false := by
      cases act <;> simp [isLateTick, hi]
    rw [this]
    exact h

theorem Silenced.run {setup : ι → NodeSetup} {a : ι} {x : NodeId} {t : Nat}
    (hx : x ≠ (setup a).id) {es : List (ι × Act)} {mid net : Net ι} (hrun : NetRun mid es net) :
    ∀ {pre : List (ι × Act)} {ticks : Nat}, NetRun (Net.boot setup) pre mid →
      (∀ e ∈ es, NotSentBy a x e) → (∀ e ∈ es, NotMentioned a x e) →
      Silenced x t ticks (mid.node a).ctx.nodes →
      Silenced x t (ticks + es.countP (isLateTick a (t + (setup a).cfg.timeoutMs.toNat)))
        (net.node a).ctx.nodes := by
  induction hrun with
  | nil _ => exact fun _ _ _ h => h
  | cons hstep _ ih =>
      intro pre ticks hpre hsent hmention h
      rw [List.countP_cons, Nat.add_comm (List.countP _ _), ← Nat.add_assoc]
      refine ih (hpre.snoc hstep) (fun e he => hsent e (List.mem_cons_of_mem _ he))
        (fun e he => hmention e (List.mem_cons_of_mem _ he)) ?_
      exact h.step hpre hstep hx (hsent _ List.mem_cons_self) (hmention _ List.mem_cons_self)

/-- **Detection by silence, as far as it goes.** Node `a` has stamped nothing after `t`, and from
then on gets no datagram sent by `x` and none that mentions `x`. After two ticks whose sampled time
is past `t` plus the timeout, `x` is DEAD at `a`, whatever else arrives. -/
theorem silent_unmentioned_peer_dead (setup : ι → NodeSetup) (a : ι) (x : NodeId)
    (hx : x ≠ (setup a).id) (t : Nat) {pre es : List (ι × Act)} {mid net : Net ι}
    (hpre : NetRun (Net.boot setup) pre mid) (ht : (mid.node a).gossipClock ≤ t)
    (hrun : NetRun mid es net) (hsent : ∀ e ∈ es, NotSentBy a x e)
    (hmention : ∀ e ∈ es, NotMentioned a x e)
    (hticks : 2 ≤ es.countP (isLateTick a (t + (setup a).cfg.timeoutMs.toNat))) :
    ∀ e ∈ (net.node a).ctx.nodes, e.id = x → e.state = nodeStateDead := by
  have hknown := fun {es net} (h : NetRun (Net.boot setup) es net) =>
    (knownState_spreads.run (fun i => .inl rfl) h).1 a
  have hstart : Silenced x t 0 (mid.node a).ctx.nodes :=
    .start (fun e he _ => ((NetRun.timed hpre a).stamp e he).trans ht) (hknown hpre)
  intro e he hid
  exact (Silenced.run hx hrun hpre hsent hmention hstart).dead (by omega)
    (hknown (hpre.append hrun) e he) he hid

/-! ## Runs of the cluster of three

Node `2` has joined through node `0` and then falls silent. -/

/-- Two ticks of node `0`, at 1300 and 1550 ms. -/
def lateTicks : List (Fin 3 × Act) :=
  [(0, .sample 1300), (0, .age 1300), (0, .gossip 1300), (0, .sample 1550), (0, .age 1550)]

theorem lateTicks_run : NetRun joinedTrio lateTicks (joinedTrio.play lateTicks) := by
  refine .cons ⟨⟨rfl, ?_, ?_⟩, rfl⟩ (.cons ⟨rfl, rfl⟩ (.cons ⟨rfl, rfl⟩
    (.cons ⟨⟨rfl, ?_, ?_⟩, rfl⟩ (.cons ⟨rfl, rfl⟩ (.nil _)))))
  all_goals decide

theorem silent_unmentioned_peer_dead_trio :
    ∃ e ∈ ((joinedTrio.play lateTicks).node 0).ctx.nodes,
      e.id = (trio 2).id ∧ e.state = nodeStateDead := by
  have hin : ∃ e ∈ ((joinedTrio.play lateTicks).node 0).ctx.nodes, e.id = (trio 2).id := by
    decide +kernel
  obtain ⟨e, he, hid⟩ := hin
  refine ⟨e, he, hid, silent_unmentioned_peer_dead trio 0 (trio 2).id (by decide +kernel) 110
    joinedTrio_run (by decide +kernel) lateTicks_run ?_ ?_ (by decide +kernel) e he hid⟩
  · simp [lateTicks, NotSentBy]
  · simp [lateTicks, NotMentioned]

-- Node `1` joins as well and learns of node `2` from the PONG. At 1050 ms node `0` suspects node `2`
-- and pings node `1`, whose PONG lists node `2` as it last heard of it.
def thirdJoins : List (Fin 3 × Act) :=
  [(0, .reply), (1, .join (trioAddr 0)),
    (0, .deliver ⟨trioAddr 0, gossipJoin (trio 1).create.self⟩ (trioAddr 1) fun _ => 120),
    (0, .reply),
    (1, .deliver ⟨trioAddr 1, gossipPong (trio 0).create.self
      [(trio 0).create.self, (trio 2).create.self, (trio 1).create.self]⟩ (trioAddr 0) fun _ => 130)]

def echo : List (Fin 3 × Act) :=
  [(0, .sample 1050), (0, .age 1050), (0, .gossip 1050),
    (1, .deliver ⟨trioAddr 1, gossipPing (trio 0).create.self⟩ (trioAddr 0) fun _ => 1055),
    (1, .reply),
    (0, .deliver ⟨trioAddr 0, gossipPong (trio 1).create.self
      [(trio 1).create.self, (trio 0).create.self, (trio 2).create.self]⟩ (trioAddr 1)
      fun _ => 1060)]

theorem thirdJoins_run : NetRun joinedTrio thirdJoins (joinedTrio.play thirdJoins) := by
  refine .cons ⟨Option.some_ne_none (trioAddr 2), rfl⟩ (.cons ⟨trivial, rfl⟩
    (.cons ⟨Act.enabled_deliver _ _ ?_ rfl ?_ ?_, rfl⟩
    (.cons ⟨Option.some_ne_none (trioAddr 1), rfl⟩
    (.cons ⟨Act.enabled_deliver _ _ ?_ rfl ?_ ?_, rfl⟩ (.nil _)))))
  all_goals decide +kernel

theorem echo_run : NetRun (joinedTrio.play thirdJoins) (echo ++ lateTicks)
    ((joinedTrio.play thirdJoins).play (echo ++ lateTicks)) := by
  refine .cons ⟨⟨rfl, ?_, ?_⟩, rfl⟩ (.cons ⟨rfl, rfl⟩ (.cons ⟨rfl, rfl⟩
    (.cons ⟨Act.enabled_deliver _ _ ?_ rfl ?_ ?_, rfl⟩
    (.cons ⟨Option.some_ne_none (trioAddr 0), rfl⟩
    (.cons ⟨Act.enabled_deliver _ _ ?_ rfl ?_ ?_, rfl⟩
    (.cons ⟨⟨rfl, ?_, ?_⟩, rfl⟩ (.cons ⟨rfl, rfl⟩ (.cons ⟨rfl, rfl⟩
    (.cons ⟨⟨rfl, ?_, ?_⟩, rfl⟩ (.cons ⟨rfl, rfl⟩ (.nil _)))))))))))
  all_goals decide +kernel

/-- **A mention is taken for a sign of life.** Node `0` hears nothing from node `2` after 120 ms and
ticks at 1300 and 1550 ms with a timeout of 1000 ms; node `2` is ALIVE in its table, because of
node `1`. -/
theorem silent_peer_kept_alive : ∃ (pre es : List (Fin 3 × Act)) (mid net : Net (Fin 3)),
    NetRun (Net.boot trio) pre mid ∧ (mid.node 0).gossipClock ≤ 120 ∧ NetRun mid es net ∧
    (trio 2).id ≠ (trio 0).id ∧ (∀ e ∈ es, NotSentBy 0 (trio 2).id e) ∧
    2 ≤ es.countP (isLateTick 0 (120 + (trio 0).cfg.timeoutMs.toNat)) ∧
    ∃ e ∈ (net.node 0).ctx.nodes, e.id = (trio 2).id ∧ e.state = nodeStateAlive := by
  refine ⟨_, _, _, _, joinedTrio_run.append thirdJoins_run, ?_, echo_run, ?_, ?_, ?_, ?_⟩
  · decide +kernel
  · decide +kernel
  · have hne : (trio 1).create.self.id ≠ (trio 2).id := by decide +kernel
    simpa [echo, lateTicks, NotSentBy, gossipPong, fillHeader] using hne
  · decide +kernel
  · decide +kernel

end Dsm.Cluster
