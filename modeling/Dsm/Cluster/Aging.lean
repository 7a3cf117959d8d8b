import Dsm.Cluster.FailureDetector

/-!
# Aging against one clock

The two threads of a node read the same monotonic clock. The heartbeat thread reads it before it
takes the lock; by the time it ages the table, the gossip thread may have stamped an entry with a
later reading. The elapsed time is an unsigned difference, so a stamp later than the sample makes it
wrap around to almost `2 ^ 64`, and the freshest peer of all is demoted.

Here a node runs against that clock: every step ends at a moment, and the readings of a step lie
between the moments before and after it. The datagrams are arbitrary. An aging pass is honest when
every demotion is backed by the time that really elapsed, and the pass is honest exactly when no
entry at risk was stamped after the sample, apart from two cases in which a late stamp does no harm.
-/

namespace Dsm.Cluster

open Dsm.Lib (Run)

/-! ## A node and the clock -/

structure Clocked where
  proc : NodeProc
  clock : Nat

/-- The clock readings of a step lie between `lo` and `hi`. -/
def Act.Reads (lo hi : Nat) : Act → Prop
  | .deliver d _ times => lo ≤ times 0 ∧ times d.msg.nodes.length ≤ hi
  | .sample now => lo ≤ now ∧ now ≤ hi
  | _ => True

/-- A step that ends at moment `e.1`; the datagrams may come from anywhere. -/
def ClockStep (s : Clocked) (e : Nat × Act) (s' : Clocked) : Prop :=
  s.clock ≤ e.1 ∧ e.1 < 2 ^ 64 ∧ e.2.Reads s.clock e.1 ∧ (∃ sent, e.2.Enabled sent s.proc) ∧
    s' = ⟨e.2.next s.proc, e.1⟩

abbrev ClockRun : Clocked → List (Nat × Act) → Clocked → Prop := Run ClockStep

/-- No stamp and no sample is from the future. -/
structure Clocked.Sound (s : Clocked) : Prop where
  clock : s.clock < 2 ^ 64
  stamp : ∀ e ∈ s.proc.ctx.nodes, e.lastSeen ≤ s.clock
  sample : ∀ now, s.proc.heartbeat = .sampled now → now ≤ s.clock

theorem Clocked.Sound.step {s s' : Clocked} {e : Nat × Act} (h : s.Sound)
    (hstep : ClockStep s e s') : s'.Sound := by
  obtain ⟨t, a⟩ := e
  obtain ⟨hle, hlt, hreads, ⟨sent, ha⟩, rfl⟩ := hstep
  have hold : ∀ e ∈ s.proc.ctx.nodes, e.lastSeen ≤ t := fun e he => (h.stamp e he).trans hle
  refine ⟨hlt, ?_, ?_⟩
  · cases a with
    | deliver d source times =>
        obtain ⟨-, -, hmono, -, -⟩ := ha
        exact mergeAll_stamps (fun k hk => (hmono hk).trans hreads.2) hold
    | age now => exact heartbeatAge_stamps hold now
    | _ => exact hold
  · intro now hnow
    cases a with
    | sample now' =>
        cases hnow
        exact hreads.2
    | age | gossip => cases hnow
    | _ => exact (h.sample now hnow).trans hle

theorem Clocked.Sound.run {s s' : Clocked} {es : List (Nat × Act)} (h : s.Sound)
    (hrun : ClockRun s es s') : s'.Sound :=
  hrun.invariant Clocked.Sound (fun _ _ _ hs hstep => hs.step hstep) h

/-! ## One entry -/

/-- The time from `now` back to a later stamp, as the subtraction has it. -/
theorem u64Sub_wraps {now stamp : Nat} (h : now < stamp) (hstamp : stamp < 2 ^ 64) :
    u64Sub now stamp = 2 ^ 64 - (stamp - now) := by
  unfold u64Sub
  rw [Nat.mod_eq_of_lt hstamp]
  omega

/-- The subtraction does not claim more than `limit` for an entry stamped less than that ago: the
stamp is not later than the sample, or it is that old by the moment `t` of the aging after all, or
so much later that the difference wraps past the limit. -/
def Harmless (limit now t stamp : Nat) : Prop :=
  stamp ≤ now ∨ limit < t - stamp ∨ 2 ^ 64 ≤ limit + (stamp - now)

theorem harmless_iff {limit now t stamp : Nat} (hnow : now ≤ t) (ht : t < 2 ^ 64)
    (hstamp : stamp ≤ t) :
    Harmless limit now t stamp ↔ (limit < u64Sub now stamp → limit < t - stamp) := by
  unfold Harmless
  by_cases hle : stamp ≤ now
  · rw [u64Sub_of_le (by omega) hle]
    exact iff_of_true (.inl hle) fun h => by omega
  · rw [u64Sub_wraps (by omega) (by omega)]
    omega

theorem ageNode_suspects_iff {timeoutMs now : Nat} {n : ClusterNode}
    (h : n.state = nodeStateAlive) :
    (ageNode timeoutMs now n).state = nodeStateSuspect ↔ timeoutMs / 2 < u64Sub now n.lastSeen := by
  unfold ageNode
  dsimp only
  split
  · next hlate => exact iff_of_true rfl hlate.2
  · next hnot =>
    rw [if_neg (by rw [h]; rintro ⟨hs, -⟩; exact absurd hs (by decide)), h]
    exact iff_of_false (by decide) fun hlate => hnot ⟨h, hlate⟩

theorem ageNode_buries_iff {timeoutMs now : Nat} {n : ClusterNode}
    (h : n.state = nodeStateSuspect) :
    (ageNode timeoutMs now n).state = nodeStateDead ↔ timeoutMs < u64Sub now n.lastSeen := by
  unfold ageNode
  dsimp only
  rw [if_neg (by rw [h]; rintro ⟨hs, -⟩; exact absurd hs (by decide))]
  split
  · next hlate => exact iff_of_true rfl hlate.2
  · next hnot =>
    rw [h]
    exact iff_of_false (by decide) fun hlate => hnot ⟨h, hlate⟩

/-! ## One pass -/

/-- Every demotion between the tables `before` and `after` is backed by the time that really elapsed
from the peer's stamp to the moment `t`. -/
def HonestAging (timeoutMs t : Nat) (before after : List ClusterNode) : Prop :=
  ∀ (i : Nat) (e e' : ClusterNode), before[i]? = some e → after[i]? = some e' →
    (e.state = nodeStateAlive → e'.state = nodeStateSuspect → timeoutMs / 2 < t - e.lastSeen) ∧
    (e.state = nodeStateSuspect → e'.state = nodeStateDead → timeoutMs < t - e.lastSeen)

/-- The sample `now` is fit for an aging pass at moment `t`: no peer at risk has a harmful stamp. -/
def FitSample (ctx : ClusterCtx) (now t : Nat) : Prop :=
  ∀ (i : Nat) (e : ClusterNode), ctx.nodes[i]? = some e → i ≠ ctx.selfIdx →
    (e.state = nodeStateAlive → Harmless (ctx.cfg.timeoutMs.toNat / 2) now t e.lastSeen) ∧
    (e.state = nodeStateSuspect → Harmless ctx.cfg.timeoutMs.toNat now t e.lastSeen)

/-- **When aging is honest.** From any table without stamps from the future, after any interleaving
of the two threads with any datagrams: an aging pass demotes only peers for which the time has
really elapsed, exactly if the sample it works with is fit. -/
theorem aging_honest_iff {s₀ s s' : Clocked} {es : List (Nat × Act)} {t now : Nat}
    (h₀ : s₀.Sound) (hrun : ClockRun s₀ es s) (hstep : ClockStep s (t, .age now) s') :
    HonestAging s.proc.ctx.cfg.timeoutMs.toNat t s.proc.ctx.nodes s'.proc.ctx.nodes ↔
      FitSample s.proc.ctx now t := by
  have hsound := h₀.run hrun
  obtain ⟨hle, hlt, -, ⟨sent, hsampled⟩, rfl⟩ := hstep
  have hnow : now ≤ t := (hsound.sample now hsampled).trans hle
  have hstamp : ∀ {i : Nat} {e : ClusterNode}, s.proc.ctx.nodes[i]? = some e → e.lastSeen ≤ t :=
    fun he => (hsound.stamp _ (List.mem_of_getElem? he)).trans hle
  -- Position by position: a peer's entry is aged, the node's own stays.
  have haged : ∀ {i : Nat} {e : ClusterNode}, s.proc.ctx.nodes[i]? = some e →
      (heartbeatAge s.proc.ctx now).nodes[i]? = some (if i = s.proc.ctx.selfIdx then e else
        ageNode s.proc.ctx.cfg.timeoutMs.toNat now e) := by
    intro i e he
    rw [getElem?_heartbeatAge, he]
    rfl
  constructor
  · intro h i e he hi
    have hafter := haged he
    rw [if_neg hi] at hafter
    obtain ⟨hsuspect, hdead⟩ := h i e _ he hafter
    refine ⟨fun halive => ?_, fun hsus => ?_⟩
    · rw [harmless_iff hnow hlt (hstamp he), ← ageNode_suspects_iff halive]
      exact hsuspect halive
    · rw [harmless_iff hnow hlt (hstamp he), ← ageNode_buries_iff hsus]
      exact hdead hsus
  · intro h i e e' he he'
    change (heartbeatAge s.proc.ctx now).nodes[i]? = some e' at he'
    rw [haged he] at he'
    obtain rfl := Option.some.inj he'
    split
    · -- The node's own entry keeps its state.
      refine ⟨fun halive hsus => ?_, fun hsus hdead => ?_⟩
      · rw [halive] at hsus
        exact absurd hsus (by decide)
      · rw [hsus] at hdead
        exact absurd hdead (by decide)
    · next hi =>
      obtain ⟨hsuspect, hdead⟩ := h i e he hi
      refine ⟨fun halive => ?_, fun hsus => ?_⟩
      · rw [ageNode_suspects_iff halive, ← harmless_iff hnow hlt (hstamp he)]
        exact hsuspect halive
      · rw [ageNode_buries_iff hsus, ← harmless_iff hnow hlt (hstamp he)]
        exact hdead hsus

/-! ## Two peers -/

theorem FitSample.of_stamps {ctx : ClusterCtx} {now t : Nat}
    (h : ∀ e ∈ ctx.nodes, e.lastSeen ≤ now) : FitSample ctx now t :=
  fun _ e he _ => ⟨fun _ => .inl (h e (List.mem_of_getElem? he)),
    fun _ => .inl (h e (List.mem_of_getElem? he))⟩

/-- Node `0` just created. -/
def newborn : Clocked := ⟨(trio 0).boot, 100⟩

theorem newborn_sound : newborn.Sound where
  clock := by decide
  stamp := by decide
  sample := fun _ h => nomatch h

/-- Node `2` joins at 110 ms. -/
def greeted : List (Nat × Act) :=
  [(110, .deliver ⟨trioAddr 0, gossipJoin (trio 2).create.self⟩ (trioAddr 2) fun _ => 110),
    (111, .reply)]

def Clocked.play (s : Clocked) (es : List (Nat × Act)) : Clocked :=
  es.foldl (fun s e => ⟨e.2.next s.proc, e.1⟩) s

theorem clockStep_deliver {s : Clocked} (t now : Nat) (d : Datagram) (source : SockAddr)
    (hclock : s.clock ≤ now) (hnow : now ≤ t) (ht : t < 2 ^ 64) (hreply : s.proc.reply = none)
    (hgossip : s.proc.gossipClock ≤ now) :
    ClockStep s (t, .deliver d source fun _ => now)
      ⟨(Act.deliver d source fun _ => now).next s.proc, t⟩ :=
  ⟨hclock.trans hnow, ht, ⟨hclock, hnow⟩, ⟨[d], Act.enabled_deliver source now
    (List.mem_singleton_self d) hreply hgossip (hnow.trans_lt ht)⟩, rfl⟩

theorem greeted_run : ClockRun newborn greeted (newborn.play greeted) := by
  refine .cons (clockStep_deliver _ _ _ _ ?_ ?_ ?_ rfl ?_)
    (.cons ⟨?_, ?_, trivial, ⟨[], Option.some_ne_none (trioAddr 2)⟩, rfl⟩ (.nil _))
  all_goals decide

/-- The heartbeat thread samples at 700 ms and ages at 701 ms. -/
theorem aging_honest_iff_punctual : ∃ s s', ClockRun newborn (greeted ++ [(700, .sample 700)]) s ∧
    ClockStep s (701, .age 700) s' ∧
    HonestAging s.proc.ctx.cfg.timeoutMs.toNat 701 s.proc.ctx.nodes s'.proc.ctx.nodes ∧
    ∃ e ∈ s'.proc.ctx.nodes, e.state = nodeStateSuspect := by
  have hrun : ClockRun newborn (greeted ++ [(700, .sample 700)])
      (newborn.play (greeted ++ [(700, .sample 700)])) :=
    greeted_run.snoc ⟨by decide, by decide, ⟨by decide, le_rfl⟩, ⟨[], rfl, by decide, by decide⟩, rfl⟩
  have hstep : ClockStep (newborn.play (greeted ++ [(700, .sample 700)])) (701, .age 700)
      (newborn.play (greeted ++ [(700, .sample 700), (701, .age 700)])) :=
    ⟨by decide, by decide, trivial, ⟨[], rfl⟩, rfl⟩
  refine ⟨_, _, hrun, hstep, (aging_honest_iff newborn_sound hrun hstep).mpr ?_, ?_⟩
  · exact FitSample.of_stamps (by decide +kernel)
  · decide +kernel

/-- **A fresh peer is suspected.** The heartbeat thread samples at 1000 ms; before it takes the lock
a PING of node `2` is stamped with 1001 ms. The aging at 1001 ms finds that almost `2 ^ 64` ms have
elapsed. -/
theorem fresh_peer_suspected : ∃ es s s', ClockRun newborn es s ∧
    ClockStep s (1001, .age 1000) s' ∧
    ∃ e e', s.proc.ctx.nodes[1]? = some e ∧ s'.proc.ctx.nodes[1]? = some e' ∧
      e.state = nodeStateAlive ∧ e.lastSeen = 1001 ∧ e'.state = nodeStateSuspect ∧
      ¬ HonestAging s.proc.ctx.cfg.timeoutMs.toNat 1001 s.proc.ctx.nodes s'.proc.ctx.nodes := by
  have hsampled : ClockRun newborn (greeted ++ [(1000, .sample 1000)])
      (newborn.play (greeted ++ [(1000, .sample 1000)])) :=
    greeted_run.snoc ⟨by decide, by decide, ⟨by decide, le_rfl⟩, ⟨[], rfl, by decide, by decide⟩, rfl⟩
  have hrun := hsampled.snoc (clockStep_deliver 1001 1001
    ⟨trioAddr 0, gossipPing (trio 2).create.self⟩ (trioAddr 2) (by decide) le_rfl (by decide) rfl
    (by decide))
  refine ⟨_, _, _, hrun, ⟨by decide, by decide, trivial, ⟨[], rfl⟩, rfl⟩, ?_⟩
  refine ⟨_, _, rfl, rfl, by decide +kernel, by decide +kernel, by decide +kernel, ?_⟩
  intro h
  have := (h 1 _ _ rfl rfl).1 (by decide +kernel) (by decide +kernel)
  exact absurd this (by decide +kernel)

end Dsm.Cluster
