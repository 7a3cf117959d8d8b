import Dsm.Client.Benchmark

/-!
# What the benchmark reports

`run_benchmark` returns 1 if it noticed a failed access, and prints a hit rate whose base is
`local_hits + remote_fetches`. Neither says what it seems to say.

* A failed access is noticed only if its page is marked as remote, and the pages below `num_pages` are
  marked as local until they have been fetched once (`benchmark_reports_failures_iff`).
* `remote_fetches` also counts the pages that were prefetched, so the base is the number of accesses
  only in a run without a prefetch (`total_accesses_exact_iff`).
-/

namespace Dsm.Client

open Dsm.Paging Dsm.Lib

namespace Benchmark

variable {cfg : DsmClientConfig} {rpc : Nat → RpcScript} {b b' : Benchmark}

/-! ## Failures -/

/-- The access of the iteration that starts here will fail. -/
def AccessFails (cfg : DsmClientConfig) (rpc : Nat → RpcScript) (b : Benchmark) : Prop :=
  ∃ id, cfg.pageId b.randVal = some id ∧ b.pager.AccessFails id.toNat (rpc b.i)

/-- It will fail, and its page is marked as remote. -/
def RemoteAccessFails (cfg : DsmClientConfig) (rpc : Nat → RpcScript) (b : Benchmark) : Prop :=
  ∃ id, cfg.pageId b.randVal = some id ∧ b.pager.AccessFails id.toNat (rpc b.i) ∧
    (b.pager.ctx.pageTable id.toNat).location = .locRemote

/-- What is said about the page of an iteration is said about the page number it computes. -/
theorem exists_pageId_iff {r id : UInt32} (hid : cfg.pageId r = some id) {P : UInt32 → Prop} :
    (∃ id', cfg.pageId r = some id' ∧ P id') ↔ P id := by
  simp only [hid, Option.some.injEq, exists_eq_left']

theorem Sound.accessFails_iff (hcfg : cfg.Admitted) (hb : b.Sound cfg) {seen : Seen}
    (h : b.iteration cfg rpc = some (seen, b')) : seen = none ↔ b.AccessFails cfg rpc := by
  obtain ⟨id, hid, -, hiter⟩ := hb.iterated hcfg h
  rw [hiter.null_iff, AccessFails, exists_pageId_iff hid]

theorem Sound.remoteAccessFails_iff (hcfg : cfg.Admitted) (hb : b.Sound cfg) {seen : Seen}
    (h : b.iteration cfg rpc = some (seen, b')) :
    b'.failed = true ↔ b.RemoteAccessFails cfg rpc := by
  obtain ⟨id, hid, -, hiter⟩ := hb.iterated hcfg h
  rw [hiter.failed_iff, hiter.null_iff, RemoteAccessFails, exists_pageId_iff hid]

/-- The benchmark's value and what its accesses returned, by the iterations it has come to. -/
theorem runBenchmark_eq_some (hcfg : cfg.Admitted) {fd : Int} (hfd : 0 ≤ fd) {remote : Remote}
    {result : BenchmarkResult}
    (h : runBenchmark cfg rpc (cfg.connected fd remote) = some result) :
    (result.code ≠ 0 ↔ ∃ b : Benchmark, b.Reached cfg rpc (cfg.connected fd remote) ∧
        b.RemoteAccessFails cfg rpc) ∧
      (none ∈ result.seen ↔ ∃ b : Benchmark, b.Reached cfg rpc (cfg.connected fd remote) ∧
        b.AccessFails cfg rpc) := by
  rw [runBenchmark_connected, Option.map_eq_some_iff] at h
  obtain ⟨⟨seen, u⟩, hloop, rfl⟩ := h
  obtain ⟨hmem, hstop⟩ := loop_eq_some hloop
  constructor
  · have hcode : (if u.failed = true then (1 : Int) else 0) ≠ 0 ↔ u.failed = true := by
      cases u.failed <;> decide
    show (if u.failed = true then (1 : Int) else 0) ≠ 0 ↔ _
    rw [hcode, hstop rfl]
    constructor
    · rintro ⟨t, a, v, hhead, hbody, hv⟩
      have ht := reached_iff.mpr hhead
      exact ⟨t, ht, ((ht.sound hcfg hfd).remoteAccessFails_iff hcfg hbody).mp hv⟩
    · rintro ⟨t, ht, hfails⟩
      obtain ⟨a, v, hbody⟩ := (reached_iff.mp ht).turns hloop
      exact ⟨t, a, v, reached_iff.mp ht, hbody,
        ((ht.sound hcfg hfd).remoteAccessFails_iff hcfg hbody).mpr hfails⟩
  · show none ∈ seen ↔ _
    rw [hmem]
    constructor
    · rintro ⟨t, v, hhead, hbody⟩
      have ht := reached_iff.mpr hhead
      exact ⟨t, ht, ((ht.sound hcfg hfd).accessFails_iff hcfg hbody).mp rfl⟩
    · rintro ⟨t, ht, hfails⟩
      obtain ⟨a, v, hbody⟩ := (reached_iff.mp ht).turns hloop
      obtain rfl := ((ht.sound hcfg hfd).accessFails_iff hcfg hbody).mpr hfails
      exact ⟨t, v, reached_iff.mp ht, hbody⟩

/-- Along a run of iterations the pages that an access returned are marked as remote, and no others. -/
theorem Sound.location_iff (hcfg : cfg.Admitted) {t : Benchmark} {as : List Seen}
    (hrun : Run (Turn (Benchmark.iteration cfg rpc) Benchmark.failed) b as t) (hb : b.Sound cfg)
    (hremote : b.pager.ctx.RemoteOnly) (p : Nat) :
    (t.pager.ctx.pageTable p).location = .locRemote ↔
      (b.pager.ctx.pageTable p).location = .locRemote ∨
        ∃ j page, as[j]? = some (some page) ∧ cfg.exactPageId (draw (b.i + j)) = p := by
  induction hrun with
  | nil b => simp
  | @cons b b₁ t a as hturn _ ih =>
      obtain ⟨id, hid, hb₁, hiter⟩ := hb.iterated hcfg hturn.2
      obtain ⟨hexact, hlt⟩ := pageId_exact hcfg hid
      rw [hb.randVal] at hexact
      obtain ⟨write, change, hcall⟩ := hiter.call
      obtain ⟨hremote₁, hloc⟩ :=
        call_access_location hb.rep hb.socket hremote (hb.size.symm ▸ hlt) hcall
      rw [ih hb₁ hremote₁, hloc, or_assoc]
      refine or_congr_right ⟨?_, ?_⟩
      · rintro (⟨rfl, hseen⟩ | ⟨j, page, hj, hp⟩)
        · obtain ⟨page, rfl⟩ := Option.ne_none_iff_exists'.mp hseen
          exact ⟨0, page, rfl, hexact.symm⟩
        · rw [hiter.next, Nat.add_assoc, Nat.add_comm 1 j] at hp
          exact ⟨j + 1, page, hj, hp⟩
      · rintro ⟨_ | j, page, hj, hp⟩
        · obtain rfl := Option.some.inj hj
          exact .inl ⟨hp.symm.trans hexact.symm, by simp⟩
        · rw [← Nat.add_assoc, Nat.add_right_comm, ← hiter.next] at hp
          exact .inr ⟨j, page, hj, hp⟩

/-- **Which pages are marked as remote** when an iteration starts: those outside the local ones, and those
that an earlier iteration has obtained. -/
theorem Reached.location_iff (hcfg : cfg.Admitted) {fd : Int} (hfd : 0 ≤ fd) {remote : Remote}
    (h : b.Reached cfg rpc (cfg.connected fd remote)) :
    ∃ earlier, Run (Turn (Benchmark.iteration cfg rpc) Benchmark.failed)
        (start (cfg.prepared fd remote)) earlier b ∧
      ∀ p < cfg.numVirtualPages.toNat, (b.pager.ctx.pageTable p).location = .locRemote ↔
        cfg.numPages.toNat ≤ p ∨
          ∃ j page, earlier[j]? = some (some page) ∧ cfg.exactPageId (draw j) = p := by
  obtain ⟨earlier, hrun, -⟩ := reached_iff.mp h
  refine ⟨earlier, hrun, fun p hp => ?_⟩
  have hnone : (start (cfg.prepared fd remote)).pager.ctx.RemoteOnly := by
    rintro q f ⟨-, hv, -⟩
    exact absurd (hv.symm.trans (prepared_entry cfg fd remote q).1) (by decide)
  have hloc := Sound.location_iff hcfg hrun (sound_start hcfg hfd remote) hnone p
  simp only [show (start (cfg.prepared fd remote)).i = 0 from rfl, Nat.zero_add] at hloc
  exact hloc.trans (or_congr_left ((prepared_entry cfg fd remote p).2.2 hp))

end Benchmark

/-- **When the benchmark reports failures.** For every pattern of RPC outcomes, `run_benchmark` returns,
and returns non-zero exactly if one of its accesses returned `NULL`, exactly if no iteration that is
reached divides by zero and, should an access fail in one of them, an access to a page that is marked
as remote does so, too. -/
theorem benchmark_reports_failures_iff (cfg : DsmClientConfig) (hcfg : cfg.Admitted) {fd : Int}
    (hfd : 0 ≤ fd) (remote : Remote) (rpc : Nat → RpcScript) :
    (∃ result, runBenchmark cfg rpc (cfg.connected fd remote) = some result ∧
      (result.code ≠ 0 ↔ none ∈ result.seen)) ↔
    (∀ b : Benchmark, b.Reached cfg rpc (cfg.connected fd remote) →
      cfg.numPages.toNat < cfg.numVirtualPages.toNat ∨
        b.randVal.toNat % 100 < cfg.localityPercent.toNat) ∧
    ((∃ b : Benchmark, b.Reached cfg rpc (cfg.connected fd remote) ∧ b.AccessFails cfg rpc) →
      ∃ b : Benchmark, b.Reached cfg rpc (cfg.connected fd remote) ∧
        b.RemoteAccessFails cfg rpc) := by
  have hreturns : (∃ result, runBenchmark cfg rpc (cfg.connected fd remote) = some result) ↔
      ∀ b : Benchmark, b.Reached cfg rpc (cfg.connected fd remote) →
        cfg.numPages.toNat < cfg.numVirtualPages.toNat ∨
          b.randVal.toNat % 100 < cfg.localityPercent.toNat := by
    rw [← Option.ne_none_iff_exists', ne_eq, Benchmark.runBenchmark_eq_none_iff hcfg hfd]
    simp only [pageId_isSome_iff hcfg, not_exists, not_and, not_not]
  constructor
  · rintro ⟨result, hrun, hreport⟩
    obtain ⟨hcode, hnull⟩ := Benchmark.runBenchmark_eq_some hcfg hfd hrun
    exact ⟨hreturns.mp ⟨result, hrun⟩, fun hfails => hcode.mp (hreport.mpr (hnull.mpr hfails))⟩
  · rintro ⟨hdivides, hnoticed⟩
    obtain ⟨result, hrun⟩ := hreturns.mpr hdivides
    obtain ⟨hcode, hnull⟩ := Benchmark.runBenchmark_eq_some hcfg hfd hrun
    refine ⟨result, hrun, fun hne => ?_, fun hmem => hcode.mpr (hnoticed (hnull.mp hmem))⟩
    obtain ⟨b, hb, id, hid, hfails, -⟩ := hcode.mp hne
    exact hnull.mpr ⟨b, hb, id, hid, hfails⟩

/-- Without a failure of an RPC there is nothing to report. -/
theorem benchmark_reports_failures_ok : ∃ result,
    runBenchmark onePageOfTwo okRpc (onePageOfTwo.connected 3 ⟨fun _ => zeroPage, []⟩) = some result ∧
      (result.code ≠ 0 ↔ none ∈ result.seen) := by
  refine (benchmark_reports_failures_iff onePageOfTwo onePageOfTwo_admitted (by decide) _ okRpc).mpr
    ⟨fun _ _ => .inl (by decide), ?_⟩
  rintro ⟨b, -, id, -, hfails⟩
  exact absurd hfails ((okRpc_succeeds b.i).not_fails _ _)

/-- **A failed access that is not noticed**: the first access is to page `0`, which is marked as local,
and its GET fails. The access returns `NULL`, and the benchmark returns 0. -/
theorem benchmark_misses_failure : ∃ cfg : DsmClientConfig, cfg.Admitted ∧ ∃ result,
    runBenchmark cfg (fun _ => ⟨.ok, .failed zeroPage, true⟩)
      (cfg.connected 3 ⟨fun _ => zeroPage, []⟩) = some result ∧
      result.seen = [none] ∧ result.code = 0 :=
  ⟨⟨1, 2, 1, 100, 0, false⟩, ⟨⟨1, 2, 1, 100, 0, false⟩, rfl, by decide⟩, _, rfl, rfl, rfl⟩

/-! ## The base of the hit rate -/

/-- The access of the iteration that starts here will prefetch. -/
def Benchmark.Prefetches (cfg : DsmClientConfig) (b : Benchmark) : Prop :=
  ∃ id, cfg.pageId b.randVal = some id ∧ b.pager.ctx.Prefetches id.toNat

/-- Without a failure of an RPC all iterations are made; each counts one access, and more exactly if
it prefetches. -/
theorem Benchmark.Sound.loop_counted {cfg : DsmClientConfig} {rpc : Nat → RpcScript}
    (hcfg : cfg.Admitted) (hlt : cfg.numPages.toNat < cfg.numVirtualPages.toNat)
    (hrpc : ∀ i, (rpc i).Succeeds) : ∀ {n : Nat} {b : Benchmark}, b.Sound cfg → b.failed = false →
    ∃ seen u extra,
      loop (Benchmark.iteration cfg rpc) Benchmark.failed n b = some (seen, u) ∧ seen.length = n ∧
      u.pager.ctx.totalAccesses = u64 (b.pager.ctx.totalAccesses + (n + extra)) ∧
      extra ≤ dsmPrefetchMax * n ∧
      (0 < extra ↔ ∃ t, Head (Benchmark.iteration cfg rpc) Benchmark.failed n b t ∧
        t.Prefetches cfg) := by
  intro n
  induction n with
  | zero =>
      intro b hb hok
      refine ⟨[], b, 0, rfl, rfl, (Nat.mod_mod _ _).symm, Nat.zero_le _, ?_⟩
      exact iff_of_false (lt_irrefl 0) fun ⟨t, hhead, _⟩ => not_head_zero hhead
  | succ n ih =>
      intro b hb hok
      obtain ⟨id, hid⟩ := (pageId_isSome_iff hcfg b.randVal).mpr (.inl hlt)
      obtain ⟨seen, b', heq, hb', hiter⟩ := hb.iteration hcfg hid rpc
      obtain ⟨write, change, hcall⟩ := hiter.call
      obtain ⟨page, s', first, hcall', htotal, hmax, hpos⟩ := call_counted hb.rep
        (hb.size.symm ▸ (pageId_exact hcfg hid).2) hb.socket (hrpc b.i) write change
      obtain ⟨rfl, rfl⟩ := Prod.mk.inj (Option.some.inj (hcall.symm.trans hcall'))
      obtain ⟨rest, u, later, hloop, hlen, htotal', hmax', hpos'⟩ :=
        ih hb' (hiter.not_failed (hrpc b.i))
      have hhere : b.Prefetches cfg ↔ 0 < first := by
        rw [hpos, Prefetches, exists_pageId_iff hid]
      refine ⟨some page :: rest, u, first + later, by rw [loop_turn hok heq, hloop]; rfl,
        congrArg (· + 1) hlen, ?_, ?_, ?_⟩
      · rw [htotal', htotal]
        simp only [u64]
        omega
      · rw [Nat.mul_succ]
        omega
      · simp only [head_turn_iff hok heq, or_and_right, exists_or, exists_eq_left, hhere, ← hpos']
        omega

/-- **When the hit accounting is exact.** On a fresh connected context and without a failure of an RPC,
the benchmark makes all its accesses, and `total_accesses` is their number exactly if none of them
prefetches: no access is a miss that counts as sequential, with a second frame free and a page marked
as remote among the next ones. -/
theorem total_accesses_exact_iff (cfg : DsmClientConfig) (hcfg : cfg.Admitted)
    (hlt : cfg.numPages.toNat < cfg.numVirtualPages.toNat) {fd : Int} (hfd : 0 ≤ fd)
    (remote : Remote) (rpc : Nat → RpcScript) (hrpc : ∀ i, (rpc i).Succeeds) :
    ∃ result, runBenchmark cfg rpc (cfg.connected fd remote) = some result ∧
      result.seen.length = cfg.numIterations.toNat ∧
      (result.totalAccesses = cfg.numIterations.toNat ↔
        ∀ b : Benchmark, b.Reached cfg rpc (cfg.connected fd remote) → ¬ b.Prefetches cfg) := by
  obtain ⟨seen, u, extra, hloop, hlen, htotal, hmax, hpos⟩ :=
    (Benchmark.sound_start hcfg hfd remote).loop_counted hcfg hlt hrpc
      (n := cfg.numIterations.toNat) rfl
  refine ⟨_, by rw [Benchmark.runBenchmark_connected, hloop]; rfl, hlen, ?_⟩
  have hzero : (∀ b : Benchmark, b.Reached cfg rpc (cfg.connected fd remote) → ¬ b.Prefetches cfg) ↔
      ¬ 0 < extra := by
    simp only [hpos, Benchmark.reached_iff, not_exists, not_and]
  -- At most nine are counted per iteration, so the counter does not wrap.
  have hn := cfg.numIterations.toNat_lt
  have hexact : u.pager.ctx.totalAccesses = cfg.numIterations.toNat + extra := by
    have hstart : (Benchmark.start (cfg.prepared fd remote)).pager.ctx.totalAccesses = 0 := rfl
    rw [htotal, hstart, Nat.zero_add]
    refine Nat.mod_eq_of_lt ?_
    simp only [dsmPrefetchMax] at hmax
    omega
  show u.pager.ctx.totalAccesses = cfg.numIterations.toNat ↔ _
  rw [hzero, hexact]
  omega

/-- One frame: nothing can be prefetched, and 1000 accesses count as 1000. -/
theorem total_accesses_one_frame : ∃ result,
    runBenchmark onePageOfTwo okRpc (onePageOfTwo.connected 3 ⟨fun _ => zeroPage, []⟩) = some result ∧
      result.totalAccesses = 1000 := by
  obtain ⟨result, hrun, -, hexact⟩ := total_accesses_exact_iff onePageOfTwo onePageOfTwo_admitted
    (by decide) (show (0 : Int) ≤ 3 by decide) ⟨fun _ => zeroPage, []⟩ okRpc okRpc_succeeds
  refine ⟨result, hrun, hexact.mpr fun b hb ⟨id, _, hpre⟩ => ?_⟩
  have hsound := hb.sound onePageOfTwo_admitted (by decide)
  have hfree := hsound.rep.consistent.no_overflow
  have hframes := hpre.frames
  rw [hsound.frames] at hfree
  exact absurd (hframes.trans hfree) (by decide)

/-- **One access that counts as two**: page `0` is accessed first, which counts as sequential, and page
`2`, which is marked as remote, is prefetched into the second frame. -/
theorem total_accesses_counts_prefetch : ∃ cfg : DsmClientConfig, cfg.Admitted ∧
    cfg.numPages < cfg.numVirtualPages ∧ cfg.numIterations = 1 ∧ ∃ result,
      runBenchmark cfg okRpc (cfg.connected 3 ⟨fun _ => zeroPage, []⟩) = some result ∧
      result.seen.length = 1 ∧ result.totalAccesses = 2 :=
  ⟨⟨2, 3, 1, 100, 0, false⟩, ⟨⟨2, 3, 1, 100, 0, false⟩, rfl, by decide⟩, by decide, rfl, _, rfl, rfl,
    rfl⟩

end Dsm.Client
