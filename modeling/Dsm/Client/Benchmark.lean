import Dsm.Lib.Loop
import Dsm.Client.Verify

/-!
# The benchmark (`run_benchmark` in `dsm_client.c`)

A linear congruential generator with a fixed seed chooses a page and a kind of access per iteration. The
page table is prepared first: pages below `num_pages` are marked `LOC_LOCAL`, the others
`LOC_REMOTE`. The loop ends early if an access fails whose page is marked as remote.

`none` is undefined behaviour, as in the pager; here it can also be a division by zero.
-/

namespace Dsm.Client

open Dsm.Paging Dsm.Lib

/-! ## The program -/

-- `LCG_MULT`, `LCG_INC` and `LCG_SEED`.
def lcgMult : UInt32 := 1103515245
def lcgInc : UInt32 := 12345
def lcgSeed : UInt32 := 12345

def lcgNext (x : UInt32) : UInt32 := x * lcgMult + lcgInc

def randVal (x : UInt32) : UInt32 := (x >>> 16) &&& 0x7FFF

/-- `a % b`, which is undefined for `b = 0`. -/
def checkedMod (a b : UInt32) : Option UInt32 := if b = 0 then none else some (a % b)

/-- The page an iteration with this random number accesses. -/
def DsmClientConfig.pageId (cfg : DsmClientConfig) (randVal : UInt32) : Option UInt32 :=
  if randVal % 100 < cfg.localityPercent.toUInt32 then
    checkedMod randVal cfg.numPages
  else
    (checkedMod randVal (cfg.numVirtualPages - cfg.numPages)).map (cfg.numPages + ·)

def DsmClientConfig.isWrite (cfg : DsmClientConfig) (writeRand : UInt32) : Bool :=
  writeRand % 100 < cfg.writePercent.toUInt32

/-- The first loop: where each page is said to be. -/
def presetLocations (cfg : DsmClientConfig) : (left i : Nat) → DsmContext → Option DsmContext
  | 0, _, ctx => some ctx
  | left + 1, i, ctx => do
    let entry ← ctx.entryAt i
    presetLocations cfg left (i + 1) (ctx.setEntry i
      { entry with location := if i < cfg.numPages.toNat then .locLocal else .locRemote })

/-- The variables of the second loop. -/
structure Benchmark where
  i : Nat
  lcgState : UInt32
  failed : Bool
  pager : Pager

/-- The random numbers of an iteration, for its page and for its kind. -/
def Benchmark.randVal (b : Benchmark) : UInt32 := Client.randVal (lcgNext b.lcgState)

def Benchmark.writeRand (b : Benchmark) : UInt32 := Client.randVal (lcgNext (lcgNext b.lcgState))

/-- `!page_ptr && ctx->page_table[page_id].location == LOC_REMOTE`. -/
def failureNoticed (ctx : DsmContext) (pageId : Nat) : Seen → Option Bool
  | none => (ctx.entryAt pageId).map fun entry => entry.location == .locRemote
  | some _ => some false

/-- One iteration, and what its access returned; `rpc i` is what happens to the RPCs of iteration `i`.
A write stores `(uint8_t)i` in the first byte of the page. -/
def Benchmark.iteration (cfg : DsmClientConfig) (rpc : Nat → RpcScript) (b : Benchmark) :
    Option (Seen × Benchmark) := do
  let pageId ← cfg.pageId b.randVal
  let write := if cfg.isWrite b.writeRand then 1 else 0
  let (seen, pager) ← b.pager.call
    (.access pageId.toNat write (fun page => page.set 0 (UInt8.ofNat b.i)) (rpc b.i))
  let failed ← failureNoticed pager.ctx pageId.toNat seen
  return (seen, ⟨b.i + 1, lcgNext (lcgNext b.lcgState), failed, pager⟩)

def Benchmark.start (s : Pager) : Benchmark := ⟨0, lcgSeed, false, s⟩

/-- The value of `run_benchmark`, what its accesses returned, `total_accesses`, and the pager with the
counters it prints. -/
structure BenchmarkResult where
  code : Int
  seen : List Seen
  totalAccesses : Nat
  pager : Pager

def runBenchmark (cfg : DsmClientConfig) (rpc : Nat → RpcScript) (s : Pager) :
    Option BenchmarkResult := do
  let ctx ← presetLocations cfg cfg.numVirtualPages.toNat 0 s.ctx
  let (seen, b) ← loop (Benchmark.iteration cfg rpc) Benchmark.failed cfg.numIterations.toNat
    (.start { s with ctx })
  return ⟨if b.failed then 1 else 0, seen, b.pager.ctx.totalAccesses, b.pager⟩

/-- The benchmark on the pager `s` comes to the start of an iteration with the variables `b`. -/
def Benchmark.Reached (cfg : DsmClientConfig) (rpc : Nat → RpcScript) (s : Pager) (b : Benchmark) :
    Prop :=
  ∃ ctx, presetLocations cfg cfg.numVirtualPages.toNat 0 s.ctx = some ctx ∧
    Head (Benchmark.iteration cfg rpc) Benchmark.failed cfg.numIterations.toNat
      (.start { s with ctx }) b

/-! ## The first loop -/

/-- What the first loop makes of a page's entry. -/
def DsmClientConfig.preset (cfg : DsmClientConfig) (p : Nat) (e : PageTableEntry) : PageTableEntry :=
  { e with location := if p < cfg.numPages.toNat then .locLocal else .locRemote }

theorem presetLocations_eq (cfg : DsmClientConfig) : ∀ (left i : Nat) (ctx : DsmContext),
    i + left ≤ ctx.numVirtualPages →
    presetLocations cfg left i ctx = some { ctx with
      pageTable := fun p => if i ≤ p ∧ p < i + left then cfg.preset p (ctx.pageTable p)
        else ctx.pageTable p } := by
  intro left
  induction left with
  | zero =>
      intro i ctx _
      have hnone : ∀ p, ¬ (i ≤ p ∧ p < i + 0) := fun p => by omega
      simp only [presetLocations, hnone, if_false]
  | succ left ih =>
      intro i ctx hle
      rw [presetLocations, entryAt_of_lt (by omega)]
      simp only [Option.bind_eq_bind, Option.bind_some]
      rw [ih (i + 1) _ (by simp only [DsmContext.setEntry]; omega)]
      simp only [DsmContext.setEntry, Option.some.injEq, DsmContext.mk.injEq, true_and, and_true]
      funext p
      by_cases hp : p = i
      · subst hp
        have h₁ : ¬ (p + 1 ≤ p ∧ p < p + 1 + left) := by omega
        have h₂ : p ≤ p ∧ p < p + (left + 1) := by omega
        rw [if_neg h₁, if_pos h₂, Function.update_self]
        rfl
      · have hiff : (i + 1 ≤ p ∧ p < i + 1 + left) ↔ (i ≤ p ∧ p < i + (left + 1)) := by omega
        simp only [hiff, Function.update_of_ne hp]

/-- The pager the second loop starts with. -/
def DsmClientConfig.prepared (cfg : DsmClientConfig) (fd : Int) (remote : Remote) : Pager :=
  { cfg.connected fd remote with
    ctx := { (cfg.connected fd remote).ctx with
      pageTable := fun p => if p < cfg.numVirtualPages.toNat then cfg.preset p {} else {} } }

theorem presetLocations_connected (cfg : DsmClientConfig) (fd : Int) (remote : Remote) :
    presetLocations cfg cfg.numVirtualPages.toNat 0 (cfg.connected fd remote).ctx =
      some (cfg.prepared fd remote).ctx := by
  have heq := presetLocations_eq cfg cfg.numVirtualPages.toNat 0 (cfg.connected fd remote).ctx
    (Nat.zero_add _).le
  simp only [Nat.zero_le, true_and, Nat.zero_add] at heq
  exact heq

/-- Before the first iteration no page is cached, and those outside the local ones are marked as
remote. -/
theorem prepared_entry (cfg : DsmClientConfig) (fd : Int) (remote : Remote) (p : Nat) :
    ((cfg.prepared fd remote).ctx.pageTable p).valid = false ∧
    ((cfg.prepared fd remote).ctx.pageTable p).frameNumber = 0 ∧
    (p < cfg.numVirtualPages.toNat →
      (((cfg.prepared fd remote).ctx.pageTable p).location = .locRemote ↔
        cfg.numPages.toNat ≤ p)) := by
  have hentry : (cfg.prepared fd remote).ctx.pageTable p =
      if p < cfg.numVirtualPages.toNat then cfg.preset p {} else {} := rfl
  rw [hentry]
  split_ifs with hp
  · refine ⟨rfl, rfl, fun _ => ?_⟩
    simp only [DsmClientConfig.preset]
    split_ifs with hlocal
    · simpa using hlocal
    · simpa using hlocal
  · exact ⟨rfl, rfl, fun hlt => absurd hlt hp⟩

/-! ## The page of an iteration -/

/-- The page number, computed without a bound on the size of numbers. -/
def DsmClientConfig.exactPageId (cfg : DsmClientConfig) (randVal : UInt32) : Nat :=
  if randVal.toNat % 100 < cfg.localityPercent.toNat then randVal.toNat % cfg.numPages.toNat
  else cfg.numPages.toNat +
    randVal.toNat % (cfg.numVirtualPages.toNat - cfg.numPages.toNat)

theorem local_iff (cfg : DsmClientConfig) (r : UInt32) :
    r % 100 < cfg.localityPercent.toUInt32 ↔ r.toNat % 100 < cfg.localityPercent.toNat := by
  rw [UInt32.lt_iff_toNat_lt, UInt32.toNat_mod, UInt8.toNat_toUInt32]
  rfl

theorem checkedMod_eq_some {a b r : UInt32} (h : checkedMod a b = some r) :
    b.toNat ≠ 0 ∧ r.toNat = a.toNat % b.toNat := by
  unfold checkedMod at h
  split_ifs at h with hb
  obtain rfl := Option.some.inj h
  exact ⟨fun hz => hb (UInt32.toNat_inj.mp hz), UInt32.toNat_mod a b⟩

section PageId

variable {cfg : DsmClientConfig} (hcfg : cfg.Admitted)

include hcfg

/-- A page number that is computed at all is the exact one and in range. -/
theorem pageId_exact {r id : UInt32} (h : cfg.pageId r = some id) :
    id.toNat = cfg.exactPageId r ∧ id.toNat < cfg.numVirtualPages.toNat := by
  obtain ⟨⟨hpos, hle, -⟩, -⟩ := cfg.admitted_iff.mp hcfg
  have hlt := cfg.numVirtualPages.toNat_lt
  have hsub : (cfg.numVirtualPages - cfg.numPages).toNat =
      cfg.numVirtualPages.toNat - cfg.numPages.toNat :=
    UInt32.toNat_sub_of_le _ _ (UInt32.le_iff_toNat_le.mpr hle)
  unfold DsmClientConfig.pageId at h
  unfold DsmClientConfig.exactPageId
  simp only [local_iff] at h
  split_ifs at h ⊢ with hlocal
  · obtain ⟨-, heq⟩ := checkedMod_eq_some h
    have := Nat.mod_lt r.toNat hpos
    exact ⟨heq, by omega⟩
  · obtain ⟨offset, hmod, rfl⟩ := Option.map_eq_some_iff.mp h
    obtain ⟨hne, heq⟩ := checkedMod_eq_some hmod
    rw [hsub] at hne heq
    have := Nat.mod_lt r.toNat (Nat.pos_of_ne_zero hne)
    have hadd : (cfg.numPages + offset).toNat = cfg.numPages.toNat + offset.toNat := by
      rw [UInt32.toNat_add]
      exact Nat.mod_eq_of_lt (by omega)
    exact ⟨by rw [hadd, heq], by omega⟩

/-- **When the page number can be computed**: there is a page outside the local ones, or the number
falls to the local ones. -/
theorem pageId_isSome_iff (r : UInt32) : (∃ id, cfg.pageId r = some id) ↔
    cfg.numPages.toNat < cfg.numVirtualPages.toNat ∨
      r.toNat % 100 < cfg.localityPercent.toNat := by
  obtain ⟨⟨hpos, hle, -⟩, -⟩ := cfg.admitted_iff.mp hcfg
  have hzero : cfg.numPages ≠ 0 := by
    intro hz
    rw [hz] at hpos
    exact absurd hpos (by decide)
  unfold DsmClientConfig.pageId
  simp only [local_iff]
  split_ifs with hlocal
  · exact iff_of_true ⟨_, if_neg hzero⟩ (.inr hlocal)
  · have hsub : cfg.numVirtualPages - cfg.numPages = 0 ↔
        cfg.numVirtualPages.toNat = cfg.numPages.toNat := by
      rw [← UInt32.toNat_inj, UInt32.toNat_sub_of_le _ _ (UInt32.le_iff_toNat_le.mpr hle)]
      show _ = 0 ↔ _
      omega
    rw [checkedMod]
    split_ifs with hz
    · have := hsub.mp hz
      refine iff_of_false (by simp) ?_
      omega
    · refine iff_of_true ⟨_, rfl⟩ (.inl ?_)
      have := mt hsub.mpr hz
      omega

end PageId

/-! ## One iteration -/

/-- The state of the generator before iteration `i`. -/
def lcgAt : Nat → UInt32
  | 0 => lcgSeed
  | i + 1 => lcgNext (lcgNext (lcgAt i))

/-- The random number that decides about the page of iteration `i`. -/
def draw (i : Nat) : UInt32 := randVal (lcgNext (lcgAt i))

namespace Benchmark

variable {cfg : DsmClientConfig} {rpc : Nat → RpcScript} {b b' : Benchmark}

/-- Between two iterations: the pager is sound and connected, and the generator is where it should be. -/
structure Sound (cfg : DsmClientConfig) (b : Benchmark) : Prop where
  rep : RepInv ∅ b.pager.ctx
  frames : b.pager.ctx.numPages = cfg.numPages.toNat
  size : b.pager.ctx.numVirtualPages = cfg.numVirtualPages.toNat
  socket : 0 ≤ b.pager.ctx.sockFd
  lcg : b.lcgState = lcgAt b.i

theorem Sound.randVal (hb : b.Sound cfg) : b.randVal = draw b.i := by
  rw [Benchmark.randVal, hb.lcg]
  rfl

/-- An iteration is an access to its page. -/
structure Iterated (rpc : Nat → RpcScript) (b : Benchmark) (id : UInt32) (seen : Seen)
    (b' : Benchmark) : Prop where
  call : ∃ write change,
    b.pager.call (.access id.toNat write change (rpc b.i)) = some (seen, b'.pager)
  next : b'.i = b.i + 1
  null_iff : seen = none ↔ b.pager.AccessFails id.toNat (rpc b.i)
  failed_iff : b'.failed = true ↔
    seen = none ∧ (b.pager.ctx.pageTable id.toNat).location = .locRemote

/-- Without a failure of an RPC there is nothing to notice. -/
theorem Iterated.not_failed {id : UInt32} {seen : Seen} (h : b.Iterated rpc id seen b')
    (hrpc : (rpc b.i).Succeeds) : b'.failed = false := by
  refine Bool.eq_false_iff.mpr fun hfailed => ?_
  exact hrpc.not_fails _ _ (h.null_iff.mp (h.failed_iff.mp hfailed).1)

/-- **One iteration** whose page number can be computed returns, and notices a failed access exactly if
the page is marked as remote. -/
theorem Sound.iteration (hcfg : cfg.Admitted) (hb : b.Sound cfg) {id : UInt32}
    (hid : cfg.pageId b.randVal = some id) (rpc : Nat → RpcScript) :
    ∃ seen b', b.iteration cfg rpc = some (seen, b') ∧ b'.Sound cfg ∧ b.Iterated rpc id seen b' := by
  have hlt : id.toNat < b.pager.ctx.numVirtualPages := hb.size.symm ▸ (pageId_exact hcfg hid).2
  obtain ⟨seen, pager, hcall, hrep, hnp, hnv, hfd, hentry⟩ := call_access_kept hb.rep hlt
    (if cfg.isWrite b.writeRand then 1 else 0) (fun page => page.set 0 (UInt8.ofNat b.i)) (rpc b.i)
  have hnull := call_access_none_iff hb.rep hb.socket hlt hcall
  have hsound : ∀ failed, Sound cfg ⟨b.i + 1, lcgNext (lcgNext b.lcgState), failed, pager⟩ :=
    fun _ => ⟨hrep, hnp.trans hb.frames, hnv.trans hb.size, hfd.symm ▸ hb.socket, by rw [hb.lcg]; rfl⟩
  unfold Benchmark.iteration
  rw [hid]
  simp only [Option.bind_eq_bind, Option.bind_some, hcall]
  cases seen with
  | none =>
      rw [failureNoticed, entryAt_of_lt (hnv.symm ▸ hlt), hentry rfl]
      exact ⟨none, _, rfl, hsound _, ⟨_, _, hcall⟩, rfl, hnull, by simp⟩
  | some page =>
      exact ⟨some page, _, rfl, hsound _, ⟨_, _, hcall⟩, rfl, hnull, by simp⟩

theorem Sound.iteration_none (hcfg : cfg.Admitted) (hb : b.Sound cfg) :
    b.iteration cfg rpc = none ↔ ¬ ∃ id, cfg.pageId b.randVal = some id := by
  constructor
  · rintro hnone ⟨id, hid⟩
    obtain ⟨seen, b', heq, -⟩ := hb.iteration hcfg hid rpc
    rw [hnone] at heq
    cases heq
  · intro hid
    have hnone : cfg.pageId b.randVal = none := Option.eq_none_iff_forall_ne_some.mpr
      fun id heq => hid ⟨id, heq⟩
    rw [Benchmark.iteration, hnone]
    rfl

/-- What an iteration that returned has done. -/
theorem Sound.iterated (hcfg : cfg.Admitted) (hb : b.Sound cfg) {seen : Seen}
    (h : b.iteration cfg rpc = some (seen, b')) :
    ∃ id, cfg.pageId b.randVal = some id ∧ b'.Sound cfg ∧ b.Iterated rpc id seen b' := by
  have hsome : ∃ id, cfg.pageId b.randVal = some id := by
    by_contra hid
    rw [(hb.iteration_none hcfg).mpr hid] at h
    cases h
  obtain ⟨id, hid⟩ := hsome
  obtain ⟨seen', b'', heq, hsound, hiter⟩ := hb.iteration hcfg hid rpc
  obtain ⟨rfl, rfl⟩ := Prod.mk.inj (Option.some.inj (heq.symm.trans h))
  exact ⟨id, hid, hsound, hiter⟩

theorem sound_start (hcfg : cfg.Admitted) {fd : Int} (hfd : 0 ≤ fd) (remote : Remote) :
    (start (cfg.prepared fd remote)).Sound cfg := by
  obtain ⟨⟨hpos, -⟩, -⟩ := cfg.admitted_iff.mp hcfg
  have hrep := RepInv.connect hpos cfg.numPages.toNat_lt cfg.numVirtualPages.toNat_lt fd
  exact ⟨hrep.congr (fun p => (prepared_entry cfg fd remote p).1)
    (fun p => (prepared_entry cfg fd remote p).2.1) rfl rfl rfl rfl hrep.hand_lt, rfl, rfl, hfd, rfl⟩

theorem reached_iff {fd : Int} {remote : Remote} :
    b.Reached cfg rpc (cfg.connected fd remote) ↔
      Head (Benchmark.iteration cfg rpc) Benchmark.failed cfg.numIterations.toNat
        (start (cfg.prepared fd remote)) b := by
  unfold Reached
  rw [presetLocations_connected]
  constructor
  · rintro ⟨_, ⟨⟩, hhead⟩
    exact hhead
  · exact fun hhead => ⟨_, rfl, hhead⟩

/-- Every iteration starts with a sound pager. -/
theorem Reached.sound (hcfg : cfg.Admitted) {fd : Int} (hfd : 0 ≤ fd) {remote : Remote}
    (h : b.Reached cfg rpc (cfg.connected fd remote)) : b.Sound cfg := by
  refine (reached_iff.mp h).invariant (Sound cfg) (fun s a t hs hturn => ?_)
    (sound_start hcfg hfd remote)
  obtain ⟨-, -, ht, -⟩ := hs.iterated hcfg hturn
  exact ht

/-- Without a failure of an RPC the loop comes to iteration `k`, if it comes through the page numbers
before it. -/
theorem Sound.reaches (hcfg : cfg.Admitted) (hrpc : ∀ i, (rpc i).Succeeds) : ∀ {n k : Nat}
    {b : Benchmark}, b.Sound cfg → b.failed = false → k < n →
    (∀ j < k, ∃ id, cfg.pageId (draw (b.i + j)) = some id) →
    ∃ t, Head (Benchmark.iteration cfg rpc) Benchmark.failed n b t ∧ t.i = b.i + k := by
  intro n k
  induction k generalizing n with
  | zero =>
      intro b hb hok hlt _
      obtain ⟨m, rfl⟩ : ∃ m, n = m + 1 := ⟨n - 1, by omega⟩
      exact ⟨b, head_succ_iff.mpr ⟨hok, .inl rfl⟩, rfl⟩
  | succ k ih =>
      intro b hb hok hlt hids
      obtain ⟨m, rfl⟩ : ∃ m, n = m + 1 := ⟨n - 1, by omega⟩
      obtain ⟨id, hid⟩ := hids 0 (Nat.succ_pos k)
      rw [Nat.add_zero, ← hb.randVal] at hid
      obtain ⟨seen, b', heq, hb', hiter⟩ := hb.iteration hcfg hid rpc
      obtain ⟨t, hhead, hi⟩ := ih hb' (hiter.not_failed (hrpc b.i)) (Nat.lt_of_succ_lt_succ hlt) (fun j hj => by
        have := hids (j + 1) (Nat.succ_lt_succ hj)
        rwa [hiter.next, Nat.add_assoc, Nat.add_comm 1 j])
      refine ⟨t, (head_turn_iff hok heq).mpr (.inr hhead), ?_⟩
      rw [hi, hiter.next]
      omega

/-- The loop counter stays below its bound. -/
theorem Reached.i_lt {s : Pager} (h : b.Reached cfg rpc s) : b.i < cfg.numIterations.toNat := by
  obtain ⟨ctx, -, hhead⟩ := h
  have hlt := hhead.count_lt Benchmark.i fun b a b' heq => by
    simp only [Benchmark.iteration, Option.bind_eq_bind, Option.bind_eq_some_iff] at heq
    obtain ⟨id, -, ⟨seen, pager⟩, -, failed, -, heq⟩ := heq
    cases heq
    rfl
  rwa [show (start { s with ctx }).i + cfg.numIterations.toNat = _ from Nat.zero_add _] at hlt

theorem runBenchmark_connected (cfg : DsmClientConfig) (rpc : Nat → RpcScript) (fd : Int)
    (remote : Remote) : runBenchmark cfg rpc (cfg.connected fd remote) =
      (loop (Benchmark.iteration cfg rpc) Benchmark.failed cfg.numIterations.toNat
        (start (cfg.prepared fd remote))).map fun (seen, b) =>
          ⟨if b.failed then 1 else 0, seen, b.pager.ctx.totalAccesses, b.pager⟩ := by
  rw [runBenchmark, presetLocations_connected]
  simp only [Option.bind_eq_bind, Option.bind_some]
  show Option.bind (loop _ _ _ (start (cfg.prepared fd remote))) _ = _
  cases loop (Benchmark.iteration cfg rpc) Benchmark.failed cfg.numIterations.toNat
    (start (cfg.prepared fd remote)) <;> rfl

/-- **The benchmark goes wrong** exactly if an iteration is reached whose page number cannot be
computed. -/
theorem runBenchmark_eq_none_iff (hcfg : cfg.Admitted) {fd : Int} (hfd : 0 ≤ fd)
    (remote : Remote) : runBenchmark cfg rpc (cfg.connected fd remote) = none ↔
      ∃ b : Benchmark, b.Reached cfg rpc (cfg.connected fd remote) ∧
        ¬ ∃ id, cfg.pageId b.randVal = some id := by
  rw [runBenchmark_connected, Option.map_eq_none_iff, loop_eq_none_iff]
  refine exists_congr fun b => ?_
  rw [← reached_iff]
  exact and_congr_right fun hreached => (hreached.sound hcfg hfd).iteration_none hcfg

end Benchmark

/-! ## The page numbers -/

/-- No RPC fails. -/
def okRpc : Nat → RpcScript := fun _ => ⟨.ok, .ok, true⟩

theorem okRpc_succeeds (i : Nat) : (okRpc i).Succeeds := ⟨rfl, rfl, rfl⟩

/-- Without a failure of an RPC, iteration `k` is reached if the page numbers before it can be computed. -/
theorem reached_draw {cfg : DsmClientConfig} (hcfg : cfg.Admitted) {fd : Int} (hfd : 0 ≤ fd)
    (remote : Remote) {k : Nat} (hk : k < cfg.numIterations.toNat)
    (hids : ∀ j < k, ∃ id, cfg.pageId (draw j) = some id) :
    ∃ b : Benchmark, b.Reached cfg okRpc (cfg.connected fd remote) ∧ b.i = k := by
  have hstart := Benchmark.sound_start hcfg hfd remote
  obtain ⟨b, hhead, hi⟩ := hstart.reaches hcfg okRpc_succeeds rfl hk
    (fun j hj => by
      rw [show (Benchmark.start (cfg.prepared fd remote)).i + j = j from Nat.zero_add j]
      exact hids j hj)
  exact ⟨b, Benchmark.reached_iff.mpr hhead, hi.trans (Nat.zero_add k)⟩

/-- The locality that keeps all page numbers of a run among the local pages: one more than the largest
remainder modulo 100 that the generator has come to. -/
def localityNeeded (numIterations : Nat) : Nat :=
  if numIterations = 0 then 0
  else if numIterations ≤ 7 then 69
  else if numIterations ≤ 10 then 76
  else if numIterations ≤ 20 then 92
  else if numIterations ≤ 22 then 93
  else if numIterations ≤ 101 then 98
  else 100

/-- The iterations at which a new largest remainder comes up. -/
theorem draw_records : (draw 0).toNat % 100 = 68 ∧ (draw 7).toNat % 100 = 75 ∧
    (draw 10).toNat % 100 = 91 ∧ (draw 20).toNat % 100 = 92 ∧ (draw 22).toNat % 100 = 97 ∧
    (draw 101).toNat % 100 = 99 := by
  decide +kernel

/-- Between them the remainders are no larger. -/
theorem draw_bounds : (∀ i < 7, (draw i).toNat % 100 < 69) ∧ (∀ i < 10, (draw i).toNat % 100 < 76) ∧
    (∀ i < 20, (draw i).toNat % 100 < 92) ∧ (∀ i < 22, (draw i).toNat % 100 < 93) ∧
    ∀ i < 101, (draw i).toNat % 100 < 98 := by
  decide +kernel

/-- **When all the numbers fall to the local pages.** -/
theorem draws_local_iff (n l : Nat) :
    (∀ i < n, (draw i).toNat % 100 < l) ↔ localityNeeded n ≤ l := by
  unfold localityNeeded
  constructor
  · intro hall
    have record : ∀ {i m : Nat}, (draw i).toNat % 100 = m → i < n → m + 1 ≤ l :=
      fun hm hi => hm ▸ hall _ hi
    obtain ⟨h₀, h₇, h₁₀, h₂₀, h₂₂, h₁₀₁⟩ := draw_records
    split_ifs with c₀ c₇ c₁₀ c₂₀ c₂₂ c₁₀₁
    · exact Nat.zero_le l
    · exact record h₀ (by omega)
    · exact record h₇ (by omega)
    · exact record h₁₀ (by omega)
    · exact record h₂₀ (by omega)
    · exact record h₂₂ (by omega)
    · exact record h₁₀₁ (by omega)
  · intro hle i hi
    obtain ⟨b₇, b₁₀, b₂₀, b₂₂, b₁₀₁⟩ := draw_bounds
    split_ifs at hle with c₀ c₇ c₁₀ c₂₀ c₂₂ c₁₀₁
    · omega
    · exact (b₇ i (by omega)).trans_le hle
    · exact (b₁₀ i (by omega)).trans_le hle
    · exact (b₂₀ i (by omega)).trans_le hle
    · exact (b₂₂ i (by omega)).trans_le hle
    · exact (b₁₀₁ i (by omega)).trans_le hle
    · exact (Nat.mod_lt _ (by decide)).trans_le hle

/-- **When the benchmark stays in range.** Every iteration that a run comes to computes its page number
without a division by zero and without overflow, and the page exists, exactly if there are pages outside
the local ones, or the locality is larger than all remainders that come up in as many iterations. -/
theorem benchmark_in_range_iff (cfg : DsmClientConfig) (hcfg : cfg.Admitted) :
    (∀ (fd : Int) (remote : Remote) (rpc : Nat → RpcScript) (b : Benchmark), 0 ≤ fd →
      b.Reached cfg rpc (cfg.connected fd remote) →
      ∃ id, cfg.pageId b.randVal = some id ∧ id.toNat = cfg.exactPageId b.randVal ∧
        id.toNat < cfg.numVirtualPages.toNat) ↔
    cfg.numPages.toNat < cfg.numVirtualPages.toNat ∨
      localityNeeded cfg.numIterations.toNat ≤ cfg.localityPercent.toNat := by
  rw [← draws_local_iff]
  constructor
  · intro hall
    by_contra hbad
    obtain ⟨hpages, hdraws⟩ := not_or.mp hbad
    -- The first iteration whose number does not fall to the local pages is reached.
    have hex : ∃ i, i < cfg.numIterations.toNat ∧ ¬ (draw i).toNat % 100 < cfg.localityPercent.toNat := by
      simpa only [not_forall, exists_prop] using hdraws
    obtain ⟨hlt, hnot⟩ := Nat.find_spec hex
    have hbefore : ∀ j < Nat.find hex, ∃ id, cfg.pageId (draw j) = some id := by
      intro j hj
      refine (pageId_isSome_iff hcfg _).mpr (.inr ?_)
      by_contra hj'
      exact Nat.find_min hex hj ⟨hj.trans hlt, hj'⟩
    obtain ⟨b, hreached, hi⟩ := reached_draw hcfg (show (0 : Int) ≤ 0 by decide) ⟨fun _ => zeroPage, []⟩
      hlt hbefore
    obtain ⟨id, hid, -⟩ := hall 0 _ _ b le_rfl hreached
    rw [(hreached.sound hcfg le_rfl).randVal, hi] at hid
    exact ((pageId_isSome_iff hcfg _).mp ⟨id, hid⟩).elim hpages hnot
  · intro hgood fd remote rpc b hfd hreached
    have hb := hreached.sound hcfg hfd
    have hsome : ∃ id, cfg.pageId b.randVal = some id := by
      refine (pageId_isSome_iff hcfg _).mpr (hgood.imp_right fun hdraws => ?_)
      rw [hb.randVal]
      exact hdraws b.i hreached.i_lt
    obtain ⟨id, hid⟩ := hsome
    exact ⟨id, hid, pageId_exact hcfg hid⟩

/-- One local page of two. -/
def onePageOfTwo : DsmClientConfig := ⟨1, 2, 1000, 0, 10, false⟩

theorem onePageOfTwo_admitted : onePageOfTwo.Admitted := ⟨onePageOfTwo, rfl, by decide⟩

theorem benchmark_in_range_two_pages : onePageOfTwo.numPages < onePageOfTwo.numVirtualPages ∧
    ∀ (rpc : Nat → RpcScript) (b : Benchmark),
      b.Reached onePageOfTwo rpc (onePageOfTwo.connected 3 ⟨fun _ => zeroPage, []⟩) →
      ∃ id, onePageOfTwo.pageId b.randVal = some id ∧
        id.toNat = onePageOfTwo.exactPageId b.randVal ∧ id.toNat < 2 :=
  ⟨by decide, fun rpc b => (benchmark_in_range_iff onePageOfTwo onePageOfTwo_admitted).mpr
    (.inl (by decide)) 3 _ rpc b (by decide)⟩

/-- The defaults, with as many virtual as local pages. -/
def onlyLocalPages : DsmClientConfig := { dsmClientConfigDefault with numVirtualPages := 256 }

/-- **With as many virtual as local pages** the defaults divide by zero in iteration `10`, without any
failure of an RPC: the generator comes to a remainder of 91, and 80 is not enough. -/
theorem benchmark_divides_by_zero : onlyLocalPages.Admitted ∧
    onlyLocalPages.numVirtualPages - onlyLocalPages.numPages = 0 ∧
    (∃ b : Benchmark,
      b.Reached onlyLocalPages okRpc (onlyLocalPages.connected 3 ⟨fun _ => zeroPage, []⟩) ∧
      b.i = 10 ∧ onlyLocalPages.pageId b.randVal = none) ∧
    runBenchmark onlyLocalPages okRpc (onlyLocalPages.connected 3 ⟨fun _ => zeroPage, []⟩) =
      none := by
  have hcfg : onlyLocalPages.Admitted := ⟨onlyLocalPages, rfl, by decide⟩
  have hfd : (0 : Int) ≤ 3 := by decide
  have hbefore : ∀ j < 10, ∃ id, onlyLocalPages.pageId (draw j) = some id := fun j hj =>
    (pageId_isSome_iff hcfg _).mpr (.inr ((draws_local_iff 10 80).mpr (by decide) j hj))
  obtain ⟨b, hreached, hi⟩ := reached_draw hcfg hfd ⟨fun _ => zeroPage, []⟩ (by decide) hbefore
  have hnot : ¬ ∃ id, onlyLocalPages.pageId b.randVal = some id := by
    rw [pageId_isSome_iff hcfg, (hreached.sound hcfg hfd).randVal, hi]
    decide +kernel
  refine ⟨hcfg, rfl, ⟨b, hreached, hi, Option.eq_none_iff_forall_ne_some.mpr fun id hid =>
    hnot ⟨id, hid⟩⟩, (Benchmark.runBenchmark_eq_none_iff hcfg hfd _).mpr ⟨b, hreached, hnot⟩⟩

end Dsm.Client
