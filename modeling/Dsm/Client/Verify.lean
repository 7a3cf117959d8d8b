import Dsm.Client.Config
import Dsm.Paging.Outcome

/-!
# Verification (`run_verify` in `dsm_client.c`)

One pass fills every page with a pattern of its own, a second pass reads every page back and compares.
The program is written against any memory of pages (`PageAccess`), so that it can be asked what it
would find out about a memory that mixes pages up. On the pager itself it never finds a mismatch,
whatever the RPCs do (`runVerify_pager`).

The pattern of page `p` is `p * 2654435761 + i` at byte `i`, cut down to eight bits. So only the last
eight bits of the page number are in it, and pages that are 256 apart look the same.
-/

namespace Dsm.Client

open Dsm.Paging

/-! ## The program -/

/-- `(uint8_t)((p * 2654435761u + i) & 0xFF)`. -/
def patternByte (p i : Nat) : UInt8 := UInt8.ofNat (u32 (u32 (p * 2654435761) + i) &&& 0xFF)

def verifyPattern (p : Nat) : Page := Vector.ofFn fun i => patternByte p i

/-- How verification can end. -/
inductive VerifyEnd where
  | cannotWrite (p : Nat)
  | cannotRead (p : Nat)
  | mismatch (p : Nat)
  | ok (pages : Nat)
  deriving DecidableEq

def VerifyEnd.message : VerifyEnd → String
  | .cannotWrite p => "VERIFY FAILED: cannot access page " ++ toString p ++ " for write"
  | .cannotRead p => "VERIFY FAILED: cannot access page " ++ toString p ++ " for read"
  | .mismatch p => "VERIFY FAILED: page " ++ toString p ++ " contents mismatch"
  | .ok pages => "VERIFY OK " ++ toString pages ++ " pages"

def VerifyEnd.exitCode : VerifyEnd → Int
  | .ok _ => 0
  | _ => 1

/-- A memory of pages, as `dsm_access_page` lets its caller see one. -/
abbrev PageAccess (σ : Type) :=
  σ → (pageId : Nat) → (write : Int32) → (change : Page → Page) → Option (Seen × σ)

section Program

variable {σ : Type} (access : PageAccess σ)

/-- Pass 1. The answer is what it gives up with, if it does. -/
def verifyWrites : (left p : Nat) → σ → Option (Option VerifyEnd × σ)
  | 0, _, s => some (none, s)
  | left + 1, p, s => do
    let (seen, s) ← access s p 1 fun _ => verifyPattern p
    match seen with
    | none => return (some (.cannotWrite p), s)
    | some _ => verifyWrites left (p + 1) s

/-- Pass 2, with the pages it obtained. -/
def verifyReads : (left p : Nat) → σ → Option (Option VerifyEnd × List (Nat × Page) × σ)
  | 0, _, s => some (none, [], s)
  | left + 1, p, s => do
    let (seen, s) ← access s p 0 id
    match seen with
    | none => return (some (.cannotRead p), [], s)
    | some bytes =>
        if bytes ≠ verifyPattern p then
          return (some (.mismatch p), [(p, bytes)], s)
        else do
          let (failed, obtained, s) ← verifyReads left (p + 1) s
          return (failed, (p, bytes) :: obtained, s)

/-- What `run_verify` ends with, and the pages its second pass obtained. -/
structure Verification (σ : Type) where
  outcome : VerifyEnd
  obtained : List (Nat × Page)
  state : σ

def runVerify (cfg : DsmClientConfig) (s : σ) : Option (Verification σ) := do
  let numVirtualPages := cfg.numVirtualPages.toNat
  let (failed, s) ← verifyWrites access numVirtualPages 0 s
  match failed with
  | some outcome => return ⟨outcome, [], s⟩
  | none =>
      let (failed, obtained, s) ← verifyReads access numVirtualPages 0 s
      return ⟨failed.getD (.ok numVirtualPages), obtained, s⟩

end Program

/-- The pager as a memory of pages; `rpc n` is what happens to the RPCs of access number `n`. -/
def pagerAccess (rpc : Nat → RpcScript) : PageAccess (Nat × Pager) := fun s p write change =>
  (s.2.call (.access p write change (rpc s.1))).map fun (seen, pager) => (seen, s.1 + 1, pager)

/-- The context that `main` creates and connects. -/
def DsmClientConfig.connected (cfg : DsmClientConfig) (fd : Int) (remote : Remote) : Pager :=
  ⟨dsmContextSetSocket (dsmCreateContext cfg.numPages.toNat cfg.numVirtualPages.toNat) fd, remote⟩

/-! ## The pattern -/

theorem patternByte_toNat (p i : Nat) : (patternByte p i).toNat = (177 * p + i) % 256 := by
  have hand : ∀ n : Nat, n &&& 0xFF = n % 256 := fun n => Nat.and_two_pow_sub_one_eq_mod n 8
  rw [patternByte, UInt8.toNat_ofNat', hand]
  simp only [u32]
  omega

/-- **Which patterns are equal.** -/
theorem verifyPattern_eq_iff (p q : Nat) : verifyPattern p = verifyPattern q ↔ p % 256 = q % 256 := by
  constructor
  · intro h
    have hfirst : (patternByte p 0).toNat = (patternByte q 0).toNat := by
      have := congrArg (fun page : Page => page[0].toNat) h
      simpa [verifyPattern] using this
    rw [patternByte_toNat, patternByte_toNat] at hfirst
    omega
  · intro h
    have hbyte : ∀ i, patternByte p i = patternByte q i := by
      intro i
      rw [← UInt8.toNat_inj, patternByte_toNat, patternByte_toNat]
      omega
    simp only [verifyPattern, hbyte]

/-! ## What verification finds out -/

section Finding

variable {σ : Type} {access : PageAccess σ}

/-- The second pass gives up, or it has obtained the pattern of every page it has read. -/
theorem verifyReads_end : ∀ {left p : Nat} {s s' : σ} {failed : Option VerifyEnd}
    {obtained : List (Nat × Page)}, verifyReads access left p s = some (failed, obtained, s') →
    (∃ e, failed = some e ∧ e.exitCode = 1) ∨
      failed = none ∧ ∀ x ∈ obtained, x.1 < p + left ∧ x.2 = verifyPattern x.1 := by
  intro left
  induction left with
  | zero =>
      rintro p s s' failed obtained ⟨⟩
      exact .inr ⟨rfl, fun x hx => absurd hx List.not_mem_nil⟩
  | succ left ih =>
      intro p s s' failed obtained h
      rw [verifyReads] at h
      simp only [Option.bind_eq_bind, Option.bind_eq_some_iff] at h
      obtain ⟨⟨seen, s₁⟩, -, h⟩ := h
      cases seen with
      | none =>
          cases h
          exact .inl ⟨_, rfl, rfl⟩
      | some bytes =>
          simp only at h
          split_ifs at h with hbytes
          · cases h
            exact .inl ⟨_, rfl, rfl⟩
          · simp only [Option.bind_eq_some_iff] at h
            obtain ⟨⟨failed', rest, s₂⟩, hrest, heq⟩ := h
            cases heq
            refine (ih hrest).imp_right (And.imp_right fun hall x hx => ?_)
            rcases List.mem_cons.mp hx with rfl | hx
            · exact ⟨by omega, not_not.mp hbytes⟩
            · obtain ⟨hlt, hpat⟩ := hall x hx
              exact ⟨by omega, hpat⟩

/-- **Verification returns 1, or it has read every page's own pattern.** -/
theorem runVerify_end {cfg : DsmClientConfig} {s : σ} {v : Verification σ}
    (h : runVerify access cfg s = some v) : v.outcome.exitCode = 1 ∨
      ∀ x ∈ v.obtained, x.1 < cfg.numVirtualPages.toNat ∧ x.2 = verifyPattern x.1 := by
  unfold runVerify at h
  simp only [Option.bind_eq_bind, Option.bind_eq_some_iff] at h
  obtain ⟨⟨failed, s₁⟩, -, h⟩ := h
  cases failed with
  | some outcome =>
      obtain rfl := Option.some.inj h
      exact .inr fun x hx => absurd hx List.not_mem_nil
  | none =>
      simp only [Option.bind_eq_some_iff] at h
      obtain ⟨⟨failed, obtained, s₂⟩, hreads, h⟩ := h
      obtain rfl := Option.some.inj h
      rcases verifyReads_end hreads with ⟨e, rfl, hcode⟩ | ⟨-, hall⟩
      · exact .inl hcode
      · rw [Nat.zero_add] at hall
        exact .inr hall

/-- A memory that keeps what is written to its first `n` pages, and may refuse an access only if
`fails`. In a state with `Inv k` the pages below `k` hold their patterns. -/
structure Keeps (access : PageAccess σ) (n : Nat) (fails : Prop) (Inv : Nat → σ → Prop) : Prop where
  write : ∀ p s, p < n → Inv p s → ∃ seen s',
    access s p 1 (fun _ => verifyPattern p) = some (seen, s') ∧ (seen = none → fails) ∧
      (seen ≠ none → Inv (p + 1) s')
  read : ∀ p s, p < n → Inv n s → ∃ seen s', access s p 0 id = some (seen, s') ∧
    (seen = none → fails) ∧ (∀ bytes, seen = some bytes → bytes = verifyPattern p) ∧ Inv n s'

namespace Keeps

variable {n : Nat} {fails : Prop} {Inv : Nat → σ → Prop} (h : Keeps access n fails Inv)

include h

theorem writes : ∀ {left p : Nat} {s : σ}, p + left = n → Inv p s →
    ∃ failed s', verifyWrites access left p s = some (failed, s') ∧
      (failed = none ∧ Inv n s' ∨ fails ∧ ∃ q, failed = some (.cannotWrite q)) := by
  intro left
  induction left with
  | zero =>
      rintro p s rfl hs
      exact ⟨none, s, rfl, .inl ⟨rfl, hs⟩⟩
  | succ left ih =>
      intro p s hn hs
      obtain ⟨seen, s₁, heq, hfails, hnext⟩ := h.write p s (by omega) hs
      cases seen with
      | none =>
          exact ⟨_, s₁, by rw [verifyWrites, heq]; rfl, .inr ⟨hfails rfl, p, rfl⟩⟩
      | some bytes =>
          obtain ⟨failed, s₂, hrest, hend⟩ := ih (p := p + 1) (by omega) (hnext (by simp))
          exact ⟨failed, s₂, by rw [verifyWrites, heq]; exact hrest, hend⟩

theorem reads : ∀ {left p : Nat} {s : σ}, p + left = n → Inv n s →
    ∃ failed obtained s', verifyReads access left p s = some (failed, obtained, s') ∧
      (failed = none ∧ obtained = (List.range' p left).map (fun q => (q, verifyPattern q)) ∨
        fails ∧ ∃ q, failed = some (.cannotRead q)) := by
  intro left
  induction left with
  | zero => exact fun {p s} _ _ => ⟨none, [], s, rfl, .inl ⟨rfl, rfl⟩⟩
  | succ left ih =>
      intro p s hn hs
      obtain ⟨seen, s₁, heq, hfails, hbytes, hs₁⟩ := h.read p s (by omega) hs
      cases seen with
      | none =>
          exact ⟨_, _, s₁, by rw [verifyReads, heq]; rfl, .inr ⟨hfails rfl, p, rfl⟩⟩
      | some bytes =>
          have hb := hbytes bytes rfl
          obtain ⟨failed, obtained, s₂, hrest, hend⟩ := ih (p := p + 1) (by omega) hs₁
          refine ⟨failed, (p, verifyPattern p) :: obtained, s₂, ?_, hend.imp_left ?_⟩
          · rw [verifyReads, heq]
            simp only [Option.bind_eq_bind, Option.bind_some]
            rw [if_neg (not_not.mpr hb), hrest, hb]
            rfl
          · rintro ⟨rfl, rfl⟩
            exact ⟨rfl, by rw [List.range'_succ, List.map_cons]⟩

/-- **Verification of a memory that keeps its pages** finds no mismatch. -/
theorem run {cfg : DsmClientConfig} (hn : cfg.numVirtualPages.toNat = n) {s : σ} (hs : Inv 0 s) :
    ∃ v, runVerify access cfg s = some v ∧
      (v.outcome = .ok n ∧ v.obtained = (List.range n).map (fun q => (q, verifyPattern q)) ∨
        fails ∧ ∃ q, v.outcome = .cannotWrite q ∨ v.outcome = .cannotRead q) := by
  obtain ⟨failed, s₁, hwrites, hend⟩ := h.writes (Nat.zero_add n) hs
  rcases hend with ⟨rfl, hs₁⟩ | ⟨hfails, q, rfl⟩
  · obtain ⟨failed, obtained, s₂, hreads, hend⟩ := h.reads (Nat.zero_add n) hs₁
    refine ⟨⟨failed.getD (.ok n), obtained, s₂⟩, ?_, ?_⟩
    · simp [runVerify, hn, hwrites, hreads]
    · rcases hend with ⟨rfl, rfl⟩ | ⟨hfails, q, rfl⟩
      · exact .inl ⟨rfl, by rw [List.range_eq_range']⟩
      · exact .inr ⟨hfails, q, .inr rfl⟩
  · refine ⟨⟨.cannotWrite q, [], s₁⟩, ?_, .inr ⟨hfails, q, .inl rfl⟩⟩
    simp [runVerify, hn, hwrites]

end Keeps

end Finding

/-! ## Verification of the pager -/

/-- The pager keeps its pages, and refuses an access only if an RPC fails. -/
theorem keeps_pager (n : Nat) (rpc : Nat → RpcScript) :
    Keeps (pagerAccess rpc) n (∃ i, ¬ (rpc i).Succeeds) fun k s =>
      ∃ mem, Represents mem n s.2 ∧ ∀ q < k, mem q = verifyPattern q := by
  have refused : ∀ {i : Nat} {s s' : Pager} {mem : Nat → Page} {p : Nat} {write : Int32}
      {change : Page → Page} {seen : Seen}, p < n → Represents mem n s →
      s.call (.access p write change (rpc i)) = some (seen, s') → seen = none →
      ∃ i, ¬ (rpc i).Succeeds := by
    intro i s s' mem p write change seen hp hrep hcall hnone
    have hfails := (call_access_none_iff hrep.rep hrep.socket (hrep.size.symm ▸ hp) hcall).mp hnone
    exact ⟨i, fun hok => hok.not_fails s p hfails⟩
  constructor
  · rintro p ⟨i, s⟩ hp ⟨mem, hrep, hmem⟩
    obtain ⟨seen, s', mem', hcall, hrep', hflat⟩ := hrep.call
      (c := .access p 1 (fun _ => verifyPattern p) (rpc i)) ⟨hp, .inr rfl⟩
    refine ⟨seen, (i + 1, s'), by simp [pagerAccess, hcall], refused hp hrep hcall, fun hseen => ?_⟩
    obtain ⟨bytes, rfl⟩ := Option.ne_none_iff_exists'.mp hseen
    -- The memory after the access is the one before it, with the pattern in page p.
    have hmem' : Function.update mem p (verifyPattern p) = mem' := (hflat []).2
    refine ⟨mem', hrep', fun q hq => ?_⟩
    rw [← hmem']
    by_cases hqp : q = p
    · rw [hqp, Function.update_self]
    · rw [Function.update_of_ne hqp]
      exact hmem q (by omega)
  · rintro p ⟨i, s⟩ hp ⟨mem, hrep, hmem⟩
    obtain ⟨seen, s', mem', hcall, hrep', hflat⟩ := hrep.call
      (c := .access p 0 id (rpc i)) ⟨hp, .inl rfl⟩
    refine ⟨seen, (i + 1, s'), by simp [pagerAccess, hcall], refused hp hrep hcall, ?_, mem', hrep', ?_⟩
    · rintro bytes rfl
      obtain ⟨hbytes, -⟩ := (hflat []).1 trivial
      exact hbytes.trans (hmem p hp)
    · have hmem' : mem = mem' := by
        cases seen with
        | none => exact (hflat []).2
        | some bytes => exact (hflat []).2
      exact hmem' ▸ hmem

/-- **Verification of the pager** finds no mismatch, whatever the RPCs do; and if none of them fails it
returns 0. -/
theorem runVerify_pager {cfg : DsmClientConfig} (hcfg : cfg.Admitted) {fd : Int} (hfd : 0 ≤ fd)
    (remote : Remote) (rpc : Nat → RpcScript) :
    ∃ v, runVerify (pagerAccess rpc) cfg (0, cfg.connected fd remote) = some v ∧
      (∀ p, v.outcome ≠ .mismatch p) ∧
      ((∀ i, (rpc i).Succeeds) → v.outcome.exitCode = 0) := by
  obtain ⟨⟨hpos, -⟩, -⟩ := cfg.admitted_iff.mp hcfg
  have hstart := Represents.connect hpos cfg.numPages.toNat_lt cfg.numVirtualPages.toNat_lt hfd remote
  obtain ⟨v, heq, hend⟩ := (keeps_pager cfg.numVirtualPages.toNat rpc).run rfl
    (s := (0, cfg.connected fd remote)) ⟨remote.store, hstart, fun q hq => absurd hq (Nat.not_lt_zero q)⟩
  refine ⟨v, heq, ?_⟩
  rcases hend with ⟨hok, -⟩ | ⟨⟨i, hi⟩, q, hw | hr⟩
  · rw [hok]
    exact ⟨nofun, fun _ => rfl⟩
  · rw [hw]
    exact ⟨nofun, fun hall => absurd (hall i) hi⟩
  · rw [hr]
    exact ⟨nofun, fun hall => absurd (hall i) hi⟩

/-! ## Mix-ups -/

/-- The second pass obtained for one page the bytes that were written for another. -/
def Verification.MixedUp {σ : Type} (n : Nat) (v : Verification σ) : Prop :=
  ∃ p q, q < n ∧ q ≠ p ∧ (p, verifyPattern q) ∈ v.obtained

/-- A memory with room for 256 pages, which puts page `p` where it puts page `p + 256`. -/
def aliasedAccess : PageAccess (Nat → Page) := fun mem p write change =>
  some (some (mem (p % 256)),
    if write = 0 then mem else Function.update mem (p % 256) (change (mem (p % 256))))

/-- That memory passes verification. -/
theorem keeps_aliased (n : Nat) :
    Keeps aliasedAccess n False fun k mem => ∀ q < k, mem (q % 256) = verifyPattern q := by
  constructor
  · intro p mem hp hmem
    refine ⟨_, _, rfl, by simp, fun _ q hq => ?_⟩
    show (Function.update mem (p % 256) (verifyPattern p)) (q % 256) = _
    by_cases hqp : q % 256 = p % 256
    · rw [hqp, Function.update_self]
      exact (verifyPattern_eq_iff p q).mpr hqp.symm
    · rw [Function.update_of_ne hqp]
      refine hmem q ?_
      rcases Nat.lt_succ_iff_lt_or_eq.mp hq with hlt | rfl
      · exact hlt
      · exact absurd rfl hqp
  · intro p mem hp hmem
    exact ⟨_, _, rfl, by simp, fun bytes hbytes => (Option.some.inj hbytes).symm.trans (hmem p hp), hmem⟩

/-- In verify mode there are more than 256 virtual pages exactly if there are more than 64 local ones:
the count is four times as large, or so large that it has wrapped. -/
theorem virtualPages_le_iff {cfg : DsmClientConfig} (hcfg : cfg.Admitted)
    (hmode : cfg.verifyMode = true) : cfg.numVirtualPages.toNat ≤ 256 ↔ cfg.numPages.toNat ≤ 64 := by
  obtain ⟨⟨-, hle, -⟩, hfour⟩ := cfg.admitted_iff.mp hcfg
  have hlt := cfg.numPages.toNat_lt
  have hnv : cfg.numVirtualPages.toNat = 4 * cfg.numPages.toNat % 2 ^ 32 := by
    rw [hfour hmode, UInt32.toNat_mul]
    rfl
  omega

/-- **When verification catches page mix-ups.** In verify mode no two pages share a pattern, and 1 is
returned whenever the second pass obtains for a page the bytes that were written for another, exactly
if there are at most 64 local pages. -/
theorem verify_catches_mixups_iff (cfg : DsmClientConfig) (hcfg : cfg.Admitted)
    (hmode : cfg.verifyMode = true) :
    ((∀ p < cfg.numVirtualPages.toNat, ∀ q < cfg.numVirtualPages.toNat, p ≠ q →
        verifyPattern p ≠ verifyPattern q) ∧
      ∀ (σ : Type) (access : PageAccess σ) (s : σ) (v : Verification σ),
        runVerify access cfg s = some v → v.MixedUp cfg.numVirtualPages.toNat →
        v.outcome.exitCode = 1) ↔ cfg.numPages.toNat ≤ 64 := by
  rw [← virtualPages_le_iff hcfg hmode]
  constructor
  · rintro ⟨hdistinct, -⟩
    by_contra hmany
    exact hdistinct 0 (by omega) 256 (by omega) (by decide) ((verifyPattern_eq_iff 0 256).mpr rfl)
  · intro hfew
    have hdistinct : ∀ p < cfg.numVirtualPages.toNat, ∀ q < cfg.numVirtualPages.toNat, p ≠ q →
        verifyPattern p ≠ verifyPattern q := by
      intro p hp q hq hne heq
      rw [verifyPattern_eq_iff] at heq
      omega
    refine ⟨hdistinct, fun σ access s v hrun ⟨p, q, hq, hne, hmem⟩ => ?_⟩
    refine (runVerify_end hrun).resolve_right fun hall => ?_
    obtain ⟨hp, hpat⟩ := hall _ hmem
    exact hdistinct q hq p hp hne hpat

/-- Sixteen local pages: 64 patterns, all different. -/
theorem verify_catches_mixups_sixteen_pages : ∃ cfg : DsmClientConfig, cfg.Admitted ∧
    cfg.numPages = 16 ∧ ∀ p < 64, ∀ q < 64, p ≠ q → verifyPattern p ≠ verifyPattern q := by
  have hcfg : (⟨16, 64, 0, 80, 10, true⟩ : DsmClientConfig).Admitted :=
    ⟨⟨16, 1024, 0, 80, 10, true⟩, rfl, by decide⟩
  exact ⟨_, hcfg, rfl, ((verify_catches_mixups_iff _ hcfg rfl).mpr (by decide)).1⟩

/-- The defaults in verify mode, 256 local and 1024 virtual pages. -/
def verifyDefault : DsmClientConfig := ({ dsmClientConfigDefault with verifyMode := true }).forMode

/-- **With the defaults it does not catch them.** Page `256` lies one cache size after page `0` and has
its pattern. A memory that keeps one page where two belong passes, and the second pass has obtained
for page `0` the bytes that were written for page `256`. -/
theorem verify_misses_mixup : verifyDefault.Admitted ∧ verifyDefault.verifyMode = true ∧
    verifyDefault.numPages = 256 ∧ 256 < verifyDefault.numVirtualPages.toNat ∧
    verifyPattern 0 = verifyPattern 256 ∧
    ∃ v, runVerify aliasedAccess verifyDefault (fun _ => zeroPage) = some v ∧
      v.MixedUp verifyDefault.numVirtualPages.toNat ∧ v.outcome.exitCode = 0 := by
  have hsame := (verifyPattern_eq_iff 0 256).mpr rfl
  refine ⟨⟨_, rfl, by decide⟩, rfl, rfl, by decide, hsame, ?_⟩
  obtain ⟨v, heq, hend⟩ := (keeps_aliased verifyDefault.numVirtualPages.toNat).run rfl
    (s := fun _ => zeroPage) fun q hq => absurd hq (Nat.not_lt_zero q)
  obtain ⟨hok, hobtained⟩ := hend.resolve_right fun hfails => hfails.1
  refine ⟨v, heq, ⟨0, 256, by decide, by decide, ?_⟩, by rw [hok]; rfl⟩
  rw [hobtained, ← hsame]
  exact List.mem_map.mpr ⟨0, List.mem_range.mpr (by decide), rfl⟩

end Dsm.Client
