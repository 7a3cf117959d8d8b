import Dsm.Lib.Scan
import Mathlib.Data.List.Basic
import Mathlib.Algebra.Group.Int.Defs

/-!
# The client's configuration (`dsm_config.c`, `main` in `dsm_client.c`)

Defaults, then environment variables, then options; a number from either is read by `strtol` to the end
of its text and has to be in the range of its field. What comes out of that is then checked by `main`,
after verify mode has set the number of virtual pages to four times the number of local ones.
-/

namespace Dsm.Client

open Dsm.Lib

/-! ## Checked numbers -/

def longMin : Int := -2 ^ 63
def longMax : Int := 2 ^ 63 - 1

/-- A number as a `long`, cut off at the ends, and whether it was (`ERANGE`). -/
def clampLong (n : Int) : Int × Bool :=
  if n < longMin then (longMin, true) else if longMax < n then (longMax, true) else (n, false)

/-- The number a scanned text stands for. -/
def signedValue (negative : Bool) (digits : List Char) : Int :=
  if negative then -(Nat.ofDigitChars 10 digits 0 : Int) else Nat.ofDigitChars 10 digits 0

/-- `strtol(s, &end, 10)` where it converts something: the `long`, `ERANGE`, and the text at `end`. -/
def strtol (s : String) : Option ((Int × Bool) × List Char) :=
  (scanNumber s.toList).map fun n => (clampLong (signedValue n.negative n.digits), n.rest)

/-- The test that `dsm_env_long` and `dsm_parse_long` share. -/
def checkedLong (s : String) (min max : Int) : Option Int :=
  match strtol s with
  | none => none
  | some ((n, erange), rest) =>
      if erange ∨ rest ≠ [] ∨ n < min ∨ max < n then none else some n

/-- `dsm_env_long`: a bad value keeps the default. -/
def dsmEnvLong (val : Option String) (dflt min max : Int) : Int :=
  match val with
  | none => dflt
  | some s => (checkedLong s min max).getD dflt

/-- `dsm_parse_long`: a bad value ends the program, with this error and the usage text. -/
def dsmParseLong (arg flagname : String) (min max : Int) : Except String Int :=
  match checkedLong arg min max with
  | some n => .ok n
  | none => .error ("Invalid value for " ++ flagname ++ ": '" ++ arg ++ "' (expected " ++
      toString min ++ ".." ++ toString max ++ ")")

theorem clampLong_eq_iff {n m : Int} : clampLong n = (m, false) ↔ longMin ≤ n ∧ n ≤ longMax ∧ n = m := by
  unfold clampLong
  split_ifs with hlow hhigh
  · simp only [Prod.mk.injEq, reduceCtorEq, and_false, false_iff]
    omega
  · simp only [Prod.mk.injEq, reduceCtorEq, and_false, false_iff]
    omega
  · simp only [Prod.mk.injEq, and_true]
    omega

/-- **A checked number** is a whole text, white space and a sign in front of its digits, with a value in
the range that is asked for. -/
theorem checkedLong_eq_some_iff {s : String} {min max n : Int} (hmin : longMin ≤ min)
    (hmax : max ≤ longMax) :
    checkedLong s min max = some n ↔
      min ≤ n ∧ n ≤ max ∧ ∃ negative space sign digits, NumberText negative space sign digits ∧
        s.toList = space ++ (sign ++ digits) ∧ signedValue negative digits = n := by
  constructor
  · intro h
    unfold checkedLong at h
    split at h
    · cases h
    · next m erange rest hstrtol =>
        split_ifs at h with hbad
        obtain rfl := Option.some.inj h
        simp only [not_or, Bool.not_eq_true, ne_eq, not_not, Int.not_lt] at hbad
        obtain ⟨rfl, rfl, hlo, hhi⟩ := hbad
        obtain ⟨scanned, hscan, heq⟩ := Option.map_eq_some_iff.mp hstrtol
        obtain ⟨hclamp, hrest⟩ := Prod.mk.inj heq
        obtain ⟨space, sign, htext, hs⟩ := scanNumber_some hscan
        rw [hrest, List.append_nil] at hs
        exact ⟨hlo, hhi, _, space, sign, _, htext, hs, (clampLong_eq_iff.mp hclamp).2.2⟩
  · rintro ⟨hlo, hhi, negative, space, sign, digits, htext, hs, rfl⟩
    have hscan := scanNumber_text htext []
    rw [List.append_nil, ← hs, List.takeWhile_nil, List.append_nil] at hscan
    have hclamp : clampLong (signedValue negative digits) = (signedValue negative digits, false) :=
      clampLong_eq_iff.mpr ⟨by omega, by omega, rfl⟩
    simp only [checkedLong, strtol, hscan, Option.map_some, hclamp, List.dropWhile_nil]
    rw [if_neg]
    simp only [Bool.false_eq_true, ne_eq, not_true_eq_false, false_or, not_or, Int.not_lt]
    exact ⟨hlo, hhi⟩

/-- What `dsm_env_long` returns is the default or in range. -/
theorem dsmEnvLong_range (val : Option String) {dflt min max : Int} (hmin : longMin ≤ min)
    (hmax : max ≤ longMax) (hlo : min ≤ dflt) (hhi : dflt ≤ max) :
    min ≤ dsmEnvLong val dflt min max ∧ dsmEnvLong val dflt min max ≤ max := by
  cases val with
  | none => exact ⟨hlo, hhi⟩
  | some s =>
      cases hs : checkedLong s min max with
      | none => simpa [dsmEnvLong, hs] using ⟨hlo, hhi⟩
      | some n =>
          obtain ⟨h₁, h₂, -⟩ := (checkedLong_eq_some_iff hmin hmax).mp hs
          simpa [dsmEnvLong, hs] using ⟨h₁, h₂⟩

theorem dsmParseLong_range {arg flagname : String} {min max n : Int} (hmin : longMin ≤ min)
    (hmax : max ≤ longMax) (h : dsmParseLong arg flagname min max = .ok n) : min ≤ n ∧ n ≤ max := by
  unfold dsmParseLong at h
  split at h
  · next m hm =>
      obtain rfl := Except.ok.inj h
      obtain ⟨h₁, h₂, -⟩ := (checkedLong_eq_some_iff hmin hmax).mp hm
      exact ⟨h₁, h₂⟩
  · cases h

/-! ## The configuration -/

/-- `dsm_client_config_t`, without the address of the server and the verbosity. -/
structure DsmClientConfig where
  numPages : UInt32
  numVirtualPages : UInt32
  numIterations : UInt32
  localityPercent : UInt8
  writePercent : UInt8
  verifyMode : Bool
  deriving DecidableEq

def dsmClientConfigDefault : DsmClientConfig := ⟨256, 1024, 100000, 80, 10, false⟩

/-- The numeric fields, with the range, the variable and the flag each is checked under. -/
inductive Field
  | numPages
  | numVirtualPages
  | numIterations
  | localityPercent
  | writePercent

def uint32Max : Int := 2 ^ 32 - 1

def Field.min : Field → Int
  | .numPages | .numVirtualPages => 1
  | .numIterations | .localityPercent | .writePercent => 0

def Field.max : Field → Int
  | .numPages | .numVirtualPages | .numIterations => uint32Max
  | .localityPercent | .writePercent => 100

def Field.variable : Field → String
  | .numPages => "DSM_NUM_PAGES"
  | .numVirtualPages => "DSM_NUM_VIRTUAL_PAGES"
  | .numIterations => "DSM_NUM_ITERATIONS"
  | .localityPercent => "DSM_LOCALITY_PERCENT"
  | .writePercent => "DSM_WRITE_PERCENT"

def Field.flagname : Field → String
  | .numPages => "-n/--num-pages"
  | .numVirtualPages => "-N/--num-virtual"
  | .numIterations => "-i/--iterations"
  | .localityPercent => "-l/--locality"
  | .writePercent => "-w/--write-pct"

def DsmClientConfig.get (cfg : DsmClientConfig) : Field → Int
  | .numPages => cfg.numPages.toNat
  | .numVirtualPages => cfg.numVirtualPages.toNat
  | .numIterations => cfg.numIterations.toNat
  | .localityPercent => cfg.localityPercent.toNat
  | .writePercent => cfg.writePercent.toNat

/-- The store, with the cast to the field's type. -/
def DsmClientConfig.set (cfg : DsmClientConfig) (n : Int) : Field → DsmClientConfig
  | .numPages => { cfg with numPages := UInt32.ofNat n.toNat }
  | .numVirtualPages => { cfg with numVirtualPages := UInt32.ofNat n.toNat }
  | .numIterations => { cfg with numIterations := UInt32.ofNat n.toNat }
  | .localityPercent => { cfg with localityPercent := UInt8.ofNat n.toNat }
  | .writePercent => { cfg with writePercent := UInt8.ofNat n.toNat }

/-- A field from the environment. -/
def DsmClientConfig.fromVariable (getenv : String → Option String) (cfg : DsmClientConfig)
    (f : Field) : DsmClientConfig :=
  cfg.set (dsmEnvLong (getenv f.variable) (cfg.get f) f.min f.max) f

/-- `dsm_client_config_from_env`. -/
def dsmClientConfigFromEnv (getenv : String → Option String) (cfg : DsmClientConfig) :
    DsmClientConfig :=
  let cfg := [Field.numPages, .numVirtualPages, .numIterations, .localityPercent,
    .writePercent].foldl (DsmClientConfig.fromVariable getenv) cfg
  if getenv "DSM_VERIFY" = some "1" then { cfg with verifyMode := true } else cfg

/-- The options that `main` takes into the configuration. -/
inductive ClientOption
  | number (f : Field) (optarg : String)
  | verify

def DsmClientConfig.option (cfg : DsmClientConfig) : ClientOption → Except String DsmClientConfig
  | .number f optarg => (dsmParseLong optarg f.flagname f.min f.max).map fun n => cfg.set n f
  | .verify => .ok { cfg with verifyMode := true }

/-- The option loop of `main`. -/
def readOptions (cfg : DsmClientConfig) (opts : List ClientOption) : Except String DsmClientConfig :=
  opts.foldlM DsmClientConfig.option cfg

/-- Verify mode: a virtual range of four times the local cache, in the arithmetic of `uint32_t`. -/
def DsmClientConfig.forMode (cfg : DsmClientConfig) : DsmClientConfig :=
  if cfg.verifyMode then { cfg with numVirtualPages := 4 * cfg.numPages } else cfg

/-- The checks of `main`, in its order: the error it ends with, if any. -/
def DsmClientConfig.check (cfg : DsmClientConfig) : Option String :=
  if 100 < cfg.localityPercent then some "locality percentage must be 0-100"
  else if 100 < cfg.writePercent then some "write percentage must be 0-100"
  else if cfg.numPages = 0 ∨ cfg.numVirtualPages = 0 then some "page counts must be > 0"
  else if cfg.numVirtualPages < cfg.numPages then some "local pages cannot exceed virtual pages"
  else none

/-- `main` lets the configuration through to the benchmark or to verification. -/
def DsmClientConfig.Admitted (cfg : DsmClientConfig) : Prop :=
  ∃ given : DsmClientConfig, cfg = given.forMode ∧ cfg.check = none

/-! ## What gets through -/

/-- Every field is in its range. -/
def DsmClientConfig.InRange (cfg : DsmClientConfig) : Prop :=
  ∀ f : Field, f.min ≤ cfg.get f ∧ cfg.get f ≤ f.max

theorem Field.bounds (f : Field) : longMin ≤ f.min ∧ f.max ≤ longMax ∧ 0 ≤ f.min ∧ f.max ≤ uint32Max := by
  cases f <;> decide

/-- The cast of the store loses nothing of a value in the range of its field. -/
theorem DsmClientConfig.InRange.set {cfg : DsmClientConfig} (h : cfg.InRange) {f : Field} {n : Int}
    (hlo : f.min ≤ n) (hhi : n ≤ f.max) : (cfg.set n f).InRange := by
  intro g
  have hg := h g
  cases f <;> cases g <;>
    simp only [DsmClientConfig.set, DsmClientConfig.get, Field.min, Field.max, uint32Max,
      UInt32.toNat_ofNat', UInt8.toNat_ofNat'] at * <;> omega

theorem DsmClientConfig.InRange.verify {cfg : DsmClientConfig} (h : cfg.InRange) :
    ({ cfg with verifyMode := true }).InRange := by
  intro f
  cases f <;> exact h _

theorem inRange_default : dsmClientConfigDefault.InRange := by
  intro f
  cases f <;> decide

theorem DsmClientConfig.InRange.fromVariable {cfg : DsmClientConfig} (h : cfg.InRange)
    (getenv : String → Option String) (f : Field) : (cfg.fromVariable getenv f).InRange := by
  obtain ⟨hmin, hmax, -⟩ := f.bounds
  obtain ⟨hlo, hhi⟩ := dsmEnvLong_range (getenv f.variable) hmin hmax (h f).1 (h f).2
  exact h.set hlo hhi

theorem DsmClientConfig.InRange.fromEnv {cfg : DsmClientConfig} (h : cfg.InRange)
    (getenv : String → Option String) : (dsmClientConfigFromEnv getenv cfg).InRange := by
  have hfields : ∀ (fs : List Field) (cfg : DsmClientConfig), cfg.InRange →
      (fs.foldl (DsmClientConfig.fromVariable getenv) cfg).InRange := by
    intro fs
    induction fs with
    | nil => exact fun _ h => h
    | cons f fs ih => exact fun cfg h => ih _ (h.fromVariable getenv f)
  have hread := hfields
    [.numPages, .numVirtualPages, .numIterations, .localityPercent, .writePercent] cfg h
  unfold dsmClientConfigFromEnv
  split
  · exact hread.verify
  · exact hread

theorem DsmClientConfig.InRange.option {cfg cfg' : DsmClientConfig} (h : cfg.InRange)
    {opt : ClientOption} (hopt : cfg.option opt = .ok cfg') : cfg'.InRange := by
  cases opt with
  | verify =>
      obtain rfl := Except.ok.inj hopt
      exact h.verify
  | number f optarg =>
      obtain ⟨hmin, hmax, -⟩ := f.bounds
      cases hparse : dsmParseLong optarg f.flagname f.min f.max with
      | error e =>
          simp only [DsmClientConfig.option, hparse] at hopt
          cases hopt
      | ok n =>
          simp only [DsmClientConfig.option, hparse] at hopt
          obtain rfl := Except.ok.inj hopt
          obtain ⟨hlo, hhi⟩ := dsmParseLong_range hmin hmax hparse
          exact h.set hlo hhi

theorem DsmClientConfig.InRange.readOptions {cfg cfg' : DsmClientConfig} (h : cfg.InRange)
    {opts : List ClientOption} (hread : readOptions cfg opts = .ok cfg') : cfg'.InRange := by
  induction opts generalizing cfg with
  | nil =>
      obtain rfl := Except.ok.inj hread
      exact h
  | cons opt opts ih =>
      rw [Client.readOptions, List.foldlM_cons] at hread
      cases hopt : cfg.option opt with
      | error e =>
          rw [hopt] at hread
          cases hread
      | ok next =>
          rw [hopt] at hread
          exact ih (h.option hopt) hread

/-- **Whatever the environment and the options say**, what `main` goes on with has every field in its
range; only the comparison of the two page counts is left for its checks to decide. -/
theorem readOptions_inRange {getenv : String → Option String} {opts : List ClientOption}
    {cfg : DsmClientConfig}
    (h : readOptions (dsmClientConfigFromEnv getenv dsmClientConfigDefault) opts = .ok cfg) :
    cfg.InRange :=
  (inRange_default.fromEnv getenv).readOptions h

theorem DsmClientConfig.check_eq_none_iff (cfg : DsmClientConfig) :
    cfg.check = none ↔ 1 ≤ cfg.numPages.toNat ∧ cfg.numPages.toNat ≤ cfg.numVirtualPages.toNat ∧
      cfg.localityPercent.toNat ≤ 100 ∧ cfg.writePercent.toNat ≤ 100 := by
  unfold DsmClientConfig.check
  simp only [UInt8.lt_iff_toNat_lt, UInt32.lt_iff_toNat_lt, ← UInt32.toNat_inj, UInt8.reduceToNat,
    UInt32.reduceToNat]
  split_ifs <;> simp only [false_iff, true_iff] <;> omega

/-- **What `main` lets through.** -/
theorem DsmClientConfig.admitted_iff (cfg : DsmClientConfig) :
    cfg.Admitted ↔ (1 ≤ cfg.numPages.toNat ∧ cfg.numPages.toNat ≤ cfg.numVirtualPages.toNat ∧
      cfg.localityPercent.toNat ≤ 100 ∧ cfg.writePercent.toNat ≤ 100) ∧
      (cfg.verifyMode = true → cfg.numVirtualPages = 4 * cfg.numPages) := by
  rw [← cfg.check_eq_none_iff]
  constructor
  · rintro ⟨given, rfl, hcheck⟩
    refine ⟨hcheck, ?_⟩
    unfold DsmClientConfig.forMode
    split
    · exact fun _ => rfl
    · exact fun h => absurd h ‹_›
  · rintro ⟨hcheck, hmode⟩
    refine ⟨cfg, ?_, hcheck⟩
    unfold DsmClientConfig.forMode
    split
    · next h => rw [← hmode h]
    · rfl

/-- The defaults are let through, in either mode. -/
example : dsmClientConfigDefault.forMode.check = none ∧
    ({ dsmClientConfigDefault with verifyMode := true }).forMode.check = none := by decide

end Dsm.Client
