import Dsm.Lib.Scan
import Dsm.Server.Handler

/-!
# The range option (`--range` of `dsm_server.c`)

Every other numeric option goes through `dsm_parse_long`, which insists on the end of the text and on
a range. The range option goes straight to `sscanf` with `%u:%u`, which insists on neither: it skips
white space, accepts signs, reduces what does not fit, ignores what follows the second number, and
does not compare the two. `range_option_exact_iff` says for which texts this makes no difference.

How the C library reduces a number that does not fit is left open (`toU32`): all that is assumed of it
is that a number without a minus sign that fits is left alone.
-/

namespace Dsm.Server

open Dsm.Lib Dsm.Cluster

/-- The conversions of `sscanf(s, "%u:%u", ...)`: it stops at the first that fails, and at a first
number that no colon follows. -/
def sscanfRange (cs : List Char) : Option Scanned × Option Scanned :=
  match scanNumber cs with
  | none => (none, none)
  | some first =>
      match first.rest with
      | ':' :: cs => (some first, scanNumber cs)
      | _ => (some first, none)

/-- How `main` leaves the option: on to the next one, or out with an error and the usage text. -/
inductive ParsedRange
  | goesOn (cfg : ClusterConfig)
  | usage (cfg : ClusterConfig) (error : String)

/-- `case 'r'`. What `sscanf` has converted is stored even if the rest fails. -/
def rangeOption (toU32 : Bool → Nat → UInt32) (cfg : ClusterConfig) (optarg : String) : ParsedRange :=
  match sscanfRange optarg.toList with
  | (some a, some b) =>
      .goesOn { cfg with
        pageRangeStart := toU32 a.negative a.value
        pageRangeEnd := toU32 b.negative b.value }
  | (some a, none) =>
      .usage { cfg with pageRangeStart := toU32 a.negative a.value } ("Invalid range: " ++ optarg)
  | (none, _) => .usage cfg ("Invalid range: " ++ optarg)

/-- The reduction modulo `2 ^ 32`. -/
def wrapU32 (negative : Bool) (n : Nat) : UInt32 := if negative then -n.toUInt32 else n.toUInt32

/-! ## Texts -/

/-- The text is the decimal form of `a`, a colon and the decimal form of `b`, for a range of pages. -/
def RangeText (a b : Nat) (s : String) : Prop :=
  a < b ∧ b < 2 ^ 32 ∧ s = toString a ++ ":" ++ toString b

/-- The text begins with two numbers, a colon between them; either may have white space and a sign in
front, and anything may follow. -/
def ScansAsRange (s : String) : Prop :=
  ∃ (neg₁ neg₂ : Bool) (space₁ sign₁ digits₁ space₂ sign₂ digits₂ rest : List Char),
    NumberText neg₁ space₁ sign₁ digits₁ ∧ NumberText neg₂ space₂ sign₂ digits₂ ∧
    s.toList = space₁ ++ (sign₁ ++ (digits₁ ++ ':' :: (space₂ ++ (sign₂ ++ (digits₂ ++ rest)))))

theorem sscanfRange_text {neg₁ neg₂ : Bool} {space₁ sign₁ digits₁ space₂ sign₂ digits₂ : List Char}
    (h₁ : NumberText neg₁ space₁ sign₁ digits₁) (h₂ : NumberText neg₂ space₂ sign₂ digits₂)
    (rest : List Char) :
    sscanfRange
        (space₁ ++ (sign₁ ++ (digits₁ ++ ':' :: (space₂ ++ (sign₂ ++ (digits₂ ++ rest)))))) =
      (some ⟨neg₁, digits₁, ':' :: (space₂ ++ (sign₂ ++ (digits₂ ++ rest)))⟩,
        some ⟨neg₂, digits₂ ++ rest.takeWhile Char.isDigit, rest.dropWhile Char.isDigit⟩) := by
  -- The colon is no digit, so the first number ends there.
  have hcolon : ¬ (':').isDigit = true := by decide
  rw [sscanfRange, scanNumber_text h₁, List.takeWhile_cons_of_neg hcolon,
    List.dropWhile_cons_of_neg hcolon, List.append_nil]
  exact Prod.ext rfl (scanNumber_text h₂ rest)

/-- Two numbers are converted exactly for such a text. -/
theorem sscanfRange_both_iff (s : String) :
    (∃ a b, sscanfRange s.toList = (some a, some b)) ↔ ScansAsRange s := by
  constructor
  · rintro ⟨a, b, h⟩
    unfold sscanfRange at h
    split at h
    · cases h
    · next first hfirst =>
        split at h
        · next cs hrest =>
            have hsecond := (Prod.mk.inj h).2
            obtain ⟨space₁, sign₁, htext₁, hcs₁⟩ := scanNumber_some hfirst
            obtain ⟨space₂, sign₂, htext₂, hcs₂⟩ := scanNumber_some hsecond
            rw [hrest, hcs₂] at hcs₁
            exact ⟨_, _, _, _, _, _, _, _, _, htext₁, htext₂, hcs₁⟩
        · cases h
  · rintro ⟨neg₁, neg₂, space₁, sign₁, digits₁, space₂, sign₂, digits₂, rest, h₁, h₂, hs⟩
    exact ⟨_, _, hs ▸ sscanfRange_text h₁ h₂ rest⟩

section

variable {toU32 : Bool → Nat → UInt32} (hexact : ∀ n < 2 ^ 32, toU32 false n = n.toUInt32)
  (cfg : ClusterConfig)

include hexact

/-- A range of pages is taken over as it stands. -/
theorem rangeOption_rangeText {a b : Nat} {s : String} (h : RangeText a b s) :
    rangeOption toU32 cfg s =
      .goesOn { cfg with pageRangeStart := a.toUInt32, pageRangeEnd := b.toUInt32 } := by
  obtain ⟨hlt, hb, rfl⟩ := h
  have hs : (toString a ++ ":" ++ toString b).toList =
      [] ++ ([] ++ (Nat.toDigits 10 a ++ ':' :: ([] ++ ([] ++ (Nat.toDigits 10 b ++ []))))) := by
    simp
  rw [rangeOption, hs, sscanfRange_text (numberText_toDigits a) (numberText_toDigits b)]
  simp only [Scanned.value, List.takeWhile_nil, List.append_nil, Nat.ofDigitChars_ten_toDigits]
  rw [hexact a (by omega), hexact b hb]

/-- **When the range option accepts exactly its grammar.** A text that is the decimal form of a range
of pages is taken over, and any other ends in the usage text with no end of a range set, if and only if
the text is such a form or does not begin with two numbers and a colon between them. -/
theorem range_option_exact_iff (s : String) :
    ((∀ a b, RangeText a b s → rangeOption toU32 cfg s =
        .goesOn { cfg with pageRangeStart := a.toUInt32, pageRangeEnd := b.toUInt32 }) ∧
      ((∀ a b, ¬ RangeText a b s) → ∃ cfg' error, rangeOption toU32 cfg s = .usage cfg' error ∧
        cfg'.pageRangeEnd = cfg.pageRangeEnd)) ↔
    (∃ a b, RangeText a b s) ∨ ¬ ScansAsRange s := by
  constructor
  · rintro ⟨-, hexits⟩
    by_cases hrange : ∃ a b, RangeText a b s
    · exact .inl hrange
    · refine .inr fun hscans => ?_
      obtain ⟨a, b, hboth⟩ := (sscanfRange_both_iff s).mpr hscans
      obtain ⟨cfg', error, hexit, -⟩ := hexits fun a b h => hrange ⟨a, b, h⟩
      rw [rangeOption, hboth] at hexit
      cases hexit
  · intro h
    refine ⟨fun a b => rangeOption_rangeText hexact cfg, fun hnot => ?_⟩
    have hscans := h.resolve_left fun ⟨a, b, hrange⟩ => hnot a b hrange
    unfold rangeOption
    split
    · next a b hboth => exact absurd ((sscanfRange_both_iff s).mp ⟨a, b, hboth⟩) hscans
    · exact ⟨_, _, rfl, rfl⟩
    · exact ⟨_, _, rfl, rfl⟩

end

theorem wrapU32_exact : ∀ n < 2 ^ 32, wrapU32 false n = n.toUInt32 := fun _ _ => rfl

/-- The numbers of a range of pages are those the option has stored. -/
theorem accepted_numbers {a b : Nat} {s : String} (h : RangeText a b s) {cfg : ClusterConfig}
    {start stop : UInt32} (haccepted : rangeOption wrapU32 cfg s =
      .goesOn { cfg with pageRangeStart := start, pageRangeEnd := stop }) :
    a = start.toNat ∧ b = stop.toNat := by
  have hcfg := ParsedRange.goesOn.inj
    ((rangeOption_rangeText wrapU32_exact cfg h).symm.trans haccepted)
  have hstart : a.toUInt32 = start := congrArg ClusterConfig.pageRangeStart hcfg
  have hstop : b.toUInt32 = stop := congrArg ClusterConfig.pageRangeEnd hcfg
  obtain ⟨hlt, hb, -⟩ := h
  rw [← hstart, ← hstop]
  exact ⟨(UInt32.toNat_ofNat_of_lt (hlt.trans hb)).symm, (UInt32.toNat_ofNat_of_lt hb).symm⟩

/-- `cluster_config_default`, as far as it decides anything: no name, and no range. -/
def clusterConfigDefault : ClusterConfig := ⟨none, 10999, 500, 3000, 0, 0⟩

theorem range_option_exact_four_pages : RangeText 0 4 "0:4" ∧
    rangeOption wrapU32 clusterConfigDefault "0:4" =
      .goesOn { clusterConfigDefault with pageRangeStart := 0, pageRangeEnd := 4 } := by
  have hrange : RangeText 0 4 "0:4" := ⟨by decide, by decide, by decide⟩
  have hexact := (range_option_exact_iff wrapU32_exact clusterConfigDefault "0:4").mpr
    (.inl ⟨0, 4, hrange⟩)
  exact ⟨hrange, hexact.1 0 4 hrange⟩

/-! ## What a range decides -/

/-- The cluster setup of `main`: without the end of a range the server stands alone. -/
def setupCluster (cfg : ClusterConfig) (localAddr : UInt32) (port : UInt16) (random : NodeId)
    (now : Nat) : Option ClusterCtx :=
  if 0 < cfg.pageRangeEnd then some (clusterCreate cfg localAddr port random now) else none

/-- Which pages a server that has just been set up takes for its own: all of them, or its range. -/
theorem isLocal_setupCluster (cfg : ClusterConfig) (localAddr : UInt32) (port : UInt16)
    (random : NodeId) (now : Nat) (storagePages : UInt32) (storage : UInt32 → Page)
    (pageId : UInt32) :
    PageServer.isLocal ⟨setupCluster cfg localAddr port random now, storagePages, storage⟩ pageId =
        true ↔
      cfg.pageRangeEnd = 0 ∨ cfg.pageRangeStart ≤ pageId ∧ pageId < cfg.pageRangeEnd := by
  unfold setupCluster PageServer.isLocal
  split_ifs with hend
  · have hne : cfg.pageRangeEnd ≠ 0 := by
      intro h
      rw [h] at hend
      exact absurd hend (by decide)
    simp only [clusterIsLocal, clusterCreate, ClusterNode.Owns, hne, false_or]
    exact decide_eq_true_iff
  · have hzero : cfg.pageRangeEnd = 0 := by
      by_contra hne
      exact hend (UInt32.pos_iff_ne_zero.mpr hne)
    exact iff_of_true rfl (.inl hzero)

/-- Two texts that are no range of pages and are accepted: one inverted, with which the server owns no
page, and one with a character too many. -/
theorem range_option_accepts_other_texts :
    (∀ a b, ¬ RangeText a b "9:3") ∧ (∀ a b, ¬ RangeText a b "1:2x") ∧
    rangeOption wrapU32 clusterConfigDefault "9:3" =
      .goesOn { clusterConfigDefault with pageRangeStart := 9, pageRangeEnd := 3 } ∧
    rangeOption wrapU32 clusterConfigDefault "1:2x" =
      .goesOn { clusterConfigDefault with pageRangeStart := 1, pageRangeEnd := 2 } ∧
    ∀ pageId, PageServer.isLocal ⟨setupCluster
        { clusterConfigDefault with pageRangeStart := 9, pageRangeEnd := 3 } 0 0 default 0, 4,
        fun _ => zeroPage⟩ pageId = false := by
  have hinverted : rangeOption wrapU32 clusterConfigDefault "9:3" =
      .goesOn { clusterConfigDefault with pageRangeStart := 9, pageRangeEnd := 3 } := rfl
  have htrailing : rangeOption wrapU32 clusterConfigDefault "1:2x" =
      .goesOn { clusterConfigDefault with pageRangeStart := 1, pageRangeEnd := 2 } := rfl
  refine ⟨fun a b h => ?_, fun a b h => ?_, hinverted, htrailing, fun pageId => ?_⟩
  · -- The two numbers of the text are those that were converted.
    obtain ⟨rfl, rfl⟩ := accepted_numbers h hinverted
    exact absurd h.1 (by decide)
  · obtain ⟨rfl, rfl⟩ := accepted_numbers h htrailing
    exact absurd h.2.2 (by decide)
  · rw [← Bool.not_eq_true, isLocal_setupCluster]
    rintro (hzero | ⟨hlo, hhi⟩)
    · cases hzero
    · exact absurd (UInt32.lt_of_le_of_lt hlo hhi) (by decide)

end Dsm.Server
