import Dsm.Python.Array
import Mathlib.Algebra.Order.BigOperators.GroupWithZero.List
import Mathlib.Data.List.Induction

/-!
# Arrays on one context

A program makes arrays on a context, one after the other; some constructors raise. The README
promises that two arrays never overlap. They do not, as long as no constructor takes a negative
number of pages (`arrays_never_overlap_iff`): nothing checks the dimensions, and a negative product
of at least a page moves the cursor back. Arrays whose dimensions are not negative lie apart, and so
do their elements (`array_addressing`).
-/

namespace Dsm.Python

open Dsm.Lib MixedRadix

inductive Call
  | array (shape : List Int) (dtype : Int)
  | close
deriving DecidableEq, Repr

/-- A context and the arrays that were made on it, first to last. -/
structure Session where
  ctx : Context
  arrays : List Array
deriving DecidableEq, Repr

/-- One call, and what it raises. -/
def Session.call (s : Session) : Call → Option Exception × Session
  | .array shape dtype =>
      match Array.init s.ctx shape dtype with
      | (.ok a, ctx) => (none, ⟨ctx, s.arrays ++ [a]⟩)
      | (.error e, ctx) => (some e, ⟨ctx, s.arrays⟩)
  | .close => (none, ⟨s.ctx.close, s.arrays⟩)

/-- A new context, and the calls on it. -/
def session (virtualPages : Int) (calls : List Call) : Session :=
  calls.foldl (fun s c => (s.call c).2) ⟨.init virtualPages, []⟩

theorem session_snoc (virtualPages : Int) (calls : List Call) (c : Call) :
    session virtualPages (calls ++ [c]) = ((session virtualPages calls).call c).2 := by
  simp [session]

/-- **One call** raises and changes nothing, or makes an array on the next pages, or closes. -/
theorem Session.call_spec (s : Session) (c : Call) :
    (∃ e, s.call c = (some e, s) ∧ ∀ shape dtype ctype elemSize, c = .array shape dtype →
      dtypeMap dtype = some (ctype, elemSize) → s.ctx.isOpen = true →
        s.ctx.virtualPages < s.ctx.nextPage + pagesFor (shape.prod * elemSize)) ∨
    (∃ a, s.call c = (none,
        ⟨{ s.ctx with nextPage := s.ctx.nextPage + a.numPages }, s.arrays ++ [a]⟩) ∧
      c = .array a.shape a.dtype ∧ a.Built ∧ a.basePage = s.ctx.nextPage ∧
      s.ctx.isOpen = true ∧ s.ctx.nextPage + a.numPages ≤ s.ctx.virtualPages) ∨
    c = .close ∧ s.call c = (none, ⟨s.ctx.close, s.arrays⟩) := by
  cases c with
  | close => exact .inr (.inr ⟨rfl, rfl⟩)
  | array shape dtype =>
      rcases Array.init_spec s.ctx shape dtype with
        ⟨e, heq, hfull⟩ | ⟨a, heq, hbuilt, rfl, rfl, hbase, hopen, hroom⟩
      · refine .inl ⟨e, by simp [Session.call, heq], ?_⟩
        rintro shape' dtype' ctype elemSize ⟨⟩ hd hopen
        exact hfull ctype elemSize hd hopen
      · exact .inr (.inl ⟨a, by simp [Session.call, heq], rfl, hbuilt, hbase, hopen, hroom⟩)

theorem Session.call_arrays (s : Session) (c : Call) : s.arrays ⊆ (s.call c).2.arrays := by
  rcases s.call_spec c with ⟨e, heq, -⟩ | ⟨a, heq, -⟩ | ⟨-, heq⟩ <;> rw [heq]
  · exact List.Subset.refl _
  · exact List.subset_append_left _ _
  · exact List.Subset.refl _

/-- The arrays lie one behind the other, in the order they were made. -/
structure Session.Layout (s : Session) : Prop where
  nextPage_nonneg : 0 ≤ s.ctx.nextPage
  within : ∀ a ∈ s.arrays, 0 ≤ a.basePage ∧ a.basePage + a.numPages ≤ s.ctx.nextPage ∧
    a.basePage + a.numPages ≤ s.ctx.virtualPages
  ordered : s.arrays.Pairwise fun a b => a.basePage + a.numPages ≤ b.basePage

theorem Session.Layout.init (virtualPages : Int) : Layout ⟨.init virtualPages, []⟩ := by
  constructor <;> simp [Context.init]

/-- **A call keeps the layout**, unless it makes an array with a negative number of pages. -/
theorem Session.Layout.call {s : Session} (h : s.Layout) (c : Call)
    (hnew : ∀ a ∈ (s.call c).2.arrays, 0 ≤ a.numPages) :
    (s.call c).2.Layout ∧ s.ctx.nextPage ≤ (s.call c).2.ctx.nextPage ∧
      (s.ctx.nextPage ≤ s.ctx.virtualPages →
        (s.call c).2.ctx.nextPage ≤ (s.call c).2.ctx.virtualPages) := by
  rcases s.call_spec c with ⟨e, heq, -⟩ | ⟨a, heq, -, -, hbase, -, hroom⟩ | ⟨-, heq⟩
  · rw [heq]
    exact ⟨h, le_rfl, id⟩
  · rw [heq] at hnew ⊢
    have hpages : 0 ≤ a.numPages := hnew a (by simp)
    have hcursor := h.nextPage_nonneg
    refine ⟨⟨?_, ?_, ?_⟩, by dsimp only; omega, fun _ => hroom⟩
    · dsimp only
      omega
    · intro b hb
      rcases List.mem_append.mp hb with hb | hb
      · obtain ⟨h₁, h₂, h₃⟩ := h.within b hb
        exact ⟨h₁, by dsimp only; omega, h₃⟩
      · obtain rfl := List.mem_singleton.mp hb
        exact ⟨by omega, by dsimp only; omega, by dsimp only; omega⟩
    · refine List.pairwise_append.mpr ⟨h.ordered, List.pairwise_singleton _ _, ?_⟩
      intro b hb b' hb'
      obtain rfl := List.mem_singleton.mp hb'
      rw [hbase]
      exact (h.within b hb).2.1
  · rw [heq]
    exact ⟨⟨h.nextPage_nonneg, h.within, h.ordered⟩, le_rfl, id⟩

theorem session_layout {virtualPages : Int} (calls : List Call)
    (hnew : ∀ a ∈ (session virtualPages calls).arrays, 0 ≤ a.numPages) :
    (session virtualPages calls).Layout := by
  induction calls using List.reverseRecOn with
  | nil => exact .init virtualPages
  | append_singleton calls c ih =>
      rw [session_snoc] at hnew ⊢
      exact ((ih fun a ha => hnew a (Session.call_arrays _ c ha)).call c hnew).1

/-- What every call preserves holds after any calls. -/
theorem session_invariant {virtualPages : Int} (P : Session → Prop)
    (hinit : P ⟨.init virtualPages, []⟩) (hcall : ∀ s c, P s → P (s.call c).2)
    (calls : List Call) : P (session virtualPages calls) := by
  induction calls using List.reverseRecOn with
  | nil => exact hinit
  | append_singleton calls c ih =>
      rw [session_snoc]
      exact hcall _ c ih

theorem session_virtualPages (virtualPages : Int) (calls : List Call) :
    (session virtualPages calls).ctx.virtualPages = virtualPages := by
  refine session_invariant (fun s => s.ctx.virtualPages = virtualPages) rfl (fun s c hs => ?_) calls
  rcases s.call_spec c with ⟨e, heq, -⟩ | ⟨a, heq, -⟩ | ⟨-, heq⟩ <;> rw [heq] <;> exact hs

theorem session_built (virtualPages : Int) (calls : List Call) :
    ∀ a ∈ (session virtualPages calls).arrays, a.Built := by
  refine session_invariant (fun s => ∀ a ∈ s.arrays, a.Built) (by simp) (fun s c hs => ?_) calls
  rcases s.call_spec c with ⟨e, heq, -⟩ | ⟨a, heq, -, hbuilt, -⟩ | ⟨-, heq⟩ <;> rw [heq]
  · exact hs
  · simpa [or_imp, forall_and] using ⟨hs, hbuilt⟩
  · exact hs

/-! ## Elements -/

/-- Non-negative dimensions make a non-negative number of pages. -/
theorem Array.Built.numPages_nonneg {a : Array} (h : a.Built) (hdims : ∀ d ∈ a.shape, 0 ≤ d) :
    0 ≤ a.numPages := by
  rw [h.numPages, pagesFor_nonneg_iff]
  have hprod := mul_nonneg (List.prod_nonneg hdims) h.elemSize_pos.le
  exact lt_of_lt_of_le (by decide) hprod

/-- `_flat_index` takes the indices in bounds, and no others. -/
theorem Array.Built.accepts_iff {a : Array} (h : a.Built) (hdims : ∀ d ∈ a.shape, 0 ≤ d)
    (indices : List Int) : (∃ n, a.flatIndex indices = .ok n) ↔ InBounds a.shape indices := by
  constructor
  · rintro ⟨n, hn⟩
    obtain ⟨hlen, hnumeral, -⟩ := h.flatIndex_iff.mp hn
    exact (numeral_normalise_iff hdims hlen).mp hnumeral
  · intro hin
    have hlen : indices.length = a.ndim := hin.length_eq
    exact ⟨_, h.flatIndex_iff.mpr ⟨hlen, (numeral_normalise_iff hdims hlen).mpr hin, rfl⟩⟩

theorem Session.Layout.before {s : Session} (h : s.Layout) {i j : Nat} {a b : Array} (hij : i < j)
    (hi : s.arrays[i]? = some a) (hj : s.arrays[j]? = some b) :
    a.basePage + a.numPages ≤ b.basePage := by
  obtain ⟨hilt, rfl⟩ := List.getElem?_eq_some_iff.mp hi
  obtain ⟨hjlt, rfl⟩ := List.getElem?_eq_some_iff.mp hj
  exact List.pairwise_iff_getElem.mp h.ordered i j hilt hjlt hij

/-- **Addressing.** Any calls are made on a new context, and the arrays that came of them have no
negative dimension. Reading and writing an element go to the same page and offset, on a page of the
array and of the context and with room for the element; and elements have a byte in common only if
they are the same element, of the same array. -/
theorem array_addressing (virtualPages : Int) (calls : List Call)
    (hdims : ∀ a ∈ (session virtualPages calls).arrays, ∀ d ∈ a.shape, 0 ≤ d) :
    (∀ a ∈ (session virtualPages calls).arrays, ∀ key : Key,
      ((∃ n, a.flatIndex key.indices = .ok n) ↔ InBounds a.shape key.indices) ∧
      (InBounds a.shape key.indices → ∃ r, a.getitem key = .ok r ∧
        a.setitem key = .ok { r with write := true } ∧
        r.pageId ∈ a.pages ∧ a.pages ⊆ Set.Ico 0 virtualPages ∧
        0 ≤ r.offset ∧ r.offset + a.elemSize ≤ pageSize)) ∧
    ∀ (i j : Nat) (a b : Array) (key key' : Key) (r r' : Pointer),
      (session virtualPages calls).arrays[i]? = some a →
      (session virtualPages calls).arrays[j]? = some b →
      a.getitem key = .ok r → b.getitem key' = .ok r' →
      ((r.bytes ∩ r'.bytes).Nonempty ↔
        i = j ∧ normalise a.shape key.indices = normalise b.shape key'.indices) := by
  have hbuilt := session_built virtualPages calls
  have hlayout := session_layout calls fun a ha => (hbuilt a ha).numPages_nonneg (hdims a ha)
  refine ⟨fun a ha key => ?_, ?_⟩
  · have haccept := (hbuilt a ha).accepts_iff (hdims a ha) key.indices
    refine ⟨haccept, fun hin => ?_⟩
    obtain ⟨n, hn⟩ := haccept.mpr hin
    obtain ⟨-, hnumeral, rfl⟩ := (hbuilt a ha).flatIndex_iff.mp hn
    obtain ⟨⟨hpage, hpage'⟩, hoffset, -⟩ :=
      (hbuilt a ha).element (value_nonneg hnumeral) (value_lt hnumeral)
    obtain ⟨hbase, -, hend⟩ := hlayout.within a ha
    rw [session_virtualPages] at hend
    exact ⟨_, Array.getitem_iff.mpr ⟨_, hn, rfl⟩, Array.setitem_iff.mpr ⟨_, hn, rfl⟩,
      ⟨Int.le_add_of_nonneg_right hpage, Int.add_lt_add_left hpage' _⟩,
      Set.Ico_subset_Ico hbase hend, hoffset⟩
  · intro i j a b key key' r r' hi hj hr hr'
    have ha := hbuilt a (List.mem_of_getElem? hi)
    have hb := hbuilt b (List.mem_of_getElem? hj)
    obtain ⟨m, hm, hmlt, rfl, hnumeral, hvalue⟩ := ha.getitem_ok hr
    obtain ⟨n, hn, hnlt, rfl, hnumeral', hvalue'⟩ := hb.getitem_ok hr'
    rcases lt_trichotomy i j with hij | rfl | hji
    · have hdisjoint := ha.disjoint_bytes hb (hlayout.before hij hi hj) hm hmlt hn hnlt false false
      exact iff_of_false (Set.not_nonempty_iff_eq_empty.mpr hdisjoint.inter_eq)
        fun h => absurd h.1 hij.ne
    · obtain rfl := Option.some.inj (hi.symm.trans hj)
      rw [ha.overlap_iff hm hmlt hn hnlt, and_iff_right rfl]
      constructor
      · rintro rfl
        exact value_injective hnumeral hnumeral' (hvalue.symm.trans hvalue')
      · intro heq
        rw [hvalue, hvalue', heq]
    · have hdisjoint := hb.disjoint_bytes ha (hlayout.before hji hj hi) hn hnlt hm hmlt false false
      exact iff_of_false (Set.not_nonempty_iff_eq_empty.mpr hdisjoint.symm.inter_eq)
        fun h => absurd h.1 hji.ne'

/-- Six elements, one element, none, and the rest of the pages. -/
def someArrays : List Call :=
  [.array [2, 3] 1, .array [] 3, .array [0, 5] 4, .array [2, 512] 3, .array [1] 0]

theorem array_addressing_negative_index : ∃ a r, (session 4 someArrays).arrays[3]? = some a ∧
    (∀ a ∈ (session 4 someArrays).arrays, ∀ d ∈ a.shape, 0 ≤ d) ∧
    a.getitem (.tuple [-1, -1]) = .ok r ∧ a.setitem (.tuple [-1, -1]) = .ok { r with write := true } ∧
    r.pageId = 3 ∧ r.offset = 4088 ∧ r.pageId ∈ a.pages ∧ a.pages ⊆ Set.Ico 0 4 := by
  have hdims : ∀ a ∈ (session 4 someArrays).arrays, ∀ d ∈ a.shape, 0 ≤ d := by decide +kernel
  obtain ⟨a, ha⟩ : ∃ a, (session 4 someArrays).arrays[3]? = some a := ⟨_, rfl⟩
  have hin : InBounds a.shape (Key.tuple [-1, -1]).indices := by
    cases ha
    decide
  obtain ⟨r, hget, hset, hpage, hpages, -⟩ := ((array_addressing 4 someArrays hdims).1 a
    (List.mem_of_getElem? ha) (.tuple [-1, -1])).2 hin
  refine ⟨a, r, ha, hdims, hget, hset, ?_, ?_, hpage, hpages⟩
  all_goals
    cases ha
    cases hget
    decide +kernel

/-! ## Two arrays never overlap -/

/-- The arguments are fine in the state the call is made in: no array of a known type is made whose
product of dimensions is negative by a page or more. -/
def Session.Admits (s : Session) : Call → Prop
  | .array shape dtype => s.ctx.isOpen = true → ∀ ctype elemSize,
      dtypeMap dtype = some (ctype, elemSize) → -pageSize < shape.prod * elemSize
  | .close => True

/-- What is promised of the calls on a context, at every moment. -/
structure NeverOverlap (virtualPages : Int) (calls : List Call) : Prop where
  cursor : ∀ pre, pre <+: calls → 0 ≤ (session virtualPages pre).ctx.nextPage ∧
    (session virtualPages pre).ctx.nextPage ≤ virtualPages
  monotone : ∀ pre c, pre ++ [c] <+: calls →
    (session virtualPages pre).ctx.nextPage ≤ (session virtualPages (pre ++ [c])).ctx.nextPage
  inside : ∀ pre, pre <+: calls → ∀ a ∈ (session virtualPages pre).arrays,
    a.pages ⊆ Set.Ico 0 virtualPages
  apart : ∀ pre, pre <+: calls →
    (session virtualPages pre).arrays.Pairwise fun a b => Disjoint a.pages b.pages
  raising : ∀ pre c e, pre ++ [c] <+: calls → ((session virtualPages pre).call c).1 = some e →
    (session virtualPages (pre ++ [c])).ctx.nextPage = (session virtualPages pre).ctx.nextPage

/-- A call that is admitted makes no array with a negative number of pages. -/
theorem Session.Admits.numPages_nonneg {s : Session} {c : Call} (hc : s.Admits c)
    (hs : ∀ a ∈ s.arrays, 0 ≤ a.numPages) : ∀ a ∈ (s.call c).2.arrays, 0 ≤ a.numPages := by
  rcases s.call_spec c with ⟨e, heq, -⟩ | ⟨a, heq, rfl, hbuilt, -, hopen, -⟩ | ⟨-, heq⟩ <;> rw [heq]
  · exact hs
  · have hnew : 0 ≤ a.numPages := by
      rw [hbuilt.numPages, pagesFor_nonneg_iff]
      exact hc hopen _ _ hbuilt.dtype
    simpa [or_imp, forall_and] using ⟨hs, hnew⟩
  · exact hs

/-- A call that is not admitted moves the cursor back. -/
theorem Session.admits_of_monotone {s : Session} {c : Call}
    (hcursor : s.ctx.nextPage ≤ s.ctx.virtualPages)
    (hmono : s.ctx.nextPage ≤ (s.call c).2.ctx.nextPage) : s.Admits c := by
  cases c with
  | close => trivial
  | array shape dtype =>
      intro hopen ctype elemSize hd
      rw [← pagesFor_nonneg_iff]
      rcases s.call_spec (.array shape dtype) with
        ⟨e, -, hfull⟩ | ⟨a, heq, hc, hbuilt, -⟩ | ⟨hc, -⟩
      · have := hfull shape dtype ctype elemSize rfl hd hopen
        omega
      · cases hc
        have hentry := hbuilt.dtype.symm.trans hd
        rw [heq] at hmono
        have hpages := hbuilt.numPages
        simp only [Option.some.injEq, Prod.mk.injEq] at hentry
        rw [hentry.2] at hpages
        dsimp only at hmono
        omega
      · cases hc

section Admitted

variable {virtualPages : Int} {calls : List Call}
  (hadmits : ∀ pre c, pre ++ [c] <+: calls → (session virtualPages pre).Admits c)

include hadmits

theorem numPages_nonneg_of_admits (pre : List Call) (hpre : pre <+: calls) :
    ∀ a ∈ (session virtualPages pre).arrays, 0 ≤ a.numPages := by
  induction pre using List.reverseRecOn with
  | nil => simp [session]
  | append_singleton pre c ih =>
      rw [session_snoc]
      exact (hadmits pre c hpre).numPages_nonneg (ih ((List.prefix_append pre [c]).trans hpre))

theorem layout_of_admits {pre : List Call} (hpre : pre <+: calls) :
    (session virtualPages pre).Layout :=
  session_layout pre (numPages_nonneg_of_admits hadmits pre hpre)

theorem step_of_admits {pre : List Call} {c : Call} (hpre : pre ++ [c] <+: calls) :
    (session virtualPages pre).ctx.nextPage ≤ (session virtualPages (pre ++ [c])).ctx.nextPage ∧
      ((session virtualPages pre).ctx.nextPage ≤ virtualPages →
        (session virtualPages (pre ++ [c])).ctx.nextPage ≤ virtualPages) := by
  have hpages := numPages_nonneg_of_admits hadmits _ hpre
  have hlayout := layout_of_admits hadmits ((List.prefix_append pre [c]).trans hpre)
  rw [session_snoc] at hpages
  have hstep := (hlayout.call c hpages).2
  rwa [← session_snoc, session_virtualPages, session_virtualPages] at hstep

theorem nextPage_le_of_admits (hvirtual : 0 ≤ virtualPages) (pre : List Call)
    (hpre : pre <+: calls) : (session virtualPages pre).ctx.nextPage ≤ virtualPages := by
  induction pre using List.reverseRecOn with
  | nil => exact hvirtual
  | append_singleton pre c ih =>
      exact (step_of_admits hadmits hpre).2 (ih ((List.prefix_append pre [c]).trans hpre))

end Admitted

/-- **When arrays never overlap.** Any calls are made on a new context. The cursor never moves back
and stays in the virtual space, the arrays are apart and inside, and a call that raises does not move
the cursor, if and only if the virtual space is not negative and every call is admitted in the state
it is made in. -/
theorem arrays_never_overlap_iff (virtualPages : Int) (calls : List Call) :
    NeverOverlap virtualPages calls ↔ 0 ≤ virtualPages ∧
      ∀ pre c, pre ++ [c] <+: calls → (session virtualPages pre).Admits c := by
  constructor
  · intro h
    have hstart := h.cursor [] List.nil_prefix
    refine ⟨hstart.1.trans hstart.2, fun pre c hpre => ?_⟩
    have hcursor := (h.cursor pre ((List.prefix_append pre [c]).trans hpre)).2
    have hmono := h.monotone pre c hpre
    rw [session_snoc] at hmono
    exact Session.admits_of_monotone (hcursor.trans_eq (session_virtualPages virtualPages pre).symm)
      hmono
  · rintro ⟨hvirtual, hadmits⟩
    refine ⟨fun pre hpre => ⟨(layout_of_admits hadmits hpre).nextPage_nonneg,
      nextPage_le_of_admits hadmits hvirtual pre hpre⟩,
      fun pre c hpre => (step_of_admits hadmits hpre).1, ?_, ?_, ?_⟩
    · intro pre hpre a ha
      obtain ⟨hbase, -, hend⟩ := (layout_of_admits hadmits hpre).within a ha
      rw [session_virtualPages] at hend
      exact Set.Ico_subset_Ico hbase hend
    · intro pre hpre
      refine (layout_of_admits hadmits hpre).ordered.imp fun {a b} hab => ?_
      rw [Array.pages, Array.pages, Set.Ico_disjoint_Ico]
      exact (min_le_left _ _).trans (hab.trans (le_max_right _ _))
    · intro pre c e hpre hraise
      rw [session_snoc]
      rcases (session virtualPages pre).call_spec c with ⟨e', heq, -⟩ | ⟨a, heq, -⟩ | ⟨-, heq⟩
      · rw [heq]
      · rw [heq] at hraise
        cases hraise
      · rw [heq] at hraise
        cases hraise

/-- **Two arrays on one page.** An array of shape `(-1, 512)` gives back the page of the array before
it, and the next array gets that page too. -/
theorem negative_shape_overlaps : ∃ calls : List Call,
    calls = [.array [512] 3, .array [-1, 512] 3, .array [512] 3] ∧
    ((session 4 calls).arrays.map fun a => (a.basePage, a.numPages)) = [(0, 1), (1, -1), (0, 1)] ∧
    ¬ NeverOverlap 4 calls := by
  refine ⟨_, rfl, by decide +kernel, fun h => ?_⟩
  have hmono := h.monotone [.array [512] 3] (.array [-1, 512] 3) ⟨[.array [512] 3], rfl⟩
  exact absurd hmono (by decide +kernel)

end Dsm.Python
