import Dsm.Python.Array
import Mathlib.Data.List.Nodup

/-!
# NumPy arrays to and from the store

`from_numpy` walks over a NumPy array and assigns element by element; `to_numpy` counts through the
flat indices of a DSM array and makes an index tuple of each by dividing by the strides. The two
conversions between tuples and flat indices, this one and `_flat_index`, were written independently;
here they are inverse to each other for every shape (`to_numpy_exact`), axes of length zero included,
so that every element is copied, each once.

What lies below the indices is assumed: a `Memory` is anything in which an element that was stored is
loaded again until something is stored over it, and NumPy iterates over all its indices, in an order
of its own.
-/

namespace Dsm.Python

open Dsm.Lib MixedRadix

variable {μ V : Type}

/-! ## Memory and NumPy -/

/-- What `__getitem__` and `__setitem__` do with their pointer. `fits` says which values an element of
a type can have. -/
structure Memory (μ V : Type) where
  load : μ → Pointer → V
  store : μ → Pointer → V → μ
  fits : CType → V → Prop
  load_store : ∀ (m : μ) (r : Pointer) (v : V), fits r.ctype v →
    load (store m { r with write := true } v) { r with write := false } = v
  load_store_of_disjoint : ∀ (m : μ) (r r' : Pointer) (v : V), Disjoint r.bytes r'.bytes →
    load (store m r v) r' = load m r'

/-- A NumPy `dtype`; those that the binding does not have are known by their text. -/
inductive NpDtype
  | int32
  | int64
  | float32
  | float64
  | uint8
  | other (name : String)
deriving DecidableEq, Repr

def NpDtype.name : NpDtype → String
  | .int32 => "int32"
  | .int64 => "int64"
  | .float32 => "float32"
  | .float64 => "float64"
  | .uint8 => "uint8"
  | .other name => name

/-- A NumPy array. No dimension is negative. -/
structure NdArray (V : Type) where
  shape : List Int
  dtype : NpDtype
  item : List Int → V
  nonneg : ∀ d ∈ shape, 0 ≤ d

/-- `result[tuple(indices)] = v`, for as many indices as there are axes. -/
def NdArray.setItem (a : NdArray V) (indices : List Int) (v : V) : Except Exception (NdArray V) :=
  if Numeral (normalise a.shape indices) a.shape ∧ indices.length = a.shape.length then
    .ok { a with item := Function.update a.item (normalise a.shape indices) v }
  else
    .error .numpy

/-! ## `to_numpy` -/

/-- `dtype_map` of `to_numpy` -/
def toNumpyDtype : Int → Option NpDtype
  | 0 => some .int32
  | 1 => some .int64
  | 2 => some .float32
  | 3 => some .float64
  | 4 => some .uint8
  | _ => none

/-- The inner loop: from a flat index back to one index for each axis. -/
def unravelLoop : List Int → Int → List Int → Except Exception (List Int)
  | indices, _, [] => .ok indices
  | indices, remaining, stride :: strides =>
      if stride = 0 then
        .error .zeroDivisionError
      else
        unravelLoop (indices ++ [remaining.fdiv stride]) (remaining.fmod stride) strides

def Array.unravel (a : Array) (flatIdx : Int) : Except Exception (List Int) :=
  unravelLoop [] flatIdx a.strides

/-- `range` -/
def pyRange (stop : Int) : List Int := (List.range stop.toNat).map fun k : Nat => (k : Int)

/-- The body of the outer loop. -/
def toNumpyStep (M : Memory μ V) (a : Array) (m : μ) (result : NdArray V) (flatIdx : Int) :
    Except Exception (NdArray V) := do
  let indices ← a.unravel flatIdx
  let r ← a.getitem (.tuple indices)
  result.setItem indices (M.load m r)

/-- `to_numpy`; `empty` is what `np.empty` finds in its memory. -/
def toNumpy (M : Memory μ V) (a : Array) (m : μ) (empty : List Int → V) :
    Except Exception (NdArray V) :=
  match toNumpyDtype a.dtype with
  | none => .error (.keyError a.dtype)
  | some dtype =>
      if h : ∀ d ∈ a.shape, 0 ≤ d then
        (pyRange a.size).foldlM (toNumpyStep M a m) ⟨a.shape, dtype, empty, h⟩
      else
        .error .numpy

/-! ## `from_numpy` -/

/-- `dtype_map` of `from_numpy` -/
def fromNumpyDtype : NpDtype → Option Int
  | .int32 => some 0
  | .int64 => some 1
  | .float32 => some 2
  | .float64 => some 3
  | .uint8 => some 4
  | .other _ => none

/-- The loop, over the indices in the order of the iterator. -/
def fromNumpyLoop (M : Memory μ V) (result : Array) (npArr : NdArray V) :
    List (List Int) → μ → Option Exception × μ
  | [], m => (none, m)
  | multiIndex :: rest, m =>
      match result.setitem (.tuple multiIndex) with
      | .error e => (some e, m)
      | .ok r => fromNumpyLoop M result npArr rest (M.store m r (npArr.item multiIndex))

/-- `from_numpy`; `order` is the order in which `np.nditer` visits the indices. It refuses an array
without elements. -/
def fromNumpy (M : Memory μ V) (ctx : Context) (npArr : NdArray V) (order : List (List Int)) (m : μ) :
    Except Exception Array × Context × μ :=
  match fromNumpyDtype npArr.dtype with
  | none => (.error (.typeError s!"Unsupported dtype: {npArr.dtype.name}"), ctx, m)
  | some dtype =>
      match Array.init ctx npArr.shape dtype with
      | (.error e, ctx) => (.error e, ctx, m)
      | (.ok result, ctx) =>
          if npArr.shape.prod = 0 then
            (.error .numpy, ctx, m)
          else
            match fromNumpyLoop M result npArr order m with
            | (some e, m) => (.error e, ctx, m)
            | (none, m) => (.ok result, ctx, m)

/-! ## Unravelling -/

/-- Without a zero among the strides the loop computes the digits. -/
theorem unravelLoop_eq {strides : List Int} (hpos : ∀ w ∈ strides, 0 < w) :
    ∀ (indices : List Int) (n : Int),
      unravelLoop indices n strides = .ok (indices ++ digits n strides) := by
  induction strides with
  | nil => simp [unravelLoop, digits]
  | cons w strides ih =>
      intro indices n
      obtain ⟨hw, hpos'⟩ := List.forall_mem_cons.mp hpos
      rw [unravelLoop, if_neg hw.ne', ih hpos', Int.fdiv_eq_ediv_of_nonneg _ hw.le,
        Int.fmod_eq_emod_of_nonneg _ hw.le, digits, List.append_assoc, List.singleton_append]

/-- Indices that are numerals stay as they are. -/
theorem normalise_of_numeral {indices shape : List Int} (h : Numeral indices shape) :
    normalise shape indices = indices := by
  induction h with
  | nil => rfl
  | @cons idx dim indices shape hidx _ ih =>
      rw [normalise, List.zipWith_cons_cons, if_neg (not_lt.mpr hidx.1)]
      exact congrArg (idx :: ·) ih

namespace Array.Built

variable {a : Array} (h : a.Built) (hdims : ∀ d ∈ a.shape, 0 ≤ d)

include h

theorem flatIndex_of_numeral {indices : List Int} (hnum : Numeral indices a.shape) :
    a.flatIndex indices = .ok (value indices (weights a.shape)) := by
  refine h.flatIndex_iff.mpr ⟨hnum.length_eq, ?_, ?_⟩ <;> rw [normalise_of_numeral hnum]
  exact hnum

include hdims

theorem unravel_eq {n : Int} (hn : 0 ≤ n) (hlt : n < a.size) :
    a.unravel n = .ok (digits n (weights a.shape)) := by
  rw [h.size] at hlt
  rw [Array.unravel, h.strides, unravelLoop_eq (weights_pos hdims hn hlt), List.nil_append]

/-- **Back and forth**: a flat index is unravelled to the one tuple that `_flat_index` maps to it. -/
theorem unravel_iff {n : Int} (hn : 0 ≤ n) (hlt : n < a.size) (indices : List Int) :
    a.unravel n = .ok indices ↔
      Numeral indices a.shape ∧ a.flatIndex indices = .ok n := by
  rw [h.unravel_eq hdims hn hlt]
  rw [h.size] at hlt
  constructor
  · rintro ⟨⟩
    have hnum := digits_numeral hdims hn hlt
    rw [h.flatIndex_of_numeral hnum, value_digits hdims hn hlt]
    exact ⟨hnum, rfl⟩
  · rintro ⟨hnum, hflat⟩
    rw [h.flatIndex_of_numeral hnum] at hflat
    obtain rfl := Except.ok.inj hflat
    rw [digits_value hdims hnum]

end Array.Built

theorem mem_pyRange {stop n : Int} : n ∈ pyRange stop ↔ 0 ≤ n ∧ n < stop := by
  rw [pyRange, List.mem_map]
  constructor
  · rintro ⟨k, hk, rfl⟩
    rw [List.mem_range] at hk
    omega
  · rintro ⟨hn, hlt⟩
    exact ⟨n.toNat, List.mem_range.mpr (by omega), Int.toNat_of_nonneg hn⟩

theorem nodup_pyRange (stop : Int) : (pyRange stop).Nodup :=
  List.Nodup.map (fun _ _ => Int.ofNat.inj) List.nodup_range

theorem mapM_eq_ok {α β ε : Type} {f : α → Except ε β} {g : α → β} {l : List α}
    (h : ∀ x ∈ l, f x = .ok (g x)) : l.mapM f = .ok (l.map g) := by
  induction l with
  | nil => rfl
  | cons x l ih =>
      obtain ⟨hx, hl⟩ := List.forall_mem_cons.mp h
      rw [List.mapM_cons, hx, ih hl]
      rfl

/-- **The loop visits every index once.** -/
theorem Array.Built.visited {a : Array} (h : a.Built) (hdims : ∀ d ∈ a.shape, 0 ≤ d) :
    ∃ visited, (pyRange a.size).mapM a.unravel = .ok visited ∧ visited.Nodup ∧
      ∀ indices, indices ∈ visited ↔ Numeral indices a.shape := by
  refine ⟨_, mapM_eq_ok fun n hn => h.unravel_eq hdims (mem_pyRange.mp hn).1 (mem_pyRange.mp hn).2,
    ?_, fun indices => ?_⟩
  · refine List.Nodup.map_on (fun n hn n' hn' heq => ?_) (nodup_pyRange _)
    rw [mem_pyRange, h.size] at hn hn'
    rw [← value_digits hdims hn.1 hn.2, heq, value_digits hdims hn'.1 hn'.2]
  · rw [List.mem_map]
    constructor
    · rintro ⟨n, hn, rfl⟩
      rw [mem_pyRange, h.size] at hn
      exact digits_numeral hdims hn.1 hn.2
    · intro hnum
      refine ⟨value indices (weights a.shape), ?_, digits_value hdims hnum⟩
      rw [mem_pyRange, h.size]
      exact ⟨value_nonneg hnum, value_lt hnum⟩

/-! ## Copying out -/

section Copy

variable (M : Memory μ V) {a : Array} (h : a.Built) (hdims : ∀ d ∈ a.shape, 0 ≤ d)

include h hdims

/-- One turn of the loop copies the element whose turn it is. -/
theorem toNumpyStep_eq (m : μ) {result : NdArray V} (hshape : result.shape = a.shape) {n : Int}
    (hn : 0 ≤ n) (hlt : n < a.size) :
    toNumpyStep M a m result n = .ok { result with
      item := Function.update result.item (digits n (weights a.shape))
        (M.load m (a.pointer n false)) } := by
  have hunravel := h.unravel_eq hdims hn hlt
  obtain ⟨hnum, hflat⟩ := (h.unravel_iff hdims hn hlt _).mp hunravel
  have hget : a.getitem (.tuple (digits n (weights a.shape))) = .ok (a.pointer n false) :=
    Array.getitem_iff.mpr ⟨n, hflat, rfl⟩
  rw [toNumpyStep, hunravel]
  show (a.getitem _ >>= fun r => result.setItem _ (M.load m r)) = _
  rw [hget]
  show result.setItem _ _ = _
  have hnum' : Numeral (digits n (weights a.shape)) result.shape := hshape.symm ▸ hnum
  rw [NdArray.setItem, normalise_of_numeral hnum', if_pos ⟨hnum', hnum'.length_eq⟩]

/-- The loop copies the elements whose turn has come, and no others. -/
theorem toNumpy_foldlM (m : μ) (ns : List Int) (hns : ∀ n ∈ ns, 0 ≤ n ∧ n < a.size) :
    ∀ result : NdArray V, result.shape = a.shape →
      ∃ result', ns.foldlM (toNumpyStep M a m) result = .ok result' ∧
        result'.shape = a.shape ∧ result'.dtype = result.dtype ∧
        ∀ indices, Numeral indices a.shape → result'.item indices =
          if value indices (weights a.shape) ∈ ns then
            M.load m (a.pointer (value indices (weights a.shape)) false)
          else
            result.item indices := by
  induction ns with
  | nil => exact fun result hshape => ⟨result, rfl, hshape, rfl, fun _ _ => rfl⟩
  | cons n ns ih =>
      intro result hshape
      obtain ⟨⟨hn, hlt⟩, hns'⟩ := List.forall_mem_cons.mp hns
      obtain ⟨result', heq, hshape', hdtype, hitem⟩ := ih hns' { result with
        item := Function.update result.item (digits n (weights a.shape))
          (M.load m (a.pointer n false)) } hshape
      refine ⟨result', ?_, hshape', hdtype, fun indices hnum => ?_⟩
      · rw [List.foldlM_cons, toNumpyStep_eq M h hdims m hshape hn hlt]
        exact heq
      · rw [hitem indices hnum]
        rw [h.size] at hlt
        by_cases hturn : value indices (weights a.shape) = n
        · have hdigits : digits n (weights a.shape) = indices := hturn ▸ digits_value hdims hnum
          simp [hturn, hdigits]
        · have hne : indices ≠ digits n (weights a.shape) := by
            rintro rfl
            exact hturn (value_digits hdims hn hlt)
          simp [hturn, hne]

end Copy

/-! ## Copying in -/

section Fill

variable (M : Memory μ V) {a : Array} (h : a.Built) {npArr : NdArray V}
  (hfits : ∀ indices, Numeral indices a.shape → M.fits a.ctype (npArr.item indices))

include h hfits

/-- The loop stores the elements it visits, and no others. -/
theorem fromNumpyLoop_eq (order : List (List Int)) (horder : ∀ indices ∈ order,
    Numeral indices a.shape) : ∀ m : μ, ∃ m', fromNumpyLoop M a npArr order m = (none, m') ∧
      ∀ indices, Numeral indices a.shape →
        M.load m' (a.pointer (value indices (weights a.shape)) false) =
          if indices ∈ order then npArr.item indices
          else M.load m (a.pointer (value indices (weights a.shape)) false) := by
  induction order with
  | nil => exact fun m => ⟨m, rfl, fun _ _ => rfl⟩
  | cons visited order ih =>
      intro m
      obtain ⟨hvisited, horder'⟩ := List.forall_mem_cons.mp horder
      have hset : a.setitem (.tuple visited) =
          .ok (a.pointer (value visited (weights a.shape)) true) :=
        Array.setitem_iff.mpr ⟨_, h.flatIndex_of_numeral hvisited, rfl⟩
      obtain ⟨m', heq, hload⟩ := ih horder'
        (M.store m (a.pointer (value visited (weights a.shape)) true) (npArr.item visited))
      refine ⟨m', ?_, fun indices hnum => ?_⟩
      · rw [fromNumpyLoop, hset]
        exact heq
      · rw [hload indices hnum]
        by_cases hturn : indices = visited
        · subst hturn
          have hstore := M.load_store m (a.pointer (value indices (weights a.shape)) true)
            (npArr.item indices) (hfits indices hnum)
          have hsame : M.load (M.store m (a.pointer (value indices (weights a.shape)) true)
              (npArr.item indices)) (a.pointer (value indices (weights a.shape)) false) =
                npArr.item indices := hstore
          simp [hsame]
        · -- Another element has no byte in common with the one that is stored.
          have hvalue : value visited (weights a.shape) ≠ value indices (weights a.shape) :=
            fun heq => hturn (value_injective hvisited hnum heq).symm
          have hdisjoint := mt (h.overlap_iff (value_nonneg hvisited) (value_lt hvisited)
            (value_nonneg hnum) (value_lt hnum) true false).mp hvalue
          rw [Set.not_nonempty_iff_eq_empty, ← Set.disjoint_iff_inter_eq_empty] at hdisjoint
          rw [M.load_store_of_disjoint _ _ _ _ hdisjoint]
          simp [hturn]

end Fill

theorem toNumpyDtype_fromNumpyDtype {dtype : NpDtype} {n : Int} (h : fromNumpyDtype dtype = some n) :
    toNumpyDtype n = some dtype := by
  cases dtype <;> cases h <;> rfl

/-- **`to_numpy` enumerates the array exactly.** For a DSM array of any shape without a negative
dimension: every flat index is unravelled, without a division by zero, to a tuple of full rank and
in bounds that `_flat_index` maps back to it; the loop visits every valid tuple exactly once; and for
a NumPy array of this shape with at least one element, of a supported dtype whose values it holds,
`to_numpy` gives back what `from_numpy` has stored, element by element, whatever the order in which
NumPy visits its indices. -/
theorem to_numpy_exact (M : Memory μ V) {ctx ctx' : Context} {shape : List Int} {dtype : Int}
    {a : Array} (hinit : Array.init ctx shape dtype = (.ok a, ctx'))
    (hdims : ∀ d ∈ shape, 0 ≤ d) :
    (∀ n, 0 ≤ n → n < a.size → ∃ indices, a.unravel n = .ok indices ∧ indices.length = a.ndim ∧
      Numeral indices shape ∧ a.flatIndex indices = .ok n) ∧
    (∃ visited, (pyRange a.size).mapM a.unravel = .ok visited ∧ visited.Nodup ∧
      ∀ indices, indices ∈ visited ↔ Numeral indices shape) ∧
    ∀ (npArr : NdArray V) (order : List (List Int)) (m : μ) (empty : List Int → V),
      npArr.shape = shape → fromNumpyDtype npArr.dtype = some dtype → shape.prod ≠ 0 →
      (∀ indices, Numeral indices shape → M.fits a.ctype (npArr.item indices)) →
      (∀ indices, indices ∈ order ↔ Numeral indices shape) →
      ∃ m' result, fromNumpy M ctx npArr order m = (.ok a, ctx', m') ∧
        toNumpy M a m' empty = .ok result ∧ result.shape = npArr.shape ∧
        result.dtype = npArr.dtype ∧
        ∀ indices, Numeral indices shape → result.item indices = npArr.item indices := by
  obtain ⟨h, rfl, rfl⟩ : a.Built ∧ a.shape = shape ∧ a.dtype = dtype := by
    rcases Array.init_spec ctx shape dtype with ⟨e, heq, -⟩ | ⟨a', heq, hbuilt, hshape, hdtype, -⟩
    · rw [heq] at hinit
      cases hinit
    · rw [heq] at hinit
      cases hinit
      exact ⟨hbuilt, hshape, hdtype⟩
  refine ⟨fun n hn hlt => ?_, h.visited hdims, ?_⟩
  · have hunravel := h.unravel_eq hdims hn hlt
    obtain ⟨hnum, hflat⟩ := (h.unravel_iff hdims hn hlt _).mp hunravel
    exact ⟨_, hunravel, hnum.length_eq, hnum, hflat⟩
  · intro npArr order m empty hshape hdtype hsize hfits horder
    obtain ⟨m', hloop, hload⟩ :=
      fromNumpyLoop_eq M h hfits order (fun indices hmem => (horder indices).mp hmem) m
    obtain ⟨result, hfold, hshape', hdtype', hitem⟩ := toNumpy_foldlM M h hdims m' (pyRange a.size)
      (fun n hn => mem_pyRange.mp hn) ⟨a.shape, npArr.dtype, empty, hdims⟩ rfl
    refine ⟨m', result, ?_, ?_, hshape'.trans hshape.symm, hdtype', fun indices hnum => ?_⟩
    · rw [fromNumpy, hdtype, hshape]
      simp only [hinit, if_neg hsize, hloop]
    · rw [toNumpy, toNumpyDtype_fromNumpyDtype hdtype]
      simp only [dif_pos hdims, hfold]
    · have hturn : value indices (weights a.shape) ∈ pyRange a.size := by
        rw [mem_pyRange, h.size]
        exact ⟨value_nonneg hnum, value_lt hnum⟩
      rw [hitem indices hnum, if_pos hturn, hload indices hnum, if_pos ((horder indices).mpr hnum)]

/-- The integers that an element of a type can have. -/
def CType.Holds : CType → Int → Prop
  | .cInt32, v => -2 ^ 31 ≤ v ∧ v < 2 ^ 31
  | .cInt64, v => -2 ^ 63 ≤ v ∧ v < 2 ^ 63
  | .cUint8, v => 0 ≤ v ∧ v < 2 ^ 8
  | .cFloat, _ => False
  | .cDouble, _ => False

/-- Where the element of a pointer starts in the virtual space. -/
def Pointer.start (r : Pointer) : Int := r.pageId * pageSize + r.offset

/-- The simplest memory: a whole element in the place where it starts. -/
def cells : Memory (Int → Int) Int where
  load m r := m r.start
  store m r v := Function.update m r.start v
  fits := CType.Holds
  load_store m r v _ := Function.update_self _ _ _
  load_store_of_disjoint m r r' v hdisjoint := by
    have hstart : ∀ r : Pointer, r.start ∈ r.bytes := by
      intro r
      refine ⟨le_rfl, ?_⟩
      have hsize : 0 < r.ctype.size := by cases r.ctype <;> decide
      exact lt_add_of_pos_right _ hsize
    have hne : r'.start ≠ r.start := fun heq =>
      Set.disjoint_left.mp hdisjoint (hstart r) (heq ▸ hstart r')
    exact Function.update_of_ne hne _ _

/-- A row of two numbers. -/
def pair : NdArray Int := ⟨[1, 2], .int32, fun indices => 5 - 8 * indices.sum, by decide⟩

theorem to_numpy_exact_pair : ∃ (a : Array) (m' : Int → Int) (result : NdArray Int),
    fromNumpy cells (.init 1) pair [[0, 1], [0, 0]] (fun _ => 0) =
      (.ok a, ⟨true, 1, 1⟩, m') ∧
    toNumpy cells a m' (fun _ => 0) = .ok result ∧ result.item [0, 0] = 5 ∧
    result.item [0, 1] = -3 := by
  have hinit : ∃ a, Array.init (.init 1) [1, 2] 0 = (.ok a, ⟨true, 1, 1⟩) ∧ a.ctype = .cInt32 :=
    ⟨_, rfl, rfl⟩
  obtain ⟨a, hinit, hctype⟩ := hinit
  have hnumeral : ∀ indices, Numeral indices [1, 2] ↔ indices = [0, 0] ∨ indices = [0, 1] := by
    intro indices
    simp only [List.forall₂_cons_right_iff, List.forall₂_nil_right_iff]
    constructor
    · rintro ⟨i, _, hi, ⟨j, _, hj, rfl, rfl⟩, rfl⟩
      obtain rfl : i = 0 := by omega
      rcases (by omega : j = 0 ∨ j = 1) with rfl | rfl <;> simp
    · rintro (rfl | rfl) <;> simp
  have hfits : ∀ indices, Numeral indices [1, 2] → cells.fits a.ctype (pair.item indices) := by
    intro indices hnum
    rw [hctype]
    rcases (hnumeral indices).mp hnum with rfl | rfl <;> exact ⟨by decide, by decide⟩
  have horder : ∀ indices, indices ∈ [[0, 1], [0, 0]] ↔ Numeral indices [1, 2] := by
    intro indices
    rw [hnumeral, List.mem_cons, List.mem_singleton, or_comm]
  obtain ⟨-, -, hround⟩ := to_numpy_exact cells hinit (by decide)
  obtain ⟨m', result, hin, hout, -, -, hitem⟩ := hround pair [[0, 1], [0, 0]] (fun _ => 0)
    (fun _ => 0) rfl rfl (by decide) hfits horder
  exact ⟨a, m', result, hin, hout, hitem [0, 0] ((hnumeral _).mpr (.inl rfl)),
    hitem [0, 1] ((hnumeral _).mpr (.inr rfl))⟩

end Dsm.Python
