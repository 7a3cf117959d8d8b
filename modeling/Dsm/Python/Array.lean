import Dsm.Lib.MixedRadix
import Mathlib.Data.Int.ConditionallyCompleteOrder
import Mathlib.Order.CompletePartialOrder
import Mathlib.Order.Interval.Set.Disjoint
import Mathlib.Tactic.Ring

/-!
# Arrays of the Python binding

`python/dsm.py` lays arrays of any rank into the pages of a context. A `Context` hands out pages in
the order they are asked for and never takes one back; an `Array` asks for as many pages as its
elements fill and keeps its elements there in row-major order.

Python integers are `Int`, `//` and `%` are `Int.fdiv` and `Int.fmod`. A method that may raise
returns an `Except`, beside the context it leaves behind where it changes the context. Page ids are
those handed to `access_page`; ctypes makes 32-bit numbers of them, which changes none of them in a
virtual space of at most `2 ^ 32` pages.
-/

namespace Dsm.Python

open Dsm.Lib MixedRadix

/-- `PAGE_SIZE` -/
def pageSize : Int := 4096

inductive Exception
  | runtimeError (message : String)
  | memoryError (message : String)
  | indexError (message : String)
  | keyError (key : Int)
  | typeError (message : String)
  | zeroDivisionError
  -- Whatever NumPy raises by itself.
  | numpy
deriving DecidableEq, Repr

/-! ## Contexts -/

/-- What `Array` uses of a `Context`. `isOpen` is `_ctx is not None`. -/
structure Context where
  isOpen : Bool
  nextPage : Int
  virtualPages : Int
deriving DecidableEq, Repr

namespace Context

/-- A context that is created and connected. -/
def init (virtualPages : Int) : Context := ⟨true, 0, virtualPages⟩

/-- `_alloc_pages` -/
def allocPages (ctx : Context) (count : Int) : Except Exception Int × Context :=
  if !ctx.isOpen then
    (.error (.runtimeError "Context is closed"), ctx)
  else if ctx.nextPage + count > ctx.virtualPages then
    (.error (.memoryError (s!"Cannot allocate {count} pages: " ++
      s!"{ctx.virtualPages - ctx.nextPage} of {ctx.virtualPages} virtual pages remain")), ctx)
  else
    (.ok ctx.nextPage, { ctx with nextPage := ctx.nextPage + count })

/-- `close` -/
def close (ctx : Context) : Context := { ctx with isOpen := false }

end Context

/-! ## Arrays -/

/-- The element types of `ctypes`. -/
inductive CType
  | cInt32
  | cInt64
  | cFloat
  | cDouble
  | cUint8
deriving DecidableEq, Repr

/-- `_dtype_map`, with `int32`, `int64`, `float32`, `float64` and `uint8` as `0` to `4`. -/
def dtypeMap : Int → Option (CType × Int)
  | 0 => some (.cInt32, 4)
  | 1 => some (.cInt64, 8)
  | 2 => some (.cFloat, 4)
  | 3 => some (.cDouble, 8)
  | 4 => some (.cUint8, 1)
  | _ => none

structure Array where
  shape : List Int
  dtype : Int
  ctype : CType
  elemSize : Int
  size : Int
  strides : List Int
  elemsPerPage : Int
  numPages : Int
  basePage : Int
deriving DecidableEq, Repr

/-- The loop of `_compute_strides`, from `i - 1` down to `0`. -/
def computeStridesLoop (shape : List Int) : Nat → List Int → List Int
  | 0, strides => strides
  | i + 1, strides =>
      computeStridesLoop shape i
        (strides.set i (strides.getD (i + 1) 0 * shape.getD (i + 1) 0))

/-- `_compute_strides` -/
def computeStrides (shape : List Int) : List Int :=
  computeStridesLoop shape (shape.length - 1) (List.replicate shape.length 1)

/-- The loop of `_flat_index` over the axes from `i` on. -/
def flatIndexLoop : Nat → Int → List (Int × Int × Int) → Except Exception Int
  | _, flat, [] => .ok flat
  | i, flat, (idx, stride, dim) :: rest =>
      let idx := if idx < 0 then idx + dim else idx
      if 0 ≤ idx ∧ idx < dim then
        flatIndexLoop (i + 1) (flat + idx * stride) rest
      else
        .error (.indexError s!"Index {idx} out of bounds for axis {i} with size {dim}")

/-- What is written between the brackets: one index, or a tuple of them. -/
inductive Key
  | index (i : Int)
  | tuple (indices : List Int)
deriving DecidableEq, Repr

def Key.indices : Key → List Int
  | .index i => [i]
  | .tuple indices => indices

/-- The pointer that is dereferenced in the end: the page that `access_page` is asked for, and for
what, the offset in it and the type of the element. -/
structure Pointer where
  pageId : Int
  write : Bool
  offset : Int
  ctype : CType
deriving DecidableEq, Repr

namespace Array

def ndim (a : Array) : Nat := a.shape.length

/-- `Array.__init__` -/
def init (ctx : Context) (shape : List Int) (dtype : Int) : Except Exception Array × Context :=
  match dtypeMap dtype with
  | none => (.error (.keyError dtype), ctx)
  | some (ctype, elemSize) =>
      let size := shape.foldl (· * ·) 1
      let strides := computeStrides shape
      let elemsPerPage := pageSize.fdiv elemSize
      let numPages := -((-(size * elemSize)).fdiv pageSize)
      match ctx.allocPages numPages with
      | (.error e, ctx) => (.error e, ctx)
      | (.ok basePage, ctx) =>
          (.ok { shape, dtype, ctype, elemSize, size, strides, elemsPerPage, numPages, basePage }, ctx)

/-- `_flat_index` -/
def flatIndex (a : Array) (indices : List Int) : Except Exception Int :=
  if indices.length ≠ a.ndim then
    .error (.indexError s!"Expected {a.ndim} indices, got {indices.length}")
  else
    flatIndexLoop 0 0 (indices.zip (a.strides.zip a.shape))

/-- `__getitem__`, up to the load. -/
def getitem (a : Array) (key : Key) : Except Exception Pointer := do
  let flatIdx ← a.flatIndex key.indices
  let pageId := a.basePage + flatIdx.fdiv a.elemsPerPage
  let offset := flatIdx.fmod a.elemsPerPage * a.elemSize
  return { pageId, write := false, offset, ctype := a.ctype }

/-- `__setitem__`, up to the store. -/
def setitem (a : Array) (key : Key) : Except Exception Pointer := do
  let flatIdx ← a.flatIndex key.indices
  let pageId := a.basePage + flatIdx.fdiv a.elemsPerPage
  let offset := flatIdx.fmod a.elemsPerPage * a.elemSize
  return { pageId, write := true, offset, ctype := a.ctype }

end Array

/-! ## Strides -/

/-- The places before `i` do not matter: the loop overwrites them, last first, and each product is
made of the stride it has just written. -/
theorem computeStridesLoop_eq (shape : List Int) (i : Nat) : ∀ strides : List Int,
    strides.length = shape.length → i < shape.length →
    strides.drop i = weights (shape.drop i) →
    computeStridesLoop shape i strides = weights shape := by
  induction i with
  | zero =>
      intro strides _ _ hdrop
      simpa [computeStridesLoop] using hdrop
  | succ i ih =>
      intro strides hlen hi hdrop
      have hi' : i < strides.length := by omega
      rw [computeStridesLoop]
      refine ih _ (by simpa using hlen) (by omega) ?_
      have hshape : shape.drop i = shape[i] :: shape.drop (i + 1) := List.drop_eq_getElem_cons _
      have hset : ∀ w, (strides.set i w).drop i = w :: strides.drop (i + 1) := by
        intro w
        rw [List.drop_eq_getElem_cons (by simpa using hi'), List.getElem_set_self,
          List.drop_set_of_lt (Nat.lt_succ_self i)]
      rw [hset, hshape, weights, hdrop]
      congr 1
      have hnext : shape.drop (i + 1) = shape[i + 1] :: shape.drop (i + 2) :=
        List.drop_eq_getElem_cons _
      have hhead : strides.getD (i + 1) 0 = (shape.drop (i + 2)).prod := by
        rw [List.getD_eq_getElem?_getD, ← List.head?_drop, hdrop, hnext, weights]
        rfl
      have hdim : shape.getD (i + 1) 0 = shape[i + 1] := by simp [List.getD_eq_getElem?_getD, hi]
      rw [hhead, hdim, hnext, List.prod_cons, mul_comm]

/-- **Row-major strides**: the stride of an axis is the product of the dimensions behind it. -/
theorem computeStrides_eq (shape : List Int) : computeStrides shape = weights shape := by
  cases hlen : shape.length with
  | zero =>
      rw [List.length_eq_zero_iff] at hlen
      subst hlen
      rfl
  | succ n =>
      rw [computeStrides]
      refine computeStridesLoop_eq shape _ _ (by simp) (by omega) ?_
      have hlast : shape.drop (shape.length - 1) = [shape[shape.length - 1]] := by
        rw [List.drop_eq_getElem_cons (by omega), List.drop_of_length_le (by omega)]
      have hone : shape.length - (shape.length - 1) = 1 := by omega
      rw [hlast, List.drop_replicate, hone]
      rfl

/-! ## Indices -/

/-- A negative index counts from the end of its axis. -/
def normalise (shape indices : List Int) : List Int :=
  List.zipWith (fun idx dim => if idx < 0 then idx + dim else idx) indices shape

/-- One index for each axis, in bounds from either end. -/
abbrev InBounds (shape indices : List Int) : Prop :=
  List.Forall₂ (fun idx dim => -dim ≤ idx ∧ idx < dim) indices shape

/-- The loop takes exactly the indices that are in bounds once they are normalised. -/
theorem flatIndexLoop_iff {shape : List Int} : ∀ {indices strides : List Int},
    indices.length = shape.length → strides.length = shape.length → ∀ {i : Nat} {flat n : Int},
    flatIndexLoop i flat (indices.zip (strides.zip shape)) = .ok n ↔
      Numeral (normalise shape indices) shape ∧
        n = flat + value (normalise shape indices) strides := by
  induction shape with
  | nil =>
      intro indices strides hi _ i flat n
      obtain rfl := List.length_eq_zero_iff.mp hi
      simp [flatIndexLoop, normalise, eq_comm]
  | cons dim shape ih =>
      intro indices strides hi hs i flat n
      obtain ⟨idx, indices, rfl⟩ := List.exists_cons_of_length_eq_add_one hi
      obtain ⟨stride, strides, rfl⟩ := List.exists_cons_of_length_eq_add_one hs
      have hrest := @ih indices strides (by simpa using hi) (by simpa using hs)
      have hcons : normalise (dim :: shape) (idx :: indices) =
          (if idx < 0 then idx + dim else idx) :: normalise shape indices := rfl
      simp only [List.zip_cons_cons, flatIndexLoop, hcons, List.forall₂_cons, value_cons]
      generalize (if idx < 0 then idx + dim else idx) = digit
      split
      · next hdigit => rw [hrest, add_assoc, and_iff_right hdigit]
      · next hdigit => simp [hdigit]

/-- Where no dimension is negative these are the indices in bounds. -/
theorem numeral_normalise_iff {shape : List Int} (hdims : ∀ d ∈ shape, 0 ≤ d) :
    ∀ {indices : List Int}, indices.length = shape.length →
      (Numeral (normalise shape indices) shape ↔ InBounds shape indices) := by
  induction shape with
  | nil =>
      intro indices hlen
      obtain rfl := List.length_eq_zero_iff.mp hlen
      simp [normalise]
  | cons dim shape ih =>
      intro indices hlen
      obtain ⟨idx, indices, rfl⟩ := List.exists_cons_of_length_eq_add_one hlen
      have hdim := hdims dim List.mem_cons_self
      have hrest := ih (fun d hd => hdims d (List.mem_cons_of_mem _ hd)) (by simpa using hlen)
      have hcons : normalise (dim :: shape) (idx :: indices) =
          (if idx < 0 then idx + dim else idx) :: normalise shape indices := rfl
      simp only [hcons, List.forall₂_cons, hrest]
      refine and_congr_left fun _ => ?_
      split <;> omega

/-! ## Where an element lies -/

/-- `ctypes.sizeof` -/
def CType.size : CType → Int
  | .cInt32 => 4
  | .cInt64 => 8
  | .cFloat => 4
  | .cDouble => 8
  | .cUint8 => 1

/-- The table has the size of each type, and every one divides the page. -/
theorem dtypeMap_size {dtype : Int} {ctype : CType} {elemSize : Int}
    (h : dtypeMap dtype = some (ctype, elemSize)) :
    ctype.size = elemSize ∧ 0 < elemSize ∧ pageSize.fdiv elemSize * elemSize = pageSize := by
  unfold dtypeMap at h
  split at h <;> cases h <;> decide

/-- The pages that so many bytes fill, as `__init__` computes it. -/
def pagesFor (bytes : Int) : Int := -((-bytes).fdiv pageSize)

theorem le_pagesFor (bytes : Int) : bytes ≤ pagesFor bytes * pageSize := by
  have hdiv := Int.ediv_mul_le (-bytes) (show pageSize ≠ 0 by decide)
  rw [← Int.fdiv_eq_ediv_of_nonneg _ (show (0 : Int) ≤ pageSize by decide)] at hdiv
  rw [pagesFor]
  linarith

/-- Rounding up, less than a page below zero is still zero. -/
theorem pagesFor_nonneg_iff (bytes : Int) : 0 ≤ pagesFor bytes ↔ -pageSize < bytes := by
  rw [pagesFor, Int.fdiv_eq_ediv_of_nonneg _ (show (0 : Int) ≤ pageSize by decide), pageSize]
  omega

/-- What `__init__` makes of its arguments. -/
structure Array.Built (a : Array) : Prop where
  dtype : dtypeMap a.dtype = some (a.ctype, a.elemSize)
  size : a.size = a.shape.prod
  strides : a.strides = weights a.shape
  elemsPerPage : a.elemsPerPage = pageSize.fdiv a.elemSize
  numPages : a.numPages = pagesFor (a.shape.prod * a.elemSize)

/-- **The allocator**: it fails and leaves the context alone, or takes the next pages. -/
theorem Context.allocPages_spec (ctx : Context) (count : Int) :
    (∃ e, ctx.allocPages count = (.error e, ctx) ∧
      (ctx.isOpen = true → ctx.virtualPages < ctx.nextPage + count)) ∨
    ctx.allocPages count = (.ok ctx.nextPage, { ctx with nextPage := ctx.nextPage + count }) ∧
      ctx.isOpen = true ∧ ctx.nextPage + count ≤ ctx.virtualPages := by
  unfold Context.allocPages
  cases hopen : ctx.isOpen with
  | false => exact .inl ⟨_, rfl, nofun⟩
  | true =>
      rw [Bool.not_true, if_neg Bool.false_ne_true]
      split
      · next hfull => exact .inl ⟨_, rfl, fun _ => hfull⟩
      · next hroom => exact .inr ⟨rfl, rfl, not_lt.mp hroom⟩

/-- **The constructor**: it fails and leaves the context alone, or takes the next pages. -/
theorem Array.init_spec (ctx : Context) (shape : List Int) (dtype : Int) :
    (∃ e, Array.init ctx shape dtype = (.error e, ctx) ∧ ∀ ctype elemSize,
      dtypeMap dtype = some (ctype, elemSize) → ctx.isOpen = true →
        ctx.virtualPages < ctx.nextPage + pagesFor (shape.prod * elemSize)) ∨
    ∃ a, Array.init ctx shape dtype = (.ok a, { ctx with nextPage := ctx.nextPage + a.numPages }) ∧
      a.Built ∧ a.shape = shape ∧ a.dtype = dtype ∧ a.basePage = ctx.nextPage ∧
      ctx.isOpen = true ∧ ctx.nextPage + a.numPages ≤ ctx.virtualPages := by
  unfold Array.init
  cases hd : dtypeMap dtype with
  | none => exact .inl ⟨_, rfl, nofun⟩
  | some entry =>
      obtain ⟨ctype, elemSize⟩ := entry
      have hsize : shape.foldl (· * ·) 1 = shape.prod := List.prod_eq_foldl.symm
      simp only [hsize]
      rcases ctx.allocPages_spec (pagesFor (shape.prod * elemSize)) with
        ⟨e, heq, hfull⟩ | ⟨heq, hopen, hroom⟩
      · rw [pagesFor] at heq
        rw [heq]
        refine .inl ⟨e, rfl, fun ctype' elemSize' hd' hopen => ?_⟩
        cases hd'
        exact hfull hopen
      · rw [pagesFor] at heq
        rw [heq]
        exact .inr ⟨_, rfl, ⟨hd, rfl, computeStrides_eq shape, rfl, rfl⟩, rfl, rfl, rfl, hopen, hroom⟩

namespace Array.Built

variable {a : Array} (h : a.Built)

include h

theorem elemSize_pos : 0 < a.elemSize := (dtypeMap_size h.dtype).2.1

theorem elemsPerPage_mul : a.elemsPerPage * a.elemSize = pageSize := by
  rw [h.elemsPerPage]
  exact (dtypeMap_size h.dtype).2.2

theorem elemsPerPage_pos : 0 < a.elemsPerPage := by
  have hmul : 0 < a.elemsPerPage * a.elemSize := h.elemsPerPage_mul ▸ by decide
  exact pos_of_mul_pos_left hmul h.elemSize_pos.le

theorem flatIndex_iff {indices : List Int} {n : Int} :
    a.flatIndex indices = .ok n ↔ indices.length = a.ndim ∧
      Numeral (normalise a.shape indices) a.shape ∧
      n = value (normalise a.shape indices) (weights a.shape) := by
  unfold Array.flatIndex
  by_cases hlen : indices.length = a.ndim
  · rw [if_neg (not_not_intro hlen), flatIndexLoop_iff hlen (by rw [h.strides, weights_length]),
      zero_add, h.strides, and_iff_right hlen]
  · simp [hlen]

/-- What a pointer to element `n` is made of: a page of the array, and an offset in it that leaves
room for the element; together they are the byte at which element `n` of the line starts. -/
theorem element {n : Int} (hn : 0 ≤ n) (hlt : n < a.shape.prod) :
    (0 ≤ n.fdiv a.elemsPerPage ∧ n.fdiv a.elemsPerPage < a.numPages) ∧
    (0 ≤ n.fmod a.elemsPerPage * a.elemSize ∧
      n.fmod a.elemsPerPage * a.elemSize + a.elemSize ≤ pageSize) ∧
    n.fdiv a.elemsPerPage * pageSize + n.fmod a.elemsPerPage * a.elemSize = n * a.elemSize := by
  have hsize := h.elemSize_pos
  have hepp := h.elemsPerPage_pos
  rw [Int.fdiv_eq_ediv_of_nonneg _ hepp.le, Int.fmod_eq_emod_of_nonneg _ hepp.le]
  have hmod := Int.emod_nonneg n hepp.ne'
  have hmodlt := Int.emod_lt_of_pos n hepp
  have hline : n / a.elemsPerPage * pageSize + n % a.elemsPerPage * a.elemSize = n * a.elemSize :=
    calc n / a.elemsPerPage * pageSize + n % a.elemsPerPage * a.elemSize
        = (a.elemsPerPage * (n / a.elemsPerPage) + n % a.elemsPerPage) * a.elemSize := by
          rw [← h.elemsPerPage_mul]; ring
      _ = n * a.elemSize := by rw [Int.mul_ediv_add_emod]
  have hoffset : 0 ≤ n % a.elemsPerPage * a.elemSize := mul_nonneg hmod hsize.le
  have hroom : n % a.elemsPerPage * a.elemSize + a.elemSize ≤ pageSize := by
    have hle := mul_le_mul_of_nonneg_right (Int.add_one_le_iff.mpr hmodlt) hsize.le
    rw [h.elemsPerPage_mul] at hle
    linarith
  refine ⟨⟨Int.ediv_nonneg hn hepp.le, ?_⟩, ⟨hoffset, hroom⟩, hline⟩
  -- The element ends inside the bytes of the array, so it starts on one of its pages.
  have hbytes : n * a.elemSize < a.numPages * pageSize :=
    calc n * a.elemSize < a.shape.prod * a.elemSize := mul_lt_mul_of_pos_right hlt hsize
      _ ≤ a.numPages * pageSize := h.numPages ▸ le_pagesFor _
  have hpage : n / a.elemsPerPage * pageSize < a.numPages * pageSize := by linarith
  exact lt_of_mul_lt_mul_right hpage (by decide)

end Array.Built

/-- The bytes of the virtual space that are read or written through a pointer. -/
def Pointer.bytes (r : Pointer) : Set Int :=
  Set.Ico (r.pageId * pageSize + r.offset) (r.pageId * pageSize + r.offset + r.ctype.size)

namespace Array

/-- The pages of an array. -/
def pages (a : Array) : Set Int := Set.Ico a.basePage (a.basePage + a.numPages)

/-- The pointer to element `n`. -/
def pointer (a : Array) (n : Int) (write : Bool) : Pointer :=
  ⟨a.basePage + n.fdiv a.elemsPerPage, write, n.fmod a.elemsPerPage * a.elemSize, a.ctype⟩

theorem getitem_iff {a : Array} {key : Key} {r : Pointer} :
    a.getitem key = .ok r ↔ ∃ n, a.flatIndex key.indices = .ok n ∧ r = a.pointer n false := by
  unfold getitem
  cases a.flatIndex key.indices with
  | error e => simp [bind, Except.bind]
  | ok n => simp [bind, Except.bind, pure, Except.pure, pointer, eq_comm]

theorem setitem_iff {a : Array} {key : Key} {r : Pointer} :
    a.setitem key = .ok r ↔ ∃ n, a.flatIndex key.indices = .ok n ∧ r = a.pointer n true := by
  unfold setitem
  cases a.flatIndex key.indices with
  | error e => simp [bind, Except.bind]
  | ok n => simp [bind, Except.bind, pure, Except.pure, pointer, eq_comm]

variable {a b : Array}

/-- What an index that is accepted leads to. -/
theorem Built.getitem_ok (h : a.Built) {key : Key} {r : Pointer} (hr : a.getitem key = .ok r) :
    ∃ n, 0 ≤ n ∧ n < a.shape.prod ∧ r = a.pointer n false ∧
      Numeral (normalise a.shape key.indices) a.shape ∧
      n = value (normalise a.shape key.indices) (weights a.shape) := by
  obtain ⟨n, hflat, rfl⟩ := getitem_iff.mp hr
  obtain ⟨-, hnumeral, rfl⟩ := h.flatIndex_iff.mp hflat
  exact ⟨_, value_nonneg hnumeral, value_lt hnumeral, rfl, hnumeral, rfl⟩

/-- The bytes of element `n`: the elements lie one after the other. -/
theorem Built.bytes_pointer (h : a.Built) {n : Int} (hn : 0 ≤ n) (hlt : n < a.shape.prod)
    (write : Bool) : (a.pointer n write).bytes =
      Set.Ico (a.basePage * pageSize + n * a.elemSize)
        (a.basePage * pageSize + (n + 1) * a.elemSize) := by
  obtain ⟨-, -, hline⟩ := h.element hn hlt
  have hstart : (a.pointer n write).pageId * pageSize + (a.pointer n write).offset =
      a.basePage * pageSize + n * a.elemSize := by
    rw [← hline, ← add_assoc, ← add_mul]
    rfl
  have hsize : (a.pointer n write).ctype.size = a.elemSize := (dtypeMap_size h.dtype).1
  rw [Pointer.bytes, hstart, hsize, add_assoc, add_one_mul]

/-- Different elements of an array have no byte in common. -/
theorem Built.overlap_iff (h : a.Built) {m n : Int} (hm : 0 ≤ m) (hmlt : m < a.shape.prod)
    (hn : 0 ≤ n) (hnlt : n < a.shape.prod) (write write' : Bool) :
    ((a.pointer m write).bytes ∩ (a.pointer n write').bytes).Nonempty ↔ m = n := by
  rw [h.bytes_pointer hm hmlt, h.bytes_pointer hn hnlt]
  have hsize := h.elemSize_pos
  constructor
  · rintro ⟨x, ⟨hxm, hxm'⟩, hxn, hxn'⟩
    have hmn : m * a.elemSize < (n + 1) * a.elemSize := by linarith
    have hnm : n * a.elemSize < (m + 1) * a.elemSize := by linarith
    have hmn := lt_of_mul_lt_mul_right hmn hsize.le
    have hnm := lt_of_mul_lt_mul_right hnm hsize.le
    omega
  · rintro rfl
    refine ⟨a.basePage * pageSize + m * a.elemSize, ?_⟩
    rw [Set.inter_self, add_one_mul]
    exact ⟨le_rfl, by linarith⟩

theorem Built.bytes_subset (h : a.Built) {n : Int} (hn : 0 ≤ n) (hlt : n < a.shape.prod)
    (write : Bool) : (a.pointer n write).bytes ⊆
      Set.Ico (a.basePage * pageSize) ((a.basePage + a.numPages) * pageSize) := by
  obtain ⟨⟨hpage, hpage'⟩, ⟨hoffset, hoffset'⟩, hline⟩ := h.element hn hlt
  rw [h.bytes_pointer hn hlt]
  apply Set.Ico_subset_Ico
  · have := mul_nonneg hn h.elemSize_pos.le
    linarith
  · have := mul_le_mul_of_nonneg_right (Int.add_one_le_iff.mpr hpage') (show 0 ≤ pageSize by decide)
    linarith

/-- Arrays on different pages have no byte in common. -/
theorem Built.disjoint_bytes (ha : a.Built) (hb : b.Built)
    (hpages : a.basePage + a.numPages ≤ b.basePage) {m n : Int} (hm : 0 ≤ m)
    (hmlt : m < a.shape.prod) (hn : 0 ≤ n) (hnlt : n < b.shape.prod) (write write' : Bool) :
    Disjoint (a.pointer m write).bytes (b.pointer n write').bytes := by
  refine Set.disjoint_of_subset (ha.bytes_subset hm hmlt write) (hb.bytes_subset hn hnlt write') ?_
  rw [Set.Ico_disjoint_Ico]
  have := mul_le_mul_of_nonneg_right hpages (show 0 ≤ pageSize by decide)
  exact (min_le_left _ _).trans (this.trans (le_max_right _ _))

end Array

end Dsm.Python
