import Dsm.Lib.Line
import Dsm.Paging.WriteFlag
import Dsm.Python.Allocation
import Dsm.Python.Numpy

/-!
# Python processes over the page cache

A program makes arrays on a context and reads and assigns their elements. Each access goes through
`access_page` into the page cache of the C library, which may have to fetch the page, to write another
one back, or to fail at either; the element is then loaded or stored through the pointer. `Process` is
the context with all of this behind it.

The pages of the memory that cache and server represent, one after the other, are the bytes of the
virtual space (`flatBytes`), where an element is a run of neighbouring bytes.
-/

/-- The bytes of a page that an element occupies. -/
def Dsm.Page.slice (page : Dsm.Page) (offset len : Nat) : List UInt8 :=
  (page.toList.drop offset).take len

/-- The page after a store of some bytes. -/
def Dsm.Page.splice (page : Dsm.Page) (offset : Nat) (bytes : List UInt8) : Dsm.Page :=
  Vector.ofFn fun j =>
    if offset ≤ j.val then bytes.getD (j.val - offset) (page.get j) else page.get j

namespace Dsm.Python

open Dsm.Lib MixedRadix
open Dsm.Paging (Pager RpcScript Represents Remote)

variable {V : Type}

/-! ## Processes -/

/-- How `ctypes` keeps a value in an element: `encode` raises where the assignment does. -/
structure Codec (V : Type) where
  encode : CType → V → Except Exception (List UInt8)
  decode : CType → List UInt8 → V
  length_encode : ∀ {t : CType} {v : V} {bytes : List UInt8}, encode t v = .ok bytes →
    (bytes.length : Int) = t.size

/-- A context with its arrays, and the C context behind it. -/
structure Process where
  session : Session
  pager : Pager

/-- `Context.__init__`, once the socket is connected. -/
def Process.init (localPages virtualPages : Nat) (fd : Int) (remote : Remote) : Process :=
  ⟨⟨.init virtualPages, []⟩,
    ⟨Paging.dsmContextSetSocket (Paging.dsmCreateContext localPages virtualPages) fd, remote⟩⟩

/-- What `c_uint32` makes of a Python integer. -/
def cUint32 (i : Int) : Nat := (i % 2 ^ 32).toNat

/-- What `c_uint8` makes of a Python integer. -/
def cUint8 (i : Int) : Nat := (i % 2 ^ 8).toNat

/-- `access_page`, and what the caller then does to the page. -/
def Process.accessPage (w : Process) (pageId : Int) (write : Bool) (change : Page → Page)
    (rpc : RpcScript) : Option (Except Exception Page × Process) :=
  if !w.session.ctx.isOpen then
    some (.error (.runtimeError "Context is closed"), w)
  else do
    let (ptr, pager) ← w.pager.call (.access (cUint32 pageId) (if write then 1 else 0) change rpc)
    match ptr with
    | none => return (.error (.runtimeError s!"Failed to access page {pageId}"), { w with pager })
    | some page => return (.ok page, { w with pager })

/-- What an operation gives: a value, nothing, or an exception. A program has no operation on an array
that was not made (`unbound`). -/
inductive Result (V : Type)
  | value (v : V)
  | done
  | raised (e : Exception)
  | unbound

/-- `__getitem__` -/
def Process.getItem (codec : Codec V) (w : Process) (a : Array) (key : Key) (rpc : RpcScript) :
    Option (Result V × Process) :=
  match a.getitem key with
  | .error e => some (.raised e, w)
  | .ok r => do
      let (ptr, w) ← w.accessPage r.pageId r.write id rpc
      match ptr with
      | .error e => return (.raised e, w)
      | .ok page =>
          let bytes := page.slice r.offset.toNat r.ctype.size.toNat
          return (.value (codec.decode r.ctype bytes), w)

/-- The store of `__setitem__`; a value that is refused leaves the page as it was. -/
def storeValue (codec : Codec V) (r : Pointer) (v : V) (page : Page) : Page :=
  match codec.encode r.ctype v with
  | .error _ => page
  | .ok bytes => page.splice r.offset.toNat bytes

/-- `__setitem__` -/
def Process.setItem (codec : Codec V) (w : Process) (a : Array) (key : Key) (v : V)
    (rpc : RpcScript) : Option (Result V × Process) :=
  match a.setitem key with
  | .error e => some (.raised e, w)
  | .ok r => do
      let (ptr, w) ← w.accessPage r.pageId r.write (storeValue codec r v) rpc
      match ptr with
      | .error e => return (.raised e, w)
      | .ok _ =>
          match codec.encode r.ctype v with
          | .error e => return (.raised e, w)
          | .ok _ => return (.done, w)

/-- `prefetch` -/
def Process.prefetch (w : Process) (startPage count : Int) (ok : Bool) :
    Option (Result V × Process) :=
  if !w.session.ctx.isOpen then
    some (.raised (.runtimeError "Context is closed"), w)
  else do
    let (_, pager) ← w.pager.call (.prefetch (cUint32 startPage) (cUint8 count) ok)
    return (.done, { w with pager })

/-- The operations of a program, on the arrays in the order they were made, with what the RPCs of each
come to. -/
inductive Op (V : Type)
  | array (shape : List Int) (dtype : Int)
  | get (k : Nat) (key : Key) (rpc : RpcScript)
  | set (k : Nat) (key : Key) (v : V) (rpc : RpcScript)
  | prefetch (startPage count : Int) (ok : Bool)
  | close

def Result.ofCall : Option Exception → Result V
  | none => .done
  | some e => .raised e

def Process.step (codec : Codec V) (w : Process) : Op V → Option (Result V × Process)
  | .array shape dtype =>
      let (e, session) := w.session.call (.array shape dtype)
      some (.ofCall e, { w with session })
  | .get k key rpc =>
      match w.session.arrays[k]? with
      | none => some (.unbound, w)
      | some a => w.getItem codec a key rpc
  | .set k key v rpc =>
      match w.session.arrays[k]? with
      | none => some (.unbound, w)
      | some a => w.setItem codec a key v rpc
  | .prefetch startPage count ok => w.prefetch startPage count ok
  | .close =>
      let (e, session) := w.session.call .close
      some (.ofCall e, { w with session })

def Process.run (codec : Codec V) (w : Process) : List (Op V) → Option (List (Result V) × Process)
  | [] => some ([], w)
  | op :: ops => do
      let (result, w) ← w.step codec op
      let (results, w) ← w.run codec ops
      return (result :: results, w)

/-! ## The bytes of the virtual space -/

/-- The pages one after the other. -/
def flatBytes (mem : Nat → Page) : Int → UInt8 := fun x =>
  if 0 ≤ x then (mem (x / pageSize).toNat).toList.getD (x % pageSize).toNat 0 else 0

theorem getD_splice (page : Page) (offset : Nat) (bytes : List UInt8) {j : Nat}
    (hj : j < Dsm.pageSize) :
    (page.splice offset bytes).toList.getD j 0 =
      if offset ≤ j then bytes.getD (j - offset) (page.toList.getD j 0)
      else page.toList.getD j 0 := by
  have hpage : page.toList.getD j 0 = page.get ⟨j, hj⟩ := by
    rw [List.getD_eq_getElem _ _ (by simpa using hj)]
    rfl
  rw [hpage, List.getD_eq_getElem _ _ (by simpa using hj)]
  simp [Page.splice]

/-- A store of some bytes in a page is one in the virtual space. -/
theorem flatBytes_splice (mem : Nat → Page) (p offset : Nat) {bytes : List UInt8}
    (hfits : offset + bytes.length ≤ 4096) :
    flatBytes (Function.update mem p ((mem p).splice offset bytes)) =
      writeAt (flatBytes mem) (p * pageSize + offset) bytes := by
  funext x
  by_cases hx : 0 ≤ x
  · have hdiv : x / pageSize * pageSize + x % pageSize = x := Int.ediv_mul_add_emod x pageSize
    have hmod := Int.emod_nonneg x (show pageSize ≠ 0 by decide)
    have hlt := Int.emod_lt_of_pos x (show 0 < pageSize by decide)
    have hpage : 0 ≤ x / pageSize := Int.ediv_nonneg hx (by decide)
    generalize hq : x / pageSize = q at *
    generalize hj : x % pageSize = j at *
    rw [pageSize] at *
    by_cases hqp : q.toNat = p
    · -- The byte is on the page.
      have hold : flatBytes mem x = (mem p).toList.getD j.toNat 0 := by
        rw [flatBytes, if_pos hx, pageSize, hq, hj, hqp]
      rw [writeAt, hold, flatBytes, if_pos hx, pageSize, hq, hj, hqp, Function.update_self,
        getD_splice _ _ _ (show j.toNat < 4096 by omega)]
      by_cases hoff : offset ≤ j.toNat
      · rw [if_pos hoff, if_pos (by omega)]
        congr 1
        omega
      · rw [if_neg hoff, if_neg (by omega)]
    · rw [writeAt_outside, flatBytes, flatBytes, if_pos hx, if_pos hx, pageSize, hq,
        Function.update_of_ne hqp]
      rw [Set.mem_Ico]
      omega
  · rw [writeAt_outside, flatBytes, flatBytes, if_neg hx, if_neg hx]
    rw [Set.mem_Ico, pageSize]
    omega

/-- The bytes of an element in its page are those in the virtual space. -/
theorem slice_eq_readAt (mem : Nat → Page) (p offset len : Nat) (hfits : offset + len ≤ 4096) :
    (mem p).slice offset len = readAt (flatBytes mem) (p * pageSize + offset) len := by
  refine List.ext_getElem ?_ fun i hi hi' => ?_
  · rw [length_readAt, Page.slice, List.length_take, List.length_drop, Vector.length_toList]
    exact Nat.min_eq_left (Nat.le_sub_of_add_le' hfits)
  · rw [length_readAt] at hi'
    have hdiv : ((p : Int) * pageSize + offset + i) / pageSize = p := by
      rw [pageSize]
      omega
    have hmod : ((p : Int) * pageSize + offset + i) % pageSize = offset + i := by
      rw [pageSize]
      omega
    have hpos : 0 ≤ (p : Int) * pageSize + offset + i := by
      rw [pageSize]
      omega
    have htoNat : ((offset : Int) + i).toNat = offset + i := by omega
    simp only [Page.slice, List.getElem_take, List.getElem_drop, readAt, List.getElem_map,
      List.getElem_range, flatBytes, if_pos hpos, hdiv, hmod, Int.toNat_natCast, htoNat]
    have hlt : offset + i < (mem p).toList.length := by
      rw [Vector.length_toList, Dsm.pageSize]
      omega
    exact (List.getD_eq_getElem _ _ hlt).symm

/-! ## Pointers to elements -/

/-- The value at a pointer. -/
def loadAt (codec : Codec V) (m : Int → UInt8) (r : Pointer) : V :=
  codec.decode r.ctype (readAt m r.start r.ctype.size.toNat)

theorem CType.size_nonneg (t : CType) : 0 ≤ t.size := by
  cases t <;> decide

/-- A pointer to an element of an array: it is on a page of the context, and the element ends before
the page does and before the pages that are not handed out yet. -/
structure Pointer.Good (s : Session) (r : Pointer) : Prop where
  page_nonneg : 0 ≤ r.pageId
  page_lt : r.pageId < s.ctx.virtualPages
  offset_nonneg : 0 ≤ r.offset
  offset_le : r.offset + r.ctype.size ≤ pageSize
  before : r.start + r.ctype.size ≤ s.ctx.nextPage * pageSize

theorem Session.Layout.good {s : Session} (hlayout : s.Layout) {a : Array} (ha : a ∈ s.arrays)
    (hbuilt : a.Built) {n : Int} (hn : 0 ≤ n) (hlt : n < a.shape.prod) (write : Bool) :
    (a.pointer n write).Good s := by
  obtain ⟨hbase, hend, hvirtual⟩ := hlayout.within a ha
  obtain ⟨⟨hpage, hpage'⟩, ⟨hoffset, hoffset'⟩, hline⟩ := hbuilt.element hn hlt
  have hsize : a.ctype.size = a.elemSize := (dtypeMap_size hbuilt.dtype).1
  refine ⟨?_, ?_, hoffset, ?_, ?_⟩
  · show 0 ≤ a.basePage + n.fdiv a.elemsPerPage
    omega
  · show a.basePage + n.fdiv a.elemsPerPage < _
    omega
  · show n.fmod a.elemsPerPage * a.elemSize + a.ctype.size ≤ pageSize
    rw [hsize]
    exact hoffset'
  · show (a.basePage + n.fdiv a.elemsPerPage) * pageSize + n.fmod a.elemsPerPage * a.elemSize +
      a.ctype.size ≤ _
    rw [hsize, pageSize] at *
    omega

variable {codec : Codec V} {content mem : Nat → Page}

/-- What is loaded from the page is what is in the virtual space. -/
theorem Pointer.Good.load {s : Session} {r : Pointer} (h : r.Good s) (mem : Nat → Page) :
    codec.decode r.ctype ((mem r.pageId.toNat).slice r.offset.toNat r.ctype.size.toNat) =
      loadAt codec (flatBytes mem) r := by
  have hsize := r.ctype.size_nonneg
  have hfits := h.offset_le
  have hoffset := h.offset_nonneg
  rw [slice_eq_readAt _ _ _ _ (by rw [pageSize] at hfits; omega), loadAt, Pointer.start,
    Int.toNat_of_nonneg h.page_nonneg, Int.toNat_of_nonneg hoffset]

/-- What is stored in the page is stored in the virtual space. -/
theorem Pointer.Good.store {s : Session} {r : Pointer} (h : r.Good s) (mem : Nat → Page) {v : V}
    {bytes : List UInt8} (hv : codec.encode r.ctype v = .ok bytes) :
    flatBytes (Function.update mem r.pageId.toNat (storeValue codec r v (mem r.pageId.toNat))) =
      writeAt (flatBytes mem) r.start bytes := by
  have hlen := codec.length_encode hv
  have hfits := h.offset_le
  have hoffset := h.offset_nonneg
  simp only [storeValue, hv]
  rw [flatBytes_splice _ _ _ (by rw [pageSize] at hfits; omega), Pointer.start,
    Int.toNat_of_nonneg h.page_nonneg, Int.toNat_of_nonneg hoffset]

theorem Pointer.bytes_eq (r : Pointer) : r.bytes = Set.Ico r.start (r.start + r.ctype.size) := rfl

/-- The element itself has the new value. -/
theorem loadAt_writeAt (m : Int → UInt8) {r : Pointer} {v : V} {bytes : List UInt8}
    (hv : codec.encode r.ctype v = .ok bytes) :
    loadAt codec (writeAt m r.start bytes) r = codec.decode r.ctype bytes := by
  have hlen := codec.length_encode hv
  rw [loadAt, show r.ctype.size.toNat = bytes.length by omega, readAt_writeAt]

/-- Elements that have no byte in common with it are as they were. -/
theorem loadAt_writeAt_of_disjoint (m : Int → UInt8) {r r' : Pointer} {v : V} {bytes : List UInt8}
    (hv : codec.encode r.ctype v = .ok bytes) (hdisjoint : Disjoint r.bytes r'.bytes) :
    loadAt codec (writeAt m r.start bytes) r' = loadAt codec m r' := by
  have hlen := codec.length_encode hv
  have hsize := r'.ctype.size_nonneg
  rw [loadAt, loadAt, readAt_writeAt_of_disjoint]
  rw [hlen, Int.toNat_of_nonneg hsize]
  exact hdisjoint

/-- Different elements of the arrays of a session have no byte in common. -/
theorem Session.Layout.disjoint {s : Session} (hlayout : s.Layout)
    (hbuilt : ∀ a ∈ s.arrays, a.Built) {k l : Nat} {a b : Array} (hk : s.arrays[k]? = some a)
    (hl : s.arrays[l]? = some b) {m n : Int} (hm : 0 ≤ m) (hmlt : m < a.shape.prod) (hn : 0 ≤ n)
    (hnlt : n < b.shape.prod) (hne : ¬ (k = l ∧ m = n)) (write write' : Bool) :
    Disjoint (a.pointer m write).bytes (b.pointer n write').bytes := by
  have ha := hbuilt a (List.mem_of_getElem? hk)
  have hb := hbuilt b (List.mem_of_getElem? hl)
  rcases lt_trichotomy k l with hkl | rfl | hlk
  · exact ha.disjoint_bytes hb (hlayout.before hkl hk hl) hm hmlt hn hnlt write write'
  · obtain rfl := Option.some.inj (hk.symm.trans hl)
    have hmn : m ≠ n := fun heq => hne ⟨rfl, heq⟩
    have hoverlap := mt (ha.overlap_iff hm hmlt hn hnlt write write').mp hmn
    rwa [Set.not_nonempty_iff_eq_empty, ← Set.disjoint_iff_inter_eq_empty] at hoverlap
  · exact (hb.disjoint_bytes ha (hlayout.before hlk hl hk) hn hnlt hm hmlt write' write).symm

end Dsm.Python
