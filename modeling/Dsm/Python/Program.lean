import Dsm.Python.Process

/-!
# The arrays of a context are arrays

`PlainStep` is a machine that keeps the elements of each array and nothing else: no pages, no cache and
no server. A program over the page cache gets from its arrays what this machine gives
(`arrays_are_plain`).
-/

namespace Dsm.Python

open Dsm.Lib MixedRadix
open Dsm.Paging (Pager RpcScript Represents)

variable {V : Type} {codec : Codec V} {content mem : Nat → Page}

/-! ## Plain arrays -/

/-- Why reading or assigning an element raises: the index is checked first, then whether the context
is open; after that only an RPC can fail. -/
inductive Refused (isOpen : Bool) (a : Array) (key : Key) (rpc : RpcScript) : Exception → Prop
  | index {e : Exception} : a.flatIndex key.indices = .error e → Refused isOpen a key rpc e
  | closed {n : Int} : a.flatIndex key.indices = .ok n → isOpen = false →
      Refused isOpen a key rpc (.runtimeError "Context is closed")
  | failed {n pageId : Int} : a.flatIndex key.indices = .ok n → isOpen = true → ¬ rpc.Succeeds →
      pageId = (a.pointer n false).pageId →
      Refused isOpen a key rpc (.runtimeError s!"Failed to access page {pageId}")

/-- The arrays of a session with their elements, by array and flat index. -/
structure Plain (V : Type) where
  session : Session
  items : Nat → Int → V

def Plain.assign (p : Plain V) (k : Nat) (n : Int) (v : V) : Plain V :=
  ⟨p.session, Function.update p.items k (Function.update (p.items k) n v)⟩

/-- Arrays without pages, caches and servers. The elements of a new array are what the server has at
its place. -/
inductive PlainStep (codec : Codec V) (content : Nat → Page) : Plain V → Op V × Result V → Plain V → Prop
  | made {p : Plain V} {shape : List Int} {dtype : Int} {s' : Session} {a : Array} :
      p.session.call (.array shape dtype) = (none, s') → s'.arrays = p.session.arrays ++ [a] →
      PlainStep codec content p (.array shape dtype, .done)
        ⟨s', Function.update p.items p.session.arrays.length fun n =>
          loadAt codec (flatBytes content) (a.pointer n false)⟩
  | notMade {p : Plain V} {shape : List Int} {dtype : Int} {e : Exception} :
      p.session.call (.array shape dtype) = (some e, p.session) →
      PlainStep codec content p (.array shape dtype, .raised e) p
  | get {p : Plain V} {k : Nat} {key : Key} {rpc : RpcScript} {a : Array} {n : Int} :
      p.session.arrays[k]? = some a → a.flatIndex key.indices = .ok n →
      p.session.ctx.isOpen = true →
      PlainStep codec content p (.get k key rpc, .value (p.items k n)) p
  | getRefused {p : Plain V} {k : Nat} {key : Key} {rpc : RpcScript} {a : Array} {e : Exception} :
      p.session.arrays[k]? = some a → Refused p.session.ctx.isOpen a key rpc e →
      PlainStep codec content p (.get k key rpc, .raised e) p
  | getUnbound {p : Plain V} {k : Nat} {key : Key} {rpc : RpcScript} :
      p.session.arrays[k]? = none → PlainStep codec content p (.get k key rpc, .unbound) p
  | set {p : Plain V} {k : Nat} {key : Key} {v : V} {rpc : RpcScript} {a : Array} {n : Int}
      {bytes : List UInt8} :
      p.session.arrays[k]? = some a → a.flatIndex key.indices = .ok n →
      p.session.ctx.isOpen = true → codec.encode a.ctype v = .ok bytes →
      PlainStep codec content p (.set k key v rpc, .done)
        (p.assign k n (codec.decode a.ctype bytes))
  | setRefused {p : Plain V} {k : Nat} {key : Key} {v : V} {rpc : RpcScript} {a : Array}
      {e : Exception} :
      p.session.arrays[k]? = some a → Refused p.session.ctx.isOpen a key rpc e →
      PlainStep codec content p (.set k key v rpc, .raised e) p
  | setInvalid {p : Plain V} {k : Nat} {key : Key} {v : V} {rpc : RpcScript} {a : Array} {n : Int}
      {e : Exception} :
      p.session.arrays[k]? = some a → a.flatIndex key.indices = .ok n →
      p.session.ctx.isOpen = true → codec.encode a.ctype v = .error e →
      PlainStep codec content p (.set k key v rpc, .raised e) p
  | setUnbound {p : Plain V} {k : Nat} {key : Key} {v : V} {rpc : RpcScript} :
      p.session.arrays[k]? = none → PlainStep codec content p (.set k key v rpc, .unbound) p
  | prefetch {p : Plain V} {startPage count : Int} {ok : Bool} : p.session.ctx.isOpen = true →
      PlainStep codec content p (.prefetch startPage count ok, .done) p
  | prefetchClosed {p : Plain V} {startPage count : Int} {ok : Bool} :
      p.session.ctx.isOpen = false →
      PlainStep codec content p
        (.prefetch startPage count ok, .raised (.runtimeError "Context is closed")) p
  | close {p : Plain V} : PlainStep codec content p (.close, .done) ⟨(p.session.call .close).2, p.items⟩

abbrev PlainRun (codec : Codec V) (content : Nat → Page) :
    Plain V → List (Op V × Result V) → Plain V → Prop := Run (PlainStep codec content)

/-! ## The simulation -/

/-- A memory shows the elements, and behind the arrays what the server had there. -/
structure Shows (codec : Codec V) (content mem : Nat → Page) (p : Plain V) : Prop where
  items : ∀ k a, p.session.arrays[k]? = some a → ∀ n, 0 ≤ n → n < a.shape.prod →
    p.items k n = loadAt codec (flatBytes mem) (a.pointer n false)
  rest : ∀ x, p.session.ctx.nextPage * pageSize ≤ x → flatBytes mem x = flatBytes content x

/-- The arrays are in order, and cache and server represent a memory that shows their elements. -/
structure Simulates (codec : Codec V) (content : Nat → Page) (numVirtualPages : Nat) (w : Process)
    (p : Plain V) : Prop where
  session : p.session = w.session
  layout : w.session.Layout
  built : ∀ a ∈ w.session.arrays, a.Built
  pages : ∀ a ∈ w.session.arrays, 0 ≤ a.numPages
  virtualPages : w.session.ctx.virtualPages = numVirtualPages
  small : numVirtualPages < 2 ^ 32
  memory : ∃ mem, (w.session.ctx.isOpen = true → Represents mem numVirtualPages w.pager) ∧
    Shows codec content mem p

/-- An access to a page of the memory that cache and server represent. Only an RPC can make it fail. -/
theorem represents_access {n : Nat} {s : Pager} (h : Represents mem n s) {q : Nat} (hq : q < n)
    {write : Int32} (hw : write = 0 ∨ write = 1) (change : Page → Page) (rpc : RpcScript) :
    ∃ seen s', s.call (.access q write change rpc) = some (seen, s') ∧
      (seen = none ∧ ¬ rpc.Succeeds ∧ Represents mem n s' ∨
        seen = some (mem q) ∧ Represents
          (if write = 0 then mem else Function.update mem q (change (mem q))) n s') := by
  have hq' : q < s.ctx.numVirtualPages := h.size.symm ▸ hq
  obtain ⟨r, s₁, hacc, heq⟩ := Paging.call_accessed h.rep hq' write change rpc
  obtain ⟨ms, hrun, hms⟩ := hacc.run h.rep
  have h₁ := h.moves hrun
  refine ⟨_, _, heq, ?_⟩
  cases r with
  | none =>
      refine .inl ⟨rfl, fun hrpc => ?_, h₁⟩
      obtain ⟨f, hf⟩ := hacc.isSome hrpc
      cases hf
  | some f =>
      obtain ⟨hm, hdirty⟩ := hms.returns hq' hrun
      refine .inr ⟨congrArg some (h₁.coherent.cached q f hm), h₁.callerChange hm write change ?_⟩
      intro hne
      obtain rfl := hw.resolve_left hne
      exact hdirty (by decide)

theorem cUint32_of_lt {i : Int} (hi : 0 ≤ i) (hlt : i < 2 ^ 32) : cUint32 i = i.toNat := by
  rw [cUint32, Int.emod_eq_of_lt hi hlt]

/-- `access_page` on a page of the context. -/
theorem Process.accessPage_spec {w : Process} {numVirtualPages : Nat}
    (hsmall : numVirtualPages < 2 ^ 32)
    (hmem : w.session.ctx.isOpen = true → Represents mem numVirtualPages w.pager) {pageId : Int}
    (hpage : 0 ≤ pageId) (hlt : pageId < numVirtualPages) (write : Bool) (change : Page → Page)
    (rpc : RpcScript) :
    (w.session.ctx.isOpen = false ∧ w.accessPage pageId write change rpc =
      some (.error (.runtimeError "Context is closed"), w)) ∨
    w.session.ctx.isOpen = true ∧ ∃ pager,
      (¬ rpc.Succeeds ∧ Represents mem numVirtualPages pager ∧
        w.accessPage pageId write change rpc =
          some (.error (.runtimeError s!"Failed to access page {pageId}"), { w with pager })) ∨
      (Represents (if write then Function.update mem pageId.toNat (change (mem pageId.toNat))
          else mem) numVirtualPages pager ∧
        w.accessPage pageId write change rpc = some (.ok (mem pageId.toNat), { w with pager })) := by
  unfold Process.accessPage
  cases hopen : w.session.ctx.isOpen with
  | false => exact .inl ⟨rfl, rfl⟩
  | true =>
      refine .inr ⟨rfl, ?_⟩
      have hq : pageId.toNat < numVirtualPages := by omega
      have hflag : (if write then (1 : Int32) else 0) = 0 ∨ (if write then (1 : Int32) else 0) = 1 := by
        cases write <;> simp
      obtain ⟨seen, pager, hcall, hcases⟩ := represents_access (hmem hopen) hq hflag change rpc
      have hid : cUint32 pageId = pageId.toNat := cUint32_of_lt hpage (by omega)
      refine ⟨pager, ?_⟩
      rw [Bool.not_true, if_neg Bool.false_ne_true, hid, hcall]
      rcases hcases with ⟨rfl, hrpc, hrep⟩ | ⟨rfl, hrep⟩
      · exact .inl ⟨hrpc, hrep, rfl⟩
      · refine .inr ⟨?_, rfl⟩
        cases write with
        | false => exact hrep
        | true => exact hrep

namespace Simulates

variable {numVirtualPages : Nat} {w : Process} {p : Plain V}

/-- The cache is in another state, and the elements may be too; the arrays are the same. -/
theorem repaged (h : Simulates codec content numVirtualPages w p) {pager : Pager} {p' : Plain V}
    (hsession : p'.session = p.session)
    (hrep : w.session.ctx.isOpen = true → Represents mem numVirtualPages pager)
    (hshows : Shows codec content mem p') :
    Simulates codec content numVirtualPages { w with pager } p' where
  session := hsession.trans h.session
  layout := h.layout
  built := h.built
  pages := h.pages
  virtualPages := h.virtualPages
  small := h.small
  memory := ⟨mem, hrep, hshows⟩

/-- What an accepted index leads to. -/
theorem element (h : Simulates codec content numVirtualPages w p) {k : Nat} {a : Array}
    (hk : w.session.arrays[k]? = some a) {indices : List Int} {n : Int}
    (hflat : a.flatIndex indices = .ok n) :
    0 ≤ n ∧ n < a.shape.prod ∧ ∀ write, (a.pointer n write).Good w.session := by
  have ha := List.mem_of_getElem? hk
  obtain ⟨-, hnumeral, rfl⟩ := (h.built a ha).flatIndex_iff.mp hflat
  have hn := value_nonneg hnumeral
  have hlt := value_lt hnumeral
  exact ⟨hn, hlt, h.layout.good ha (h.built a ha) hn hlt⟩

end Simulates

theorem Array.getitem_error {a : Array} {key : Key} {e : Exception} (h : a.getitem key = .error e) :
    a.flatIndex key.indices = .error e := by
  unfold Array.getitem at h
  cases hflat : a.flatIndex key.indices with
  | error e' =>
      rw [hflat] at h
      cases h
      rfl
  | ok n =>
      rw [hflat] at h
      cases h

theorem Array.setitem_error {a : Array} {key : Key} {e : Exception} (h : a.setitem key = .error e) :
    a.flatIndex key.indices = .error e := by
  unfold Array.setitem at h
  cases hflat : a.flatIndex key.indices with
  | error e' =>
      rw [hflat] at h
      cases h
      rfl
  | ok n =>
      rw [hflat] at h
      cases h

section Steps

variable {numVirtualPages : Nat} {w : Process} {p : Plain V}

/-- **Reading an element.** -/
theorem Simulates.getItem (h : Simulates codec content numVirtualPages w p) {k : Nat} {a : Array}
    (hk : w.session.arrays[k]? = some a) (key : Key) (rpc : RpcScript) :
    ∃ result w', w.getItem codec a key rpc = some (result, w') ∧
      PlainStep codec content p (.get k key rpc, result) p ∧
      Simulates codec content numVirtualPages w' p := by
  have hk' : p.session.arrays[k]? = some a := h.session ▸ hk
  obtain ⟨mem, hrep, hshows⟩ := h.memory
  unfold Process.getItem
  cases hget : a.getitem key with
  | error e => exact ⟨_, _, rfl, .getRefused hk' (.index (Array.getitem_error hget)), h⟩
  | ok r =>
      obtain ⟨n, hflat, rfl⟩ := Array.getitem_iff.mp hget
      obtain ⟨hn, hlt, hgood⟩ := h.element hk hflat
      have hpage := (hgood false).page_lt
      rw [h.virtualPages] at hpage
      dsimp only
      rcases w.accessPage_spec h.small hrep (hgood false).page_nonneg hpage
          (a.pointer n false).write id rpc with
        ⟨hopen, heq⟩ | ⟨hopen, pager, ⟨hrpc, hrep', heq⟩ | ⟨hrep', heq⟩⟩
      · rw [heq]
        exact ⟨_, _, rfl, .getRefused hk' (.closed hflat (h.session ▸ hopen)), h⟩
      · rw [heq]
        exact ⟨_, _, rfl, .getRefused hk' (.failed hflat (h.session ▸ hopen) hrpc rfl),
          h.repaged rfl (fun _ => hrep') hshows⟩
      · rw [heq]
        refine ⟨_, _, rfl, ?_, h.repaged rfl (fun _ => hrep') hshows⟩
        rw [(hgood false).load, ← hshows.items k a hk' n hn hlt]
        exact .get hk' hflat (h.session ▸ hopen)

/-- An assignment shows in the element and nowhere else. -/
theorem Shows.assign (hshows : Shows codec content mem p) (hlayout : p.session.Layout)
    (hbuilt : ∀ a ∈ p.session.arrays, a.Built) {k : Nat} {a : Array}
    (hk : p.session.arrays[k]? = some a) {n : Int} (hn : 0 ≤ n) (hlt : n < a.shape.prod) {v : V}
    {bytes : List UInt8} (hv : codec.encode a.ctype v = .ok bytes) :
    Shows codec content
      (Function.update mem (a.pointer n true).pageId.toNat
        (storeValue codec (a.pointer n true) v (mem (a.pointer n true).pageId.toNat)))
      (p.assign k n (codec.decode a.ctype bytes)) := by
  have hgood := hlayout.good (List.mem_of_getElem? hk) (hbuilt a (List.mem_of_getElem? hk)) hn hlt true
  have hv' : codec.encode (a.pointer n true).ctype v = .ok bytes := hv
  have hbytes := hgood.store mem hv'
  refine ⟨fun l b hl m hm hmlt => ?_, fun x hx => ?_⟩
  · rw [hbytes]
    by_cases heq : k = l ∧ n = m
    · obtain ⟨rfl, rfl⟩ := heq
      obtain rfl := Option.some.inj (hk.symm.trans hl)
      have hload := loadAt_writeAt (flatBytes mem) hv'
      simp only [Plain.assign, Function.update_self]
      exact hload.symm
    · have hdisjoint := hlayout.disjoint hbuilt hk hl hn hlt hm hmlt heq true false
      rw [loadAt_writeAt_of_disjoint _ hv' hdisjoint, ← hshows.items l b hl m hm hmlt]
      by_cases hkl : l = k
      · subst hkl
        have hmn : m ≠ n := fun hmn => heq ⟨rfl, hmn.symm⟩
        simp only [Plain.assign, Function.update_self, Function.update_of_ne hmn]
      · simp only [Plain.assign, Function.update_of_ne hkl]
  · rw [hbytes, ← hshows.rest x hx]
    refine writeAt_outside fun hmem => ?_
    have hlen := codec.length_encode hv'
    have hbefore := hgood.before
    have hlast := hmem.2
    have hx' : p.session.ctx.nextPage * pageSize ≤ x := hx
    omega

/-- **Assigning an element.** -/
theorem Simulates.setItem (h : Simulates codec content numVirtualPages w p) {k : Nat} {a : Array}
    (hk : w.session.arrays[k]? = some a) (key : Key) (v : V) (rpc : RpcScript) :
    ∃ result w' p', w.setItem codec a key v rpc = some (result, w') ∧
      PlainStep codec content p (.set k key v rpc, result) p' ∧
      Simulates codec content numVirtualPages w' p' := by
  have hk' : p.session.arrays[k]? = some a := h.session ▸ hk
  obtain ⟨mem, hrep, hshows⟩ := h.memory
  unfold Process.setItem
  cases hset : a.setitem key with
  | error e => exact ⟨_, _, _, rfl, .setRefused hk' (.index (Array.setitem_error hset)), h⟩
  | ok r =>
      obtain ⟨n, hflat, rfl⟩ := Array.setitem_iff.mp hset
      obtain ⟨hn, hlt, hgood⟩ := h.element hk hflat
      have hpage := (hgood true).page_lt
      rw [h.virtualPages] at hpage
      dsimp only
      rcases w.accessPage_spec h.small hrep (hgood true).page_nonneg hpage
          (a.pointer n true).write (storeValue codec (a.pointer n true) v) rpc with
        ⟨hopen, heq⟩ | ⟨hopen, pager, ⟨hrpc, hrep', heq⟩ | ⟨hrep', heq⟩⟩
      · rw [heq]
        exact ⟨_, _, _, rfl, .setRefused hk' (.closed hflat (h.session ▸ hopen)), h⟩
      · rw [heq]
        exact ⟨_, _, _, rfl, .setRefused hk' (.failed hflat (h.session ▸ hopen) hrpc rfl),
          h.repaged rfl (fun _ => hrep') hshows⟩
      · rw [heq]
        have hopen' : p.session.ctx.isOpen = true := h.session ▸ hopen
        cases hv : codec.encode (a.pointer n true).ctype v with
        | error e =>
            refine ⟨.raised e, _, p, rfl, .setInvalid hk' hflat hopen' hv, ?_⟩
            refine h.repaged rfl (fun _ => ?_) hshows
            have hsame : storeValue codec (a.pointer n true) v (mem (a.pointer n true).pageId.toNat) =
                mem (a.pointer n true).pageId.toNat := by simp only [storeValue, hv]
            rw [hsame, Function.update_eq_self] at hrep'
            exact hrep'
        | ok bytes =>
            refine ⟨.done, _, _, rfl, .set hk' hflat hopen' hv, ?_⟩
            exact h.repaged rfl (fun _ => hrep') (hshows.assign (h.session ▸ h.layout)
              (h.session ▸ h.built) hk' hn hlt hv)

/-- The arguments of a constructor that take no page back. -/
def Op.Sound : Op V → Prop
  | .array shape dtype => ∀ ctype elemSize, dtypeMap dtype = some (ctype, elemSize) →
      -pageSize < shape.prod * elemSize
  | _ => True

/-- A new array shows what the server has at its place. -/
theorem Shows.made (hshows : Shows codec content mem p) {a : Array} (hbuilt : a.Built)
    (hbase : a.basePage = p.session.ctx.nextPage) (hpages : 0 ≤ a.numPages) :
    Shows codec content mem
      ⟨⟨{ p.session.ctx with nextPage := p.session.ctx.nextPage + a.numPages },
          p.session.arrays ++ [a]⟩,
        Function.update p.items p.session.arrays.length fun n =>
          loadAt codec (flatBytes content) (a.pointer n false)⟩ := by
  refine ⟨fun k b hk n hn hlt => ?_, fun x hx => hshows.rest x ?_⟩
  · have hk' : (p.session.arrays ++ [a])[k]? = some b := hk
    by_cases hlast : k = p.session.arrays.length
    · subst hlast
      rw [List.getElem?_concat_length] at hk'
      obtain rfl := Option.some.inj hk'
      simp only [Function.update_self, loadAt]
      congr 1
      refine readAt_congr fun x hx => (hshows.rest x ?_).symm
      have hsubset := hbuilt.bytes_subset hn hlt false
      rw [Int.toNat_of_nonneg (CType.size_nonneg _)] at hx
      have hfrom := (hsubset hx).1
      rwa [hbase] at hfrom
    · have hlt' : k < p.session.arrays.length := by
        have := (List.getElem?_eq_some_iff.mp hk').1
        rw [List.length_append, List.length_singleton] at this
        omega
      rw [List.getElem?_append_left hlt'] at hk'
      simp only [Function.update_of_ne hlast]
      exact hshows.items k b hk' n hn hlt
  · have hx' : (p.session.ctx.nextPage + a.numPages) * pageSize ≤ x := hx
    rw [pageSize] at *
    omega

/-- **Making an array.** -/
theorem Simulates.array (h : Simulates codec content numVirtualPages w p) {shape : List Int}
    {dtype : Int} (hop : (Op.array shape dtype : Op V).Sound) :
    ∃ result w' p', w.step codec (.array shape dtype) = some (result, w') ∧
      PlainStep codec content p (.array shape dtype, result) p' ∧
      Simulates codec content numVirtualPages w' p' := by
  have hadmits : w.session.Admits (.array shape dtype) := fun _ => hop
  have hnew := hadmits.numPages_nonneg h.pages
  obtain ⟨hlayout, -⟩ := h.layout.call (.array shape dtype) hnew
  simp only [Process.step]
  rcases w.session.call_spec (.array shape dtype) with
    ⟨e, heq, -⟩ | ⟨a, heq, -, hbuilt, hbase, -, -⟩ | ⟨hclose, -⟩
  · rw [heq]
    exact ⟨_, _, _, rfl, .notMade (h.session ▸ heq), h⟩
  · rw [heq] at hnew hlayout ⊢
    obtain ⟨mem, hrep, hshows⟩ := h.memory
    have hpages : 0 ≤ a.numPages := hnew a (by simp)
    have heq' := h.session.symm ▸ heq
    refine ⟨_, _, _, rfl, .made heq' rfl, ⟨?_, hlayout, ?_, hnew, h.virtualPages, h.small, mem, hrep,
      hshows.made hbuilt (h.session ▸ hbase) hpages⟩⟩
    · simp only [h.session]
    · intro b hb
      rcases List.mem_append.mp hb with hb | hb
      · exact h.built b hb
      · exact List.mem_singleton.mp hb ▸ hbuilt
  · cases hclose

/-- **One operation** is a step of plain arrays. -/
theorem Simulates.step (h : Simulates codec content numVirtualPages w p) {op : Op V}
    (hop : op.Sound) : ∃ result w' p', w.step codec op = some (result, w') ∧
      PlainStep codec content p (op, result) p' ∧ Simulates codec content numVirtualPages w' p' := by
  cases op with
  | array shape dtype => exact h.array hop
  | get k key rpc =>
      cases hk : w.session.arrays[k]? with
      | none =>
          refine ⟨.unbound, w, p, ?_, .getUnbound (h.session.symm ▸ hk), h⟩
          simp only [Process.step, hk]
      | some a =>
          obtain ⟨result, w', heq, hstep, h'⟩ := h.getItem hk key rpc
          refine ⟨result, w', p, ?_, hstep, h'⟩
          simp only [Process.step, hk, heq]
  | set k key v rpc =>
      cases hk : w.session.arrays[k]? with
      | none =>
          refine ⟨.unbound, w, p, ?_, .setUnbound (h.session.symm ▸ hk), h⟩
          simp only [Process.step, hk]
      | some a =>
          obtain ⟨result, w', p', heq, hstep, h'⟩ := h.setItem hk key v rpc
          refine ⟨result, w', p', ?_, hstep, h'⟩
          simp only [Process.step, hk, heq]
  | prefetch startPage count ok =>
      obtain ⟨mem, hrep, hshows⟩ := h.memory
      simp only [Process.step, Process.prefetch]
      cases hopen : w.session.ctx.isOpen with
      | false => exact ⟨_, _, _, rfl, .prefetchClosed (h.session ▸ hopen), h⟩
      | true =>
          have hrep' := hrep hopen
          have hstart : cUint32 startPage < 2 ^ 32 := by
            unfold cUint32
            omega
          obtain ⟨s', batch, heq, hrun, -⟩ :=
            Paging.dsmPrefetchPages_run hrep'.rep hstart (cUint8 count) ok
          rw [Bool.not_true, if_neg Bool.false_ne_true, Pager.call, heq]
          exact ⟨_, _, _, rfl, .prefetch (h.session ▸ hopen),
            h.repaged rfl (fun _ => hrep'.moves hrun) hshows⟩
  | close =>
      obtain ⟨mem, -, hshows⟩ := h.memory
      refine ⟨_, _, _, rfl, .close, ⟨?_, ?_, h.built, h.pages, h.virtualPages, h.small, mem, ?_, ?_⟩⟩
      · rw [h.session]
        rfl
      · exact ⟨h.layout.nextPage_nonneg, h.layout.within, h.layout.ordered⟩
      · exact fun hopen => absurd hopen Bool.false_ne_true
      · exact ⟨hshows.items, hshows.rest⟩

/-- **A whole program** is a run of plain arrays. -/
theorem Simulates.run {ops : List (Op V)} : ∀ {w : Process} {p : Plain V},
    Simulates codec content numVirtualPages w p → (∀ op ∈ ops, op.Sound) →
    ∃ results w' p', w.run codec ops = some (results, w') ∧ results.length = ops.length ∧
      PlainRun codec content p (ops.zip results) p' ∧
      Simulates codec content numVirtualPages w' p' := by
  induction ops with
  | nil => exact fun {w p} h _ => ⟨[], w, p, rfl, rfl, .nil p, h⟩
  | cons op ops ih =>
      intro w p h hops
      obtain ⟨result, w₁, p₁, heq, hstep, h₁⟩ := h.step (hops op List.mem_cons_self)
      obtain ⟨results, w', p', heq', hlen, hrun, h'⟩ :=
        ih h₁ fun op hop => hops op (List.mem_cons_of_mem _ hop)
      refine ⟨result :: results, w', p', ?_, by rw [List.length_cons, hlen, List.length_cons],
        .cons hstep hrun, h'⟩
      rw [Process.run, heq]
      simp only [Option.bind_eq_bind, Option.bind_some, heq']
      rfl

theorem Simulates.init (codec : Codec V) {localPages virtualPages : Nat} (hpos : 1 ≤ localPages)
    (hlocal : localPages < 2 ^ 32) (hvirtual : virtualPages < 2 ^ 32) {fd : Int} (hfd : 0 ≤ fd)
    (content : Nat → Page) (items : Nat → Int → V) :
    Simulates codec content virtualPages (.init localPages virtualPages fd ⟨content, []⟩)
      ⟨⟨.init virtualPages, []⟩, items⟩ where
  session := rfl
  layout := .init _
  built _ ha := absurd ha List.not_mem_nil
  pages _ ha := absurd ha List.not_mem_nil
  virtualPages := rfl
  small := hvirtual
  memory := by
    refine ⟨content, fun _ => Represents.connect hpos hlocal hvirtual hfd ⟨content, []⟩, ?_, ?_⟩
    · intro k a hk
      cases hk
    · exact fun _ _ => rfl

end Steps

/-- The bytes of an integer, low byte first; what does not fit is cut off. -/
def intBytes (len : Nat) (v : Int) : List UInt8 :=
  (List.range len).map fun i : Nat => UInt8.ofNat (v / 256 ^ i % 256).toNat

/-- The integer with these bytes, negative if the highest bit is set and `isSigned`. -/
def intOfBytes (isSigned : Bool) (bytes : List UInt8) : Int :=
  let n : Nat := bytes.foldr (fun b n => b.toNat + 256 * n) 0
  if isSigned && decide (256 ^ bytes.length ≤ 2 * n) then n - 256 ^ bytes.length else n

/-- The integer types; the others take no integer here. -/
def intCodec : Codec Int where
  encode
    | .cInt32, v => .ok (intBytes 4 v)
    | .cInt64, v => .ok (intBytes 8 v)
    | .cUint8, v => .ok (intBytes 1 v)
    | _, _ => .error (.typeError "int")
  decode
    | .cUint8, bytes => intOfBytes false bytes
    | _, bytes => intOfBytes true bytes
  length_encode {t v bytes} h := by
    cases t with
    | cFloat | cDouble => cases h
    | cInt32 | cInt64 | cUint8 =>
        cases h
        simp [intBytes, CType.size]

end Dsm.Python
