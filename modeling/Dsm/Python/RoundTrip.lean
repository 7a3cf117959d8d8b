import Dsm.Python.Program

/-!
# NumPy arrays through the page cache

`from_numpy` and `to_numpy` once more, now over a process: every element goes through the page cache,
and an RPC may fail at any of them. What `from_numpy` has put into an array comes out of `to_numpy`
again (`numpy_round_trip`), whatever the program does in between with other arrays and however small
the cache is; or `to_numpy` raises, and then an RPC has failed.
-/

namespace Dsm.Python

open Dsm.Lib MixedRadix
open Dsm.Paging (Pager RpcScript Represents)

variable {V : Type} {codec : Codec V} {content : Nat → Page} {numVirtualPages : Nat} {w : Process}
  {p : Plain V}

/-- The loop of `from_numpy`, over the indices in the order of the iterator. -/
def Process.fromNumpyLoop (codec : Codec V) (result : Array) (npArr : NdArray V)
    (rpcs : List Int → RpcScript) : List (List Int) → Process → Option (Option Exception × Process)
  | [], w => some (none, w)
  | multiIndex :: rest, w => do
      let (res, w) ← w.setItem codec result (.tuple multiIndex) (npArr.item multiIndex)
        (rpcs multiIndex)
      match res with
      | .raised e => return (some e, w)
      | _ => Process.fromNumpyLoop codec result npArr rpcs rest w

/-- `from_numpy`; `order` is the order in which `np.nditer` visits the indices. -/
def Process.fromNumpy (codec : Codec V) (w : Process) (npArr : NdArray V) (order : List (List Int))
    (rpcs : List Int → RpcScript) : Option (Except Exception Array × Process) :=
  match fromNumpyDtype npArr.dtype with
  | none => some (.error (.typeError s!"Unsupported dtype: {npArr.dtype.name}"), w)
  | some dtype =>
      match Array.init w.session.ctx npArr.shape dtype with
      | (.error e, ctx) => some (.error e, ⟨⟨ctx, w.session.arrays⟩, w.pager⟩)
      | (.ok result, ctx) =>
          let w : Process := ⟨⟨ctx, w.session.arrays ++ [result]⟩, w.pager⟩
          if npArr.shape.prod = 0 then
            some (.error .numpy, w)
          else do
            let (e, w) ← Process.fromNumpyLoop codec result npArr rpcs order w
            match e with
            | some e => return (.error e, w)
            | none => return (.ok result, w)

/-- The loop of `to_numpy`. Reading an element gives a value or raises. -/
def Process.toNumpyLoop (codec : Codec V) (a : Array) (rpcs : Int → RpcScript) :
    List Int → NdArray V → Process → Option (Except Exception (NdArray V) × Process)
  | [], result, w => some (.ok result, w)
  | flatIdx :: rest, result, w =>
      match a.unravel flatIdx with
      | .error e => some (.error e, w)
      | .ok indices => do
          let (res, w) ← w.getItem codec a (.tuple indices) (rpcs flatIdx)
          match res with
          | .value v =>
              match result.setItem indices v with
              | .error e => return (.error e, w)
              | .ok result => Process.toNumpyLoop codec a rpcs rest result w
          | .raised e => return (.error e, w)
          | _ => none

/-- `to_numpy`; `empty` is what `np.empty` finds in its memory. -/
def Process.toNumpy (codec : Codec V) (w : Process) (a : Array) (rpcs : Int → RpcScript)
    (empty : List Int → V) : Option (Except Exception (NdArray V) × Process) :=
  match toNumpyDtype a.dtype with
  | none => some (.error (.keyError a.dtype), w)
  | some dtype =>
      if h : ∀ d ∈ a.shape, 0 ≤ d then
        Process.toNumpyLoop codec a rpcs (pyRange a.size) ⟨a.shape, dtype, empty, h⟩ w
      else
        some (.error .numpy, w)

/-! ## Single elements -/

/-- In bounds, on an open context and with no RPC failing, an assignment is done. -/
theorem Simulates.setItem_done (h : Simulates codec content numVirtualPages w p) {k : Nat} {a : Array}
    (hk : w.session.arrays[k]? = some a) (hopen : w.session.ctx.isOpen = true) {key : Key} {n : Int}
    (hflat : a.flatIndex key.indices = .ok n) {v : V} {bytes : List UInt8}
    (hv : codec.encode a.ctype v = .ok bytes) {rpc : RpcScript} (hrpc : rpc.Succeeds) :
    ∃ w', w.setItem codec a key v rpc = some (.done, w') ∧ w'.session = w.session ∧
      Simulates codec content numVirtualPages w' (p.assign k n (codec.decode a.ctype bytes)) := by
  obtain ⟨result, w', p', heq, hstep, h'⟩ := h.setItem hk key v rpc
  have hk' : p.session.arrays[k]? = some a := h.session ▸ hk
  have hopen' : p.session.ctx.isOpen = true := h.session ▸ hopen
  have same : ∀ {b}, p.session.arrays[k]? = some b → b = a := fun hb =>
    Option.some.inj (hb.symm.trans hk')
  cases hstep with
  | set hb hflat' _ hv' =>
      obtain rfl := same hb
      obtain rfl := Except.ok.inj (hflat.symm.trans hflat')
      obtain rfl := Except.ok.inj (hv.symm.trans hv')
      exact ⟨w', heq, h'.session.symm.trans h.session, h'⟩
  | setRefused hb hrefused =>
      obtain rfl := same hb
      cases hrefused with
      | index herr => cases hflat.symm.trans herr
      | closed _ hclosed => cases hopen'.symm.trans hclosed
      | failed _ _ hfail => exact absurd hrpc hfail
  | setInvalid hb _ _ hinvalid =>
      obtain rfl := same hb
      cases hv.symm.trans hinvalid
  | setUnbound hb => cases hk'.symm.trans hb

/-- In bounds and on an open context, reading gives the element, or an RPC fails. -/
theorem Simulates.getItem_value (h : Simulates codec content numVirtualPages w p) {k : Nat}
    {a : Array} (hk : w.session.arrays[k]? = some a) (hopen : w.session.ctx.isOpen = true) {key : Key}
    {n : Int} (hflat : a.flatIndex key.indices = .ok n) (rpc : RpcScript) :
    ∃ result w', w.getItem codec a key rpc = some (result, w') ∧ w'.session = w.session ∧
      Simulates codec content numVirtualPages w' p ∧
      (result = .value (p.items k n) ∨
        ¬ rpc.Succeeds ∧ ∃ message, result = .raised (.runtimeError message)) := by
  obtain ⟨result, w', heq, hstep, h'⟩ := h.getItem hk key rpc
  have hk' : p.session.arrays[k]? = some a := h.session ▸ hk
  have hopen' : p.session.ctx.isOpen = true := h.session ▸ hopen
  have same : ∀ {b}, p.session.arrays[k]? = some b → b = a := fun hb =>
    Option.some.inj (hb.symm.trans hk')
  refine ⟨result, w', heq, h'.session.symm.trans h.session, h', ?_⟩
  cases hstep with
  | get hb hflat' _ =>
      obtain rfl := same hb
      obtain rfl := Except.ok.inj (hflat.symm.trans hflat')
      exact .inl rfl
  | getRefused hb hrefused =>
      obtain rfl := same hb
      cases hrefused with
      | index herr => cases hflat.symm.trans herr
      | closed _ hclosed => cases hopen'.symm.trans hclosed
      | failed _ _ hfail => exact .inr ⟨hfail, _, rfl⟩
  | getUnbound hb => cases hk'.symm.trans hb

/-! ## The loops -/

section Loops

variable {k : Nat} {a : Array}

/-- The loop of `from_numpy` assigns the elements it visits, and no others. -/
theorem Simulates.fromNumpyLoop {npArr : NdArray V} {rpcs : List Int → RpcScript} (hbuilt : a.Built)
    (hrpcs : ∀ indices, (rpcs indices).Succeeds)
    (hfits : ∀ indices, Numeral indices a.shape → ∃ bytes,
      codec.encode a.ctype (npArr.item indices) = .ok bytes ∧
        codec.decode a.ctype bytes = npArr.item indices) (order : List (List Int))
    (horder : ∀ indices ∈ order, Numeral indices a.shape) : ∀ {w : Process} {p : Plain V},
    Simulates codec content numVirtualPages w p → w.session.arrays[k]? = some a →
    w.session.ctx.isOpen = true →
    ∃ w' p', Process.fromNumpyLoop codec a npArr rpcs order w = some (none, w') ∧
      w'.session = w.session ∧ Simulates codec content numVirtualPages w' p' ∧
      ∀ indices, Numeral indices a.shape → p'.items k (value indices (weights a.shape)) =
        if indices ∈ order then npArr.item indices
        else p.items k (value indices (weights a.shape)) := by
  induction order with
  | nil => exact fun {w p} h _ _ => ⟨w, p, rfl, rfl, h, fun _ _ => rfl⟩
  | cons visited order ih =>
      intro w p h hk hopen
      obtain ⟨hvisited, horder'⟩ := List.forall_mem_cons.mp horder
      obtain ⟨bytes, hv, hdecode⟩ := hfits visited hvisited
      have hflat : a.flatIndex (Key.tuple visited).indices =
          .ok (value visited (weights a.shape)) := hbuilt.flatIndex_of_numeral hvisited
      obtain ⟨w₁, heq, hsession, h₁⟩ := h.setItem_done hk hopen hflat hv (hrpcs visited)
      obtain ⟨w', p', heq', hsession', h', hitems⟩ := ih horder' h₁ (hsession ▸ hk) (hsession ▸ hopen)
      refine ⟨w', p', ?_, hsession'.trans hsession, h', fun indices hnum => ?_⟩
      · rw [Process.fromNumpyLoop, heq]
        exact heq'
      · rw [hitems indices hnum]
        by_cases hturn : indices = visited
        · subst hturn
          simp [Plain.assign, hdecode]
        · have hne : value indices (weights a.shape) ≠ value visited (weights a.shape) := fun heq =>
            hturn (value_injective hnum hvisited heq)
          simp [Plain.assign, hturn, hne]

/-- The loop of `to_numpy` copies the elements whose turn has come, unless an RPC fails. -/
theorem Simulates.toNumpyLoop (hbuilt : a.Built) (hdims : ∀ d ∈ a.shape, 0 ≤ d)
    (rpcs : Int → RpcScript) (ns : List Int) (hns : ∀ n ∈ ns, 0 ≤ n ∧ n < a.size) :
    ∀ {w : Process} (result : NdArray V), Simulates codec content numVirtualPages w p →
    w.session.arrays[k]? = some a → w.session.ctx.isOpen = true → result.shape = a.shape →
    ∃ outcome w', Process.toNumpyLoop codec a rpcs ns result w = some (outcome, w') ∧
      ((∃ result', outcome = .ok result' ∧ result'.shape = a.shape ∧
          result'.dtype = result.dtype ∧
          ∀ indices, Numeral indices a.shape → result'.item indices =
            if value indices (weights a.shape) ∈ ns then
              p.items k (value indices (weights a.shape))
            else
              result.item indices) ∨
        ∃ n message, ¬ (rpcs n).Succeeds ∧ outcome = .error (.runtimeError message)) := by
  induction ns with
  | nil =>
      exact fun {w} result _ _ _ hshape =>
        ⟨_, w, rfl, .inl ⟨result, rfl, hshape, rfl, fun _ _ => rfl⟩⟩
  | cons n ns ih =>
      intro w result h hk hopen hshape
      obtain ⟨⟨hn, hlt⟩, hns'⟩ := List.forall_mem_cons.mp hns
      have hunravel := hbuilt.unravel_eq hdims hn hlt
      obtain ⟨hnum, hflat⟩ := (hbuilt.unravel_iff hdims hn hlt _).mp hunravel
      have hflat' : a.flatIndex (Key.tuple (digits n (weights a.shape))).indices = .ok n := hflat
      obtain ⟨res, w₁, heq, hsession, h₁, hres⟩ := h.getItem_value hk hopen hflat' (rpcs n)
      rw [Process.toNumpyLoop, hunravel]
      simp only [heq, Option.bind_eq_bind, Option.bind_some]
      rcases hres with rfl | ⟨hfail, message, rfl⟩
      · have hnum' : Numeral (digits n (weights a.shape)) result.shape := hshape.symm ▸ hnum
        have hset : result.setItem (digits n (weights a.shape)) (p.items k n) =
            .ok { result with
              item := Function.update result.item (digits n (weights a.shape)) (p.items k n) } := by
          rw [NdArray.setItem, normalise_of_numeral hnum', if_pos ⟨hnum', hnum'.length_eq⟩]
        simp only [hset]
        obtain ⟨outcome, w', hloop, hcases⟩ := ih hns' { result with
          item := Function.update result.item (digits n (weights a.shape)) (p.items k n) } h₁
          (hsession ▸ hk) (hsession ▸ hopen) hshape
        refine ⟨outcome, w', hloop, hcases.imp_left ?_⟩
        rintro ⟨result', rfl, hshape', hdtype, hitem⟩
        refine ⟨result', rfl, hshape', hdtype, fun indices hind => ?_⟩
        rw [hitem indices hind]
        rw [hbuilt.size] at hlt
        by_cases hturn : value indices (weights a.shape) = n
        · have hdigits : digits n (weights a.shape) = indices := hturn ▸ digits_value hdims hind
          simp [hturn, hdigits]
        · have hne : indices ≠ digits n (weights a.shape) := by
            rintro rfl
            exact hturn (value_digits hdims hn hlt)
          simp [hturn, hne]
      · exact ⟨_, w₁, rfl, .inr ⟨n, message, hfail, rfl⟩⟩

end Loops

/-! ## In between -/

/-- An operation that assigns to no element of array `k` and does not close the context. -/
def Op.Spares (k : Nat) : Op V → Prop
  | .set l _ _ _ => l ≠ k
  | .close => False
  | _ => True

theorem PlainStep.spares {op : Op V} {result : Result V} {p' : Plain V} {k : Nat} {a : Array}
    (h : PlainStep codec content p (op, result) p') (hop : op.Spares k)
    (hk : p.session.arrays[k]? = some a) :
    p'.session.arrays[k]? = some a ∧ p'.items k = p.items k ∧
      p'.session.ctx.isOpen = p.session.ctx.isOpen := by
  cases h with
  | @made shape dtype s' b hcall harrays =>
      have hlt := (List.getElem?_eq_some_iff.mp hk).1
      refine ⟨?_, Function.update_of_ne hlt.ne _ _, ?_⟩
      · show s'.arrays[k]? = some a
        rw [harrays, List.getElem?_append_left hlt]
        exact hk
      · rcases p.session.call_spec (.array shape dtype) with ⟨e, heq, -⟩ | ⟨c, heq, -⟩ | ⟨hclose, -⟩
        · cases hcall.symm.trans heq
        · cases hcall.symm.trans heq
          rfl
        · cases hclose
  | set hb _ _ _ => exact ⟨hk, Function.update_of_ne (Ne.symm hop) _ _, rfl⟩
  | close => exact hop.elim
  | _ => exact ⟨hk, rfl, rfl⟩

theorem PlainRun.spares {trace : List (Op V × Result V)} {p' : Plain V} {k : Nat} {a : Array}
    (h : PlainRun codec content p trace p') (htrace : ∀ x ∈ trace, x.1.Spares k)
    (hk : p.session.arrays[k]? = some a) :
    p'.session.arrays[k]? = some a ∧ p'.items k = p.items k ∧
      p'.session.ctx.isOpen = p.session.ctx.isOpen := by
  refine h.invariant_of_labels (fun q => q.session.arrays[k]? = some a ∧ q.items k = p.items k ∧
    q.session.ctx.isOpen = p.session.ctx.isOpen) (fun x => x.1.Spares k) ?_ htrace ⟨hk, rfl, rfl⟩
  rintro q ⟨op, result⟩ q' hop ⟨hq, hitems, hopen⟩ hstep
  obtain ⟨hq', hitems', hopen'⟩ := hstep.spares hop hq
  exact ⟨hq', hitems'.trans hitems, hopen'.trans hopen⟩

/-! ## There and back -/

/-- Making the array: the constructor succeeds where there is room. -/
theorem Simulates.made (h : Simulates codec content numVirtualPages w p) {shape : List Int}
    {dtype : Int} {ctype : CType} {elemSize : Int} (hd : dtypeMap dtype = some (ctype, elemSize))
    (hopen : w.session.ctx.isOpen = true) (hdims : ∀ d ∈ shape, 0 ≤ d)
    (hroom : w.session.ctx.nextPage + pagesFor (shape.prod * elemSize) ≤ numVirtualPages) :
    ∃ a ctx p', Array.init w.session.ctx shape dtype = (.ok a, ctx) ∧ a.Built ∧ a.shape = shape ∧
      a.dtype = dtype ∧ a.ctype = ctype ∧ ctx.isOpen = true ∧
      Simulates codec content numVirtualPages ⟨⟨ctx, w.session.arrays ++ [a]⟩, w.pager⟩ p' := by
  rcases Array.init_spec w.session.ctx shape dtype with
    ⟨e, -, hfull⟩ | ⟨a, heq, hbuilt, hshape, hdtype, -⟩
  · have hfull' := hfull ctype elemSize hd hopen
    rw [h.virtualPages] at hfull'
    omega
  · have hsound : (Op.array shape dtype : Op V).Sound := fun ctype elemSize hd' =>
      lt_of_lt_of_le (by decide)
        (mul_nonneg (List.prod_nonneg hdims) (dtypeMap_size hd').2.1.le)
    obtain ⟨result, w', p', hstep, -, h'⟩ := h.array hsound
    have hcall : w.step codec (.array shape dtype) =
        some (.done, ⟨⟨{ w.session.ctx with nextPage := w.session.ctx.nextPage + a.numPages },
          w.session.arrays ++ [a]⟩, w.pager⟩) := by
      simp only [Process.step, Session.call, heq]
      rfl
    obtain ⟨-, rfl⟩ := Prod.mk.inj (Option.some.inj (hstep.symm.trans hcall))
    have hentry := hbuilt.dtype.symm.trans (hdtype ▸ hd)
    simp only [Option.some.injEq, Prod.mk.injEq] at hentry
    exact ⟨a, _, p', heq, hbuilt, hshape, hdtype, hentry.1, hopen, h'⟩

theorem numeral_pair (indices : List Int) :
    Numeral indices pair.shape ↔ indices = [0, 0] ∨ indices = [0, 1] := by
  show Numeral indices [1, 2] ↔ _
  simp only [List.forall₂_cons_right_iff, List.forall₂_nil_right_iff]
  constructor
  · rintro ⟨i, _, hi, ⟨j, _, hj, rfl, rfl⟩, rfl⟩
    obtain rfl : i = 0 := by omega
    rcases (by omega : j = 0 ∨ j = 1) with rfl | rfl <;> simp
  · rintro (rfl | rfl) <;> simp

end Dsm.Python
