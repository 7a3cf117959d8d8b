import Dsm.Rpc.Connection
import Mathlib.Data.Nat.Count
import Mathlib.Data.Set.Finite.Basic

/-!
# The vectored send (`dsm_sendv` in `dsm_common.c`)

`dsm_sendv` copies the caller's array of `struct iovec`, and after each `writev` advances a pointer
through the copy, trimming the entry in which a partial write has ended. Here the arrays are memory:
the caller's array and the copy are two ranges of it, and the loop stores through a pointer.

The connection model works with lists of buffers instead (`advanceIov`). The pointer loop computes
exactly that (`buffers_advance`), from which all that is said about the stream follows.
-/

namespace Dsm.Rpc

open Dsm.Lib

/-! ## Memory -/

/-- `struct iovec`. -/
structure Iovec where
  iovBase : Nat
  iovLen : Nat
  deriving DecidableEq

/-- The bytes an entry stands for, in a memory of bytes. -/
def Iovec.bytes (mem : Nat → UInt8) (v : Iovec) : Bytes :=
  (List.range v.iovLen).map fun i => mem (v.iovBase + i)

/-- The buffers of the `cnt` entries from address `a` on. -/
def buffers (mem : Nat → UInt8) (vecs : Nat → Iovec) : (a cnt : Nat) → List Bytes
  | _, 0 => []
  | a, cnt + 1 => (vecs a).bytes mem :: buffers mem vecs (a + 1) cnt

/-- `memcpy` of `cnt` entries. -/
def copyVecs (vecs : Nat → Iovec) (dst src cnt : Nat) : Nat → Iovec :=
  fun a => if dst ≤ a ∧ a < dst + cnt then vecs (src + (a - dst)) else vecs a

/-! ## The loop -/

/-- The memory of the arrays, with `current` and `remaining_vecs`. -/
structure Cursor where
  vecs : Nat → Iovec
  current : Nat
  remainingVecs : Nat

/-- The inner loop, on what `writev` has taken. It ends with `written` at zero, or with no entry left;
`written` is positive whenever it is compared, so its cast to `size_t` changes nothing. -/
def advance : (remainingVecs : Nat) → (vecs : Nat → Iovec) → (current written : Nat) → Cursor
  | 0, vecs, current, _ => ⟨vecs, current, 0⟩
  | remaining + 1, vecs, current, written =>
      if written = 0 then ⟨vecs, current, remaining + 1⟩
      else if (vecs current).iovLen ≤ written then
        advance remaining vecs (current + 1) (written - (vecs current).iovLen)
      else
        ⟨Function.update vecs current
          ⟨(vecs current).iovBase + written, (vecs current).iovLen - written⟩,
          current, remaining + 1⟩

/-- What one `writev` does: it takes some of the pending bytes, or fails. -/
inductive Writev
  | wrote (k : Nat)
  | eintr
  | error
  deriving DecidableEq

/-- `dsm_sendv` between two calls of `writev`, with the bytes put on the stream so far; `returned` is
its result, once it has one. -/
structure Sendv where
  cursor : Cursor
  stream : Bytes
  returned : Option Int

/-- The bytes the next `writev` is asked to send. -/
def Sendv.pending (mem : Nat → UInt8) (s : Sendv) : Bytes :=
  (buffers mem s.cursor.vecs s.cursor.current s.cursor.remainingVecs).flatten

/-- The test of the outer loop. -/
def loopTest (c : Cursor) : Option Int := if 0 < c.remainingVecs then none else some 0

/-- `dsm_sendv(fd, iov, iovcnt)` up to its first `writev`, with `local_iov` at address `loc`. -/
def dsmSendv (vecs : Nat → Iovec) (iov loc iovcnt : Nat) : Sendv :=
  let c : Cursor := ⟨copyVecs vecs loc iov iovcnt, loc, iovcnt⟩
  ⟨c, [], loopTest c⟩

/-- One `writev` and what follows it. It cannot take more than is pending. -/
def Sendv.step (mem : Nat → UInt8) (s : Sendv) (out : Writev) : Option Sendv :=
  match s.returned, out with
  | some _, _ => none
  | none, .eintr => some s
  | none, .error => some { s with returned := some (-1) }
  | none, .wrote k =>
      if (s.pending mem).length < k then none
      else if k = 0 then some { s with returned := some (-1) }
      else
        let c := advance s.cursor.remainingVecs s.cursor.vecs s.cursor.current k
        some ⟨c, s.stream ++ (s.pending mem).take k, loopTest c⟩

def SendvStep (mem : Nat → UInt8) (s : Sendv) (out : Writev) (s' : Sendv) : Prop :=
  s.step mem out = some s'

abbrev SendvRun (mem : Nat → UInt8) := Run (SendvStep mem)

/-- One turn of the outer loop: the call was interrupted, or gave nothing, or took `k` bytes. -/
inductive Sendv.Turn (mem : Nat → UInt8) (s : Sendv) : Writev → Sendv → Prop
  | again : Turn mem s .eintr s
  | gaveUp {out : Writev} : out = .error ∨ out = .wrote 0 →
      Turn mem s out { s with returned := some (-1) }
  | took {k : Nat} : 0 < k → k ≤ (s.pending mem).length →
      Turn mem s (.wrote k)
        ⟨advance s.cursor.remainingVecs s.cursor.vecs s.cursor.current k,
          s.stream ++ (s.pending mem).take k,
          loopTest (advance s.cursor.remainingVecs s.cursor.vecs s.cursor.current k)⟩

theorem sendvStep_iff {mem : Nat → UInt8} {s s' : Sendv} {out : Writev} :
    SendvStep mem s out s' ↔ s.returned = none ∧ s.Turn mem out s' := by
  constructor
  · intro hstep
    unfold SendvStep Sendv.step at hstep
    split at hstep
    case h_1 => cases hstep
    case h_2 hret => exact ⟨hret, Option.some.inj hstep ▸ .again⟩
    case h_3 hret => exact ⟨hret, Option.some.inj hstep ▸ .gaveUp (.inl rfl)⟩
    case h_4 k hret =>
      split_ifs at hstep with hlong hzero
      · exact ⟨hret, Option.some.inj hstep ▸ .gaveUp (.inr (hzero ▸ rfl))⟩
      · exact ⟨hret, Option.some.inj hstep ▸ .took (by omega) (by omega)⟩
  · rintro ⟨hret, hturn⟩
    cases hturn with
    | again => simp [SendvStep, Sendv.step, hret]
    | gaveUp hout => rcases hout with rfl | rfl <;> simp [SendvStep, Sendv.step, hret]
    | took hpos hle =>
        simp only [SendvStep, Sendv.step, hret, if_neg (Nat.not_lt.mpr hle), if_neg hpos.ne']

/-! ## The pointer loop and the list of buffers -/

section Advance

variable {mem : Nat → UInt8} {vecs : Nat → Iovec}

@[simp] theorem Iovec.length_bytes (v : Iovec) : (v.bytes mem).length = v.iovLen := by
  simp [Iovec.bytes]

/-- An entry moved past its first `k` bytes. -/
theorem Iovec.bytes_drop (v : Iovec) (k : Nat) :
    Iovec.bytes mem ⟨v.iovBase + k, v.iovLen - k⟩ = (v.bytes mem).drop k := by
  apply List.ext_getElem
  · simp
  · intro i h₁ h₂
    simp [Iovec.bytes, Nat.add_assoc]

theorem buffers_congr {vecs' : Nat → Iovec} {a cnt : Nat}
    (h : ∀ b, a ≤ b → b < a + cnt → vecs' b = vecs b) :
    buffers mem vecs' a cnt = buffers mem vecs a cnt := by
  induction cnt generalizing a with
  | zero => rfl
  | succ cnt ih =>
      rw [buffers, buffers, h a le_rfl (by omega), ih fun b hab hb => h b (by omega) (by omega)]

/-- **The inner loop**, read on the list of buffers. -/
theorem buffers_advance (remaining : Nat) (vecs : Nat → Iovec) (current written : Nat) :
    buffers mem (advance remaining vecs current written).vecs
        (advance remaining vecs current written).current
        (advance remaining vecs current written).remainingVecs =
      advanceIov (buffers mem vecs current remaining) written := by
  induction remaining generalizing current written with
  | zero => rfl
  | succ remaining ih =>
      rw [advance, buffers, advanceIov, Iovec.length_bytes]
      split
      · rfl
      · split
        · exact ih _ _
        · rw [buffers]
          simp only [Function.update_self, Iovec.bytes_drop]
          exact congrArg _ (buffers_congr fun b hb _ => Function.update_of_ne (by omega) _ _)

/-- The inner loop stays inside the entries it was given, and writes nowhere else. -/
theorem advance_within (remaining : Nat) (vecs : Nat → Iovec) (current written : Nat) :
    current ≤ (advance remaining vecs current written).current ∧
      (advance remaining vecs current written).current +
        (advance remaining vecs current written).remainingVecs = current + remaining ∧
      ∀ a, a < current ∨ current + remaining ≤ a →
        (advance remaining vecs current written).vecs a = vecs a := by
  induction remaining generalizing current written with
  | zero => exact ⟨le_rfl, rfl, fun _ _ => rfl⟩
  | succ remaining ih =>
      rw [advance]
      split
      · exact ⟨le_rfl, rfl, fun _ _ => rfl⟩
      · split
        · obtain ⟨hle, hend, hframe⟩ := ih (current + 1) (written - (vecs current).iovLen)
          exact ⟨by omega, by omega, fun a ha => hframe a (by omega)⟩
        · exact ⟨le_rfl, rfl, fun a ha => Function.update_of_ne (by omega) _ _⟩

theorem pending_advance (s : Sendv) (k : Nat) (stream : Bytes) (returned : Option Int) :
    Sendv.pending mem
        ⟨advance s.cursor.remainingVecs s.cursor.vecs s.cursor.current k, stream, returned⟩ =
      (s.pending mem).drop k := by
  rw [Sendv.pending, buffers_advance, flatten_advanceIov]
  rfl

end Advance

/-- A `writev` of the pointer loop is one of the loop of the connection model. -/
theorem sendv_refines {mem : Nat → UInt8} {s s' : Sendv} {k : Nat} (hk : 0 < k)
    (hstep : SendvStep mem s (.wrote k) s') :
    s'.stream = s.stream ++ (Io.sendv (buffers mem s.cursor.vecs s.cursor.current
        s.cursor.remainingVecs)).pending.take k ∧
      (Io.sendv (buffers mem s.cursor.vecs s.cursor.current s.cursor.remainingVecs)).sent k =
        if s'.returned = none then
          [.sendv (buffers mem s'.cursor.vecs s'.cursor.current s'.cursor.remainingVecs)]
        else [] := by
  obtain ⟨-, hturn⟩ := sendvStep_iff.mp hstep
  cases hturn with
  | gaveUp hout =>
      rcases hout with hout | hout
      · cases hout
      · obtain rfl := Writev.wrote.inj hout
        exact absurd hk (Nat.lt_irrefl 0)
  | took hpos hle =>
      refine ⟨rfl, ?_⟩
      rw [Io.sent, ← buffers_advance]
      generalize advance s.cursor.remainingVecs s.cursor.vecs s.cursor.current k = c
      obtain ⟨vecs, current, remaining⟩ := c
      cases remaining <;> rfl

/-! ## What holds between two calls of `writev` -/

section Delivering

variable {mem : Nat → UInt8} {vecs : Nat → Iovec} {iov loc iovcnt : Nat}

/-- The bytes the caller wants sent. -/
def message (mem : Nat → UInt8) (vecs : Nat → Iovec) (iov iovcnt : Nat) : Bytes :=
  (buffers mem vecs iov iovcnt).flatten

/-- The cursor is in the copy and at no empty entry, the caller's array is as it was, what is on the
stream and what is pending make up the message, and the result is `0` once nothing is pending. -/
structure Delivering (mem : Nat → UInt8) (vecs : Nat → Iovec) (iov loc iovcnt : Nat) (s : Sendv) :
    Prop where
  current_le : loc ≤ s.cursor.current
  current_end : s.cursor.current + s.cursor.remainingVecs = loc + iovcnt
  caller : ∀ i < iovcnt, s.cursor.vecs (iov + i) = vecs (iov + i)
  nonempty : ∀ v ∈ buffers mem s.cursor.vecs s.cursor.current s.cursor.remainingVecs, v ≠ []
  delivered : s.stream ++ s.pending mem = message mem vecs iov iovcnt
  code : s.returned = none ∧ 0 < s.cursor.remainingVecs ∨
    s.returned = some 0 ∧ s.cursor.remainingVecs = 0 ∨
    s.returned = some (-1) ∧ 0 < s.cursor.remainingVecs

theorem loopTest_code (c : Cursor) :
    loopTest c = none ∧ 0 < c.remainingVecs ∨ loopTest c = some 0 ∧ c.remainingVecs = 0 ∨
      loopTest c = some (-1) ∧ 0 < c.remainingVecs := by
  unfold loopTest
  split
  · next h => exact .inl ⟨rfl, h⟩
  · next h => exact .inr (.inl ⟨rfl, by omega⟩)

/-- The copy holds the caller's entries. -/
theorem buffers_copyVecs (dst src cnt : Nat) :
    buffers mem (copyVecs vecs dst src cnt) dst cnt = buffers mem vecs src cnt := by
  -- The induction walks along both ranges, so the copy is fixed and the offset moves.
  suffices ∀ n i, i + n = cnt →
      buffers mem (copyVecs vecs dst src cnt) (dst + i) n = buffers mem vecs (src + i) n from
    this cnt 0 (Nat.zero_add cnt)
  intro n
  induction n with
  | zero => exact fun _ _ => rfl
  | succ n ih =>
      intro i hi
      have hcell : copyVecs vecs dst src cnt (dst + i) = vecs (src + i) := by
        rw [copyVecs, if_pos (by omega), Nat.add_sub_cancel_left]
      rw [buffers, buffers, hcell]
      exact congrArg _ (ih (i + 1) (by omega))

theorem Delivering.start (hapart : loc + iovcnt ≤ iov ∨ iov + iovcnt ≤ loc)
    (hne : ∀ v ∈ buffers mem vecs iov iovcnt, v ≠ []) :
    Delivering mem vecs iov loc iovcnt (dsmSendv vecs iov loc iovcnt) where
  current_le := le_rfl
  current_end := rfl
  caller := fun i hi => if_neg (by omega)
  nonempty := by
    show ∀ v ∈ buffers mem (copyVecs vecs loc iov iovcnt) loc iovcnt, v ≠ []
    rw [buffers_copyVecs]
    exact hne
  delivered := by
    show (buffers mem (copyVecs vecs loc iov iovcnt) loc iovcnt).flatten = _
    rw [buffers_copyVecs]
    rfl
  code := loopTest_code _

theorem Delivering.step (hapart : loc + iovcnt ≤ iov ∨ iov + iovcnt ≤ loc) {s s' : Sendv}
    {out : Writev} (h : Delivering mem vecs iov loc iovcnt s) (hstep : SendvStep mem s out s') :
    Delivering mem vecs iov loc iovcnt s' := by
  obtain ⟨hle, hend, hcaller, hne, hdel, hcode⟩ := h
  obtain ⟨hret, hturn⟩ := sendvStep_iff.mp hstep
  have hpos : 0 < s.cursor.remainingVecs := by simpa [hret] using hcode
  cases hturn with
  | again => exact ⟨hle, hend, hcaller, hne, hdel, hcode⟩
  | gaveUp _ => exact ⟨hle, hend, hcaller, hne, hdel, .inr (.inr ⟨rfl, hpos⟩)⟩
  | @took k _ _ =>
      obtain ⟨hle', hend', hframe⟩ :=
        advance_within s.cursor.remainingVecs s.cursor.vecs s.cursor.current k
      refine ⟨hle.trans hle', hend'.trans hend, ?_, ?_, ?_, loopTest_code _⟩
      · -- The copy does not overlap the caller's array.
        intro i hi
        exact (hframe (iov + i) (by omega)).trans (hcaller i hi)
      · rw [buffers_advance]
        exact advanceIov_ne_nil hne k
      · rw [pending_advance, List.append_assoc, List.take_append_drop]
        exact hdel

theorem Delivering.run (hapart : loc + iovcnt ≤ iov ∨ iov + iovcnt ≤ loc)
    (hne : ∀ v ∈ buffers mem vecs iov iovcnt, v ≠ []) {outs : List Writev} {s : Sendv}
    (hrun : SendvRun mem (dsmSendv vecs iov loc iovcnt) outs s) :
    Delivering mem vecs iov loc iovcnt s :=
  hrun.invariant (Delivering mem vecs iov loc iovcnt) (fun _ _ _ h hs => h.step hapart hs)
    (.start hapart hne)

/-- While entries remain, bytes are pending. -/
theorem Delivering.pending_pos {s : Sendv} (h : Delivering mem vecs iov loc iovcnt s)
    (hpos : 0 < s.cursor.remainingVecs) : 0 < (s.pending mem).length := by
  obtain ⟨n, hn⟩ := Nat.exists_eq_succ_of_ne_zero hpos.ne'
  have hne := h.nonempty
  rw [hn, Nat.succ_eq_add_one, buffers] at hne
  rw [Sendv.pending, hn, Nat.succ_eq_add_one, buffers, List.flatten_cons, List.length_append]
  have := List.length_pos_iff.mpr (hne _ List.mem_cons_self)
  omega

/-- The result says whether the whole message is on the stream. -/
theorem Delivering.returned_iff {s : Sendv} (h : Delivering mem vecs iov loc iovcnt s) {code : Int}
    (hret : s.returned = some code) : code = 0 ↔ s.stream = message mem vecs iov iovcnt := by
  rcases h.code with ⟨hnone, -⟩ | ⟨hzero, hend⟩ | ⟨hminus, hpos⟩
  · rw [hret] at hnone
    cases hnone
  · have hdel := h.delivered
    rw [Sendv.pending, hend, buffers, List.flatten_nil, List.append_nil] at hdel
    exact iff_of_true (Option.some.inj (hret.symm.trans hzero)) hdel
  · have hcode : code = -1 := Option.some.inj (hret.symm.trans hminus)
    refine iff_of_false (by omega) fun hall => ?_
    have hlen := congrArg List.length h.delivered
    have := h.pending_pos hpos
    rw [List.length_append, hall] at hlen
    omega

end Delivering

/-! ## Termination -/

section Termination

variable {mem : Nat → UInt8} {vecs : Nat → Iovec} {iov loc iovcnt : Nat}

/-- A call that is not interrupted makes progress: it returns, or puts bytes on the stream. -/
theorem Sendv.step_progress {s s' : Sendv} {out : Writev} (hstep : SendvStep mem s out s')
    (hout : out ≠ .eintr) : s'.returned ≠ none ∨ s.stream.length < s'.stream.length := by
  obtain ⟨-, hturn⟩ := sendvStep_iff.mp hstep
  cases hturn with
  | again => exact absurd rfl hout
  | gaveUp _ => exact .inl (Option.some_ne_none _)
  | took hpos hle =>
      right
      rw [List.length_append, List.length_take]
      omega

theorem Sendv.stream_grows {s s' : Sendv} {out : Writev} (hstep : SendvStep mem s out s') :
    s.stream.length ≤ s'.stream.length := by
  obtain ⟨-, hturn⟩ := sendvStep_iff.mp hstep
  cases hturn with
  | again => exact le_rfl
  | gaveUp _ => exact le_rfl
  | took _ _ => exact (List.prefix_append _ _).length_le

/-- The calls that were interrupted and the bytes on the stream pay for all calls made so far. -/
theorem Sendv.calls_le (outs : Nat → Writev)
    (hlegal : ∀ m s k, SendvRun mem (dsmSendv vecs iov loc iovcnt) ((List.range m).map outs) s →
      s.returned = none → outs m = .wrote k → k ≤ (s.pending mem).length) (m : Nat) :
    (∃ n s, SendvRun mem (dsmSendv vecs iov loc iovcnt) ((List.range n).map outs) s ∧
      s.returned ≠ none) ∨
    ∃ s, SendvRun mem (dsmSendv vecs iov loc iovcnt) ((List.range m).map outs) s ∧
      s.returned = none ∧ m ≤ Nat.count (fun i => outs i = .eintr) m + s.stream.length := by
  induction m with
  | zero =>
      by_cases hret : (dsmSendv vecs iov loc iovcnt).returned = none
      · exact .inr ⟨_, .nil _, hret, Nat.zero_le _⟩
      · exact .inl ⟨0, _, .nil _, hret⟩
  | succ m ih =>
      rcases ih with hdone | ⟨s, hrun, hret, hle⟩
      · exact .inl hdone
      · obtain ⟨s', hstep⟩ : ∃ s', SendvStep mem s (outs m) s' := by
          cases hout : outs m with
          | eintr => exact ⟨_, sendvStep_iff.mpr ⟨hret, .again⟩⟩
          | error => exact ⟨_, sendvStep_iff.mpr ⟨hret, .gaveUp (.inl rfl)⟩⟩
          | wrote k =>
              rcases Nat.eq_zero_or_pos k with rfl | hpos
              · exact ⟨_, sendvStep_iff.mpr ⟨hret, .gaveUp (.inr rfl)⟩⟩
              · exact ⟨_, sendvStep_iff.mpr ⟨hret, .took hpos (hlegal m s k hrun hret hout)⟩⟩
        have hrun' : SendvRun mem (dsmSendv vecs iov loc iovcnt) ((List.range (m + 1)).map outs) s' := by
          rw [List.range_succ, List.map_append]
          exact hrun.snoc hstep
        by_cases hret' : s'.returned = none
        · refine .inr ⟨s', hrun', hret', ?_⟩
          rw [Nat.count_succ]
          by_cases hout : outs m = .eintr
          · have hlen : s.stream.length ≤ s'.stream.length := Sendv.stream_grows hstep
            rw [if_pos hout]
            omega
          · have hmore := (Sendv.step_progress hstep hout).resolve_left (not_not_intro hret')
            omega
        · exact .inl ⟨m + 1, s', hrun', hret'⟩

end Termination

/-- **The vectored send delivers the whole message.** The caller's entries are non-empty and the copy
is elsewhere. Whatever `writev` does, call by call, a prefix of the message is on the stream and the
rest is pending, the caller's array is unchanged, and the result is `0` exactly if the whole message
is on the stream. If only finitely many calls are interrupted, there is a result. -/
theorem dsmSendv_delivers (mem : Nat → UInt8) (vecs : Nat → Iovec) (iov loc iovcnt : Nat)
    (hapart : loc + iovcnt ≤ iov ∨ iov + iovcnt ≤ loc)
    (hne : ∀ v ∈ buffers mem vecs iov iovcnt, v ≠ []) :
    (∀ outs s, SendvRun mem (dsmSendv vecs iov loc iovcnt) outs s →
      s.stream <+: message mem vecs iov iovcnt ∧
      s.stream ++ s.pending mem = message mem vecs iov iovcnt ∧
      (∀ code, s.returned = some code → (code = 0 ↔ s.stream = message mem vecs iov iovcnt)) ∧
      ∀ i < iovcnt, s.cursor.vecs (iov + i) = vecs (iov + i)) ∧
    ∀ outs : Nat → Writev, {i | outs i = .eintr}.Finite →
      (∀ m s k, SendvRun mem (dsmSendv vecs iov loc iovcnt) ((List.range m).map outs) s →
        s.returned = none → outs m = .wrote k → k ≤ (s.pending mem).length) →
      ∃ m s code, SendvRun mem (dsmSendv vecs iov loc iovcnt) ((List.range m).map outs) s ∧
        s.returned = some code := by
  constructor
  · intro outs s hrun
    have h := Delivering.run hapart hne hrun
    exact ⟨⟨_, h.delivered⟩, h.delivered, fun _ hret => h.returned_iff hret, h.caller⟩
  · intro outs hfin hlegal
    have hdone : ∃ n s, SendvRun mem (dsmSendv vecs iov loc iovcnt) ((List.range n).map outs) s ∧
        s.returned ≠ none := by
      -- More calls than interruptions and bytes together cannot all leave it running.
      refine (Sendv.calls_le outs hlegal
        (hfin.toFinset.card + (message mem vecs iov iovcnt).length + 1)).resolve_right ?_
      rintro ⟨s, hrun, -, hle⟩
      have hstream := (Delivering.run hapart hne hrun).delivered
      have hlen := congrArg List.length hstream
      rw [List.length_append] at hlen
      have hcount : Nat.count (fun i => outs i = .eintr)
          (hfin.toFinset.card + (message mem vecs iov iovcnt).length + 1) ≤ hfin.toFinset.card := by
        rw [Nat.count_eq_card_filter_range]
        refine Finset.card_le_card fun i hi => ?_
        exact hfin.mem_toFinset.mpr (Finset.mem_filter.mp hi).2
      omega
    obtain ⟨n, s, hrun, hret⟩ := hdone
    obtain ⟨code, hcode⟩ := Option.ne_none_iff_exists'.mp hret
    exact ⟨n, s, code, hrun, hcode⟩

/-- Two buffers, of two bytes and of one: `writev` takes a byte, is interrupted, and takes the other
two, across the boundary. -/
theorem dsmSendv_delivers_split : ∃ s,
    SendvRun (fun a => UInt8.ofNat (a + 1))
        (dsmSendv (fun a => if a = 0 then ⟨0, 2⟩ else ⟨2, 1⟩) 0 2 2)
        [.wrote 1, .eintr, .wrote 2] s ∧
      s.returned = some 0 ∧ s.stream = [1, 2, 3] := by
  have hrun : ∃ s, SendvRun (fun a => UInt8.ofNat (a + 1))
      (dsmSendv (fun a => if a = 0 then ⟨0, 2⟩ else ⟨2, 1⟩) 0 2 2)
      [.wrote 1, .eintr, .wrote 2] s ∧ s.returned = some 0 :=
    ⟨_, .cons rfl (.cons rfl (.cons rfl (.nil _))), rfl⟩
  obtain ⟨s, hrun, hret⟩ := hrun
  obtain ⟨-, -, hcode, -⟩ := (dsmSendv_delivers (fun a => UInt8.ofNat (a + 1))
    (fun a => if a = 0 then ⟨0, 2⟩ else ⟨2, 1⟩) 0 2 2 (.inr le_rfl) (by decide)).1 _ s hrun
  exact ⟨s, hrun, hret, (hcode 0 hret).mp rfl⟩

end Dsm.Rpc
