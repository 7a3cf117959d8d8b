import Dsm.Server.AcceptLoop
import Mathlib.Data.List.Count
import Mathlib.Data.List.Range

/-!
# The slot table of the accept loop

`main` keeps a table of its handler threads and their descriptors. The table grows by doubling and is
compacted in place when it is full, and between `accept` and `pthread_create` there are four ways to
give a client up. None of this loses or repeats a close or a join.

`SlotBook` is the purpose of the table without its arrays and counters: the clients that `main` has to
see to. A step of the loop is a step of the book (`LoopStep.book`), and over the steps of the book a
descriptor is at every moment closed, in a slot or in `main`'s hands, once.
-/

namespace Dsm.Server

open Dsm.Lib

/-! ## The book -/

/-- The threads that are not joined and their descriptors, the client accepted last if nothing has
become of it yet, how many were accepted, and for each thread its descriptor and whether it is
joined. -/
structure SlotBook where
  live : List ClientSlot
  client : Option Nat
  accepted : Nat
  threads : List (Nat × Bool)

/-- What `main` does to the book, with the descriptors it closes and the threads it joins. -/
inductive SlotBook.Step : SlotBook → (closes joins : List Nat) → SlotBook → Prop
  | keep (b : SlotBook) : Step b [] [] b
  | accept {b : SlotBook} : b.client = none →
      Step b [] [] { b with client := some b.accepted, accepted := b.accepted + 1 }
  | refuse {b : SlotBook} {fd : Nat} : b.client = some fd →
      Step b [fd] [] { b with client := none }
  | create {b : SlotBook} {fd : Nat} : b.client = some fd →
      Step b [] []
        { b with
          client := none
          live := b.live ++ [⟨b.threads.length, fd⟩]
          threads := b.threads ++ [(fd, false)] }
  | join {b : SlotBook} {pre post : List ClientSlot} {slot : ClientSlot} {fd : Nat} :
      b.live = pre ++ slot :: post → b.threads[slot.tid]? = some (fd, false) →
      Step b [slot.fd] [slot.tid]
        { b with live := pre ++ post, threads := b.threads.set slot.tid (fd, true) }

/-- The book with the closes and joins made so far. -/
structure Ledger (σ : Type) where
  state : σ
  closed : List Nat
  joined : List Nat

/-- Every accepted descriptor is in one place, closed, in a slot or with `main`, and every thread is
joined or in a slot. -/
structure SlotBook.Kept (l : Ledger SlotBook) : Prop where
  fds : ∀ fd, l.closed.count fd + (l.state.live.map ClientSlot.fd).count fd +
    l.state.client.toList.count fd = if fd < l.state.accepted then 1 else 0
  tids : ∀ tid, l.joined.count tid + (l.state.live.map ClientSlot.tid).count tid =
    if tid < l.state.threads.length then 1 else 0
  own : ∀ slot ∈ l.state.live, l.state.threads[slot.tid]? = some (slot.fd, false)
  joined_iff : ∀ (tid fd : Nat) (j : Bool), l.state.threads[tid]? = some (fd, j) →
    (j = true ↔ tid ∈ l.joined)

namespace SlotBook.Kept

theorem start : Kept ⟨⟨[], none, 0, []⟩, [], []⟩ where
  fds := fun _ => rfl
  tids := fun _ => rfl
  own := fun _ h => absurd h List.not_mem_nil
  joined_iff := fun _ _ _ h => by cases h

variable {l : Ledger SlotBook}

/-- The threads of two slots differ. -/
theorem nodup (h : Kept l) : (l.state.live.map ClientSlot.tid).Nodup := by
  rw [List.nodup_iff_count_le_one]
  intro tid
  have := h.tids tid
  split at this <;> omega

theorem closed_le_one (h : Kept l) (fd : Nat) : l.closed.count fd ≤ 1 := by
  have := h.fds fd
  split at this <;> omega

theorem joined_le_one (h : Kept l) (tid : Nat) : l.joined.count tid ≤ 1 := by
  have := h.tids tid
  split at this <;> omega

theorem accept (h : Kept l) (hnone : l.state.client = none) :
    Kept ⟨{ l.state with client := some l.state.accepted, accepted := l.state.accepted + 1 },
      l.closed, l.joined⟩ where
  fds := by
    intro fd
    have := h.fds fd
    rw [hnone, Option.toList_none, List.count_nil] at this
    simp only [Option.toList_some, List.count_singleton, beq_iff_eq]
    by_cases heq : l.state.accepted = fd
    · subst heq
      rw [if_neg (Nat.lt_irrefl _)] at this
      rw [if_pos rfl, if_pos (Nat.lt_succ_self _)]
      omega
    · rw [if_neg heq]
      split at this <;> split <;> omega
  tids := h.tids
  own := h.own
  joined_iff := h.joined_iff

/-- A client that is given up is closed by `main` itself. -/
theorem refuse (h : Kept l) {fd : Nat} (hfd : l.state.client = some fd) :
    Kept ⟨{ l.state with client := none }, l.closed ++ [fd], l.joined⟩ where
  fds := by
    intro fd'
    have := h.fds fd'
    rw [hfd, Option.toList_some] at this
    simp only [List.count_append, Option.toList_none, List.count_nil]
    omega
  tids := h.tids
  own := h.own
  joined_iff := h.joined_iff

/-- A thread that is created takes the client's descriptor out of `main`'s hands. -/
theorem create (h : Kept l) {fd : Nat} (hfd : l.state.client = some fd) :
    Kept ⟨{ l.state with
      client := none
      live := l.state.live ++ [⟨l.state.threads.length, fd⟩]
      threads := l.state.threads ++ [(fd, false)] }, l.closed, l.joined⟩ where
  fds := by
    intro fd'
    have := h.fds fd'
    rw [hfd, Option.toList_some] at this
    simpa [Nat.add_assoc] using this
  tids := by
    intro tid
    have := h.tids tid
    simp only [List.map_append, List.map_cons, List.map_nil, List.count_append, List.length_append,
      List.length_singleton, List.count_singleton, beq_iff_eq]
    by_cases heq : l.state.threads.length = tid
    · subst heq
      rw [if_neg (Nat.lt_irrefl _)] at this
      rw [if_pos rfl, if_pos (Nat.lt_succ_self _)]
      omega
    · rw [if_neg heq]
      split at this <;> split <;> omega
  own := by
    intro slot hslot
    rcases List.mem_append.mp hslot with hold | hnew
    · have hown := h.own slot hold
      exact (List.getElem?_append_left (List.getElem?_eq_some_iff.mp hown).1).trans hown
    · obtain rfl := List.mem_singleton.mp hnew
      exact List.getElem?_concat_length
  joined_iff := by
    intro tid fd' j hj
    rcases Nat.lt_or_ge tid l.state.threads.length with hlt | hge
    · rw [List.getElem?_append_left hlt] at hj
      exact h.joined_iff tid fd' j hj
    · have hlen := (List.getElem?_eq_some_iff.mp hj).1
      rw [List.length_append, List.length_singleton] at hlen
      obtain rfl : tid = l.state.threads.length := by omega
      rw [List.getElem?_concat_length] at hj
      obtain ⟨-, rfl⟩ := Prod.mk.inj (Option.some.inj hj)
      -- A thread that did not exist has not been joined.
      have hcount := h.tids l.state.threads.length
      rw [if_neg (Nat.lt_irrefl _)] at hcount
      refine iff_of_false Bool.false_ne_true fun (hmem : _ ∈ l.joined) => ?_
      have := List.count_pos_iff.mpr hmem
      omega

/-- A join takes the slot out of the table, and its close follows. -/
theorem join (h : Kept l) {pre post : List ClientSlot} {slot : ClientSlot}
    (hlive : l.state.live = pre ++ slot :: post) {fd : Nat}
    (hthread : l.state.threads[slot.tid]? = some (fd, false)) :
    Kept ⟨{ l.state with live := pre ++ post, threads := l.state.threads.set slot.tid (fd, true) },
      l.closed ++ [slot.fd], l.joined ++ [slot.tid]⟩ where
  fds := by
    intro fd'
    have := h.fds fd'
    rw [hlive] at this
    simp only [List.map_append, List.map_cons, List.count_append, List.count_cons,
      List.count_nil] at this ⊢
    omega
  tids := by
    intro tid
    have := h.tids tid
    rw [hlive] at this
    simp only [List.map_append, List.map_cons, List.count_append, List.count_cons, List.count_nil,
      List.length_set] at this ⊢
    omega
  own := by
    intro other hother
    have hnodup := h.nodup
    rw [hlive, List.map_append, List.map_cons, List.nodup_middle, List.nodup_cons,
      ← List.map_append] at hnodup
    have hne : slot.tid ≠ other.tid := fun heq =>
      hnodup.1 (heq ▸ List.mem_map_of_mem hother)
    refine (List.getElem?_set_ne hne).trans (h.own other ?_)
    rw [hlive]
    exact List.mem_append.mpr ((List.mem_append.mp hother).imp_right (List.mem_cons_of_mem _))
  joined_iff := by
    intro tid fd' j hj
    rw [List.mem_append, List.mem_singleton]
    by_cases heq : tid = slot.tid
    · subst heq
      rw [List.getElem?_set_self (List.getElem?_eq_some_iff.mp hthread).1] at hj
      obtain ⟨-, rfl⟩ := Prod.mk.inj (Option.some.inj hj)
      exact iff_of_true rfl (.inr rfl)
    · rw [List.getElem?_set_ne (Ne.symm heq)] at hj
      simpa [heq] using h.joined_iff tid fd' j hj

theorem step {closes joins : List Nat} {b : SlotBook} (h : Kept l)
    (hstep : l.state.Step closes joins b) : Kept ⟨b, l.closed ++ closes, l.joined ++ joins⟩ := by
  obtain ⟨b₀, closed, joined⟩ := l
  cases hstep with
  | keep => simpa only [List.append_nil] using h
  | accept hnone => simpa only [List.append_nil] using h.accept hnone
  | refuse hfd => simpa only [List.append_nil] using h.refuse hfd
  | create hfd => simpa only [List.append_nil] using h.create hfd
  | join hlive hthread => exact h.join hlive hthread

/-- The slots are exactly the threads that are not joined, with their own descriptors. -/
theorem mem_live_iff (h : Kept l) (slot : ClientSlot) :
    slot ∈ l.state.live ↔ l.state.threads[slot.tid]? = some (slot.fd, false) := by
  refine ⟨h.own slot, fun hthread => ?_⟩
  have hnot : slot.tid ∉ l.joined := fun hmem =>
    Bool.false_ne_true ((h.joined_iff _ _ _ hthread).mpr hmem)
  have hcount := h.tids slot.tid
  rw [List.count_eq_zero_of_not_mem hnot,
    if_pos (List.getElem?_eq_some_iff.mp hthread).1] at hcount
  have hpos : 0 < (l.state.live.map ClientSlot.tid).count slot.tid := by omega
  obtain ⟨other, hother, htid⟩ := List.mem_map.mp (List.count_pos_iff.mp hpos)
  have hown := h.own other hother
  rw [htid, hthread] at hown
  have hfd := (Prod.mk.inj (Option.some.inj hown)).1
  obtain rfl : other = slot := by
    cases other
    cases slot
    simp_all
  exact hother

end SlotBook.Kept

/-! ## The table -/

/-- The entries `[a, b)` of the table. -/
def entries (slots : Nat → ClientSlot) (a b : Nat) : List ClientSlot :=
  (List.range' a (b - a)).map slots

theorem entries_self (slots : Nat → ClientSlot) (a : Nat) : entries slots a a = [] := by
  simp [entries]

theorem entries_cons (slots : Nat → ClientSlot) {a b : Nat} (h : a < b) :
    entries slots a b = slots a :: entries slots (a + 1) b := by
  obtain ⟨n, rfl⟩ := Nat.exists_eq_add_of_lt h
  rw [entries, entries, show a + n + 1 - a = n + 1 by omega, show a + n + 1 - (a + 1) = n by omega,
    List.range'_succ, List.map_cons]

theorem entries_concat (slots : Nat → ClientSlot) {a b : Nat} (h : a ≤ b) :
    entries slots a (b + 1) = entries slots a b ++ [slots b] := by
  rw [entries, entries, show b + 1 - a = (b - a) + 1 by omega, List.range'_1_concat,
    List.map_append, Nat.add_sub_cancel' h]
  rfl

/-- A store outside the entries. -/
theorem entries_update (slots : Nat → ClientSlot) {a b i : Nat} (slot : ClientSlot)
    (h : i < a ∨ b ≤ i) : entries (Function.update slots i slot) a b = entries slots a b := by
  refine List.map_congr_left fun j hj => ?_
  obtain ⟨hlo, hhi⟩ := List.mem_range'_1.mp hj
  exact Function.update_of_ne (by omega) _ _

/-- The slots that `main` has still to see to, by where it is: in the middle of the compaction those
kept and those not yet looked at, in the last loop those not yet joined. -/
def MainAt.live (slots : Nat → ClientSlot) (slotCount : Nat) : MainAt → List ClientSlot
  | .reaping _ i kept => entries slots 0 kept ++ entries slots i slotCount
  | .joining i => entries slots i slotCount
  | .returned => []
  | _ => entries slots 0 slotCount

/-- How the counters stand, by where `main` is. -/
def MainAt.Bounded (slotCount slotCap : Nat) : MainAt → Prop
  | .reaping _ i kept => kept ≤ i ∧ i ≤ slotCount ∧ slotCount ≤ slotCap
  | .growing _ => slotCount = slotCap
  | .creating _ => slotCount < slotCap
  | .joining i => i ≤ slotCount ∧ slotCount ≤ slotCap
  | _ => slotCount ≤ slotCap

def AcceptLoop.Bounded (s : AcceptLoop) : Prop :=
  0 < s.slotCap ∧ s.main.Bounded s.slotCount s.slotCap

def AcceptLoop.liveSlots (s : AcceptLoop) : List ClientSlot := s.main.live s.slots s.slotCount

def AcceptLoop.book (s : AcceptLoop) : SlotBook where
  live := s.liveSlots
  client := s.main.clientFd
  accepted := s.fds.length
  threads := s.threads.map fun t => (t.fd, decide (t.status = .joined))

/-! ## Closes and joins -/

/-- The client whose descriptor `main` closes on an error path. -/
def MainAt.refused : MainAt → MainCall → Option Nat
  | .allocating fd, .malloc false => some fd
  | .growing fd, .realloc false => some fd
  | .creating fd, .create false => some fd
  | _, _ => none

/-- The slot whose thread `main` joins and whose descriptor it then closes. -/
def MainAt.reaped (slots : Nat → ClientSlot) (slotCount : Nat) :
    MainAt → MainCall → Option ClientSlot
  | .reaping _ i _, .tryjoin true => some (slots i)
  | .joining i, .join => if i < slotCount then some (slots i) else none
  | _, _ => none

def AcceptLoop.closes (s : AcceptLoop) : LoopEvent → List Nat
  | .main call => (s.main.refused call).toList ++
      (s.main.reaped s.slots s.slotCount call).toList.map ClientSlot.fd
  | _ => []

def AcceptLoop.joins (s : AcceptLoop) : LoopEvent → List Nat
  | .main call => (s.main.reaped s.slots s.slotCount call).toList.map ClientSlot.tid
  | _ => []

/-! ## A step of the loop is a step of the book -/

section Main

variable {s s' : AcceptLoop} {call : MainCall} {here : MainAt} (hat : s.main = here)

include hat

/-- A step that closes and joins nothing and leaves the book as it is. -/
theorem AcceptLoop.step_keep (hrefused : here.refused call = none)
    (hreaped : here.reaped s.slots s.slotCount call = none) (hbook : s'.book = s.book) :
    s.book.Step (s.closes (.main call)) (s.joins (.main call)) s'.book := by
  simp only [AcceptLoop.closes, AcceptLoop.joins, hat, hrefused, hreaped, hbook]
  exact .keep _

/-- `main` moves on, perhaps with a new count or capacity, and the table is as before. -/
theorem AcceptLoop.step_move {next : MainAt} {count cap : Nat}
    (hrefused : here.refused call = none)
    (hreaped : here.reaped s.slots s.slotCount call = none)
    (hlive : next.live s.slots count = here.live s.slots s.slotCount)
    (hclient : next.clientFd = here.clientFd) :
    s.book.Step (s.closes (.main call)) (s.joins (.main call))
      (AcceptLoop.book { s with main := next, slotCount := count, slotCap := cap }) := by
  refine AcceptLoop.step_keep hat hrefused hreaped ?_
  simp only [AcceptLoop.book, AcceptLoop.liveSlots, hlive, hclient, hat]

/-- `close(client_fd)` and `continue`, from a place where the table is whole. -/
theorem AcceptLoop.giveUp_book {fd : Nat} (hrefused : here.refused call = some fd)
    (hreaped : here.reaped s.slots s.slotCount call = none) (hfd : here.clientFd = some fd)
    (hlive : here.live s.slots s.slotCount = entries s.slots 0 s.slotCount) :
    s.book.Step (s.closes (.main call)) (s.joins (.main call)) (s.giveUp fd).book := by
  have hbook : (s.giveUp fd).book = { s.book with client := none } := by
    simp only [AcceptLoop.book, AcceptLoop.liveSlots, AcceptLoop.giveUp, List.length_set, hat, hlive]
    rfl
  simp only [AcceptLoop.closes, AcceptLoop.joins, hat, hrefused, hreaped, hbook]
  exact .refuse (congrArg MainAt.clientFd hat |>.trans hfd)

/-- A join of the slot that comes next. -/
theorem AcceptLoop.joinSlot_book {j : AcceptLoop} {slot : ClientSlot} (call : MainCall)
    (next : MainAt) (pre : List ClientSlot) {post : List ClientSlot} (hrefused : here.refused call = none)
    (hreaped : here.reaped s.slots s.slotCount call = some slot)
    (hlive : here.live s.slots s.slotCount = pre ++ slot :: post)
    (hnext : next.live s.slots s.slotCount = pre ++ post)
    (hclient : next.clientFd = here.clientFd) (hjoin : s.joinSlot slot = some j) :
    s.book.Step (s.closes (.main call)) (s.joins (.main call))
        (AcceptLoop.book { j with main := next }) ∧
      j.slotCount = s.slotCount ∧ j.slotCap = s.slotCap := by
  unfold AcceptLoop.joinSlot at hjoin
  split at hjoin
  · next fd hthread =>
      obtain rfl := Option.some.inj hjoin
      refine ⟨?_, rfl, rfl⟩
      have hthread' : s.book.threads[slot.tid]? = some (fd, false) := by
        simp [AcceptLoop.book, hthread]
      have hbook : AcceptLoop.book { s with
            main := next
            threads := s.threads.set slot.tid ⟨fd, .joined⟩
            fds := s.fds.set slot.fd .closed } =
          { s.book with
            live := pre ++ post
            threads := s.book.threads.set slot.tid (fd, true) } := by
        simp [AcceptLoop.book, AcceptLoop.liveSlots, hnext, hclient, hat, List.map_set]
      have hlive' : s.book.live = pre ++ slot :: post := by
        rw [← hlive, ← hat]
        rfl
      rw [hbook]
      simp only [AcceptLoop.closes, AcceptLoop.joins, hat, hrefused, hreaped]
      exact .join hlive' hthread'
  · cases hjoin

end Main

theorem AcceptLoop.reapSlot_book {s s' : AcceptLoop} {fd i kept : Nat} {ended : Bool}
    (h : s.Bounded) (hat : s.main = .reaping fd i kept)
    (hreap : s.reapSlot fd i kept ended = some s') :
    s'.Bounded ∧
      s.book.Step (s.closes (.main (.tryjoin ended))) (s.joins (.main (.tryjoin ended))) s'.book := by
  obtain ⟨hcap, hbound⟩ := h
  rw [hat] at hbound
  obtain ⟨hkept, -, hcount⟩ := hbound
  unfold AcceptLoop.reapSlot at hreap
  split_ifs at hreap with hi hended
  · -- The thread has ended: its slot is passed over.
    subst hended
    obtain ⟨j, hjoin, rfl⟩ := Option.map_eq_some_iff.mp hreap
    have hlive := congrArg (entries s.slots 0 kept ++ ·) (entries_cons s.slots hi)
    obtain ⟨hstep, hc, hp⟩ := AcceptLoop.joinSlot_book hat (.tryjoin true)
      (.reaping fd (i + 1) kept) _ rfl rfl hlive rfl rfl hjoin
    refine ⟨⟨hp ▸ hcap, ?_⟩, hstep⟩
    show kept ≤ i + 1 ∧ i + 1 ≤ j.slotCount ∧ j.slotCount ≤ j.slotCap
    omega
  · -- It has not: its slot moves down to the end of those kept.
    obtain rfl := Bool.eq_false_iff.mpr hended
    obtain rfl := Option.some.inj hreap
    refine ⟨⟨hcap, Nat.succ_le_succ hkept, hi, hcount⟩, AcceptLoop.step_keep hat rfl rfl ?_⟩
    have hlive : entries (Function.update s.slots kept (s.slots i)) 0 (kept + 1) ++
        entries (Function.update s.slots kept (s.slots i)) (i + 1) s.slotCount = s.liveSlots := by
      rw [entries_concat _ (Nat.zero_le kept), Function.update_self,
        entries_update _ _ (.inr le_rfl), entries_update _ _ (.inl (by omega)), List.append_assoc,
        List.singleton_append, ← entries_cons s.slots hi, AcceptLoop.liveSlots, hat]
      rfl
    rw [AcceptLoop.book, AcceptLoop.book, ← hlive, hat]
    rfl

theorem AcceptLoop.created_book {s : AcceptLoop} {fd : Nat} (hat : s.main = .creating fd) :
    s.book.Step (s.closes (.main (.create true))) (s.joins (.main (.create true)))
      (s.created fd).book := by
  have hlive : (s.created fd).liveSlots = s.book.live ++ [⟨s.book.threads.length, fd⟩] := by
    show entries (Function.update s.slots s.slotCount _) 0 (s.slotCount + 1) = _
    rw [entries_concat _ (Nat.zero_le _), Function.update_self, entries_update _ _ (.inr le_rfl)]
    simp only [AcceptLoop.book, AcceptLoop.liveSlots, hat, List.length_map]
    rfl
  have hbook : (s.created fd).book =
      { s.book with
        client := none
        live := s.book.live ++ [⟨s.book.threads.length, fd⟩]
        threads := s.book.threads ++ [(fd, false)] } := by
    rw [← hlive]
    simp [AcceptLoop.book, AcceptLoop.created, MainAt.clientFd]
  simp only [AcceptLoop.closes, AcceptLoop.joins, hat, hbook]
  exact .create (congrArg MainAt.clientFd hat)

theorem AcceptLoop.accepted_book {s : AcceptLoop} (hat : s.main = .accepting) :
    s.book.Step (s.closes (.main .accept)) (s.joins (.main .accept))
      (AcceptLoop.book { s with
        main := .allocating s.fds.length, fds := s.fds ++ [.opened] }) := by
  have hbook : AcceptLoop.book { s with
        main := .allocating s.fds.length, fds := s.fds ++ [.opened] } =
      { s.book with client := some s.book.accepted, accepted := s.book.accepted + 1 } := by
    simp [AcceptLoop.book, AcceptLoop.liveSlots, hat, MainAt.live, MainAt.clientFd]
  simp only [AcceptLoop.closes, AcceptLoop.joins, hat, hbook]
  exact .accept (congrArg MainAt.clientFd hat)

/-- At the end of a compaction the slots that were kept are all there are. -/
theorem MainAt.live_reaped (slots : Nat → ClientSlot) (fd slotCount kept : Nat) :
    (MainAt.reaping fd slotCount kept).live slots slotCount = entries slots 0 kept := by
  show entries slots 0 kept ++ entries slots slotCount slotCount = _
  rw [entries_self, List.append_nil]

/-- `shutdown` on the descriptor of a slot. -/
theorem AcceptLoop.shutdown_book {s : AcceptLoop} {i : Nat} (hat : s.main = .shuttingDown i) :
    s.book.Step (s.closes (.main .shutdown)) (s.joins (.main .shutdown))
      (AcceptLoop.book { s with
        main := .shuttingDown (i + 1)
        fds := s.fds.modify (s.slots i).fd Descriptor.shutdown }) := by
  refine AcceptLoop.step_keep hat rfl rfl ?_
  simp only [AcceptLoop.book, AcceptLoop.liveSlots, hat, List.length_modify]
  rfl

/-- The join of the next slot, after the loop. -/
theorem AcceptLoop.joining_book {s s' : AcceptLoop} {i : Nat} (h : s.Bounded)
    (hat : s.main = .joining i) (hi : i < s.slotCount)
    (heq : (s.joinSlot (s.slots i)).map (fun j => { j with main := .joining (i + 1) }) = some s') :
    s'.Bounded ∧ s.book.Step (s.closes (.main .join)) (s.joins (.main .join)) s'.book := by
  obtain ⟨hcap, hbound⟩ := h
  rw [hat] at hbound
  obtain ⟨-, hcount⟩ := hbound
  obtain ⟨j, hjoin, rfl⟩ := Option.map_eq_some_iff.mp heq
  obtain ⟨hstep, hc, hp⟩ := AcceptLoop.joinSlot_book hat .join (.joining (i + 1)) [] rfl
    (if_pos hi) (entries_cons s.slots hi) rfl rfl hjoin
  refine ⟨⟨hp ▸ hcap, ?_⟩, hstep⟩
  show i + 1 ≤ j.slotCount ∧ j.slotCount ≤ j.slotCap
  omega

/-- **A step of `main`** keeps its counters in order and is a step of the book. -/
theorem AcceptLoop.mainStep_book {s s' : AcceptLoop} {call : MainCall} (h : s.Bounded)
    (hstep : s.mainStep call = some s') :
    s'.Bounded ∧ s.book.Step (s.closes (.main call)) (s.joins (.main call)) s'.book := by
  obtain ⟨hcap, hmain⟩ := id h
  unfold AcceptLoop.mainStep at hstep
  split at hstep
  case h_1 hat =>
    rw [hat] at hmain
    split_ifs at hstep
    · exact Option.some.inj hstep ▸ ⟨⟨hcap, hmain⟩, AcceptLoop.step_move hat rfl rfl rfl rfl⟩
    · exact Option.some.inj hstep ▸ ⟨⟨hcap, hmain⟩, AcceptLoop.step_move hat rfl rfl rfl rfl⟩
  case h_2 hat =>
    rw [hat] at hmain
    exact Option.some.inj hstep ▸ ⟨⟨hcap, hmain⟩, AcceptLoop.accepted_book hat⟩
  case h_3 hat =>
    rw [hat] at hmain
    exact Option.some.inj hstep ▸ ⟨⟨hcap, hmain⟩, AcceptLoop.step_move hat rfl rfl rfl rfl⟩
  case h_4 hat =>
    rw [hat] at hmain
    exact Option.some.inj hstep ▸ ⟨⟨hcap, hmain⟩, AcceptLoop.step_move hat rfl rfl rfl rfl⟩
  case h_5 fd hat =>
    rw [hat] at hmain
    split_ifs at hstep with hfull
    · refine Option.some.inj hstep ▸ ⟨⟨hcap, le_rfl, Nat.zero_le _, hmain⟩, ?_⟩
      refine AcceptLoop.step_move hat rfl rfl ?_ rfl
      exact congrArg (· ++ _) (entries_self s.slots 0)
    · exact Option.some.inj hstep ▸ ⟨⟨hcap, Nat.lt_of_le_of_ne hmain hfull⟩,
        AcceptLoop.step_move hat rfl rfl rfl rfl⟩
  case h_6 fd hat =>
    rw [hat] at hmain
    exact Option.some.inj hstep ▸ ⟨⟨hcap, hmain⟩, AcceptLoop.giveUp_book hat rfl rfl rfl rfl⟩
  case h_7 hat => exact AcceptLoop.reapSlot_book h hat hstep
  case h_8 fd i kept hat =>
    rw [hat] at hmain
    obtain ⟨hkept, hi, hcount⟩ := hmain
    split_ifs at hstep with hlt hfull
    · -- No slot was free.
      obtain rfl : i = s.slotCount := by omega
      exact Option.some.inj hstep ▸ ⟨⟨hcap, hfull⟩,
        AcceptLoop.step_move hat rfl rfl (MainAt.live_reaped s.slots fd _ kept).symm rfl⟩
    · obtain rfl : i = s.slotCount := by omega
      exact Option.some.inj hstep ▸ ⟨⟨hcap, Nat.lt_of_le_of_ne (hkept.trans hcount) hfull⟩,
        AcceptLoop.step_move hat rfl rfl (MainAt.live_reaped s.slots fd _ kept).symm rfl⟩
  case h_9 fd hat =>
    rw [hat] at hmain
    have hmain : s.slotCount = s.slotCap := hmain
    refine Option.some.inj hstep ▸ ⟨⟨?_, ?_⟩, AcceptLoop.step_move hat rfl rfl rfl rfl⟩
    · show 0 < 2 * s.slotCap
      omega
    · show s.slotCount < 2 * s.slotCap
      omega
  case h_10 fd hat =>
    rw [hat] at hmain
    have hmain : s.slotCount = s.slotCap := hmain
    exact Option.some.inj hstep ▸ ⟨⟨hcap, hmain.le⟩, AcceptLoop.giveUp_book hat rfl rfl rfl rfl⟩
  case h_11 fd hat =>
    rw [hat] at hmain
    exact Option.some.inj hstep ▸ ⟨⟨hcap, hmain⟩, AcceptLoop.created_book hat⟩
  case h_12 fd hat =>
    rw [hat] at hmain
    have hmain : s.slotCount < s.slotCap := hmain
    exact Option.some.inj hstep ▸ ⟨⟨hcap, hmain.le⟩, AcceptLoop.giveUp_book hat rfl rfl rfl rfl⟩
  case h_13 i hat =>
    rw [hat] at hmain
    split_ifs at hstep
    · exact Option.some.inj hstep ▸ ⟨⟨hcap, hmain⟩, AcceptLoop.shutdown_book hat⟩
    · exact Option.some.inj hstep ▸ ⟨⟨hcap, Nat.zero_le _, hmain⟩,
        AcceptLoop.step_move hat rfl rfl rfl rfl⟩
  case h_14 i hat =>
    rw [hat] at hmain
    obtain ⟨hi, hcount⟩ := hmain
    split_ifs at hstep with hlt
    · exact AcceptLoop.joining_book h hat hlt hstep
    · obtain rfl : i = s.slotCount := by omega
      exact Option.some.inj hstep ▸ ⟨⟨hcap, hcount⟩, AcceptLoop.step_move hat rfl (if_neg hlt)
        (entries_self s.slots _).symm rfl⟩
  case h_15 => cases hstep

/-- A handler's turn joins nobody, and `main`'s table is out of its reach. -/
theorem AcceptLoop.handlerStep_book {s s' : AcceptLoop} {tid : Nat} {turn : HandlerTurn}
    (hstep : s.handlerStep tid turn = some s') :
    s'.book = s.book ∧ s'.main = s.main ∧ s'.slotCount = s.slotCount ∧ s'.slotCap = s.slotCap := by
  simp only [AcceptLoop.handlerStep, Option.bind_eq_bind, Option.bind_eq_some_iff] at hstep
  obtain ⟨t, ht, next, hnext, heq⟩ := hstep
  obtain rfl := Option.some.inj heq
  refine ⟨?_, rfl, rfl, rfl⟩
  have hold : decide (t.status = .joined) = false := by
    cases hstatus : t.status with
    | joined =>
        rw [hstatus] at hnext
        cases turn <;> cases hnext
    | _ => rfl
  have hnew : decide ((if s.goesOn turn then next else .left) = .joined) = false := by
    have hne : next ≠ .joined := by
      rintro rfl
      cases hstatus : t.status <;> rw [hstatus] at hnext <;> cases turn <;> cases hnext
    split <;> simp [hne]
  have hthreads : (s.threads.set tid ⟨t.fd, if s.goesOn turn then next else .left⟩).map
        (fun t => (t.fd, decide (t.status = .joined))) =
      s.threads.map fun t => (t.fd, decide (t.status = .joined)) := by
    apply List.ext_getElem?
    intro i
    by_cases hi : tid = i
    · subst hi
      rw [List.getElem?_map, List.getElem?_map, ht,
        List.getElem?_set_self (List.getElem?_eq_some_iff.mp ht).1]
      simp only [Option.map_some, hold, hnew]
    · rw [List.getElem?_map, List.getElem?_map, List.getElem?_set_ne hi]
  simp only [AcceptLoop.book, AcceptLoop.liveSlots, hthreads]

/-- **A step of the loop is a step of the book.** -/
theorem LoopStep.book {s s' : AcceptLoop} {event : LoopEvent} (h : s.Bounded)
    (hstep : LoopStep s event s') :
    s'.Bounded ∧ s.book.Step (s.closes event) (s.joins event) s'.book := by
  cases event with
  | signal => exact Option.some.inj hstep ▸ ⟨h, .keep _⟩
  | main call => exact AcceptLoop.mainStep_book h hstep
  | handler tid turn =>
      obtain ⟨hbook, hmain, hcount, hcap⟩ := AcceptLoop.handlerStep_book hstep
      refine ⟨?_, hbook ▸ .keep _⟩
      rw [AcceptLoop.Bounded, hmain, hcount, hcap]
      exact h

/-! ## Whole runs -/

/-- A step of the loop, with its closes and joins written down. -/
def LedgerStep (l : Ledger AcceptLoop) (event : LoopEvent) (l' : Ledger AcceptLoop) : Prop :=
  LoopStep l.state event l'.state ∧ l'.closed = l.closed ++ l.state.closes event ∧
    l'.joined = l.joined ++ l.state.joins event

abbrev LedgerRun := Run LedgerStep

def Ledger.start (server : PageServer) : Ledger AcceptLoop := ⟨AcceptLoop.start server, [], []⟩

/-- Every run of the loop can be written down. -/
theorem LoopRun.ledger {s s' : AcceptLoop} {events : List LoopEvent} (hrun : LoopRun s events s') :
    ∀ closed joined, ∃ closed' joined', LedgerRun ⟨s, closed, joined⟩ events ⟨s', closed', joined'⟩ := by
  induction hrun with
  | nil s => exact fun closed joined => ⟨closed, joined, .nil _⟩
  | cons hstep _ ih =>
      intro closed joined
      obtain ⟨closed', joined', hrest⟩ := ih _ _
      exact ⟨closed', joined', .cons ⟨hstep, rfl, rfl⟩ hrest⟩

theorem LedgerRun.kept {server : PageServer} {events : List LoopEvent} {l : Ledger AcceptLoop}
    (hrun : LedgerRun (Ledger.start server) events l) :
    l.state.Bounded ∧ SlotBook.Kept ⟨l.state.book, l.closed, l.joined⟩ := by
  refine hrun.invariant (fun l => l.state.Bounded ∧
    SlotBook.Kept ⟨l.state.book, l.closed, l.joined⟩) ?_ ⟨⟨Nat.succ_pos 255, Nat.zero_le _⟩, .start⟩
  rintro l event l' ⟨hbound, hkept⟩ ⟨hstep, hclosed, hjoined⟩
  obtain ⟨hbound', hbook⟩ := hstep.book hbound
  rw [hclosed, hjoined]
  exact ⟨hbound', hkept.step hbook⟩

theorem AcceptLoop.Bounded.count_le {s : AcceptLoop} (h : s.Bounded) : s.slotCount ≤ s.slotCap := by
  obtain ⟨-, hmain⟩ := h
  revert hmain
  cases s.main with
  | reaping fd i kept => exact fun h => h.2.2
  | growing fd => exact fun h => Nat.le_of_eq h
  | creating fd => exact fun h => Nat.le_of_lt h
  | joining i => exact fun h => h.2
  | _ => exact id

end Dsm.Server
