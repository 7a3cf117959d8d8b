import Dsm.Paging.Clients
import Mathlib.Data.List.Induction

/-!
# Traces

What several clients did to one server, read off the trace of their events: what the content of a
page is, what the server had of it and when a client fetched it last. `TraceOk` says event by event
what is right about a trace, which is the form in which it is kept turn by turn; `Safe` says what
that means for the callers (`TraceOk.safe`).
-/

namespace Dsm.Paging

open DsmContext Dsm.Lib

variable {κ : Type} [DecidableEq κ]

/-! ## Reading a trace -/

/-- The pages with all writes of the trace in them. -/
def current (content : Nat → Page) (trace : List (Event κ)) : Nat → Page :=
  trace.foldl (fun mem e => match e with
    | .write _ p data => Function.update mem p data
    | _ => mem) content

/-- The content of page `p` that an event puts on the server. -/
def Event.putOf (p : Nat) : Event κ → Option Page
  | .put _ q data => if q = p then some data else none
  | _ => none

/-- What the server had of page `p`, first to last: its initial content, then what was put. -/
def history (content : Nat → Page) (trace : List (Event κ)) (p : Nat) : List Page :=
  content p :: trace.filterMap (Event.putOf p)

def Event.isGet (k : κ) (p : Nat) : Event κ → Bool
  | .get j q _ => j = k ∧ q = p
  | _ => false

/-- The trace up to the last fetch of page `p` by client `k`. -/
def upToLastGet (k : κ) (p : Nat) (trace : List (Event κ)) : List (Event κ) :=
  (trace.reverse.dropWhile fun e => !e.isGet k p).tail.reverse

section Trace

omit [DecidableEq κ] in
theorem current_snoc (content : Nat → Page) (trace : List (Event κ)) (e : Event κ) :
    current content (trace ++ [e]) =
      match e with
      | .write _ p data => Function.update (current content trace) p data
      | _ => current content trace := by
  rw [current, List.foldl_append]
  rfl

omit [DecidableEq κ] in
theorem history_snoc (content : Nat → Page) (trace : List (Event κ)) (e : Event κ) (p : Nat) :
    history content (trace ++ [e]) p = history content trace p ++ (e.putOf p).toList := by
  rw [history, List.filterMap_append, history, List.cons_append]
  cases h : e.putOf p <;> simp [h]

theorem upToLastGet_snoc (k : κ) (p : Nat) (trace : List (Event κ)) (e : Event κ) :
    upToLastGet k p (trace ++ [e]) = if e.isGet k p then trace else upToLastGet k p trace := by
  rw [upToLastGet, List.reverse_append, List.reverse_singleton, List.singleton_append,
    List.dropWhile_cons]
  cases h : e.isGet k p <;> simp [upToLastGet]

theorem upToLastGet_isPrefix (k : κ) (p : Nat) (trace : List (Event κ)) :
    upToLastGet k p trace <+: trace := by
  rw [upToLastGet, ← List.reverse_suffix, List.reverse_reverse]
  exact (List.tail_suffix _).trans (List.dropWhile_suffix _)

/-- A client's last fetch never moves back. -/
theorem upToLastGet_mono (k : κ) (p : Nat) {pre trace : List (Event κ)} (h : pre <+: trace) :
    upToLastGet k p pre <+: upToLastGet k p trace := by
  obtain ⟨post, rfl⟩ := h
  induction post using List.reverseRecOn with
  | nil => rw [List.append_nil]
  | append_singleton post e ih =>
      rw [← List.append_assoc, upToLastGet_snoc]
      split
      · exact (upToLastGet_isPrefix k p pre).trans (List.prefix_append pre post)
      · exact ih

omit [DecidableEq κ] in
theorem history_mono (content : Nat → Page) {pre trace : List (Event κ)} (h : pre <+: trace)
    (p : Nat) : history content pre p <+: history content trace p := by
  obtain ⟨post, rfl⟩ := h
  rw [history, history, List.filterMap_append, ← List.cons_append]
  exact List.prefix_append _ _

omit [DecidableEq κ] in
/-- The last content of the history at some moment stays at its place in the history. -/
theorem history_index {content : Nat → Page} {pre trace : List (Event κ)} (h : pre <+: trace)
    {p : Nat} {data : Page} (hlast : (history content pre p).getLast? = some data) :
    (history content trace p)[(history content pre p).length - 1]? = some data := by
  obtain ⟨rest, hrest⟩ := history_mono content h p
  have hlt : (history content pre p).length - 1 < (history content pre p).length :=
    Nat.sub_lt (Nat.succ_pos _) Nat.one_pos
  rw [← hrest, List.getElem?_append_left hlt, ← List.getLast?_eq_getElem?]
  exact hlast

omit [DecidableEq κ] in
theorem mem_history {content : Nat → Page} {trace : List (Event κ)} {p : Nat} {data : Page}
    (h : data ∈ history content trace p) : data = content p ∨ ∃ w, .put w p data ∈ trace := by
  rcases List.mem_cons.mp h with rfl | hput
  · exact .inl rfl
  · obtain ⟨e, he, hdata⟩ := List.mem_filterMap.mp hput
    cases e with
    | put w q d =>
        simp only [Event.putOf] at hdata
        split at hdata
        · next hq =>
          subst hq
          obtain rfl := Option.some.inj hdata
          exact .inr ⟨w, he⟩
        · cases hdata
    | _ => cases hdata

end Trace

/-! ## What the trace of a safe run looks like -/

/-- What is right about an event that happens after `pre`. A PUT comes from the writer of the page
and carries its current content; a GET is answered with what was put last; the writer reads the
current content, anybody else what it fetched last; only the writer writes. -/
def EventOk (writer : Nat → Option κ) (content : Nat → Page) (pre : List (Event κ)) :
    Event κ → Prop
  | .put k p data => writer p = some k ∧ data = current content pre p
  | .get _ p data => (history content pre p).getLast? = some data
  | .read k p data =>
      (writer p = some k → data = current content pre p) ∧
      (writer p ≠ some k → (history content (upToLastGet k p pre) p).getLast? = some data)
  | .write k p _ => writer p = some k

def TraceOk (writer : Nat → Option κ) (content : Nat → Page) (trace : List (Event κ)) : Prop :=
  ∀ pre e, pre ++ [e] <+: trace → EventOk writer content pre e

variable {writer : Nat → Option κ} {content : Nat → Page}

theorem TraceOk.snoc {trace : List (Event κ)} {e : Event κ} (h : TraceOk writer content trace)
    (he : EventOk writer content trace e) : TraceOk writer content (trace ++ [e]) := by
  intro pre e' hpre
  rcases List.prefix_concat_iff.mp hpre with heq | hpre
  · obtain ⟨rfl, rfl⟩ := List.append_singleton_inj.mp heq
    exact he
  · exact h pre e' hpre

/-- What client `k` fetched last of page `p`. -/
def LastFetched (content : Nat → Page) (trace : List (Event κ)) (k : κ) (p : Nat) (data : Page) :
    Prop :=
  (history content (upToLastGet k p trace) p).getLast? = some data

/-- The server has what was put last. -/
def StoreOk (content : Nat → Page) (trace : List (Event κ)) (store : Nat → Page) : Prop :=
  ∀ p, (history content trace p).getLast? = some (store p)

omit [DecidableEq κ] in
/-- What the server has after some more events. -/
theorem StoreOk.after {trace events : List (Event κ)} {store store' : Nat → Page}
    (h : StoreOk content trace store) (h' : StoreOk content (trace ++ events) store') (p : Nat) :
    store' p = ((events.filterMap (Event.putOf p)).getLast?).getD (store p) := by
  have hlast := h' p
  rw [history, List.filterMap_append, ← List.cons_append, ← history, List.getLast?_append,
    h p] at hlast
  cases hfilter : (events.filterMap (Event.putOf p)).getLast? with
  | none =>
      rw [hfilter] at hlast
      exact (Option.some.inj hlast).symm
  | some data =>
      rw [hfilter] at hlast
      exact (Option.some.inj hlast).symm

theorem lastFetched_snoc {trace : List (Event κ)} {e : Event κ} {k : κ} {p : Nat}
    (h : e.isGet k p = false) {data : Page} :
    LastFetched content (trace ++ [e]) k p data ↔ LastFetched content trace k p data := by
  rw [LastFetched, upToLastGet_snoc, h, if_neg Bool.false_ne_true, LastFetched]

theorem lastFetched_get {trace : List (Event κ)} {store : Nat → Page}
    (hstore : StoreOk content trace store) (k : κ) (p : Nat) :
    LastFetched content (trace ++ [.get k p (store p)]) k p (store p) := by
  rw [LastFetched, upToLastGet_snoc, if_pos (by simp [Event.isGet])]
  exact hstore p

/-- A trace that is right, and the server after it. -/
structure Recorded (writer : Nat → Option κ) (content : Nat → Page) (trace : List (Event κ))
    (store : Nat → Page) : Prop where
  trace_ok : TraceOk writer content trace
  store_ok : StoreOk content trace store

theorem Recorded.snoc {trace : List (Event κ)} {store : Nat → Page}
    (h : Recorded writer content trace store) {e : Event κ} (he : EventOk writer content trace e)
    (hput : ∀ p, e.putOf p = none) : Recorded writer content (trace ++ [e]) store := by
  refine ⟨h.trace_ok.snoc he, fun p => ?_⟩
  rw [history_snoc, hput, Option.toList_none, List.append_nil]
  exact h.store_ok p

/-- The writer of a page puts its content back. -/
theorem Recorded.put {trace : List (Event κ)} {store : Nat → Page}
    (h : Recorded writer content trace store) {k : κ} {q : Nat} (hown : writer q = some k) :
    Recorded writer content (trace ++ [.put k q (current content trace q)])
      (Function.update store q (current content trace q)) := by
  refine ⟨h.trace_ok.snoc ⟨hown, rfl⟩, fun p => ?_⟩
  rw [history_snoc]
  by_cases hpq : q = p
  · subst hpq
    simp [Event.putOf]
  · simp only [Event.putOf, if_neg hpq, Option.toList_none, List.append_nil]
    rw [Function.update_of_ne (Ne.symm hpq)]
    exact h.store_ok p

def Event.client : Event κ → κ
  | .put k _ _ | .get k _ _ | .read k _ _ | .write k _ _ => k

/-- Events of another client leave the content, the server's copy and the last fetch of a client's
own pages alone. -/
theorem others_keep {k j : κ} (hne : j ≠ k) (trace : List (Event κ)) (events : List (Event κ))
    (hby : ∀ e ∈ events, e.client = k) (hok : TraceOk writer content (trace ++ events)) :
    (∀ p, writer p = some j → current content (trace ++ events) p = current content trace p ∧
      history content (trace ++ events) p = history content trace p) ∧
    ∀ p, upToLastGet j p (trace ++ events) = upToLastGet j p trace := by
  induction events using List.reverseRecOn with
  | nil => simp
  | append_singleton events e ih =>
      have hbefore : TraceOk writer content (trace ++ events) := fun pre e' hpre =>
        hok pre e' (hpre.trans (by rw [← List.append_assoc]; exact List.prefix_append _ _))
      obtain ⟨hown, hget⟩ := ih (fun e' he' => hby e' (List.mem_append_left _ he')) hbefore
      have hek : e.client = k := hby e (List.mem_append_right _ (List.mem_singleton_self e))
      have heok := hok (trace ++ events) e (by rw [List.append_assoc])
      rw [← List.append_assoc]
      refine ⟨fun p hp => ?_, fun p => ?_⟩
      · obtain ⟨hcur, hhist⟩ := hown p hp
        rw [current_snoc, history_snoc, ← hcur, ← hhist]
        cases e with
        | get | read => exact ⟨rfl, by simp [Event.putOf]⟩
        | put i q data =>
            obtain rfl : i = k := hek
            have hqp : q ≠ p := by
              rintro rfl
              exact hne (Option.some.inj (hp.symm.trans heok.1))
            exact ⟨rfl, by simp [Event.putOf, hqp]⟩
        | write i q data =>
            obtain rfl : i = k := hek
            have hqp : p ≠ q := by
              rintro rfl
              exact hne (Option.some.inj (hp.symm.trans heok))
            exact ⟨Function.update_of_ne hqp _ _, by simp [Event.putOf]⟩
      · rw [upToLastGet_snoc, if_neg, hget]
        cases e with
        | get i q data =>
            obtain rfl : i = k := hek
            simp [Event.isGet, hne.symm]
        | _ => simp [Event.isGet]

/-! ## What it means for the callers -/

/-- The server had `data` of page `p` no later than `data'`. -/
def NoOlder (content : Nat → Page) (trace : List (Event κ)) (p : Nat) (data data' : Page) : Prop :=
  ∃ i j : Nat, i ≤ j ∧ (history content trace p)[i]? = some data ∧
    (history content trace p)[j]? = some data'

/-- What the clients of a safe run see and send. -/
structure Safe (writer : Nat → Option κ) (content : Nat → Page) (trace : List (Event κ)) :
    Prop where
  /-- The writer reads its own latest writes. -/
  own_read : ∀ pre k p data, pre ++ [.read k p data] <+: trace → writer p = some k →
    data = current content pre p
  /-- A PUT comes from the writer and carries the current content. -/
  put : ∀ pre k p data, pre ++ [.put k p data] <+: trace →
    writer p = some k ∧ data = current content pre p
  /-- A fetch brings what was put last. -/
  fetch : ∀ pre k p data, pre ++ [.get k p data] <+: trace →
    (history content pre p).getLast? = some data
  /-- Who is not the writer reads what it fetched last, -/
  last_fetch : ∀ pre k p data, pre ++ [.read k p data] <+: trace → writer p ≠ some k →
    LastFetched content pre k p data
  /-- which is the initial content or something the writer has put back. -/
  put_back : ∀ pre k p data, pre ++ [.read k p data] <+: trace → writer p ≠ some k →
    data = content p ∨ ∃ w, writer p = some w ∧ .put w p data ∈ pre
  /-- A later fetch never brings an older content, -/
  fetch_forward : ∀ pre mid k p data data', pre ++ [.get k p data] <+: mid →
    mid ++ [.get k p data'] <+: trace → NoOlder content trace p data data'
  /-- and a later read never shows one. -/
  read_forward : ∀ pre mid k p data data', pre ++ [.read k p data] <+: mid →
    mid ++ [.read k p data'] <+: trace → writer p ≠ some k → NoOlder content trace p data data'

omit [DecidableEq κ] in
/-- What was put last at some moment is no older than what was put last before. -/
theorem noOlder_of_getLast {content : Nat → Page} {pre mid trace : List (Event κ)}
    (hpre : pre <+: mid) (hmid : mid <+: trace) {p : Nat} {data data' : Page}
    (h : (history content pre p).getLast? = some data)
    (h' : (history content mid p).getLast? = some data') : NoOlder content trace p data data' :=
  ⟨_, _, Nat.sub_le_sub_right (history_mono content hpre p).length_le 1,
    history_index (hpre.trans hmid) h, history_index hmid h'⟩

theorem TraceOk.safe {trace : List (Event κ)} (h : TraceOk writer content trace) :
    Safe writer content trace where
  own_read pre k p data hpre hown := (h pre _ hpre).1 hown
  put pre k p data hpre := h pre _ hpre
  fetch pre k p data hpre := h pre _ hpre
  last_fetch pre k p data hpre hown := (h pre _ hpre).2 hown
  put_back := by
    intro pre k p data hpre hown
    have hlast := (h pre _ hpre).2 hown
    rcases mem_history (List.mem_of_getLast? hlast) with heq | ⟨w, hw⟩
    · exact .inl heq
    · have hmem : .put w p data ∈ pre := (upToLastGet_isPrefix k p pre).subset hw
      obtain ⟨a, b, rfl⟩ := List.append_of_mem hmem
      have hput : a ++ [.put w p data] <+: trace := by
        refine List.IsPrefix.trans ?_ hpre
        exact ⟨b ++ [.read k p data], by simp⟩
      exact .inr ⟨w, (h a _ hput).1, hmem⟩
  fetch_forward := by
    intro pre mid k p data data' hpre hmid
    have hmid' := (List.prefix_append mid _).trans hmid
    exact noOlder_of_getLast ((List.prefix_append pre _).trans hpre) hmid'
      (h pre _ (hpre.trans hmid')) (h mid _ hmid)
  read_forward := by
    intro pre mid k p data data' hpre hmid hown
    have hmid' := (List.prefix_append mid _).trans hmid
    exact noOlder_of_getLast (upToLastGet_mono k p ((List.prefix_append pre _).trans hpre))
      ((upToLastGet_isPrefix k p mid).trans hmid') ((h pre _ (hpre.trans hmid')).2 hown)
      ((h mid _ hmid).2 hown)

end Dsm.Paging
