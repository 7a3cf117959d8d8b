import Dsm.Paging.Wired

/-!
# Partitioned writes, end to end

The page caches of `dsm_paging.c` over the RPCs of `dsm_common.c` and the handler threads of
`dsm_server.c`, with every byte of it interleaved (`Paging/Wired.lean`). If each page is written by
one client only, that client has its pages as if it were alone, and any other reads pages of which
each byte is one that the writer has put (`wired_partitioned_writes_safe`).

A client is followed through a private trace, in which a page it fetches of somebody else has just
been written and put by a client `false`. On this trace the client's own invariant
(`Client.Ok`) is that of `Paging/Partition.lean`.
-/

namespace Dsm.Paging

open DsmContext Dsm.Lib Dsm.Server
open Dsm.Rpc (Threads ThreadsStep ThreadsRun RpcCall Bytes pageOfBytes Action Conn Returned shownPage
  serveAll)

variable {ι : Type} [DecidableEq ι] {writer : Nat → Option ι} {content : Nat → Page} {i : ι}
  {trace : List (Event ι)} {τ : List (Event Bool)}

/-! ## What is right about a trace -/

/-- Every byte of `data` is one of the initial page or of a page that was put. -/
def Mixed (content : Nat → Page) (trace : List (Event ι)) (p : Nat) (data : Page) : Prop :=
  ∀ j, data.byte j = (content p).byte j ∨
    ∃ k d, Event.put k p d ∈ trace ∧ data.byte j = d.byte j

/-- What is right about an event that happens after `pre`. Of its own pages a client sends and reads
the current content and fetches what it has sent last; other pages come in bytes that were sent. -/
def WireOk (writer : Nat → Option ι) (content : Nat → Page) (pre : List (Event ι)) : Event ι → Prop
  | .put k p data => writer p = some k ∧ data = current content pre p
  | .get k p data =>
      (writer p = some k → (history content pre p).getLast? = some data) ∧
      (writer p ≠ some k → Mixed content pre p data)
  | .read k p data =>
      (writer p = some k → data = current content pre p) ∧
      (writer p ≠ some k → Mixed content pre p data)
  | .write k p _ => writer p = some k

def WireTrace (writer : Nat → Option ι) (content : Nat → Page) (trace : List (Event ι)) : Prop :=
  ∀ pre e, pre ++ [e] <+: trace → WireOk writer content pre e

omit [DecidableEq ι] in
theorem Mixed.mono {p : Nat} {data : Page} (h : Mixed content trace p data)
    (events : List (Event ι)) : Mixed content (trace ++ events) p data := by
  intro j
  rcases h j with hj | ⟨k, d, hput, hj⟩
  · exact .inl hj
  · exact .inr ⟨k, d, List.mem_append_left _ hput, hj⟩

omit [DecidableEq ι] in
theorem WireTrace.snoc {e : Event ι} (h : WireTrace writer content trace)
    (he : WireOk writer content trace e) : WireTrace writer content (trace ++ [e]) := by
  intro pre e' hpre
  rcases List.prefix_concat_iff.mp hpre with heq | hpre
  · obtain ⟨rfl, rfl⟩ := List.append_singleton_inj.mp heq
    exact he
  · exact h pre e' hpre

/-! ## The private trace of a client -/

/-- The writer of a page as the client sees it: itself, or somebody else. -/
def mine (writer : Nat → Option ι) (i : ι) (p : Nat) : Option Bool :=
  some (decide (writer p = some i))

theorem mine_eq_true {p : Nat} : mine writer i p = some true ↔ writer p = some i := by
  simp [mine]

theorem mine_eq_false {p : Nat} : mine writer i p = some false ↔ writer p ≠ some i := by
  simp [mine]

/-- The private trace agrees with the trace of all clients on the client's own pages, and what it has
of other pages is made of bytes that were put. -/
structure Corr (writer : Nat → Option ι) (content : Nat → Page) (i : ι) (trace : List (Event ι))
    (τ : List (Event Bool)) : Prop where
  current_eq : ∀ p, writer p = some i → current content τ p = current content trace p
  history_eq : ∀ p, writer p = some i → history content τ p = history content trace p
  mixed : ∀ p data, Event.put false p data ∈ τ → Mixed content trace p data

omit [DecidableEq ι] in
/-- Events that neither write nor put a page of the client. -/
theorem Corr.others (h : Corr writer content i trace τ) {events : List (Event ι)}
    (hwrite : ∀ k p data, .write k p data ∈ events → writer p ≠ some i)
    (hput : ∀ k p data, .put k p data ∈ events → writer p ≠ some i) :
    Corr writer content i (trace ++ events) τ := by
  induction events using List.reverseRecOn with
  | nil =>
      rw [List.append_nil]
      exact h
  | append_singleton events e ih =>
      have hbefore := ih (fun k p data hmem => hwrite k p data (List.mem_append_left _ hmem))
        fun k p data hmem => hput k p data (List.mem_append_left _ hmem)
      have he : e ∈ events ++ [e] := List.mem_append_right _ (List.mem_singleton_self e)
      rw [← List.append_assoc]
      refine ⟨fun p hp => ?_, fun p hp => ?_, fun p data hmem => (hbefore.mixed p data hmem).mono [e]⟩
      · rw [hbefore.current_eq p hp, current_snoc]
        cases e with
        | write k q data =>
            have hne : p ≠ q := fun heq => hwrite k q data he (heq ▸ hp)
            exact (Function.update_of_ne hne ..).symm
        | _ => rfl
      · rw [hbefore.history_eq p hp, history_snoc]
        cases e with
        | put k q data =>
            have hne : q ≠ p := fun heq => hput k q data he (heq ▸ hp)
            simp [Event.putOf, hne]
        | _ => simp [Event.putOf]

omit [DecidableEq ι] in
theorem Event.putOf_relabel (k : ι) (p : Nat) (e : Event Bool) :
    (e.relabel k).putOf p = e.putOf p := by
  cases e <;> rfl

omit [DecidableEq ι] in
/-- An event of the client itself. -/
theorem Corr.snoc (h : Corr writer content i trace τ) {e : Event Bool} (he : e.client = true) :
    Corr writer content i (trace ++ [e.relabel i]) (τ ++ [e]) := by
  refine ⟨fun p hp => ?_, fun p hp => ?_, fun p data hmem => ?_⟩
  · rw [current_snoc, current_snoc]
    cases e with
    | write k q data =>
        show Function.update (Paging.current content τ) q data p =
          Function.update (Paging.current content trace) q data p
        by_cases hq : p = q
        · subst hq
          rw [Function.update_self, Function.update_self]
        · rw [Function.update_of_ne hq, Function.update_of_ne hq]
          exact h.current_eq p hp
    | _ => exact h.current_eq p hp
  · rw [history_snoc, history_snoc, Event.putOf_relabel, h.history_eq p hp]
  · rcases List.mem_append.mp hmem with hmem | hmem
    · exact (h.mixed p data hmem).mono _
    · obtain rfl := List.mem_singleton.mp hmem
      cases he

/-- What the private server had of a foreign page. -/
theorem Corr.foreign (h : Corr writer content i trace τ) (hτ : TraceOk (mine writer i) content τ)
    {p : Nat} (hp : writer p ≠ some i) {data : Page} (hdata : data ∈ history content τ p) :
    Mixed content trace p data := by
  rcases mem_history hdata with rfl | ⟨k, hput⟩
  · exact fun j => .inl rfl
  · cases k with
    | false => exact h.mixed p data hput
    | true =>
        obtain ⟨pre, post, rfl⟩ := List.append_of_mem hput
        have hok := hτ pre (.put true p data) ⟨post, by simp⟩
        exact absurd (mine_eq_true.mp hok.1) hp

/-- What is right about an event on the private trace is right on that of all clients. -/
theorem Corr.event (h : Corr writer content i trace τ) (hτ : TraceOk (mine writer i) content τ)
    {e : Event Bool} (hclient : e.client = true) (he : EventOk (mine writer i) content τ e) :
    WireOk writer content trace (e.relabel i) := by
  cases e with
  | put k p data =>
      obtain rfl : k = true := hclient
      have hp := mine_eq_true.mp he.1
      exact ⟨hp, he.2.trans (h.current_eq p hp)⟩
  | get k p data =>
      obtain rfl : k = true := hclient
      refine ⟨fun hp => ?_, fun hp => h.foreign hτ hp (List.mem_of_getLast? he)⟩
      rw [← h.history_eq p hp]
      exact he
  | read k p data =>
      obtain rfl : k = true := hclient
      refine ⟨fun hp => (he.1 (mine_eq_true.mpr hp)).trans (h.current_eq p hp), fun hp => ?_⟩
      have hlast := he.2 fun hmine => hp (mine_eq_true.mp hmine)
      exact h.foreign hτ hp ((history_mono content (upToLastGet_isPrefix true p τ) p).subset
        (List.mem_of_getLast? hlast))
  | write k p data =>
      obtain rfl : k = true := hclient
      exact mine_eq_true.mp he

/-- The events of a turn. -/
theorem Corr.append {events : List (Event Bool)} (h : Corr writer content i trace τ)
    (htrace : WireTrace writer content trace)
    (hτ : TraceOk (mine writer i) content (τ ++ events)) (hby : ∀ e ∈ events, e.client = true) :
    Corr writer content i (trace ++ events.map (Event.relabel i)) (τ ++ events) ∧
      WireTrace writer content (trace ++ events.map (Event.relabel i)) := by
  induction events using List.reverseRecOn with
  | nil => simpa using ⟨h, htrace⟩
  | append_singleton events e ih =>
      have hbefore : TraceOk (mine writer i) content (τ ++ events) := fun pre e' hpre =>
        hτ pre e' (hpre.trans (by rw [← List.append_assoc]; exact List.prefix_append _ _))
      obtain ⟨hcorr, hwire⟩ := ih hbefore fun e' he' => hby e' (List.mem_append_left _ he')
      have hclient := hby e (List.mem_append_right _ (List.mem_singleton_self e))
      have he := hτ (τ ++ events) e (by rw [List.append_assoc])
      rw [List.map_append, ← List.append_assoc, ← List.append_assoc]
      exact ⟨hcorr.snoc hclient, hwire.snoc (hcorr.event hbefore hclient he)⟩

/-! ## One client -/

variable {n : Nat} {c c' : Client} {σ : Nat → Page}

/-- The client keeps its invariant on a private trace that agrees with that of all clients. -/
structure Follows (writer : Nat → Option ι) (content : Nat → Page) (i : ι) (n : Nat) (c : Client)
    (trace : List (Event ι)) (τ : List (Event Bool)) (σ : Nat → Page) : Prop where
  client : c.Ok (mine writer i) content true n τ σ
  recorded : Recorded (mine writer i) content τ σ
  corr : Corr writer content i trace τ

/-- Of a page of its own the client gets what the private server has, of another page bytes that were
put. -/
def Arrives (writer : Nat → Option ι) (content : Nat → Page) (i : ι) (trace : List (Event ι))
    (σ : Nat → Page) (p : Nat) (page : Page) : Prop :=
  (writer p = some i → page = σ p) ∧ (writer p ≠ some i → Mixed content trace p page)

/-- On the private trace somebody has put a foreign page just before it arrives. -/
theorem Follows.foreign (h : Follows writer content i n c trace τ σ) {p : Nat}
    (hp : writer p ≠ some i) {page : Page} (hpage : Mixed content trace p page) :
    Follows writer content i n c trace (τ ++ [.write false p page] ++ [.put false p page])
      (Function.update σ p page) := by
  have hmine : mine writer i p = some false := mine_eq_false.mpr hp
  have hwrite : Recorded (mine writer i) content (τ ++ [.write false p page]) σ :=
    h.recorded.snoc hmine fun _ => rfl
  have hcur : current content (τ ++ [.write false p page]) p = page := by
    rw [current_snoc]
    exact Function.update_self ..
  have hput := hwrite.put hmine
  rw [hcur] at hput
  refine ⟨?_, hput, fun q hq => ?_, fun q hq => ?_, fun q data hmem => ?_⟩
  · rw [List.append_assoc] at hput ⊢
    refine h.client.others (k := false) (by decide) (fun e he => ?_) h.recorded hput
    rcases List.mem_cons.mp he with rfl | he
    · rfl
    · obtain rfl := List.mem_singleton.mp he
      rfl
  · have hne : q ≠ p := fun heq => hp (heq ▸ hq)
    rw [current_snoc, current_snoc, ← h.corr.current_eq q hq]
    exact Function.update_of_ne hne ..
  · have hne : p ≠ q := fun heq => hp (heq ▸ hq)
    rw [history_snoc, history_snoc, ← h.corr.history_eq q hq]
    simp [Event.putOf, hne]
  · rcases List.mem_append.mp hmem with hmem | hmem
    · rcases List.mem_append.mp hmem with hmem | hmem
      · exact h.corr.mixed q data hmem
      · cases List.mem_singleton.mp hmem
    · cases List.mem_singleton.mp hmem
      exact hpage

theorem Follows.arrive (h : Follows writer content i n c trace τ σ) {p : Nat} {page : Page}
    (hpage : Arrives writer content i trace σ p page) :
    ∃ τ' σ', Follows writer content i n c trace τ' σ' ∧ σ' p = page ∧
      ∀ q, writer q = some i → σ' q = σ q := by
  by_cases hp : writer p = some i
  · exact ⟨τ, σ, h, (hpage.1 hp).symm, fun _ _ => rfl⟩
  · refine ⟨_, _, h.foreign hp (hpage.2 hp), Function.update_self .., fun q hq => ?_⟩
    have hne : q ≠ p := fun heq => hp (heq ▸ hq)
    exact Function.update_of_ne hne ..

/-- What turns of the client leave behind. -/
structure Advance (writer : Nat → Option ι) (content : Nat → Page) (i : ι) (n : Nat)
    (trace : List (Event ι)) (σ : Nat → Page) (c' : Client) (events : List (Event ι)) : Prop where
  follows : ∃ τ' σ', Follows writer content i n c' (trace ++ events) τ' σ' ∧
    ∀ p, writer p = some i → σ' p = ((events.filterMap (Event.putOf p)).getLast?).getD (σ p)
  trace : WireTrace writer content (trace ++ events)
  by_client : ∀ e ∈ events, e.client = i

/-- **One turn**, with whatever server it is taken that has the page it fetches. -/
theorem Follows.turn (h : Follows writer content i n c trace τ σ)
    (htrace : WireTrace writer content trace) {t : Turn} (hfits : t.Fits c.doing)
    (hplain : t.Plain n) (hown : t.WritesOwn writer i) {store : Nat → Page}
    (hagree : t.Agree σ store c.doing) :
    ∃ c' store' events, c.turn i store t = some (c', store', events) ∧
      Advance writer content i n trace σ c' events := by
  have hown' : t.WritesOwn (mine writer i) true := by
    cases t with
    | access p write change => exact fun hne => mine_eq_true.mpr (hown hne)
    | _ => trivial
  obtain ⟨c', σ', ev, hturn, hok⟩ := h.client.turn h.recorded hfits hplain hown'
  have hsame := turn_same true i hagree
  rw [hturn, Option.map_some] at hsame
  obtain ⟨⟨c'', store', events⟩, hturn', heq⟩ := Option.map_eq_some_iff.mp hsame
  simp only [Prod.mk.injEq] at heq
  obtain ⟨rfl, rfl⟩ := heq
  obtain ⟨hcorr, hwire⟩ := h.corr.append htrace hok.trace_ok hok.by_client
  refine ⟨c'', store', _, hturn', ⟨τ ++ ev, σ', ⟨hok.client_ok, ⟨hok.trace_ok, hok.store_ok⟩, hcorr⟩,
    fun p _ => ?_⟩, hwire, fun e he => ?_⟩
  · have hput : (ev.map (Event.relabel i)).filterMap (Event.putOf p) = ev.filterMap (Event.putOf p) := by
      rw [List.filterMap_map]
      exact List.filterMap_congr fun e _ => Event.putOf_relabel i p e
    rw [hput]
    exact h.recorded.store_ok.after hok.store_ok p
  · obtain ⟨e', -, rfl⟩ := List.mem_map.mp he
    cases e' <;> rfl

theorem Advance.congr {events : List (Event ι)} {σ' : Nat → Page}
    (h : Advance writer content i n trace σ' c' events) (hσ : ∀ q, writer q = some i → σ' q = σ q) :
    Advance writer content i n trace σ c' events := by
  obtain ⟨τ'', σ'', hfollows, hstore⟩ := h.follows
  refine ⟨⟨τ'', σ'', hfollows, fun p hp => ?_⟩, h.trace, h.by_client⟩
  rw [hstore p hp, hσ p hp]

/-- The client goes on with the page it asked for. -/
theorem Follows.get (h : Follows writer content i n c trace τ σ)
    (htrace : WireTrace writer content trace) {a : Access} (hdoing : c.doing = .fetching a)
    {page : Page} (hpage : Arrives writer content i trace σ a.pageId page) :
    ∃ c' store' events, c.turn i (fun _ => page) .get = some (c', store', events) ∧
      Advance writer content i n trace σ c' events ∧ ∀ e ∈ events, e.isPut = false := by
  obtain ⟨τ', σ', hfollows, hσ, hsame⟩ := h.arrive hpage
  have hagree : Turn.Agree σ' (fun _ => page) c.doing .get := by
    rw [hdoing]
    exact hσ.symm
  obtain ⟨c', store', events, hturn, hadvance⟩ :=
    hfollows.turn (t := .get) htrace (by rw [hdoing]; trivial) trivial trivial hagree
  refine ⟨c', store', events, hturn, hadvance.congr hsame, ?_⟩
  exact (turn_puts i hturn).resolve_right fun hcall => hcall.1

/-- The client goes on with the pages of its batch. -/
theorem Follows.takeBatch {todo : List (Nat × Nat)} :
    ∀ {pages : List Page} {c : Client} {trace : List (Event ι)} {τ : List (Event Bool)}
      {σ : Nat → Page} {got : List ((Nat × Nat) × Page)} {next : Option Access},
      Follows writer content i n c trace τ σ → WireTrace writer content trace →
      c.doing = .prefetching got todo next →
      List.Forall₂ (fun x page => Arrives writer content i trace σ x.1 page) todo pages →
      ∃ c' events, c.takeBatch i pages = some (c', events) ∧
        Advance writer content i n trace σ c' events ∧ ∀ e ∈ events, e.isPut = false := by
  induction todo with
  | nil =>
      intro pages c trace τ σ got next h htrace hdoing hpages
      obtain rfl := List.forall₂_nil_left_iff.mp hpages
      have hagree : Turn.Agree σ (fun _ => zeroPage) c.doing .commit := by
        rw [hdoing]
        trivial
      obtain ⟨c', store', events, hturn, hadvance⟩ :=
        h.turn (t := .commit) htrace (by rw [hdoing]; trivial) trivial trivial hagree
      refine ⟨c', events, ?_, hadvance, ?_⟩
      · rw [Client.takeBatch, hturn]
        rfl
      · exact (turn_puts i hturn).resolve_right fun hcall => hcall.1
  | cons x todo ih =>
      intro pages c trace τ σ got next h htrace hdoing hpages
      obtain ⟨page, pages, hpage, hrest, rfl⟩ := List.forall₂_cons_left_iff.mp hpages
      obtain ⟨τ₁, σ₁, hfollows, hσ₁, hsame⟩ := h.arrive hpage
      have hagree : Turn.Agree σ₁ (fun _ => page) c.doing .batchGet := by
        rw [hdoing]
        exact hσ₁.symm
      obtain ⟨c₂, store₂, events₂, hturn, hadvance⟩ :=
        hfollows.turn (t := .batchGet) htrace (by rw [hdoing]; trivial) trivial trivial hagree
      have hnone := (turn_puts i hturn).resolve_right fun hcall => hcall.1
      obtain ⟨τ₂, σ₂, hfollows₂, hσ₂⟩ := hadvance.follows
      have hkept : ∀ q, writer q = some i → σ₂ q = σ q := by
        intro q hq
        rw [hσ₂ q hq, filterMap_putOf hnone, ← hsame q hq]
        rfl
      have hdoing₂ : ∃ got', c₂.doing = .prefetching got' todo next := by
        rw [Client.turn, hdoing] at hturn
        obtain ⟨rfl, -⟩ := Prod.mk.inj (Option.some.inj hturn)
        exact ⟨_, rfl⟩
      obtain ⟨got', hdoing₂⟩ := hdoing₂
      obtain ⟨c₃, events₃, htake, hadvance₃, hnone₃⟩ := ih hfollows₂ hadvance.trace hdoing₂
        (hrest.imp fun y page' hy => ⟨fun hown => (hy.1 hown).trans (hkept _ hown).symm,
          fun hforeign => (hy.2 hforeign).mono events₂⟩)
      obtain ⟨τ₃, σ₃, hfollows₃, hσ₃⟩ := hadvance₃.follows
      have hnone' : ∀ e ∈ events₂ ++ events₃, e.isPut = false := fun e he =>
        (List.mem_append.mp he).elim (hnone e) (hnone₃ e)
      refine ⟨c₃, events₂ ++ events₃, ?_, ⟨⟨τ₃, σ₃, ?_, fun q hq => ?_⟩, ?_, fun e he => ?_⟩, hnone'⟩
      · simp [Client.takeBatch, hturn, htake]
      · rw [← List.append_assoc]
        exact hfollows₃
      · rw [hσ₃ q hq, filterMap_putOf hnone₃, filterMap_putOf hnone', ← hkept q hq]
      · rw [← List.append_assoc]
        exact hadvance₃.trace
      · exact (List.mem_append.mp he).elim (hadvance.by_client e) (hadvance₃.by_client e)

/-! ## What arrives over the wire -/

/-- The server's pages, as a GET shows them. -/
def served (v : PageServer) (p : Nat) : Page := shownPage v (UInt32.ofNat p)

/-- The server's pages after some calls. -/
def servedAfter (v : PageServer) (calls : List RpcCall) : Nat → Page :=
  served (serveAll v (calls.flatMap RpcCall.requests))

/-- All PUTs are made by the writers of the pages. -/
def PutsOwn (writer : Nat → Option ι) (es : List (ι × Action)) : Prop :=
  ∀ j p data, (j, Action.begin (.put p data)) ∈ es → writer p.toNat = some j

section Arrive

variable {v : PageServer} {es : List (ι × Action)} {s : Threads ι}

omit [DecidableEq ι] in
theorem PutsOwn.only (h : PutsOwn writer es) {p : Nat} (hp : p < 2 ^ 32) (hown : writer p = some i) :
    Rpc.PutOnlyBy i (UInt32.ofNat p) es := by
  intro j data hj
  have hwriter := h j _ data hj
  rw [UInt32.toNat_ofNat_of_lt' hp, hown] at hwriter
  exact (Option.some.inj hwriter).symm

omit [DecidableEq ι] in
/-- A byte that the storage shows at some time is an initial one, or was put. -/
theorem shownAt_mixed (hok : s.Ok v)
    (hputs : ∀ j p data, (s.conns j).Made (.put p data) → .put j p.toNat data ∈ trace) {p : Nat}
    (hp : p < 2 ^ 32) (t : Nat) (j : Fin pageSize) :
    Rpc.shownAt v (s.log.take t) (UInt32.ofNat p, j) = (served v p).byte j ∨
      ∃ k d, Event.put k p d ∈ trace ∧
        Rpc.shownAt v (s.log.take t) (UInt32.ofNat p, j) = d.byte j := by
  unfold Rpc.shownAt served shownPage
  by_cases hserves : v.Serves (UInt32.ofNat p)
  · rw [if_pos hserves, if_pos hserves]
    rcases replay_cases v.bytes (s.log.take t) (UInt32.ofNat p, j) with hsame | hmem
    · exact .inl hsame
    · obtain ⟨u, hu⟩ := List.mem_iff_getElem?.mp (List.mem_of_mem_take hmem)
      obtain ⟨k, hwrote⟩ := hok.written u _ hu
      obtain ⟨d, hmade, hbyte⟩ := hwrote.made
      have hput := hputs k _ d hmade
      rw [UInt32.toNat_ofNat_of_lt' hp] at hput
      exact .inr ⟨k, d, hput, hbyte⟩
  · rw [if_neg hserves, if_neg hserves]
    exact .inl (by simp [zeroPage, Page.fill, Page.byte])

omit [DecidableEq ι] in
theorem byte_pageOfBytes {buf : Bytes} {j : Fin pageSize} (hlen : buf.length = pageSize) :
    buf[j.val]? = some ((pageOfBytes buf).byte j) := by
  have hj : j.val < buf.length := j.isLt.trans_eq hlen.symm
  simp [Page.byte, pageOfBytes, hj]

/-- **What a GET brings** when it returns. -/
theorem arrives_of_returned (hv : v.cluster = none) (hrun : ThreadsRun (Threads.start v) es s)
    (hown : PutsOwn writer es)
    (hputs : ∀ j p data, (s.conns j).Made (.put p data) → .put j p.toNat data ∈ trace)
    {pre : List Returned} {r : Returned} (hret : (s.conns i).returned = pre ++ [r]) {p k : Nat}
    (hp : p < 2 ^ 32) (hreq : r.call.requests[k]? = some (.get (UInt32.ofNat p))) {buf : Bytes}
    (hbuf : r.bufs[k]? = some buf) :
    Arrives writer (served v) i trace (servedAfter v (pre.map Returned.call)) p
      (pageOfBytes buf) := by
  have hok := (Threads.Ok.start hv).run hrun
  have hr := (hok.conns i).returned r (by rw [hret]; simp)
  refine ⟨fun hwriter => ?_, fun _ j => ?_⟩
  · have hpage := hr.get hreq fun t hlo hhi j => Rpc.own_page_during hv hrun (hown.only hp hwriter)
      hret (RpcCall.ne_put_of_get hreq _) hlo hhi j
    rw [hbuf] at hpage
    rw [Option.some.inj hpage, Rpc.pageOfBytes_toList]
    rfl
  · obtain ⟨-, hall⟩ := List.forall₂_iff_get.mp hr.answered
    obtain ⟨hk, hget⟩ := List.getElem?_eq_some_iff.mp hreq
    obtain ⟨hk', hgetbuf⟩ := List.getElem?_eq_some_iff.mp hbuf
    have hbytes := hall k hk hk'
    simp only [List.get_eq_getElem, hget, hgetbuf] at hbytes
    obtain ⟨hlen, hanswered⟩ := hbytes
    obtain ⟨t, -, -, hshown⟩ := hanswered j _ (byte_pageOfBytes hlen)
    rw [hshown]
    exact shownAt_mixed hok hputs hp t j

end Arrive

/-! ### The server after a call -/

theorem servedAfter_snoc (v : PageServer) (calls : List RpcCall) (call : RpcCall) :
    servedAfter v (calls ++ [call]) =
      served (serveAll (serveAll v (calls.flatMap RpcCall.requests)) call.requests) := by
  rw [servedAfter, List.flatMap_append, Rpc.serveAll_append, List.flatMap_singleton]

theorem servedAfter_get (v : PageServer) (calls : List RpcCall) {call : RpcCall}
    (h : ∀ p data, call ≠ .put p data) : servedAfter v (calls ++ [call]) = servedAfter v calls := by
  rw [servedAfter_snoc]
  cases call with
  | get p => rfl
  | getBatch ids => exact congrArg served (Rpc.serveAll_gets _ ids)
  | put p data => exact absurd rfl (h p data)

theorem servedAfter_put {v : PageServer} (hv : v.cluster = none) (calls : List RpcCall) {p q : Nat}
    (hp : p < v.storagePages.toNat) (hq : q < 2 ^ 32) (data : Page) :
    servedAfter v (calls ++ [.put (UInt32.ofNat q) data]) p =
      if q = p then data else servedAfter v calls p := by
  rw [servedAfter_snoc]
  obtain ⟨hpages, hcluster⟩ := Rpc.serveAll_storagePages v (calls.flatMap RpcCall.requests)
  have hp32 : p < 2 ^ 32 := hp.trans v.storagePages.toNat_lt
  have hserves : (serveAll v (calls.flatMap RpcCall.requests)).Serves (UInt32.ofNat p) := by
    refine ⟨?_, ?_⟩
    · rw [PageServer.isLocal, hcluster, hv]
    · rw [hpages, UInt32.lt_iff_toNat_lt, UInt32.toNat_ofNat_of_lt' hp32]
      exact hp
  have hput : ((serveAll v (calls.flatMap RpcCall.requests)).put (UInt32.ofNat q) data).Serves
      (UInt32.ofNat p) := hserves
  show shownPage ((serveAll v (calls.flatMap RpcCall.requests)).put (UInt32.ofNat q) data)
    (UInt32.ofNat p) = _
  rw [shownPage, if_pos hput]
  by_cases hqp : q = p
  · subst hqp
    rw [if_pos rfl]
    exact Function.update_self ..
  · have hne : UInt32.ofNat p ≠ UInt32.ofNat q := by
      intro heq
      have := congrArg UInt32.toNat heq
      rw [UInt32.toNat_ofNat_of_lt' hp32, UInt32.toNat_ofNat_of_lt' hq] at this
      exact hqp this.symm
    rw [if_neg hqp, servedAfter, served, shownPage, if_pos hserves]
    exact Function.update_of_ne hne ..

/-! ## All clients -/

/-- **The invariant of the system.** Each client follows its private trace, on which the server has
the client's own pages as its calls put them. -/
structure Wired.Ok (writer : Nat → Option ι) (v : PageServer) (geometry : ι → Geometry)
    (s : Wired ι) : Prop where
  run : ∃ es, ThreadsRun (Threads.start v) es s.threads ∧ PutsOwn writer es
  follows : ∀ i, ∃ τ σ,
    Follows writer (served v) i (geometry i).numVirtualPages (s.clients i) s.trace τ σ ∧
      ∀ p < (geometry i).numVirtualPages, writer p = some i →
        σ p = servedAfter v (s.threads.conns i).calls p
  waits : ∀ i a, (s.threads.conns i).active = some a →
    (∃ p data, a.call = .put p data) ∨ (s.clients i).doing.request = some a.call
  puts : ∀ i p data, (s.threads.conns i).Made (.put p data) → .put i p.toNat data ∈ s.trace
  trace : WireTrace writer (served v) s.trace

variable {v : PageServer} {geometry : ι → Geometry} {s s' : Wired ι}

theorem Wired.Ok.start (writer : Nat → Option ι) (v : PageServer)
    (hvalid : ∀ i, (geometry i).Valid) : (Wired.start geometry v).Ok writer v geometry where
  run := ⟨[], .nil _, fun j p data hj => absurd hj List.not_mem_nil⟩
  follows := by
    intro i
    have hvalid' : ∀ k : Bool, ((fun _ => geometry i : Bool → Geometry) k).Valid := fun _ => hvalid i
    have hok := Sharing.Ok.start (mine writer i) (served v) hvalid'
    exact ⟨[], served v, ⟨hok.clients_ok true, hok.recorded, fun _ _ => rfl, fun _ _ => rfl,
      fun p data hmem => absurd hmem List.not_mem_nil⟩, fun _ _ _ => rfl⟩
  waits := fun i a ha => by cases ha
  puts := by
    rintro i p data (⟨r, hr, -⟩ | ⟨a, ha, -⟩)
    · exact absurd hr List.not_mem_nil
    · cases ha
  trace := by
    intro pre e hpre
    simp [Wired.start] at hpre

omit [DecidableEq ι] in
/-- Right events of one client neither write nor put the pages of another. -/
theorem WireTrace.of_client {events : List (Event ι)}
    (h : WireTrace writer content (trace ++ events)) {j : ι} (hne : j ≠ i)
    (hby : ∀ e ∈ events, e.client = i) :
    (∀ k p data, .write k p data ∈ events → writer p ≠ some j) ∧
      ∀ k p data, .put k p data ∈ events → writer p ≠ some j := by
  have hsplit : ∀ e ∈ events, ∃ pre, WireOk writer content pre e := by
    intro e he
    obtain ⟨pre, post, rfl⟩ := List.append_of_mem he
    exact ⟨trace ++ pre, h _ e ⟨post, by simp⟩⟩
  constructor
  · intro k p data hmem hown
    obtain ⟨pre, hwriter⟩ := hsplit _ hmem
    obtain rfl : k = i := hby _ hmem
    exact hne (Option.some.inj (hown.symm.trans hwriter))
  · intro k p data hmem hown
    obtain ⟨pre, hwriter, -⟩ := hsplit _ hmem
    obtain rfl : k = i := hby _ hmem
    exact hne (Option.some.inj (hown.symm.trans hwriter))

/-- A client makes a step: it is enough to look at this client. -/
theorem Wired.Ok.advance (h : s.Ok writer v geometry) {threads : Threads ι} {c : Client}
    {events : List (Event ι)}
    (hrun : ∃ es, ThreadsRun (Threads.start v) es threads ∧ PutsOwn writer es)
    (hothers : ∀ j, j ≠ i → threads.conns j = s.threads.conns j)
    (hfollows : ∃ τ σ,
      Follows writer (served v) i (geometry i).numVirtualPages c (s.trace ++ events) τ σ ∧
        ∀ p < (geometry i).numVirtualPages, writer p = some i →
          σ p = servedAfter v (threads.conns i).calls p)
    (hwaits : ∀ a, (threads.conns i).active = some a →
      (∃ p data, a.call = .put p data) ∨ c.doing.request = some a.call)
    (hputs : ∀ p data, (threads.conns i).Made (.put p data) → .put i p.toNat data ∈ s.trace ++ events)
    (htrace : WireTrace writer (served v) (s.trace ++ events)) (hby : ∀ e ∈ events, e.client = i) :
    Wired.Ok writer v geometry
      ⟨threads, Function.update s.clients i c, s.trace ++ events⟩ := by
  refine ⟨hrun, fun j => ?_, fun j a ha => ?_, fun j p data hmade => ?_, htrace⟩
  all_goals dsimp only at *
  · by_cases hj : j = i
    · subst hj
      rw [Function.update_self]
      exact hfollows
    · obtain ⟨τ, σ, hj', hstore⟩ := h.follows j
      obtain ⟨hwrite, hput⟩ := htrace.of_client hj hby
      rw [Function.update_of_ne hj, hothers j hj]
      exact ⟨τ, σ, ⟨hj'.client, hj'.recorded, hj'.corr.others hwrite hput⟩, hstore⟩
  · by_cases hj : j = i
    · subst hj
      rw [Function.update_self]
      exact hwaits a ha
    · rw [hothers j hj] at ha
      rw [Function.update_of_ne hj]
      exact h.waits j a ha
  · by_cases hj : j = i
    · subst hj
      exact hputs p data hmade
    · rw [hothers j hj] at hmade
      exact List.mem_append_left _ (h.puts j p data hmade)

/-! ### The steps -/

theorem Doing.request_ne_put {doing : Doing} {call : RpcCall} (h : doing.request = some call)
    (p : UInt32) (data : Page) : call ≠ .put p data := by
  rintro rfl
  cases doing with
  | idle => cases h
  | fetching a => cases h
  | prefetching got todo next =>
      cases got with
      | nil => cases h
      | cons x got => cases h

omit [DecidableEq ι] in
theorem putCall_of_isPut {events : List (Event ι)} (h : ∀ e ∈ events, e.isPut = false) :
    putCall events = none := by
  refine List.findSome?_eq_none_iff.mpr fun e he => ?_
  have hput := h e he
  cases e with
  | put k p data => cases hput
  | _ => rfl

/-- The threads step, and the client waits for them. -/
theorem Wired.Ok.threads (h : s.Ok writer v geometry) {a : Action} {threads : Threads ι}
    (hstep : ThreadsStep s.threads (i, a) threads)
    (hbegin : ∀ call, a = .begin call → (s.clients i).doing.request = some call) :
    Wired.Ok writer v geometry { s with threads := threads } := by
  obtain ⟨es, hrun, hown⟩ := h.run
  obtain ⟨⟨ws, hconn⟩, hothers⟩ := hstep.conn
  obtain ⟨τ, σ, hfollows, hstore⟩ := h.follows i
  have hsame : Wired.mk threads s.clients s.trace =
      ⟨threads, Function.update s.clients i (s.clients i), s.trace ++ []⟩ := by
    rw [Function.update_eq_self, List.append_nil]
  show Wired.Ok writer v geometry (Wired.mk threads s.clients s.trace)
  rw [hsame]
  refine h.advance ⟨_, hrun.snoc hstep, fun j p data hj => ?_⟩ hothers
    ⟨τ, σ, ?_, fun p hp hwriter => ?_⟩ (fun b hb => ?_) (fun p data hmade => ?_) ?_
    fun e he => absurd he List.not_mem_nil
  · rcases List.mem_append.mp hj with hj | hj
    · exact hown j p data hj
    · obtain ⟨rfl, rfl⟩ := Prod.mk.inj (List.mem_singleton.mp hj)
      exact absurd rfl (Doing.request_ne_put (hbegin _ rfl) p data)
  · rw [List.append_nil]
    exact hfollows
  · rw [hconn.calls, hstore p hp hwriter]
    cases a with
    | begin call =>
        rw [Rpc.Action.calls, servedAfter_get v _ (Doing.request_ne_put (hbegin call rfl))]
    | _ => exact congrArg (servedAfter v · p) (List.append_nil _).symm
  · rcases hconn.active_call hb with rfl | ⟨b', hb', hcall⟩
    · exact .inr (hbegin _ rfl)
    · rw [← hcall]
      exact h.waits i b' hb'
  · rw [List.append_nil]
    rcases hconn.made hmade with hmade | rfl
    · exact h.puts i p data hmade
    · exact absurd rfl (Doing.request_ne_put (hbegin _ rfl) p data)
  · rw [List.append_nil]
    exact h.trace

/-- A call of the caller, up to its PUT if it evicts. -/
theorem Wired.Ok.turn (h : s.Ok writer v geometry) {t : Turn} {c : Client} {store : Nat → Page}
    {events : List (Event ι)}
    (hturn : (s.clients i).turn i (fun _ => zeroPage) t = some (c, store, events))
    (hcall : t.IsCall) (hplain : t.Plain (geometry i).numVirtualPages)
    (hown : t.WritesOwn writer i) :
    ∃ σ, Advance writer (served v) i (geometry i).numVirtualPages s.trace σ c events ∧
      (∀ p < (geometry i).numVirtualPages, writer p = some i →
        σ p = servedAfter v (s.threads.conns i).calls p) ∧
      ((∀ e ∈ events, e.isPut = false) ∨
        ∃ q data, q < (geometry i).numVirtualPages ∧ events = [.put i q data]) := by
  obtain ⟨τ, σ, hfollows, hstore⟩ := h.follows i
  have hagree : t.Agree σ (fun _ => zeroPage) (s.clients i).doing := by
    cases t with
    | access | prefetch => unfold Turn.Agree; split <;> trivial
    | _ => exact hcall.elim
  obtain ⟨c', store', events', hturn', hadvance⟩ :=
    hfollows.turn h.trace (Turn.fits_of_turn hturn) hplain hown hagree
  obtain ⟨rfl, -, rfl⟩ : c = c' ∧ store = store' ∧ events = events' := by
    simpa using hturn.symm.trans hturn'
  refine ⟨σ, hadvance, hstore, (turn_puts i hturn).imp_right ?_⟩
  rintro ⟨-, q, data, hq, hevents⟩
  exact ⟨q, data, hfollows.client.size ▸ hq, hevents⟩

theorem Wired.Ok.call (h : s.Ok writer v geometry) {t : Turn} {c : Client} {store : Nat → Page}
    {events : List (Event ι)} (hidle : (s.threads.conns i).active = none)
    (hturn : (s.clients i).turn i (fun _ => zeroPage) t = some (c, store, events))
    (hcall : t.IsCall) (hnone : putCall events = none)
    (hplain : t.Plain (geometry i).numVirtualPages) (hown : t.WritesOwn writer i) :
    Wired.Ok writer v geometry
      { s with clients := Function.update s.clients i c, trace := s.trace ++ events } := by
  obtain ⟨σ, hadvance, hstore, hputs⟩ := h.turn hturn hcall hplain hown
  have hno : ∀ e ∈ events, e.isPut = false := by
    refine hputs.resolve_right ?_
    rintro ⟨q, data, -, rfl⟩
    cases hnone
  obtain ⟨τ', σ', hfollows, hσ⟩ := hadvance.follows
  refine h.advance h.run (fun _ _ => rfl) ⟨τ', σ', hfollows, fun p hp hwriter => ?_⟩ (fun a ha => ?_)
    (fun p data hmade => List.mem_append_left _ (h.puts i p data hmade)) hadvance.trace
    hadvance.by_client
  · rw [hσ p hwriter, filterMap_putOf hno]
    exact hstore p hp hwriter
  · rw [hidle] at ha
    cases ha

/-- The server has room for the pages of all clients. -/
def Room (v : PageServer) (geometry : ι → Geometry) : Prop :=
  ∀ i, (geometry i).numVirtualPages ≤ v.storagePages.toNat

theorem Wired.Ok.callPut (h : s.Ok writer v geometry) (hv : v.cluster = none)
    (hroom : Room v geometry) {t : Turn} {c : Client}
    {store : Nat → Page} {events : List (Event ι)} {put : RpcCall} {threads : Threads ι}
    (hturn : (s.clients i).turn i (fun _ => zeroPage) t = some (c, store, events))
    (hcall : t.IsCall) (hput : putCall events = some put)
    (hstep : ThreadsStep s.threads (i, .begin put) threads)
    (hplain : t.Plain (geometry i).numVirtualPages) (hown : t.WritesOwn writer i) :
    Wired.Ok writer v geometry ⟨threads, Function.update s.clients i c, s.trace ++ events⟩ := by
  obtain ⟨σ, hadvance, hstore, hputs⟩ := h.turn hturn hcall hplain hown
  obtain ⟨q, data, hq, rfl⟩ : ∃ q data, q < (geometry i).numVirtualPages ∧
      events = [.put i q data] := by
    refine hputs.resolve_left fun hno => ?_
    rw [putCall_of_isPut hno] at hput
    cases hput
  obtain rfl : RpcCall.put (UInt32.ofNat q) data = put := Option.some.inj hput
  obtain ⟨τ', σ', hfollows, hσ⟩ := hadvance.follows
  obtain ⟨es, hrun, hputsOwn⟩ := h.run
  obtain ⟨⟨ws, hconn⟩, hothers⟩ := hstep.conn
  have hq32 : q < 2 ^ 32 := hq.trans_le ((hroom i).trans v.storagePages.toNat_lt.le)
  have hwriter : writer q = some i := (hadvance.trace s.trace _ List.prefix_rfl).1
  refine h.advance ⟨_, hrun.snoc hstep, fun j p d hj => ?_⟩ hothers
    ⟨τ', σ', hfollows, fun p hp hown => ?_⟩ (fun a ha => ?_) (fun p d hmade => ?_) hadvance.trace
    hadvance.by_client
  · rcases List.mem_append.mp hj with hj | hj
    · exact hputsOwn j p d hj
    · cases List.mem_singleton.mp hj
      rw [UInt32.toNat_ofNat_of_lt' hq32]
      exact hwriter
  · rw [hσ p hown, hconn.calls, Rpc.Action.calls,
      servedAfter_put hv _ (hp.trans_le (hroom i)) hq32, ← hstore p hp hown]
    by_cases hqp : q = p <;> simp [Event.putOf, hqp]
  · rcases hconn.active_call ha with hbegin | ⟨a', ha', -⟩
    · exact .inl ⟨_, _, (Action.begin.inj hbegin).symm⟩
    · rw [hconn.of_begin] at ha'
      cases ha'
  · rcases hconn.made hmade with hmade | hbegin
    · exact List.mem_append_left _ (h.puts i p d hmade)
    · obtain ⟨rfl, rfl⟩ := RpcCall.put.inj (Action.begin.inj hbegin)
      rw [UInt32.toNat_ofNat_of_lt' hq32]
      exact List.mem_append_right _ (List.mem_singleton_self _)

section Resume

variable {a : Rpc.Active} {threads : Threads ι}

/-- After the end of a call the PUTs are still those of the trace, made by the writers. -/
theorem Wired.Ok.finished (h : s.Ok writer v geometry)
    (hstep : ThreadsStep s.threads (i, .finish) threads) :
    (∃ es, ThreadsRun (Threads.start v) es threads ∧ PutsOwn writer es) ∧
      ∀ j p data, (threads.conns j).Made (.put p data) → .put j p.toNat data ∈ s.trace := by
  obtain ⟨es, hrun, hown⟩ := h.run
  obtain ⟨⟨ws, hconn⟩, hothers⟩ := hstep.conn
  refine ⟨⟨_, hrun.snoc hstep, fun j p data hj => ?_⟩, fun j p data hmade => ?_⟩
  · rcases List.mem_append.mp hj with hj | hj
    · exact hown j p data hj
    · cases List.mem_singleton.mp hj
  · by_cases hj : j = i
    · subst hj
      exact h.puts j p data ((hconn.made hmade).resolve_right fun hc => nomatch hc)
    · rw [hothers j hj] at hmade
      exact h.puts j p data hmade

/-- A call ends and its client goes on without a PUT. -/
theorem Wired.Ok.goOn (h : s.Ok writer v geometry)
    (hstep : ThreadsStep s.threads (i, .finish) threads) {σ : Nat → Page}
    (hstore : ∀ p < (geometry i).numVirtualPages, writer p = some i →
      σ p = servedAfter v (s.threads.conns i).calls p) {c : Client} {events : List (Event ι)}
    (hadvance : Advance writer (served v) i (geometry i).numVirtualPages s.trace σ c events)
    (hno : ∀ e ∈ events, e.isPut = false) :
    Wired.Ok writer v geometry ⟨threads, Function.update s.clients i c, s.trace ++ events⟩ := by
  obtain ⟨hrun, hputs⟩ := h.finished hstep
  obtain ⟨⟨ws, hconn⟩, hothers⟩ := hstep.conn
  obtain ⟨-, -, -, hidle, -⟩ := hconn.of_finish
  obtain ⟨τ', σ', hfollows, hσ⟩ := hadvance.follows
  refine h.advance hrun hothers ⟨τ', σ', hfollows, fun p hp hwriter => ?_⟩ (fun b hb => ?_)
    (fun p data hmade => List.mem_append_left _ (hputs i p data hmade)) hadvance.trace
    hadvance.by_client
  · have hcalls : (threads.conns i).calls = (s.threads.conns i).calls :=
      hconn.calls.trans (List.append_nil _)
    rw [hσ p hwriter, filterMap_putOf hno, hcalls]
    exact hstore p hp hwriter
  · rw [hidle] at hb
    cases hb

/-- What the buffers of a finished call bring, as the private server has it. -/
theorem Wired.Ok.arrives (h : s.Ok writer v geometry) (hv : v.cluster = none)
    (hroom : Room v geometry) (hactive : (s.threads.conns i).active = some a)
    (hstep : ThreadsStep s.threads (i, .finish) threads) {σ : Nat → Page}
    (hstore : ∀ p < (geometry i).numVirtualPages, writer p = some i →
      σ p = servedAfter v (s.threads.conns i).calls p) :
    a.call.requests.length = a.bufs.length ∧
    ∀ (p k : Nat) (buf : Bytes), p < (geometry i).numVirtualPages →
      a.call.requests[k]? = some (.get (UInt32.ofNat p)) → a.bufs[k]? = some buf →
      Arrives writer (served v) i s.trace σ p (pageOfBytes buf) := by
  obtain ⟨⟨es, hrun, hown⟩, hputs⟩ := h.finished hstep
  obtain ⟨⟨ws, hconn⟩, -⟩ := hstep.conn
  obtain ⟨a', hactive', -, -, hreturned⟩ := hconn.of_finish
  obtain rfl := Option.some.inj (hactive.symm.trans hactive')
  refine ⟨?_, fun p k buf hp hreq hbuf => ?_⟩
  · have hok := (((Threads.Ok.start hv).run hrun).conns i).returned
      ⟨a.call, a.bufs, (s.threads.conns i).since, s.threads.log.length⟩ (by rw [hreturned]; simp)
    exact hok.answered.length_eq
  · have hp32 : p < 2 ^ 32 := hp.trans_le ((hroom i).trans v.storagePages.toNat_lt.le)
    obtain ⟨hsame, hmixed⟩ := arrives_of_returned hv hrun hown hputs hreturned hp32 hreq hbuf
    refine ⟨fun hwriter => (hsame hwriter).trans ?_, hmixed⟩
    have hcalls : (s.threads.conns i).calls =
        (s.threads.conns i).returned.map Returned.call ++ [a.call] := by
      rw [Conn.calls, hactive]
      rfl
    rw [hstore p hp hwriter, hcalls, servedAfter_get v _ fun q data => RpcCall.ne_put_of_get hreq q data]

/-- **A call that returned** can always be gone on with. -/
theorem Wired.Ok.resume (h : s.Ok writer v geometry) (hv : v.cluster = none)
    (hroom : Room v geometry) (hactive : (s.threads.conns i).active = some a)
    (hstep : ThreadsStep s.threads (i, .finish) threads) :
    ∃ c events, (s.clients i).resume i a.call a.bufs = some (c, events) ∧
      Wired.Ok writer v geometry ⟨threads, Function.update s.clients i c, s.trace ++ events⟩ := by
  obtain ⟨τ, σ, hfollows, hstore⟩ := h.follows i
  obtain ⟨hlen, harrives⟩ := h.arrives hv hroom hactive hstep hstore
  rcases h.waits i a hactive with ⟨p, data, hput⟩ | hrequest
  · refine ⟨s.clients i, [], by rw [hput]; rfl, ?_⟩
    refine h.goOn hstep hstore ⟨⟨τ, σ, ?_, fun _ _ => rfl⟩, ?_, ?_⟩ ?_
    · rw [List.append_nil]
      exact hfollows
    · rw [List.append_nil]
      exact h.trace
    · exact fun e he => absurd he List.not_mem_nil
    · exact fun e he => absurd he List.not_mem_nil
  · have hok := hfollows.client.doing
    cases hdoing : (s.clients i).doing with
    | idle =>
        rw [hdoing] at hrequest
        cases hrequest
    | fetching acc =>
        rw [hdoing] at hrequest hok
        have hcall : a.call = .get (UInt32.ofNat acc.pageId) := (Option.some.inj hrequest).symm
        rw [hcall] at hlen harrives ⊢
        obtain ⟨buf, hbufs⟩ := List.length_eq_one_iff.mp hlen.symm
        rw [hbufs] at harrives ⊢
        have hpage := harrives acc.pageId 0 buf (hok.1.trans_eq hfollows.client.size) rfl rfl
        obtain ⟨c, store, events, hturn, hadvance, hno⟩ := hfollows.get h.trace hdoing hpage
        refine ⟨c, events, ?_, h.goOn hstep hstore hadvance hno⟩
        show ((s.clients i).turn i (fun _ => pageOfBytes buf) .get).map _ = _
        rw [hturn]
        rfl
    | prefetching got todo next =>
        rw [hdoing] at hrequest hok
        cases got with
        | cons x got => cases hrequest
        | nil =>
            have hcall : a.call = .getBatch (todo.map fun x => UInt32.ofNat x.1) :=
              (Option.some.inj hrequest).symm
            rw [hcall] at hlen harrives ⊢
            obtain ⟨⟨lo, hi, hcol⟩, -⟩ := hok
            have hpages : List.Forall₂
                (fun x page => Arrives writer (served v) i s.trace σ x.1 page) todo
                (a.bufs.map pageOfBytes) := by
              rw [List.forall₂_map_right_iff]
              refine List.forall₂_iff_get.mpr ⟨by simpa [RpcCall.requests] using hlen, ?_⟩
              intro k hk hk'
              have hlt := (hcol.absent _ (List.get_mem todo ⟨k, hk⟩)).2.2.1
              have hreq : (RpcCall.getBatch (todo.map fun x => UInt32.ofNat x.1)).requests[k]? =
                  some (.get (UInt32.ofNat (todo.get ⟨k, hk⟩).1)) := by
                simp [RpcCall.requests, hk]
              exact harrives _ k _ (hlt.trans_eq hfollows.client.size) hreq
                (List.getElem?_eq_getElem hk')
            obtain ⟨c, events, htake, hadvance, hno⟩ := hfollows.takeBatch h.trace hdoing hpages
            exact ⟨c, events, htake, h.goOn hstep hstore hadvance hno⟩

end Resume

/-! ## The main result -/

/-- What the callers may ask for: pages of their space, and for writing only their own. -/
def WiredLabel.Fair (writer : Nat → Option ι) (geometry : ι → Geometry) :
    ι × WiredLabel → Prop
  | (i, .call t) => t.Plain (geometry i).numVirtualPages ∧ t.WritesOwn writer i
  | _ => True

theorem Wired.Ok.step (h : s.Ok writer v geometry) (hv : v.cluster = none) (hroom : Room v geometry)
    {e : ι × WiredLabel} (hfair : WiredLabel.Fair writer geometry e) (hstep : WiredStep s e s') :
    s'.Ok writer v geometry := by
  cases hstep with
  | call hidle hcall hturn hnone => exact h.call hidle hturn hcall hnone hfair.1 hfair.2
  | callPut hcall hturn hput hthreads =>
      exact h.callPut hv hroom hturn hcall hput hthreads hfair.1 hfair.2
  | request hrequest hthreads =>
      refine h.threads hthreads fun call hbegin => ?_
      obtain rfl := Action.begin.inj hbegin
      exact hrequest
  | io hio hthreads =>
      refine h.threads hthreads fun call hbegin => ?_
      subst hbegin
      exact hio.elim
  | resume hactive hthreads hresume =>
      obtain ⟨c', events', hresume', hok⟩ := h.resume hv hroom hactive hthreads
      obtain ⟨rfl, rfl⟩ := Prod.mk.inj (Option.some.inj (hresume.symm.trans hresume'))
      exact hok

theorem Wired.Ok.run_ok (h : s.Ok writer v geometry) (hv : v.cluster = none)
    (hroom : Room v geometry) {es : List (ι × WiredLabel)} (hrun : WiredRun s es s')
    (hfair : ∀ e ∈ es, WiredLabel.Fair writer geometry e) : s'.Ok writer v geometry :=
  hrun.invariant_of_labels (Wired.Ok writer v geometry) (WiredLabel.Fair writer geometry)
    (fun _ _ _ he hs hstep => hs.step hv hroom he hstep) hfair h

/-- **Partitioned writes are safe on the real server.** Any number of clients with caches of any sizes
work on a standalone server that has room for their pages. Their calls, the system calls of both ends
and the single bytes the handler threads copy interleave in any way, and each page is accessed for
writing by its writer only. Then the writer of a page always reads and sends its current content and
gets back what it sent last; what another client gets and reads of it consists, byte by byte, of
initial bytes and bytes the writer has sent. And no client is ever stuck with an answer: when its RPC
has returned, it can go on. -/
theorem wired_partitioned_writes_safe (geometry : ι → Geometry) (hvalid : ∀ i, (geometry i).Valid)
    {v : PageServer} (hv : v.cluster = none) (hroom : Room v geometry) (writer : Nat → Option ι)
    {es : List (ι × WiredLabel)} {s : Wired ι} (hrun : WiredRun (Wired.start geometry v) es s)
    (hfair : ∀ e ∈ es, WiredLabel.Fair writer geometry e) :
    WireTrace writer (served v) s.trace ∧
    ∀ i a, (s.threads.conns i).active = some a → a.io = [] → ∃ s', WiredStep s (i, .resume) s' := by
  have hok := (Wired.Ok.start writer v hvalid).run_ok hv hroom hrun hfair
  refine ⟨hok.trace, fun i a hactive hio => ?_⟩
  have hfinish : ThreadsStep s.threads (i, .finish) _ := .on i (.finish hactive hio)
  obtain ⟨c, events, hresume, -⟩ := hok.resume hv hroom hactive hfinish
  exact ⟨_, .resume hactive hfinish hresume⟩

/-- System calls of one client and its thread, with nobody in between. -/
theorem WiredRun.of_io {acts : List Action} (hio : ∀ a ∈ acts, Action.IsIo a) :
    ∀ {s : Wired ι} {threads : Threads ι}, ThreadsRun s.threads (acts.map (i, ·)) threads →
      WiredRun s (acts.map fun a => (i, .io a)) { s with threads := threads } := by
  induction acts with
  | nil =>
      intro s threads hrun
      cases hrun
      exact .nil s
  | cons a acts ih =>
      intro s threads hrun
      cases hrun with
      | cons hstep hrest =>
          exact .cons (.io (hio a List.mem_cons_self) hstep)
            (ih (fun b hb => hio b (List.mem_cons_of_mem _ hb)) hrest)


/-- A server of two pages. -/
def twoPages : PageServer := ⟨none, 2, fun _ => Page.fill 7⟩

theorem twoPages_torn : pageOfBytes ((twoPages.write ((0, ⟨0, by decide⟩), 9)).storage 0).toList =
    (Page.fill 7).set 0 9 := by
  rw [Rpc.pageOfBytes_toList]
  exact Function.update_self (0 : UInt32) _ twoPages.storage

/-- Client `true` has page `0` in its only frame, fills it with nines and loses it to page `1`. The
thread has copied one byte of the PUT when client `false` gets the page and reads it: one nine and
sevens. -/
theorem wired_partitioned_writes_safe_torn : ∃ (es : List (Bool × WiredLabel)) (s : Wired Bool),
    WiredRun (Wired.start (fun _ => ⟨1, 2, 3⟩) twoPages) es s ∧
    (∀ e ∈ es, WiredLabel.Fair (fun _ => some true) (fun _ => ⟨1, 2, 3⟩) e) ∧
    s.trace.getLast? = some (.read false 0 ((Page.fill 7).set 0 9)) ∧
    WireTrace (fun _ => some true) (served twoPages) s.trace := by
  have hserves : twoPages.Serves 0 := by decide
  have hcall : WiredRun (Wired.start (fun _ => ⟨1, 2, 3⟩) twoPages)
      [(true, .call (.access 0 1 fun _ => Page.fill 9))] _ := .single (.call rfl trivial rfl rfl)
  have hrequest := hcall.snoc (.request rfl (.on true (.begin (.get 0) rfl)))
  have hget := hrequest.append (WiredRun.of_io (by simp [Action.IsIo])
    (ThreadsRun.of_conn true (Rpc.get_io hserves 0 0 []) _ rfl))
  have hresume := hget.snoc (.resume rfl (.on true (.finish rfl rfl)) rfl)
  have hevict := hresume.snoc (.callPut (t := .access 1 0 id) trivial rfl rfl
    (.on true (.begin (.put 0 (Page.fill 9)) rfl)))
  have hput := hevict.append (WiredRun.of_io (by simp [Action.IsIo])
    (ThreadsRun.of_conn true (Rpc.put_io hserves (Page.fill 9) 0 0 _) _ rfl))
  have hcopy := hput.snoc (.io (a := .copy ⟨0, by decide⟩) trivial
    (.on true (.copy rfl (Finset.mem_univ _))))
  have hcall' := hcopy.snoc (.call (i := false) (t := .access 0 0 id) rfl trivial rfl rfl)
  have hrequest' := hcall'.snoc (.request rfl (.on false (.begin (.get 0) rfl)))
  have hget' := hrequest'.append (WiredRun.of_io (by simp [Action.IsIo])
    (ThreadsRun.of_conn false
      (Rpc.get_io (s := twoPages.write ((0, ⟨0, by decide⟩), 9)) hserves 1 1 []) _ rfl))
  obtain ⟨es, hes, hrun⟩ : ∃ es, es = _ ∧
      WiredRun (Wired.start (fun _ => ⟨1, 2, 3⟩) twoPages) es _ :=
    ⟨_, rfl, hget'.snoc (.resume rfl (.on false (.finish rfl rfl)) rfl)⟩
  have hfair : ∀ e ∈ es, WiredLabel.Fair (fun _ => some true) (fun _ => ⟨1, 2, 3⟩) e := by
    rw [hes]
    simp [WiredLabel.Fair, Turn.Plain, Turn.WritesOwn]
  have hroom : Room twoPages fun _ : Bool => ⟨1, 2, 3⟩ := fun _ => Nat.le_refl 2
  have hsafe := (wired_partitioned_writes_safe (fun _ => ⟨1, 2, 3⟩)
    (fun _ => ⟨by decide, by decide, by decide, by decide⟩) rfl hroom (fun _ => some true) hrun hfair).1
  refine ⟨es, _, hrun, hfair, ?_, hsafe⟩
  exact congrArg (fun page => some (Event.read false 0 page)) twoPages_torn

end Dsm.Paging
