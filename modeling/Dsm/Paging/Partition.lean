import Dsm.Paging.Trace

/-!
# Partitioned writes

There is no coherence protocol between the caches of different clients. What the README promises is
that programs in which each page has at most one writer are safe all the same, and this is what is
proved here, for any number of clients and any interleaving of their requests
(`partitioned_writes_safe`).

A client owns the pages it may write (`Shares`). Its turns keep its own view; the turns of the
others touch neither its own pages on the server nor what it has fetched.
-/

namespace Dsm.Paging

open DsmContext Dsm.Lib

variable {κ : Type} [DecidableEq κ] {writer : Nat → Option κ} {content : Nat → Page}

/-! ## The view of one client -/

/-- The frames a client holds in the middle of a call. -/
def Doing.held : Doing → Finset Nat
  | .idle => ∅
  | .fetching a => {a.frame}
  | .prefetching got todo _ => frameSet (got.map Prod.fst ++ todo)

/-- The write flag of an access: `0` or `1`, and `1` only from the owner of the page. -/
def Access.Flagged (own : Nat → Prop) (a : Access) : Prop :=
  (a.write = 0 ∨ a.write = 1) ∧ (a.write ≠ 0 → own a.pageId)

/-- An access that has its page and may return it. -/
structure Access.Ready (own : Nat → Prop) (ctx : DsmContext) (a : Access) : Prop where
  maps : ctx.Maps a.pageId a.frame
  dirty : a.write ≠ 0 → own a.pageId ∧ (ctx.pageTable a.pageId).dirty ≠ 0

/-- What holds in the middle of a call. The pages that a prefetch has received are the current
content where they are owned, and the last fetch elsewhere. -/
def Doing.Ok (own : Nat → Prop) (mem : Nat → Page) (fetched : Nat → Page → Prop)
    (ctx : DsmContext) : Doing → Prop
  | .idle => True
  | .fetching a =>
      a.pageId < ctx.numVirtualPages ∧ (ctx.pageTable a.pageId).valid = false ∧ a.Flagged own
  | .prefetching got todo next =>
      (∃ lo hi, Collected ctx lo hi (got.map Prod.fst ++ todo)) ∧
      (∀ x ∈ got, (own x.1.1 → x.2 = mem x.1.1) ∧ (¬ own x.1.1 → fetched x.1.1 x.2)) ∧
      ∀ a ∈ next, a.Ready own ctx

/-- The invariant of one client with `n` virtual pages. -/
structure Client.Ok (writer : Nat → Option κ) (content : Nat → Page) (k : κ) (n : Nat)
    (trace : List (Event κ)) (store : Nat → Page) (c : Client) : Prop where
  rep : RepInv c.doing.held c.ctx
  socket : 0 ≤ c.ctx.sockFd
  size : c.ctx.numVirtualPages = n
  shares : Shares (fun p => writer p = some k) (current content trace)
    (LastFetched content trace k) c.ctx store
  doing : c.doing.Ok (fun p => writer p = some k) (current content trace)
    (LastFetched content trace k) c.ctx

/-- **The turn of another client** keeps a client's view. -/
theorem Client.Ok.others {k j : κ} (hne : j ≠ k) {n : Nat} {trace events : List (Event κ)}
    {store store' : Nat → Page} {c : Client} (h : c.Ok writer content j n trace store)
    (hby : ∀ e ∈ events, e.client = k) (hrec : Recorded writer content trace store)
    (hrec' : Recorded writer content (trace ++ events) store') :
    c.Ok writer content j n (trace ++ events) store' := by
  obtain ⟨hown, hget⟩ := others_keep hne trace events hby hrec'.trace_ok
  have hfetched : ∀ p data, LastFetched content trace j p data →
      LastFetched content (trace ++ events) j p data := by
    intro p data hdata
    rwa [LastFetched, hget]
  refine ⟨h.rep, h.socket, h.size, ?_, ?_⟩
  · refine h.shares.mono (fun p hp => (hown p hp).1) (fun p hp => ?_)
      fun p f _ _ hdata => hfetched p _ hdata
    have hlast := hrec'.store_ok p
    rw [(hown p hp).2, hrec.store_ok p] at hlast
    exact (Option.some.inj hlast).symm
  · have hdoing := h.doing
    cases hd : c.doing with
    | idle => trivial
    | fetching a =>
        rw [hd] at hdoing
        exact hdoing
    | prefetching got todo next =>
        rw [hd] at hdoing
        obtain ⟨hcol, hgot, hnext⟩ := hdoing
        refine ⟨hcol, fun x hx => ⟨fun hp => ?_, fun hp => hfetched _ _ ((hgot x hx).2 hp)⟩, hnext⟩
        rw [(hown x.1.1 hp).1]
        exact (hgot x hx).1 hp

/-! ## What a turn of the client itself does

A turn is made of pieces: events, and moves of the pager. `View` is what the client relies on in
between, and each lemma below takes it from before a piece to the end of the turn. -/

/-- A turn that ended well. -/
structure TurnOk (writer : Nat → Option κ) (content : Nat → Page) (k : κ) (n : Nat)
    (trace : List (Event κ)) (c : Client) (store : Nat → Page) (events : List (Event κ)) : Prop where
  client_ok : c.Ok writer content k n (trace ++ events) store
  trace_ok : TraceOk writer content (trace ++ events)
  store_ok : StoreOk content (trace ++ events) store
  by_client : ∀ e ∈ events, e.client = k

variable {k : κ} {n : Nat} {trace trace' : List (Event κ)} {held held' : Finset Nat}
  {ctx : DsmContext} {store : Nat → Page}

/-- The turn of a GET: the event comes first, then what the client does with the page. -/
theorem TurnOk.cons {c : Client} {e : Event κ} {events : List (Event κ)} (hek : e.client = k)
    (h : TurnOk writer content k n (trace ++ [e]) c store events) :
    TurnOk writer content k n trace c store (e :: events) := by
  have hassoc : trace ++ e :: events = trace ++ [e] ++ events := by simp
  refine ⟨hassoc ▸ h.client_ok, hassoc ▸ h.trace_ok, hassoc ▸ h.store_ok, ?_⟩
  intro e' he'
  rcases List.mem_cons.mp he' with rfl | he'
  · exact hek
  · exact h.by_client e' he'

theorem TurnOk.nil {c : Client} (hclient : c.Ok writer content k n trace store)
    (hrec : Recorded writer content trace store) :
    TurnOk writer content k n trace c store [] := by
  refine ⟨?_, ?_, ?_, by simp⟩ <;> rw [List.append_nil]
  · exact hclient
  · exact hrec.trace_ok
  · exact hrec.store_ok

theorem TurnOk.one {c : Client} {e : Event κ} (hek : e.client = k)
    (hclient : c.Ok writer content k n (trace ++ [e]) store)
    (hrec : Recorded writer content (trace ++ [e]) store) :
    TurnOk writer content k n trace c store [e] :=
  TurnOk.cons hek (.nil hclient hrec)

/-- A client in the middle of a turn, with the frames in `held`. -/
structure View (writer : Nat → Option κ) (content : Nat → Page) (k : κ) (n : Nat)
    (trace : List (Event κ)) (held : Finset Nat) (ctx : DsmContext) (store : Nat → Page) : Prop where
  rep : RepInv held ctx
  socket : 0 ≤ ctx.sockFd
  size : ctx.numVirtualPages = n
  shares : Shares (fun p => writer p = some k) (current content trace)
    (LastFetched content trace k) ctx store

namespace View

theorem of_client {c : Client} (h : c.Ok writer content k n trace store) :
    View writer content k n trace c.doing.held c.ctx store :=
  ⟨h.rep, h.socket, h.size, h.shares⟩

theorem client {c : Client} (h : View writer content k n trace c.doing.held c.ctx store)
    (hdoing : c.doing.Ok (fun p => writer p = some k) (current content trace)
      (LastFetched content trace k) c.ctx) : c.Ok writer content k n trace store :=
  ⟨h.rep, h.socket, h.size, h.shares, hdoing⟩

/-- The pager moves. -/
theorem moves (h : View writer content k n trace held ctx store) {log : List RpcEvent} {s : Pager}
    {ms : List Move} (hrun : Moves ⟨held, ⟨ctx, ⟨store, log⟩⟩⟩ ms ⟨held', s⟩)
    (hallowed : ∀ m ∈ ms,
      m.Allowed (fun p => writer p = some k) (LastFetched content trace k) store) :
    View writer content k n trace held' s.ctx s.remote.store where
  rep := RepInv.moves (w := ⟨held, ⟨ctx, ⟨store, log⟩⟩⟩) h.rep hrun
  socket := hrun.sizes.2.2.1.symm ▸ h.socket
  size := hrun.sizes.2.1.trans h.size
  shares := (Shares.moves hrun h.rep h.socket h.shares hallowed).1

theorem move (h : View writer content k n trace held ctx store) {m : Move}
    (hen : m.Enabled ⟨held, ⟨ctx, ⟨store, []⟩⟩⟩)
    (hallowed : m.Allowed (fun p => writer p = some k) (LastFetched content trace k) store) :
    View writer content k n trace (m.onHeld held) (m.onContext ctx store)
      (m.onRemote ctx ⟨store, []⟩).store :=
  h.moves (Moves.one hen) (List.forall_mem_singleton.mpr hallowed)

/-- Something happens that is neither a write nor a fetch of a cached page. -/
theorem event (h : View writer content k n trace held ctx store)
    (hcurrent : current content trace' = current content trace)
    (hfetched : ∀ p f, ctx.Maps p f → ∀ data, LastFetched content trace k p data →
      LastFetched content trace' k p data) :
    View writer content k n trace' held ctx store where
  rep := h.rep
  socket := h.socket
  size := h.size
  shares := h.shares.mono (fun p _ => congrFun hcurrent p) (fun _ _ => rfl)
    fun p f hm _ hdata => hfetched p f hm _ hdata

/-- A page that is not cached is fetched. -/
theorem get (h : View writer content k n trace held ctx store) {p : Nat}
    (hv : (ctx.pageTable p).valid = false) (data : Page) :
    View writer content k n (trace ++ [.get k p data]) held ctx store := by
  refine h.event (by rw [current_snoc]) fun q f hm data hdata => ?_
  have hqp : p ≠ q := by
    rintro rfl
    exact absurd hv hm.not_absent
  exact (lastFetched_snoc (by simp [Event.isGet, hqp])).mpr hdata

end View

/-- A foreign page is not accessed for writing. -/
theorem writeByte_of_foreign {own : Prop} {write : Int32} (hwriter : write ≠ 0 → own)
    (hforeign : ¬ own) : writeByte write = 0 := by
  have hzero : write = 0 := by
    by_contra hne
    exact hforeign (hwriter hne)
  rw [hzero]
  rfl

/-- The call returns: the caller reads the right content, and its own change is the current one. -/
theorem handOver_ok (h : View writer content k n trace ∅ ctx store)
    (hrec : Recorded writer content trace store) {a : Access}
    (hready : a.Ready (fun p => writer p = some k) ctx) :
    TurnOk writer content k n trace (handOver k ctx a).1 store (handOver k ctx a).2 := by
  have hread : EventOk writer content trace (.read k a.pageId (ctx.localMemory a.frame)) :=
    ⟨h.shares.cached _ _ hready.maps, fun hown => (h.shares.foreign _ _ hready.maps hown).2⟩
  have hrec₁ := hrec.snoc hread fun _ => rfl
  have h₁ : View writer content k n (trace ++ [.read k a.pageId (ctx.localMemory a.frame)]) ∅ ctx
      store := h.event (current_snoc ..) fun _ _ _ _ hdata => (lastFetched_snoc rfl).mpr hdata
  obtain ⟨-, hnv, hsock⟩ := callerChange_sizes ctx a.frame a.write a.change
  have hchanged := h₁.shares.callerChange h.rep hready.maps a.write a.change hready.dirty
  by_cases hw : a.write = 0
  · simp only [handOver, if_pos hw]
    refine .one rfl ⟨h.rep.callerChange _ _ _, hsock ▸ h.socket, hnv.trans h.size, ?_, trivial⟩ hrec₁
    rwa [if_pos hw] at hchanged
  · have hown := (hready.dirty hw).1
    simp only [handOver, if_neg hw]
    refine .cons rfl (.one rfl ⟨h.rep.callerChange _ _ _, hsock ▸ h.socket, hnv.trans h.size, ?_,
      trivial⟩ (hrec₁.snoc hown fun _ => rfl))
    rw [if_neg hw, h₁.shares.cached _ _ hready.maps hown |>.symm] at hchanged
    refine hchanged.mono (fun _ _ => by rw [current_snoc]) (fun _ _ => rfl) fun p f _ _ hdata => ?_
    exact (lastFetched_snoc rfl).mpr hdata

theorem finish_ok (h : View writer content k n trace ∅ ctx store)
    (hrec : Recorded writer content trace store) {next : Option Access}
    (hnext : ∀ a ∈ next, a.Ready (fun p => writer p = some k) ctx) :
    TurnOk writer content k n trace (finish k ctx next).1 store (finish k ctx next).2 := by
  cases next with
  | none => exact .nil (View.client h trivial) hrec
  | some a =>
      have h₁ := h.move (m := .remember a.pageId) trivial trivial
      obtain ⟨hmaps, hdirty⟩ := hnext a rfl
      exact handOver_ok h₁ hrec ⟨hmaps, hdirty⟩

/-- A prefetch leaves a page that is ready alone. -/
theorem Access.Ready.prefetching {own : Nat → Prop} {w w' : Work} {ms : List Move} {a : Access}
    (h : a.Ready own w.pager.ctx) (hrun : Moves w ms w') (hms : ∀ m ∈ ms, m.IsPrefetching) :
    a.Ready own w'.pager.ctx := by
  have hkeep := prefetching_keep hrun hms h.maps.2.1 rfl
  have hnv := hrun.sizes.2.1
  refine ⟨⟨hnv ▸ h.maps.1, ?_, ?_⟩, ?_⟩
  · rw [hkeep]
    exact h.maps.2.1
  · rw [hkeep]
    exact h.maps.2.2
  · rw [hkeep]
    exact h.dirty

/-- A prefetch collects its pages and goes to ask for them, or finds nothing to do. -/
theorem beginPrefetch_ok (h : View writer content k n trace ∅ ctx store)
    (hrec : Recorded writer content trace store) {next : Option Access}
    (hnext : ∀ a ∈ next, a.Ready (fun p => writer p = some k) ctx)
    {startPage : Nat} (hstart : startPage < 2 ^ 32) (count : Nat) :
    ∃ c events, beginPrefetch k ctx startPage count next = some (c, events) ∧
      TurnOk writer content k n trace c store events := by
  obtain ⟨batch, ctx', heq, hrun, hcol, -⟩ :=
    prefetchCollect_run ⟨store, []⟩ startPage count 0 ctx [] ∅ h.rep hstart
  rw [List.nil_append] at heq
  rw [Finset.empty_union] at hrun
  have htakes : Moves ⟨∅, ctx, ⟨store, []⟩⟩ ((batch.map Prod.snd).map .take)
      ⟨frameSet batch, ctx', ⟨store, []⟩⟩ := by
    rw [List.map_map]
    exact hrun
  have h₁ : View writer content k n trace (frameSet batch) ctx' store := h.moves hrun fun m hm => by
    obtain ⟨x, -, rfl⟩ := List.mem_map.mp hm
    trivial
  have hnext' : ∀ a ∈ next, a.Ready (fun p => writer p = some k) ctx' := fun a ha =>
    (hnext a ha).prefetching hrun fun m hm => by
      obtain ⟨x, -, rfl⟩ := List.mem_map.mp hm
      trivial
  have hcol' := Collected.after_takes _ htakes hcol
  cases batch with
  | nil => exact ⟨_, _, by rw [beginPrefetch, heq]; rfl, finish_ok h₁ hrec hnext'⟩
  | cons x batch =>
      refine ⟨⟨ctx', .prefetching [] (x :: batch) next⟩, [], by rw [beginPrefetch, heq]; rfl, ?_⟩
      exact .nil (View.client h₁ ⟨⟨_, _, hcol'⟩, by simp, hnext'⟩) hrec

/-- The turn of an access's GET. -/
theorem fetchPage_ok {a : Access} (h : Client.Ok writer content k n trace store ⟨ctx, .fetching a⟩)
    (hrec : Recorded writer content trace store) :
    ∃ c events, fetchPage k ctx store a = some (c, events) ∧
      TurnOk writer content k n trace c store events := by
  obtain ⟨p, f, write, change⟩ := a
  obtain ⟨hp, hv, hflag, hwriter⟩ := h.doing
  have hf : f ∈ ({f} : Finset Nat) := Finset.mem_singleton_self f
  -- The event of the GET, then the move.
  have hrec₁ : Recorded writer content (trace ++ [.get k p (store p)]) store :=
    hrec.snoc (hrec.store_ok p) fun _ => rfl
  have hen : (Move.fetch p f write).Enabled ⟨{f}, ctx, ⟨store, []⟩⟩ := ⟨h.socket, hf, hp, hv⟩
  have h₁ := ((View.of_client h).get hv (store p)).move hen fun hown =>
    ⟨writeByte_of_foreign hwriter hown, lastFetched_get hrec.store_ok k p⟩
  simp only [Doing.held, Move.onHeld, Finset.erase_singleton] at h₁
  have hready : Access.Ready (fun p => writer p = some k)
      ((Move.fetch p f write).onContext ctx store) ⟨p, f, write, change⟩ := by
    refine ⟨⟨hp, ?_, ?_⟩, fun hne => ⟨hwriter hne, ?_⟩⟩
    · simp [Move.onContext, mapPage, setFrame, setEntry]
    · simp [Move.onContext, mapPage, setFrame, setEntry]
    · obtain rfl : write = 1 := hflag.resolve_left hne
      have hone : writeByte 1 ≠ 0 := by decide
      simpa [Move.onContext, mapPage, setFrame, setEntry] using hone
  have hmem : RepInv {f} { ctx.setMemory f (store p) with
      remoteFetches := u64 (ctx.remoteFetches + 1) } :=
    h.rep.congr (fun _ => rfl) (fun _ => rfl) rfl rfl rfl rfl h.rep.hand_lt
  have hinstall : accessInstall { ctx.setMemory f (store p) with
      remoteFetches := u64 ((ctx.setMemory f (store p)).remoteFetches + 1) } p f write true =
      some ((Move.fetch p f write).onContext ctx store) := accessInstall_eq hmem hf hp write true
  have hnext : ∀ a ∈ some (Access.mk p f write change), a.Ready (fun p => writer p = some k)
      ((Move.fetch p f write).onContext ctx store) := fun a ha => Option.some.inj ha ▸ hready
  -- The rest of the access prefetches or returns.
  by_cases hseq : p = u32 (((Move.fetch p f write).onContext ctx store).lastPageId + 1)
  · obtain ⟨c, events, heq, hturn⟩ := beginPrefetch_ok h₁ hrec₁ hnext (u32_lt (p + 1))
      ((Move.fetch p f write).onContext ctx store).prefetchCount
    refine ⟨c, .get k p (store p) :: events, ?_, hturn.cons rfl⟩
    simp only [fetchPage, Option.bind_eq_bind, hinstall, Option.bind_some, if_pos hseq, heq]
    rfl
  · refine ⟨_, _, ?_, (finish_ok h₁ hrec₁ hnext).cons rfl⟩
    simp only [fetchPage, Option.bind_eq_bind, hinstall, Option.bind_some, if_neg hseq]
    rfl

/-- An eviction on the way to a frame: nothing is sent, or an owned page is put back. -/
theorem evicted_ok (h : View writer content k n trace ∅ ctx store)
    (hrec : Recorded writer content trace store) {qs : List Nat} {q f : Nat} {s : Pager}
    (hrun : Moves ⟨∅, ⟨ctx, ⟨store, []⟩⟩⟩ (qs.map .sweep ++ [.evict q f]) ⟨{f}, s⟩) {a : Access}
    (hframe : a.frame = f) (hp : a.pageId < n) (hv : (ctx.pageTable a.pageId).valid = false)
    (hflag : a.Flagged fun p => writer p = some k) :
    TurnOk writer content k n trace ⟨s.ctx, .fetching a⟩ s.remote.store
      (putEvents k s.remote.log) := by
  subst hframe
  have h₁ := h.moves hrun fun m hm => by
    rcases List.mem_append.mp hm with hm | hm
    · obtain ⟨q, -, rfl⟩ := List.mem_map.mp hm
      trivial
    · obtain rfl := List.mem_singleton.mp hm
      trivial
  have hdoing : a.pageId < s.ctx.numVirtualPages ∧ (s.ctx.pageTable a.pageId).valid = false ∧
      a.Flagged fun p => writer p = some k :=
    ⟨hp.trans_eq h₁.size.symm, (sweeps_keep qs hrun).2 a.pageId hv, hflag⟩
  rcases Shares.evicted_remote (s := ⟨ctx, ⟨store, []⟩⟩) h.rep h.socket h.shares hrun with
    hremote | ⟨hown, hremote⟩
  · rw [hremote] at h₁ ⊢
    exact .nil (View.client h₁ hdoing) hrec
  · have hevents : putEvents k s.remote.log = [.put k q (current content trace q)] := by
      rw [hremote]
      rfl
    have h₂ : View writer content k n (trace ++ [.put k q (current content trace q)]) {a.frame}
        s.ctx s.remote.store :=
      h₁.event (current_snoc ..) fun _ _ _ _ hdata => (lastFetched_snoc rfl).mpr hdata
    rw [hevents]
    exact .one rfl (View.client h₂ hdoing) (hremote ▸ hrec.put hown)

/-- The turn that begins an access. -/
theorem beginAccess_ok (h : Client.Ok writer content k n trace store ⟨ctx, .idle⟩)
    (hrec : Recorded writer content trace store) {p : Nat} (hp : p < n) {write : Int32}
    (hwrite : write = 0 ∨ write = 1) (hwriter : write ≠ 0 → writer p = some k)
    (change : Page → Page) :
    ∃ c store' events, beginAccess k ctx store p write change = some (c, store', events) ∧
      TurnOk writer content k n trace c store' events := by
  have hp' : p < ctx.numVirtualPages := hp.trans_eq h.size.symm
  have hflag : ∀ f, Access.Flagged (fun p => writer p = some k) ⟨p, f, write, change⟩ :=
    fun _ => ⟨hwrite, hwriter⟩
  have hview := View.of_client h
  cases hv : (ctx.pageTable p).valid with
  | true =>
      have hmaps : ctx.Maps p (ctx.pageTable p).frameNumber := ⟨hp', hv, rfl⟩
      have hlt := ((h.rep.maps_iff _ _).mp hmaps).1
      have hen : (Move.hit p write).Enabled ⟨∅, ctx, ⟨store, []⟩⟩ := ⟨hp', hv⟩
      have hhit : AccessMoves ctx p write ⟨.ok, .ok, true⟩ (some _) [.hit p write] := .hit _ hmaps
      obtain ⟨hmaps', hdirty⟩ := AccessMoves.returns (s := ⟨ctx, ⟨store, []⟩⟩) hhit hp'
        (Moves.one hen)
      have h₁ := hview.move hen (writeByte_of_foreign hwriter)
      refine ⟨_, _, _, beginAccess_hit k hp' hv hlt store write change,
        handOver_ok h₁ hrec ⟨hmaps', fun hne => ⟨hwriter hne, ?_⟩⟩⟩
      obtain rfl : write = 1 := hwrite.resolve_left hne
      exact hdirty (by decide)
  | false =>
      cases hfl : ctx.freeList with
      | cons f rest =>
          have hf : f ≠ dsmNoFrame :=
            h.rep.ne_noFrame (h.rep.lt_of_free (by rw [hfl]; exact List.mem_cons_self))
          have hen : (Move.take f).Enabled ⟨∅, ctx, ⟨store, []⟩⟩ := by
            show ctx.freeList.head? = some f
            rw [hfl]
            rfl
          have h₁ := hview.move hen trivial
          rw [Move.onContext, hfl, List.tail_cons] at h₁
          exact ⟨_, store, [], beginAccess_take k hp' hv hfl hf store write change,
            .nil (View.client h₁ ⟨hp', hv, hflag f⟩) hrec⟩
      | nil =>
          obtain ⟨r, s, heq, hev⟩ := evictPage_evicted (s := ⟨ctx, ⟨store, []⟩⟩) h.rep hfl .ok
          cases hev with
          | failed _ hout _ => cases hout
          | victim qs hrun =>
              have hrep := h.rep.moves hrun
              have hr : r ≠ dsmNoFrame :=
                hrep.ne_noFrame (hrep.lt_of_held (Finset.mem_singleton_self r))
              have hbegin := beginAccess_evict k hp' hv hfl heq write change
              rw [if_neg hr] at hbegin
              exact ⟨_, _, _, hbegin, evicted_ok hview hrec hrun rfl hp hv (hflag r)⟩

/-- The turn in which the server handles one GET of a batch. -/
theorem batchGet_ok {got : List ((Nat × Nat) × Page)} {x : Nat × Nat} {todo : List (Nat × Nat)}
    {next : Option Access}
    (h : Client.Ok writer content k n trace store ⟨ctx, .prefetching got (x :: todo) next⟩)
    (hrec : Recorded writer content trace store) :
    TurnOk writer content k n trace
      ⟨ctx, .prefetching (got ++ [(x, store x.1)]) todo next⟩ store [.get k x.1 (store x.1)] := by
  obtain ⟨⟨lo, hi, hcol⟩, hgot, hnext⟩ := h.doing
  have hbatch : (got ++ [(x, store x.1)]).map Prod.fst ++ todo = got.map Prod.fst ++ x :: todo := by
    simp
  obtain ⟨-, -, hp, hv, -⟩ := hcol.absent x (by simp)
  -- The pages of a batch are distinct, so this GET is not one of a page received before.
  have hne : ∀ y ∈ got, x.1 ≠ y.1.1 := by
    intro y hy heq
    have hpages := hcol.pages
    rw [List.map_append, List.pairwise_append] at hpages
    have hlt := hpages.2.2 y.1.1 (List.mem_map_of_mem (List.mem_map_of_mem hy)) x.1 (by simp)
    omega
  have h₁ := (View.of_client h).get hv (store x.1)
  rw [Doing.held, ← hbatch] at h₁
  refine .one rfl (View.client h₁ ⟨⟨lo, hi, hbatch ▸ hcol⟩, ?_, hnext⟩)
    (hrec.snoc (hrec.store_ok x.1) fun _ => rfl)
  intro y hy
  rcases List.mem_append.mp hy with hy | hy
  · refine ⟨fun hown => ?_, fun hown => ?_⟩
    · rw [current_snoc]
      exact (hgot y hy).1 hown
    · exact (lastFetched_snoc (by simp [Event.isGet, hne y hy])).mpr ((hgot y hy).2 hown)
  · obtain rfl := List.mem_singleton.mp hy
    refine ⟨fun hown => ?_, fun _ => lastFetched_get hrec.store_ok k x.1⟩
    rw [current_snoc]
    exact h.shares.absent x.1 hp hv hown

/-- The server's pages with those of a batch as they were received. -/
def received (got : List ((Nat × Nat) × Page)) (store : Nat → Page) (p : Nat) : Page :=
  ((got.find? fun x => x.1.1 = p).map Prod.snd).getD (store p)

theorem received_of_mem {got : List ((Nat × Nat) × Page)} (store : Nat → Page)
    (hpages : ((got.map Prod.fst).map Prod.fst).Pairwise (· < ·)) {x : (Nat × Nat) × Page}
    (hx : x ∈ got) : received got store x.1.1 = x.2 := by
  induction got with
  | nil => simp at hx
  | cons y got ih =>
      simp only [List.map_cons, List.pairwise_cons] at hpages
      rcases List.mem_cons.mp hx with rfl | hx
      · simp [received]
      · have hlt := hpages.1 x.1.1 (List.mem_map_of_mem (List.mem_map_of_mem hx))
        have hyx : y.1.1 ≠ x.1.1 := by omega
        simpa [received, hyx] using ih hpages.2 hx

/-- A page that was not received is as the server has it. -/
theorem received_cases (got : List ((Nat × Nat) × Page)) (store : Nat → Page) (p : Nat) :
    (∃ x ∈ got, x.1.1 = p ∧ received got store p = x.2) ∨ received got store p = store p := by
  unfold received
  cases hfind : got.find? fun x => x.1.1 = p with
  | none => exact .inr rfl
  | some x =>
      have hx := List.find?_some hfind
      exact .inl ⟨x, List.mem_of_find?_eq_some hfind, by simpa using hx, rfl⟩

/-- The turn that installs a batch. By then the server may have other contents of foreign pages. -/
theorem commit_ok {got : List ((Nat × Nat) × Page)} {next : Option Access}
    (h : Client.Ok writer content k n trace store ⟨ctx, .prefetching got [] next⟩)
    (hrec : Recorded writer content trace store) :
    ∃ ctx', prefetchCommit (got.map Prod.fst) (got.map Prod.snd) ctx = some ctx' ∧
      TurnOk writer content k n trace (finish k ctx' next).1 store (finish k ctx' next).2 := by
  obtain ⟨⟨lo, hi, hcol⟩, hgot, hnext⟩ := h.doing
  rw [List.append_nil] at hcol
  have hdata : ((got.map Prod.fst).map Prod.fst).map (received got store) = got.map Prod.snd := by
    rw [List.map_map, List.map_map]
    exact List.map_congr_left fun x hx => received_of_mem store hcol.pages hx
  -- On owned pages the batch and the server agree, so the moves may be made with the batch.
  have hown : ∀ p, writer p = some k → received got store p = store p := by
    intro p hp
    rcases received_cases got store p with ⟨x, hx, rfl, hreceived⟩ | hsame
    · obtain ⟨-, -, hlt, hv, -⟩ := hcol.absent x.1 (List.mem_map_of_mem hx)
      rw [hreceived, (hgot x hx).1 hp, h.shares.absent _ hlt hv hp]
    · exact hsame
  have h₁ : View writer content k n trace (frameSet (got.map Prod.fst)) ctx (received got store) := by
    refine ⟨?_, h.socket, h.size, ?_⟩
    · have hrep := h.rep
      simpa only [Doing.held, List.append_nil] using hrep
    · exact h.shares.mono (fun _ _ => rfl) hown fun _ _ _ _ hdata => hdata
  obtain ⟨ctx', hcommit, hrun⟩ :=
    prefetchCommit_run ⟨received got store, []⟩ lo hi (got.map Prod.fst) ctx h₁.rep hcol
  rw [hdata] at hcommit
  have h₂ := h₁.moves hrun fun m hm => by
    obtain ⟨x, hx, rfl⟩ := List.mem_map.mp hm
    obtain ⟨y, hy, rfl⟩ := List.mem_map.mp hx
    intro hforeign
    show LastFetched content trace k y.1.1 (received got store y.1.1)
    rw [received_of_mem store hcol.pages hy]
    exact (hgot y hy).2 hforeign
  have h₃ : View writer content k n trace ∅ ctx' store :=
    ⟨h₂.rep, h₂.socket, h₂.size, h₂.shares.mono (fun _ _ => rfl) (fun p hp => (hown p hp).symm)
      fun _ _ _ _ hdata => hdata⟩
  refine ⟨ctx', hcommit, finish_ok h₃ hrec fun a ha => (hnext a ha).prefetching hrun fun m hm => ?_⟩
  obtain ⟨x, -, rfl⟩ := List.mem_map.mp hm
  trivial

/-! ## One turn, any number of turns -/

/-- The arguments of the calls: a page of the virtual space and a write flag of `0` or `1`; a 32-bit
start page and an 8-bit count. -/
def Turn.Plain (n : Nat) : Turn → Prop
  | .access pageId write _ => pageId < n ∧ (write = 0 ∨ write = 1)
  | .prefetch startPage count => startPage < 2 ^ 32 ∧ count < 2 ^ 8
  | _ => True

/-- Only the writer of a page accesses it for writing. -/
def Turn.WritesOwn (writer : Nat → Option κ) (k : κ) : Turn → Prop
  | .access pageId write _ => write ≠ 0 → writer pageId = some k
  | _ => True

/-- The turns a client can take where it is. -/
def Turn.Fits : Doing → Turn → Prop
  | .idle, .access _ _ _ => True
  | .idle, .prefetch _ _ => True
  | .fetching _, .get => True
  | .prefetching _ (_ :: _) _, .batchGet => True
  | .prefetching _ [] _, .commit => True
  | _, _ => False

omit [DecidableEq κ] in
theorem Turn.fits_of_turn {c : Client} {t : Turn} {r : Client × (Nat → Page) × List (Event κ)}
    (h : c.turn k store t = some r) : t.Fits c.doing := by
  obtain ⟨ctx, doing⟩ := c
  cases doing with
  | idle =>
      cases t with
      | access | prefetch => trivial
      | _ => cases h
  | fetching a =>
      cases t with
      | get => trivial
      | _ => cases h
  | prefetching got todo next =>
      cases t with
      | batchGet =>
          cases todo with
          | nil => cases h
          | cons x todo => trivial
      | commit =>
          cases todo with
          | nil => trivial
          | cons x todo => cases h
      | _ => cases h

/-- **One turn** of a client: it can be taken, and it ends well. -/
theorem Client.Ok.turn {c : Client} {t : Turn} (h : c.Ok writer content k n trace store)
    (hrec : Recorded writer content trace store)
    (hfits : t.Fits c.doing) (hplain : t.Plain n) (hown : t.WritesOwn writer k) :
    ∃ c' store' events, c.turn k store t = some (c', store', events) ∧
      TurnOk writer content k n trace c' store' events := by
  obtain ⟨ctx, doing⟩ := c
  cases doing with
  | idle =>
      cases t with
      | access p write change => exact beginAccess_ok h hrec hplain.1 hplain.2 hown change
      | prefetch startPage count =>
          have hnext : ∀ a ∈ (none : Option Access), a.Ready (fun p => writer p = some k) ctx := by
            simp
          obtain ⟨c', events, heq, hok⟩ :=
            beginPrefetch_ok (View.of_client h) hrec hnext hplain.1 count
          exact ⟨c', store, events, by simp [Client.turn, heq], hok⟩
      | _ => exact hfits.elim
  | fetching a =>
      cases t with
      | get =>
          obtain ⟨c', events, heq, hok⟩ := fetchPage_ok h hrec
          exact ⟨c', store, events, by simp [Client.turn, heq], hok⟩
      | _ => exact hfits.elim
  | prefetching got todo next =>
      cases t with
      | batchGet =>
          cases todo with
          | nil => exact hfits.elim
          | cons x todo => exact ⟨_, _, _, rfl, batchGet_ok h hrec⟩
      | commit =>
          cases todo with
          | nil =>
              obtain ⟨ctx', heq, hok⟩ := commit_ok h hrec
              exact ⟨_, _, _, by simp [Client.turn, heq], hok⟩
          | cons x todo => exact hfits.elim
      | _ => simp [Turn.Fits] at hfits

/-- The invariant of all clients and the server. -/
structure Sharing.Ok (writer : Nat → Option κ) (content : Nat → Page) (geometry : κ → Geometry)
    (s : Sharing κ) : Prop where
  clients_ok : ∀ k, (s.clients k).Ok writer content k (geometry k).numVirtualPages s.trace s.store
  recorded : Recorded writer content s.trace s.store

theorem Sharing.Ok.start (writer : Nat → Option κ) (content : Nat → Page) {geometry : κ → Geometry}
    (hvalid : ∀ k, (geometry k).Valid) :
    (Sharing.start geometry content).Ok writer content geometry := by
  refine ⟨fun k => ?_, ?_, fun p => rfl⟩
  · have hg := hvalid k
    refine ⟨RepInv.connect hg.numPages_pos hg.numPages_lt hg.numVirtualPages_lt _,
      hg.sockFd_nonneg, rfl, ⟨?_, ?_, ?_, fun _ _ _ _ => rfl, ?_⟩, trivial⟩
    all_goals exact fun p f hm => absurd hm (not_maps_connect _ _ _ p f)
  · intro pre e hpre
    simp [Sharing.start] at hpre

theorem Sharing.Ok.step {geometry : κ → Geometry} {s : Sharing κ}
    (h : s.Ok writer content geometry) {j : κ} {t : Turn} (hfits : t.Fits (s.clients j).doing)
    (hplain : t.Plain (geometry j).numVirtualPages) (hown : t.WritesOwn writer j) :
    ∃ s', SharingStep s (j, t) s' ∧ s'.Ok writer content geometry := by
  obtain ⟨c, store, events, heq, hok⟩ := (h.clients_ok j).turn h.recorded hfits hplain hown
  have hrec : Recorded writer content (s.trace ++ events) store := ⟨hok.trace_ok, hok.store_ok⟩
  refine ⟨⟨Function.update s.clients j c, store, s.trace ++ events⟩, ?_, ?_, hrec⟩
  · simp [SharingStep, Sharing.step, heq]
  · intro i
    by_cases hi : i = j
    · subst hi
      show (Function.update s.clients i c i).Ok _ _ _ _ _ _
      rw [Function.update_self]
      exact hok.client_ok
    · show (Function.update s.clients j c i).Ok _ _ _ _ _ _
      rw [Function.update_of_ne hi]
      exact (h.clients_ok i).others hi hok.by_client h.recorded hrec

theorem Sharing.Ok.run {geometry : κ → Geometry} {s s' : Sharing κ} {turns : List (κ × Turn)}
    (h : s.Ok writer content geometry) (hrun : SharingRun s turns s')
    (hplain : ∀ e ∈ turns, e.2.Plain (geometry e.1).numVirtualPages)
    (hown : ∀ e ∈ turns, e.2.WritesOwn writer e.1) : s'.Ok writer content geometry := by
  refine hrun.invariant_of_labels (Sharing.Ok writer content geometry)
    (fun e => e.2.Plain (geometry e.1).numVirtualPages ∧ e.2.WritesOwn writer e.1) ?_
    (fun e he => ⟨hplain e he, hown e he⟩) h
  rintro v ⟨j, t⟩ v' ⟨hp, ho⟩ hv hstep
  have hturn : ∃ r, (v.clients j).turn j v.store t = some r := by
    simp only [SharingStep, Sharing.step, Option.bind_eq_bind, Option.bind_eq_some_iff] at hstep
    obtain ⟨r, hr, -⟩ := hstep
    exact ⟨r, hr⟩
  obtain ⟨r, hr⟩ := hturn
  obtain ⟨v'', hstep', hv''⟩ := hv.step (Turn.fits_of_turn hr) hp ho
  obtain rfl := Option.some.inj (hstep.symm.trans hstep')
  exact hv''

/-! ## Partitioned writes are safe -/

/-- **Partitioned writes are safe.** Any number of clients, with caches of any sizes, take turns in
any order; each page is accessed for writing by its writer only. Then all that the clients see and
send is right, and no client is ever stuck: the turn it is due can be taken. -/
theorem partitioned_writes_safe (geometry : κ → Geometry) (hvalid : ∀ k, (geometry k).Valid)
    (content : Nat → Page) (writer : Nat → Option κ) {turns : List (κ × Turn)} {s : Sharing κ}
    (hrun : SharingRun (Sharing.start geometry content) turns s)
    (hplain : ∀ e ∈ turns, e.2.Plain (geometry e.1).numVirtualPages)
    (hwriter : ∀ e ∈ turns, e.2.WritesOwn writer e.1) :
    Safe writer content s.trace ∧
    ∀ k t, t.Fits (s.clients k).doing → t.Plain (geometry k).numVirtualPages →
      t.WritesOwn writer k → ∃ s', SharingStep s (k, t) s' := by
  have hok := (Sharing.Ok.start writer content hvalid).run hrun hplain hwriter
  refine ⟨hok.recorded.trace_ok.safe, fun k t hfits hp ho => ?_⟩
  obtain ⟨s', hstep, -⟩ := hok.step hfits hp ho
  exact ⟨s', hstep⟩

/-- Client `true` writes page `0` through a cache of one frame, and loses it to page `1`; client
`false` then reads page `0`. -/
def pingPong (change : Page → Page) : List (Bool × Turn) :=
  [(true, .access 0 1 change), (true, .get), (true, .access 1 0 id), (true, .get),
    (false, .access 0 0 id), (false, .get)]

theorem partitioned_writes_safe_pingPong : ∃ s : Sharing Bool,
    SharingRun (Sharing.start (fun _ => ⟨1, 2, 3⟩) fun _ => zeroPage)
      (pingPong fun _ => Vector.replicate 4096 7) s ∧
    (∀ e ∈ pingPong fun _ => Vector.replicate 4096 7, e.2.Plain 2 ∧
      e.2.WritesOwn (fun _ => some true) e.1) ∧
    s.trace.getLast? = some (.read false 0 (Vector.replicate 4096 7)) ∧
    Safe (fun _ => some true) (fun _ => zeroPage) s.trace := by
  have hcalls : ∀ e ∈ pingPong fun _ => Vector.replicate 4096 7, e.2.Plain 2 ∧
      e.2.WritesOwn (fun _ => some true) e.1 := by
    simp [pingPong, Turn.Plain, Turn.WritesOwn]
  have hrun : SharingRun (Sharing.start (fun _ => ⟨1, 2, 3⟩) fun _ => zeroPage)
      (pingPong fun _ => Vector.replicate 4096 7) _ :=
    .cons rfl (.cons rfl (.cons rfl (.cons rfl (.cons rfl (.cons rfl (.nil _))))))
  exact ⟨_, hrun, hcalls, rfl, (partitioned_writes_safe (fun _ => ⟨1, 2, 3⟩)
    (fun _ => ⟨by decide, by decide, by decide, by decide⟩) (fun _ => zeroPage) (fun _ => some true)
    hrun (fun e he => (hcalls e he).1) fun e he => (hcalls e he).2).1⟩

end Dsm.Paging
