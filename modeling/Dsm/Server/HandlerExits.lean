import Dsm.Server.AcceptLoop

/-!
# A handler's exit and its client

When a handler leaves its loop its client learns of it only through the descriptor: `main` has to
shut it down or close it. `main` does so long after the exit, or never. The exits that do reach
their clients are those after `main`'s own shutdown, and in a run without others there is no open
descriptor without a handler.
-/

namespace Dsm.Server

open Dsm.Lib

/-- No handler has left its loop while its client's descriptor is open and not shut down. -/
def AcceptLoop.ExitsReachClients (s : AcceptLoop) : Prop :=
  ∀ t ∈ s.threads, t.status.inLoop = false → s.fds[t.fd]? ≠ some .opened

/-! ## What keeps a handler in its loop -/

/-- The turn gives the handler no reason to leave: `running` is set when it is tested, the receive
and the send succeed, and a PUT is for a page that is stored here or forwarded with success. -/
def AcceptLoop.Agreeable (s : AcceptLoop) : HandlerTurn → Prop
  | .test => s.running = true
  | .recvFailed => False
  | .request (.get _) _ sent => sent = true
  | .request (.put pageId _) forwarded sent =>
      sent = true ∧ (s.server.Serves pageId ∨ s.server.cluster.isSome ∧ forwarded = true)
  | .request (.other _ _) _ _ => True

/-- The step is not a turn of a handler with an open descriptor, or the turn is agreeable. -/
def AcceptLoop.Untroubled (s : AcceptLoop) : LoopEvent → Prop
  | .handler tid turn =>
      ∀ t, s.threads[tid]? = some t → s.fds[t.fd]? = some .opened → s.Agreeable turn
  | _ => True

theorem PageServer.goesOn_get (s : PageServer) (pageId : UInt32) (forwarded sent : Bool) :
    s.goesOn (.get pageId) forwarded sent = sent := by
  simp only [PageServer.goesOn, PageServer.dispatch]
  split_ifs <;> rfl

theorem PageServer.goesOn_put (s : PageServer) (pageId : UInt32) (data : Page)
    (forwarded sent : Bool) :
    s.goesOn (.put pageId data) forwarded sent = true ↔
      sent = true ∧ (s.Serves pageId ∨ s.cluster.isSome ∧ forwarded = true) := by
  simp only [PageServer.goesOn, PageServer.dispatch, PageServer.Serves]
  split_ifs with hlocal hcluster
  · simp [hlocal]
  · simp [hlocal, hcluster, and_comm]
  · simp [hlocal, hcluster]

theorem AcceptLoop.goesOn_iff (s : AcceptLoop) (turn : HandlerTurn) :
    s.goesOn turn = true ↔ s.Agreeable turn := by
  match turn with
  | .test => exact Iff.rfl
  | .recvFailed => exact Bool.false_eq_true.to_iff
  | .request (.get pageId) forwarded sent =>
      show s.server.goesOn (.get pageId) forwarded sent = true ↔ sent = true
      rw [s.server.goesOn_get]
  | .request (.put pageId data) forwarded sent => exact s.server.goesOn_put _ _ _ _
  | .request (.other op pageId) forwarded sent => exact iff_true_intro rfl

/-! ## What a handler's turn does -/

theorem ThreadStatus.turn_inLoop {status next : ThreadStatus} {turn : HandlerTurn}
    (h : status.turn turn = some next) : next.inLoop = true := by
  cases status <;> cases turn <;> cases h <;> rfl

theorem AcceptLoop.handlerStep_spec {s s' : AcceptLoop} {tid : Nat} {turn : HandlerTurn}
    (h : s.handlerStep tid turn = some s') :
    ∃ t status, s.threads[tid]? = some t ∧ s'.threads = s.threads.set tid ⟨t.fd, status⟩ ∧
      (status.inLoop = true ↔ s.Agreeable turn) ∧ s'.fds = s.fds ∧ s'.main = s.main := by
  simp only [AcceptLoop.handlerStep, Option.bind_eq_bind, Option.bind_eq_some_iff] at h
  obtain ⟨t, ht, next, hnext, heq⟩ := h
  obtain rfl := Option.some.inj heq
  refine ⟨t, _, ht, rfl, ?_, rfl, rfl⟩
  rw [← s.goesOn_iff turn]
  have hin := ThreadStatus.turn_inLoop hnext
  cases hgo : s.goesOn turn with
  | true => exact iff_of_true hin rfl
  | false => exact iff_of_false Bool.false_ne_true Bool.false_ne_true

/-- A turn that leaves the loop leaves an open descriptor behind. -/
theorem AcceptLoop.untroubled_of_exitsReachClients {s s' : AcceptLoop} {event : LoopEvent}
    (hstep : LoopStep s event s') (h : s'.ExitsReachClients) : s.Untroubled event := by
  cases event with
  | signal => trivial
  | main call => trivial
  | handler tid turn =>
      intro t ht hopen
      obtain ⟨t', status, ht', hthreads, hstatus, hfds, -⟩ := AcceptLoop.handlerStep_spec hstep
      obtain rfl : t = t' := Option.some.inj (ht.symm.trans ht')
      by_contra hbad
      have hlt := (List.getElem?_eq_some_iff.mp ht).1
      have hmem : ⟨t.fd, status⟩ ∈ s'.threads := hthreads ▸ List.mem_set hlt _
      refine h _ hmem (Bool.eq_false_iff.mpr fun hin => hbad (hstatus.mp hin)) ?_
      rw [hfds]
      exact hopen

/-! ## What `main` keeps -/

/-- **The invariant of untroubled runs**: besides that exits reach clients, every descriptor that a
thread or `main` holds is one that was accepted, so that an accept reopens none of them. -/
structure AcceptLoop.Quiet (s : AcceptLoop) : Prop where
  threads : ∀ t ∈ s.threads, t.fd < s.fds.length
  client : ∀ fd, s.main.clientFd = some fd → fd < s.fds.length
  exits : s.ExitsReachClients

section Quiet

variable {s s' : AcceptLoop}

theorem AcceptLoop.Quiet.start (server : PageServer) : (AcceptLoop.start server).Quiet where
  threads := fun _ h => absurd h List.not_mem_nil
  client := fun _ h => nomatch h
  exits := fun _ h => absurd h List.not_mem_nil

/-- Steps that open no descriptor and take no thread out of its loop keep the invariant. -/
theorem AcceptLoop.Quiet.keep (h : s.Quiet) (hlen : s'.fds.length = s.fds.length)
    (hopen : ∀ fd : Nat, s'.fds[fd]? = some .opened → s.fds[fd]? = some .opened)
    (hthreads : ∀ t' ∈ s'.threads, ∃ t ∈ s.threads, t'.fd = t.fd ∧
      (t'.status.inLoop = false → t.status.inLoop = false))
    (hclient : ∀ fd, s'.main.clientFd = some fd → s.main.clientFd = some fd) : s'.Quiet where
  threads := by
    intro t' ht'
    obtain ⟨t, ht, hfd, -⟩ := hthreads t' ht'
    rw [hfd, hlen]
    exact h.threads t ht
  client := by
    intro fd hfd
    rw [hlen]
    exact h.client fd (hclient fd hfd)
  exits := by
    intro t' ht' hout
    obtain ⟨t, ht, hfd, hloop⟩ := hthreads t' ht'
    rw [hfd]
    exact fun ho => h.exits t ht (hloop hout) (hopen _ ho)

theorem AcceptLoop.Quiet.moveMain (h : s.Quiet) (hfds : s'.fds = s.fds)
    (hthreads : s'.threads = s.threads)
    (hclient : ∀ fd, s'.main.clientFd = some fd → s.main.clientFd = some fd) : s'.Quiet :=
  h.keep (by rw [hfds]) (fun fd ho => hfds ▸ ho)
    (fun t ht => ⟨t, hthreads ▸ ht, rfl, id⟩) hclient

theorem opened_of_set_closed {fds : List Descriptor} {fd fd' : Nat}
    (h : (fds.set fd .closed)[fd']? = some .opened) : fds[fd']? = some .opened := by
  by_cases heq : fd = fd'
  · subst heq
    rw [List.getElem?_set_self'] at h
    cases hfd : fds[fd]? <;> simp [hfd] at h
  · rwa [List.getElem?_set_ne heq] at h

theorem opened_of_modify_shutdown {fds : List Descriptor} {fd fd' : Nat}
    (h : (fds.modify fd Descriptor.shutdown)[fd']? = some .opened) :
    fds[fd']? = some .opened := by
  rw [List.getElem?_modify] at h
  obtain ⟨d, hd, heq⟩ := Option.map_eq_some_iff.mp h
  split_ifs at heq
  · cases d <;> cases heq
  · rw [hd, heq]

theorem AcceptLoop.Quiet.giveUp (h : s.Quiet) (fd : Nat) : (s.giveUp fd).Quiet :=
  h.keep List.length_set (fun _ => opened_of_set_closed) (fun t ht => ⟨t, ht, rfl, id⟩) nofun

/-- A join takes a thread that has already left its loop. -/
theorem AcceptLoop.Quiet.joinSlot (h : s.Quiet) {slot : ClientSlot}
    (hjoin : s.joinSlot slot = some s') : s'.Quiet ∧ s'.main = s.main := by
  unfold AcceptLoop.joinSlot at hjoin
  split at hjoin
  · next fd hthread =>
      obtain rfl := Option.some.inj hjoin
      refine ⟨h.keep List.length_set (fun _ => opened_of_set_closed) ?_ (fun _ => id), rfl⟩
      intro t' ht'
      rcases List.mem_or_eq_of_mem_set ht' with hmem | rfl
      · exact ⟨t', hmem, rfl, id⟩
      · exact ⟨_, List.mem_of_getElem? hthread, rfl, fun _ => rfl⟩
  · cases hjoin

theorem AcceptLoop.Quiet.accept (h : s.Quiet) :
    AcceptLoop.Quiet
      { s with main := .allocating s.fds.length, fds := s.fds ++ [.opened] } where
  threads := by
    intro t ht
    have := h.threads t ht
    rw [List.length_append]
    omega
  client := by
    intro fd hfd
    obtain rfl := Option.some.inj hfd
    rw [List.length_append]
    exact Nat.lt_succ_self _
  exits := by
    intro t ht hout
    show (s.fds ++ [.opened])[t.fd]? ≠ _
    rw [List.getElem?_append_left (h.threads t ht)]
    exact h.exits t ht hout

theorem AcceptLoop.Quiet.created (h : s.Quiet) {fd : Nat} (hfd : s.main.clientFd = some fd) :
    (s.created fd).Quiet where
  threads := by
    intro t ht
    rcases List.mem_append.mp ht with ht | ht
    · exact h.threads t ht
    · obtain rfl := List.mem_singleton.mp ht
      exact h.client fd hfd
  client := nofun
  exits := by
    intro t ht hout
    rcases List.mem_append.mp ht with ht | ht
    · exact h.exits t ht hout
    · obtain rfl := List.mem_singleton.mp ht
      cases hout

theorem AcceptLoop.Quiet.reapSlot (h : s.Quiet) {clientFd i kept : Nat} {ended : Bool}
    (hat : s.main = .reaping clientFd i kept) (hreap : s.reapSlot clientFd i kept ended = some s') :
    s'.Quiet := by
  unfold AcceptLoop.reapSlot at hreap
  split_ifs at hreap
  · obtain ⟨joined, hjoin, rfl⟩ := Option.map_eq_some_iff.mp hreap
    obtain ⟨hjoined, hmain⟩ := h.joinSlot hjoin
    refine hjoined.moveMain rfl rfl ?_
    rw [hmain, hat]
    exact fun _ => id
  · obtain rfl := Option.some.inj hreap
    refine h.moveMain rfl rfl ?_
    rw [hat]
    exact fun _ => id

theorem AcceptLoop.Quiet.mainStep (h : s.Quiet) {call : MainCall}
    (hstep : s.mainStep call = some s') : s'.Quiet := by
  unfold AcceptLoop.mainStep at hstep
  split at hstep
  case h_1 hat =>
    split_ifs at hstep
    · exact Option.some.inj hstep ▸ h.moveMain rfl rfl nofun
    · exact Option.some.inj hstep ▸ h.moveMain rfl rfl nofun
  case h_2 hat => exact Option.some.inj hstep ▸ h.accept
  case h_3 hat => exact Option.some.inj hstep ▸ h.moveMain rfl rfl nofun
  case h_4 hat => exact Option.some.inj hstep ▸ h.moveMain rfl rfl nofun
  case h_5 fd hat =>
    -- `main` takes the descriptor along, whether it reaps first or not.
    split_ifs at hstep
    · exact Option.some.inj hstep ▸ h.moveMain rfl rfl (hat ▸ fun _ => id)
    · exact Option.some.inj hstep ▸ h.moveMain rfl rfl (hat ▸ fun _ => id)
  case h_6 fd hat => exact Option.some.inj hstep ▸ h.giveUp fd
  case h_7 hat => exact h.reapSlot hat hstep
  case h_8 fd i kept hat =>
    split_ifs at hstep
    · exact Option.some.inj hstep ▸ h.moveMain rfl rfl (hat ▸ fun _ => id)
    · exact Option.some.inj hstep ▸ h.moveMain rfl rfl (hat ▸ fun _ => id)
  case h_9 hat => exact Option.some.inj hstep ▸ h.moveMain rfl rfl (hat ▸ fun _ => id)
  case h_10 fd hat => exact Option.some.inj hstep ▸ h.giveUp fd
  case h_11 fd hat => exact Option.some.inj hstep ▸ h.created (hat ▸ rfl)
  case h_12 fd hat => exact Option.some.inj hstep ▸ h.giveUp fd
  case h_13 i hat =>
    split_ifs at hstep
    · obtain rfl := Option.some.inj hstep
      exact h.keep (List.length_modify ..) (fun _ => opened_of_modify_shutdown)
        (fun t ht => ⟨t, ht, rfl, id⟩) nofun
    · exact Option.some.inj hstep ▸ h.moveMain rfl rfl nofun
  case h_14 i hat =>
    split_ifs at hstep
    · obtain ⟨joined, hjoin, rfl⟩ := Option.map_eq_some_iff.mp hstep
      exact (h.joinSlot hjoin).1.moveMain rfl rfl nofun
    · exact Option.some.inj hstep ▸ h.moveMain rfl rfl nofun
  case h_15 => cases hstep

theorem AcceptLoop.Quiet.handlerStep (h : s.Quiet) {tid : Nat} {turn : HandlerTurn}
    (huntroubled : s.Untroubled (.handler tid turn)) (hstep : s.handlerStep tid turn = some s') :
    s'.Quiet := by
  obtain ⟨t, status, ht, hthreads, hstatus, hfds, hmain⟩ := AcceptLoop.handlerStep_spec hstep
  have hmem : ∀ t' ∈ s'.threads, t' ∈ s.threads ∨ t' = ⟨t.fd, status⟩ := by
    rw [hthreads]
    exact fun _ => List.mem_or_eq_of_mem_set
  refine ⟨?_, ?_, ?_⟩
  · intro t' ht'
    rw [hfds]
    rcases hmem t' ht' with hold | rfl
    · exact h.threads t' hold
    · exact h.threads t (List.mem_of_getElem? ht)
  · rw [hfds, hmain]
    exact h.client
  · intro t' ht' hout
    rw [hfds]
    rcases hmem t' ht' with hold | rfl
    · exact h.exits t' hold hout
    · intro hopen
      have hin := hstatus.mpr (huntroubled t ht hopen)
      rw [hin] at hout
      cases hout

theorem AcceptLoop.Quiet.step (h : s.Quiet) {event : LoopEvent} (huntroubled : s.Untroubled event)
    (hstep : LoopStep s event s') : s'.Quiet := by
  cases event with
  | signal => exact Option.some.inj hstep ▸ h.moveMain rfl rfl (fun _ => id)
  | main call => exact h.mainStep hstep
  | handler tid turn => exact h.handlerStep huntroubled hstep

end Quiet

/-! ## Whole runs -/

theorem LoopStep.functional (s : AcceptLoop) (event : LoopEvent) (t u : AcceptLoop)
    (h₁ : LoopStep s event t) (h₂ : LoopStep s event u) : t = u :=
  Option.some.inj (h₁.symm.trans h₂)

/-- **When exits reach clients.** In a run of the server, with any number of clients and any
requests, no state has a handler out of its loop behind an open descriptor exactly when no handler
is given a reason to leave before its descriptor is shut down. -/
theorem exits_reach_clients_iff (server : PageServer) {events : List LoopEvent} {s : AcceptLoop}
    (hrun : LoopRun (AcceptLoop.start server) events s) :
    (∀ pre, pre <+: events → ∀ t, LoopRun (AcceptLoop.start server) pre t → t.ExitsReachClients) ↔
      ∀ pre event, pre ++ [event] <+: events → ∀ t, LoopRun (AcceptLoop.start server) pre t →
        t.Untroubled event := by
  constructor
  · intro h pre event hpre t ht
    -- The run goes on from `t` with this event.
    obtain ⟨post, rfl⟩ := hpre
    obtain ⟨v, hv, -⟩ := hrun.split
    obtain ⟨u, hu, huv⟩ := hv.split
    obtain rfl := ht.functional LoopStep.functional hu
    cases huv with
    | cons hstep hnil =>
        cases hnil with
        | nil _ =>
            exact AcceptLoop.untroubled_of_exitsReachClients hstep
              (h (pre ++ [event]) (List.prefix_append _ post) v hv)
  · intro h pre hpre t ht
    have hquiet : t.Quiet :=
      ht.invariant_of_guard AcceptLoop.Quiet AcceptLoop.Untroubled
        (fun _ _ _ hguard hinv hstep => hinv.step hguard hstep)
        (fun pre' event hpre' => h pre' event (hpre'.trans hpre)) (AcceptLoop.Quiet.start server)
    exact hquiet.exits

/-! ## One client -/

/-- A standalone server with four pages. -/
def fourPages : PageServer := ⟨none, 4, fun _ => zeroPage⟩

/-- A client is accepted, a signal comes, and `main` has shut the client's descriptor down. -/
def signalled : List LoopEvent :=
  [.main .test, .main .accept, .main (.malloc true), .main (.create true), .signal, .main .test,
    .main .shutdown]

theorem signalled_reached : ∃ s, LoopRun (AcceptLoop.start fourPages) signalled s ∧
    s.threads = [⟨0, .testing⟩] ∧ s.fds = [.shutDown] ∧ s.running = false :=
  ⟨_, .cons rfl (.cons rfl (.cons rfl (.cons rfl (.cons rfl (.cons rfl (.cons rfl (.nil _))))))),
    rfl, rfl, rfl⟩

theorem exits_reach_clients_iff_signalled : ∃ s,
    LoopRun (AcceptLoop.start fourPages) (signalled ++ [.handler 0 .test]) s ∧
      s.threads = [⟨0, .left⟩] ∧
      ∀ pre, pre <+: signalled ++ [.handler 0 .test] →
        ∀ t, LoopRun (AcceptLoop.start fourPages) pre t → t.ExitsReachClients := by
  obtain ⟨s, hrun, hthreads, hfds, hrunning⟩ := signalled_reached
  have hstep : LoopStep s (.handler 0 .test) { s with threads := [⟨0, .left⟩] } := by
    simp [LoopStep, AcceptLoop.step, AcceptLoop.handlerStep, ThreadStatus.turn, AcceptLoop.goesOn,
      hthreads, hrunning]
  refine ⟨_, hrun.snoc hstep, rfl, (exits_reach_clients_iff fourPages (hrun.snoc hstep)).mpr ?_⟩
  intro pre event hpre t ht
  rcases List.prefix_concat_iff.mp hpre with heq | hpre
  · -- The only turn of the handler comes after the shutdown.
    obtain ⟨rfl, hevent⟩ := List.append_inj' heq rfl
    obtain rfl := List.singleton_inj.mp hevent
    obtain rfl := ht.functional LoopStep.functional hrun
    intro t ht hopen
    rw [hthreads] at ht
    obtain rfl := Option.some.inj ht
    rw [hfds] at hopen
    cases hopen
  · have hmem : event ∈ signalled := hpre.subset (List.mem_append_right _ List.mem_cons_self)
    simp only [signalled, List.mem_cons, List.not_mem_nil, or_false] at hmem
    rcases hmem with rfl | rfl | rfl | rfl | rfl | rfl | rfl <;> trivial

/-- **A refused PUT.** The handler leaves its loop on the PUT of a page beyond the storage; `main`
is back in `accept`, and the client's descriptor is open: it waits for an ACK that never comes. -/
theorem refused_put_leaves_client_waiting : ∃ events s,
    LoopRun (AcceptLoop.start fourPages)
      (events ++ [.handler 0 (.request (.put 4 zeroPage) false true)]) s ∧
    s.main = .accepting ∧ ∃ t ∈ s.threads, t.status = .left ∧ s.fds[t.fd]? = some .opened :=
  ⟨[.main .test, .main .accept, .main (.malloc true), .main (.create true), .main .test,
      .handler 0 .test], _,
    .cons rfl (.cons rfl (.cons rfl (.cons rfl (.cons rfl (.cons rfl (.cons rfl (.nil _))))))),
    rfl, _, List.mem_singleton_self _, rfl, rfl⟩

end Dsm.Server
