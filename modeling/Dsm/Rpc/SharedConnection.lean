import Dsm.Lib.Run
import Dsm.Rpc.Wire

/-!
# One peer connection, many handler threads

`cluster_forward_get` and `cluster_forward_put` run in the handler threads, and all threads that
forward to one peer use the one descriptor in `peer_fds`, without a lock. An RPC puts its request on
the stream and later takes as many bytes off the other stream as its reply has. Nothing ties the
bytes to the request: the reply belongs to whoever receives next. The replies come in the order of
the requests, so the threads get their own exactly as long as they receive in that order.
-/

namespace Dsm.Rpc

open Dsm.Server Dsm.Lib

/-! ## The peer's end -/

/-- A complete request at the front of the stream, as the peer's handler reads it. -/
def takeRequest (stream : Bytes) : Option (Request × Bytes) :=
  if stream.length < headerSize then none
  else if headerOp stream = opGetPage then
    some (.get (headerPageId stream), stream.drop headerSize)
  else if headerOp stream = opPutPage then
    if stream.length < headerSize + pageSize then none
    else some (.put (headerPageId stream) (pageOfBytes ((stream.drop headerSize).take pageSize)),
      stream.drop (headerSize + pageSize))
  else some (.other (headerOp stream) (headerPageId stream), stream.drop headerSize)

/-- The peer's answers to a sequence of requests. -/
def answers : PageServer → List Request → Option (PageServer × List Bytes)
  | s, [] => some (s, [])
  | s, req :: reqs => do
      let (s', reply) ← answer s req
      let (s'', replies) ← answers s' reqs
      some (s'', reply :: replies)

/-! ## Reading requests and answering them -/

theorem headerOp_append (op : UInt8) (pageId : UInt32) (rest : Bytes) :
    headerOp (dsmRpcMakeHeader op pageId ++ rest) = op := rfl

theorem headerPageId_append (op : UInt8) (pageId : UInt32) (rest : Bytes) :
    headerPageId (dsmRpcMakeHeader op pageId ++ rest) = pageId :=
  headerPageId_make op pageId

/-- The peer reads the requests that were sent. -/
theorem takeRequest_requestBytes {req : Request} (h : req.Known) (rest : Bytes) :
    takeRequest (requestBytes req ++ rest) = some (req, rest) := by
  cases req with
  | other op pageId => exact h.elim
  | get pageId =>
      unfold takeRequest requestBytes
      rw [headerOp_append, headerPageId_append, if_pos rfl, if_neg]
      · rfl
      · rw [List.length_append, length_dsmRpcMakeHeader]
        omega
  | put pageId data =>
      have hdrop : (dsmRpcMakeHeader opPutPage pageId ++ (data.toList ++ rest)).drop headerSize =
        data.toList ++ rest := rfl
      have hpage : (data.toList ++ rest).take pageSize = data.toList :=
        List.take_left' (length_page_toList data)
      have hrest : (data.toList ++ rest).drop pageSize = rest :=
        List.drop_left' (length_page_toList data)
      unfold takeRequest requestBytes
      rw [List.append_assoc, headerOp_append, headerPageId_append, if_neg, if_neg (by decide),
        if_pos rfl, if_neg, ← List.drop_drop, hdrop, hpage, hrest, pageOfBytes_toList]
      · simp only [List.length_append, length_dsmRpcMakeHeader, length_page_toList]
        omega
      · rw [List.length_append, length_dsmRpcMakeHeader]
        omega

theorem answers_cons {s s'' : PageServer} {req : Request} {reqs : List Request}
    {bs : List Bytes} (h : answers s (req :: reqs) = some (s'', bs)) :
    ∃ s' reply rest, answer s req = some (s', reply) ∧ answers s' reqs = some (s'', rest) ∧
      bs = reply :: rest := by
  simp only [answers, Option.bind_eq_bind, Option.bind_eq_some_iff] at h
  obtain ⟨⟨s', reply⟩, hreply, ⟨s₂, rest⟩, hrest, heq⟩ := h
  obtain ⟨rfl, rfl⟩ := Prod.mk.inj (Option.some.inj heq)
  exact ⟨s', reply, rest, hreply, hrest, rfl⟩

theorem answers_snoc {s s' s'' : PageServer} {reqs : List Request} {bs : List Bytes} {req : Request}
    {reply : Bytes} (h : answers s reqs = some (s', bs)) (hreq : answer s' req = some (s'', reply)) :
    answers s (reqs ++ [req]) = some (s'', bs ++ [reply]) := by
  induction reqs generalizing s bs with
  | nil =>
      obtain ⟨rfl, rfl⟩ := Prod.mk.inj (Option.some.inj h)
      simp [answers, hreq]
  | cons r reqs ih =>
      obtain ⟨s₁, b, rest, hr, hrest, rfl⟩ := answers_cons h
      have := ih hrest
      simp [answers, hr, this]

/-- The answer to each request is the one of the peer as the requests before it left it. -/
theorem answers_getElem {s s' : PageServer} {reqs : List Request} {bs : List Bytes}
    (h : answers s reqs = some (s', bs)) {i : Nat} {req : Request} (hi : reqs[i]? = some req) :
    ∃ mid next reply, answers s (reqs.take i) = some (mid, bs.take i) ∧
      answer mid req = some (next, reply) ∧ bs[i]? = some reply := by
  induction reqs generalizing s bs i with
  | nil => cases hi
  | cons r reqs ih =>
      obtain ⟨s₁, b, rest, hr, hrest, rfl⟩ := answers_cons h
      cases i with
      | zero =>
          obtain rfl := Option.some.inj hi
          exact ⟨s, s₁, b, rfl, hr, rfl⟩
      | succ i =>
          obtain ⟨mid, next, reply, hmid, hnext, hbs⟩ := ih hrest hi
          refine ⟨mid, next, reply, ?_, hnext, hbs⟩
          simp [answers, hr, hmid]

theorem length_answers {s s' : PageServer} {reqs : List Request} {bs : List Bytes}
    (h : answers s reqs = some (s', bs)) : bs.length = reqs.length := by
  induction reqs generalizing s bs with
  | nil =>
      obtain ⟨-, rfl⟩ := Prod.mk.inj (Option.some.inj h)
      rfl
  | cons r reqs ih =>
      obtain ⟨s₁, b, rest, -, hrest, rfl⟩ := answers_cons h
      rw [List.length_cons, List.length_cons, ih hrest]

/-! ## The threads' end -/

/-- An RPC that has returned: the request it made, as which of all requests on the stream, and the
bytes it took, with their position in the stream of replies. -/
structure Completion where
  serial : Nat
  req : Request
  offset : Nat
  bytes : Bytes

/-- Whether `dsm_rpc_get` or `dsm_rpc_put` returns 0. -/
def Completion.succeeded (c : Completion) : Bool :=
  match c.req with
  | .put _ _ => headerOp c.bytes = opAck
  | _ => true

/-- The connection and the threads that use it. `waiting` has the request a thread has sent; `sent`,
`answered`, `taken` and `completed` are histories. -/
structure Shared (τ : Type*) where
  waiting : τ → Option (Nat × Request)
  sent : List Request
  up : Bytes
  peer : PageServer
  answered : List Bytes
  down : Bytes
  taken : Nat
  completed : List Completion

inductive Turn (τ : Type*)
  | send (t : τ) (req : Request)
  | peer
  | recv (t : τ)

variable {τ : Type*}

def Shared.start (peer : PageServer) : Shared τ := ⟨fun _ => none, [], [], peer, [], [], 0, []⟩

variable [DecidableEq τ]

inductive SharedStep : Shared τ → Turn τ → Shared τ → Prop
  | send {s : Shared τ} {t : τ} {req : Request} : s.waiting t = none → req.Known →
      SharedStep s (.send t req)
        { s with
          waiting := Function.update s.waiting t (some (s.sent.length, req))
          sent := s.sent ++ [req]
          up := s.up ++ requestBytes req }
  | peer {s : Shared τ} {req : Request} {rest reply : Bytes} {peer : PageServer} :
      takeRequest s.up = some (req, rest) → answer s.peer req = some (peer, reply) →
      SharedStep s .peer
        { s with
          up := rest
          peer := peer
          answered := s.answered ++ [reply]
          down := s.down ++ reply }
  | recv {s : Shared τ} {t : τ} {serial : Nat} {req : Request} :
      s.waiting t = some (serial, req) → replySize req ≤ s.down.length →
      SharedStep s (.recv t)
        { s with
          waiting := Function.update s.waiting t none
          down := s.down.drop (replySize req)
          taken := s.taken + replySize req
          completed := s.completed ++ [⟨serial, req, s.taken, s.down.take (replySize req)⟩] }

/-- The thread's request is the oldest of those that wait for a reply. -/
def Shared.Oldest (s : Shared τ) (t : τ) : Prop :=
  ∃ serial req, s.waiting t = some (serial, req) ∧
    ∀ t' serial' req', s.waiting t' = some (serial', req') → serial ≤ serial'

/-- A step in which a thread receives only if its request is the oldest. -/
def InOrderStep (s : Shared τ) (turn : Turn τ) (s' : Shared τ) : Prop :=
  SharedStep s turn s' ∧ ∀ t, turn = .recv t → s.Oldest t

/-! ## In order -/

/-- **The invariant of orderly use**: the streams hold the requests not yet answered and the replies
not yet taken, the RPCs have returned in the order of their requests, each with its own reply, and
the later ones wait, each in one thread. -/
structure Orderly (peer : PageServer) (s : Shared τ) : Prop where
  known : ∀ req ∈ s.sent, req.Known
  up : s.up = (s.sent.drop s.answered.length).flatMap requestBytes
  peer : answers peer (s.sent.take s.answered.length) = some (s.peer, s.answered)
  behind : s.completed.length ≤ s.answered.length
  down : s.down = (s.answered.drop s.completed.length).flatten
  taken : s.taken = ((s.answered.take s.completed.length).map List.length).sum
  waiting : ∀ t serial req, s.waiting t = some (serial, req) →
    s.sent[serial]? = some req ∧ s.completed.length ≤ serial
  outstanding : ∀ serial, s.completed.length ≤ serial → serial < s.sent.length →
    ∃ t req, s.waiting t = some (serial, req)
  unique : ∀ t t' serial req req', s.waiting t = some (serial, req) →
    s.waiting t' = some (serial, req') → t = t'
  completed : ∀ i c, s.completed[i]? = some c → c.serial = i ∧ s.sent[i]? = some c.req ∧
    s.answered[i]? = some c.bytes ∧ c.offset = ((s.answered.take i).map List.length).sum

theorem update_eq_some {α : Type*} {f : τ → Option α} {t t' : τ} {v : Option α} {u : α}
    (h : Function.update f t v t' = some u) :
    (t' = t ∧ v = some u) ∨ (t' ≠ t ∧ f t' = some u) := by
  by_cases ht : t' = t
  · subst ht
    rw [Function.update_self] at h
    exact .inl ⟨rfl, h⟩
  · rw [Function.update_of_ne ht] at h
    exact .inr ⟨ht, h⟩

section Steps

variable {peer : PageServer} {s : Shared τ}

omit [DecidableEq τ]

theorem Orderly.start (peer : PageServer) : Orderly peer (Shared.start peer : Shared τ) where
  known := fun _ h => absurd h List.not_mem_nil
  up := rfl
  peer := rfl
  behind := le_rfl
  down := rfl
  taken := rfl
  waiting := fun _ _ _ h => nomatch h
  outstanding := fun _ _ h => absurd h (Nat.not_lt_zero _)
  unique := fun _ _ _ _ _ h => nomatch h
  completed := fun _ _ h => nomatch h

theorem Orderly.answered_le (h : Orderly peer s) : s.answered.length ≤ s.sent.length := by
  have := length_answers h.peer
  rw [List.length_take] at this
  omega

theorem Orderly.peerStep (h : Orderly peer s) {req : Request} {rest reply : Bytes}
    {next : PageServer} (htake : takeRequest s.up = some (req, rest))
    (hanswer : answer s.peer req = some (next, reply)) :
    Orderly peer { s with
      up := rest
      peer := next
      answered := s.answered ++ [reply]
      down := s.down ++ reply } := by
  -- The request is the first one not yet answered.
  obtain ⟨hsent, hrest⟩ : s.sent[s.answered.length]? = some req ∧
      rest = (s.sent.drop (s.answered.length + 1)).flatMap requestBytes := by
    cases hdrop : s.sent.drop s.answered.length with
    | nil =>
        rw [h.up, hdrop] at htake
        cases htake
    | cons r later =>
        have hr : s.sent[s.answered.length]? = some r := by
          rw [← List.head?_drop, hdrop]
          rfl
        have hlater : s.sent.drop (s.answered.length + 1) = later := by
          rw [← List.tail_drop, hdrop]
          rfl
        rw [h.up, hdrop, List.flatMap_cons, takeRequest_requestBytes
          (h.known r (List.mem_of_getElem? hr))] at htake
        obtain ⟨rfl, rfl⟩ := Prod.mk.inj (Option.some.inj htake)
        exact ⟨hr, by rw [hlater]⟩
  have hlen : (s.answered ++ [reply]).length = s.answered.length + 1 := List.length_append
  refine ⟨h.known, ?_, ?_, ?_, ?_, ?_, h.waiting, h.outstanding, h.unique, ?_⟩
  · show rest = (s.sent.drop (s.answered ++ [reply]).length).flatMap requestBytes
    rw [hlen]
    exact hrest
  · show answers peer (s.sent.take (s.answered ++ [reply]).length) = _
    rw [hlen, List.take_add_one, hsent]
    exact answers_snoc h.peer hanswer
  · show s.completed.length ≤ (s.answered ++ [reply]).length
    have := h.behind
    omega
  · show s.down ++ reply = ((s.answered ++ [reply]).drop s.completed.length).flatten
    rw [List.drop_append_of_le_length h.behind, List.flatten_append, ← h.down]
    exact congrArg (s.down ++ ·) (List.append_nil _).symm
  · show s.taken = (((s.answered ++ [reply]).take s.completed.length).map List.length).sum
    rw [List.take_append_of_le_length h.behind]
    exact h.taken
  · intro i c hc
    obtain ⟨hserial, hsent, hanswered, hoffset⟩ := h.completed i c hc
    have hlt := (List.getElem?_eq_some_iff.mp hanswered).1
    refine ⟨hserial, hsent, (List.getElem?_append_left hlt).trans hanswered, ?_⟩
    show c.offset = (((s.answered ++ [reply]).take i).map List.length).sum
    rw [List.take_append_of_le_length hlt.le]
    exact hoffset

/-- All requests before the oldest that waits have had their replies. -/
theorem Orderly.serial_of_oldest (h : Orderly peer s) {t : τ} {serial : Nat} {req : Request}
    (hwaiting : s.waiting t = some (serial, req)) (holdest : s.Oldest t) :
    serial = s.completed.length := by
  obtain ⟨hsent, hle⟩ := h.waiting t serial req hwaiting
  have hlt := (List.getElem?_eq_some_iff.mp hsent).1
  obtain ⟨serial', req', hwaiting', hmin⟩ := holdest
  rw [hwaiting] at hwaiting'
  obtain ⟨rfl, rfl⟩ := Prod.mk.inj (Option.some.inj hwaiting')
  obtain ⟨t', r, hw⟩ := h.outstanding s.completed.length le_rfl (by omega)
  have := hmin t' _ r hw
  omega

/-- The first reply on the stream is the peer's answer to the first request without one. -/
theorem Orderly.front (h : Orderly peer s) {req : Request}
    (hsent : s.sent[s.completed.length]? = some req) (hsize : replySize req ≤ s.down.length) :
    ∃ reply, s.answered[s.completed.length]? = some reply ∧ reply.length = replySize req ∧
      s.down = reply ++ (s.answered.drop (s.completed.length + 1)).flatten := by
  have hpos := replySize_pos (h.known req (List.mem_of_getElem? hsent))
  have hanswered : s.completed.length < s.answered.length := by
    by_contra hge
    have hnil : s.down = [] := by
      rw [h.down, List.drop_eq_nil_of_le (by omega)]
      rfl
    rw [hnil, List.length_nil] at hsize
    omega
  have hreq : (s.sent.take s.answered.length)[s.completed.length]? = some req := by
    rw [List.getElem?_take_of_lt hanswered]
    exact hsent
  obtain ⟨mid, next, reply, -, hanswer, hreply⟩ := answers_getElem h.peer hreq
  obtain ⟨hlt, hget⟩ := List.getElem?_eq_some_iff.mp hreply
  refine ⟨reply, hreply, length_answer hanswer, ?_⟩
  rw [h.down, List.drop_eq_getElem_cons hlt, hget, List.flatten_cons]

variable [DecidableEq τ]

theorem Orderly.send (h : Orderly peer s) {t : τ} {req : Request} (hidle : s.waiting t = none)
    (hknown : req.Known) :
    Orderly peer { s with
      waiting := Function.update s.waiting t (some (s.sent.length, req))
      sent := s.sent ++ [req]
      up := s.up ++ requestBytes req } where
  known := by
    intro r hr
    rcases List.mem_append.mp hr with hr | hr
    · exact h.known r hr
    · obtain rfl := List.mem_singleton.mp hr
      exact hknown
  up := by
    show s.up ++ requestBytes req = ((s.sent ++ [req]).drop s.answered.length).flatMap requestBytes
    rw [List.drop_append_of_le_length h.answered_le, List.flatMap_append, ← h.up]
    exact congrArg (s.up ++ ·) (List.append_nil _).symm
  peer := by
    show answers peer ((s.sent ++ [req]).take s.answered.length) = _
    rw [List.take_append_of_le_length h.answered_le]
    exact h.peer
  behind := h.behind
  down := h.down
  taken := h.taken
  waiting := by
    intro t' serial r hw
    rcases update_eq_some hw with ⟨-, heq⟩ | ⟨-, hw⟩
    · obtain ⟨rfl, rfl⟩ := Prod.mk.inj (Option.some.inj heq)
      exact ⟨List.getElem?_concat_length, h.behind.trans h.answered_le⟩
    · obtain ⟨hsent, hle⟩ := h.waiting t' serial r hw
      have hlt := (List.getElem?_eq_some_iff.mp hsent).1
      exact ⟨(List.getElem?_append_left hlt).trans hsent, hle⟩
  outstanding := by
    intro serial hle hlt
    by_cases hlast : serial = s.sent.length
    · exact ⟨t, req, by rw [hlast]; exact Function.update_self ..⟩
    · obtain ⟨t', r, hw⟩ := h.outstanding serial hle (by
        rw [List.length_append, List.length_singleton] at hlt
        omega)
      have ht : t' ≠ t := by
        rintro rfl
        rw [hidle] at hw
        cases hw
      exact ⟨t', r, by rw [← hw]; exact Function.update_of_ne ht ..⟩
  unique := by
    have hold : ∀ t' r, s.waiting t' ≠ some (s.sent.length, r) := by
      intro t' r hw
      have := (List.getElem?_eq_some_iff.mp (h.waiting t' _ r hw).1).1
      omega
    intro t₁ t₂ serial r₁ r₂ h₁ h₂
    rcases update_eq_some h₁ with ⟨ht₁, heq₁⟩ | ⟨ht₁, hw₁⟩
    · obtain ⟨rfl, -⟩ := Prod.mk.inj (Option.some.inj heq₁)
      rcases update_eq_some h₂ with ⟨ht₂, -⟩ | ⟨-, hw₂⟩
      · exact ht₁.trans ht₂.symm
      · exact absurd hw₂ (hold t₂ r₂)
    · rcases update_eq_some h₂ with ⟨-, heq₂⟩ | ⟨-, hw₂⟩
      · obtain ⟨rfl, -⟩ := Prod.mk.inj (Option.some.inj heq₂)
        exact absurd hw₁ (hold t₁ r₁)
      · exact h.unique t₁ t₂ serial r₁ r₂ hw₁ hw₂
  completed := by
    intro i c hc
    obtain ⟨hserial, hsent, hanswered, hoffset⟩ := h.completed i c hc
    have hlt := (List.getElem?_eq_some_iff.mp hsent).1
    exact ⟨hserial, (List.getElem?_append_left hlt).trans hsent, hanswered, hoffset⟩

/-- A receive by the thread whose request is the oldest. -/
theorem Orderly.recv (h : Orderly peer s) {t : τ} {serial : Nat} {req : Request}
    (hwaiting : s.waiting t = some (serial, req)) (hsize : replySize req ≤ s.down.length)
    (holdest : s.Oldest t) :
    Orderly peer { s with
      waiting := Function.update s.waiting t none
      down := s.down.drop (replySize req)
      taken := s.taken + replySize req
      completed := s.completed ++ [⟨serial, req, s.taken, s.down.take (replySize req)⟩] } := by
  obtain rfl := h.serial_of_oldest hwaiting holdest
  obtain ⟨hsent, -⟩ := h.waiting t _ req hwaiting
  obtain ⟨reply, hreply, hlen, hstream⟩ := h.front hsent hsize
  have htake : s.down.take (replySize req) = reply := by
    rw [hstream]
    exact List.take_left' hlen
  have hdrop : s.down.drop (replySize req) = (s.answered.drop (s.completed.length + 1)).flatten := by
    rw [hstream]
    exact List.drop_left' hlen
  rw [htake, hdrop]
  refine ⟨h.known, h.up, h.peer, ?_, ?_, ?_, ?_, ?_, ?_, ?_⟩
  · show (s.completed ++ [_]).length ≤ s.answered.length
    rw [List.length_append]
    exact (List.getElem?_eq_some_iff.mp hreply).1
  · show _ = (s.answered.drop (s.completed ++ [_]).length).flatten
    rw [List.length_append]
    rfl
  · show s.taken + replySize req = ((s.answered.take (s.completed ++ [_]).length).map _).sum
    rw [List.length_append, List.length_singleton, List.take_add_one, hreply, List.map_append,
      List.sum_append, ← h.taken, ← hlen]
    rfl
  · intro t' k r hw
    rcases update_eq_some hw with ⟨-, hnone⟩ | ⟨ht, hw⟩
    · cases hnone
    · obtain ⟨hs, hk⟩ := h.waiting t' k r hw
      refine ⟨hs, ?_⟩
      show (s.completed ++ [_]).length ≤ k
      rw [List.length_append, List.length_singleton]
      have hne : k ≠ s.completed.length := by
        rintro rfl
        exact ht (h.unique t' t _ r req hw hwaiting)
      omega
  · intro k hk hlt'
    have hk' : s.completed.length + 1 ≤ k := by
      have : (s.completed ++ [_]).length ≤ k := hk
      rwa [List.length_append, List.length_singleton] at this
    obtain ⟨t', r, hw⟩ := h.outstanding k (by omega) hlt'
    have ht : t' ≠ t := by
      rintro rfl
      rw [hwaiting] at hw
      obtain ⟨rfl, -⟩ := Prod.mk.inj (Option.some.inj hw)
      omega
    exact ⟨t', r, (Function.update_of_ne ht ..).trans hw⟩
  · intro t₁ t₂ k r₁ r₂ h₁ h₂
    rcases update_eq_some h₁ with ⟨-, hnone⟩ | ⟨-, hw₁⟩
    · cases hnone
    · rcases update_eq_some h₂ with ⟨-, hnone⟩ | ⟨-, hw₂⟩
      · cases hnone
      · exact h.unique t₁ t₂ k r₁ r₂ hw₁ hw₂
  · intro i c hc
    change (s.completed ++ [_])[i]? = some c at hc
    by_cases hi : i < s.completed.length
    · rw [List.getElem?_append_left hi] at hc
      exact h.completed i c hc
    · rw [List.getElem?_append_right (by omega)] at hc
      obtain ⟨hlast, heq⟩ := List.getElem?_eq_some_iff.mp hc
      rw [List.length_singleton] at hlast
      obtain rfl : i = s.completed.length := by omega
      rw [Nat.sub_self] at hc
      obtain rfl := Option.some.inj hc
      exact ⟨rfl, hsent, hreply, h.taken⟩

end Steps

theorem Orderly.step {peer : PageServer} {s s' : Shared τ} {turn : Turn τ} (h : Orderly peer s)
    (hstep : InOrderStep s turn s') : Orderly peer s' := by
  obtain ⟨hstep, horder⟩ := hstep
  cases hstep with
  | send hidle hknown => exact h.send hidle hknown
  | peer htake hanswer => exact h.peerStep htake hanswer
  | recv hwaiting hsize => exact h.recv hwaiting hsize (horder _ rfl)

/-- **In order, every RPC gets its own reply.** In every run whose receives are each made by the
thread with the oldest request, every RPC that has returned took, at the position of its own reply,
the peer's answer to its own request: for a page the peer serves, the page as the requests before it
left it, or the ACK of this very PUT. -/
theorem shared_connection_in_order (peer : PageServer) {turns : List (Turn τ)} {s : Shared τ}
    (hrun : Run InOrderStep (Shared.start peer) turns s) :
    ∀ c ∈ s.completed, ∃ before replies after,
      s.sent[c.serial]? = some c.req ∧
      answers peer (s.sent.take c.serial) = some (before, replies) ∧
      c.offset = (replies.map List.length).sum ∧
      answer before c.req = some (after, c.bytes) ∧
      (before.Serves c.req.pageId → c.bytes = replyBytes before c.req) := by
  have h : Orderly peer s :=
    Run.invariant (Orderly peer) (fun _ _ _ h hstep => h.step hstep) hrun (Orderly.start peer)
  intro c hc
  obtain ⟨i, hi⟩ := List.mem_iff_getElem?.mp hc
  obtain ⟨rfl, hsent, hbytes, hoffset⟩ := h.completed i c hi
  have hlt := (List.getElem?_eq_some_iff.mp hbytes).1
  have hreq : (s.sent.take s.answered.length)[c.serial]? = some c.req := by
    rw [List.getElem?_take_of_lt hlt]
    exact hsent
  obtain ⟨before, after, reply, hbefore, hanswer, hreply⟩ := answers_getElem h.peer hreq
  rw [List.take_take, Nat.min_eq_left hlt.le] at hbefore
  rw [hbytes] at hreply
  obtain rfl := Option.some.inj hreply
  refine ⟨before, _, after, hsent, hbefore, hoffset, hanswer, ?_⟩
  intro hserves
  rw [answer_of_serves hserves] at hanswer
  exact (Prod.mk.inj (Option.some.inj hanswer)).2.symm

/-! ## Two threads -/

/-- A standalone peer with two pages, of ones and of twos. -/
def twoPages : PageServer :=
  ⟨none, 2, fun pageId => if pageId = 0 then Page.fill 1 else Page.fill 2⟩

/-- Two threads have each sent a GET, and the peer has answered both. -/
def bothAnswered : Shared Bool where
  waiting := Function.update (Function.update (fun _ => none) false (some (0, .get 0))) true
    (some (1, .get 1))
  sent := [.get 0, .get 1]
  up := []
  peer := twoPages
  answered := [(Page.fill 1).toList, (Page.fill 2).toList]
  down := (Page.fill 1).toList ++ (Page.fill 2).toList
  taken := 0
  completed := []

theorem bothAnswered_reached : Run InOrderStep (Shared.start twoPages)
    [.send false (.get 0), .send true (.get 1), .peer, .peer] bothAnswered := by
  have hknown : ∀ pageId, (Request.get pageId).Known := fun _ => trivial
  have hfirst := takeRequest_requestBytes (hknown 0) (requestBytes (.get 1))
  have hsecond := takeRequest_requestBytes (hknown 1) []
  refine .cons ⟨.send rfl (hknown 0), nofun⟩ (.cons ⟨.send rfl (hknown 1), nofun⟩
    (.cons ⟨.peer hfirst rfl, nofun⟩ (.cons ⟨.peer hsecond rfl, nofun⟩ ?_)))
  exact .nil _

/-- Whichever of the two threads receives next takes the bytes of page 0. -/
theorem bothAnswered_recv {t : Bool} {serial : Nat} {pageId : UInt32}
    (h : bothAnswered.waiting t = some (serial, .get pageId)) :
    ∃ s, SharedStep bothAnswered (.recv t) s ∧ s.peer = twoPages ∧
      s.completed = [⟨serial, .get pageId, 0, (Page.fill 1).toList⟩] := by
  have htake : bothAnswered.down.take pageSize = (Page.fill 1).toList :=
    List.take_left' (length_page_toList _)
  have henough : replySize (.get pageId) ≤ bothAnswered.down.length := by
    show pageSize ≤ ((Page.fill 1).toList ++ (Page.fill 2).toList).length
    rw [List.length_append, length_page_toList]
    omega
  refine ⟨_, .recv h henough, rfl, ?_⟩
  show [(⟨serial, .get pageId, 0, bothAnswered.down.take pageSize⟩ : Completion)] = _
  rw [htake]

theorem shared_connection_in_order_first :
    ∃ turns, ∃ s : Shared Bool, Run InOrderStep (Shared.start twoPages) turns s ∧
      ∃ c ∈ s.completed, c.req = .get 0 ∧ ∃ before replies after,
        answers twoPages (s.sent.take c.serial) = some (before, replies) ∧
        answer before c.req = some (after, c.bytes) := by
  have holdest : bothAnswered.Oldest false :=
    ⟨0, .get 0, rfl, fun _ serial' _ _ => Nat.zero_le serial'⟩
  obtain ⟨s, hstep, -, hcompleted⟩ := bothAnswered_recv (t := false) rfl
  have hrun := bothAnswered_reached.snoc ⟨hstep, fun t ht => Turn.recv.inj ht ▸ holdest⟩
  have hmem : ⟨0, .get 0, 0, (Page.fill 1).toList⟩ ∈ s.completed :=
    hcompleted ▸ List.mem_singleton_self _
  obtain ⟨before, replies, after, -, hbefore, -, hanswer, -⟩ :=
    shared_connection_in_order twoPages hrun _ hmem
  exact ⟨_, s, hrun, _, hmem, rfl, before, replies, after, hbefore, hanswer⟩

/-- **Nothing keeps the threads in order.** The thread that asked for page 1 receives first, and its
`dsm_rpc_get` returns 0 with the bytes of page 0. -/
theorem replies_swapped : ∃ turns, ∃ s : Shared Bool, Run SharedStep (Shared.start twoPages) turns s ∧
    s.peer = twoPages ∧ ∃ c ∈ s.completed, c.req = .get 1 ∧ c.succeeded ∧
      c.bytes = (twoPages.storage 0).toList ∧ c.bytes ≠ (twoPages.storage 1).toList := by
  obtain ⟨s, hstep, hpeer, hcompleted⟩ := bothAnswered_recv (t := true) rfl
  have hrun := (bothAnswered_reached.mono fun _ _ _ h => h.1).snoc hstep
  have hmem : ⟨1, .get 1, 0, (Page.fill 1).toList⟩ ∈ s.completed :=
    hcompleted ▸ List.mem_singleton_self _
  refine ⟨_, s, hrun, hpeer, _, hmem, rfl, rfl, rfl, ?_⟩
  intro heq
  exact Page.fill_ne (by decide) (Vector.toList_inj.mp heq)

end Dsm.Rpc
