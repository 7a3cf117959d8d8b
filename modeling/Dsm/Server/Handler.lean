import Dsm.Cluster.Membership

/-!
# One request (`handle_client_thread` in `dsm_server.c`)

The body of the handler's loop, from a complete request to what it does about it. A page is served
from storage when it is local and inside the storage; otherwise a clustered server forwards, and a
standalone one makes up a zero page for a GET and leaves its loop on a PUT. GET and PUT part ways
again when a forward fails: the GET is answered with a zero page, the PUT ends the loop.
-/

namespace Dsm.Server

open Dsm.Cluster

-- `dsm_op_type_t`.
def opGetPage : UInt8 := 1
def opPutPage : UInt8 := 2
def opAck : UInt8 := 3

/-- A request as the handler has it once the header, and for a PUT the page, are received. -/
inductive Request
  | get (pageId : UInt32)
  | put (pageId : UInt32) (data : Page)
  | other (op : UInt8) (pageId : UInt32)

def Request.pageId : Request → UInt32
  | .get pageId => pageId
  | .put pageId _ => pageId
  | .other _ pageId => pageId

/-- `g_cluster`, `g_storage_pages` and `g_storage`; no page at or past `storagePages` is ever
read or written. -/
structure PageServer where
  cluster : Option ClusterCtx
  storagePages : UInt32
  storage : UInt32 → Page

def PageServer.isLocal (s : PageServer) (pageId : UInt32) : Bool :=
  match s.cluster with
  | none => true
  | some ctx => clusterIsLocal ctx pageId

/-- The branch the handler takes. -/
inductive Dispatch
  | page (data : Page)
  | store (pageId : UInt32) (data : Page)
  | forward
  | zero
  | leave
  | ignore

def PageServer.dispatch (s : PageServer) : Request → Dispatch
  | .get pageId =>
      if s.isLocal pageId ∧ pageId < s.storagePages then .page (s.storage pageId)
      else if s.cluster.isSome then .forward
      else .zero
  | .put pageId data =>
      if s.isLocal pageId ∧ pageId < s.storagePages then .store pageId data
      else if s.cluster.isSome then .forward
      else .leave
  | .other _ _ => .ignore

def PageServer.put (s : PageServer) (pageId : UInt32) (data : Page) : PageServer :=
  { s with storage := Function.update s.storage pageId data }

/-- What becomes of a request on its connection. `stored` is a page out of this server's storage,
`relayed` one a peer sent, `zero` the zero page of the error paths; `closed` means the handler has
left its loop, `silent` that it went on without a reply, `never` that it is still waiting. -/
inductive Answer
  | stored (data : Page)
  | relayed (data : Page)
  | zero
  | ack (pageId : UInt32)
  | closed
  | silent
  | never

/-- The 4096 bytes a GET is answered with: the client cannot tell the three kinds apart. -/
def Answer.page? : Answer → Option Page
  | .stored data => some data
  | .relayed data => some data
  | .zero => some zeroPage
  | _ => none

/-- The handler when `cluster_forward_get` or `cluster_forward_put` returns -1. -/
def Request.forwardFailed : Request → Answer
  | .get _ => .zero
  | .put _ _ => .closed
  | .other _ _ => .silent

/-- The handler when the RPC to the peer ends with what the peer answered. A peer that leaves its
loop makes the RPC fail, as soon as its end of the connection is closed. -/
def Request.relay (req : Request) (peer : Answer) : Answer :=
  match req, peer with
  | _, .never => .never
  | .get _, peer =>
      match peer.page? with
      | some data => .relayed data
      | none => req.forwardFailed
  | .put pageId _, .ack _ => .ack pageId
  | _, _ => req.forwardFailed

/-! ## When the handler forwards -/

/-- The page is this server's own and inside its storage. -/
def PageServer.Serves (s : PageServer) (pageId : UInt32) : Prop :=
  s.isLocal pageId ∧ pageId < s.storagePages

instance (s : PageServer) (pageId : UInt32) : Decidable (s.Serves pageId) :=
  inferInstanceAs (Decidable (_ ∧ _))

/-- The two requests the protocol knows. -/
def Request.Known : Request → Prop
  | .other _ _ => False
  | _ => True

/-- How a server answers a request it serves itself. -/
def PageServer.serve (s : PageServer) : Request → Dispatch
  | .get pageId => .page (s.storage pageId)
  | .put pageId data => .store pageId data
  | .other _ _ => .ignore

theorem PageServer.dispatch_of_serves {s : PageServer} {req : Request} (h : s.Serves req.pageId) :
    s.dispatch req = s.serve req := by
  cases req with
  | get pageId => exact if_pos h
  | put pageId data => exact if_pos h
  | other op pageId => rfl

/-- A clustered server forwards exactly what it does not serve itself. -/
theorem PageServer.dispatch_forward {s : PageServer} {req : Request} (hcluster : s.cluster.isSome)
    (hknown : req.Known) (h : ¬ s.Serves req.pageId) : s.dispatch req = .forward := by
  cases req with
  | get pageId => exact (if_neg h).trans (if_pos hcluster)
  | put pageId data => exact (if_neg h).trans (if_pos hcluster)
  | other op pageId => exact hknown.elim

theorem PageServer.dispatch_eq_forward {s : PageServer} {req : Request} (h : s.dispatch req = .forward) :
    s.cluster.isSome ∧ req.Known ∧ ¬ s.Serves req.pageId := by
  have hserves : ¬ s.Serves req.pageId := by
    intro hs
    rw [s.dispatch_of_serves hs] at h
    cases req <;> cases h
  cases req with
  | get pageId =>
      rw [show s.dispatch (.get pageId) = _ from if_neg hserves] at h
      by_cases hc : s.cluster.isSome
      · exact ⟨hc, trivial, hserves⟩
      · rw [if_neg hc] at h
        cases h
  | put pageId data =>
      rw [show s.dispatch (.put pageId data) = _ from if_neg hserves] at h
      by_cases hc : s.cluster.isSome
      · exact ⟨hc, trivial, hserves⟩
      · rw [if_neg hc] at h
        cases h
  | other op pageId => cases h

/-- Only a PUT of a page the server serves is stored. -/
theorem PageServer.dispatch_eq_store {s : PageServer} {req : Request} {pageId : UInt32} {data : Page}
    (h : s.dispatch req = .store pageId data) : req = .put pageId data ∧ s.Serves pageId := by
  cases req with
  | get q =>
      simp only [PageServer.dispatch] at h
      split at h
      · cases h
      · split at h <;> cases h
  | put q d =>
      simp only [PageServer.dispatch] at h
      split at h
      · next hs =>
        cases h
        exact ⟨rfl, hs⟩
      · split at h <;> cases h
  | other op q => cases h

end Dsm.Server
