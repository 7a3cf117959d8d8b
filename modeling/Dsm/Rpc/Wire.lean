import Dsm.Server.Handler
import Mathlib.Algebra.GroupWithZero.Nat
import Mathlib.Tactic.SplitIfs

/-!
# The wire format of the page protocol (`dsm_protocol.h`)

A header is eight bytes: the operation, three bytes of padding and the page id, little endian as the
supported hosts lay out a packed `uint32_t`. A GET is a header, a PUT a header and a page; a GET is
answered with the bare page, a PUT with an ACK header. Nothing on the wire carries a length or a
request identity.
-/

namespace Dsm.Rpc

open Dsm.Server

abbrev Bytes := List UInt8

def headerSize : Nat := 8

def leBytes (n : UInt32) : Bytes :=
  [UInt8.ofNat n.toNat, UInt8.ofNat (n.toNat / 2 ^ 8), UInt8.ofNat (n.toNat / 2 ^ 16),
    UInt8.ofNat (n.toNat / 2 ^ 24)]

/-- `dsm_rpc_make_header`, as the bytes that are sent. -/
def dsmRpcMakeHeader (op : UInt8) (pageId : UInt32) : Bytes := [op, 0, 0, 0] ++ leBytes pageId

/-- The fields of a received header; the padding is not looked at. -/
def headerOp (header : Bytes) : UInt8 := header.getD 0 0

def headerPageId (header : Bytes) : UInt32 :=
  UInt32.ofNat ((header.getD 4 0).toNat + (header.getD 5 0).toNat * 2 ^ 8 +
    (header.getD 6 0).toNat * 2 ^ 16 + (header.getD 7 0).toNat * 2 ^ 24)

/-- A buffer of `PAGE_SIZE` bytes read as a page. -/
def pageOfBytes (bytes : Bytes) : Page := Vector.ofFn fun i => bytes.getD i 0

@[simp] theorem length_dsmRpcMakeHeader (op : UInt8) (pageId : UInt32) :
    (dsmRpcMakeHeader op pageId).length = headerSize := rfl

@[simp] theorem headerOp_make (op : UInt8) (pageId : UInt32) :
    headerOp (dsmRpcMakeHeader op pageId) = op := rfl

@[simp] theorem headerPageId_make (op : UInt8) (pageId : UInt32) :
    headerPageId (dsmRpcMakeHeader op pageId) = pageId := by
  apply UInt32.toNat.inj
  have hlt : pageId.toNat < 2 ^ 32 := pageId.toNat_lt
  show (UInt32.ofNat ((UInt8.ofNat pageId.toNat).toNat +
    (UInt8.ofNat (pageId.toNat / 2 ^ 8)).toNat * 2 ^ 8 +
    (UInt8.ofNat (pageId.toNat / 2 ^ 16)).toNat * 2 ^ 16 +
    (UInt8.ofNat (pageId.toNat / 2 ^ 24)).toNat * 2 ^ 24)).toNat = pageId.toNat
  simp only [UInt8.toNat_ofNat', UInt32.toNat_ofNat']
  omega

@[simp] theorem length_page_toList (page : Page) : page.toList.length = pageSize := by simp

@[simp] theorem pageOfBytes_toList (page : Page) : pageOfBytes page.toList = page := by
  ext i hi
  simp [pageOfBytes]

/-! ## Requests and replies as bytes -/

def requestBytes : Request → Bytes
  | .get pageId => dsmRpcMakeHeader opGetPage pageId
  | .put pageId data => dsmRpcMakeHeader opPutPage pageId ++ data.toList
  | .other op pageId => dsmRpcMakeHeader op pageId

theorem requestBytes_ne_nil (req : Request) : requestBytes req ≠ [] := by
  cases req <;> exact List.cons_ne_nil _ _

def replyBytes (s : PageServer) : Request → Bytes
  | .get pageId => (s.storage pageId).toList
  | .put pageId _ => dsmRpcMakeHeader opAck pageId
  | .other _ _ => []

/-- What the handler of a server without peers does with a request: the server afterwards and the
bytes of the reply, or nothing when it leaves its loop. -/
def answer (s : PageServer) (req : Request) : Option (PageServer × Bytes) :=
  match s.dispatch req with
  | .page data => some (s, data.toList)
  | .store pageId data => some (s.put pageId data, dsmRpcMakeHeader opAck pageId)
  | .zero => some (s, zeroPage.toList)
  | .ignore => some (s, [])
  | .leave => none
  | .forward => none

/-- The bytes of reply a request is due, which do not depend on the server. -/
def replySize : Request → Nat
  | .get _ => pageSize
  | .put _ _ => headerSize
  | .other _ _ => 0

theorem length_replyBytes (s : PageServer) (req : Request) :
    (replyBytes s req).length = replySize req := by
  cases req with
  | get pageId => exact length_page_toList _
  | put pageId data => rfl
  | other op pageId => rfl

theorem replySize_pos {req : Request} (h : req.Known) : 0 < replySize req := by
  cases req with
  | get pageId => exact Nat.succ_pos _
  | put pageId data => exact Nat.succ_pos _
  | other op pageId => exact h.elim

/-- The server after a request it serves. -/
def serveRequest (s : PageServer) : Request → PageServer
  | .put pageId data => s.put pageId data
  | _ => s

theorem answer_of_serves {s : PageServer} {req : Request} (h : s.Serves req.pageId) :
    answer s req = some (serveRequest s req, replyBytes s req) := by
  unfold answer
  rw [PageServer.dispatch_of_serves h]
  cases req <;> rfl

/-- A reply has the size its request is due, whatever the server says in it. -/
theorem length_answer {s s' : PageServer} {req : Request} {reply : Bytes}
    (h : answer s req = some (s', reply)) : reply.length = replySize req := by
  unfold answer at h
  cases req with
  | get pageId =>
      simp only [PageServer.dispatch] at h
      split_ifs at h
      · obtain ⟨-, rfl⟩ := Prod.mk.inj (Option.some.inj h)
        exact length_page_toList _
      · obtain ⟨-, rfl⟩ := Prod.mk.inj (Option.some.inj h)
        exact length_page_toList _
  | put pageId data =>
      simp only [PageServer.dispatch] at h
      split_ifs at h
      obtain ⟨-, rfl⟩ := Prod.mk.inj (Option.some.inj h)
      rfl
  | other op pageId =>
      obtain ⟨-, rfl⟩ := Prod.mk.inj (Option.some.inj h)
      rfl

def serveAll (s : PageServer) (reqs : List Request) : PageServer := reqs.foldl serveRequest s

/-- The replies to a sequence of requests, each as of its position. -/
def replies : PageServer → List Request → Bytes
  | _, [] => []
  | s, req :: reqs => replyBytes s req ++ replies (serveRequest s req) reqs

theorem replies_append (s : PageServer) (a b : List Request) :
    replies s (a ++ b) = replies s a ++ replies (serveAll s a) b := by
  induction a generalizing s with
  | nil => rfl
  | cons req a ih =>
      show replyBytes s req ++ replies (serveRequest s req) (a ++ b) =
        (replyBytes s req ++ replies (serveRequest s req) a) ++ replies (serveAll s (req :: a)) b
      rw [ih, List.append_assoc]
      rfl

theorem length_replies (s : PageServer) (reqs : List Request) :
    (replies s reqs).length = (reqs.map replySize).sum := by
  induction reqs generalizing s with
  | nil => rfl
  | cons req reqs ih =>
      rw [replies, List.length_append, length_replyBytes, ih, List.map_cons, List.sum_cons]

theorem serveAll_append (s : PageServer) (a b : List Request) :
    serveAll s (a ++ b) = serveAll (serveAll s a) b := List.foldl_append

theorem serveRequest_storagePages (s : PageServer) (req : Request) :
    (serveRequest s req).storagePages = s.storagePages ∧
      (serveRequest s req).cluster = s.cluster := by
  cases req <;> exact ⟨rfl, rfl⟩

theorem serveAll_storagePages (s : PageServer) (reqs : List Request) :
    (serveAll s reqs).storagePages = s.storagePages ∧ (serveAll s reqs).cluster = s.cluster := by
  induction reqs generalizing s with
  | nil => exact ⟨rfl, rfl⟩
  | cons req reqs ih =>
      obtain ⟨hpages, hcluster⟩ := serveRequest_storagePages s req
      obtain ⟨hpages', hcluster'⟩ := ih (serveRequest s req)
      exact ⟨hpages'.trans hpages, hcluster'.trans hcluster⟩

end Dsm.Rpc
