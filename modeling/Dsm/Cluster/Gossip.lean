import Dsm.Lib.Packed
import Dsm.Cluster.Membership

/-!
# The gossip wire format (`dsm_gossip.h`, `dsm_gossip.c`)

A datagram is a packed header of 36 bytes and as many packed node entries of 40 bytes as the header
says. `PackedHeader` and `PackedNodeInfo` are the two C structures with all their fields; the
membership model sees them without the magic, the count and the padding.

`gossip_parse` gets a buffer and its length and copies out of it with `memcpy`. Here a copy that
would leave the buffer has no result, and `gossipParse_eq` shows that none ever does.
-/

namespace Dsm.Cluster

open Dsm.Lib (Packed)

abbrev Bytes := List UInt8

def gossipMagic : UInt32 := 0x44534D47

/-! ## The two layouts -/

/-- `gossip_header_t`. -/
structure PackedHeader extends GossipHeader where
  magic : UInt32
  nodeCount : UInt8
  deriving DecidableEq

/-- `gossip_node_info_t`. -/
structure PackedNodeInfo extends GossipNodeInfo where
  pad : Vector UInt8 3
  deriving DecidableEq

/-- `gossip_msg_t`; `nodes` is `nodes[0 .. node_count)`. -/
structure PackedMsg where
  hdr : PackedHeader
  nodes : List PackedNodeInfo
  deriving DecidableEq

def PackedMsg.toMsg (m : PackedMsg) : GossipMsg :=
  ⟨m.hdr.toGossipHeader, m.nodes.map PackedNodeInfo.toGossipNodeInfo⟩

-- The fields of the two structures in the order in which they are declared.
def headerFields :
    UInt32 × UInt8 × UInt8 × UInt16 × NodeId × UInt32 × UInt32 × UInt32 ≃ PackedHeader where
  toFun := fun (magic, type, nodeCount, senderClientPort, senderId, senderIncarnation,
      senderRangeStart, senderRangeEnd) =>
    { magic, type, nodeCount, senderClientPort, senderId, senderIncarnation, senderRangeStart,
      senderRangeEnd }
  invFun h := (h.magic, h.type, h.nodeCount, h.senderClientPort, h.senderId, h.senderIncarnation,
    h.senderRangeStart, h.senderRangeEnd)
  left_inv _ := rfl
  right_inv _ := rfl

def nodeInfoFields :
    NodeId × UInt32 × UInt16 × UInt16 × UInt32 × UInt32 × UInt32 × UInt8 × Vector UInt8 3 ≃
      PackedNodeInfo where
  toFun := fun (id, addr, clientPort, clusterPort, rangeStart, rangeEnd, incarnation, state, pad) =>
    { id, addr, clientPort, clusterPort, rangeStart, rangeEnd, incarnation, state, pad }
  invFun n := (n.id, n.addr, n.clientPort, n.clusterPort, n.rangeStart, n.rangeEnd, n.incarnation,
    n.state, n.pad)
  left_inv _ := rfl
  right_inv _ := rfl

def packedHeader : Packed PackedHeader :=
  (.prod .u32 <| .prod .u8 <| .prod .u8 <| .prod .u16 <| .prod (.bytes nodeIdLen) <|
    .prod .u32 <| .prod .u32 .u32 : Packed _).iso headerFields

def packedNodeInfo : Packed PackedNodeInfo :=
  (.prod (.bytes nodeIdLen) <| .prod .u32 <| .prod .u16 <| .prod .u16 <| .prod .u32 <|
    .prod .u32 <| .prod .u32 <| .prod .u8 (.bytes 3) : Packed _).iso nodeInfoFields

-- `sizeof(gossip_header_t)`, `sizeof(gossip_node_info_t)` and `sizeof(gossip_msg_t)`.
def gossipHeaderSize : Nat := packedHeader.size
def gossipNodeInfoSize : Nat := packedNodeInfo.size
def gossipMsgSize : Nat := gossipHeaderSize + gossipMsgMaxNodes * gossipNodeInfoSize

theorem gossipHeaderSize_eq : gossipHeaderSize = 36 := rfl
theorem gossipNodeInfoSize_eq : gossipNodeInfoSize = 40 := rfl

/-! ## Sending -/

/-- What `fill_header` and `cluster_node_to_gossip` write besides the fields that the membership
model has: the magic, the count and zeros. -/
def GossipMsg.pack (msg : GossipMsg) : PackedMsg where
  hdr := { msg.hdr with magic := gossipMagic, nodeCount := UInt8.ofNat msg.nodes.length }
  nodes := msg.nodes.map fun n => { n with pad := Vector.replicate 3 0 }

/-- The bytes `send_msg` hands to `sendto`. -/
def sendMsg (m : PackedMsg) : Bytes :=
  packedHeader.put m.hdr ++ packedNodeInfo.putAll (m.nodes.take m.hdr.nodeCount.toNat)

def gossipSendPing (self : ClusterNode) : Bytes := sendMsg (gossipPing self).pack

def gossipSendPong (self : ClusterNode) (nodes : List ClusterNode) : Bytes :=
  sendMsg (gossipPong self nodes).pack

def gossipSendJoin (self : ClusterNode) : Bytes := sendMsg (gossipJoin self).pack

/-! ## Parsing -/

/-- `memcpy` of `n` bytes from offset `off` of a buffer; no result where that leaves the buffer. -/
def copyFrom (buf : Bytes) (off n : Nat) : Option Bytes :=
  if off + n ≤ buf.length then some ((buf.drop off).take n) else none

/-- `gossip_parse`: a message for return value `0`, `none` for `-1`. -/
def gossipParse (buf : Bytes) : Option (Option PackedMsg) :=
  if buf.length < gossipHeaderSize then some none
  else do
    let hdr := packedHeader.get (← copyFrom buf 0 gossipHeaderSize)
    if hdr.magic ≠ gossipMagic then some none
    else if gossipMsgMaxNodes < hdr.nodeCount.toNat then some none
    else if buf.length < gossipHeaderSize + hdr.nodeCount.toNat * gossipNodeInfoSize then some none
    else if 0 < hdr.nodeCount.toNat then do
      let body ← copyFrom buf gossipHeaderSize (hdr.nodeCount.toNat * gossipNodeInfoSize)
      some (some ⟨hdr, packedNodeInfo.getAll hdr.nodeCount.toNat body⟩)
    else some (some ⟨hdr, []⟩)

/-- The byte of a buffer that says how many entries it has. -/
def declaredNodes (buf : Bytes) : Nat := (buf.getD 5 0).toNat

/-- A buffer that holds a header with the magic (`47 4D 53 44`, as it lies in memory), at most
sixteen entries, and all the entries it declares. -/
def Acceptable (buf : Bytes) : Prop :=
  36 ≤ buf.length ∧ buf.take 4 = [0x47, 0x4D, 0x53, 0x44] ∧ declaredNodes buf ≤ 16 ∧
    36 + 40 * declaredNodes buf ≤ buf.length

instance (buf : Bytes) : Decidable (Acceptable buf) := inferInstanceAs (Decidable (_ ∧ _))

/-- The message that stands at the front of a buffer. -/
def readMsg (buf : Bytes) : PackedMsg where
  hdr := packedHeader.get buf
  nodes := packedNodeInfo.getAll (declaredNodes buf)
    ((buf.drop gossipHeaderSize).take (declaredNodes buf * gossipNodeInfoSize))

theorem magic_readMsg {buf : Bytes} (h : 36 ≤ buf.length) :
    (packedHeader.get buf).magic = gossipMagic ↔ buf.take 4 = [0x47, 0x4D, 0x53, 0x44] := by
  have hput : Packed.u32.put (packedHeader.get buf).magic = buf.take 4 :=
    Packed.u32.put_get buf (show 4 ≤ buf.length by omega)
  have hmagic : Packed.u32.put gossipMagic = [0x47, 0x4D, 0x53, 0x44] := by decide
  rw [← hput, ← hmagic]
  exact Packed.u32.put_injective.eq_iff.symm

theorem nodeCount_readMsg (buf : Bytes) :
    (packedHeader.get buf).nodeCount.toNat = declaredNodes buf := by
  show ((((buf.drop 4).drop 1).headD 0).toNat) = (buf.getD 5 0).toNat
  rw [List.drop_drop, List.headD_eq_head?_getD, List.head?_drop, List.getD_eq_getElem?_getD]

/-- **What `gossip_parse` computes.** It always has a result: no copy leaves the buffer. -/
theorem gossipParse_eq (buf : Bytes) :
    gossipParse buf = some (if Acceptable buf then some (readMsg buf) else none) := by
  unfold gossipParse
  by_cases hlen : buf.length < gossipHeaderSize
  · rw [if_pos hlen, if_neg fun h => absurd h.1 (Nat.not_le.mpr hlen)]
  have hlen' : 36 ≤ buf.length := Nat.le_of_not_lt hlen
  have hcopy : copyFrom buf 0 gossipHeaderSize = some (buf.take gossipHeaderSize) :=
    if_pos (show 0 + 36 ≤ buf.length by omega)
  have hhdr : packedHeader.get (buf.take gossipHeaderSize) = packedHeader.get buf :=
    packedHeader.get_take le_rfl hlen'
  rw [if_neg hlen, hcopy, Option.bind_eq_bind, Option.bind_some, hhdr]
  dsimp only
  rw [nodeCount_readMsg]
  by_cases hmagic : (packedHeader.get buf).magic ≠ gossipMagic
  · rw [if_pos hmagic, if_neg fun h => hmagic ((magic_readMsg hlen').mpr h.2.1)]
  rw [if_neg hmagic]
  by_cases hcount : gossipMsgMaxNodes < declaredNodes buf
  · rw [if_pos hcount, if_neg fun h => absurd h.2.2.1 (Nat.not_le.mpr hcount)]
  rw [if_neg hcount]
  by_cases hbody : buf.length < gossipHeaderSize + declaredNodes buf * gossipNodeInfoSize
  · rw [if_pos hbody, if_neg fun h => ?_]
    have := h.2.2.2
    rw [gossipHeaderSize_eq, gossipNodeInfoSize_eq] at hbody
    omega
  have hbody' := Nat.le_of_not_lt hbody
  have hacc : Acceptable buf := by
    refine ⟨hlen', (magic_readMsg hlen').mp (not_not.mp hmagic), Nat.le_of_not_lt hcount, ?_⟩
    rw [gossipHeaderSize_eq, gossipNodeInfoSize_eq] at hbody'
    omega
  rw [if_neg hbody, if_pos hacc]
  by_cases hpos : 0 < declaredNodes buf
  · rw [if_pos hpos, copyFrom, if_pos hbody', Option.bind_some]
    rfl
  · have hzero : declaredNodes buf = 0 := Nat.eq_zero_of_not_pos hpos
    rw [if_neg hpos, readMsg, hzero]
    rfl

theorem gossipParse_some_iff {buf : Bytes} {m : PackedMsg} :
    gossipParse buf = some (some m) ↔ Acceptable buf ∧ m = readMsg buf := by
  rw [gossipParse_eq]
  by_cases h : Acceptable buf
  · simp [h, eq_comm]
  · simp [h]

/-! ## Round trips -/

/-- A message whose count is the number of its entries, as many as fit. -/
structure PackedMsg.WellFormed (m : PackedMsg) : Prop where
  magic : m.hdr.magic = gossipMagic
  count : m.hdr.nodeCount.toNat = m.nodes.length
  fits : m.nodes.length ≤ gossipMsgMaxNodes

theorem sendMsg_eq {m : PackedMsg} (h : m.WellFormed) :
    sendMsg m = packedHeader.put m.hdr ++ packedNodeInfo.putAll m.nodes := by
  rw [sendMsg, h.count, List.take_length]

theorem length_sendMsg {m : PackedMsg} (h : m.WellFormed) :
    (sendMsg m).length = 36 + m.nodes.length * 40 := by
  rw [sendMsg_eq h, List.length_append, packedHeader.length_put, packedNodeInfo.length_putAll]
  rfl

/-- What is sent is read back. -/
theorem gossipParse_sendMsg {m : PackedMsg} (h : m.WellFormed) :
    gossipParse (sendMsg m) = some (some m) := by
  have hlen := length_sendMsg h
  have hhdr : packedHeader.get (sendMsg m) = m.hdr := by rw [sendMsg, packedHeader.get_put]
  have hdeclared : declaredNodes (sendMsg m) = m.nodes.length := by
    rw [← nodeCount_readMsg, hhdr, h.count]
  have hfits : m.nodes.length ≤ 16 := h.fits
  have hbody : ((sendMsg m).drop gossipHeaderSize).take (m.nodes.length * gossipNodeInfoSize) =
      packedNodeInfo.putAll m.nodes ++ [] := by
    rw [sendMsg_eq h, gossipHeaderSize, ← packedHeader.length_put m.hdr, List.drop_left,
      gossipNodeInfoSize, ← packedNodeInfo.length_putAll, List.take_length, List.append_nil]
  refine gossipParse_some_iff.mpr ⟨⟨by omega, ?_, by omega, by omega⟩, ?_⟩
  · rw [← magic_readMsg (by omega), hhdr, h.magic]
  · rw [readMsg, hhdr, hdeclared, hbody, packedNodeInfo.getAll_putAll]

/-- What is read, sent again, is what was received, up to the end of its last entry. -/
theorem sendMsg_readMsg {buf : Bytes} (h : Acceptable buf) :
    sendMsg (readMsg buf) = buf.take (36 + 40 * declaredNodes buf) := by
  obtain ⟨hlen, -, -, hbody⟩ := h
  have htake : (readMsg buf).nodes.take (readMsg buf).hdr.nodeCount.toNat = (readMsg buf).nodes := by
    apply List.take_of_length_le
    rw [show (readMsg buf).hdr = packedHeader.get buf from rfl, nodeCount_readMsg]
    exact (packedNodeInfo.length_getAll _ _).le
  have hroom : declaredNodes buf * packedNodeInfo.size ≤
      ((buf.drop gossipHeaderSize).take (declaredNodes buf * gossipNodeInfoSize)).length := by
    rw [← gossipNodeInfoSize, List.length_take, List.length_drop, gossipHeaderSize_eq,
      gossipNodeInfoSize_eq]
    exact le_min le_rfl (by omega)
  rw [sendMsg, htake, readMsg, packedHeader.put_get buf hlen,
    packedNodeInfo.putAll_getAll _ _ hroom, ← gossipNodeInfoSize, List.take_take, Nat.min_self,
    ← gossipHeaderSize, ← List.take_add, gossipHeaderSize_eq, gossipNodeInfoSize_eq, Nat.mul_comm]

/-! ## The three messages -/

theorem GossipMsg.pack_wellFormed {msg : GossipMsg} (h : msg.nodes.length ≤ gossipMsgMaxNodes) :
    msg.pack.WellFormed where
  magic := rfl
  count := by
    have hlt : msg.nodes.length < 2 ^ 8 := Nat.lt_of_le_of_lt h (by decide)
    simp only [GossipMsg.pack, List.length_map, UInt8.toNat_ofNat', Nat.mod_eq_of_lt hlt]
  fits := by simpa only [GossipMsg.pack, List.length_map] using h

/-- Packing and reading loses nothing of what the membership model sees. -/
theorem GossipMsg.toMsg_pack (msg : GossipMsg) : msg.pack.toMsg = msg := by
  simp [GossipMsg.pack, PackedMsg.toMsg, Function.comp_def]

theorem GossipMsg.parse_pack {msg : GossipMsg} (h : msg.nodes.length ≤ gossipMsgMaxNodes) :
    gossipParse (sendMsg msg.pack) = some (some msg.pack) :=
  gossipParse_sendMsg (pack_wellFormed h)

/-- A header says who sent it. -/
structure PackedHeader.SentBy (h : PackedHeader) (type : UInt8) (self : ClusterNode) : Prop where
  type : h.type = type
  id : h.senderId = self.id
  clientPort : h.senderClientPort = self.clientPort
  incarnation : h.senderIncarnation = self.incarnation
  rangeStart : h.senderRangeStart = self.rangeStart
  rangeEnd : h.senderRangeEnd = self.rangeEnd

/-- The entries of a message, as `handle_gossip_msg` will merge them. -/
def PackedMsg.clusterNodes (m : PackedMsg) : List ClusterNode :=
  m.nodes.map fun n => gossipNodeToCluster n.toGossipNodeInfo

/-- The sender's part of a round trip, for a message of any of the three kinds. -/
theorem sent_and_parsed {msg : GossipMsg} {type : UInt8} {self : ClusterNode}
    (entries : List ClusterNode) (hhdr : msg.hdr = fillHeader type self)
    (hnodes : msg.nodes = entries.map clusterNodeToGossip) (h : entries.length ≤ gossipMsgMaxNodes) :
    ∃ m, gossipParse (sendMsg msg.pack) = some (some m) ∧ m.hdr.SentBy type self ∧
      m.clusterNodes = entries.map fun n => { n with lastSeen := 0 } := by
  refine ⟨msg.pack, GossipMsg.parse_pack (by rwa [hnodes, List.length_map]), ?_, ?_⟩
  · constructor <;> simp [GossipMsg.pack, hhdr, fillHeader]
  · rw [PackedMsg.clusterNodes, GossipMsg.pack, hnodes, List.map_map, List.map_map]
    rfl

/-- **The gossip wire format.** What a node sends is parsed, with its type, its sender and its
entries, which come back as the table had them but for `last_seen`: none in a PING, the first
sixteen of the table in a PONG, the sender in a JOIN. And whatever the bytes of a buffer, parsing
stays inside it, accepts exactly the acceptable ones, and an accepted message sent again is the
bytes it was read from. -/
theorem gossip_wire_format :
    (∀ (self : ClusterNode) (nodes : List ClusterNode),
      (∃ m, gossipParse (gossipSendPing self) = some (some m) ∧
        m.hdr.SentBy gossipTypePing self ∧ m.clusterNodes = []) ∧
      (∃ m, gossipParse (gossipSendPong self nodes) = some (some m) ∧
        m.hdr.SentBy gossipTypePong self ∧
        m.clusterNodes = (nodes.take 16).map fun n => { n with lastSeen := 0 }) ∧
      ∃ m, gossipParse (gossipSendJoin self) = some (some m) ∧
        m.hdr.SentBy gossipTypeJoin self ∧ m.clusterNodes = [{ self with lastSeen := 0 }]) ∧
    ∀ buf : Bytes, ∃ result, gossipParse buf = some result ∧
      (result.isSome ↔ Acceptable buf) ∧
      ∀ m, result = some m → sendMsg m = buf.take (36 + 40 * declaredNodes buf) := by
  refine ⟨fun self nodes => ⟨?_, ?_, ?_⟩, fun buf => ⟨_, gossipParse_eq buf, ?_, ?_⟩⟩
  · exact sent_and_parsed [] rfl rfl (Nat.zero_le _)
  · exact sent_and_parsed (nodes.take gossipMsgMaxNodes) rfl rfl (List.length_take_le _ _)
  · exact sent_and_parsed [self] rfl rfl (Nat.succ_le_succ (Nat.zero_le _))
  · by_cases h : Acceptable buf <;> simp [h]
  · intro m hm
    split at hm
    · next h => exact Option.some.inj hm ▸ sendMsg_readMsg h
    · cases hm

end Dsm.Cluster
