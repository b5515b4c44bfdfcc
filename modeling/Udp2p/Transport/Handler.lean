import Udp2p.Lib.Machine
import Udp2p.Lib.Collections
import Udp2p.Net.SocketAddr
import Udp2p.Protocol.Packetize

/-!
# The message handler

`MessageHandler` receives datagrams, acknowledges packets that ask for a receipt, collects the
packets of each message in its `pending` table and routes the assembled messages. Its channels are
outputs; its only state is the table. `none` is a panic: an `unwrap` on undecodable text, an index
that is not in the map, a slice out of range.

* `insertPacket_isSome_iff`, `insertPacket_frame` — when an insertion returns, and what it leaves
  alone.
* `recvMsg_isSome_iff` — which datagrams the handler survives.
-/

namespace Udp2p

/-- `GDUdp::RETURN_RECEIPT`. -/
def returnReceipt : ReturnReceipt := 1

/-- `GDUdp::NO_RETURN_RECEIPT`. -/
def noReturnReceipt : ReturnReceipt := 0

structure MessageHandler where
  pending : HashMap InnerKey (HashMap Nat Packet)

/-- What a handler puts on its four channels. -/
inductive HandlerSend where
  | om (dst : SocketAddr) (message : Message)
  | ia (ack : AckMessage)
  | kad (src : SocketAddr) (message : KadMessage)
  | gossip (src : SocketAddr) (message : Message)
  deriving DecidableEq

namespace MessageHandler

variable (W : Wire)

/-- `map[&n]` and `hex::decode(..).unwrap()` both panic; a message that does not decode is `none`
inside. -/
def assemblePackets (packet : Packet) (map : HashMap Nat Packet) : Option (Option Message) := do
  let chunks ← (List.range' 1 packet.totalN).mapM fun n => do
    let p ← map.lookup n
    W.hex.decode p.bytes
  return W.message.fromBytes chunks.flatten

/-- The new handler and the message passed to `handle_message`, if any. -/
def insertPacket (h : MessageHandler) (packet : Packet) :
    Option (MessageHandler × Option Message) :=
  match h.pending.lookup packet.id with
  | some map => do
    -- a number that is there already keeps its first packet
    let map := map.orInsert packet.n packet
    let h := { h with pending := h.pending.insert packet.id map }
    -- the entry stays in the table when its message is complete
    if map.len = packet.totalN then
      let message ← assemblePackets W packet map
      return (h, message)
    else
      return (h, none)
  | none =>
    if packet.totalN = 1 then do
      -- a message of one packet is never recorded
      let bytes ← W.hex.decode packet.bytes
      return (h, W.message.fromBytes bytes)
    else
      let map := AList.singleton packet.n packet
      some ({ h with pending := h.pending.insert packet.id map }, none)

/-- Route a message by its header. -/
def handleMessage (message : Message) (src : SocketAddr) : List HandlerSend :=
  match message.head with
  | .request | .response =>
    match W.kad.fromBytes message.msg with
    | some msg => [.kad src msg]
    | none => []
  | .ack =>
    match W.ack.fromBytes message.msg with
    | some ack => [.ia ack]
    | none => []
  | .gossip => [.gossip src message]

/-- Decode a datagram; a packet that asks for a receipt is acknowledged to its sender. -/
def processPacket (A : AddrText) (localAddr : SocketAddr) (buf : List UInt8) (amt : Nat)
    (src : SocketAddr) : Option (Option Packet × List HandlerSend) := do
  let datagram ← slice buf 0 amt
  match W.packet.fromBytes datagram with
  | some packet =>
    if packet.ret = returnReceipt then
      let ack : AckMessage :=
        { packetId := packet.id, packetNumber := packet.n, src := A.textBytes localAddr }
      let msg ← W.ack.asBytes ack
      return (some packet, [.om src { head := .ack, msg }])
    else
      return (some packet, [])
  | none => return (none, [])

/-- One received datagram, from the socket buffer to the channels. -/
def recvMsg (A : AddrText) (h : MessageHandler) (localAddr : SocketAddr) (buf : List UInt8)
    (amt : Nat) (src : SocketAddr) : Option (MessageHandler × List HandlerSend) := do
  let (packet?, acks) ← processPacket W A localAddr buf amt src
  match packet? with
  | some packet =>
    let (h, message?) ← h.insertPacket W packet
    return (h, acks ++ (message?.map (handleMessage W · src)).getD [])
  | none => return (h, acks)

/-- The one message `process_packet` queues is the ack of the packet it decodes, written with the
address the node knows itself under. -/
theorem processPacket_queues {A : AddrText} {localAddr src dst : SocketAddr}
    {buf datagram : List UInt8} {amt : Nat} {packet : Packet}
    (hbuf : slice buf 0 amt = some datagram)
    (hpacket : W.packet.fromBytes datagram = some packet) {packet? : Option Packet}
    {sends : List HandlerSend}
    (h : processPacket W A localAddr buf amt src = some (packet?, sends)) {message : Message}
    (hmem : .om dst message ∈ sends) : packet.ret = returnReceipt ∧ dst = src ∧
      message.head = .ack ∧ W.ack.asBytes ⟨packet.id, packet.n, A.textBytes localAddr⟩ =
        some message.msg := by
  simp only [processPacket, hbuf, hpacket, Option.bind_eq_bind, Option.bind_some] at h
  split at h
  · next hret =>
    obtain ⟨msg, hmsg, heq⟩ := Option.bind_eq_some_iff.mp h
    cases heq
    cases List.mem_singleton.mp hmem
    exact ⟨hret, rfl, rfl, hmsg⟩
  · cases h
    cases hmem

/-! ## What one insertion does -/

/-- Every packet the assembly indexes is there and its text decodes. -/
def Assembles (packet : Packet) (map : HashMap Nat Packet) : Prop :=
  ∀ n ∈ List.range' 1 packet.totalN,
    ∃ p, map.lookup n = some p ∧ (W.hex.decode p.bytes).isSome

/-- The packet can be inserted: alone, its text decodes; completing its message, the numbers held
are the ones assembled and their texts decode. -/
def Reassembles (h : MessageHandler) (packet : Packet) : Prop :=
  match h.pending.lookup packet.id with
  | some map =>
    (map.orInsert packet.n packet).len = packet.totalN →
      Assembles W packet (map.orInsert packet.n packet)
  | none => packet.totalN = 1 → (W.hex.decode packet.bytes).isSome

theorem assemblePackets_eq (packet : Packet) (map : HashMap Nat Packet) :
    assemblePackets W packet map =
      ((List.range' 1 packet.totalN).mapM fun n =>
        (map.lookup n).bind fun p => W.hex.decode p.bytes).map fun chunks =>
          W.message.fromBytes chunks.flatten := by
  simp only [Option.map_eq_bind]
  rfl

theorem assemblePackets_isSome_iff {packet : Packet} {map : HashMap Nat Packet} :
    (assemblePackets W packet map).isSome ↔ Assembles W packet map := by
  rw [assemblePackets_eq, Option.isSome_map, isSome_mapM_iff]
  apply forall₂_congr
  intro n _
  cases map.lookup n <;> simp

/-- `insert_packet` returns iff the packet reassembles. -/
theorem insertPacket_isSome_iff {h : MessageHandler} {packet : Packet} :
    (h.insertPacket W packet).isSome ↔ h.Reassembles W packet := by
  unfold insertPacket Reassembles
  cases h.pending.lookup packet.id with
  | some map =>
    by_cases hlen : (map.orInsert packet.n packet).len = packet.totalN
    · simp only [hlen, if_true, true_imp_iff]
      rw [← assemblePackets_isSome_iff]
      cases assemblePackets W packet (map.orInsert packet.n packet) <;> simp
    · simp [hlen]
  | none =>
    by_cases htotal : packet.totalN = 1
    · simp only [htotal, if_true, true_imp_iff]
      cases W.hex.decode packet.bytes <;> simp
    · simp [htotal]

/-- What `insert_packet` leaves in the table: the old one, or the old one with another entry for
the packet's own id. -/
theorem insertPacket_cases {h h' : MessageHandler} {packet : Packet} {message? : Option Message}
    (hins : h.insertPacket W packet = some (h', message?)) :
    h' = h ∨ ∃ map, h' = { h with pending := h.pending.insert packet.id map } := by
  unfold insertPacket at hins
  cases hlook : h.pending.lookup packet.id with
  | some map =>
    simp only [hlook] at hins
    split at hins
    · obtain ⟨m, -, hm⟩ := Option.bind_eq_some_iff.mp hins
      cases hm
      exact Or.inr ⟨_, rfl⟩
    · cases hins
      exact Or.inr ⟨_, rfl⟩
  | none =>
    simp only [hlook] at hins
    split at hins
    · obtain ⟨bytes, -, hb⟩ := Option.bind_eq_some_iff.mp hins
      cases hb
      exact Or.inl rfl
    · cases hins
      exact Or.inr ⟨_, rfl⟩

/-- A packet touches the entry of no id but its own. -/
theorem insertPacket_frame {h h' : MessageHandler} {packet : Packet} {message? : Option Message}
    (hins : h.insertPacket W packet = some (h', message?)) {id : InnerKey} (hid : id ≠ packet.id) :
    h'.pending.lookup id = h.pending.lookup id := by
  obtain rfl | ⟨map, rfl⟩ := insertPacket_cases W hins
  · rfl
  · exact AList.lookup_insert_ne hid

/-- **A datagram from the network** is survived iff it decodes to no packet or to one that can be
inserted. -/
theorem recvMsg_isSome_iff (hack : W.ack.Total) {A : AddrText} {h : MessageHandler}
    {localAddr src : SocketAddr} {buf : List UInt8} {amt : Nat} (hamt : amt ≤ buf.length) :
    (h.recvMsg W A localAddr buf amt src).isSome ↔
      ∀ packet, W.packet.fromBytes (buf.take amt) = some packet → h.Reassembles W packet := by
  have hslice : slice buf 0 amt = some (buf.take amt) := by simp [slice, hamt]
  simp only [recvMsg, processPacket, hslice, Option.bind_eq_bind, Option.bind_some]
  cases W.packet.fromBytes (buf.take amt) with
  | none => simp
  | some packet =>
    simp only [Option.some.injEq, forall_eq']
    rw [← insertPacket_isSome_iff]
    -- the receipt never fails to be written, so only the insertion can panic
    by_cases hret : packet.ret = returnReceipt
    · obtain ⟨msg, hmsg⟩ := Option.isSome_iff_exists.mp
        (hack ⟨packet.id, packet.n, A.textBytes localAddr⟩)
      rw [if_pos hret, hmsg]
      cases hins : h.insertPacket W packet <;> simp [hins]
    · rw [if_neg hret]
      cases hins : h.insertPacket W packet <;> simp [hins]

end MessageHandler

end Udp2p
