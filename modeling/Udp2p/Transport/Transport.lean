import Udp2p.GdUdp.Maintenance
import Udp2p.Transport.Handler

/-!
# The transport

`Transport` drives the outbox of a node: it splits the messages of its outgoing channel into packets
and sends them, passes the acknowledgements of its incoming channel on and runs the maintenance. The
packet id it draws at random is an argument here. `none` is a panic.

Ack messages are sent as they are and without a receipt. All others are sent reliably; when the
address texts of the node and of the destination have the same part before the first colon, to the
loopback address in place of the destination.

* `outgoingMsg_split` — what sending a message that is no ack amounts to.
* `outgoingMsg_v4` — what sending a message to an IPv4 address amounts to.
-/

namespace Udp2p

structure Transport where
  gdUdp : GDUdp

namespace Transport

variable (W : Wire) (A : AddrText)

def new (addr : SocketAddr) : Transport where
  gdUdp := GDUdp.new addr

/-- `sock.send_to(&packet.as_bytes().unwrap(), dst)`. -/
def sendUnreliable (dst : SocketAddr) (packet : Packet) : Option (Datagram W.packet) :=
  match h : W.packet.asBytes packet with
  | some bytes => some ⟨packet, bytes, dst, h⟩
  | none => none

/-- Where the packets for `src` go; `ip` and `peer` are the texts of the node's own address and of
`src`. -/
def redirect (ip peer : String) (src : SocketAddr) : Option SocketAddr :=
  let splitLocal := ip.toList.splitOn ':'
  let splitPeer := peer.toList.splitOn ':'
  -- the pieces before the first colon, the IP addresses of IPv4 texts
  if splitLocal[0]? = splitPeer[0]? then do
    let newIp := Ipv4Addr.localhost
    let text ← splitPeer[1]?
    let port ← parseU32 text
    A.parse (String.ofList (newIp.text ++ ':' :: Nat.toDigits 10 port))
  else some src

/-- Send one message of the outgoing channel, as packets under the id `packetsId`. -/
def outgoingMsg (t : Transport) (packetsId : InnerKey) (src : SocketAddr) (msg : Message) :
    Option (Transport × List (Datagram W.packet)) := do
  match msg.head with
  | .ack =>
    let bytes ← W.message.asBytes msg
    let packets ← packetize W.hex bytes packetsId noReturnReceipt
    let out ← packets.mapM (sendUnreliable W src)
    return (t, out)
  | .request | .response | .gossip =>
    let ip := A.toText t.gdUdp.addr
    let peer := A.toText src
    let bytes ← W.message.asBytes msg
    let packets ← packetize W.hex bytes packetsId returnReceipt
    let (g, out) ← packets.foldlM (fun r packet => do
      let dst ← redirect A ip peer src
      return GDUdp.sendNext W.packet r dst packet) (t.gdUdp, [])
    return ({ t with gdUdp := g }, out)

/-- Pass one acknowledgement of the incoming channel on, if its message is in the outbox. -/
def incomingAck (t : Transport) (ack : AckMessage) : Option Transport :=
  if ack.packetId ∈ t.gdUdp.outbox then do
    let g ← GDUdp.processAck A t.gdUdp ack.packetId ack.packetNumber ack.src
    return { t with gdUdp := g }
  else some t

/-- The maintenance, when `check_time_elapsed` finds that it is time. -/
def maintain (t : Transport) : Transport × List (Datagram W.packet) :=
  let (g, out) := GDUdp.maintain W.packet t.gdUdp
  ({ t with gdUdp := g }, out)

/-- What happens to a transport. -/
inductive Event where
  | outgoingMsg (packetsId : InnerKey) (src : SocketAddr) (msg : Message)
  | incomingAck (ack : AckMessage)
  | maintain
  deriving DecidableEq

def machine : Machine Transport Event (Datagram W.packet) where
  step t
    | .outgoingMsg packetsId src msg => outgoingMsg W A t packetsId src msg
    | .incomingAck ack => (incomingAck A t ack).map fun t => (t, [])
    | .maintain => some (maintain W t)

/-! ## Redirection -/

/-- The destination of a message for `src`, a node with the address `self` sending it. -/
def destination : SocketAddr → SocketAddr → SocketAddr
  | .v4 ip _, .v4 ip' port => if ip = ip' then .v4 .localhost port else .v4 ip' port
  | _, src => src

variable {A}

theorem redirect_v4 (ip ip' : Ipv4Addr) (port port' : UInt16) :
    redirect A (A.toText (.v4 ip port)) (A.toText (.v4 ip' port')) (.v4 ip' port') =
      some (destination (.v4 ip port) (.v4 ip' port')) := by
  have hport : port'.toNat < 2 ^ 32 := Nat.lt_trans port'.toNat_lt (by decide)
  have hloop : A.parse (String.ofList (Ipv4Addr.localhost.text ++ ':' ::
      Nat.toDigits 10 port'.toNat)) = some (.v4 .localhost port') := by
    rw [← A.parse_toText, A.toText_v4]
    rfl
  simp only [redirect, A.toText_v4, String.toList_ofList, splitOn_textV4, destination]
  by_cases h : ip = ip'
  · subst h
    simp only [List.getElem?_cons_zero, List.getElem?_cons_succ, if_true, Option.bind_eq_bind,
      Option.bind_some, parseU32_toDigits hport]
    exact hloop
  · -- different addresses have different texts
    have htext : ip.text ≠ ip'.text := fun heq => h (Ipv4Addr.text_injective heq)
    simp [h, htext]

/-- **Sending a message** that is no ack: its packets are sent reliably, one after another, to the
address the destination is redirected to. -/
theorem outgoingMsg_split {t t' : Transport} {packetsId : InnerKey} {src : SocketAddr}
    {msg : Message} (hhead : msg.head ≠ .ack) {out : List (Datagram W.packet)}
    (hsend : outgoingMsg W A t packetsId src msg = some (t', out)) :
    ∃ dst bytes packets, W.message.asBytes msg = some bytes ∧
      redirect A (A.toText t.gdUdp.addr) (A.toText src) src = some dst ∧
      packetize W.hex bytes packetsId returnReceipt = some packets ∧
      (t'.gdUdp, out) =
        GDUdp.sendAll W.packet t.gdUdp (packets.map fun packet => (dst, packet)) := by
  unfold outgoingMsg at hsend
  split at hsend
  · next hack => exact absurd hack hhead
  all_goals
    obtain ⟨bytes, hbytes, hsend⟩ := Option.bind_eq_some_iff.mp hsend
    obtain ⟨packets, hpackets, hsend⟩ := Option.bind_eq_some_iff.mp hsend
    cases hdst : redirect A (A.toText t.gdUdp.addr) (A.toText src) src with
    | none =>
      -- there is a first packet, and its destination panics
      obtain ⟨p, ps, rfl⟩ :=
        List.exists_cons_of_ne_nil (fragments_of_packetize hpackets).nonempty
      simp [hdst] at hsend
    | some dst =>
      simp only [hdst, Option.bind_eq_bind, Option.bind_some, List.foldlM_pure] at hsend
      cases hsend
      refine ⟨dst, bytes, packets, hbytes, rfl, hpackets, ?_⟩
      rw [GDUdp.sendAll, List.foldl_map]

theorem outgoingMsg_eq {t t' : Transport} {packetsId : InnerKey} {src : SocketAddr} {msg : Message}
    (hhead : msg.head ≠ .ack) {out : List (Datagram W.packet)}
    (hsend : outgoingMsg W A t packetsId src msg = some (t', out)) :
    ∃ dst bytes packets, redirect A (A.toText t.gdUdp.addr) (A.toText src) src = some dst ∧
      packetize W.hex bytes packetsId returnReceipt = some packets ∧
      (t'.gdUdp, out) =
        GDUdp.sendAll W.packet t.gdUdp (packets.map fun packet => (dst, packet)) := by
  obtain ⟨dst, bytes, packets, -, hsplit⟩ := outgoingMsg_split W hhead hsend
  exact ⟨dst, bytes, packets, hsplit⟩

/-- Between IPv4 addresses, sending a message that can be written returns. -/
theorem outgoingMsg_v4 {t : Transport} {ip ip' : Ipv4Addr} {port port' : UInt16}
    (haddr : t.gdUdp.addr = .v4 ip port) {packetsId : InnerKey} {msg : Message}
    (hhead : msg.head ≠ .ack) {bytes : MessageData} (hbytes : W.message.asBytes msg = some bytes)
    {packets : Packets} (hpackets : packetize W.hex bytes packetsId returnReceipt = some packets) :
    outgoingMsg W A t packetsId (.v4 ip' port') msg =
      some (⟨(GDUdp.sendAll W.packet t.gdUdp (packets.map fun packet =>
          (destination (.v4 ip port) (.v4 ip' port'), packet))).1⟩,
        (GDUdp.sendAll W.packet t.gdUdp (packets.map fun packet =>
          (destination (.v4 ip port) (.v4 ip' port'), packet))).2) := by
  unfold outgoingMsg
  split
  · next hack => exact absurd hack hhead
  all_goals
    simp only [haddr, hbytes, hpackets, redirect_v4, Option.bind_eq_bind, Option.bind_some,
      List.foldlM_pure]
    rw [GDUdp.sendAll, List.foldl_map]
    rfl

/-- Acks are sent without a trace in the outbox. -/
theorem outgoingMsg_ack {t t' : Transport} {packetsId : InnerKey} {src : SocketAddr}
    {msg : Message} (hhead : msg.head = .ack) {out : List (Datagram W.packet)}
    (hsend : outgoingMsg W A t packetsId src msg = some (t', out)) : t' = t := by
  simp only [outgoingMsg, hhead] at hsend
  obtain ⟨bytes, -, hsend⟩ := Option.bind_eq_some_iff.mp hsend
  obtain ⟨packets, -, hsend⟩ := Option.bind_eq_some_iff.mp hsend
  obtain ⟨out', -, hsend⟩ := Option.bind_eq_some_iff.mp hsend
  cases hsend
  rfl

/-- A message touches the records of no id but its own. -/
theorem outgoingMsg_frame {t t' : Transport} {packetsId : InnerKey} {src : SocketAddr}
    {msg : Message} {out : List (Datagram W.packet)}
    (hsend : outgoingMsg W A t packetsId src msg = some (t', out)) {id : InnerKey}
    (hid : id ≠ packetsId) (n : Nat) : t'.gdUdp.entry id n = t.gdUdp.entry id n := by
  by_cases hhead : msg.head = .ack
  · rw [outgoingMsg_ack W hhead hsend]
  · obtain ⟨dst, bytes, packets, -, hpackets, heq⟩ := outgoingMsg_eq W hhead hsend
    have hfrag := fragments_of_packetize hpackets
    have hother : ∀ x ∈ packets.map (fun packet => (dst, packet)), ¬ GDUdp.Sends id n x := by
      intro x hx hsends
      obtain ⟨p, hp, rfl⟩ := List.mem_map.mp hx
      exact hid (hsends.1.symm.trans (hfrag.id_eq p hp))
    have hg' := congrArg (fun r => r.1.entry id n) heq
    exact hg'.trans (GDUdp.entry_sendings_other W.packet hother (t.gdUdp, []))

end Transport

end Udp2p
