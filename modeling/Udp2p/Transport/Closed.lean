import Udp2p.Transport.Json
import Udp2p.Transport.Receipts

/-!
# Can a node be made to panic by its own kind?

A hostile datagram can: an address that does not parse, numbers that leave gaps. But what lies on
the wire of a closed network was sent by its nodes. If their addresses are IPv4, every message has
an id of its own and the serialisers lose nothing, then no step of any node panics, whatever is
lost, repeated or reordered.

* `outgoingMsg_returns`, `incomingAck_returns`, `receive_returns` — the three steps that may panic.
* `closed_network_never_panics` — every run returns.
-/

namespace Udp2p

namespace Network

variable {ν : Type} [DecidableEq ν] {W : Wire} {A : AddrText} {addr : ν → SocketAddr}
  {events : List (Event ν)} {s : Network ν W} {log : Log ν}

/-- The nodes have IPv4 addresses. -/
def AllV4 (addr : ν → SocketAddr) : Prop := ∀ i, ∃ ip port, addr i = .v4 ip port

/-- Messages are submitted for IPv4 addresses. -/
def ForV4 (events : List (Event ν)) : Prop :=
  ∀ i dst message, .submit i dst message ∈ events → ∃ ip port, dst = .v4 ip port

theorem sendUnreliable_isSome (hpacket : W.packet.Total) (dst : SocketAddr) (packet : Packet) :
    (Transport.sendUnreliable W dst packet).isSome := by
  obtain ⟨bytes, hbytes⟩ := hpacket.exists_bytes packet
  unfold Transport.sendUnreliable
  split
  · rfl
  · next hnone =>
    rw [hbytes] at hnone
    cases hnone

/-- Sending the message at the head of a queue returns. -/
theorem outgoingMsg_returns (hW : W.Reliable) (hmessage : W.message.Total) (haddr : AllV4 addr)
    (hv4 : ForV4 events) (hrun : (chronicle W A).run (new W addr) events = some (s, log)) (i : ν)
    (packetsId : InnerKey) : (step W A s (.outgoingMsg i packetsId)).isSome := by
  show (s.outgoingMsg W A i packetsId).isSome
  unfold Network.outgoingMsg
  cases hom : (s.nodes i).om with
  | nil => rfl
  | cons m om =>
    obtain ⟨dst, message⟩ := m
    obtain ⟨bytes, hbytes⟩ := hmessage.exists_bytes message
    suffices h : (Transport.outgoingMsg W A (s.nodes i).transport packetsId dst message).isSome by
      obtain ⟨r, hr⟩ := Option.isSome_iff_exists.mp h
      simp [hr]
    by_cases hhead : message.head = .ack
    · obtain ⟨packets, hpackets, -⟩ :=
        packetize_fragments W.hex bytes packetsId noReturnReceipt
      have hout : (packets.mapM (Transport.sendUnreliable W dst)).isSome :=
        isSome_mapM_iff.mpr fun p _ => sendUnreliable_isSome hW.total dst p
      obtain ⟨out, hout⟩ := Option.isSome_iff_exists.mp hout
      simp [Transport.outgoingMsg, hhead, hbytes, hpackets, hout]
    · -- the message was submitted, and so for an IPv4 address
      have hsub := (submissions_of_run hrun).queued i (dst, message)
        (hom ▸ List.mem_cons_self) hhead
      obtain ⟨ip', port', rfl⟩ := hv4 i dst _ hsub
      obtain ⟨ip, port, hself⟩ := haddr i
      have hknown : (s.nodes i).transport.gdUdp.addr = .v4 ip port := by
        obtain ⟨outs, houtbox, -⟩ := outbox_of_run hrun i
        rw [GDUdp.addr_of_run houtbox, ← hself]
        rfl
      obtain ⟨packets, hpackets, -⟩ := packetize_fragments W.hex bytes packetsId returnReceipt
      rw [Transport.outgoingMsg_v4 W hknown hhead hbytes hpackets]
      rfl

/-- Passing the ack at the head of a queue on returns. -/
theorem incomingAck_returns (hW : W.Reliable) (haddr : AllV4 addr) (hfresh : FreshIds events)
    (hrun : (chronicle W A).run (new W addr) events = some (s, log)) (i : ν) :
    (step W A s (.incomingAck i)).isSome := by
  show (s.incomingAck W A i).isSome
  unfold Network.incomingAck
  cases hia : (s.nodes i).ia with
  | nil => rfl
  | cons ack ia =>
    have hreceipts := receipts_of_run hW.packet hW.message hW.ack hfresh hrun
    obtain ⟨j, a, -, heq⟩ := (hreceipts.nodes i).incoming ack (hia ▸ List.mem_cons_self)
    have hparse : A.parseBytes ack.src = some (addr j) := by
      rw [heq]
      obtain ⟨ip, port, hj⟩ := haddr j
      rw [hj]
      exact A.parseBytes_textBytes ip port
    suffices h : (Transport.incomingAck A (s.nodes i).transport ack).isSome by
      obtain ⟨r, hr⟩ := Option.isSome_iff_exists.mp h
      simp [hr]
    unfold Transport.incomingAck
    split
    · simp only [GDUdp.processAck, hparse, Option.bind_eq_bind, Option.bind_some]
      cases (s.nodes i).transport.gdUdp.outbox.lookup ack.packetId with
      | none => rfl
      | some map =>
        cases hn : map.lookup ack.packetNumber with
        | none => simp [hn]
        | some e => simp [hn]
    · rfl

/-- Receiving a datagram of the wire returns. -/
theorem receive_returns (hW : W.Reliable) (hack : W.ack.Total) (hfresh : FreshIds events)
    (hrun : (chronicle W A).run (new W addr) events = some (s, log)) (i : ν) (k : Nat)
    (rest : List UInt8) (src : SocketAddr) : (step W A s (.receive i k rest src)).isSome := by
  show (s.receive W A i k rest src).isSome
  unfold Network.receive
  cases hx : s.wire[k]? with
  | none => rfl
  | some x =>
    obtain ⟨hsplit, hids, hfamily⟩ := family_of_run hW.packet hfresh hrun
    -- the packet is one more of those that were split
    obtain ⟨j, o, ho, hmem⟩ :=
      (chronicled_of_run hW.packet hrun).traced.wire x (List.mem_of_getElem? hx)
    have harr : ∀ a ∈ received i log ++ [(x.packet, src)], ∃ o ∈ family log, a.1 ∈ o.packets := by
      intro a ha
      rcases List.mem_append.mp ha with hold | hnew
      · exact hfamily i a hold
      · cases List.mem_singleton.mp hnew
        exact ⟨o, mem_family_of_sent ho, hmem⟩
    obtain ⟨h, outs, hnext, -⟩ := MessageHandler.run_family_returns hW.message hsplit hids harr
    obtain ⟨h', o₁, o₂, hprev, hlast, -⟩ :=
      (MessageHandler.reassembler W).run_concat_eq_some.mp hnext
    obtain rfl : h' = (s.nodes i).handler :=
      congrArg Prod.fst (Option.some.inj (hprev.symm.trans (handler_of_run hrun i)))
    obtain ⟨message?, hins, -⟩ := MessageHandler.reassembler_step_eq_some.mp hlast
    suffices hsome : ((s.nodes i).handler.recvMsg W A (s.nodes i).addr (x.bytes ++ rest)
        x.bytes.length src).isSome by
      obtain ⟨r, hr⟩ := Option.isSome_iff_exists.mp hsome
      simp [hr]
    rw [MessageHandler.recvMsg_isSome_iff W hack (by simp), List.take_left]
    intro packet hpacket
    rw [hW.packet x.packet x.bytes x.isWire, Option.some.injEq] at hpacket
    subst hpacket
    exact (MessageHandler.insertPacket_isSome_iff W).mp (hins ▸ rfl)

/-- Runs of a closed network return, with their logs. -/
theorem exists_chronicle (hW : W.Reliable) (hmessage : W.message.Total) (hack : W.ack.Total)
    (haddr : AllV4 addr) (hv4 : ForV4 events) (hfresh : FreshIds events) :
    ∃ s log, (chronicle W A).run (new W addr) events = some (s, log) := by
  induction events using List.reverseRecOn with
  | nil => exact ⟨_, _, rfl⟩
  | append_singleton events event ih =>
    have hv4' : ForV4 events := fun i dst message hmem =>
      hv4 i dst message (List.mem_append_left _ hmem)
    obtain ⟨s, log, hrun⟩ := ih hv4' hfresh.of_concat
    have hstep : (step W A s event).isSome := by
      cases event with
      | submit i dst message => rfl
      | outgoingMsg i packetsId => exact outgoingMsg_returns hW hmessage haddr hv4' hrun i packetsId
      | incomingAck i => exact incomingAck_returns hW haddr hfresh.of_concat hrun i
      | maintain i => rfl
      | receive i k rest src => exact receive_returns hW hack hfresh.of_concat hrun i k rest src
    obtain ⟨⟨s', out⟩, hlast⟩ := Option.isSome_iff_exists.mp hstep
    have hnoted : (chronicle W A).step s event =
        some (s', out.map .inl ++ (notes W A s event).map .inr) :=
      Machine.annotate_step_eq_some.mpr ⟨out, hlast, rfl⟩
    exact ⟨s', _, (chronicle W A).run_concat_eq_some.mpr ⟨s, log, _, hrun, hnoted, rfl⟩⟩

/-- **A closed network never panics.** If the nodes have IPv4 addresses, messages are submitted for
such, every message has an id of its own and the serialisers lose nothing, then every run returns,
however datagrams are lost, repeated and reordered, and from whatever addresses they come. -/
theorem closed_network_never_panics (hW : W.Reliable) (hmessage : W.message.Total)
    (hack : W.ack.Total) (haddr : AllV4 addr) (hv4 : ForV4 events) (hfresh : FreshIds events) :
    ((machine W A).run (new W addr) events).isSome := by
  obtain ⟨s, log, hrun⟩ := exists_chronicle (A := A) hW hmessage hack haddr hv4 hfresh
  rw [Machine.run_of_annotate hrun]
  rfl

/-! ## A message and its ack -/

/-- The first node sends a gossip message, the second receives it twice and acknowledges it, and the
first passes the ack on. -/
def acknowledged : List (Event Bool) :=
  receivedTwice ++ [.outgoingMsg false (List.Vector.replicate 32 2), .receive true 1 [] secondAddr,
    .incomingAck true]

theorem allV4_twoAddrs : AllV4 twoAddrs := by
  intro i
  cases i with
  | false => exact ⟨_, _, rfl⟩
  | true => exact ⟨_, _, rfl⟩

theorem forV4_acknowledged : ForV4 acknowledged := by
  intro i dst message hmem
  simp only [acknowledged, receivedTwice, List.mem_append, List.mem_cons, List.not_mem_nil,
    Event.submit.injEq, reduceCtorEq, or_false] at hmem
  obtain ⟨rfl, rfl, -⟩ := hmem
  exact ⟨_, _, rfl⟩

theorem freshIds_acknowledged : FreshIds acknowledged := by
  show (acknowledged.filterMap Event.packetsId?).Nodup
  decide

theorem acknowledged_returns :
    ((machine Wire.json .standard).run (new Wire.json twoAddrs) acknowledged).isSome :=
  closed_network_never_panics Wire.json_reliable (ByteRep.ofFormat_total _)
    (ByteRep.ofFormat_total _) allV4_twoAddrs forV4_acknowledged freshIds_acknowledged

end Network

end Udp2p
