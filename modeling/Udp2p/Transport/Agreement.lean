import Udp2p.Transport.Transport

/-!
# Do the two ends agree on who acknowledged?

A node sends a message, the other node acknowledges a packet of it, and the ack comes back: an
`Exchange`. The sender records the address it sent to, after redirection; the receiver writes the
address it knows itself under; the sender parses it. `Exchange.Agreed` says that these meet: the
record has equal sets, and the next pass drops it and sends nothing.

* `ends_agree_iff` — they do iff the redirected destination, added to the sent set there was, makes
  the same set as the receiver's address and those of other acks, added to the ack set there was;
  for a packet new to the outbox, iff the nodes have different IP addresses or the receiver's is the
  loopback, and nobody else has acknowledged.
* `shared_ip_never_settles` — two nodes on one host with a public address do not agree.
-/

namespace Udp2p

namespace Transport

variable {W : Wire} {A : AddrText}

/-- The event sends no message under the packet's id. -/
def Apart (packet : Packet) : Event → Prop
  | .outgoingMsg packetsId _ _ => packetsId ≠ packet.id
  | .incomingAck _ => True
  | .maintain => True

/-- The address the event acknowledges the packet for, if it does. -/
def acker (A : AddrText) (packet : Packet) : Event → Option SocketAddr
  | .incomingAck ack =>
    if ack.packetId = packet.id ∧ ack.packetNumber = packet.n then A.parseBytes ack.src else none
  | .outgoingMsg _ _ _ => none
  | .maintain => none

/-- One exchange between node `a` and node `b`, from the view of `a`: what it did before, a message
for `b`, a datagram of it that `b` processes, the ack that `b` queues, what `a` does in between,
and the ack coming in while the record is still there. -/
structure Exchange (W : Wire) (A : AddrText) (a b : SocketAddr) where
  before : List Event
  start : Transport
  sentBefore : List (Datagram W.packet)
  reached : (machine W A).run (new a) before = some (start, sentBefore)
  packetsId : InnerKey
  msg : Message
  notAck : msg.head ≠ .ack
  sender : Transport
  out : List (Datagram W.packet)
  sends : outgoingMsg W A start packetsId b msg = some (sender, out)
  datagram : Datagram W.packet
  travels : datagram ∈ out
  buf : List UInt8
  amt : Nat
  arrives : slice buf 0 amt = some datagram.bytes
  src : SocketAddr
  packet? : Option Packet
  queue : List HandlerSend
  processes : MessageHandler.processPacket W A b buf amt src = some (packet?, queue)
  dst : SocketAddr
  reply : Message
  queues : .om dst reply ∈ queue
  ack : AckMessage
  decodes : W.ack.fromBytes reply.msg = some ack
  between : List Event
  apart : ∀ ev ∈ between, Apart datagram.packet ev
  waiting : Transport
  sentBetween : List (Datagram W.packet)
  waits : (machine W A).run sender between = some (waiting, sentBetween)
  waitsStill : (waiting.gdUdp.entry datagram.packet.id datagram.packet.n).isSome
  final : Transport
  acknowledges : incomingAck A waiting ack = some final

/-! ## The transport keeps its outbox in order -/

/-- The address never changes, and the outbox stays well-formed. -/
def Serves (a : SocketAddr) (t : Transport) : Prop := t.gdUdp.addr = a ∧ t.gdUdp.WellFormed

theorem incomingAck_cases {t t' : Transport} {ack : AckMessage}
    (h : incomingAck A t ack = some t') :
    t' = t ∧ ack.packetId ∉ t.gdUdp.outbox ∨
      GDUdp.processAck A t.gdUdp ack.packetId ack.packetNumber ack.src = some t'.gdUdp := by
  unfold incomingAck at h
  split at h
  · obtain ⟨g, hack, heq⟩ := Option.bind_eq_some_iff.mp h
    cases heq
    exact Or.inr hack
  · next hnot =>
    cases h
    exact Or.inl ⟨rfl, hnot⟩

theorem Serves.step {a : SocketAddr} {t t' : Transport} {ev : Event}
    {out : List (Datagram W.packet)} (h : Serves a t)
    (hstep : (machine W A).step t ev = some (t', out)) : Serves a t' := by
  cases ev with
  | outgoingMsg packetsId src msg =>
    by_cases hhead : msg.head = .ack
    · rw [outgoingMsg_ack W hhead hstep]
      exact h
    · obtain ⟨dst, bytes, packets, -, -, heq⟩ := outgoingMsg_eq W hhead hstep
      have hg := congrArg Prod.fst heq
      rw [Serves, show t'.gdUdp = _ from hg, GDUdp.sendAll_addr]
      exact ⟨h.1, h.2.sendAll _ _⟩
  | incomingAck ack =>
    obtain ⟨t'', hack, heq⟩ := Option.map_eq_some_iff.mp hstep
    cases heq
    rcases incomingAck_cases hack with ⟨rfl, -⟩ | hproc
    · exact h
    · refine ⟨?_, h.2.processAck hproc⟩
      obtain ⟨d, -, ⟨heq, -⟩ | ⟨e, map, -, heq, -⟩⟩ := GDUdp.processAck_cases hproc
      · rw [heq]
        exact h.1
      · rw [heq]
        exact h.1
  | maintain =>
    cases hstep
    exact ⟨(GDUdp.maintain_addr _ _).trans h.1, h.2.maintain _⟩

/-! ## The record while the ack is on its way -/

/-- The record of the packet, if it is still there, has the sent set `sent`, and its ack set is
`acked` with the addresses that have been `heard` since. -/
def Recorded (sent acked : HashSet SocketAddr) (heard : List SocketAddr) (packet : Packet)
    (t : Transport) : Prop :=
  ∀ e, t.gdUdp.entry packet.id packet.n = some e →
    e.sentSet.Same sent ∧ ∀ d, d ∈ e.ackSet ↔ d ∈ acked ∨ d ∈ heard

/-- An ack that comes in is heard if it is for the packet, and leaves the record alone if not. -/
theorem Recorded.ack {packet : Packet} {sent acked : HashSet SocketAddr} {heard : List SocketAddr}
    {t t' : Transport} (h : Recorded sent acked heard packet t) {ack : AckMessage}
    (hack : incomingAck A t ack = some t') :
    Recorded sent acked (heard ++ (acker A packet (.incomingAck ack)).toList) packet t' := by
  intro e he
  rcases incomingAck_cases hack with ⟨rfl, hnot⟩ | hproc
  · -- the record is there, so the ack is for another id
    have hid : ack.packetId ≠ packet.id := by
      intro hid
      rw [hid] at hnot
      exact hnot (GDUdp.mem_outbox_of_entry he)
    simpa [acker, hid] using h e he
  · obtain ⟨d, hd, hentry⟩ := GDUdp.entry_processAck hproc
    rw [hentry] at he
    split at he
    · next hsame =>
      obtain ⟨e', he', rfl⟩ := Option.map_eq_some_iff.mp he
      rw [← hsame.1, ← hsame.2] at he'
      obtain ⟨hsent, hacked⟩ := h e' he'
      refine ⟨hsent, ?_⟩
      intro x
      have hacker : acker A packet (.incomingAck ack) = some d := by
        rw [acker, if_pos ⟨hsame.1.symm, hsame.2.symm⟩, hd]
      show x ∈ e'.ackSet.insert d ↔ _
      rw [hacker, HashSet.mem_insert, hacked, Option.toList_some, List.mem_append,
        List.mem_singleton]
      tauto
    · next hother =>
      have hacker : acker A packet (.incomingAck ack) = none := by
        rw [acker, if_neg fun hsame => hother ⟨hsame.1.symm, hsame.2.symm⟩]
      simpa [hacker] using h e he

/-- An event apart from the exchange changes the record by the ack it brings at most. -/
theorem Recorded.step {a : SocketAddr} {packet : Packet} {sent acked : HashSet SocketAddr}
    {heard : List SocketAddr} {t t' : Transport} (hserves : Serves a t)
    (h : Recorded sent acked heard packet t) {ev : Event} (hapart : Apart packet ev)
    {out : List (Datagram W.packet)} (hstep : (machine W A).step t ev = some (t', out)) :
    Recorded sent acked (heard ++ (acker A packet ev).toList) packet t' := by
  cases ev with
  | outgoingMsg packetsId src msg =>
    intro e he
    rw [outgoingMsg_frame W hstep (Ne.symm hapart)] at he
    simpa [acker] using h e he
  | incomingAck ack =>
    obtain ⟨t'', hack, heq⟩ := Option.map_eq_some_iff.mp hstep
    cases heq
    exact h.ack hack
  | maintain =>
    cases hstep
    intro e he
    obtain ⟨e', he', -, rfl⟩ := GDUdp.entry_before_maintain W.packet hserves.2 he
    rw [acker, Option.toList_none, List.append_nil]
    exact h e' he'

theorem Recorded.run {a : SocketAddr} {packet : Packet} {sent acked : HashSet SocketAddr}
    {t t' : Transport} (hserves : Serves a t) (h : Recorded sent acked [] packet t)
    {events : List Event} (hapart : ∀ ev ∈ events, Apart packet ev)
    {outs : List (Datagram W.packet)} (hrun : (machine W A).run t events = some (t', outs)) :
    Recorded sent acked (events.filterMap (acker A packet)) packet t' := by
  have hboth := (machine W A).run_history
    (P := fun t hist _ =>
      Serves a t ∧ Recorded sent acked (hist.filterMap (acker A packet)) packet t)
    ?_ ⟨hserves, h⟩ hapart hrun
  · exact hboth.2
  · intro t hist outs ev t' out hP hev hstep
    refine ⟨hP.1.step hstep, ?_⟩
    rw [List.filterMap_append, List.filterMap_cons]
    have hnext := hP.2.step hP.1 hev hstep
    cases hacker : acker A packet ev with
    | none => simpa [hacker] using hnext
    | some d => simpa [hacker] using hnext

/-! ## The exchange -/

namespace Exchange

variable {a b : SocketAddr}

/-- The packet the exchange is about. -/
def packet (x : Exchange W A a b) : Packet := x.datagram.packet

/-- Where the packet had been sent before: nowhere, unless its id was in use already. -/
def sentTo (x : Exchange W A a b) : HashSet SocketAddr :=
  ((x.start.gdUdp.entry x.packet.id x.packet.n).map Entry.sentSet).getD ∅

/-- Whom acks for the packet named while the ack of `b` was on its way. -/
def heard (x : Exchange W A a b) : List SocketAddr := x.between.filterMap (acker A x.packet)

/-- Who had acknowledged the packet before. -/
def ackedBy (x : Exchange W A a b) : HashSet SocketAddr :=
  ((x.start.gdUdp.entry x.packet.id x.packet.n).map Entry.ackSet).getD ∅

/-- The ends agree: the record has its ack set equal to its sent set, and the next pass drops it
without sending the packet. -/
def Agreed (x : Exchange W A a b) : Prop :=
  ∃ e, x.final.gdUdp.entry x.packet.id x.packet.n = some e ∧ e.ackSet.Same e.sentSet ∧
    (maintain W x.final).1.gdUdp.entry x.packet.id x.packet.n = none ∧
    ∀ y ∈ (maintain W x.final).2, ¬ (y.packet.id = x.packet.id ∧ y.packet.n = x.packet.n)

theorem serves_start (x : Exchange W A a b) : Serves a x.start :=
  (machine W A).run_induct (fun _ _ _ _ h hstep => h.step hstep)
    (show Serves a (new a) from ⟨rfl, GDUdp.wellFormed_new a⟩) x.reached

theorem serves_sender (x : Exchange W A a b) : Serves a x.sender := by
  have hstep : (machine W A).step x.start (.outgoingMsg x.packetsId b x.msg) =
      some (x.sender, x.out) := x.sends
  exact x.serves_start.step hstep

theorem serves_waiting (x : Exchange W A a b) : Serves a x.waiting :=
  (machine W A).run_induct (fun _ _ _ _ h hstep => h.step hstep) x.serves_sender x.waits

section Ipv4

variable {ip ip' : Ipv4Addr} {port port' : UInt16}

/-- The sender records its destination, as redirected. -/
theorem entry_sender (x : Exchange W A (.v4 ip port) (.v4 ip' port')) :
    x.sender.gdUdp.entry x.packet.id x.packet.n =
      some (GDUdp.afterSend (destination (.v4 ip port) (.v4 ip' port')) x.packet
        (x.start.gdUdp.entry x.packet.id x.packet.n)) := by
  obtain ⟨dst, bytes, packets, hdst, hpackets, heq⟩ := outgoingMsg_eq W x.notAck x.sends
  rw [x.serves_start.1, redirect_v4, Option.some.injEq] at hdst
  have hfrag := fragments_of_packetize hpackets
  subst hdst
  -- the datagram carries one of the packets, and no other packet has its number
  have hmem : x.packet ∈ packets := by
    have hout : x.datagram ∈ (x.sender.gdUdp, x.out).2 := x.travels
    rw [heq, GDUdp.transmissions_sendAll] at hout
    obtain ⟨y, hy, hx⟩ := List.mem_flatMap.mp hout
    obtain ⟨p, hp, rfl⟩ := List.mem_map.mp hy
    rw [packet, (GDUdp.mem_transmit _ hx).1]
    exact hp
  obtain ⟨pre, post, rfl⟩ := List.append_of_mem hmem
  have hnodup : ((pre ++ x.packet :: post).map Packet.n).Nodup :=
    hfrag.numbers ▸ List.nodup_range'
  rw [List.map_append, List.map_cons, List.nodup_middle, List.nodup_cons, ← List.map_append]
    at hnodup
  have hother : ∀ l, l ⊆ pre ++ post →
      ∀ y ∈ l.map (fun p => (destination (.v4 ip port) (.v4 ip' port'), p)),
        ¬ GDUdp.Sends x.packet.id x.packet.n y := by
    intro l hl y hy hsends
    obtain ⟨p, hp, rfl⟩ := List.mem_map.mp hy
    exact hnodup.1 (List.mem_map.mpr ⟨p, hl hp, hsends.2⟩)
  rw [List.map_append, List.map_cons] at heq
  rw [show x.sender.gdUdp = _ from congrArg Prod.fst heq]
  exact GDUdp.entry_sendAll_of_mem W.packet (x := (_, x.packet))
    (hother pre (List.subset_append_left pre post))
    (hother post (List.subset_append_right pre post))

/-- The receiver's ack names the packet and the receiver's own address. -/
theorem ack_eq (hpacket : W.packet.Lawful) (hack : W.ack.Lawful) (x : Exchange W A a b) :
    x.ack = ⟨x.packet.id, x.packet.n, A.textBytes b⟩ := by
  have hread := hpacket _ _ x.datagram.isWire
  obtain ⟨-, -, -, hmsg⟩ :=
    MessageHandler.processPacket_queues W x.arrives hread x.processes x.queues
  have hback := hack _ _ hmsg
  rw [x.decodes, Option.some.injEq] at hback
  exact hback

/-- When the ack has come in, the record's sets are those of before with the destination added to
the one, and the receiver and whoever else acknowledged added to the other. -/
theorem entry_final (hpacket : W.packet.Lawful) (hack : W.ack.Lawful)
    (x : Exchange W A (.v4 ip port) (.v4 ip' port')) :
    ∃ e, x.final.gdUdp.entry x.packet.id x.packet.n = some e ∧
      (∀ d, d ∈ e.sentSet ↔ d = destination (.v4 ip port) (.v4 ip' port') ∨ d ∈ x.sentTo) ∧
      ∀ d, d ∈ e.ackSet ↔ d = .v4 ip' port' ∨ d ∈ x.ackedBy ∨ d ∈ x.heard := by
  have hparse := A.parseBytes_textBytes ip' port'
  have hrecorded : Recorded (x.sentTo.insert (destination (.v4 ip port) (.v4 ip' port')))
      x.ackedBy [] x.packet x.sender := by
    intro e he
    rw [x.entry_sender, Option.some.injEq] at he
    subst he
    rw [GDUdp.afterSend_sentSet, GDUdp.afterSend_ackSet]
    refine ⟨fun _ => Iff.rfl, ?_⟩
    intro d
    simp [ackedBy]
  obtain ⟨e, he⟩ := Option.isSome_iff_exists.mp x.waitsStill
  obtain ⟨hsent, hacked⟩ := hrecorded.run x.serves_sender x.apart x.waits e he
  rcases incomingAck_cases x.acknowledges with ⟨-, hnot⟩ | hproc
  · -- the record is there, so its id is in the outbox
    rw [x.ack_eq hpacket hack] at hnot
    exact absurd (GDUdp.mem_outbox_of_entry he) hnot
  · rw [x.ack_eq hpacket hack] at hproc
    obtain ⟨d, hd, hentry⟩ := GDUdp.entry_processAck hproc
    rw [hparse, Option.some.injEq] at hd
    subst hd
    have he : x.waiting.gdUdp.entry x.packet.id x.packet.n = some e := he
    refine ⟨e.acked (.v4 ip' port'), ?_, ?_, ?_⟩
    · rw [hentry, if_pos ⟨rfl, rfl⟩, he]
      rfl
    · intro d
      show d ∈ e.sentSet ↔ _
      rw [hsent d, HashSet.mem_insert]
    · intro d
      show d ∈ e.ackSet.insert (.v4 ip' port') ↔ _
      rw [HashSet.mem_insert, hacked d]
      rfl

/-- Equal sets are all it takes: the pass drops the record and leaves its packet out. -/
theorem agreed_iff (x : Exchange W A a b) {e : Entry}
    (he : x.final.gdUdp.entry x.packet.id x.packet.n = some e) :
    x.Agreed ↔ e.ackSet.Same e.sentSet := by
  constructor
  · intro h
    obtain ⟨e', he', hsame, -⟩ := h
    rw [he, Option.some.injEq] at he'
    exact he' ▸ hsame
  · intro hsame
    have hstep : (machine W A).step x.waiting (.incomingAck x.ack) = some (x.final, []) :=
      congrArg (Option.map fun t => (t, [])) x.acknowledges
    have hwf : x.final.gdUdp.WellFormed := (x.serves_waiting.step hstep).2
    have hdropped : ¬ e.Kept := fun hkept => hkept.1 hsame.symm
    refine ⟨e, he, hsame, ?_, ?_⟩
    · show (GDUdp.maintain W.packet x.final.gdUdp).1.entry x.packet.id x.packet.n = none
      rw [GDUdp.entry_maintain _ hwf, he]
      simp [Option.filter, hdropped]
    · intro y hy hsame
      obtain ⟨hid, hn⟩ := hsame
      obtain ⟨e', he', hkept, -⟩ := GDUdp.mem_maintain W.packet hwf hy
      rw [hid, hn, he, Option.some.injEq] at he'
      exact hdropped (he' ▸ hkept)

theorem agreed_iff_same (hpacket : W.packet.Lawful) (hack : W.ack.Lawful)
    (x : Exchange W A (.v4 ip port) (.v4 ip' port')) :
    x.Agreed ↔ ∀ d, (d = destination (.v4 ip port) (.v4 ip' port') ∨ d ∈ x.sentTo) ↔
      (d = .v4 ip' port' ∨ d ∈ x.ackedBy ∨ d ∈ x.heard) := by
  obtain ⟨e, he, hsent, hacked⟩ := x.entry_final hpacket hack
  rw [x.agreed_iff he]
  constructor
  · intro h d
    rw [← hsent, ← hacked]
    exact (h d).symm
  · intro h d
    rw [hsent, hacked]
    exact (h d).symm

/-- Over IPv4, the destination is left as it is between different addresses and for the loopback
address. -/
theorem destination_eq_iff (port port' : UInt16) :
    destination (.v4 ip port) (.v4 ip' port') = .v4 ip' port' ↔ ip ≠ ip' ∨ ip' = .localhost := by
  by_cases hip : ip = ip'
  · simp [destination, hip, eq_comm]
  · simp [destination, hip]

theorem agreed_iff_of_fresh (hpacket : W.packet.Lawful) (hack : W.ack.Lawful)
    (x : Exchange W A (.v4 ip port) (.v4 ip' port'))
    (hfresh : x.start.gdUdp.entry x.packet.id x.packet.n = none) :
    x.Agreed ↔ (ip ≠ ip' ∨ ip' = .localhost) ∧ ∀ d ∈ x.heard, d = .v4 ip' port' := by
  have hsentTo : ∀ d, d ∉ x.sentTo := by
    rw [sentTo, hfresh]
    exact HashSet.notMem_empty
  have hackedBy : ∀ d, d ∉ x.ackedBy := by
    rw [ackedBy, hfresh]
    exact HashSet.notMem_empty
  rw [x.agreed_iff_same hpacket hack, ← destination_eq_iff port port']
  simp only [hsentTo, hackedBy, or_false, false_or]
  constructor
  · intro h
    have hdest : destination (.v4 ip port) (.v4 ip' port') = .v4 ip' port' :=
      ((h (.v4 ip' port')).mpr (Or.inl rfl)).symm
    refine ⟨hdest, ?_⟩
    intro d hd
    rw [(h d).mpr (Or.inr hd), hdest]
  · intro h d
    rw [h.1]
    constructor
    · exact Or.inl
    · intro hd
      rcases hd with hd | hd
      · exact hd
      · exact h.2 d hd

/-- **The two ends agree**, exactly: iff the destination makes the addresses sent to before the same
set as the receiver makes those that acknowledged before and meanwhile. For a packet that was not in
the outbox before: iff the two nodes have different IP addresses or the receiver's is the loopback
address, and whatever acks for the packet came in meanwhile named the receiver. -/
theorem ends_agree_iff (hpacket : W.packet.Lawful) (hack : W.ack.Lawful)
    (x : Exchange W A (.v4 ip port) (.v4 ip' port')) :
    (x.Agreed ↔ ∀ d, (d = destination (.v4 ip port) (.v4 ip' port') ∨ d ∈ x.sentTo) ↔
      (d = .v4 ip' port' ∨ d ∈ x.ackedBy ∨ d ∈ x.heard)) ∧
    (x.start.gdUdp.entry x.packet.id x.packet.n = none →
      (x.Agreed ↔ (ip ≠ ip' ∨ ip' = .localhost) ∧ ∀ d ∈ x.heard, d = .v4 ip' port')) :=
  ⟨x.agreed_iff_same hpacket hack, x.agreed_iff_of_fresh hpacket hack⟩

end Ipv4

/-! ## One gossip message, acknowledged at once -/

def someMessage : Message := ⟨.gossip, [1, 2, 3]⟩

/-- The one packet of that message. -/
def somePacket : Packet where
  id := List.Vector.replicate 32 1
  n := 1
  totalN := 1
  bytes := Hex.standard.encode (gossipJson [1, 2, 3])
  ret := returnReceipt

/-- The ack of that packet by the node at `b`. -/
def someAck (b : SocketAddr) : AckMessage :=
  ⟨somePacket.id, somePacket.n, AddrText.standard.textBytes b⟩

/-- A wire that writes them as `serde_json` does. -/
def someWire (b : SocketAddr) : Wire where
  hex := Hex.standard
  packet := .table [(somePacket, packetJson somePacket)]
  message := .table [(someMessage, gossipJson [1, 2, 3])]
  ack := .table [(someAck b, ackJson (someAck b))]
  kad := .table []

theorem someWire_packet_lawful (b : SocketAddr) : (someWire b).packet.Lawful :=
  ByteRep.table_lawful (by simp)

theorem someWire_ack_lawful (b : SocketAddr) : (someWire b).ack.Lawful :=
  ByteRep.table_lawful (by simp)

/-- Any two nodes have such an exchange. -/
theorem exists_exchange (ip ip' : Ipv4Addr) (port port' : UInt16) :
    ∃ x : Exchange (someWire (.v4 ip' port')) .standard (.v4 ip port) (.v4 ip' port'),
      x.start.gdUdp.entry x.packet.id x.packet.n = none := by
  let W := someWire (.v4 ip' port')
  let dst := destination (.v4 ip port) (.v4 ip' port')
  have hpackets : packetize W.hex (gossipJson [1, 2, 3]) somePacket.id returnReceipt =
      some [somePacket] := by
    rw [packetize_eq, show packetCount (gossipJson [1, 2, 3]) = 1 by decide]
    rfl
  have hwire : W.packet.asBytes somePacket = some (packetJson somePacket) := by
    simp [W, someWire, ByteRep.table]
  have hmessage : W.message.asBytes someMessage = some (gossipJson [1, 2, 3]) := by
    simp [W, someWire, ByteRep.table]
  have hsend : outgoingMsg W .standard (new (.v4 ip port)) somePacket.id (.v4 ip' port')
      someMessage = some (_, _) := outgoingMsg_v4 W rfl (by decide) hmessage hpackets
  have hsender : ((GDUdp.sendAll W.packet (GDUdp.new (.v4 ip port)) [(dst, somePacket)]).1.entry
      somePacket.id somePacket.n) = some (.first dst somePacket) := by
    simp [GDUdp.sendAll, GDUdp.sendNext, GDUdp.entry_sendReliable, GDUdp.entry_new,
      GDUdp.afterSend]
  obtain ⟨g, hproc, -⟩ := GDUdp.processAck_of_entry
    (AddrText.standard.parseBytes_textBytes ip' port') hsender
  have harrives : slice (packetJson somePacket) 0 (packetJson somePacket).length =
      some (packetJson somePacket) := by simp [slice]
  have hread : W.packet.fromBytes (packetJson somePacket) = some somePacket := by
    simp [W, someWire, ByteRep.table]
  have hreply : W.ack.asBytes (someAck (.v4 ip' port')) =
      some (ackJson (someAck (.v4 ip' port'))) := by
    simp [W, someWire, ByteRep.table]
  refine ⟨{
    before := []
    start := new (.v4 ip port)
    sentBefore := []
    reached := rfl
    packetsId := somePacket.id
    msg := someMessage
    notAck := by decide
    sender := _
    out := _
    sends := hsend
    datagram := ⟨somePacket, packetJson somePacket, dst, hwire⟩
    travels := by
      rw [GDUdp.transmissions_sendAll]
      simp [GDUdp.transmit_eq W.packet hwire, dst]
    buf := packetJson somePacket
    amt := (packetJson somePacket).length
    arrives := harrives
    src := .v4 ip port
    packet? := some somePacket
    queue := [.om (.v4 ip port) ⟨.ack, ackJson (someAck (.v4 ip' port'))⟩]
    processes := by
      simp only [MessageHandler.processPacket, harrives, Option.bind_eq_bind, Option.bind_some]
      rw [show (someWire (.v4 ip' port')).packet.fromBytes _ = _ from hread]
      exact congrArg (Option.bind · _) hreply
    dst := .v4 ip port
    reply := ⟨.ack, ackJson (someAck (.v4 ip' port'))⟩
    queues := List.mem_singleton_self _
    ack := someAck (.v4 ip' port')
    decodes := by simp [someWire, ByteRep.table]
    between := []
    apart := by simp
    waiting := _
    sentBetween := []
    waits := rfl
    waitsStill := Option.isSome_iff_exists.mpr ⟨_, hsender⟩
    final := ⟨g⟩
    acknowledges :=
      (if_pos (GDUdp.mem_outbox_of_entry hsender)).trans (congrArg (Option.bind · _) hproc) }, ?_⟩
  exact GDUdp.entry_new _ _ _

/-- Two nodes with different addresses. -/
theorem two_hosts_agree_iff :
    ∃ x : Exchange (someWire (.v4 ⟨10, 0, 0, 3⟩ 9292)) .standard (.v4 ⟨10, 0, 0, 2⟩ 9292)
        (.v4 ⟨10, 0, 0, 3⟩ 9292),
      (x.Agreed ↔ ∀ d, (d = destination (.v4 ⟨10, 0, 0, 2⟩ 9292) (.v4 ⟨10, 0, 0, 3⟩ 9292) ∨
        d ∈ x.sentTo) ↔ (d = .v4 ⟨10, 0, 0, 3⟩ 9292 ∨ d ∈ x.ackedBy ∨ d ∈ x.heard)) ∧
      (x.start.gdUdp.entry x.packet.id x.packet.n = none →
        (x.Agreed ↔ ((⟨10, 0, 0, 2⟩ : Ipv4Addr) ≠ ⟨10, 0, 0, 3⟩ ∨
          (⟨10, 0, 0, 3⟩ : Ipv4Addr) = .localhost) ∧
            ∀ d ∈ x.heard, d = .v4 ⟨10, 0, 0, 3⟩ 9292)) := by
  obtain ⟨x, -⟩ := exists_exchange ⟨10, 0, 0, 2⟩ ⟨10, 0, 0, 3⟩ 9292 9292
  exact ⟨x, ends_agree_iff (someWire_packet_lawful _) (someWire_ack_lawful _) x⟩

/-- Two nodes at one address: the packet is recorded as sent to the loopback address, and
acknowledged by the other one. -/
theorem shared_ip_never_settles :
    ¬ ∀ (W : Wire) (A : AddrText) (ip ip' : Ipv4Addr) (port port' : UInt16)
      (x : Exchange W A (.v4 ip port) (.v4 ip' port')),
      W.packet.Lawful → W.ack.Lawful → x.Agreed := by
  intro hall
  obtain ⟨x, hfresh⟩ := exists_exchange ⟨10, 0, 0, 2⟩ ⟨10, 0, 0, 2⟩ 9292 9293
  have hpacket := someWire_packet_lawful (.v4 ⟨10, 0, 0, 2⟩ 9293)
  have hack := someWire_ack_lawful (.v4 ⟨10, 0, 0, 2⟩ 9293)
  have hcases := (x.agreed_iff_of_fresh hpacket hack hfresh).mp (hall _ _ _ _ _ _ x hpacket hack)
  rcases hcases.1 with hne | hloop
  · exact hne rfl
  · exact absurd hloop (by decide)

end Exchange

end Transport

end Udp2p
