import Mathlib.Logic.Function.Basic
import Udp2p.Transport.Agreement
import Udp2p.Transport.Delivery

/-!
# A network of nodes

Every node has a transport, a message handler and the two queues between them: outgoing messages
`om` and incoming acks `ia`. All datagrams ever sent lie on the wire, from which any node may
receive any of them, at any time and any number of times, or never: the channel loses, repeats and
reorders.

A node's application submits messages that are no acks. The outputs of the network report the
messages that nodes split and send, and the messages that are put in their outgoing queues.

* `Traced.step`, `traced_of_run` — every packet on the wire or in an outbox was split off a message,
  and those in outboxes off messages that are no acks.
* `acks_never_beget_acks` — which steps queue an ack.
-/

namespace Udp2p

/-- A message of an application. -/
abbrev AppMessage := {message : Message // message.head ≠ .ack}

/-- The receipt `outgoing_msg` asks for. -/
def receiptFor : Header → ReturnReceipt
  | .ack => noReturnReceipt
  | .request | .response | .gossip => returnReceipt

/-- A message as `outgoing_msg` splits it. -/
def originalOf (W : Wire) (packetsId : InnerKey) (message : Message) : Option Original := do
  let bytes ← W.message.asBytes message
  let packets ← packetize W.hex bytes packetsId (receiptFor message.head)
  return ⟨packetsId, receiptFor message.head, message, bytes, packets⟩

structure Node where
  transport : Transport
  handler : MessageHandler
  addr : SocketAddr
  om : List (SocketAddr × Message)
  ia : List AckMessage

namespace Node

def new (addr : SocketAddr) : Node where
  transport := Transport.new addr
  handler := ⟨∅⟩
  addr := addr
  om := []
  ia := []

end Node

/-- The nodes, and all datagrams ever sent. -/
structure Network (ν : Type) (W : Wire) where
  nodes : ν → Node
  wire : List (Datagram W.packet)

namespace Network

variable {ν : Type} [DecidableEq ν] (W : Wire) (A : AddrText)

def new (addr : ν → SocketAddr) : Network ν W where
  nodes i := Node.new (addr i)
  wire := []

/-- What happens in a network. `receive i k rest src` hands the `k`-th datagram of the wire to node
`i`, in a buffer that ends with `rest`. -/
inductive Event (ν : Type) where
  | submit (i : ν) (dst : SocketAddr) (message : AppMessage)
  | outgoingMsg (i : ν) (packetsId : InnerKey)
  | incomingAck (i : ν)
  | maintain (i : ν)
  | receive (i : ν) (k : Nat) (rest : List UInt8) (src : SocketAddr)

/-- What is reported: a message split and sent, or a message put in the outgoing queue. -/
inductive Report (ν : Type) where
  | sent (i : ν) (o : Original)
  | queued (i : ν) (dst : SocketAddr) (message : Message)

variable {W} in
/-- Replace a node. -/
def set (s : Network ν W) (i : ν) (node : Node) : Network ν W :=
  { s with nodes := Function.update s.nodes i node }

variable {W} in
theorem nodes_set (s : Network ν W) (i : ν) (node : Node) (j : ν) :
    (s.set i node).nodes j = if j = i then node else s.nodes j :=
  Function.update_apply s.nodes i node j

/-- What a handler puts in the outgoing queue. -/
def omOf : HandlerSend → Option (SocketAddr × Message)
  | .om dst message => some (dst, message)
  | _ => none

/-- What a handler puts in the queue of incoming acks. -/
def iaOf : HandlerSend → Option AckMessage
  | .ia ack => some ack
  | _ => none

/-- A node sends the message at the head of its outgoing queue, if any. -/
def outgoingMsg (s : Network ν W) (i : ν) (packetsId : InnerKey) :
    Option (Network ν W × List (Report ν)) :=
  match (s.nodes i).om with
  | [] => some (s, [])
  | (dst, message) :: om => do
    let (transport, out) ←
      Transport.outgoingMsg W A (s.nodes i).transport packetsId dst message
    let s := s.set i { s.nodes i with transport, om }
    return ({ s with wire := s.wire ++ out },
      (originalOf W packetsId message).toList.map (.sent i))

/-- A node passes on the ack at the head of its queue, if any. -/
def incomingAck (s : Network ν W) (i : ν) : Option (Network ν W × List (Report ν)) :=
  match (s.nodes i).ia with
  | [] => some (s, [])
  | ack :: ia => do
    let transport ← Transport.incomingAck A (s.nodes i).transport ack
    return (s.set i { s.nodes i with transport, ia }, [])

/-- A node receives a datagram of the wire, if it is there. -/
def receive (s : Network ν W) (i : ν) (k : Nat) (rest : List UInt8) (src : SocketAddr) :
    Option (Network ν W × List (Report ν)) :=
  match s.wire[k]? with
  | none => some (s, [])
  | some x => do
    let node := s.nodes i
    let (handler, sends) ←
      node.handler.recvMsg W A node.addr (x.bytes ++ rest) x.bytes.length src
    let om := sends.filterMap omOf
    let ia := sends.filterMap iaOf
    return (s.set i { node with handler, om := node.om ++ om, ia := node.ia ++ ia },
      om.map fun m => .queued i m.1 m.2)

def step (s : Network ν W) : Event ν → Option (Network ν W × List (Report ν))
  | .submit i dst message =>
    let node := s.nodes i
    some (s.set i { node with om := node.om ++ [(dst, message.1)] }, [.queued i dst message.1])
  | .outgoingMsg i packetsId => s.outgoingMsg W A i packetsId
  | .incomingAck i => s.incomingAck W A i
  | .maintain i =>
    let node := s.nodes i
    let (transport, out) := Transport.maintain W node.transport
    let s := s.set i { node with transport }
    some ({ s with wire := s.wire ++ out }, [])
  | .receive i k rest src => s.receive W A i k rest src

def machine : Machine (Network ν W) (Event ν) (Report ν) where
  step := step W A

/-! ## Splitting and sending -/

variable {W A}

theorem originalOf_eq_some {packetsId : InnerKey} {message : Message} {o : Original}
    (h : originalOf W packetsId message = some o) :
    o.Split W ∧ o.message = message ∧ o.ret = receiptFor message.head := by
  obtain ⟨bytes, hbytes, h⟩ := Option.bind_eq_some_iff.mp h
  obtain ⟨packets, hpackets, h⟩ := Option.bind_eq_some_iff.mp h
  cases h
  exact ⟨⟨hbytes, hpackets⟩, rfl, rfl⟩

/-- Packets know whether a receipt is wanted for their message. -/
theorem ret_of_mem_packets {o : Original} (h : o.Split W) {p : Packet} (hp : p ∈ o.packets) :
    p.ret = o.ret := by
  have hpackets := h.2
  rw [packetize_eq, Option.some.injEq] at hpackets
  rw [← hpackets] at hp
  obtain ⟨idx, hidx, rfl⟩ := List.mem_mapIdx.mp hp
  rfl

/-- **What `outgoing_msg` sends** are packets of the message as split for its header; those it
records in the outbox are of no ack. -/
theorem outgoingMsg_original {t t' : Transport} {packetsId : InnerKey} {dst : SocketAddr}
    {message : Message} {out : List (Datagram W.packet)}
    (h : Transport.outgoingMsg W A t packetsId dst message = some (t', out)) :
    ∃ o, originalOf W packetsId message = some o ∧ (∀ x ∈ out, x.packet ∈ o.packets) ∧
      ∀ id n e', t'.gdUdp.entry id n = some e' →
        (∃ e, t.gdUdp.entry id n = some e ∧ e'.packet = e.packet) ∨
        message.head ≠ .ack ∧ e'.packet ∈ o.packets := by
  by_cases hack : message.head = .ack
  · have hsame := Transport.outgoingMsg_ack W hack h
    subst hsame
    simp only [Transport.outgoingMsg, hack] at h
    obtain ⟨bytes, hbytes, h⟩ := Option.bind_eq_some_iff.mp h
    obtain ⟨packets, hpackets, h⟩ := Option.bind_eq_some_iff.mp h
    obtain ⟨out', hout, h⟩ := Option.bind_eq_some_iff.mp h
    cases h
    refine ⟨⟨packetsId, noReturnReceipt, message, bytes, packets⟩, ?_, fun x hx => ?_,
      fun id n e' he' => Or.inl ⟨e', he', rfl⟩⟩
    · simp [originalOf, hbytes, hack, receiptFor, hpackets]
    · obtain ⟨p, hp, hsend⟩ := exists_of_mem_mapM hout hx
      unfold Transport.sendUnreliable at hsend
      split at hsend
      · cases hsend
        exact hp
      · cases hsend
  · obtain ⟨dst', bytes, packets, hbytes, -, hpackets, heq⟩ := Transport.outgoingMsg_split W hack h
    have hret : receiptFor message.head = returnReceipt := by
      cases hhead : message.head with
      | ack => exact absurd hhead hack
      | request => rfl
      | response => rfl
      | gossip => rfl
    have hg : t'.gdUdp = _ := congrArg Prod.fst heq
    have hout : out = _ := congrArg Prod.snd heq
    refine ⟨⟨packetsId, returnReceipt, message, bytes, packets⟩, ?_, fun x hx => ?_,
      fun id n e' he' => ?_⟩
    · simp [originalOf, hbytes, hret, hpackets]
    · rw [hout, GDUdp.transmissions_sendAll] at hx
      obtain ⟨y, hy, hx⟩ := List.mem_flatMap.mp hx
      obtain ⟨p, hp, rfl⟩ := List.mem_map.mp hy
      rw [(GDUdp.mem_transmit W.packet hx).1]
      exact hp
    · rw [hg] at he'
      rcases GDUdp.packet_sendAll W.packet he' with hold | ⟨y, hy, hnew⟩
      · exact Or.inl hold
      · obtain ⟨p, hp, rfl⟩ := List.mem_map.mp hy
        exact Or.inr ⟨hack, hnew ▸ hp⟩

theorem outgoingMsg_wellFormed {t t' : Transport} (hwf : t.gdUdp.WellFormed)
    {packetsId : InnerKey} {dst : SocketAddr} {message : Message} {out : List (Datagram W.packet)}
    (h : Transport.outgoingMsg W A t packetsId dst message = some (t', out)) :
    t'.gdUdp.WellFormed := by
  by_cases hack : message.head = .ack
  · rw [Transport.outgoingMsg_ack W hack h]
    exact hwf
  · obtain ⟨dst', bytes, packets, -, -, -, heq⟩ := Transport.outgoingMsg_split W hack h
    have hg : t'.gdUdp = _ := congrArg Prod.fst heq
    rw [hg]
    exact hwf.sendAll W.packet _

/-- An ack passed on leaves the outbox well-formed and the packets in it as they are. -/
theorem incomingAck_outbox {t t' : Transport} (hwf : t.gdUdp.WellFormed) {ack : AckMessage}
    (h : Transport.incomingAck A t ack = some t') :
    t'.gdUdp.WellFormed ∧ ∀ id n e', t'.gdUdp.entry id n = some e' →
      ∃ e, t.gdUdp.entry id n = some e ∧ e'.packet = e.packet := by
  unfold Transport.incomingAck at h
  split at h
  · obtain ⟨g, hg, h⟩ := Option.bind_eq_some_iff.mp h
    cases h
    refine ⟨hwf.processAck hg, fun id n e' he' => ?_⟩
    obtain ⟨e, acks, he, rfl⟩ := GDUdp.entry_before_processAck hg he'
    exact ⟨e, he, rfl⟩
  · cases h
    exact ⟨hwf, fun id n e' he' => ⟨e', he', rfl⟩⟩

/-! ## Where packets come from -/

/-- Every packet on the wire or in an outbox is one of a message that was split, for its header;
those in outboxes are of messages that are no acks. -/
structure Traced (s : Network ν W) (outs : List (Report ν)) : Prop where
  split : ∀ {j o}, .sent j o ∈ outs → o.Split W ∧ o.ret = receiptFor o.message.head
  wire : ∀ x ∈ s.wire, ∃ j o, .sent j o ∈ outs ∧ x.packet ∈ o.packets
  wellFormed : ∀ i, (s.nodes i).transport.gdUdp.WellFormed
  outbox : ∀ {i id n e}, (s.nodes i).transport.gdUdp.entry id n = some e →
    ∃ j o, .sent j o ∈ outs ∧ o.message.head ≠ .ack ∧ e.packet ∈ o.packets

omit [DecidableEq ν] in
theorem traced_new (addr : ν → SocketAddr) : Traced (new W addr) [] where
  split h := nomatch h
  wire x hx := nomatch hx
  wellFormed i := GDUdp.wellFormed_new (addr i)
  outbox {i id n e} h := by
    have hnone := GDUdp.entry_new (addr i) id n
    rw [show ((new W addr).nodes i).transport.gdUdp = GDUdp.new (addr i) from rfl, hnone] at h
    cases h

section Step

variable {s s' : Network ν W} {outs : List (Report ν)}

/-- A step that sends nothing and changes no transport. -/
theorem Traced.quiet (h : Traced s outs) {i : ν} {node : Node}
    (hsame : node.transport = (s.nodes i).transport) {out : List (Report ν)}
    (hout : ∀ j o, .sent j o ∉ out) : Traced (s.set i node) (outs ++ out) := by
  have htransport : ∀ j, ((s.set i node).nodes j).transport = (s.nodes j).transport := by
    intro j
    rw [nodes_set]
    split
    · next hj => rw [hj, hsame]
    · rfl
  constructor
  · intro j o hsent
    rcases List.mem_append.mp hsent with hsent | hsent
    · exact h.split hsent
    · exact absurd hsent (hout j o)
  · intro x hx
    obtain ⟨j, o, hsent, hmem⟩ := h.wire x hx
    exact ⟨j, o, List.mem_append_left _ hsent, hmem⟩
  · intro j
    rw [htransport]
    exact h.wellFormed j
  · intro j id n e he
    rw [htransport] at he
    obtain ⟨j', o, hsent, hhead, hmem⟩ := h.outbox he
    exact ⟨j', o, List.mem_append_left _ hsent, hhead, hmem⟩

/-- A step of one node's transport: what it sends and records are packets of messages split before
or now. -/
theorem Traced.transport (h : Traced s outs) {i : ν} {node : Node}
    {sent : List (Datagram W.packet)} {out : List (Report ν)}
    (hsplit : ∀ j o, .sent j o ∈ out → o.Split W ∧ o.ret = receiptFor o.message.head)
    (hsent : ∀ x ∈ sent, ∃ j o, .sent j o ∈ outs ++ out ∧ x.packet ∈ o.packets)
    (hwf : node.transport.gdUdp.WellFormed)
    (hentry : ∀ id n e, node.transport.gdUdp.entry id n = some e →
      ∃ j o, .sent j o ∈ outs ++ out ∧ o.message.head ≠ .ack ∧ e.packet ∈ o.packets) :
    Traced { s.set i node with wire := s.wire ++ sent } (outs ++ out) := by
  constructor
  · intro j o hmem
    rcases List.mem_append.mp hmem with hmem | hmem
    · exact h.split hmem
    · exact hsplit j o hmem
  · intro x hx
    rcases List.mem_append.mp hx with hx | hx
    · obtain ⟨j, o, hmem, hp⟩ := h.wire x hx
      exact ⟨j, o, List.mem_append_left _ hmem, hp⟩
    · exact hsent x hx
  · intro j
    show ((s.set i node).nodes j).transport.gdUdp.WellFormed
    rw [nodes_set]
    split
    · exact hwf
    · exact h.wellFormed j
  · intro j id n e he
    change ((s.set i node).nodes j).transport.gdUdp.entry id n = some e at he
    rw [nodes_set] at he
    split at he
    · exact hentry id n e he
    · obtain ⟨j', o, hmem, hhead, hp⟩ := h.outbox he
      exact ⟨j', o, List.mem_append_left _ hmem, hhead, hp⟩

/-- **Step.** -/
theorem Traced.step (h : Traced s outs) {event : Event ν} {out : List (Report ν)}
    (hstep : step W A s event = some (s', out)) : Traced s' (outs ++ out) := by
  cases event with
  | submit i dst message =>
    cases hstep
    apply h.quiet
    · rfl
    · intro j o hmem
      cases List.mem_singleton.mp hmem
  | outgoingMsg i packetsId =>
    change s.outgoingMsg W A i packetsId = some (s', out) at hstep
    unfold Network.outgoingMsg at hstep
    split at hstep
    · cases hstep
      rw [List.append_nil]
      exact h
    · next dst message om hom =>
      obtain ⟨⟨t, sent⟩, hsend, hstep⟩ := Option.bind_eq_some_iff.mp hstep
      cases hstep
      obtain ⟨o, ho, hpackets, hentries⟩ := outgoingMsg_original hsend
      obtain ⟨hsplit, hmessage, hret⟩ := originalOf_eq_some ho
      rw [ho]
      have hmem : .sent i o ∈ outs ++ (some o).toList.map (Report.sent i) :=
        List.mem_append_right _ (List.mem_singleton_self _)
      apply h.transport
      · intro j o' ho'
        obtain ⟨o'', ho'', heq⟩ := List.mem_map.mp ho'
        cases heq
        obtain rfl : o' = o := by simpa using ho''
        exact ⟨hsplit, hmessage ▸ hret⟩
      · intro x hx
        exact ⟨i, o, hmem, hpackets x hx⟩
      · exact outgoingMsg_wellFormed (h.wellFormed i) hsend
      · intro id n e' he'
        rcases hentries id n e' he' with ⟨e, he, heq⟩ | ⟨hhead, hp⟩
        · obtain ⟨j, o', hsent, hhead, hp⟩ := h.outbox he
          exact ⟨j, o', List.mem_append_left _ hsent, hhead, heq ▸ hp⟩
        · exact ⟨i, o, hmem, hmessage ▸ hhead, hp⟩
  | incomingAck i =>
    change s.incomingAck W A i = some (s', out) at hstep
    unfold Network.incomingAck at hstep
    split at hstep
    · cases hstep
      rw [List.append_nil]
      exact h
    · next ack ia hia =>
      obtain ⟨t, hack, hstep⟩ := Option.bind_eq_some_iff.mp hstep
      cases hstep
      obtain ⟨hwf, hentries⟩ := incomingAck_outbox (h.wellFormed i) hack
      have htraced : Traced { s.set i { s.nodes i with transport := t, ia } with
          wire := s.wire ++ [] } (outs ++ []) := by
        apply h.transport
        · exact fun j o hmem => nomatch hmem
        · exact fun x hx => nomatch hx
        · exact hwf
        · intro id n e' he'
          obtain ⟨e, he, heq⟩ := hentries id n e' he'
          rw [List.append_nil, heq]
          exact h.outbox he
      rw [List.append_nil] at htraced
      exact htraced
  | maintain i =>
    cases hstep
    have hwf := h.wellFormed i
    apply h.transport
    · exact fun j o hmem => nomatch hmem
    · -- a pass sends packets it finds in the outbox
      intro x hx
      obtain ⟨e, he, -, heq, -⟩ := GDUdp.mem_maintain W.packet hwf hx
      obtain ⟨j, o, hsent, -, hp⟩ := h.outbox he
      rw [List.append_nil]
      exact ⟨j, o, hsent, heq ▸ hp⟩
    · exact hwf.maintain W.packet
    · intro id n e' he'
      obtain ⟨e, he, -, rfl⟩ := GDUdp.entry_before_maintain W.packet hwf he'
      rw [List.append_nil]
      have horigin := h.outbox he
      exact horigin
  | receive i k rest src =>
    change s.receive W A i k rest src = some (s', out) at hstep
    unfold Network.receive at hstep
    split at hstep
    · cases hstep
      rw [List.append_nil]
      exact h
    · next x hx =>
      obtain ⟨⟨handler, sends⟩, -, hstep⟩ := Option.bind_eq_some_iff.mp hstep
      cases hstep
      apply h.quiet
      · rfl
      · intro j o hmem
        obtain ⟨m, -, heq⟩ := List.mem_map.mp hmem
        cases heq

end Step

/-- **Run.** -/
theorem traced_of_run {addr : ν → SocketAddr} {events : List (Event ν)} {s : Network ν W}
    {outs : List (Report ν)}
    (hrun : (machine W A).run (new W addr) events = some (s, outs)) : Traced s outs :=
  (machine W A).run_history (P := fun s _ outs => Traced s outs) (A := fun _ => True)
    (fun _ _ _ _ _ _ h _ hstep => h.step hstep) (traced_new addr) (fun _ _ => trivial) hrun

/-! ## Which steps queue an ack -/

/-- The message is the ack of the packet by the node at `addr`. -/
def IsAckOf (W : Wire) (A : AddrText) (addr : SocketAddr) (p : Packet) (message : Message) : Prop :=
  message.head = .ack ∧ W.ack.asBytes ⟨p.id, p.n, A.textBytes addr⟩ = some message.msg

/-- What the next step may queue, after the messages reported in `outs` were split and sent.
Receiving a datagram whose packet is of a message that is no ack queues one ack, of that packet and
for the datagram's source; receiving one whose packet is of an ack queues nothing; no other step
queues an ack; and no outbox holds a packet of an ack. -/
structure AcksEnd (W : Wire) (A : AddrText) (s : Network ν W) (outs : List (Report ν)) :
    Prop where
  traced : ∀ x ∈ s.wire, ∃ j o, .sent j o ∈ outs ∧ x.packet ∈ o.packets
  acked : ∀ i k rest src x s' out, s.wire[k]? = some x →
    step W A s (.receive i k rest src) = some (s', out) →
    ∀ j o, .sent j o ∈ outs → x.packet ∈ o.packets → o.message.head ≠ .ack →
      ∃ m, IsAckOf W A (s.nodes i).addr x.packet m ∧ out = [.queued i src m]
  silent : ∀ i k rest src x s' out, s.wire[k]? = some x →
    step W A s (.receive i k rest src) = some (s', out) →
    ∀ j o, .sent j o ∈ outs → x.packet ∈ o.packets → o.message.head = .ack → out = []
  only : ∀ event s' out, step W A s event = some (s', out) →
    ∀ i dst m, .queued i dst m ∈ out → m.head = .ack →
      ∃ k rest src x, event = .receive i k rest src ∧ s.wire[k]? = some x
  outbox : ∀ i id n e, (s.nodes i).transport.gdUdp.entry id n = some e →
    (∃ j o, .sent j o ∈ outs ∧ e.packet ∈ o.packets) ∧
    ∀ j o, .sent j o ∈ outs → e.packet ∈ o.packets → o.message.head ≠ .ack

/-- Routing a message queues none. -/
theorem filterMap_omOf_handleMessage (message : Message) (src : SocketAddr) :
    (MessageHandler.handleMessage W message src).filterMap omOf = [] := by
  unfold MessageHandler.handleMessage
  split
  · split <;> rfl
  · split <;> rfl
  · split <;> rfl
  · rfl

/-- **Receiving a datagram** queues the ack of its packet if the packet asks for one, and nothing
else. -/
theorem recvMsg_queues (hW : W.packet.Lawful) {h h' : MessageHandler} {addr src : SocketAddr}
    {x : Datagram W.packet} {rest : List UInt8} {sends : List HandlerSend}
    (hrecv : h.recvMsg W A addr (x.bytes ++ rest) x.bytes.length src = some (h', sends)) :
    (x.packet.ret = returnReceipt →
      ∃ m, IsAckOf W A addr x.packet m ∧ sends.filterMap omOf = [(src, m)]) ∧
    (x.packet.ret ≠ returnReceipt → sends.filterMap omOf = []) := by
  have hslice : slice (x.bytes ++ rest) 0 x.bytes.length = some x.bytes := by simp [slice]
  have hpacket := hW x.packet x.bytes x.isWire
  obtain ⟨⟨packet?, acks⟩, hprocess, hrest⟩ := Option.bind_eq_some_iff.mp hrecv
  -- whatever the handler does with the packet, it queues no further message
  have hacks : sends.filterMap omOf = acks.filterMap omOf := by
    cases packet? with
    | none =>
      cases hrest
      rfl
    | some packet =>
      obtain ⟨⟨h₁, message?⟩, -, hrest⟩ := Option.bind_eq_some_iff.mp hrest
      cases hrest
      rw [List.filterMap_append]
      cases message? with
      | none => exact List.append_nil _
      | some message =>
        rw [Option.map_some, Option.getD_some, filterMap_omOf_handleMessage, List.append_nil]
  rw [hacks]
  simp only [MessageHandler.processPacket, hslice, hpacket, Option.bind_eq_bind,
    Option.bind_some] at hprocess
  split at hprocess
  · next hret =>
    obtain ⟨msg, hmsg, heq⟩ := Option.bind_eq_some_iff.mp hprocess
    cases heq
    exact ⟨fun _ => ⟨⟨.ack, msg⟩, ⟨rfl, hmsg⟩, rfl⟩, fun hne => absurd hret hne⟩
  · next hret =>
    cases hprocess
    exact ⟨fun heq => absurd heq hret, fun _ => rfl⟩

theorem receiptFor_eq_iff {head : Header} : receiptFor head = returnReceipt ↔ head ≠ .ack := by
  cases head <;> decide

omit [DecidableEq ν] in
/-- Packets of messages that are no acks ask for a receipt, packets of acks do not. -/
theorem Traced.ret_iff {s : Network ν W} {outs : List (Report ν)} (h : Traced s outs) {j : ν}
    {o : Original} (hsent : .sent j o ∈ outs) {p : Packet} (hp : p ∈ o.packets) :
    p.ret = returnReceipt ↔ o.message.head ≠ .ack := by
  obtain ⟨hsplit, hret⟩ := h.split hsent
  rw [ret_of_mem_packets hsplit hp, hret]
  exact receiptFor_eq_iff

/-- A step that queues an ack is the receipt of a datagram. -/
theorem receive_of_queued_ack {s s' : Network ν W} {event : Event ν} {out : List (Report ν)}
    (hstep : step W A s event = some (s', out)) {i : ν} {dst : SocketAddr} {message : Message}
    (hmem : .queued i dst message ∈ out) (hack : message.head = .ack) :
    ∃ k rest src x, event = .receive i k rest src ∧ s.wire[k]? = some x := by
  cases event with
  | submit i' dst' message' =>
    cases hstep
    cases List.mem_singleton.mp hmem
    exact absurd hack message'.2
  | outgoingMsg i' packetsId =>
    change s.outgoingMsg W A i' packetsId = some (s', out) at hstep
    unfold Network.outgoingMsg at hstep
    split at hstep
    · cases hstep
      cases hmem
    · obtain ⟨r, -, hstep⟩ := Option.bind_eq_some_iff.mp hstep
      cases hstep
      obtain ⟨o, -, heq⟩ := List.mem_map.mp hmem
      cases heq
  | incomingAck i' =>
    change s.incomingAck W A i' = some (s', out) at hstep
    unfold Network.incomingAck at hstep
    split at hstep
    · cases hstep
      cases hmem
    · obtain ⟨r, -, hstep⟩ := Option.bind_eq_some_iff.mp hstep
      cases hstep
      cases hmem
  | maintain i' =>
    cases hstep
    cases hmem
  | receive i' k rest src =>
    change s.receive W A i' k rest src = some (s', out) at hstep
    unfold Network.receive at hstep
    split at hstep
    · cases hstep
      cases hmem
    · next x hx =>
      obtain ⟨r, -, hstep⟩ := Option.bind_eq_some_iff.mp hstep
      cases hstep
      obtain ⟨m, -, heq⟩ := List.mem_map.mp hmem
      cases heq
      exact ⟨k, rest, src, x, rfl, hx⟩

theorem step_receive {s s' : Network ν W} {i : ν} {k : Nat} {rest : List UInt8} {src : SocketAddr}
    {x : Datagram W.packet} (hx : s.wire[k]? = some x) {out : List (Report ν)}
    (hstep : step W A s (.receive i k rest src) = some (s', out)) :
    ∃ handler sends, (s.nodes i).handler.recvMsg W A (s.nodes i).addr (x.bytes ++ rest)
      x.bytes.length src = some (handler, sends) ∧
      out = (sends.filterMap omOf).map fun m => .queued i m.1 m.2 := by
  change s.receive W A i k rest src = some (s', out) at hstep
  simp only [Network.receive, hx] at hstep
  obtain ⟨⟨handler, sends⟩, hrecv, hstep⟩ := Option.bind_eq_some_iff.mp hstep
  cases hstep
  exact ⟨handler, sends, hrecv, rfl⟩

/-- **Acks never beget acks**, in any reached state of a network. -/
theorem acks_never_beget_acks (hW : W.packet.Lawful) {addr : ν → SocketAddr}
    {events : List (Event ν)} {s : Network ν W} {outs : List (Report ν)}
    (hrun : (machine W A).run (new W addr) events = some (s, outs)) : AcksEnd W A s outs := by
  have htraced := traced_of_run hrun
  constructor
  · exact htraced.wire
  · intro i k rest src x s' out hx hstep j o hsent hp hhead
    obtain ⟨handler, sends, hrecv, rfl⟩ := step_receive hx hstep
    obtain ⟨m, hm, hqueue⟩ := (recvMsg_queues hW hrecv).1 ((htraced.ret_iff hsent hp).mpr hhead)
    exact ⟨m, hm, by rw [hqueue]; rfl⟩
  · intro i k rest src x s' out hx hstep j o hsent hp hhead
    obtain ⟨handler, sends, hrecv, rfl⟩ := step_receive hx hstep
    have hno : x.packet.ret ≠ returnReceipt :=
      fun heq => (htraced.ret_iff hsent hp).mp heq hhead
    rw [(recvMsg_queues hW hrecv).2 hno]
    rfl
  · intro event s' out hstep i dst m hmem hack
    exact receive_of_queued_ack hstep hmem hack
  · intro i id n e he
    obtain ⟨j, o, hsent, hhead, hp⟩ := htraced.outbox he
    refine ⟨⟨j, o, hsent, hp⟩, fun j' o' hsent' hp' => ?_⟩
    exact (htraced.ret_iff hsent' hp').mp ((htraced.ret_iff hsent hp).mpr hhead)

/-! ## Two nodes -/

def firstAddr : SocketAddr := .v4 ⟨10, 0, 0, 2⟩ 9292

def secondAddr : SocketAddr := .v4 ⟨10, 0, 0, 3⟩ 9292

def twoAddrs (i : Bool) : SocketAddr := if i then firstAddr else secondAddr

/-- The first node sends a gossip message, which the second one receives twice. -/
def receivedTwice : List (Event Bool) :=
  [.submit true secondAddr ⟨⟨.gossip, [1, 2, 3]⟩, by decide⟩,
   .outgoingMsg true (List.Vector.replicate 32 1),
   .receive false 0 [] firstAddr, .receive false 0 [] firstAddr]

def Report.queued? : Report ν → Option (ν × SocketAddr × Message)
  | .queued i dst message => some (i, dst, message)
  | .sent _ _ => none

/-- The ack of the second node, as it is queued. -/
def secondAck : Message := ⟨.ack, ackJson (Transport.Exchange.someAck secondAddr)⟩

/-- Each of the two copies is acknowledged, and nothing else is queued. -/
theorem receivedTwice_acked : ∃ s outs,
    (machine (Transport.Exchange.someWire secondAddr) .standard).run
      (new (Transport.Exchange.someWire secondAddr) twoAddrs) receivedTwice = some (s, outs) ∧
    outs.filterMap Report.queued? =
      [(true, secondAddr, ⟨.gossip, [1, 2, 3]⟩), (false, firstAddr, secondAck),
        (false, firstAddr, secondAck)] ∧
    AcksEnd (Transport.Exchange.someWire secondAddr) .standard s outs := by
  have hqueued : ((machine (Transport.Exchange.someWire secondAddr) .standard).run
      (new (Transport.Exchange.someWire secondAddr) twoAddrs) receivedTwice).map (fun r =>
        r.2.filterMap Report.queued?) =
      some [(true, secondAddr, ⟨.gossip, [1, 2, 3]⟩), (false, firstAddr, secondAck),
        (false, firstAddr, secondAck)] := by
    decide +kernel
  obtain ⟨⟨s, outs⟩, hrun, hout⟩ := Option.map_eq_some_iff.mp hqueued
  exact ⟨s, outs, hrun, hout,
    acks_never_beget_acks (Transport.Exchange.someWire_packet_lawful secondAddr) hrun⟩

end Network

end Udp2p
