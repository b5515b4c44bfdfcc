import Udp2p.GdUdp.GivingUp
import Udp2p.Transport.Network

/-!
# The components of a node in a run of the network

A run of the network is written down: which message a node splits for which address, which packets
it receives, which messages it passes on and what its outbox does. Each component of a node is then
a machine that has run on what is written down of it, so that whatever holds of every run of the
component holds of it in every run of the network.

* `handler_of_run` — the handler of a node is the `reassembler`, after the packets it received.
* `Transport.refines_step`, `outbox_of_run` — the outbox of a node is a `GDUdp`, after the
  operations noted, and what it has sent lies on the wire.
-/

namespace Udp2p

namespace GDUdp

variable {c : ByteRep Packet} {A : AddrText}

/-- Sending a list of packets is a run of sendings. -/
theorem run_sendings (g : GDUdp) (sendings : List (SocketAddr × Packet)) :
    (machine c A).run g (sendings.map fun x => .sendReliable x.1 x.2) =
      some (sendAll c g sendings) := by
  -- generalised over the datagrams sent so far
  have h : ∀ (g : GDUdp) (out : List (Datagram c)), ∃ g' outs,
      (machine c A).run g (sendings.map fun x => .sendReliable x.1 x.2) = some (g', outs) ∧
        sendings.foldl (fun r x => sendNext c r x.1 x.2) (g, out) = (g', out ++ outs) := by
    induction sendings with
    | nil =>
      intro g out
      exact ⟨g, [], rfl, by rw [List.append_nil]; rfl⟩
    | cons x xs ih =>
      intro g out
      obtain ⟨g', outs, hrun, hfold⟩ :=
        ih (sendReliable c g x.1 x.2).1 (out ++ (sendReliable c g x.1 x.2).2)
      refine ⟨g', (sendReliable c g x.1 x.2).2 ++ outs, ?_, ?_⟩
      · exact (machine c A).run_cons_eq_some.mpr ⟨_, _, outs, rfl, hrun, rfl⟩
      · rw [List.foldl_cons, sendNext, hfold, List.append_assoc]
  obtain ⟨g', outs, hrun, hfold⟩ := h g []
  rw [hrun, sendAll, hfold, List.nil_append]

end GDUdp

namespace Transport

variable (W : Wire) (A : AddrText)

/-- What an event makes the outbox do. -/
def operations (t : Transport) : Event → List GDUdp.Op
  | .outgoingMsg packetsId src msg =>
    if msg.head = .ack then []
    else
      let sendings := do
        let bytes ← W.message.asBytes msg
        let packets ← packetize W.hex bytes packetsId returnReceipt
        let dst ← redirect A (A.toText t.gdUdp.addr) (A.toText src) src
        return packets.map (GDUdp.Op.sendReliable dst)
      sendings.getD []
  | .incomingAck ack =>
    if ack.packetId ∈ t.gdUdp.outbox then [.processAck ack.packetId ack.packetNumber ack.src]
    else []
  | .maintain => [.maintain]

variable {W A}

/-- **The transport refines the outbox.** A step of the transport is a run of the outbox, and what
that run sends the transport sends. -/
theorem refines_step {t t' : Transport} {ev : Event} {out : List (Datagram W.packet)}
    (hstep : (machine W A).step t ev = some (t', out)) :
    ∃ outs, (GDUdp.machine W.packet A).run t.gdUdp (operations W A t ev) =
      some (t'.gdUdp, outs) ∧ outs.Sublist out := by
  cases ev with
  | outgoingMsg packetsId src msg =>
    by_cases hhead : msg.head = .ack
    · rw [outgoingMsg_ack W hhead hstep, operations, if_pos hhead]
      exact ⟨[], rfl, List.nil_sublist _⟩
    · obtain ⟨dst, bytes, packets, hbytes, hdst, hpackets, heq⟩ := outgoingMsg_split W hhead hstep
      have hops : operations W A t (.outgoingMsg packetsId src msg) =
          (packets.map fun packet => (dst, packet)).map fun x => .sendReliable x.1 x.2 := by
        simp [operations, hhead, hbytes, hpackets, hdst]
      rw [hops, GDUdp.run_sendings, ← heq]
      exact ⟨out, rfl, List.Sublist.refl _⟩
  | incomingAck ack =>
    obtain ⟨t'', hack, heq⟩ := Option.map_eq_some_iff.mp hstep
    cases heq
    refine ⟨[], ?_, List.nil_sublist _⟩
    unfold incomingAck at hack
    split at hack
    · next hmem =>
      obtain ⟨g, hg, heq⟩ := Option.bind_eq_some_iff.mp hack
      cases heq
      rw [operations, if_pos hmem]
      apply (GDUdp.machine W.packet A).run_singleton_eq_some.mpr
      show (GDUdp.processAck A t.gdUdp _ _ _).map _ = _
      rw [hg]
      rfl
    · next hnot =>
      cases hack
      rw [operations, if_neg hnot]
      rfl
  | maintain =>
    cases hstep
    exact ⟨_, (GDUdp.machine W.packet A).run_singleton_eq_some.mpr rfl, List.Sublist.refl _⟩

theorem mem_operations_incomingAck {t : Transport} {ack : AckMessage} {op : GDUdp.Op}
    (h : op ∈ operations W A t (.incomingAck ack)) :
    op = .processAck ack.packetId ack.packetNumber ack.src := by
  rw [operations] at h
  split at h
  · exact List.mem_singleton.mp h
  · cases h

end Transport

namespace Network

variable {ν : Type} [DecidableEq ν] (W : Wire) (A : AddrText)

/-! ## What is written down -/

/-- What is written down of a node. -/
inductive Note where
  | addressed (dst : SocketAddr) (o : Original)
  | received (a : Arrival)
  | handed (d : HandOver)
  | did (op : GDUdp.Op)

/-- What is noted of a step: a message the node splits, and for which address; a packet it decodes
from a datagram, and the message it passes on with it; what its outbox does. -/
def notes (s : Network ν W) : Event ν → List (ν × Note)
  | .submit .. => []
  | .outgoingMsg i packetsId =>
    match (s.nodes i).om with
    | [] => []
    | (dst, message) :: _ =>
      (originalOf W packetsId message).toList.map (fun o => (i, .addressed dst o)) ++
        (Transport.operations W A (s.nodes i).transport (.outgoingMsg packetsId dst message)).map
          fun op => (i, .did op)
  | .incomingAck i =>
    match (s.nodes i).ia with
    | [] => []
    | ack :: _ =>
      (Transport.operations W A (s.nodes i).transport (.incomingAck ack)).map
        fun op => (i, .did op)
  | .maintain i => [(i, .did .maintain)]
  | .receive i k _ src =>
    match s.wire[k]? with
    | none => []
    | some x =>
      match W.packet.fromBytes x.bytes with
      | none => []
      | some packet =>
        let message? := ((s.nodes i).handler.insertPacket W packet).bind Prod.snd
        (i, .received (packet, src)) ::
          message?.toList.map fun message => (i, .handed ⟨packet, message, src⟩)

/-- The log of a run: what is reported, and what is noted besides. -/
abbrev Log (ν : Type) := List (Report ν ⊕ ν × Note)

def chronicle : Machine (Network ν W) (Event ν) (Report ν ⊕ ν × Note) :=
  (machine W A).annotate (notes W A)

namespace Note

def received? : Note → Option Arrival
  | received a => some a
  | _ => none

def handed? : Note → Option HandOver
  | handed d => some d
  | _ => none

def did? : Note → Option GDUdp.Op
  | did op => some op
  | _ => none

/-- The note, if it is one of node `i`. -/
def of? (i : ν) : Report ν ⊕ ν × Note → Option Note
  | .inl _ => none
  | .inr (j, n) => if j = i then some n else none

theorem of?_eq_some {i : ν} {x : Report ν ⊕ ν × Note} {n : Note} :
    of? i x = some n ↔ x = .inr (i, n) := by
  rcases x with r | ⟨j, n'⟩
  · simp [of?]
  · simp [of?]

theorem received?_eq_some {n : Note} {a : Arrival} : n.received? = some a ↔ n = received a := by
  cases n <;> simp [received?]

theorem handed?_eq_some {n : Note} {d : HandOver} : n.handed? = some d ↔ n = handed d := by
  cases n <;> simp [handed?]

theorem did?_eq_some {n : Note} {op : GDUdp.Op} : n.did? = some op ↔ n = did op := by
  cases n <;> simp [did?]

end Note

/-- The packets node `i` received. -/
def received (i : ν) (log : Log ν) : List Arrival :=
  log.filterMap fun x => (Note.of? i x).bind Note.received?

/-- The messages node `i` passed on. -/
def handed (i : ν) (log : Log ν) : List HandOver :=
  log.filterMap fun x => (Note.of? i x).bind Note.handed?

/-- What the outbox of node `i` did. -/
def operations (i : ν) (log : Log ν) : List GDUdp.Op :=
  log.filterMap fun x => (Note.of? i x).bind Note.did?

theorem mem_received {i : ν} {a : Arrival} {log : Log ν} :
    a ∈ received i log ↔ .inr (i, .received a) ∈ log := by
  simp only [received, List.mem_filterMap, Option.bind_eq_some_iff, Note.of?_eq_some,
    Note.received?_eq_some, exists_eq_right]

theorem mem_handed {i : ν} {d : HandOver} {log : Log ν} :
    d ∈ handed i log ↔ .inr (i, .handed d) ∈ log := by
  simp only [handed, List.mem_filterMap, Option.bind_eq_some_iff, Note.of?_eq_some,
    Note.handed?_eq_some, exists_eq_right]

theorem mem_operations {i : ν} {op : GDUdp.Op} {log : Log ν} :
    op ∈ operations i log ↔ .inr (i, .did op) ∈ log := by
  simp only [operations, List.mem_filterMap, Option.bind_eq_some_iff, Note.of?_eq_some,
    Note.did?_eq_some, exists_eq_right]

/-! ## What a step can do -/

/-- The acks that a message adds to the queue of the node that passes it on. -/
def acksOf (message : Message) : List AckMessage :=
  if message.head = .ack then (W.ack.fromBytes message.msg).toList else []

/-- A step, with all it changes and all that is written down of it. -/
inductive Step (s : Network ν W) : Event ν → Network ν W → Log ν → Prop where
  | idle {event : Event ν} : Step s event s []
  | submit {i : ν} {dst : SocketAddr} {message : AppMessage} :
    Step s (.submit i dst message)
      (s.set i { s.nodes i with om := (s.nodes i).om ++ [(dst, message.1)] })
      [.inl (.queued i dst message.1)]
  | outgoingMsg {i : ν} {packetsId : InnerKey} {dst : SocketAddr} {message : Message}
    {om : List (SocketAddr × Message)} {transport : Transport} {out : List (Datagram W.packet)}
    {o : Original} (queue : (s.nodes i).om = (dst, message) :: om)
    (sends : Transport.outgoingMsg W A (s.nodes i).transport packetsId dst message =
      some (transport, out))
    (splits : originalOf W packetsId message = some o) :
    Step s (.outgoingMsg i packetsId)
      { s.set i { s.nodes i with transport, om } with wire := s.wire ++ out }
      (.inl (.sent i o) :: .inr (i, .addressed dst o) ::
        (Transport.operations W A (s.nodes i).transport
          (.outgoingMsg packetsId dst message)).map fun op => .inr (i, .did op))
  | incomingAck {i : ν} {ack : AckMessage} {ia : List AckMessage} {transport : Transport}
    (queue : (s.nodes i).ia = ack :: ia)
    (acks : Transport.incomingAck A (s.nodes i).transport ack = some transport) :
    Step s (.incomingAck i) (s.set i { s.nodes i with transport, ia })
      ((Transport.operations W A (s.nodes i).transport (.incomingAck ack)).map
        fun op => .inr (i, .did op))
  | maintain {i : ν} :
    Step s (.maintain i)
      { s.set i { s.nodes i with
          transport := (Transport.maintain W (s.nodes i).transport).1 } with
        wire := s.wire ++ (Transport.maintain W (s.nodes i).transport).2 }
      [.inr (i, .did .maintain)]
  | receive {i : ν} {k : Nat} {rest : List UInt8} {src : SocketAddr} {x : Datagram W.packet}
    {packet : Packet} {handler : MessageHandler} {message? : Option Message}
    {receipts : List (SocketAddr × Message)} (lies : s.wire[k]? = some x)
    (decodes : W.packet.fromBytes x.bytes = some packet)
    (inserts : (s.nodes i).handler.insertPacket W packet = some (handler, message?))
    (receipt : ∀ m ∈ receipts, m.1 = src ∧ IsAckOf W A (s.nodes i).addr packet m.2) :
    Step s (.receive i k rest src)
      (s.set i { s.nodes i with
        handler, om := (s.nodes i).om ++ receipts,
        ia := (s.nodes i).ia ++ message?.toList.flatMap (acksOf W) })
      (receipts.map (fun m => .inl (.queued i m.1 m.2)) ++
        .inr (i, .received (packet, src)) ::
          message?.toList.map fun message => .inr (i, .handed ⟨packet, message, src⟩))

variable {W A}

/-- Sending a message as split, the outbox sends its packets to where its address is redirected. -/
theorem mem_operations_outgoingMsg {t : Transport} {packetsId : InnerKey} {dst : SocketAddr}
    {message : Message} {o : Original} (ho : originalOf W packetsId message = some o)
    {op : GDUdp.Op} :
    op ∈ Transport.operations W A t (.outgoingMsg packetsId dst message) ↔
      message.head ≠ .ack ∧ ∃ d, Transport.redirect A (A.toText t.gdUdp.addr) (A.toText dst) dst =
        some d ∧ ∃ p ∈ o.packets, op = .sendReliable d p := by
  obtain ⟨bytes, hbytes, ho⟩ := Option.bind_eq_some_iff.mp ho
  obtain ⟨packets, hpackets, ho⟩ := Option.bind_eq_some_iff.mp ho
  cases ho
  by_cases hhead : message.head = .ack
  · simp [Transport.operations, hhead]
  · have hret : receiptFor message.head = returnReceipt := receiptFor_eq_iff.mpr hhead
    rw [hret] at hpackets
    cases hdst : Transport.redirect A (A.toText t.gdUdp.addr) (A.toText dst) dst with
    | none => simp [Transport.operations, hhead, hbytes, hdst]
    | some d => simp [Transport.operations, hhead, hbytes, hpackets, hdst, eq_comm]

theorem filterMap_iaOf_handleMessage (message : Message) (src : SocketAddr) :
    (MessageHandler.handleMessage W message src).filterMap iaOf = acksOf W message := by
  unfold MessageHandler.handleMessage acksOf
  cases message.head with
  | request => cases W.kad.fromBytes message.msg <;> rfl
  | response => cases W.kad.fromBytes message.msg <;> rfl
  | ack => cases W.ack.fromBytes message.msg <;> rfl
  | gossip => rfl

/-- Receiving a datagram: nothing happens if it decodes to no packet, and else the packet is
inserted and the message it completes, if any, is routed, after the receipt it asks for, if any. -/
theorem recvMsg_cases {h h' : MessageHandler} {addr src : SocketAddr} {bytes rest : List UInt8}
    {sends : List HandlerSend}
    (hrecv : h.recvMsg W A addr (bytes ++ rest) bytes.length src = some (h', sends)) :
    (W.packet.fromBytes bytes = none ∧ h' = h ∧ sends = []) ∨
    ∃ packet message?, W.packet.fromBytes bytes = some packet ∧
      h.insertPacket W packet = some (h', message?) ∧
      (∀ m ∈ sends.filterMap omOf, m.1 = src ∧ IsAckOf W A addr packet m.2) ∧
      sends.filterMap iaOf = message?.toList.flatMap (acksOf W) := by
  have hslice : slice (bytes ++ rest) 0 bytes.length = some bytes := by simp [slice]
  obtain ⟨⟨packet?, receipts⟩, hprocess, hrest⟩ := Option.bind_eq_some_iff.mp hrecv
  simp only [MessageHandler.processPacket, hslice, Option.bind_eq_bind, Option.bind_some]
    at hprocess
  cases hpacket : W.packet.fromBytes bytes with
  | none =>
    simp only [hpacket] at hprocess
    cases hprocess
    cases hrest
    exact Or.inl ⟨rfl, rfl, rfl⟩
  | some packet =>
    simp only [hpacket] at hprocess
    -- whatever the receipts are, a routed message queues none and adds its acks
    have hrouted : ∀ message? : Option Message,
        ((message?.map (MessageHandler.handleMessage W · src)).getD []).filterMap omOf = [] ∧
        ((message?.map (MessageHandler.handleMessage W · src)).getD []).filterMap iaOf =
          message?.toList.flatMap (acksOf W) := by
      intro message?
      cases message? with
      | none => exact ⟨rfl, rfl⟩
      | some message =>
        simp [filterMap_omOf_handleMessage, filterMap_iaOf_handleMessage]
    right
    split at hprocess
    · obtain ⟨msg, hmsg, heq⟩ := Option.bind_eq_some_iff.mp hprocess
      cases heq
      obtain ⟨⟨h₁, message?⟩, hins, hrest⟩ := Option.bind_eq_some_iff.mp hrest
      cases hrest
      obtain ⟨hom, hia⟩ := hrouted message?
      refine ⟨packet, message?, rfl, hins, ?_, ?_⟩
      · rw [List.filterMap_append, hom, List.append_nil]
        intro m hm
        cases List.mem_singleton.mp hm
        exact ⟨rfl, rfl, hmsg⟩
      · rw [List.filterMap_append, hia]
        rfl
    · cases hprocess
      obtain ⟨⟨h₁, message?⟩, hins, hrest⟩ := Option.bind_eq_some_iff.mp hrest
      cases hrest
      obtain ⟨hom, hia⟩ := hrouted message?
      refine ⟨packet, message?, rfl, hins, ?_, hia⟩
      rw [List.nil_append, hom]
      intro m hm
      cases hm

/-- **What a step can do.** -/
theorem step_cases {s s' : Network ν W} {event : Event ν} {log : Log ν}
    (h : (chronicle W A).step s event = some (s', log)) : Step W A s event s' log := by
  obtain ⟨out, hstep, rfl⟩ := Machine.annotate_step_eq_some.mp h
  clear h
  cases event with
  | submit i dst message =>
    cases hstep
    exact .submit
  | outgoingMsg i packetsId =>
    change s.outgoingMsg W A i packetsId = some (s', out) at hstep
    unfold Network.outgoingMsg at hstep
    cases hom : (s.nodes i).om with
    | nil =>
      simp only [hom] at hstep
      cases hstep
      simp only [notes, hom]
      exact .idle
    | cons m om =>
      simp only [hom] at hstep
      obtain ⟨⟨t, sent⟩, hsend, hstep⟩ := Option.bind_eq_some_iff.mp hstep
      cases hstep
      obtain ⟨o, ho, -, -⟩ := outgoingMsg_original hsend
      simp only [notes, hom, ho, Option.toList_some, List.map_cons, List.map_nil, List.map_map,
        List.cons_append, List.nil_append]
      exact .outgoingMsg hom hsend ho
  | incomingAck i =>
    change s.incomingAck W A i = some (s', out) at hstep
    unfold Network.incomingAck at hstep
    cases hia : (s.nodes i).ia with
    | nil =>
      simp only [hia] at hstep
      cases hstep
      simp only [notes, hia]
      exact .idle
    | cons ack ia =>
      simp only [hia] at hstep
      obtain ⟨t, hack, hstep⟩ := Option.bind_eq_some_iff.mp hstep
      cases hstep
      simp only [notes, hia, List.map_nil, List.nil_append, List.map_map]
      exact .incomingAck hia hack
  | maintain i =>
    cases hstep
    exact .maintain
  | receive i k rest src =>
    change s.receive W A i k rest src = some (s', out) at hstep
    unfold Network.receive at hstep
    cases hx : s.wire[k]? with
    | none =>
      simp only [hx] at hstep
      cases hstep
      simp only [notes, hx]
      exact .idle
    | some x =>
      simp only [hx] at hstep
      obtain ⟨⟨handler, sends⟩, hrecv, hstep⟩ := Option.bind_eq_some_iff.mp hstep
      cases hstep
      rcases recvMsg_cases hrecv with ⟨hnone, rfl, rfl⟩ |
        ⟨packet, message?, hpacket, hins, hom, hia⟩
      · -- nothing is decoded, and the node is put back as it was
        simp only [notes, hx, hnone]
        simp only [List.filterMap_nil, List.append_nil, List.map_nil]
        rw [show s.set i (s.nodes i) = s from congrArg (fun f => { s with nodes := f })
          (Function.update_eq_self i s.nodes)]
        exact .idle
      · simp only [notes, hx, hpacket, hins, Option.bind_some, List.map_cons, List.map_map, hia]
        exact .receive hx hpacket hins hom

/-- What holds of every node still does when one is replaced by another of which it holds. -/
theorem forall_set {P : ν → Node → Prop} {s : Network ν W} (h : ∀ j, P j (s.nodes j)) {i : ν}
    {node : Node} (hi : P i node) (j : ν) : P j ((s.set i node).nodes j) := by
  rw [nodes_set]
  split
  · next heq =>
    subst heq
    exact hi
  · exact h j

/-! ## The handler of a node -/

theorem received_append (i : ν) (log log' : Log ν) :
    received i (log ++ log') = received i log ++ received i log' := List.filterMap_append

/-- What a log tells of a node whose notes in it tell nothing. -/
theorem filterMap_log_eq_nil {log : Log ν} {i : ν} {α : Type} {f : Note → Option α}
    (h : ∀ n, .inr (i, n) ∈ log → f n = none) :
    log.filterMap (fun x => (Note.of? i x).bind f) = [] := by
  rw [List.filterMap_eq_nil_iff]
  intro x hx
  cases hof : Note.of? i x with
  | none => rfl
  | some n =>
    obtain rfl := Note.of?_eq_some.mp hof
    exact h n hx

/-- **Step.** -/
theorem handler_step {s s' : Network ν W} {event : Event ν} {log : Log ν}
    (hstep : (chronicle W A).step s event = some (s', log)) (i : ν) :
    (MessageHandler.reassembler W).run (s.nodes i).handler (received i log) =
      some ((s'.nodes i).handler, handed i log) := by
  -- a step that changes no handler, and notes nothing of it
  have hquiet : ∀ {j : ν} {node : Node} (wire : List (Datagram W.packet)) {log : Log ν},
      node.handler = (s.nodes j).handler →
      (∀ n, .inr (i, n) ∈ log → n.received? = none ∧ n.handed? = none) →
      (MessageHandler.reassembler W).run (s.nodes i).handler (received i log) =
        some (({ s.set j node with wire }.nodes i).handler, handed i log) := by
    intro j node wire log hsame hlog
    rw [received, handed, filterMap_log_eq_nil fun n hn => (hlog n hn).1,
      filterMap_log_eq_nil fun n hn => (hlog n hn).2]
    show some ((s.nodes i).handler, []) = some (((s.set j node).nodes i).handler, [])
    rw [nodes_set]
    split
    · next hi => rw [hi, hsame]
    · rfl
  cases step_cases hstep with
  | idle => rfl
  | submit => exact hquiet s.wire rfl (by simp)
  | outgoingMsg => exact hquiet _ rfl (by simp; grind [Note.received?, Note.handed?])
  | incomingAck => exact hquiet s.wire rfl (by simp; grind [Note.received?, Note.handed?])
  | maintain => exact hquiet _ rfl (by simp [Note.received?, Note.handed?])
  | @receive j k rest src x packet handler message? receipts hx hpacket hins hreceipt =>
    rw [nodes_set]
    by_cases hi : i = j
    · subst hi
      have hreceived : received i (receipts.map (fun m => .inl (.queued i m.1 m.2)) ++
          .inr (i, .received (packet, src)) :: message?.toList.map
            fun message => .inr (i, .handed ⟨packet, message, src⟩)) = [(packet, src)] := by
        cases message? <;> simp [received, Note.of?, Note.received?]
      have hhanded : handed i (receipts.map (fun m => .inl (.queued i m.1 m.2)) ++
          .inr (i, .received (packet, src)) :: message?.toList.map
            fun message => .inr (i, .handed ⟨packet, message, src⟩)) =
          message?.toList.map fun message => ⟨packet, message, src⟩ := by
        cases message? <;> simp [handed, Note.of?, Note.handed?]
      rw [hreceived, hhanded, if_pos rfl]
      apply (MessageHandler.reassembler W).run_singleton_eq_some.mpr
      exact MessageHandler.reassembler_step_eq_some.mpr ⟨message?, hins, rfl⟩
    · rw [if_neg hi, received, handed, filterMap_log_eq_nil, filterMap_log_eq_nil]
      · rfl
      · simp [hi, Ne.symm hi]
      · simp [hi, Ne.symm hi]

/-- **The handler of a node** has run on the packets the node received, and passed on what the node
passed on. -/
theorem handler_of_run {addr : ν → SocketAddr} {events : List (Event ν)} {s : Network ν W}
    {log : Log ν} (hrun : (chronicle W A).run (new W addr) events = some (s, log)) (i : ν) :
    (MessageHandler.reassembler W).run ⟨∅⟩ (received i log) =
      some ((s.nodes i).handler, handed i log) := by
  exact (chronicle W A).project (N := MessageHandler.reassembler W)
    (fun s event s' log hstep => handler_step hstep i) hrun

/-! ## The outbox of a node -/

theorem operations_map_did (i j : ν) (ops : List GDUdp.Op) :
    operations i (ops.map fun op => .inr (j, .did op)) = if j = i then ops else [] := by
  rw [operations, List.filterMap_map]
  by_cases hj : j = i
  · rw [if_pos hj, List.filterMap_congr (g := some)]
    · exact List.filterMap_some
    · intro op _
      simp [Note.of?, Note.did?, hj]
  · rw [if_neg hj, List.filterMap_eq_nil_iff]
    intro op _
    simp [Note.of?, hj]

/-- A step of the transport of node `j`, seen from node `i`. -/
theorem transport_step {s : Network ν W} {j : ν} (node : Node) (ev : Transport.Event)
    {out : List (Datagram W.packet)}
    (hev : (Transport.machine W A).step (s.nodes j).transport ev = some (node.transport, out))
    (i : ν) : ∃ outs, (GDUdp.machine W.packet A).run (s.nodes i).transport.gdUdp
        (if j = i then Transport.operations W A (s.nodes j).transport ev else []) =
      some (((s.set j node).nodes i).transport.gdUdp, outs) ∧ outs.Sublist out := by
  rw [nodes_set]
  by_cases hj : j = i
  · subst hj
    rw [if_pos rfl, if_pos rfl]
    exact Transport.refines_step hev
  · rw [if_neg hj, if_neg (Ne.symm hj)]
    exact ⟨[], rfl, List.nil_sublist out⟩

theorem transport_set_same (s : Network ν W) (j : ν) (node : Node)
    (h : node.transport = (s.nodes j).transport) (i : ν) :
    ((s.set j node).nodes i).transport = (s.nodes i).transport := by
  rw [nodes_set]
  split
  · next hi => rw [hi, h]
  · rfl

/-- **Step.** What the outbox of node `i` does, and what of it goes on the wire. -/
theorem outbox_step {s s' : Network ν W} {event : Event ν} {log : Log ν}
    (hstep : (chronicle W A).step s event = some (s', log)) (i : ν) :
    ∃ outs out, (GDUdp.machine W.packet A).run (s.nodes i).transport.gdUdp (operations i log) =
      some ((s'.nodes i).transport.gdUdp, outs) ∧ s'.wire = s.wire ++ out ∧ outs.Sublist out := by
  cases step_cases hstep with
  | idle => exact ⟨[], [], rfl, (List.append_nil _).symm, List.Sublist.refl _⟩
  | @submit j dst message =>
    refine ⟨[], [], ?_, (List.append_nil _).symm, List.Sublist.refl _⟩
    rw [transport_set_same s j _ ?_]
    · rfl
    · rfl
  | @outgoingMsg j packetsId dst message om transport out o hom hsend ho =>
    obtain ⟨outs, hrun, hsub⟩ := transport_step { s.nodes j with transport, om }
      (.outgoingMsg packetsId dst message) hsend i
    rw [← operations_map_did] at hrun
    refine ⟨outs, out, ?_, rfl, hsub⟩
    -- the message reported and addressed is nothing the outbox does
    simpa [operations, Note.of?, Note.did?, List.filterMap_cons] using hrun
  | @incomingAck j ack ia transport hia hack =>
    have hev : (Transport.machine W A).step (s.nodes j).transport (.incomingAck ack) =
        some (transport, []) := congrArg (Option.map fun t => (t, [])) hack
    obtain ⟨outs, hrun, hsub⟩ := transport_step { s.nodes j with transport, ia } _ hev i
    rw [← operations_map_did] at hrun
    exact ⟨outs, [], hrun, (List.append_nil _).symm, hsub⟩
  | @maintain j =>
    obtain ⟨outs, hrun, hsub⟩ := transport_step
      { s.nodes j with transport := (Transport.maintain W (s.nodes j).transport).1 } .maintain rfl i
    rw [← operations_map_did] at hrun
    exact ⟨outs, _, hrun, rfl, hsub⟩
  | @receive j k rest src x packet handler message? receipts hx hpacket hins hreceipt =>
    refine ⟨[], [], ?_, (List.append_nil _).symm, List.Sublist.refl _⟩
    rw [transport_set_same s j _ ?_, operations, filterMap_log_eq_nil]
    · rfl
    · intro n hn
      have hnote : n = .received (packet, src) ∨ ∃ message, n = .handed ⟨packet, message, src⟩ := by
        simp at hn
        grind
      rcases hnote with rfl | ⟨message, rfl⟩
      · rfl
      · rfl
    · rfl

/-- **The outbox of a node** has done what is noted of it, and all it has sent lies on the wire. -/
theorem outbox_of_run {addr : ν → SocketAddr} {events : List (Event ν)} {s : Network ν W}
    {log : Log ν} (hrun : (chronicle W A).run (new W addr) events = some (s, log)) (i : ν) :
    ∃ outs, (GDUdp.machine W.packet A).run (GDUdp.new (addr i)) (operations i log) =
      some ((s.nodes i).transport.gdUdp, outs) ∧ outs.Sublist s.wire := by
  refine (chronicle W A).run_history (A := fun _ => True) (P := fun s _ log => ∃ outs,
    (GDUdp.machine W.packet A).run (GDUdp.new (addr i)) (operations i log) =
      some ((s.nodes i).transport.gdUdp, outs) ∧ outs.Sublist s.wire) ?_
    ⟨[], rfl, List.Sublist.refl _⟩ (fun _ _ => trivial) hrun
  intro s hist log event s' log' hprev _ hstep
  obtain ⟨outs, hbefore, hsub⟩ := hprev
  obtain ⟨outs', out, hnow, hwire, hsub'⟩ := outbox_step hstep i
  refine ⟨outs ++ outs', ?_, hwire ▸ hsub.append hsub'⟩
  rw [operations, List.filterMap_append]
  exact Machine.run_append_eq_some _ |>.mpr ⟨_, outs, outs', hbefore, hnow, rfl⟩

end Network

end Udp2p
