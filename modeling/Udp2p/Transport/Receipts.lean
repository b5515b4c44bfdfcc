import Udp2p.GdUdp.Accounts
import Udp2p.Transport.Integrity

/-!
# What does an ack prove?

An ack travels as a message of its own: it is queued, split, lost or received in pieces, passed on
and queued again before it reaches the outbox. If an address is in the ack set of a record then the
node that knows itself under that address has received the very packet of the record.

* `Receipts.step` — wherever an ack is on its way, its packet was received where it says.
* `acked_of_run` — what an outbox has recorded.
-/

namespace Udp2p

namespace Network

variable {ν : Type} [DecidableEq ν] {W : Wire} {A : AddrText}

/-- The ack is of a packet that the node whose address it bears has received. -/
def Truthful (A : AddrText) (addr : ν → SocketAddr) (log : Log ν) (ack : AckMessage) : Prop :=
  ∃ j, ∃ a ∈ received j log, ack = ⟨a.1.id, a.1.n, A.textBytes (addr j)⟩

/-- The message is no ack, or the ack of a packet that node `i` has received. -/
def Acknowledges (W : Wire) (A : AddrText) (addr : ν → SocketAddr) (log : Log ν) (i : ν)
    (message : Message) : Prop :=
  message.head = .ack → ∃ a ∈ received i log, IsAckOf W A (addr i) a.1 message

/-- The acks in the queues of node `i` are truthful. -/
structure NodeReceipts (W : Wire) (A : AddrText) (addr : ν → SocketAddr) (log : Log ν) (i : ν)
    (node : Node) : Prop where
  known : node.addr = addr i
  queued : ∀ m ∈ node.om, Acknowledges W A addr log i m.2
  incoming : ∀ ack ∈ node.ia, Truthful A addr log ack

/-- Wherever an ack is on its way, its packet was received where it says. -/
structure Receipts (A : AddrText) (addr : ν → SocketAddr) (s : Network ν W) (log : Log ν) :
    Prop where
  nodes : ∀ i, NodeReceipts W A addr log i (s.nodes i)
  sent : ∀ i o, .inl (.sent i o) ∈ log → Acknowledges W A addr log i o.message
  did : ∀ i id n src, .inr (i, .did (.processAck id n src)) ∈ log →
    Truthful A addr log ⟨id, n, src⟩

theorem Truthful.append {addr : ν → SocketAddr} {log : Log ν} {ack : AckMessage}
    (h : Truthful A addr log ack) (log' : Log ν) : Truthful A addr (log ++ log') ack := by
  obtain ⟨j, a, ha, heq⟩ := h
  exact ⟨j, a, received_append j log log' ▸ List.mem_append_left _ ha, heq⟩

theorem Acknowledges.append {addr : ν → SocketAddr} {log : Log ν} {i : ν} {message : Message}
    (h : Acknowledges W A addr log i message) (log' : Log ν) :
    Acknowledges W A addr (log ++ log') i message := by
  intro hhead
  obtain ⟨a, ha, hack⟩ := h hhead
  exact ⟨a, received_append i log log' ▸ List.mem_append_left _ ha, hack⟩

/-- A message that acknowledges adds truthful acks only. -/
theorem Acknowledges.truthful (hack : W.ack.Lawful) {addr : ν → SocketAddr} {log : Log ν} {i : ν}
    {message : Message} (h : Acknowledges W A addr log i message) :
    ∀ ack ∈ acksOf W message, Truthful A addr log ack := by
  intro ack hmem
  unfold acksOf at hmem
  split at hmem
  · next hhead =>
    obtain ⟨a, ha, -, hbytes⟩ := h hhead
    rw [hack _ _ hbytes] at hmem
    exact ⟨i, a, ha, by simpa using hmem⟩
  · cases hmem

theorem NodeReceipts.append {addr : ν → SocketAddr} {log : Log ν} {i : ν} {node : Node}
    (h : NodeReceipts W A addr log i node) (log' : Log ν) :
    NodeReceipts W A addr (log ++ log') i node where
  known := h.known
  queued m hm := (h.queued m hm).append log'
  incoming ack hack := (h.incoming ack hack).append log'

/-- **Step.** Acks stay truthful: they are queued for packets just received, sent from a queue,
passed on as they were sent, and recorded from a queue. -/
theorem Receipts.step (hack : W.ack.Lawful) {addr : ν → SocketAddr} {s s' : Network ν W}
    {event : Event ν} {log log' : Log ν} (h : Receipts A addr s log)
    (hdelivered : ∀ i, ∀ d ∈ handed i log', ∃ j o, .inl (.sent j o) ∈ log ∧ d.message = o.message)
    (hstep : (chronicle W A).step s event = some (s', log')) :
    Receipts A addr s' (log ++ log') := by
  have hnodes : ∀ i, NodeReceipts W A addr (log ++ log') i (s.nodes i) :=
    fun i => (h.nodes i).append log'
  have hsent : (∀ i o, .inl (.sent i o) ∈ log' → Acknowledges W A addr (log ++ log') i o.message) →
      ∀ i o, .inl (.sent i o) ∈ log ++ log' → Acknowledges W A addr (log ++ log') i o.message := by
    intro hnew i o ho
    rcases List.mem_append.mp ho with hold | ho
    · exact (h.sent i o hold).append log'
    · exact hnew i o ho
  have hdid : (∀ i id n src, .inr (i, .did (.processAck id n src)) ∈ log' →
      Truthful A addr (log ++ log') ⟨id, n, src⟩) →
      ∀ i id n src, .inr (i, .did (.processAck id n src)) ∈ log ++ log' →
        Truthful A addr (log ++ log') ⟨id, n, src⟩ := by
    intro hnew i id n src hmem
    rcases List.mem_append.mp hmem with hold | hmem
    · exact (h.did i id n src hold).append log'
    · exact hnew i id n src hmem
  cases step_cases hstep with
  | idle => exact ⟨hnodes, hsent (by simp), hdid (by simp)⟩
  | @submit i dst message =>
    refine ⟨forall_set hnodes ⟨(hnodes i).known, fun m hm => ?_, (hnodes i).incoming⟩,
      hsent (by simp), hdid (by simp)⟩
    rcases List.mem_append.mp hm with hold | hnew
    · exact (hnodes i).queued m hold
    · cases List.mem_singleton.mp hnew
      exact fun hhead => absurd hhead message.2
  | @outgoingMsg i packetsId dst message om transport out o hom hsend ho =>
    have hqueued := (hnodes i).queued
    rw [hom] at hqueued
    refine ⟨forall_set hnodes ⟨(hnodes i).known, fun m hm => hqueued m (List.mem_cons_of_mem _ hm),
      (hnodes i).incoming⟩, hsent fun j o' ho' => ?_, hdid fun j id n src hmem => ?_⟩
    · obtain ⟨rfl, rfl⟩ : j = i ∧ o' = o := by simpa using ho'
      rw [(originalOf_eq_some ho).2.1]
      exact hqueued (dst, message) List.mem_cons_self
    · -- an outbox that sends is given no acks
      have hop : .processAck id n src ∈ Transport.operations W A (s.nodes i).transport
          (.outgoingMsg packetsId dst message) ∧ i = j := by simpa using hmem
      obtain ⟨-, d, -, p, -, hsends⟩ := (mem_operations_outgoingMsg ho).mp hop.1
      cases hsends
  | @incomingAck i ack ia transport hia hincorporate =>
    have hincoming := (hnodes i).incoming
    rw [hia] at hincoming
    refine ⟨forall_set hnodes ⟨(hnodes i).known, (hnodes i).queued,
      fun ack' hmem => hincoming ack' (List.mem_cons_of_mem _ hmem)⟩, hsent (by simp),
      hdid fun j id n src hmem => ?_⟩
    have hop : .processAck id n src ∈ Transport.operations W A (s.nodes i).transport
        (.incomingAck ack) ∧ i = j := by simpa using hmem
    cases Transport.mem_operations_incomingAck hop.1
    exact hincoming ack List.mem_cons_self
  | @maintain i =>
    exact ⟨forall_set hnodes ⟨(hnodes i).known, (hnodes i).queued, (hnodes i).incoming⟩,
      hsent (by simp), hdid (by simp)⟩
  | @receive i k rest src x packet handler message? receipts hx hpacket hins hreceipt =>
    refine ⟨forall_set hnodes ⟨(hnodes i).known, fun m hm => ?_, fun ack hmem => ?_⟩,
      hsent (by simp), hdid (by simp)⟩
    · rcases List.mem_append.mp hm with hold | hnew
      · exact (hnodes i).queued m hold
      · -- the receipt is for the packet that was just received
        intro _
        refine ⟨(packet, src), ?_, (hnodes i).known ▸ (hreceipt m hnew).2⟩
        rw [mem_received]
        simp
    · rcases List.mem_append.mp hmem with hold | hnew
      · exact (hnodes i).incoming ack hold
      · obtain ⟨message, hmessage, hacks⟩ := List.mem_flatMap.mp hnew
        obtain ⟨j, o, ho, heq⟩ := hdelivered i ⟨packet, message, src⟩ (by
          rw [mem_handed]
          simpa using hmessage)
        obtain rfl : message = o.message := heq
        exact ((h.sent j o ho).append _).truthful hack ack hacks

omit [DecidableEq ν] in
theorem FreshIds.of_concat {events : List (Event ν)} {event : Event ν}
    (h : FreshIds (events ++ [event])) : FreshIds events := by
  rw [FreshIds, List.filterMap_append] at h
  exact h.of_append_left

/-- A step that passes messages on splits none. -/
theorem sent_of_handed {s s' : Network ν W} {event : Event ν} {log : Log ν}
    (hstep : (chronicle W A).step s event = some (s', log)) {i : ν} {d : HandOver}
    (hd : d ∈ handed i log) (j : ν) (o : Original) : .inl (.sent j o) ∉ log := by
  rw [mem_handed] at hd
  cases step_cases hstep with
  | idle => cases hd
  | submit => simp at hd
  | outgoingMsg => simp at hd
  | incomingAck => simp at hd
  | maintain => simp at hd
  | receive => simp

/-- **Run.** -/
theorem receipts_of_run (hpacket : W.packet.Lawful) (hmessage : W.message.Lawful)
    (hack : W.ack.Lawful) {addr : ν → SocketAddr} {events : List (Event ν)}
    (hfresh : FreshIds events) {s : Network ν W} {log : Log ν}
    (hrun : (chronicle W A).run (new W addr) events = some (s, log)) : Receipts A addr s log := by
  refine (chronicle W A).run_history_reached
    (P := fun s events log => FreshIds events → Receipts A addr s log) ?_ ?_ hrun hfresh
  · intro s events log event s' log' hbefore hprev hstep hfresh
    apply (hprev hfresh.of_concat).step hack ?_ hstep
    -- what is passed on was sent, and before this step
    intro i d hd
    have hafter := (chronicle W A).run_concat_eq_some.mpr ⟨s, log, log', hbefore, hstep, rfl⟩
    have hmem : d ∈ handed i (log ++ log') := by
      rw [handed, List.filterMap_append]
      exact List.mem_append_right _ hd
    obtain ⟨j, dst, o, ho, hgets, -⟩ := handed_of_run hpacket hmessage hfresh hafter hmem
    refine ⟨j, o, ?_, hgets.2⟩
    rcases List.mem_append.mp ho with hold | hnew
    · exact hold
    · exact absurd hnew (sent_of_handed hstep hd j o)
  · intro _
    exact ⟨fun i => ⟨rfl, fun m hm => absurd hm List.not_mem_nil,
      fun ack hack => absurd hack List.not_mem_nil⟩, fun i o ho => absurd ho List.not_mem_nil,
      fun i id n src hmem => absurd hmem List.not_mem_nil⟩

/-- A packet with the id and the number of one that is known is that one. -/
theorem eq_of_same_packet {family : List Original} (hsplit : ∀ o ∈ family, o.Split W)
    (hids : (family.map Original.id).Nodup) {p q : Packet} (hp : ∃ o ∈ family, p ∈ o.packets)
    (hq : ∃ o ∈ family, q ∈ o.packets) (hid : p.id = q.id) (hn : p.n = q.n) : p = q := by
  obtain ⟨o, ho, hmem⟩ := hp
  obtain ⟨o', ho', hmem'⟩ := hq
  have hfrag := (hsplit o ho).fragments
  have hfrag' := (hsplit o' ho').fragments
  have hsame : o.id = o'.id := by
    rw [← hfrag.id_eq p hmem, hid, hfrag'.id_eq q hmem']
  obtain rfl := List.inj_on_of_nodup_map hids ho ho' hsame
  exact hfrag.eq_of_n_eq hmem hmem' hn

/-- **What an outbox has recorded.** For every address in the ack set of a record there is a node
that has received the packet of the record, and whose address it is. -/
theorem acked_of_run (hpacket : W.packet.Lawful) (hmessage : W.message.Lawful)
    (hack : W.ack.Lawful) {addr : ν → SocketAddr} {events : List (Event ν)}
    (hfresh : FreshIds events) {s : Network ν W} {log : Log ν}
    (hrun : (chronicle W A).run (new W addr) events = some (s, log)) :
    ∀ i id n e, (s.nodes i).transport.gdUdp.entry id n = some e → ∀ d ∈ e.ackSet,
      ∃ j src, (e.packet, src) ∈ received j log ∧
        A.parseBytes (A.textBytes (addr j)) = some d := by
  intro i id n e he d hd
  obtain ⟨outs, houtbox, -⟩ := outbox_of_run hrun i
  have hexplained := GDUdp.explained_of_run houtbox
  obtain ⟨src, hop, hparse⟩ := hexplained.acked he d hd
  obtain ⟨j, a, ha, heq⟩ :=
    (receipts_of_run hpacket hmessage hack hfresh hrun).did i id n src (mem_operations.mp hop)
  cases heq
  refine ⟨j, a.2, ?_, hparse⟩
  -- the packet recorded and the one received have the same id and number
  obtain ⟨hsplit, hids, hfamily⟩ := family_of_run hpacket hfresh hrun
  obtain ⟨hid, hn⟩ := hexplained.wellFormed.keyed he
  obtain ⟨j', o, ho, -, hmem⟩ := (chronicled_of_run hpacket hrun).traced.outbox he
  have hsame : e.packet = a.1 :=
    eq_of_same_packet hsplit hids ⟨o, mem_family_of_sent ho, hmem⟩ (hfamily j a ha) hid hn
  rw [hsame]
  exact ha

end Network

end Udp2p
