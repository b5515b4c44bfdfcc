import Udp2p.Transport.Chronicle

/-!
# Does the network deliver what was submitted?

The channel loses, repeats and reorders datagrams, but it invents none. If every message is split
under an id of its own and the serialisers read back what they write, then a node passes on exactly
the messages all whose packets it has received, and nothing else: every message it passes on that is
no ack was submitted by the application of some node.

* `family_of_run` — what is received are packets of the messages that were split, each under its own
  id.
* `messages_delivered_iff` — which messages a node passes on.
-/

namespace Udp2p

/-- The serialisers read back what they write, and write every packet. -/
structure Wire.Reliable (W : Wire) : Prop where
  packet : W.packet.Lawful
  message : W.message.Lawful
  ack : W.ack.Lawful
  total : W.packet.Total

namespace Network

variable {ν : Type} [DecidableEq ν] {W : Wire} {A : AddrText}

/-- The reports of a run. -/
def reports (log : Log ν) : List (Report ν) := log.filterMap Sum.getLeft?

def Report.original? : Report ν → Option Original
  | .sent _ o => some o
  | .queued .. => none

/-- The messages that were split. -/
def family (log : Log ν) : List Original := (reports log).filterMap Report.original?

omit [DecidableEq ν] in
theorem mem_reports {r : Report ν} {log : Log ν} : r ∈ reports log ↔ .inl r ∈ log := by
  simp [reports, List.mem_filterMap]

omit [DecidableEq ν] in
theorem mem_family {o : Original} {log : Log ν} : o ∈ family log ↔ ∃ i, .inl (.sent i o) ∈ log := by
  simp only [family, List.mem_filterMap, mem_reports]
  constructor
  · rintro ⟨r, hr, ho⟩
    cases r with
    | sent i o' =>
      cases ho
      exact ⟨i, hr⟩
    | queued i dst message => cases ho
  · rintro ⟨i, hi⟩
    exact ⟨.sent i o, hi, rfl⟩

def Event.packetsId? : Event ν → Option InnerKey
  | .outgoingMsg _ packetsId => some packetsId
  | _ => none

/-- Every message is split under an id of its own. -/
def FreshIds (events : List (Event ν)) : Prop := (events.filterMap Event.packetsId?).Nodup

/-! ## What is split -/

theorem originalOf_id {packetsId : InnerKey} {message : Message} {o : Original}
    (h : originalOf W packetsId message = some o) : o.id = packetsId := by
  obtain ⟨bytes, -, h⟩ := Option.bind_eq_some_iff.mp h
  obtain ⟨packets, -, h⟩ := Option.bind_eq_some_iff.mp h
  cases h
  rfl

omit [DecidableEq ν] in
theorem family_append (log log' : Log ν) : family (log ++ log') = family log ++ family log' := by
  simp [family, reports, List.filterMap_append]

omit [DecidableEq ν] in
theorem family_eq_nil {log : Log ν} (h : ∀ i o, .inl (.sent i o) ∉ log) : family log = [] := by
  rw [List.eq_nil_iff_forall_not_mem]
  intro o ho
  obtain ⟨i, hi⟩ := mem_family.mp ho
  exact h i o hi

/-- The ids of the messages a step splits. -/
theorem family_step {s s' : Network ν W} {event : Event ν} {log : Log ν}
    (hstep : (chronicle W A).step s event = some (s', log)) :
    ((family log).map Original.id).Sublist event.packetsId?.toList := by
  cases step_cases hstep with
  | @outgoingMsg i packetsId dst message om transport out o hom hsend ho =>
    have hnone : family ((.inr (i, .addressed dst o) : Report ν ⊕ ν × Note) ::
        (Transport.operations W A (s.nodes i).transport
          (.outgoingMsg packetsId dst message)).map fun op => .inr (i, .did op)) = [] :=
      family_eq_nil (by simp)
    show ((o :: family _).map Original.id).Sublist [packetsId]
    rw [hnone, List.map_singleton, originalOf_id ho]
  | idle => exact List.nil_sublist _
  | submit => exact List.nil_sublist _
  | incomingAck =>
    rw [family_eq_nil (by simp)]
    exact List.nil_sublist _
  | maintain => exact List.nil_sublist _
  | receive =>
    rw [family_eq_nil (by simp)]
    exact List.nil_sublist _

/-- The messages that were split have the ids they were split under. -/
theorem family_ids {addr : ν → SocketAddr} {events : List (Event ν)} {s : Network ν W} {log : Log ν}
    (hrun : (chronicle W A).run (new W addr) events = some (s, log)) :
    ((family log).map Original.id).Sublist (events.filterMap Event.packetsId?) := by
  refine (chronicle W A).run_history (A := fun _ => True) (P := fun _ hist log =>
    ((family log).map Original.id).Sublist (hist.filterMap Event.packetsId?)) ?_
    (List.Sublist.refl _) (fun _ _ => trivial) hrun
  intro s hist log event s' log' hprev _ hstep
  rw [family_append, List.map_append, List.filterMap_append]
  apply hprev.append
  have hlast := family_step hstep
  cases hid : event.packetsId? with
  | none => simpa [hid] using hlast
  | some id => simpa [hid] using hlast

/-! ## What is received -/

/-- All that lies on the wire or was received are packets of messages that were split. -/
structure Chronicled (s : Network ν W) (log : Log ν) : Prop where
  traced : Traced s (reports log)
  received : ∀ i, ∀ a ∈ received i log, ∃ o ∈ family log, a.1 ∈ o.packets

omit [DecidableEq ν] in
theorem mem_family_of_sent {j : ν} {o : Original} {log : Log ν} (h : .sent j o ∈ reports log) :
    o ∈ family log :=
  mem_family.mpr ⟨j, mem_reports.mp h⟩

/-- What a step receives is a packet of the wire. -/
theorem received_step (hW : W.packet.Lawful) {s s' : Network ν W} {event : Event ν} {log : Log ν}
    (hstep : (chronicle W A).step s event = some (s', log)) {i : ν} {a : Arrival}
    (ha : a ∈ received i log) : ∃ k rest x, event = .receive i k rest a.2 ∧ s.wire[k]? = some x ∧
      x.packet = a.1 := by
  rw [mem_received] at ha
  cases step_cases hstep with
  | idle => cases ha
  | submit => simp at ha
  | outgoingMsg => simp at ha
  | incomingAck => simp at ha
  | maintain => simp at ha
  | @receive j k rest src x packet handler message? receipts hx hpacket hins hreceipt =>
    obtain ⟨rfl, rfl⟩ : i = j ∧ a = (packet, src) := by simpa using ha
    refine ⟨k, rest, x, rfl, hx, ?_⟩
    have hback := hW x.packet x.bytes x.isWire
    rw [hpacket, Option.some.injEq] at hback
    exact hback.symm

theorem chronicled_of_run (hW : W.packet.Lawful) {addr : ν → SocketAddr} {events : List (Event ν)}
    {s : Network ν W} {log : Log ν}
    (hrun : (chronicle W A).run (new W addr) events = some (s, log)) : Chronicled s log := by
  refine (chronicle W A).run_history (A := fun _ => True) (P := fun s _ log => Chronicled s log)
    ?_ ⟨traced_new addr, fun _ _ ha => nomatch ha⟩ (fun _ _ => trivial) hrun
  intro s hist log event s' log' hprev _ hstep
  obtain ⟨out, hnet, rfl⟩ := Machine.annotate_step_eq_some.mp hstep
  constructor
  · rw [reports, List.filterMap_append, Machine.filterMap_getLeft]
    exact hprev.traced.step hnet
  · intro i a ha
    rw [received_append] at ha
    rw [family_append]
    rcases List.mem_append.mp ha with hold | hnew
    · obtain ⟨o, ho, hmem⟩ := hprev.received i a hold
      exact ⟨o, List.mem_append_left _ ho, hmem⟩
    · obtain ⟨k, rest, x, rfl, hx, hpacket⟩ := received_step hW hstep hnew
      obtain ⟨j, o, hsent, hmem⟩ := hprev.traced.wire x (List.mem_of_getElem? hx)
      exact ⟨o, List.mem_append_left _ (mem_family_of_sent hsent), hpacket ▸ hmem⟩

/-- **What a node receives** are packets of the messages that were split, each under its own id. -/
theorem family_of_run (hW : W.packet.Lawful) {addr : ν → SocketAddr} {events : List (Event ν)}
    (hfresh : FreshIds events) {s : Network ν W} {log : Log ν}
    (hrun : (chronicle W A).run (new W addr) events = some (s, log)) :
    (∀ o ∈ family log, o.Split W) ∧ ((family log).map Original.id).Nodup ∧
      ∀ i, ∀ a ∈ received i log, ∃ o ∈ family log, a.1 ∈ o.packets := by
  have hchron := chronicled_of_run hW hrun
  refine ⟨fun o ho => ?_, (family_ids hrun).nodup hfresh, hchron.received⟩
  obtain ⟨i, hi⟩ := mem_family.mp ho
  exact (hchron.traced.split (mem_reports.mpr hi)).1

/-! ## Where messages come from -/

/-- A message of node `j` is an ack, or was submitted there for `dst`. -/
def Submitted (events : List (Event ν)) (j : ν) (dst : SocketAddr) (message : Message) : Prop :=
  ∀ h : message.head ≠ .ack, .submit j dst ⟨message, h⟩ ∈ events

/-- What waits to be sent, and what has been, was submitted. -/
structure Submissions (s : Network ν W) (events : List (Event ν)) (log : Log ν) : Prop where
  queued : ∀ j, ∀ m ∈ (s.nodes j).om, Submitted events j m.1 m.2
  sent : ∀ j o, .inl (.sent j o) ∈ log → ∃ dst, Submitted events j dst o.message

omit [DecidableEq ν] in
theorem Submitted.concat {events : List (Event ν)} {j : ν} {dst : SocketAddr} {message : Message}
    (h : Submitted events j dst message) (event : Event ν) :
    Submitted (events ++ [event]) j dst message :=
  fun hhead => List.mem_append_left _ (h hhead)

theorem submissions_step {s s' : Network ν W} {events : List (Event ν)} {event : Event ν}
    {log log' : Log ν} (h : Submissions s events log)
    (hstep : (chronicle W A).step s event = some (s', log')) :
    Submissions s' (events ++ [event]) (log ++ log') := by
  have hqueued : ∀ j, ∀ m ∈ (s.nodes j).om, Submitted (events ++ [event]) j m.1 m.2 :=
    fun j m hm => (h.queued j m hm).concat event
  have hsent : ∀ j o, .inl (.sent j o) ∈ log →
      ∃ dst, Submitted (events ++ [event]) j dst o.message :=
    fun j o ho => (h.sent j o ho).imp fun dst hdst => hdst.concat event
  -- steps that split no message
  have hnone : (∀ j o, .inl (.sent j o) ∉ log') →
      ∀ j o, .inl (.sent j o) ∈ log ++ log' →
        ∃ dst, Submitted (events ++ [event]) j dst o.message := by
    intro hlog j o ho
    rcases List.mem_append.mp ho with hold | hnew
    · exact hsent j o hold
    · exact absurd hnew (hlog j o)
  cases step_cases hstep with
  | idle => exact ⟨hqueued, hnone fun j o ho => nomatch ho⟩
  | @submit i dst message =>
    constructor
    · apply forall_set (P := fun j node => ∀ m ∈ node.om, Submitted _ j m.1 m.2) hqueued
      intro m hm
      rcases List.mem_append.mp hm with hold | hnew
      · exact hqueued i m hold
      · cases List.mem_singleton.mp hnew
        exact fun hhead => List.mem_append_right _ (List.mem_singleton_self _)
    · exact hnone (by simp)
  | @outgoingMsg i packetsId dst message om transport out o hom hsend ho =>
    have hhead : Submitted (events ++ [.outgoingMsg i packetsId]) i dst message :=
      hqueued i (dst, message) (hom ▸ List.mem_cons_self)
    constructor
    · apply forall_set (P := fun j node => ∀ m ∈ node.om, Submitted _ j m.1 m.2) hqueued
      intro m hm
      exact hqueued i m (hom ▸ List.mem_cons_of_mem _ hm)
    · intro j o' ho'
      rcases List.mem_append.mp ho' with hold | hnew
      · exact hsent j o' hold
      · obtain ⟨rfl, rfl⟩ : j = i ∧ o' = o := by simpa using hnew
        rw [(originalOf_eq_some ho).2.1]
        exact ⟨dst, hhead⟩
  | @incomingAck i ack ia transport hia hack =>
    constructor
    · apply forall_set (P := fun j node => ∀ m ∈ node.om, Submitted _ j m.1 m.2) hqueued
      exact hqueued i
    · exact hnone (by simp)
  | @maintain i =>
    constructor
    · apply forall_set (P := fun j node => ∀ m ∈ node.om, Submitted _ j m.1 m.2) hqueued
      exact hqueued i
    · exact hnone (by simp)
  | @receive i k rest src x packet handler message? receipts hx hpacket hins hreceipt =>
    constructor
    · apply forall_set (P := fun j node => ∀ m ∈ node.om, Submitted _ j m.1 m.2) hqueued
      intro m hm
      rcases List.mem_append.mp hm with hold | hnew
      · exact hqueued i m hold
      · intro hhead
        exact absurd (hreceipt m hnew).2.1 hhead
    · exact hnone (by simp)

theorem submissions_of_run {addr : ν → SocketAddr} {events : List (Event ν)} {s : Network ν W}
    {log : Log ν} (hrun : (chronicle W A).run (new W addr) events = some (s, log)) :
    Submissions s events log :=
  (chronicle W A).run_history (A := fun _ => True)
    (P := fun s events log => Submissions s events log)
    (fun _ _ _ _ _ _ h _ hstep => submissions_step h hstep)
    ⟨fun _ _ hm => absurd hm List.not_mem_nil, fun _ _ ho => absurd ho List.not_mem_nil⟩
    (fun _ _ => trivial) hrun

/-! ## What is delivered -/

/-- What a node passes on is a message that was split, and submitted if it is no ack. -/
theorem handed_of_run (hpacket : W.packet.Lawful) (hmessage : W.message.Lawful)
    {addr : ν → SocketAddr} {events : List (Event ν)} (hfresh : FreshIds events) {s : Network ν W}
    {log : Log ν} (hrun : (chronicle W A).run (new W addr) events = some (s, log)) {i : ν}
    {d : HandOver} (hd : d ∈ handed i log) : ∃ j dst o, .inl (.sent j o) ∈ log ∧ o.Gets d ∧
      ∀ h : d.message.head ≠ .ack, .submit j dst ⟨d.message, h⟩ ∈ events := by
  obtain ⟨hsplit, hids, hfamily⟩ := family_of_run hpacket hfresh hrun
  obtain ⟨o, ho, hgets⟩ := MessageHandler.handOvers_are_originals hmessage hsplit hids
    (hfamily i) (handler_of_run hrun i) d hd
  obtain ⟨j, hj⟩ := mem_family.mp ho
  obtain ⟨dst, hdst⟩ := (submissions_of_run hrun).sent j o hj
  refine ⟨j, dst, o, hj, hgets, ?_⟩
  rw [hgets.2]
  exact hdst

/-- A message is passed on by a node that has received all its packets, and only there. -/
theorem handed_iff_received (hpacket : W.packet.Lawful) (hmessage : W.message.Lawful)
    {addr : ν → SocketAddr} {events : List (Event ν)} (hfresh : FreshIds events) {s : Network ν W}
    {log : Log ν} (hrun : (chronicle W A).run (new W addr) events = some (s, log)) (i : ν) {j : ν}
    {o : Original} (hj : .inl (.sent j o) ∈ log) :
    (∃ d ∈ handed i log, o.Gets d) ↔ ∀ p ∈ o.packets, ∃ src, (p, src) ∈ received i log := by
  obtain ⟨hsplit, hids, hfamily⟩ := family_of_run hpacket hfresh hrun
  have ho : o ∈ family log := mem_family.mpr ⟨j, hj⟩
  have hgen : ∀ a ∈ received i log, MessageHandler.Genuine o a :=
    fun a ha => MessageHandler.genuine_of_mem_family hsplit hids (hfamily i a ha) o ho
  obtain ⟨-, hzero, -⟩ := MessageHandler.reassembler_run_own hmessage (hsplit o ho)
    (AList.lookup_empty _) hgen (handler_of_run hrun i)
  rw [MessageHandler.exists_gets_iff, Ne, hzero, not_not]
  apply forall₂_congr
  intro p _
  simp [MessageHandler.Arrived]

/-- **The network delivers what was submitted.** A message passed on by a node that is no ack was
submitted at some node, and the messages passed on are those all whose packets were received. -/
theorem messages_delivered_iff (hpacket : W.packet.Lawful) (hmessage : W.message.Lawful)
    {addr : ν → SocketAddr} {events : List (Event ν)} (hfresh : FreshIds events) {s : Network ν W}
    {log : Log ν} (hrun : (chronicle W A).run (new W addr) events = some (s, log)) (i : ν) :
    (∀ d ∈ handed i log, ∃ j dst o, .inl (.sent j o) ∈ log ∧ o.Gets d ∧
      ∀ h : d.message.head ≠ .ack, .submit j dst ⟨d.message, h⟩ ∈ events) ∧
    ∀ j o, .inl (.sent j o) ∈ log →
      ((∃ d ∈ handed i log, o.Gets d) ↔ ∀ p ∈ o.packets, ∃ src, (p, src) ∈ received i log) := by
  constructor
  · intro d hd
    exact handed_of_run hpacket hmessage hfresh hrun hd
  · intro j o hj
    exact handed_iff_received hpacket hmessage hfresh hrun i hj

/-- Each of the two copies is handed over. -/
theorem receivedTwice_delivered : ∃ s log,
    (chronicle (Transport.Exchange.someWire secondAddr) .standard).run
      (new (Transport.Exchange.someWire secondAddr) twoAddrs) receivedTwice = some (s, log) ∧
    (handed false log).map (fun d => d.message) = List.replicate 2 ⟨.gossip, [1, 2, 3]⟩ ∧
    (∀ d ∈ handed false log, ∃ j dst o, .inl (.sent j o) ∈ log ∧ o.Gets d ∧
      ∀ h : d.message.head ≠ .ack, .submit j dst ⟨d.message, h⟩ ∈ receivedTwice) ∧
    ∀ j o, .inl (.sent j o) ∈ log → ((∃ d ∈ handed false log, o.Gets d) ↔
      ∀ p ∈ o.packets, ∃ src, (p, src) ∈ received false log) := by
  have hruns : ((chronicle (Transport.Exchange.someWire secondAddr) .standard).run
      (new (Transport.Exchange.someWire secondAddr) twoAddrs) receivedTwice).map
      (fun r => (handed false r.2).map fun d => d.message) =
      some (List.replicate 2 ⟨.gossip, [1, 2, 3]⟩) := by decide +kernel
  obtain ⟨⟨s, log⟩, hrun, hhanded⟩ := Option.map_eq_some_iff.mp hruns
  have hfresh : FreshIds receivedTwice := by
    show (receivedTwice.filterMap Event.packetsId?).Nodup
    decide
  exact ⟨s, log, hrun, hhanded, messages_delivered_iff
    (Transport.Exchange.someWire_packet_lawful secondAddr) (ByteRep.table_lawful (by simp)) hfresh
    hrun false⟩

end Network

end Udp2p
