import Udp2p.Discovery.Small
import Udp2p.System.System
import Udp2p.Transport.Integrity

/-!
# Do whole nodes form a network?

Whatever the services do, all that the transports and handlers see of it are messages in the queue
of outgoing messages, and these are no acks. So a run of the system is a run of the network, with
the messages of the services as submissions, and what was proved of every run of a network holds of
the system.

* `step_simulates`, `network_of_run` — a step, and a run.
* `mem_sendsOf` — what a handler routes are messages it passes on.
* `routed_submitted` — and these were submitted by some service.
-/

namespace Udp2p

namespace Network

variable {ν : Type} [DecidableEq ν] {W : Wire} {A : AddrText}

omit [DecidableEq ν] in
/-- What a handler puts on its channels beside receipts is a message it routes. -/
theorem recvMsg_routes {h h' : MessageHandler} {addr src : SocketAddr} {bytes rest : List UInt8}
    {sends : List HandlerSend}
    (hrecv : h.recvMsg W A addr (bytes ++ rest) bytes.length src = some (h', sends))
    {o : HandlerSend} (ho : o ∈ sends) :
    (∃ dst message, o = .om dst message) ∨
    ∃ packet h₁ message, W.packet.fromBytes bytes = some packet ∧
      h.insertPacket W packet = some (h₁, some message) ∧
      o ∈ MessageHandler.handleMessage W message src := by
  have hslice : slice (bytes ++ rest) 0 bytes.length = some bytes := by simp [slice]
  obtain ⟨⟨packet?, receipts⟩, hprocess, hrest⟩ := Option.bind_eq_some_iff.mp hrecv
  simp only [MessageHandler.processPacket, hslice, Option.bind_eq_bind, Option.bind_some]
    at hprocess
  cases hpacket : W.packet.fromBytes bytes with
  | none =>
    simp only [hpacket] at hprocess
    cases hprocess
    cases hrest
    cases ho
  | some packet =>
    simp only [hpacket] at hprocess
    have hreceipts : packet? = some packet ∧
        ∀ o ∈ receipts, ∃ dst message, o = .om dst message := by
      split at hprocess
      · obtain ⟨msg, -, heq⟩ := Option.bind_eq_some_iff.mp hprocess
        cases heq
        refine ⟨rfl, fun o ho => ?_⟩
        cases List.mem_singleton.mp ho
        exact ⟨_, _, rfl⟩
      · cases hprocess
        refine ⟨rfl, fun o ho => ?_⟩
        cases ho
    obtain ⟨rfl, hreceipts⟩ := hreceipts
    obtain ⟨⟨h₁, message?⟩, hins, heq⟩ := Option.bind_eq_some_iff.mp hrest
    cases heq
    rcases List.mem_append.mp ho with ho | ho
    · exact Or.inl (hreceipts o ho)
    · cases message? with
      | none => cases ho
      | some message => exact Or.inr ⟨packet, _, message, rfl, hins, ho⟩

/-! ## Submitting -/

/-- Put messages in the queue of outgoing messages of a node. -/
def queue (s : Network ν W) (i : ν) (om : List (SocketAddr × Message)) : Network ν W :=
  s.set i { s.nodes i with om := (s.nodes i).om ++ om }

theorem queue_nil (s : Network ν W) (i : ν) : s.queue i [] = s := by
  have hnode : { s.nodes i with om := (s.nodes i).om ++ [] } = s.nodes i := by
    rw [List.append_nil]
  rw [queue, hnode]
  show { s with nodes := Function.update s.nodes i (s.nodes i) } = s
  rw [Function.update_eq_self]

theorem queue_queue (s : Network ν W) (i : ν) (om om' : List (SocketAddr × Message)) :
    (s.queue i om).queue i om' = s.queue i (om ++ om') := by
  simp [queue, Network.set, List.append_assoc]

/-- Submitting messages one after another queues them all. -/
theorem run_submits (s : Network ν W) (i : ν) (ms : List (SocketAddr × AppMessage)) : ∃ log,
    (chronicle W A).run s (ms.map fun m => .submit i m.1 m.2) =
      some (s.queue i (ms.map fun m => (m.1, m.2.1)), log) := by
  induction ms generalizing s with
  | nil => exact ⟨[], by rw [List.map_nil, List.map_nil, queue_nil]; rfl⟩
  | cons m ms ih =>
    obtain ⟨log, hrun⟩ := ih (s.queue i [(m.1, m.2.1)])
    refine ⟨.inl (.queued i m.1 m.2.1) :: log, ?_⟩
    apply (chronicle W A).run_cons_eq_some.mpr
    refine ⟨s.queue i [(m.1, m.2.1)], [.inl (.queued i m.1 m.2.1)], log, rfl, ?_, rfl⟩
    rw [hrun, queue_queue]
    rfl

end Network

variable {ν M : Type} [DecidableEq ν] [LinkedHashMap PeerId PeerInfo M] {P : Platform}

/-- A party is as it was set up: its table is one of the local peer, its address and configuration
are the same, and its gossip service holds gossip messages only. -/
structure Party.AsSetUp (setup : Setup ν) (i : ν) (party : Party M) : Prop where
  bucketed : party.service.kad.routingTable.Bucketed
  inner : PrefixTree.InnerFull KBucket.isFull party.service.kad.routingTable.tree
  self : party.service.kad.routingTable.localInfo = setup.info i
  address : party.service.address = setup.bind i
  config : party.service.config = setup.config i
  queued : ∀ m ∈ party.toGossip, m.2.head = .gossip
  cached : ∀ id msg stamp, party.service.cache.lookup id = some (msg, stamp) → msg.head = .gossip

namespace System

/-! ## The network underneath -/

def Act.network? : Act ν → Option (Network.Event ν)
  | .network event => some event
  | _ => none

/-- The events of the network a run goes through. -/
def netEvents (acts : List (Act ν)) : List (Network.Event ν) := acts.filterMap Act.network?

/-- What a service sends, as submissions. -/
def appOf : GossipSend → Option (SocketAddr × AppMessage)
  | .toTransport dst message =>
    if h : message.head ≠ .ack then some (dst, ⟨message, h⟩) else none
  | _ => none

omit [DecidableEq ν] in
theorem netEvents_actOf (i : ν) (out : List GossipSend) :
    netEvents (out.filterMap (actOf i)) =
      (out.filterMap appOf).map fun m => .submit i m.1 m.2 := by
  rw [netEvents, List.filterMap_filterMap, List.map_filterMap]
  congr 1
  funext o
  cases o with
  | toTransport dst message =>
    by_cases h : message.head ≠ .ack
    · simp [actOf, appOf, h, Act.network?]
    · simp [actOf, appOf, h]
  | toApp time message => rfl
  | tx message => rfl

/-- **What a service sends** is queued as if it was submitted. -/
theorem run_serve (s : Network ν P.wire) (i : ν) {out : List GossipSend}
    (hheads : ∀ dst message, .toTransport dst message ∈ out → message.head ≠ .ack) : ∃ log,
    (Network.chronicle P.wire P.text).run s (netEvents (out.filterMap (actOf i))) =
      some (s.queue i (out.filterMap toTransportOf), log) := by
  have hqueue : (out.filterMap appOf).map (fun m => (m.1, m.2.1)) =
      out.filterMap toTransportOf := by
    rw [List.map_filterMap]
    apply List.filterMap_congr
    intro o ho
    cases o with
    | toTransport dst message =>
      simp [appOf, toTransportOf, hheads dst message ho]
    | toApp time message => rfl
    | tx message => rfl
  rw [netEvents_actOf, ← hqueue]
  exact Network.run_submits s i (out.filterMap appOf)

/-- All parties are as they were set up. -/
def AsSetUp (setup : Setup ν) (s : System ν P.wire M) : Prop :=
  ∀ i, (s.parties i).AsSetUp setup i

omit [DecidableEq ν] in
theorem asSetUp_new (setup : Setup ν) : (new P setup : System ν P.wire M).AsSetUp setup := by
  intro i
  constructor
  · exact RoutingTable.bucketed_new _ _
  · exact RoutingTable.innerFull_new _ _
  · rfl
  · rfl
  · rfl
  · intro m hm
    cases hm
  · intro id msg stamp hlookup
    cases hlookup

omit [LinkedHashMap PeerId PeerInfo M] in
/-- What holds of every party still does when one is replaced by another of which it holds. -/
theorem forall_setParty {Q : ν → Party M → Prop} {s : System ν P.wire M}
    (h : ∀ j, Q j (s.parties j)) {i : ν} {party : Party M} (hi : Q i party) (j : ν) :
    Q j ((s.setParty i party).parties j) := by
  rw [parties_setParty]
  split
  · next heq =>
    subst heq
    exact hi
  · exact h j

/-! ## What a handler routes -/

/-- **What a handler routes** are messages it passes on. -/
theorem mem_sendsOf {s s' : Network ν P.wire} {i : ν} {k : Nat} {rest : List UInt8}
    {src : SocketAddr} {log : Network.Log ν}
    (hstep : (Network.chronicle P.wire P.text).step s (.receive i k rest src) = some (s', log))
    {o : HandlerSend} (ho : o ∈ sendsOf P s i k rest src) :
    (∃ dst message, o = .om dst message) ∨
    ∃ d ∈ Network.handed i log, o ∈ MessageHandler.handleMessage P.wire d.message src := by
  unfold sendsOf at ho
  split at ho
  · cases ho
  · next x hx =>
    cases hrecv : (s.nodes i).handler.recvMsg P.wire P.text (s.nodes i).addr (x.bytes ++ rest)
        x.bytes.length src with
    | none =>
      simp only [hrecv] at ho
      cases ho
    | some r =>
      simp only [hrecv, Option.map_some, Option.getD_some] at ho
      rcases Network.recvMsg_routes hrecv ho with hom | ⟨packet, h₁, message, hpacket, hins, ho⟩
      · exact Or.inl hom
      · refine Or.inr ⟨⟨packet, message, src⟩, ?_, ho⟩
        obtain ⟨out, -, rfl⟩ := Machine.annotate_step_eq_some.mp hstep
        rw [Network.mem_handed]
        apply List.mem_append_right
        simp [Network.notes, hx, hpacket, hins]

omit [DecidableEq ν] in
/-- A gossip message is routed to the gossip service. -/
theorem gossip_of_handleMessage {W : Wire} {message : Message} {src : SocketAddr} {o : HandlerSend}
    (ho : o ∈ MessageHandler.handleMessage W message src) {m : SocketAddr × Message}
    (hof : gossipOf o = some m) : message.head = .gossip ∧ m = (src, message) := by
  unfold MessageHandler.handleMessage at ho
  cases hhead : message.head with
  | request =>
    simp only [hhead] at ho
    split at ho
    · cases List.mem_singleton.mp ho
      cases hof
    · cases ho
  | response =>
    simp only [hhead] at ho
    split at ho
    · cases List.mem_singleton.mp ho
      cases hof
    · cases ho
  | ack =>
    simp only [hhead] at ho
    split at ho
    · cases List.mem_singleton.mp ho
      cases hof
    · cases ho
  | gossip =>
    simp only [hhead] at ho
    cases List.mem_singleton.mp ho
    cases hof
    exact ⟨rfl, rfl⟩

/-- A message of peer discovery is routed to the Kademlia instance, as it reads. -/
theorem kad_of_handleMessage {W : Wire} {message : Message} {src : SocketAddr} {o : HandlerSend}
    (ho : o ∈ MessageHandler.handleMessage W message src) {m : SocketAddr × KadMessage}
    (hof : kadOf o = some m) :
    Kademlia.Discovers message ∧ W.kad.fromBytes message.msg = some m.2 := by
  unfold MessageHandler.handleMessage at ho
  cases hhead : message.head with
  | request =>
    simp only [hhead] at ho
    split at ho
    · next msg hmsg =>
      cases List.mem_singleton.mp ho
      cases hof
      exact ⟨Or.inl hhead, hmsg⟩
    · cases ho
  | response =>
    simp only [hhead] at ho
    split at ho
    · next msg hmsg =>
      cases List.mem_singleton.mp ho
      cases hof
      exact ⟨Or.inr hhead, hmsg⟩
    · cases ho
  | ack =>
    simp only [hhead] at ho
    split at ho
    · cases List.mem_singleton.mp ho
      cases hof
    · cases ho
  | gossip =>
    simp only [hhead] at ho
    cases List.mem_singleton.mp ho
    cases hof

theorem gossip_of_sends {s s' : Network ν P.wire} {i : ν} {k : Nat} {rest : List UInt8}
    {src : SocketAddr} {log : Network.Log ν}
    (hstep : (Network.chronicle P.wire P.text).step s (.receive i k rest src) = some (s', log))
    {m : SocketAddr × Message} (hm : m ∈ (sendsOf P s i k rest src).filterMap gossipOf) :
    m.2.head = .gossip ∧ ∃ d ∈ Network.handed i log, d.message = m.2 := by
  obtain ⟨o, ho, hof⟩ := List.mem_filterMap.mp hm
  rcases mem_sendsOf hstep ho with ⟨dst, message, rfl⟩ | ⟨d, hd, ho⟩
  · cases hof
  · obtain ⟨hhead, rfl⟩ := gossip_of_handleMessage ho hof
    exact ⟨hhead, d, hd, rfl⟩

theorem kad_of_sends {s s' : Network ν P.wire} {i : ν} {k : Nat} {rest : List UInt8}
    {src : SocketAddr} {log : Network.Log ν}
    (hstep : (Network.chronicle P.wire P.text).step s (.receive i k rest src) = some (s', log))
    {m : SocketAddr × KadMessage} (hm : m ∈ (sendsOf P s i k rest src).filterMap kadOf) :
    ∃ d ∈ Network.handed i log, Kademlia.Discovers d.message ∧
      P.wire.kad.fromBytes d.message.msg = some m.2 := by
  obtain ⟨o, ho, hof⟩ := List.mem_filterMap.mp hm
  rcases mem_sendsOf hstep ho with ⟨dst, message, rfl⟩ | ⟨d, hd, ho⟩
  · cases hof
  · obtain ⟨hhead, hkad⟩ := kad_of_handleMessage ho hof
    exact ⟨d, hd, hhead, hkad⟩

/-! ## Steps and runs -/

/-- What a Kademlia instance sends is not acks. -/
theorem heads_of_discovers {out : List Outgoing}
    (h : ∀ o ∈ out, Kademlia.Discovers o.message) {dst : SocketAddr} {message : Message}
    (hmem : .toTransport dst message ∈ out.map fun o => GossipSend.toTransport o.dst o.message) :
    message.head ≠ .ack := by
  obtain ⟨o, ho, heq⟩ := List.mem_map.mp hmem
  cases heq
  exact (h o ho).ne_ack

variable {setup : Setup ν}

omit [DecidableEq ν] in
/-- What a Kademlia instance does leaves a party as it was set up. -/
theorem asSetUp_kad {i : ν} {party : Party M} (h : party.AsSetUp setup i) {kad : Kademlia M}
    {out : List Outgoing} (heffects : Kademlia.Effects P.kad party.service.kad kad out)
    (toKad : List (SocketAddr × KadMessage)) :
    Party.AsSetUp setup i { party with toKad, service := { party.service with kad } } := by
  obtain ⟨hbucketed, hself⟩ := heffects.bucketed h.bucketed
  have hinner := heffects.innerFull h.bucketed h.inner
  exact ⟨hbucketed, hinner, hself.trans h.self, h.address, h.config, h.queued, h.cached⟩

/-- **Step.** What a step does, it does in the network, and the parties stay as they were set up. -/
theorem step_simulates (hK : ∀ i, P.kad.Faithful (setup.info i)) {s s' : System ν P.wire M}
    (h : s.AsSetUp setup) {event : Event ν} {acts : List (Act ν)}
    (hstep : (machine P).step s event = some (s', acts)) :
    s'.AsSetUp setup ∧ ∃ log, (Network.chronicle P.wire P.text).run s.network (netEvents acts) =
      some (s'.network, log) := by
  cases step_cases hstep with
  | idle => exact ⟨h, [], rfl⟩
  | @bootstrap i addr kad out hboot =>
    refine ⟨forall_setParty h (asSetUp_kad (h i) (.bootstrap hboot) _), run_serve _ _ ?_⟩
    intro dst message hmem
    exact heads_of_discovers (Kademlia.discovers_bootstrap hboot) hmem
  | @addPeer i bytes kad hbytes hadd =>
    exact ⟨forall_setParty h (asSetUp_kad (P := P) (h i) (.addPeer hadd) _), [], rfl⟩
  | @say i id data msg hmsg =>
    refine ⟨forall_setParty h ?_, [], rfl⟩
    obtain ⟨hbucketed, hinner, hself, haddress, hconfig, hqueued, hcached⟩ := h i
    refine ⟨hbucketed, hinner, hself, haddress, hconfig, fun m hm => ?_, hcached⟩
    rcases List.mem_append.mp hm with hold | hnew
    · exact hqueued m hold
    · cases List.mem_singleton.mp hnew
      rfl
  | @kadRecv i src message toKad kad out hqueue hhandle =>
    refine ⟨forall_setParty h (asSetUp_kad (h i) (Kademlia.handleMessage_effects hhandle) toKad),
      run_serve _ _ ?_⟩
    intro dst m hmem
    exact heads_of_discovers (Kademlia.discovers_handleMessage (hK i) hhandle) hmem
  | @gossipRecv i time now src msg toGossip service out hqueue hrecv =>
    obtain ⟨hkad, hrelays, hcache⟩ := GossipService.recv_relays hrecv
    have hsame := (GossipService.recv_cases hrecv).1
    have hhead : msg.head = .gossip := (h i).queued (src, msg) (hqueue ▸ List.mem_cons_self)
    refine ⟨forall_setParty h ?_, run_serve _ _ fun dst m hmem => ?_⟩
    · obtain ⟨hbucketed, hinner, hself, haddress, hconfig, hqueued, hcached⟩ := h i
      refine ⟨hkad ▸ hbucketed, hkad ▸ hinner, hkad ▸ hself, hsame.address.trans haddress,
        hsame.config.trans hconfig, fun m hm => hqueued m ?_, fun id m stamp hlookup => ?_⟩
      · rw [hqueue]
        exact List.mem_cons_of_mem _ hm
      · rcases hcache id m stamp hlookup with hold | rfl
        · exact hcached id m stamp hold
        · exact hhead
    · obtain ⟨rfl, -⟩ := hrelays dst m hmem
      rw [hhead]
      exact Header.noConfusion
  | @gossip i now beat service out hbeat =>
    obtain ⟨hkad, hrelays, hcache⟩ := GossipService.gossip_relays hbeat
    have hsame := (GossipService.gossip_frame hbeat).1
    refine ⟨forall_setParty h ?_, run_serve _ _ fun dst m hmem => ?_⟩
    · obtain ⟨hbucketed, hinner, hself, haddress, hconfig, hqueued, hcached⟩ := h i
      exact ⟨hkad ▸ hbucketed, hkad ▸ hinner, hkad ▸ hself, hsame.address.trans haddress,
        hsame.config.trans hconfig, hqueued,
        fun id m stamp hlookup => hcached id m stamp (hcache id m stamp hlookup)⟩
    · obtain ⟨⟨id, stamp, hlookup⟩, -⟩ := hrelays dst m hmem
      rw [(h i).cached id m stamp hlookup]
      exact Header.noConfusion
  | @transport _ netEvent network reports htransport hnet =>
    have hone := (Network.machine P.wire P.text).run_singleton_eq_some.mpr hnet
    exact ⟨h, Machine.exists_annotate_of_run _ hone⟩
  | @receive i k rest src network reports hnet =>
    obtain ⟨log, hrun⟩ := Machine.exists_annotate_of_run (Network.notes P.wire P.text)
      ((Network.machine P.wire P.text).run_singleton_eq_some.mpr hnet)
    refine ⟨forall_setParty h ?_, log, hrun⟩
    obtain ⟨hbucketed, hinner, hself, haddress, hconfig, hqueued, hcached⟩ := h i
    refine ⟨hbucketed, hinner, hself, haddress, hconfig, fun m hm => ?_, hcached⟩
    rcases List.mem_append.mp hm with hold | hnew
    · exact hqueued m hold
    · have hstep' := (Network.chronicle P.wire P.text).run_singleton_eq_some.mp hrun
      exact (gossip_of_sends hstep' hnew).1

/-- **Whole nodes form a network**: a run of the system is one of the network, with what the
services send as submissions. -/
theorem network_of_run (hK : ∀ i, P.kad.Faithful (setup.info i)) {events : List (Event ν)}
    {s : System ν P.wire M} {acts : List (Act ν)}
    (hrun : (machine P).run (new P setup) events = some (s, acts)) :
    s.AsSetUp setup ∧ ∃ log, (Network.chronicle P.wire P.text).run
      (Network.new P.wire fun i => (setup.info i).address) (netEvents acts) =
        some (s.network, log) :=
  (machine P).simulate System.network (P := fun s => s.AsSetUp setup)
    (fun _ _ _ _ h hstep => step_simulates hK h hstep) (asSetUp_new setup) hrun

/-! ## Packets -/

def Event.packetsId? : Event ν → Option InnerKey
  | .outgoingMsg _ packetsId => some packetsId
  | _ => none

/-- Every message is split under an id of its own. -/
def FreshIds (events : List (Event ν)) : Prop := (events.filterMap Event.packetsId?).Nodup

omit [DecidableEq ν] in
theorem FreshIds.of_concat {events : List (Event ν)} {event : Event ν}
    (h : FreshIds (events ++ [event])) : FreshIds events := by
  rw [FreshIds, List.filterMap_append] at h
  exact h.of_append_left

/-- Messages are split in the network under the ids they are split under in the system. -/
theorem packetsIds_step {s s' : System ν P.wire M} {event : Event ν} {acts : List (Act ν)}
    (hstep : (machine P).step s event = some (s', acts)) :
    (netEvents acts).filterMap Network.Event.packetsId? = event.packetsId?.toList := by
  -- what a service does splits no message
  have hserve : ∀ (i : ν) (out : List GossipSend),
      (netEvents (out.filterMap (actOf i))).filterMap Network.Event.packetsId? = [] := by
    intro i out
    rw [netEvents_actOf, List.filterMap_map]
    exact List.filterMap_eq_nil_iff.mpr fun _ _ => rfl
  cases step_cases hstep with
  | idle =>
    cases event with
    | outgoingMsg i packetsId =>
      obtain ⟨network, reports, -, -, hacts⟩ := stepNetwork_eq_some hstep
      cases hacts
    | _ => rfl
  | bootstrap => exact hserve _ _
  | addPeer => rfl
  | say => rfl
  | kadRecv => exact hserve _ _
  | gossipRecv => exact hserve _ _
  | gossip => exact hserve _ _
  | @transport _ netEvent network reports htransport hnet =>
    cases event with
    | outgoingMsg i packetsId =>
      cases htransport
      rfl
    | incomingAck i =>
      cases htransport
      rfl
    | maintain i =>
      cases htransport
      rfl
    | _ => cases htransport
  | receive => rfl

theorem freshIds_netEvents {events : List (Event ν)} {s t : System ν P.wire M}
    {acts : List (Act ν)} (hrun : (machine P).run s events = some (t, acts)) :
    (netEvents acts).filterMap Network.Event.packetsId? = events.filterMap Event.packetsId? := by
  refine (machine P).run_history (A := fun _ => True) (P := fun _ events acts =>
    (netEvents acts).filterMap Network.Event.packetsId? = events.filterMap Event.packetsId?)
    ?_ rfl (fun _ _ => trivial) hrun
  intro s events acts event s' acts' hprev _ hstep
  rw [netEvents, List.filterMap_append, List.filterMap_append, ← netEvents, ← netEvents, hprev,
    packetsIds_step hstep, List.filterMap_append]
  cases hid : event.packetsId? <;> simp [hid]

/-- The network a run of the system goes through splits every message under an id of its own. -/
theorem FreshIds.network {events : List (Event ν)} (h : FreshIds events) {s t : System ν P.wire M}
    {acts : List (Act ν)} (hrun : (machine P).run s events = some (t, acts)) :
    Network.FreshIds (netEvents acts) := by
  rw [Network.FreshIds, freshIds_netEvents hrun]
  exact h

/-- A service has sent the message to the address. -/
def Submitted (acts : List (Act ν)) (dst : SocketAddr) (message : Message) : Prop :=
  ∃ j h, .network (.submit j dst ⟨message, h⟩) ∈ acts

omit [DecidableEq ν] in
theorem Submitted.append {acts : List (Act ν)} {dst : SocketAddr} {message : Message}
    (h : Submitted acts dst message) (acts' : List (Act ν)) :
    Submitted (acts ++ acts') dst message := by
  obtain ⟨j, hhead, hmem⟩ := h
  exact ⟨j, hhead, List.mem_append_left _ hmem⟩

omit [DecidableEq ν] in
/-- What is submitted in a step of a service is what it sends. -/
theorem mem_of_submitted {i : ν} {out : List GossipSend} {dst : SocketAddr} {message : Message}
    (h : Submitted (out.filterMap (actOf i)) dst message) : .toTransport dst message ∈ out := by
  obtain ⟨j, hhead, hmem⟩ := h
  obtain ⟨o, ho, hof⟩ := List.mem_filterMap.mp hmem
  cases o with
  | toTransport dst' message' =>
    rw [actOf] at hof
    split at hof
    · cases hof
      exact ho
    · cases hof
  | toApp => cases hof
  | tx => cases hof

omit [DecidableEq ν] in
theorem submitted_append {acts acts' : List (Act ν)} {dst : SocketAddr} {message : Message}
    (h : Submitted (acts ++ acts') dst message) :
    Submitted acts dst message ∨ Submitted acts' dst message := by
  obtain ⟨j, hhead, hmem⟩ := h
  rcases List.mem_append.mp hmem with hold | hnew
  · exact Or.inl ⟨j, hhead, hold⟩
  · exact Or.inr ⟨j, hhead, hnew⟩

/-- **What a handler routes** to the services of its node, some service has sent. -/
theorem routed_submitted (hK : ∀ i, P.kad.Faithful (setup.info i)) (hpacket : P.wire.packet.Lawful)
    (hmessage : P.wire.message.Lawful) {events : List (Event ν)} {i : ν} {k : Nat}
    {rest : List UInt8} {src : SocketAddr} (hfresh : FreshIds (events ++ [.receive i k rest src]))
    {s : System ν P.wire M} {acts : List (Act ν)}
    (hbefore : (machine P).run (new P setup) events = some (s, acts)) {network : Network ν P.wire}
    {reports : List (Network.Report ν)}
    (hnet : (Network.machine P.wire P.text).step s.network (.receive i k rest src) =
      some (network, reports)) :
    (∀ m ∈ (sendsOf P s.network i k rest src).filterMap gossipOf,
      m.2.head = .gossip ∧ ∃ dst, Submitted acts dst m.2) ∧
    ∀ m ∈ (sendsOf P s.network i k rest src).filterMap kadOf, ∃ dst message,
      Submitted acts dst message ∧ Kademlia.Discovers message ∧
        P.wire.kad.fromBytes message.msg = some m.2 := by
  obtain ⟨-, log, hrun⟩ := network_of_run hK hbefore
  obtain ⟨log', hlast⟩ := Machine.exists_annotate_of_run (Network.notes P.wire P.text)
    ((Network.machine P.wire P.text).run_singleton_eq_some.mpr hnet)
  have hstep := (Network.chronicle P.wire P.text).run_singleton_eq_some.mp hlast
  have hafter := (Network.chronicle P.wire P.text).run_concat_eq_some.mpr
    ⟨s.network, log, log', hrun, hstep, rfl⟩
  have hids : Network.FreshIds (netEvents acts ++ [.receive i k rest src]) := by
    have hnone : [Network.Event.receive i k rest src].filterMap Network.Event.packetsId? = [] := rfl
    rw [Network.FreshIds, List.filterMap_append, hnone, List.append_nil]
    exact hfresh.of_concat.network hbefore
  -- what is passed on in this step was submitted before it
  have hsubmitted : ∀ d ∈ Network.handed i log', d.message.head ≠ .ack →
      ∃ dst, Submitted acts dst d.message := by
    intro d hd hhead
    have hmem : d ∈ Network.handed i (log ++ log') := by
      rw [Network.handed, List.filterMap_append]
      exact List.mem_append_right _ hd
    obtain ⟨j, dst, o, -, -, hfrom⟩ := Network.handed_of_run hpacket hmessage hids hafter hmem
    rcases List.mem_append.mp (hfrom hhead) with hold | hnew
    · obtain ⟨act, hact, hof⟩ := List.mem_filterMap.mp hold
      cases act with
      | network event =>
        cases hof
        exact ⟨dst, j, hhead, hact⟩
      | toApp => cases hof
      | tx => cases hof
    · cases List.mem_singleton.mp hnew
  constructor
  · intro m hm
    obtain ⟨hhead, d, hd, heq⟩ := gossip_of_sends hstep hm
    refine ⟨hhead, ?_⟩
    rw [← heq]
    apply hsubmitted d hd
    rw [heq, hhead]
    exact Header.noConfusion
  · intro m hm
    obtain ⟨d, hd, hdiscovers, hkad⟩ := kad_of_sends hstep hm
    obtain ⟨dst, hdst⟩ := hsubmitted d hd hdiscovers.ne_ack
    exact ⟨dst, d.message, hdst, hdiscovers, hkad⟩

end System

end Udp2p
