import Udp2p.System.Closed

/-!
# Does anyone hear what nobody said?

No: what a gossip service hands to its application, the application of some node has said, under
that id and with that data, and the sender is the address the node is bound to. Nothing on the way
makes up a message or changes one, neither the packets nor the caches, however often it is relayed.

* `Said`, `Rumors` — what is said, and where it may be.
* `Rumors.step`, `rumors_are_said` — a step, and a run.
-/

namespace Udp2p

variable {ν M : Type} [DecidableEq ν] [LinkedHashMap PeerId PeerInfo M] {P : Platform}
  {setup : Setup ν}

/-- What the nodes say is read as it is written. -/
def Platform.Hears (P : Platform) (setup : Setup ν) : Prop :=
  ∀ i id data bytes, P.gossip.asBytes ⟨id, data, setup.bind i⟩ = some bytes →
    P.gossip.fromBytes bytes = some ⟨id, data, setup.bind i⟩

namespace System

/-- Some node has said what the gossip message tells. -/
def Spoken (setup : Setup ν) (events : List (Event ν)) (message : GossipMessage) : Prop :=
  ∃ i, .say i message.id message.data ∈ events ∧ message.sender = setup.bind i

/-- The message is written for what some node has said. -/
def Said (P : Platform) (setup : Setup ν) (events : List (Event ν)) (msg : Message) : Prop :=
  ∃ message, Spoken setup events message ∧ P.gossip.asBytes message = some msg.msg

omit [DecidableEq ν] in
theorem Said.append {events : List (Event ν)} {msg : Message} (h : Said P setup events msg)
    (events' : List (Event ν)) : Said P setup (events ++ events') msg := by
  obtain ⟨message, ⟨i, hmem, hsender⟩, hbytes⟩ := h
  exact ⟨message, ⟨i, List.mem_append_left _ hmem, hsender⟩, hbytes⟩

omit [DecidableEq ν] in
theorem Spoken.append {events : List (Event ν)} {message : GossipMessage}
    (h : Spoken setup events message) (events' : List (Event ν)) :
    Spoken setup (events ++ events') message := by
  obtain ⟨i, hmem, hsender⟩ := h
  exact ⟨i, List.mem_append_left _ hmem, hsender⟩

omit [DecidableEq ν] in
/-- What is read of a message written for what some node has said is that. -/
theorem Said.spoken (hP : P.Hears setup) {events : List (Event ν)} {msg : Message}
    (h : Said P setup events msg) {message : GossipMessage}
    (hread : P.gossip.fromBytes msg.msg = some message) : Spoken setup events message := by
  obtain ⟨⟨id, data, sender⟩, ⟨i, hmem, hsender⟩, hbytes⟩ := h
  cases hsender
  rw [hP i id data _ hbytes, Option.some.injEq] at hread
  subst hread
  exact ⟨i, hmem, rfl⟩

/-- A message handed to an application. -/
def Act.message? : Act ν → Option GossipMessage
  | .toApp _ _ message => some message
  | .tx _ message => some message
  | .network _ => none

end System

/-- The queue and the cache of a party hold what has been said. -/
structure Party.Tells (P : Platform) (setup : Setup ν) (events : List (System.Event ν))
    (party : Party M) : Prop where
  queued : ∀ m ∈ party.toGossip, System.Said P setup events m.2
  cached : ∀ id msg stamp, party.service.cache.lookup id = some (msg, stamp) →
    System.Said P setup events msg

omit [DecidableEq ν] [LinkedHashMap PeerId PeerInfo M] in
theorem Party.Tells.append {events : List (System.Event ν)} {party : Party M}
    (h : party.Tells P setup events) (events' : List (System.Event ν)) :
    party.Tells P setup (events ++ events') :=
  ⟨fun m hm => (h.queued m hm).append events',
    fun id msg stamp hlookup => (h.cached id msg stamp hlookup).append events'⟩

namespace System

/-- What the queues and caches hold, what the services send, and what the applications are handed
has been said. -/
structure Rumors (setup : Setup ν) (s : System ν P.wire M) (events : List (Event ν))
    (acts : List (Act ν)) : Prop where
  parties : ∀ i, (s.parties i).Tells P setup events
  sent : ∀ dst msg, Submitted acts dst msg → msg.head = .gossip → Said P setup events msg
  heard : ∀ act ∈ acts, ∀ message, act.message? = some message → Spoken setup events message

omit [DecidableEq ν] in
theorem rumors_new (setup : Setup ν) : Rumors setup (new P setup : System ν P.wire M) [] [] := by
  refine ⟨fun i => ⟨fun m hm => ?_, fun id msg stamp hlookup => ?_⟩, fun dst msg hs => ?_, ?_⟩
  · cases hm
  · cases hlookup
  · exact absurd hs not_submitted_nil
  · exact fun act hact => nomatch hact

omit [DecidableEq ν] [LinkedHashMap PeerId PeerInfo M] in
/-- A step that sends and hands over what has been said, and leaves such in the queues and
caches. -/
theorem Rumors.extend {s s' : System ν P.wire M} {events : List (Event ν)} {acts : List (Act ν)}
    (h : Rumors setup s events acts) {event : Event ν} {acts' : List (Act ν)}
    (hparties : ∀ i, (s'.parties i).Tells P setup (events ++ [event]))
    (hsent : ∀ dst msg, Submitted acts' dst msg → msg.head = .gossip →
      Said P setup (events ++ [event]) msg)
    (hheard : ∀ act ∈ acts', ∀ message, act.message? = some message →
      Spoken setup (events ++ [event]) message) :
    Rumors setup s' (events ++ [event]) (acts ++ acts') := by
  refine ⟨hparties, fun dst msg hs hhead => ?_, fun act hact message hmessage => ?_⟩
  · rcases submitted_append hs with hold | hnew
    · exact (h.sent dst msg hold hhead).append _
    · exact hsent dst msg hnew hhead
  · rcases List.mem_append.mp hact with hold | hnew
    · exact (h.heard act hold message hmessage).append _
    · exact hheard act hnew message hmessage

omit [DecidableEq ν] [LinkedHashMap PeerId PeerInfo M] in
/-- A step that does nothing but what no service is told of. -/
theorem Rumors.quiet {s s' : System ν P.wire M} {events : List (Event ν)} {acts : List (Act ν)}
    (h : Rumors setup s events acts) {event : Event ν} {acts' : List (Act ν)}
    (hparties : ∀ i, (s'.parties i).Tells P setup (events ++ [event]))
    (hsent : ∀ dst msg, ¬ Submitted acts' dst msg) (hheard : ∀ act ∈ acts', act.message? = none) :
    Rumors setup s' (events ++ [event]) (acts ++ acts') := by
  refine h.extend hparties (fun dst msg hs => absurd hs (hsent dst msg)) ?_
  intro act hact message hmessage
  rw [hheard act hact] at hmessage
  cases hmessage

omit [DecidableEq ν] in
/-- What is handed to an application in a step of a service is what the service hands over. -/
theorem handed_of_actOf {i : ν} {out : List GossipSend} {act : Act ν}
    (hact : act ∈ out.filterMap (actOf i)) {message : GossipMessage}
    (hmessage : act.message? = some message) :
    (∃ time, .toApp time message ∈ out) ∨ .tx message ∈ out := by
  obtain ⟨o, ho, hof⟩ := List.mem_filterMap.mp hact
  cases o with
  | toTransport dst msg =>
    rw [actOf] at hof
    split at hof
    · cases hof
      cases hmessage
    · cases hof
  | toApp time message' =>
    cases hof
    cases hmessage
    exact Or.inl ⟨time, ho⟩
  | tx message' =>
    cases hof
    cases hmessage
    exact Or.inr ho

omit [DecidableEq ν] in
theorem message_none_of_published {i : ν} {out : List GossipSend}
    (h : GossipService.Published out) : ∀ act ∈ out.filterMap (actOf i), act.message? = none := by
  intro act hact
  cases hmessage : act.message? with
  | none => rfl
  | some message =>
    rcases handed_of_actOf hact hmessage with ⟨time, hmem⟩ | hmem
    · obtain ⟨dst, msg, heq⟩ := h _ hmem
      cases heq
    · obtain ⟨dst, msg, heq⟩ := h _ hmem
      cases heq

omit [LinkedHashMap PeerId PeerInfo M] in
/-- What a Kademlia instance does. -/
theorem Rumors.kad {s : System ν P.wire M} {events : List (Event ν)} {acts : List (Act ν)}
    (h : Rumors setup s events acts) {event : Event ν} {i : ν} (kad : Kademlia M)
    (toKad : List (SocketAddr × KadMessage)) {out : List Outgoing}
    (hout : ∀ o ∈ out, Kademlia.Discovers o.message) :
    Rumors setup
      (s.serve i { s.parties i with toKad, service := { (s.parties i).service with kad } }
        (out.map fun o => .toTransport o.dst o.message)).1 (events ++ [event])
      (acts ++ (s.serve i { s.parties i with toKad, service := { (s.parties i).service with kad } }
        (out.map fun o => .toTransport o.dst o.message)).2) := by
  have htells := fun j => (h.parties j).append [event]
  refine h.extend (forall_setParty htells ⟨(htells i).queued, (htells i).cached⟩) ?_ ?_
  · intro dst msg hs hhead
    obtain ⟨o, ho, heq⟩ := List.mem_map.mp (mem_of_submitted hs)
    cases heq
    exact absurd hhead (hout o ho).ne_gossip
  · intro act hact message hmessage
    rcases handed_of_actOf hact hmessage with ⟨time, hmem⟩ | hmem
    · obtain ⟨o, -, heq⟩ := List.mem_map.mp hmem
      cases heq
    · obtain ⟨o, -, heq⟩ := List.mem_map.mp hmem
      cases heq

/-- **Step.** -/
theorem Rumors.step (hK : ∀ i, P.kad.Faithful (setup.info i)) (hP : P.Hears setup)
    {s s' : System ν P.wire M} {events : List (Event ν)} {acts : List (Act ν)}
    (h : Rumors setup s events acts) (hset : s.AsSetUp setup) {event : Event ν}
    {acts' : List (Act ν)}
    (hrouted : ∀ i k rest src, event = .receive i k rest src →
      ∀ m ∈ (sendsOf P s.network i k rest src).filterMap gossipOf,
        m.2.head = .gossip ∧ ∃ dst, Submitted acts dst m.2)
    (hstep : (machine P).step s event = some (s', acts')) :
    Rumors setup s' (events ++ [event]) (acts ++ acts') := by
  have htells := fun j => (h.parties j).append [event]
  cases step_cases hstep with
  | idle =>
    exact h.quiet htells (fun _ _ => not_submitted_nil) fun act hact => nomatch hact
  | @bootstrap i addr kad out hboot =>
    exact h.kad kad (s.parties i).toKad (Kademlia.discovers_bootstrap hboot)
  | @addPeer i bytes kad hbytes hadd =>
    exact h.quiet (forall_setParty htells ⟨(htells i).queued, (htells i).cached⟩)
      (fun _ _ => not_submitted_nil) fun act hact => nomatch hact
  | @say i id data msg hmsg =>
    refine h.quiet (forall_setParty htells ⟨fun m hm => ?_, (htells i).cached⟩)
      (fun _ _ => not_submitted_nil) fun act hact => nomatch hact
    rcases List.mem_append.mp hm with hold | hnew
    · exact (htells i).queued m hold
    · cases List.mem_singleton.mp hnew
      refine ⟨_, ⟨i, List.mem_append_right _ (List.mem_singleton_self _), ?_⟩, hmsg⟩
      exact (hset i).address
  | @kadRecv i src message toKad kad out hqueue hhandle =>
    exact h.kad kad toKad (Kademlia.discovers_handleMessage (hK i) hhandle)
  | @gossipRecv i time now src msg toGossip service out hqueue hrecv =>
    have hsaid : Said P setup (events ++ [.gossipRecv i time now]) msg :=
      (htells i).queued (src, msg) (hqueue ▸ List.mem_cons_self)
    obtain ⟨-, hrelays, hcache⟩ := GossipService.recv_relays hrecv
    refine h.extend (forall_setParty htells ⟨fun m hm => ?_, fun id m stamp hlookup => ?_⟩) ?_ ?_
    · exact (htells i).queued m (hqueue ▸ List.mem_cons_of_mem _ hm)
    · rcases hcache id m stamp hlookup with hold | rfl
      · exact (htells i).cached id m stamp hold
      · exact hsaid
    · intro dst m hs _
      obtain ⟨rfl, -⟩ := hrelays dst m (mem_of_submitted hs)
      exact hsaid
    · -- whatever is handed over is what the message reads
      intro act hact message hmessage
      obtain ⟨-, ⟨-, rfl, -⟩ | ⟨read, hread, -, -, ⟨-, rfl⟩ | ⟨-, sends, hpublished, rfl⟩⟩⟩ :=
        GossipService.recv_cases hrecv
      · cases hact
      · cases hact
      · have hsame : message = read := by
          rcases handed_of_actOf hact hmessage with ⟨t, hmem⟩ | hmem
          · simp only [List.cons_append, List.mem_cons, List.mem_append] at hmem
            grind [GossipService.Published]
          · simp only [List.cons_append, List.mem_cons, List.mem_append] at hmem
            grind [GossipService.Published]
        rw [hsame]
        exact hsaid.spoken hP hread
  | @gossip i now beat service out hbeat =>
    obtain ⟨-, hrelays, hcache⟩ := GossipService.gossip_relays hbeat
    refine h.extend (forall_setParty htells ⟨(htells i).queued, fun id m stamp hlookup => ?_⟩) ?_ ?_
    · exact (htells i).cached id m stamp (hcache id m stamp hlookup)
    · intro dst m hs _
      obtain ⟨⟨id, stamp, hlookup⟩, -⟩ := hrelays dst m (mem_of_submitted hs)
      exact (htells i).cached id m stamp hlookup
    · intro act hact message hmessage
      rw [message_none_of_published (GossipService.gossip_frame hbeat).2.1 act hact] at hmessage
      cases hmessage
  | @transport _ netEvent network reports htransport hnet =>
    refine h.quiet htells (fun dst msg => not_submitted_network ?_) ?_
    · intro j d m heq
      subst heq
      cases event <;> cases htransport
    · intro act hact
      cases List.mem_singleton.mp hact
      rfl
  | @receive i k rest src network reports hnet =>
    refine h.quiet (forall_setParty htells ⟨fun m hm => ?_, (htells i).cached⟩)
      (fun dst msg => not_submitted_network ?_) ?_
    · rcases List.mem_append.mp hm with hold | hnew
      · exact (htells i).queued m hold
      · obtain ⟨hhead, dst, hs⟩ := hrouted i k rest src rfl m hnew
        exact (h.sent dst m.2 hs hhead).append _
    · intro j d m heq
      cases heq
    · intro act hact
      cases List.mem_singleton.mp hact
      rfl

/-- **Run.** -/
theorem rumors_of_run (hK : ∀ i, P.kad.Faithful (setup.info i)) (hP : P.Hears setup)
    (hpacket : P.wire.packet.Lawful) (hmessage : P.wire.message.Lawful) {events : List (Event ν)}
    (hfresh : FreshIds events) {s : System ν P.wire M} {acts : List (Act ν)}
    (hrun : (machine P).run (new P setup) events = some (s, acts)) :
    Rumors setup s events acts := by
  refine (machine P).run_history_reached
    (P := fun s events acts => FreshIds events → Rumors setup s events acts) ?_
    (fun _ => rumors_new setup) hrun hfresh
  intro s events acts event s' acts' hbefore hprev hstep hfresh
  refine (hprev hfresh.of_concat).step hK hP (network_of_run hK hbefore).1 ?_ hstep
  rintro i k rest src rfl
  obtain ⟨s₁, hnet, -⟩ := Option.bind_eq_some_iff.mp hstep
  obtain ⟨network, reports, hnet, -, -⟩ := stepNetwork_eq_some hnet
  exact (routed_submitted hK hpacket hmessage hfresh hbefore hnet).1

/-- **Rumors are said.** Whatever an application is handed, an application has said, under that id
and with that data, and the sender is the address of the node it runs on; and the gossip messages
that the services send are written for what was said. -/
theorem rumors_are_said (hK : ∀ i, P.kad.Faithful (setup.info i)) (hP : P.Hears setup)
    (hpacket : P.wire.packet.Lawful) (hmessage : P.wire.message.Lawful) {events : List (Event ν)}
    (hfresh : FreshIds events) {s : System ν P.wire M} {acts : List (Act ν)}
    (hrun : (machine P).run (new P setup) events = some (s, acts)) :
    (∀ i time message, .toApp i time message ∈ acts ∨ .tx i message ∈ acts →
      ∃ j, .say j message.id message.data ∈ events ∧ message.sender = setup.bind j) ∧
    ∀ dst msg, Submitted acts dst msg → msg.head = .gossip → Said P setup events msg := by
  have h := rumors_of_run hK hP hpacket hmessage hfresh hrun
  refine ⟨fun i time message hmem => ?_, h.sent⟩
  rcases hmem with happ | htx
  · exact h.heard _ happ message rfl
  · exact h.heard _ htx message rfl

open RoutingTable (ListedNodes)

theorem two_nodes_say_what_they_hear : ∃ (s : System Bool somePlatform.wire ListedNodes)
    (acts : List (Act Bool)),
    (machine somePlatform).run (new somePlatform someSetup) someEvents = some (s, acts) ∧
    (∀ i time message, .toApp i time message ∈ acts ∨ .tx i message ∈ acts →
      ∃ j, .say j message.id message.data ∈ someEvents ∧ message.sender = someSetup.bind j) ∧
    ∀ dst msg, Submitted acts dst msg → msg.head = .gossip →
      Said somePlatform someSetup someEvents msg := by
  obtain ⟨s, acts, hrun⟩ :=
    exists_run (M := ListedNodes) some_serves some_modest freshIds_someEvents fromV4_someEvents
  refine ⟨s, acts, hrun, rumors_are_said some_faithful ?_ Wire.json_reliable.packet
    Wire.json_reliable.message freshIds_someEvents hrun⟩
  exact fun i id data bytes => ByteRep.gossipJson_lawful _ bytes

end System

end Udp2p
