import Udp2p.System.Refinement

/-!
# Whom do the nodes know?

Each other, and nobody else: what a Kademlia instance learns it learns from messages, and these were
sent by other instances, of what they know. So the peers in the routing tables, and those the
messages of peer discovery speak of, are local peers of the nodes.

* `Vouches.step`, `vouches_of_run` — of the tables, the queues and the messages sent.
-/

namespace Udp2p

variable {ν M : Type} [DecidableEq ν] [LinkedHashMap PeerId PeerInfo M] {P : Platform}
  {setup : Setup ν}

/-- A party knows peers of the set only, and hears of no others. -/
structure Party.Within (P : Platform) (C : Set PeerInfo) (party : Party M) : Prop where
  knows : party.service.kad.Knows C
  queued : ∀ m ∈ party.toKad, (Kademlia.planOf P.kad m.2).About P.kad C

namespace System

/-- The local peers of the nodes. -/
def citizens (setup : Setup ν) : Set PeerInfo := Set.range setup.info

/-- The tables hold citizens, messages of peer discovery speak of citizens, and everything sent goes
to citizens, or to where a node bootstraps from. -/
structure Vouches (setup : Setup ν) (s : System ν P.wire M) (events : List (Event ν))
    (acts : List (Act ν)) : Prop where
  parties : ∀ i, (s.parties i).Within P (citizens setup)
  vouched : ∀ dst message, Submitted acts dst message → Kademlia.Discovers message →
    Kademlia.Vouched P.kad (citizens setup) message
  dst : ∀ dst message, Submitted acts dst message →
    (∃ j, dst = (setup.info j).address) ∨ ∃ j, .bootstrap j dst ∈ events

omit [DecidableEq ν] in
theorem vouches_new (setup : Setup ν) :
    Vouches setup (new P setup : System ν P.wire M) [] [] := by
  constructor
  · intro i
    have hself : setup.info i ∈ citizens setup := ⟨i, rfl⟩
    exact ⟨⟨RoutingTable.within_new hself _, hself⟩, fun m hm => nomatch hm⟩
  · intro dst message hsubmitted
    obtain ⟨j, h, hmem⟩ := hsubmitted
    cases hmem
  · intro dst message hsubmitted
    obtain ⟨j, h, hmem⟩ := hsubmitted
    cases hmem

omit [DecidableEq ν] in
/-- A step that sends what is vouched for, and leaves the parties knowing and hearing of citizens
only. -/
theorem Vouches.extend {s s' : System ν P.wire M} {events : List (Event ν)} {acts : List (Act ν)}
    (h : Vouches setup s events acts) {event : Event ν} {acts' : List (Act ν)}
    (hparties : ∀ i, (s'.parties i).Within P (citizens setup))
    (hvouched : ∀ dst message, Submitted acts' dst message → Kademlia.Discovers message →
      Kademlia.Vouched P.kad (citizens setup) message)
    (hdst : ∀ dst message, Submitted acts' dst message →
      (∃ j, dst = (setup.info j).address) ∨ ∃ j, event = .bootstrap j dst) :
    Vouches setup s' (events ++ [event]) (acts ++ acts') := by
  refine ⟨hparties, fun dst message hsubmitted => ?_, fun dst message hsubmitted => ?_⟩
  · rcases submitted_append hsubmitted with hold | hnew
    · exact h.vouched dst message hold
    · exact hvouched dst message hnew
  · rcases submitted_append hsubmitted with hold | hnew
    · refine (h.dst dst message hold).imp id ?_
      exact fun hboot => hboot.imp fun j hmem => List.mem_append_left _ hmem
    · refine (hdst dst message hnew).imp id ?_
      rintro ⟨j, rfl⟩
      exact ⟨j, List.mem_append_right _ (List.mem_singleton_self _)⟩

omit [DecidableEq ν] in
theorem not_submitted_nil {dst : SocketAddr} {message : Message} :
    ¬ Submitted ([] : List (Act ν)) dst message := by
  rintro ⟨j, h, hmem⟩
  cases hmem

omit [DecidableEq ν] in
/-- What a transport or a handler does submits nothing. -/
theorem not_submitted_network {event : Network.Event ν}
    (hevent : ∀ j dst message, event ≠ .submit j dst message) {dst : SocketAddr}
    {message : Message} : ¬ Submitted [.network event] dst message := by
  rintro ⟨j, h, hmem⟩
  cases List.mem_singleton.mp hmem
  exact hevent j dst _ rfl

/-- What a Kademlia instance does, with what it sends. -/
theorem Vouches.kad {s : System ν P.wire M} {events : List (Event ν)} {acts : List (Act ν)}
    (h : Vouches setup s events acts) {event : Event ν} {i : ν} {kad : Kademlia M}
    {toKad : List (SocketAddr × KadMessage)} (hsub : toKad ⊆ (s.parties i).toKad)
    {out : List Outgoing} (hknows : kad.Knows (citizens setup))
    (hout : ∀ o ∈ out, Kademlia.Vouched P.kad (citizens setup) o.message ∧
      ((∃ j, o.dst = (setup.info j).address) ∨ ∃ j, event = .bootstrap j o.dst)) :
    Vouches setup
      (s.serve i { s.parties i with toKad, service := { (s.parties i).service with kad } }
        (out.map fun o => .toTransport o.dst o.message)).1 (events ++ [event])
      (acts ++ (s.serve i { s.parties i with toKad, service := { (s.parties i).service with kad } }
        (out.map fun o => .toTransport o.dst o.message)).2) := by
  have hsent : ∀ dst message, Submitted ((out.map fun o =>
      GossipSend.toTransport o.dst o.message).filterMap (actOf i)) dst message →
      ∃ o ∈ out, o.dst = dst ∧ o.message = message := by
    intro dst message hsubmitted
    obtain ⟨o, ho, heq⟩ := List.mem_map.mp (mem_of_submitted hsubmitted)
    cases heq
    exact ⟨o, ho, rfl, rfl⟩
  apply h.extend
  · exact forall_setParty h.parties ⟨hknows, fun m hm => (h.parties i).queued m (hsub hm)⟩
  · intro dst message hsubmitted _
    obtain ⟨o, ho, -, rfl⟩ := hsent dst message hsubmitted
    exact (hout o ho).1
  · intro dst message hsubmitted
    obtain ⟨o, ho, rfl, -⟩ := hsent dst message hsubmitted
    exact (hout o ho).2

/-- What a gossip service does: it relays gossip messages to peers of its table. -/
theorem Vouches.gossip {s : System ν P.wire M} {events : List (Event ν)} {acts : List (Act ν)}
    (h : Vouches setup s events acts) {event : Event ν} {i : ν} {service : GossipService M}
    {toGossip : List (SocketAddr × Message)} {out : List GossipSend}
    (hkad : service.kad = (s.parties i).service.kad)
    (hrelays : (s.parties i).service.Relays (fun m => m.head = .gossip) out) :
    Vouches setup (s.serve i { s.parties i with toGossip, service } out).1 (events ++ [event])
      (acts ++ (s.serve i { s.parties i with toGossip, service } out).2) := by
  apply h.extend
  · exact forall_setParty h.parties ⟨hkad ▸ (h.parties i).knows, (h.parties i).queued⟩
  · intro dst message hsubmitted hdiscovers
    obtain ⟨hhead, -⟩ := hrelays dst message (mem_of_submitted hsubmitted)
    exact absurd hhead hdiscovers.ne_gossip
  · intro dst message hsubmitted
    obtain ⟨-, p, hp, rfl⟩ := hrelays dst message (mem_of_submitted hsubmitted)
    obtain ⟨j, rfl⟩ := (h.parties i).knows.table.mem_getAllPeers hp
    exact Or.inl ⟨j, rfl⟩

/-- **Step.** -/
theorem Vouches.step (hK : ∀ i, P.kad.Faithful (setup.info i)) (hC : P.kad.Keeps (citizens setup))
    {s s' : System ν P.wire M} {events : List (Event ν)} {acts : List (Act ν)}
    (h : Vouches setup s events acts) (hset : s.AsSetUp setup) {event : Event ν}
    {acts' : List (Act ν)}
    (hrouted : ∀ i k rest src, event = .receive i k rest src →
      ∀ m ∈ (sendsOf P s.network i k rest src).filterMap kadOf, ∃ dst message,
        Submitted acts dst message ∧ Kademlia.Discovers message ∧
          P.wire.kad.fromBytes message.msg = some m.2)
    (hstep : (machine P).step s event = some (s', acts')) :
    Vouches setup s' (events ++ [event]) (acts ++ acts') := by
  cases step_cases hstep with
  | idle =>
    exact h.extend h.parties (fun _ _ hs => absurd hs not_submitted_nil)
      fun _ _ hs => absurd hs not_submitted_nil
  | @bootstrap i addr kad out hboot =>
    obtain ⟨hknows, hsent⟩ := (h.parties i).knows.bootstrap hC hboot
    apply h.kad (List.Subset.refl _) hknows
    intro o ho
    obtain ⟨hvouched, rfl⟩ := hsent o ho
    exact ⟨hvouched, Or.inr ⟨i, rfl⟩⟩
  | @addPeer i bytes kad hbytes hadd =>
    have hself := (h.parties i).knows.self
    obtain ⟨info, hinfo, hupdate⟩ := Kademlia.addPeer_eq_some.mp hadd
    rw [hC.peer _ hself _ hbytes, Option.some.injEq] at hinfo
    subst hinfo
    refine h.extend (forall_setParty h.parties ?_) (fun _ _ hs => absurd hs not_submitted_nil)
      fun _ _ hs => absurd hs not_submitted_nil
    exact ⟨(h.parties i).knows.updatePeer hself hupdate, (h.parties i).queued⟩
  | @say i id data msg hmsg =>
    refine h.extend (forall_setParty h.parties ?_) (fun _ _ hs => absurd hs not_submitted_nil)
      fun _ _ hs => absurd hs not_submitted_nil
    exact ⟨(h.parties i).knows, (h.parties i).queued⟩
  | @kadRecv i src message toKad kad out hqueue hhandle =>
    have habout := (h.parties i).queued (src, message) (hqueue ▸ List.mem_cons_self)
    rw [Kademlia.handleMessage_eq (hK i)] at hhandle
    obtain ⟨hknows, hsent⟩ := (h.parties i).knows.execute hC habout hhandle
    apply h.kad (fun m hm => hqueue ▸ List.mem_cons_of_mem _ hm) hknows
    intro o ho
    obtain ⟨hvouched, p, ⟨j, rfl⟩, hdst⟩ := hsent o ho
    exact ⟨hvouched, Or.inl ⟨j, hdst⟩⟩
  | @gossipRecv i time now src msg toGossip service out hqueue hrecv =>
    obtain ⟨hkad, hrelays, -⟩ := GossipService.recv_relays hrecv
    apply h.gossip hkad
    intro dst message hmem
    obtain ⟨rfl, hp⟩ := hrelays dst message hmem
    exact ⟨(hset i).queued (src, message) (hqueue ▸ List.mem_cons_self), hp⟩
  | @gossip i now beat service out hbeat =>
    obtain ⟨hkad, hrelays, -⟩ := GossipService.gossip_relays hbeat
    apply h.gossip hkad
    intro dst message hmem
    obtain ⟨⟨id, stamp, hlookup⟩, hp⟩ := hrelays dst message hmem
    exact ⟨(hset i).cached id message stamp hlookup, hp⟩
  | @transport _ netEvent network reports htransport hnet =>
    have hnone : ∀ dst message, ¬ Submitted [Act.network netEvent] dst message := by
      intro dst message
      apply not_submitted_network
      intro j dst message heq
      subst heq
      cases event <;> cases htransport
    exact h.extend h.parties (fun dst message hs => absurd hs (hnone dst message))
      fun dst message hs => absurd hs (hnone dst message)
  | @receive i k rest src network reports hnet =>
    have hnone : ∀ dst message, ¬ Submitted [Act.network (.receive i k rest src)] dst message := by
      intro dst message
      apply not_submitted_network
      intro j dst message heq
      cases heq
    refine h.extend (forall_setParty h.parties ⟨(h.parties i).knows, fun m hm => ?_⟩)
      (fun dst message hs => absurd hs (hnone dst message))
      fun dst message hs => absurd hs (hnone dst message)
    rcases List.mem_append.mp hm with hold | hnew
    · exact (h.parties i).queued m hold
    · obtain ⟨dst, message, hsubmitted, hdiscovers, hread⟩ := hrouted i k rest src rfl m hnew
      rw [P.same] at hread
      exact h.vouched dst message hsubmitted hdiscovers m.2 hread

/-- **Run.** -/
theorem vouches_of_run (hK : ∀ i, P.kad.Faithful (setup.info i))
    (hC : P.kad.Keeps (citizens setup)) (hpacket : P.wire.packet.Lawful)
    (hmessage : P.wire.message.Lawful) {events : List (Event ν)} (hfresh : FreshIds events)
    {s : System ν P.wire M} {acts : List (Act ν)}
    (hrun : (machine P).run (new P setup) events = some (s, acts)) :
    Vouches setup s events acts := by
  refine (machine P).run_history_reached
    (P := fun s events acts => FreshIds events → Vouches setup s events acts) ?_
    (fun _ => vouches_new setup) hrun hfresh
  intro s events acts event s' acts' hbefore hprev hstep hfresh
  refine (hprev hfresh.of_concat).step hK hC (network_of_run hK hbefore).1 ?_ hstep
  rintro i k rest src rfl
  obtain ⟨s₁, hnet, -⟩ := Option.bind_eq_some_iff.mp hstep
  obtain ⟨network, reports, hnet, -, -⟩ := stepNetwork_eq_some hnet
  exact (routed_submitted hK hpacket hmessage hfresh hbefore hnet).2

end System

end Udp2p
