import Mathlib.Data.Fintype.Card
import Udp2p.Gossip.Json
import Udp2p.System.Knowledge
import Udp2p.Transport.Closed

/-!
# Does a system of few nodes keep running?

A routing table can be made to panic, by peers that crowd its buckets, and so can a Kademlia
instance, by messages that name peers it cannot read, and a handler, by packets that leave gaps. In
a system of fewer nodes than a bucket may hold none of it comes up: the nodes hear of each other
only, and what they receive they have sent.

* `service_returns`, `network_returns`, `step_returns` — every step returns after a run.
* `small_system_never_panics` — every run returns.
* `no_phantom_peers` — and the nodes know and address each other only.
-/

namespace Udp2p

variable {ν M : Type} [DecidableEq ν] [LinkedHashMap PeerId PeerInfo M] {P : Platform}
  {setup : Setup ν}

/-- What is written is read back, and everything is written: packets, messages and acks, what the
nodes tell each other about themselves, and what their applications say. -/
structure Platform.Serves (P : Platform) (setup : Setup ν) : Prop where
  wire : P.wire.Reliable
  message : P.wire.message.Total
  ack : P.wire.ack.Total
  faithful : ∀ i, P.kad.Faithful (setup.info i)
  keeps : P.kad.Keeps (System.citizens setup)
  gossip : ∀ i id data, (P.gossip.asBytes ⟨id, data, setup.bind i⟩).isSome

/-- There are fewer nodes than a bucket may hold, with IPv4 addresses, and no duration that their
gossip services compute overflows. -/
structure Setup.Modest [Fintype ν] (setup : Setup ν) : Prop where
  few : Fintype.card ν < maxBucketLen
  v4 : ∀ i, ∃ ip port, (setup.info i).address = .v4 ip port
  fits : ∀ i, (setup.config i).Fits

namespace System

/-- Nodes bootstrap from IPv4 addresses. -/
def FromV4 (events : List (Event ν)) : Prop :=
  ∀ i addr, .bootstrap i addr ∈ events → ∃ ip port, addr = .v4 ip port

omit [DecidableEq ν] in
theorem FromV4.of_concat {events : List (Event ν)} {event : Event ν}
    (h : FromV4 (events ++ [event])) : FromV4 events := fun i addr hmem =>
  h i addr (List.mem_append_left _ hmem)

/-! ## The services -/

section Services

variable [Fintype ν]

/-- The local peers of the nodes. -/
def peers (setup : Setup ν) : Finset PeerInfo := Finset.univ.image setup.info

omit [DecidableEq ν] in
theorem citizens_eq (setup : Setup ν) : citizens setup = {peer | peer ∈ peers setup} := by
  ext peer
  simp [citizens, peers]

omit [DecidableEq ν] in
theorem card_peers_lt (h : setup.Modest) : (peers setup).card < maxBucketLen :=
  Nat.lt_of_le_of_lt Finset.card_image_le h.few

omit [DecidableEq ν] in
/-- A party that is as it was set up and knows citizens only has a small Kademlia instance. -/
theorem small_of_within {i : ν} {party : Party M} (hset : party.AsSetUp setup i)
    (hwithin : party.Within P (citizens setup)) :
    party.service.kad.Small (setup.info i) (peers setup) := by
  refine ⟨⟨hset.bucketed, hset.inner, ?_⟩, hset.self, Finset.mem_image_of_mem _ (Finset.mem_univ i)⟩
  rw [← citizens_eq]
  exact hwithin.knows.table

omit [DecidableEq ν] in
/-- The peers to gossip to are found. -/
theorem found_isSome (hsetup : setup.Modest) {i : ν} {party : Party M}
    (hset : party.AsSetUp setup i) (hwithin : party.Within P (citizens setup)) :
    party.service.found.isSome :=
  (small_of_within hset hwithin).kept.getClosestPeers_isSome (card_peers_lt hsetup) _ 30

variable {s : System ν P.wire M} {events : List (Event ν)} {acts : List (Act ν)}

/-- The step of a service of a node returns, if a message of peer discovery it is to handle is about
citizens. -/
theorem service_returns (hP : P.Serves setup) (hsetup : setup.Modest) (hset : s.AsSetUp setup)
    (hvouches : Vouches setup s events acts) (i : ν) (party : Party M)
    (hservice : party.service = (s.parties i).service) {event : GossipService.Event}
    (habout : ∀ message, event = .kad message →
      (Kademlia.planOf P.kad message).About P.kad (citizens setup)) :
    (s.stepService P i party event).isSome := by
  suffices h : ((GossipService.machine P.gossip P.kad (P.depth + 2)).step party.service
      event).isSome by
    obtain ⟨r, hr⟩ := Option.isSome_iff_exists.mp h
    simp [stepService, hr]
  rw [hservice]
  have hfound := found_isSome hsetup (hset i) (hvouches.parties i)
  cases event with
  | kad message =>
    have hsmall := small_of_within (hset i) (hvouches.parties i)
    have hplan := habout message rfl
    have hkeeps := hP.keeps
    rw [citizens_eq] at hplan hkeeps
    obtain ⟨r, hr⟩ := Option.isSome_iff_exists.mp (hsmall.execute_returns (hP.faithful i) hkeeps
      (card_peers_lt hsetup) hplan)
    rw [← Kademlia.handleMessage_eq (hP.faithful i) P.depth] at hr
    simp [GossipService.machine, hr]
  | recv src msg time now => exact GossipService.recv_returns hfound src msg time now
  | gossip now beat =>
    apply GossipService.gossip_returns hfound
    rw [(hset i).config]
    exact hsetup.fits i

end Services

/-! ## The network -/

omit [DecidableEq ν] in
/-- Whatever the services send is for IPv4 addresses. -/
theorem forV4_of_vouches (hv4 : ∀ i, ∃ ip port, (setup.info i).address = .v4 ip port)
    {s : System ν P.wire M} {events : List (Event ν)} {acts : List (Act ν)} (hboot : FromV4 events)
    (h : Vouches setup s events acts) : Network.ForV4 (netEvents acts) := by
  intro i dst message hmem
  obtain ⟨act, hact, hof⟩ := List.mem_filterMap.mp hmem
  cases act with
  | network event =>
    cases hof
    rcases h.dst dst message.1 ⟨i, message.2, hact⟩ with ⟨j, rfl⟩ | ⟨j, hmem⟩
    · exact hv4 j
    · exact hboot j dst hmem
  | toApp => cases hof
  | tx => cases hof

/-- A step of a transport or a handler returns. -/
theorem network_returns (hP : P.Serves setup)
    (hv4 : ∀ i, ∃ ip port, (setup.info i).address = .v4 ip port) {events : List (Event ν)}
    (hfresh : FreshIds events) (hboot : FromV4 events) {s : System ν P.wire M}
    {acts : List (Act ν)} (hrun : (machine P).run (new P setup) events = some (s, acts))
    {netEvent : Network.Event ν} (hnet : ∀ j dst message, netEvent ≠ .submit j dst message) :
    (s.stepNetwork P netEvent).isSome := by
  obtain ⟨-, log, hlog⟩ := network_of_run hP.faithful hrun
  have hvouches := vouches_of_run hP.faithful hP.keeps hP.wire.packet hP.wire.message hfresh hrun
  have hfor := forV4_of_vouches hv4 hboot hvouches
  have hids := hfresh.network hrun
  suffices h : (Network.step P.wire P.text s.network netEvent).isSome by
    obtain ⟨r, hr⟩ := Option.isSome_iff_exists.mp h
    have hr' : (Network.machine P.wire P.text).step s.network netEvent = some r := hr
    simp [stepNetwork, hr']
  cases netEvent with
  | submit j dst message => exact absurd rfl (hnet j dst message)
  | outgoingMsg i packetsId =>
    exact Network.outgoingMsg_returns hP.wire hP.message hv4 hfor hlog i packetsId
  | incomingAck i => exact Network.incomingAck_returns hP.wire hv4 hids hlog i
  | maintain i => rfl
  | receive i k rest src => exact Network.receive_returns hP.wire hP.ack hids hlog i k rest src

/-! ## Runs -/

section Runs

variable [Fintype ν]

/-- **Step.** After a run, any step returns. -/
theorem step_returns (hP : P.Serves setup) (hsetup : setup.Modest) {events : List (Event ν)}
    (hfresh : FreshIds events) (hboot : FromV4 events) {s : System ν P.wire M}
    {acts : List (Act ν)} (hrun : (machine P).run (new P setup) events = some (s, acts))
    (event : Event ν) : (s.step P event).isSome := by
  have hset := (network_of_run hP.faithful hrun).1
  have hvouches := vouches_of_run hP.faithful hP.keeps hP.wire.packet hP.wire.message hfresh hrun
  have hsmall := fun i => small_of_within (hset i) (hvouches.parties i)
  cases event with
  | bootstrap i addr =>
    obtain ⟨r, hr⟩ := Option.isSome_iff_exists.mp
      ((hsmall i).bootstrap_returns (hP.faithful i) (card_peers_lt hsetup) addr)
    simp [step, hr]
  | addPeer i =>
    cases hbytes : P.kad.peer.asBytes (s.parties i).service.kad.routingTable.localInfo with
    | none => simp [step, hbytes]
    | some bytes =>
      obtain ⟨r, hr⟩ := Option.isSome_iff_exists.mp (Kademlia.updatePeer_isSome_iff.mpr
        ((hsmall i).kept.findsRoom (card_peers_lt hsetup) (setup.info i)))
      have hself : setup.info i ∈ citizens setup := ⟨i, rfl⟩
      have hread : P.kad.peer.fromBytes bytes = some (setup.info i) := by
        rw [(hset i).self] at hbytes
        exact hP.keeps.peer _ hself _ hbytes
      have hadd := Kademlia.addPeer_eq_some.mpr ⟨_, hread, hr⟩
      simp [step, hbytes, hadd]
  | say i id data =>
    obtain ⟨msg, hmsg⟩ := Option.isSome_iff_exists.mp (hP.gossip i id data)
    rw [← (hset i).address] at hmsg
    simp [step, hmsg]
  | kadRecv i =>
    cases hqueue : (s.parties i).toKad with
    | nil => simp [step, hqueue]
    | cons m toKad =>
      simp only [step, hqueue]
      refine service_returns hP hsetup hset hvouches i _ ?_ fun message heq => ?_
      · rfl
      · cases heq
        exact (hvouches.parties i).queued m (hqueue ▸ List.mem_cons_self)
  | gossipRecv i time now =>
    cases hqueue : (s.parties i).toGossip with
    | nil => simp [step, hqueue]
    | cons m toGossip =>
      simp only [step, hqueue]
      refine service_returns hP hsetup hset hvouches i _ ?_ fun message heq => ?_
      · rfl
      · cases heq
  | gossip i now beat =>
    apply service_returns hP hsetup hset hvouches i _ rfl
    intro message heq
    cases heq
  | outgoingMsg i packetsId =>
    exact network_returns hP hsetup.v4 hfresh hboot hrun (by simp)
  | incomingAck i =>
    exact network_returns hP hsetup.v4 hfresh hboot hrun (by simp)
  | maintain i =>
    exact network_returns hP hsetup.v4 hfresh hboot hrun (by simp)
  | receive i k rest src =>
    have hnet : (s.stepNetwork P (.receive i k rest src)).isSome :=
      network_returns hP hsetup.v4 hfresh hboot hrun (by simp)
    obtain ⟨r, hr⟩ := Option.isSome_iff_exists.mp hnet
    simp [step, hr]

theorem exists_run (hP : P.Serves setup) (hsetup : setup.Modest) {events : List (Event ν)}
    (hfresh : FreshIds events) (hboot : FromV4 events) : ∃ (s : System ν P.wire M) (acts : _),
    (machine P).run (new P setup) events = some (s, acts) := by
  induction events using List.reverseRecOn with
  | nil => exact ⟨_, _, rfl⟩
  | append_singleton events event ih =>
    obtain ⟨s, acts, hrun⟩ := ih hfresh.of_concat hboot.of_concat
    obtain ⟨⟨s', acts'⟩, hstep⟩ := Option.isSome_iff_exists.mp
      (step_returns hP hsetup hfresh.of_concat hboot.of_concat hrun event)
    exact ⟨s', _, (machine P).run_concat_eq_some.mpr ⟨s, acts, acts', hrun, hstep, rfl⟩⟩

/-- **A small system never panics.** If there are fewer nodes than a bucket may hold, with IPv4
addresses, if they bootstrap from such, every message is split under an id of its own and the
serialisers lose nothing, then every run returns, in whatever order the loops take their steps, and
however datagrams are lost, repeated and reordered. -/
theorem small_system_never_panics (hP : P.Serves setup) (hsetup : setup.Modest)
    {events : List (Event ν)} (hfresh : FreshIds events) (hboot : FromV4 events) :
    ((machine P).run (new P setup : System ν P.wire M) events).isSome := by
  obtain ⟨s, acts, hrun⟩ := exists_run (M := M) hP hsetup hfresh hboot
  rw [hrun]
  rfl

end Runs

/-- **No phantom peers.** Whatever the nodes do, and however datagrams are lost, repeated and
reordered: the peers in the routing table of a node are nodes, and so are those the services send
messages to, beside the addresses they bootstrap from. -/
theorem no_phantom_peers (hK : ∀ i, P.kad.Faithful (setup.info i))
    (hC : P.kad.Keeps (citizens setup)) (hpacket : P.wire.packet.Lawful)
    (hmessage : P.wire.message.Lawful) {events : List (Event ν)} (hfresh : FreshIds events)
    {s : System ν P.wire M} {acts : List (Act ν)}
    (hrun : (machine P).run (new P setup) events = some (s, acts)) :
    (∀ i, ∀ peer ∈ (s.parties i).service.kad.routingTable.getAllPeers,
      ∃ j, peer = setup.info j) ∧
    ∀ dst message, Submitted acts dst message →
      (∃ j, dst = (setup.info j).address) ∨ ∃ j, .bootstrap j dst ∈ events := by
  have h := vouches_of_run hK hC hpacket hmessage hfresh hrun
  refine ⟨fun i peer hpeer => ?_, h.dst⟩
  obtain ⟨j, hj⟩ := (h.parties i).knows.table.mem_getAllPeers hpeer
  exact ⟨j, hj.symm⟩

/-! ## Two nodes -/

open RoutingTable

open Network (firstAddr secondAddr)

open GossipService (someConfig)

/-- They have different ids, keys and addresses. -/
def twoPeers (i : Bool) : PeerInfo :=
  if i then { localPeer with ip := ⟨10, 0, 0, 2⟩, address := firstAddr }
  else { peerAt 128 0 with ip := ⟨10, 0, 0, 3⟩, address := secondAddr }

/-- JSON everywhere. -/
def somePlatform : Platform where
  wire := .json
  kad := .listed [twoPeers true, twoPeers false]
  gossip := .gossipJson
  text := .standard
  depth := 0
  same := rfl

/-- The services are bound to all interfaces. -/
def someSetup : Setup Bool where
  info := twoPeers
  bind _ := .v4 ⟨0, 0, 0, 0⟩ 9292
  config _ := someConfig
  started _ := 0
  draws i n := ⟨n, List.Vector.replicate 32 (if i then 1 else 2)⟩
  picks _ n := n

/-- Packets lying on the wire are received. -/
def receives (i : Bool) (src : SocketAddr) (ks : List Nat) : List (Event Bool) :=
  ks.map fun k => .receive i k [] src

/-- Messages are taken from the queue and split under ids. -/
def sends (i : Bool) (ids : List Nat) : List (Event Bool) :=
  ids.map fun n => .outgoingMsg i (List.Vector.replicate 32 (.ofNat n))

/-- The second node bootstraps from the first: seventeen packets, for each of which the first sends
an ack, and a response, two requests and what it has to say to both of them. The second node
receives the acks, the response and the gossip message. -/
def someEvents : List (Event Bool) :=
  [.addPeer true, .addPeer false, .bootstrap false firstAddr] ++ sends false [1] ++
    receives true secondAddr (List.range 17) ++
    [.kadRecv true, .say true (List.Vector.replicate 32 9) [1, 2, 3], .gossipRecv true 5 5,
      .gossip true 12 12] ++ sends true (List.range' 2 22) ++
    receives false firstAddr (List.range' 17 94 ++ [145, 146]) ++
    [.incomingAck false, .kadRecv false, .gossipRecv false 13 13, .maintain true]

theorem nodup_twoPeers : ([twoPeers true, twoPeers false].map peerJson).Nodup := by decide +kernel

theorem citizens_someSetup :
    citizens someSetup = {peer | peer ∈ [twoPeers true, twoPeers false]} := by
  ext peer
  constructor
  · rintro ⟨i, rfl⟩
    cases i with
    | true => exact List.mem_cons_self
    | false => exact List.mem_cons_of_mem _ List.mem_cons_self
  · intro hmem
    rcases List.mem_pair.mp hmem with rfl | rfl
    · exact ⟨true, rfl⟩
    · exact ⟨false, rfl⟩

theorem some_faithful (i : Bool) : somePlatform.kad.Faithful (someSetup.info i) :=
  KadWire.listed_faithful nodup_twoPeers (by cases i <;> simp [someSetup])

theorem some_keeps : somePlatform.kad.Keeps (citizens someSetup) := by
  rw [citizens_someSetup]
  exact KadWire.listed_keeps nodup_twoPeers

theorem some_serves : somePlatform.Serves someSetup where
  wire := Wire.json_reliable
  message := ByteRep.ofFormat_total _
  ack := ByteRep.ofFormat_total _
  faithful := some_faithful
  keeps := some_keeps
  gossip _ id data := ByteRep.gossipJson_isSome id data _ _

theorem some_modest : someSetup.Modest where
  few := by decide
  v4 i := by
    cases i with
    | false => exact ⟨_, _, rfl⟩
    | true => exact ⟨_, _, rfl⟩
  fits _ := ⟨rfl, rfl, rfl⟩

theorem freshIds_someEvents : FreshIds someEvents := by
  show (someEvents.filterMap Event.packetsId?).Nodup
  decide +kernel

theorem fromV4_someEvents : FromV4 someEvents := by
  intro i addr hmem
  simp only [someEvents, sends, receives, List.mem_append, List.mem_cons, List.mem_map,
    List.not_mem_nil, Event.bootstrap.injEq, reduceCtorEq, and_false, exists_const, or_false,
    false_or] at hmem
  obtain ⟨-, rfl⟩ := hmem
  exact ⟨_, _, rfl⟩

theorem two_nodes_never_panic : ((machine somePlatform).run
    (new somePlatform someSetup : System Bool somePlatform.wire ListedNodes) someEvents).isSome :=
  small_system_never_panics some_serves some_modest freshIds_someEvents fromV4_someEvents

theorem two_nodes_know_nodes_only : ∃ (s : System Bool somePlatform.wire ListedNodes)
    (acts : List (Act Bool)),
    (machine somePlatform).run (new somePlatform someSetup) someEvents = some (s, acts) ∧
    (∀ i, ∀ peer ∈ (s.parties i).service.kad.routingTable.getAllPeers,
      ∃ j, peer = someSetup.info j) ∧
    ∀ dst message, Submitted acts dst message →
      (∃ j, dst = (someSetup.info j).address) ∨ ∃ j, .bootstrap j dst ∈ someEvents := by
  obtain ⟨s, acts, hrun⟩ :=
    exists_run (M := ListedNodes) some_serves some_modest freshIds_someEvents fromV4_someEvents
  exact ⟨s, acts, hrun, no_phantom_peers some_faithful some_keeps Wire.json_reliable.packet
    Wire.json_reliable.message freshIds_someEvents hrun⟩

end System

end Udp2p
