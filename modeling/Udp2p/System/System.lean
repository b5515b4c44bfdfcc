import Udp2p.Discovery.Provenance
import Udp2p.Gossip.Relay
import Udp2p.Transport.Chronicle

/-!
# Whole nodes

A node as the chat example puts it together: a transport and a message handler, as in a network, and
a gossip service with its Kademlia instance, which read from queues the handler fills and write to
the queue of outgoing messages. All nodes run at once, and any of their loop bodies may come next.

The application of a node says things, which the gossip service takes from the queue of incoming
gossip, and is handed what others said.

* `System.step` — what may come next.
* `step_cases` — a step, with all it changes and all it does.
-/

namespace Udp2p

/-- What is outside the repository: the serialisers, how addresses are written, and how many
handlers may call one another, beyond two. -/
structure Platform where
  wire : Wire
  kad : KadWire
  gossip : ByteRep GossipMessage
  text : AddrText
  depth : Nat
  /-- Messages of peer discovery are read as they are written. -/
  same : wire.kad = kad.kad

/-- A gossip service, and the queues it and its Kademlia instance receive from. -/
structure Party (M : Type) where
  service : GossipService M
  toKad : List (SocketAddr × KadMessage)
  toGossip : List (SocketAddr × Message)

structure System (ν : Type) (W : Wire) (M : Type) where
  network : Network ν W
  parties : ν → Party M

/-- How the nodes are set up: their local peers, the addresses they are bound to, and when they are
started. -/
structure Setup (ν : Type) where
  info : ν → PeerInfo
  bind : ν → SocketAddr
  config : ν → GossipConfig
  started : ν → Nat
  draws : ν → Nat → Draw
  picks : ν → Nat → Nat

namespace System

variable {ν M : Type} [DecidableEq ν] [LinkedHashMap PeerId PeerInfo M] (P : Platform)

def new (setup : Setup ν) : System ν P.wire M where
  network := Network.new P.wire fun i => (setup.info i).address
  parties i :=
    { service := .new (setup.bind i)
        (.new (setup.info i) (setup.started i) ∅ (setup.draws i)) (setup.config i)
        (setup.started i) (setup.picks i)
      toKad := []
      toGossip := [] }

/-- What happens in a system: a node bootstraps, adds itself, or says something; its services take a
message each or call `gossip`; its transport and its handler do what they do in a network. -/
inductive Event (ν : Type) where
  | bootstrap (i : ν) (addr : SocketAddr)
  | addPeer (i : ν)
  | say (i : ν) (id : InnerKey) (data : MessageData)
  | kadRecv (i : ν)
  | gossipRecv (i : ν) (time now : Nat)
  | gossip (i : ν) (now beat : Nat)
  | outgoingMsg (i : ν) (packetsId : InnerKey)
  | incomingAck (i : ν)
  | maintain (i : ν)
  | receive (i : ν) (k : Nat) (rest : List UInt8) (src : SocketAddr)

/-- What a step does: something in the network, or a message is handed to an application. -/
inductive Act (ν : Type) where
  | network (event : Network.Event ν)
  | toApp (i : ν) (time : Nat) (message : GossipMessage)
  | tx (i : ν) (message : GossipMessage)

/-- What a service puts in the queue of outgoing messages. -/
def toTransportOf : GossipSend → Option (SocketAddr × Message)
  | .toTransport dst message => some (dst, message)
  | _ => none

/-- What putting it there does; there is nothing to submit an ack with. -/
def actOf (i : ν) : GossipSend → Option (Act ν)
  | .toTransport dst message =>
    if h : message.head ≠ .ack then some (.network (.submit i dst ⟨message, h⟩)) else none
  | .toApp time message => some (.toApp i time message)
  | .tx message => some (.tx i message)

/-- What a handler puts in the queue of the Kademlia instance. -/
def kadOf : HandlerSend → Option (SocketAddr × KadMessage)
  | .kad src message => some (src, message)
  | _ => none

/-- What a handler puts in the queue of the gossip service. -/
def gossipOf : HandlerSend → Option (SocketAddr × Message)
  | .gossip src message => some (src, message)
  | _ => none

variable {P}

def setParty (s : System ν P.wire M) (i : ν) (party : Party M) : System ν P.wire M :=
  { s with parties := Function.update s.parties i party }

omit [LinkedHashMap PeerId PeerInfo M] in
theorem parties_setParty (s : System ν P.wire M) (i : ν) (party : Party M) (j : ν) :
    (s.setParty i party).parties j = if j = i then party else s.parties j :=
  Function.update_apply s.parties i party j

/-- A service of node `i` has left the party so, and has sent `out`. -/
def serve (s : System ν P.wire M) (i : ν) (party : Party M) (out : List GossipSend) :
    System ν P.wire M × List (Act ν) :=
  let node := s.network.nodes i
  let network := s.network.set i { node with om := node.om ++ out.filterMap toTransportOf }
  ({ s.setParty i party with network }, out.filterMap (actOf i))

variable (P)

/-- What the handler of node `i` puts on its channels on receiving the `k`-th datagram. -/
def sendsOf (s : Network ν P.wire) (i : ν) (k : Nat) (rest : List UInt8) (src : SocketAddr) :
    List HandlerSend :=
  match s.wire[k]? with
  | none => []
  | some x =>
    let node := s.nodes i
    ((node.handler.recvMsg P.wire P.text node.addr (x.bytes ++ rest) x.bytes.length src).map
      Prod.snd).getD []

/-- A step of the transport or the handler of a node. -/
def stepNetwork (s : System ν P.wire M) (event : Network.Event ν) :
    Option (System ν P.wire M × List (Act ν)) := do
  let (network, _) ← (Network.machine P.wire P.text).step s.network event
  return ({ s with network }, [.network event])

/-- A step of the gossip service of a node. -/
def stepService (s : System ν P.wire M) (i : ν) (party : Party M) (event : GossipService.Event) :
    Option (System ν P.wire M × List (Act ν)) := do
  let (service, out) ←
    (GossipService.machine P.gossip P.kad (P.depth + 2)).step party.service event
  return s.serve i { party with service } out

def step (s : System ν P.wire M) : Event ν → Option (System ν P.wire M × List (Act ν))
  | .bootstrap i addr => do
    let party := s.parties i
    let (kad, out) ← party.service.kad.bootstrap P.kad addr
    return s.serve i { party with service := { party.service with kad } }
      (out.map fun o => .toTransport o.dst o.message)
  | .addPeer i =>
    let party := s.parties i
    match P.kad.peer.asBytes party.service.kad.routingTable.localInfo with
    | some bytes => do
      let kad ← party.service.kad.addPeer P.kad bytes
      return (s.setParty i { party with service := { party.service with kad } }, [])
    | none => some (s, [])
  | .say i id data => do
    let party := s.parties i
    let address := party.service.address
    let msg ← P.gossip.asBytes { id, data, sender := address }
    let toGossip := party.toGossip ++ [(address, { head := .gossip, msg })]
    return (s.setParty i { party with toGossip }, [])
  | .kadRecv i =>
    let party := s.parties i
    match party.toKad with
    | [] => some (s, [])
    | (_, message) :: toKad => s.stepService P i { party with toKad } (.kad message)
  | .gossipRecv i time now =>
    let party := s.parties i
    match party.toGossip with
    | [] => some (s, [])
    | (src, msg) :: toGossip => s.stepService P i { party with toGossip } (.recv src msg time now)
  | .gossip i now beat => s.stepService P i (s.parties i) (.gossip now beat)
  | .outgoingMsg i packetsId => s.stepNetwork P (.outgoingMsg i packetsId)
  | .incomingAck i => s.stepNetwork P (.incomingAck i)
  | .maintain i => s.stepNetwork P (.maintain i)
  | .receive i k rest src => do
    let (s', acts) ← s.stepNetwork P (.receive i k rest src)
    let party := s.parties i
    let sends := sendsOf P s.network i k rest src
    let toKad := party.toKad ++ sends.filterMap kadOf
    let toGossip := party.toGossip ++ sends.filterMap gossipOf
    return (s'.setParty i { party with toKad, toGossip }, acts)

def machine : Machine (System ν P.wire M) (Event ν) (Act ν) where
  step := step P

/-! ## What a step can do -/

variable {P}

/-- An event of the transport of a node. -/
def transportEvent : Event ν → Option (Network.Event ν)
  | .outgoingMsg i packetsId => some (.outgoingMsg i packetsId)
  | .incomingAck i => some (.incomingAck i)
  | .maintain i => some (.maintain i)
  | _ => none

variable (P) in
/-- A step, with all it changes and all it does. -/
inductive Step (s : System ν P.wire M) : Event ν → System ν P.wire M → List (Act ν) → Prop where
  | idle {event : Event ν} : Step s event s []
  | bootstrap {i : ν} {addr : SocketAddr} {kad : Kademlia M} {out : List Outgoing}
    (asks : (s.parties i).service.kad.bootstrap P.kad addr = some (kad, out)) :
    Step s (.bootstrap i addr)
      (s.serve i { s.parties i with service := { (s.parties i).service with kad } }
        (out.map fun o => .toTransport o.dst o.message)).1
      (s.serve i { s.parties i with service := { (s.parties i).service with kad } }
        (out.map fun o => .toTransport o.dst o.message)).2
  | addPeer {i : ν} {bytes : Peer} {kad : Kademlia M}
    (writes : P.kad.peer.asBytes (s.parties i).service.kad.routingTable.localInfo = some bytes)
    (adds : (s.parties i).service.kad.addPeer P.kad bytes = some kad) :
    Step s (.addPeer i)
      (s.setParty i { s.parties i with service := { (s.parties i).service with kad } }) []
  | say {i : ν} {id : InnerKey} {data : MessageData} {msg : MessageData}
    (writes : P.gossip.asBytes ⟨id, data, (s.parties i).service.address⟩ = some msg) :
    Step s (.say i id data)
      (s.setParty i { s.parties i with
        toGossip := (s.parties i).toGossip ++ [((s.parties i).service.address, ⟨.gossip, msg⟩)] })
      []
  | kadRecv {i : ν} {src : SocketAddr} {message : KadMessage}
    {toKad : List (SocketAddr × KadMessage)} {kad : Kademlia M} {out : List Outgoing}
    (queue : (s.parties i).toKad = (src, message) :: toKad)
    (handles : (s.parties i).service.kad.handleMessage P.kad (P.depth + 2) message =
      some (kad, out)) :
    Step s (.kadRecv i)
      (s.serve i { s.parties i with toKad, service := { (s.parties i).service with kad } }
        (out.map fun o => .toTransport o.dst o.message)).1
      (s.serve i { s.parties i with toKad, service := { (s.parties i).service with kad } }
        (out.map fun o => .toTransport o.dst o.message)).2
  | gossipRecv {i : ν} {time now : Nat} {src : SocketAddr} {msg : Message}
    {toGossip : List (SocketAddr × Message)} {service : GossipService M} {out : List GossipSend}
    (queue : (s.parties i).toGossip = (src, msg) :: toGossip)
    (receives : (s.parties i).service.recv P.gossip src msg time now = some (service, out)) :
    Step s (.gossipRecv i time now) (s.serve i { s.parties i with toGossip, service } out).1
      (s.serve i { s.parties i with toGossip, service } out).2
  | gossip {i : ν} {now beat : Nat} {service : GossipService M} {out : List GossipSend}
    (beats : (s.parties i).service.gossip P.gossip now beat = some (service, out)) :
    Step s (.gossip i now beat) (s.serve i { s.parties i with service } out).1
      (s.serve i { s.parties i with service } out).2
  | transport {event : Event ν} {netEvent : Network.Event ν} {network : Network ν P.wire}
    {reports : List (Network.Report ν)} (is_transport : transportEvent event = some netEvent)
    (steps : (Network.machine P.wire P.text).step s.network netEvent = some (network, reports)) :
    Step s event { s with network } [.network netEvent]
  | receive {i : ν} {k : Nat} {rest : List UInt8} {src : SocketAddr} {network : Network ν P.wire}
    {reports : List (Network.Report ν)}
    (steps : (Network.machine P.wire P.text).step s.network (.receive i k rest src) =
      some (network, reports)) :
    Step s (.receive i k rest src)
      { s.setParty i { s.parties i with
          toKad := (s.parties i).toKad ++ (sendsOf P s.network i k rest src).filterMap kadOf
          toGossip := (s.parties i).toGossip ++
            (sendsOf P s.network i k rest src).filterMap gossipOf } with network }
      [.network (.receive i k rest src)]

omit [LinkedHashMap PeerId PeerInfo M] in
theorem stepNetwork_eq_some {s s' : System ν P.wire M} {event : Network.Event ν}
    {acts : List (Act ν)} (h : s.stepNetwork P event = some (s', acts)) : ∃ network reports,
      (Network.machine P.wire P.text).step s.network event = some (network, reports) ∧
      s' = { s with network } ∧ acts = [.network event] := by
  obtain ⟨⟨network, reports⟩, hstep, heq⟩ := Option.bind_eq_some_iff.mp h
  cases heq
  exact ⟨network, reports, hstep, rfl, rfl⟩

/-- **What a step can do.** -/
theorem step_cases {s s' : System ν P.wire M} {event : Event ν} {acts : List (Act ν)}
    (h : (machine P).step s event = some (s', acts)) : Step P s event s' acts := by
  change s.step P event = some (s', acts) at h
  cases event with
  | bootstrap i addr =>
    obtain ⟨⟨kad, out⟩, hboot, heq⟩ := Option.bind_eq_some_iff.mp h
    cases heq
    exact .bootstrap hboot
  | addPeer i =>
    cases hbytes : P.kad.peer.asBytes (s.parties i).service.kad.routingTable.localInfo with
    | none =>
      simp only [step, hbytes] at h
      cases h
      exact .idle
    | some bytes =>
      simp only [step, hbytes] at h
      obtain ⟨kad, hadd, heq⟩ := Option.bind_eq_some_iff.mp h
      cases heq
      exact .addPeer hbytes hadd
  | say i id data =>
    obtain ⟨msg, hmsg, heq⟩ := Option.bind_eq_some_iff.mp h
    cases heq
    exact .say hmsg
  | kadRecv i =>
    cases hqueue : (s.parties i).toKad with
    | nil =>
      simp only [step, hqueue] at h
      cases h
      exact .idle
    | cons m toKad =>
      simp only [step, hqueue] at h
      obtain ⟨⟨service, out⟩, hstep, heq⟩ := Option.bind_eq_some_iff.mp h
      obtain ⟨⟨kad, sent⟩, hhandle, hsame⟩ := Option.map_eq_some_iff.mp hstep
      cases hsame
      cases heq
      exact .kadRecv hqueue hhandle
  | gossipRecv i time now =>
    cases hqueue : (s.parties i).toGossip with
    | nil =>
      simp only [step, hqueue] at h
      cases h
      exact .idle
    | cons m toGossip =>
      simp only [step, hqueue] at h
      obtain ⟨⟨service, out⟩, hstep, heq⟩ := Option.bind_eq_some_iff.mp h
      cases heq
      exact .gossipRecv hqueue hstep
  | gossip i now beat =>
    obtain ⟨⟨service, out⟩, hstep, heq⟩ := Option.bind_eq_some_iff.mp h
    cases heq
    exact .gossip hstep
  | outgoingMsg i packetsId =>
    obtain ⟨network, reports, hstep, rfl, rfl⟩ := stepNetwork_eq_some h
    exact .transport rfl hstep
  | incomingAck i =>
    obtain ⟨network, reports, hstep, rfl, rfl⟩ := stepNetwork_eq_some h
    exact .transport rfl hstep
  | maintain i =>
    obtain ⟨network, reports, hstep, rfl, rfl⟩ := stepNetwork_eq_some h
    exact .transport rfl hstep
  | receive i k rest src =>
    obtain ⟨⟨s₁, acts₁⟩, hnet, heq⟩ := Option.bind_eq_some_iff.mp h
    obtain ⟨network, reports, hstep, rfl, rfl⟩ := stepNetwork_eq_some hnet
    cases heq
    exact .receive hstep

end System

end Udp2p
